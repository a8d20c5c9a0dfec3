import EynOS.Foundation.MachineWord
import EynOS.Foundation.Reader
import Mathlib.Data.List.TakeWhile

/-!
# Names in messages of the resolver

`dns_encode_name` and `dns_skip_name` of `netstack.c`. The encoder cuts a dotted name into labels
and writes each one behind a byte with its length; the skipper walks over such a name, or over a
compression pointer, inside a message. `decodeLabels` says what the written bytes mean. A name that
the encoder accepts is the labels that its output decodes to, joined with dots, and the skipper that
starts at the output ends right behind it (`encodes_name`).

A name is the bytes of a C string before its terminating zero. Null pointers are left out.
-/

namespace EynOS.Network.Dns

open Foundation Traced

/-! ### Encoding -/

/-- `NET_DNS_MAX_NAME`. -/
def maxName : ℕ := 253

/-- `NET_DNS_MAX_LABEL`. -/
def maxLabel : ℕ := 63

/-- The byte between two labels of a name. -/
def dot : UInt8 := 46

def skipDot : List UInt8 → List UInt8
  | [] => []
  | byte :: rest => if byte = dot then rest else byte :: rest

theorem length_skipDot_le (name : List UInt8) : (skipDot name).length ≤ name.length := by
  cases name with
  | nil => exact Nat.le_refl _
  | cons byte rest =>
    rw [skipDot]
    split_ifs
    · exact Nat.le_succ _
    · exact Nat.le_refl _

def firstLabel (name : List UInt8) : List UInt8 :=
  name.takeWhile (· ≠ dot)

/-- The loop of `dns_encode_name`, from a rest of the name and what has been written. -/
def encodeLabels (outCap : ℕ) (name out : List UInt8) : Except ℤ (List UInt8) :=
  if name = [] then
    if outCap < out.length + 1 then .error (-6) else .ok (out ++ [0])
  else
    let label := firstLabel name
    if label.length = 0 ∨ maxLabel < label.length then .error (-4)
    else if outCap < out.length + 1 + label.length + 1 then .error (-5)
    else
      encodeLabels outCap (skipDot (name.drop label.length))
        (out ++ UInt8.ofNat label.length :: label)
termination_by name.length
decreasing_by
  have hshort := length_skipDot_le (name.drop (firstLabel name).length)
  rw [List.length_drop] at hshort
  have hlabel : (firstLabel name).length ≤ name.length := (List.takeWhile_prefix _).length_le
  grind

/-- `dns_encode_name`: its failure, or the bytes that it wrote. -/
def dnsEncodeName (name : List UInt8) (outCap : ℕ) : Except ℤ (List UInt8) :=
  if name = [] then .error (-2)
  else if maxName < name.length then .error (-3)
  else encodeLabels outCap name []

/-! ### Skipping -/

/-- A turn of the loop of `dns_skip_name`. -/
def skipTurn (msg : ℕ → UInt8) (len off : ℕ) : Reader (Except ℤ ℕ ⊕ ℕ) :=
  if off < len then do
    let b ← Reader.readByte msg off
    if b = 0 then pure (.inl (.ok (u32 (off + 1))))
    else if b &&& 0xC0 = 0xC0 then
      if len ≤ u32 (off + 1) then pure (.inl (.error (-2)))
      else pure (.inl (.ok (u32 (off + 2))))
    else if maxLabel < b.toNat then pure (.inl (.error (-3)))
    else
      let off := u32 (off + 1)
      if len < u32 (off + b.toNat) then pure (.inl (.error (-4)))
      else pure (.inr (u32 (off + b.toNat)))
  else pure (.inl (.error (-5)))

/-- `dns_skip_name`: its failure, or the offset behind the name. Every turn moves the offset on, so
that the loop has left after as many turns as the message has bytes and one more. -/
def dnsSkipName (msg : ℕ → UInt8) (len off : ℕ) : Reader (Except ℤ ℕ) :=
  Reader.turns (skipTurn msg len) (len + 1) off

/-! ### What a name means -/

/-- The labels of an encoded name: a byte with a length before each one, and a zero at the end. -/
def decodeLabels : List UInt8 → Option (List (List UInt8))
  | [] => none
  | byte :: rest =>
    if byte = 0 then if rest = [] then some [] else none
    else if rest.length < byte.toNat then none
    else (decodeLabels (rest.drop byte.toNat)).map (rest.take byte.toNat :: ·)
termination_by encoded => encoded.length
decreasing_by
  rw [List.length_drop, List.length_cons]
  omega

def joinLabels (labels : List (List UInt8)) : List UInt8 :=
  [dot].intercalate labels

def withoutTrailingDot (name : List UInt8) : List UInt8 :=
  if name.getLast? = some dot then name.dropLast else name

/-- A label of a domain name: one to 63 bytes, none of which ends it. -/
structure ValidLabel (label : List UInt8) : Prop where
  nonempty : label ≠ []
  short : label.length ≤ maxLabel
  noDot : dot ∉ label

def encodedLabels (labels : List (List UInt8)) : List UInt8 :=
  labels.flatMap fun label ↦ UInt8.ofNat label.length :: label

/-- How labels are written as a name, with or without a dot behind the last one. -/
inductive Spells : List (List UInt8) → List UInt8 → Prop
  | nil : Spells [] []
  | last (label : List UInt8) : Spells [label] label
  | cons (label : List UInt8) {labels : List (List UInt8)} {name : List UInt8}
    (hrest : Spells labels name) : Spells (label :: labels) (label ++ dot :: name)

/-- A message has the bytes of an encoded name at an offset. -/
def Contains (msg : ℕ → UInt8) (len off : ℕ) (encoded : List UInt8) : Prop :=
  off + encoded.length ≤ len ∧ Reader.Holds msg off encoded

variable {label name out rest : List UInt8} {labels : List (List UInt8)} {outCap len off bound : ℕ}
  {msg : ℕ → UInt8}

/-! ### Names and labels -/

theorem encodedLabels_cons (label : List UInt8) (labels : List (List UInt8)) :
    encodedLabels (label :: labels) =
      UInt8.ofNat label.length :: (label ++ encodedLabels labels) := rfl

theorem ValidLabel.toNat_length (hlabel : ValidLabel label) :
    (UInt8.ofNat label.length).toNat = label.length := by
  have hshort := hlabel.short
  rw [maxLabel] at hshort
  rw [UInt8.toNat_ofNat']
  exact Nat.mod_eq_of_lt (by omega)

theorem ValidLabel.length_ne_zero (hlabel : ValidLabel label) :
    UInt8.ofNat label.length ≠ 0 := by
  intro hzero
  have hlength := hlabel.toNat_length
  rw [hzero] at hlength
  exact hlabel.nonempty (List.length_eq_zero_iff.mp hlength.symm)

theorem ValidLabel.not_pointer (hlabel : ValidLabel label) :
    ¬UInt8.ofNat label.length &&& 0xC0 = 0xC0 := by
  intro hpointer
  have hvalue := congrArg UInt8.toNat hpointer
  rw [UInt8.toNat_and, hlabel.toNat_length] at hvalue
  have hle : label.length &&& (0xC0 : UInt8).toNat ≤ label.length := Nat.and_le_left
  rw [hvalue] at hle
  have hshort := hlabel.short
  rw [maxLabel] at hshort
  exact absurd (Nat.le_trans hle hshort) (by decide)

theorem decodeLabels_encoded (hlabels : ∀ label ∈ labels, ValidLabel label) :
    decodeLabels (encodedLabels labels ++ [0]) = some labels := by
  induction labels with
  | nil =>
    unfold encodedLabels decodeLabels
    rfl
  | cons label labels ih =>
    obtain ⟨hlabel, hrest⟩ := List.forall_mem_cons.mp hlabels
    rw [encodedLabels_cons, List.cons_append, List.append_assoc, decodeLabels,
      if_neg hlabel.length_ne_zero, hlabel.toNat_length, if_neg (by simp),
      List.drop_left, List.take_left, ih hrest]
    rfl

/-- A name has a byte for every byte of its encoded labels but the first. -/
theorem Spells.length_encoded (hspells : Spells labels name) :
    (encodedLabels labels).length ≤ name.length + 1 := by
  induction hspells with
  | nil => exact Nat.zero_le _
  | last label => simp [encodedLabels]
  | cons label _ ih =>
    simp only [encodedLabels_cons, List.length_cons, List.length_append]
    omega

theorem Spells.eq_nil (hspells : Spells labels name)
    (hlabels : ∀ label ∈ labels, ValidLabel label) :
    name = [] ↔ labels = [] := by
  cases hspells with
  | nil => simp
  | last =>
    have hname := (hlabels name (List.mem_singleton_self name)).nonempty
    simpa using hname
  | cons label _ => simp

/-- A name without a dot at its end is its labels joined with dots. -/
theorem Spells.join (hspells : Spells labels name) (hlabels : ∀ label ∈ labels, ValidLabel label) :
    joinLabels labels = withoutTrailingDot name := by
  induction hspells with
  | nil => rfl
  | last label =>
    have hdot : ¬label.getLast? = some dot := fun hlast ↦
      (hlabels label (List.mem_singleton_self label)).noDot (List.mem_of_getLast? hlast)
    rw [withoutTrailingDot, if_neg hdot]
    exact List.intercalate_singleton
  | @cons label labels name hrest ih =>
    obtain ⟨-, hlater⟩ := List.forall_mem_cons.mp hlabels
    by_cases hnil : labels = []
    · obtain rfl := (hrest.eq_nil hlater).mpr hnil
      rw [hnil, withoutTrailingDot, if_pos (by simp), List.dropLast_concat]
      exact List.intercalate_singleton
    · have hname : name ≠ [] := fun hname ↦ hnil ((hrest.eq_nil hlater).mp hname)
      have hjoin : joinLabels (label :: labels) = label ++ dot :: joinLabels labels := by
        rw [joinLabels, List.intercalate_cons_of_ne_nil hnil, List.append_assoc]
        rfl
      rw [hjoin, ih hlater]
      unfold withoutTrailingDot
      rw [List.getLast?_append_of_ne_nil _ (List.cons_ne_nil _ _),
        List.getLast?_cons_of_ne_nil hname]
      split_ifs
      · rw [List.dropLast_append_of_ne_nil (List.cons_ne_nil _ _),
          List.dropLast_cons_of_ne_nil hname]
      · rfl

theorem spells_joinLabels (labels : List (List UInt8)) : Spells labels (joinLabels labels) := by
  induction labels with
  | nil => exact .nil
  | cons label labels ih =>
    cases labels with
    | nil =>
      rw [joinLabels, List.intercalate_singleton]
      exact .last label
    | cons next later =>
      rw [joinLabels, List.intercalate_cons_of_ne_nil (List.cons_ne_nil _ _), List.append_assoc]
      exact .cons label ih

/-- So are labels joined with dots and followed by one. -/
theorem spells_trailingDot (hlabels : labels ≠ []) :
    Spells labels (joinLabels labels ++ [dot]) := by
  induction labels with
  | nil => exact absurd rfl hlabels
  | cons label labels ih =>
    cases labels with
    | nil =>
      rw [joinLabels, List.intercalate_singleton]
      exact .cons label .nil
    | cons next later =>
      rw [joinLabels, List.intercalate_cons_of_ne_nil (List.cons_ne_nil _ _), List.append_assoc,
        List.append_assoc]
      exact .cons label (ih (List.cons_ne_nil _ _))

/-! ### What the encoder does -/

/-- A label and what follows it are a name that starts with the label. -/
theorem firstLabel_append (hlabel : dot ∉ label)
    (hrest : rest = [] ∨ ∃ later, rest = dot :: later) :
    firstLabel (label ++ rest) = label := by
  have hbefore : ∀ byte ∈ label, decide (byte ≠ dot) = true := fun byte hbyte ↦
    decide_eq_true (ne_of_mem_of_not_mem hbyte hlabel)
  unfold firstLabel
  rw [List.takeWhile_append_of_pos hbefore]
  obtain rfl | ⟨later, rfl⟩ := hrest
  · exact List.append_nil label
  · simp

theorem encodeLabels_label (hlabel : ValidLabel label)
    (hrest : rest = [] ∨ ∃ later, rest = dot :: later) :
    encodeLabels outCap (label ++ rest) out =
      if outCap < out.length + 1 + label.length + 1 then .error (-5)
      else
        encodeLabels outCap (skipDot rest) (out ++ UInt8.ofNat label.length :: label) := by
  have hsize : ¬(label.length = 0 ∨ maxLabel < label.length) := by
    rintro (hempty | hlong)
    · exact hlabel.nonempty (List.length_eq_zero_iff.mp hempty)
    · exact absurd hlabel.short (Nat.not_le_of_lt hlong)
  rw [encodeLabels, if_neg (List.append_ne_nil_of_left_ne_nil hlabel.nonempty rest)]
  simp only [firstLabel_append hlabel.noDot hrest, if_neg hsize, List.drop_left]

/-- The encoder accepts the labels that it has room for. -/
theorem encodeLabels_of_spells (hspells : Spells labels name)
    (hlabels : ∀ label ∈ labels, ValidLabel label)
    (hroom : out.length + (encodedLabels labels).length + 1 ≤ outCap) :
    encodeLabels outCap name out = .ok (out ++ encodedLabels labels ++ [0]) := by
  induction hspells generalizing out with
  | nil =>
    have hend : out.length + 1 ≤ outCap := hroom
    rw [encodeLabels, if_pos rfl, if_neg (Nat.not_lt_of_le hend), encodedLabels,
      List.flatMap_nil, List.append_nil]
  | last label =>
    obtain ⟨hlabel, -⟩ := List.forall_mem_cons.mp hlabels
    rw [encodedLabels_cons, List.length_cons, List.length_append] at hroom
    rw [← List.append_nil label, encodeLabels_label hlabel (Or.inl rfl), if_neg (by omega), skipDot,
      encodeLabels, if_pos rfl, encodedLabels_cons, if_neg]
    · simp [encodedLabels]
    · rw [List.length_append, List.length_cons]
      omega
  | cons label hrest ih =>
    obtain ⟨hlabel, hlater⟩ := List.forall_mem_cons.mp hlabels
    rw [encodedLabels_cons, List.length_cons, List.length_append] at hroom
    rw [encodeLabels_label hlabel (Or.inr ⟨_, rfl⟩), if_neg (by omega), skipDot, if_pos rfl,
      ih hlater, encodedLabels_cons]
    · simp
    · rw [List.length_append, List.length_cons]
      omega

theorem firstLabel_append_drop (name : List UInt8) :
    firstLabel name ++ name.drop (firstLabel name).length = name := by
  have hpre : firstLabel name <+: name := List.takeWhile_prefix _
  exact List.prefix_iff_eq_append.mp hpre

/-- What is left behind the first label of a name starts with a dot. -/
theorem drop_firstLabel (name : List UInt8) :
    name.drop (firstLabel name).length = [] ∨
      ∃ later, name.drop (firstLabel name).length = dot :: later := by
  have hdrop : name.drop (firstLabel name).length = name.dropWhile (· ≠ dot) := by
    have happend := firstLabel_append_drop name
    conv_rhs at happend => rw [← List.takeWhile_append_dropWhile (p := (· ≠ dot)) (l := name)]
    exact List.append_cancel_left happend
  rw [hdrop]
  cases hrest : name.dropWhile (· ≠ dot) with
  | nil => exact Or.inl rfl
  | cons byte later =>
    have hbyte := List.head?_dropWhile_not (· ≠ dot) name
    rw [hrest] at hbyte
    refine Or.inr ⟨later, ?_⟩
    simpa using hbyte

/-- What the encoder accepts is a name whose labels are valid, and what it writes are they, within
the room. -/
theorem spells_of_encodeLabels {result : List UInt8}
    (hresult : encodeLabels outCap name out = .ok result) :
    result.length ≤ outCap ∧ ∃ labels, Spells labels name ∧
      (∀ label ∈ labels, ValidLabel label) ∧ result = out ++ encodedLabels labels ++ [0] := by
  fun_induction encodeLabels outCap name out with
  | case1 => exact nomatch hresult
  | case2 out hroom =>
    obtain rfl := Except.ok.inj hresult
    refine ⟨?_, [], .nil, by simp, by simp [encodedLabels]⟩
    rw [List.length_append, List.length_singleton]
    exact Nat.le_of_not_lt hroom
  | case3 => exact nomatch hresult
  | case4 => exact nomatch hresult
  | case5 name out hname label hsize _ ih =>
    obtain ⟨hcap, labels, hspells, hlabels, rfl⟩ := ih hresult
    obtain ⟨hnonempty, hshort⟩ := not_or.mp hsize
    have hlabel : ValidLabel label :=
      { nonempty := fun hempty ↦ hnonempty (List.length_eq_zero_iff.mpr hempty)
        short := Nat.le_of_not_lt hshort
        noDot := fun hdot ↦ by simpa using List.mem_takeWhile_imp hdot }
    refine ⟨hcap, label :: labels, ?_, List.forall_mem_cons.mpr ⟨hlabel, hlabels⟩, ?_⟩
    · have happend := firstLabel_append_drop name
      obtain hrest | ⟨later, hrest⟩ := drop_firstLabel name
      · rw [hrest, List.append_nil] at happend
        change Spells labels (skipDot (name.drop (firstLabel name).length)) at hspells
        rw [hrest, skipDot] at hspells
        obtain rfl := (hspells.eq_nil hlabels).mp rfl
        rw [← happend]
        exact .last label
      · change Spells labels (skipDot (name.drop (firstLabel name).length)) at hspells
        rw [hrest, skipDot, if_pos rfl] at hspells
        rw [← happend, hrest]
        exact .cons label hspells
    · rw [encodedLabels_cons]
      simp

/-! ### What the skipper does -/

/-- A message with a name has the byte that it starts with. -/
theorem Contains.head {byte : UInt8} {encoded : List UInt8}
    (hcontains : Contains msg len off (byte :: encoded)) : off < len ∧ msg off = byte := by
  obtain ⟨hlen, hholds⟩ := hcontains
  rw [List.length_cons] at hlen
  exact ⟨by omega, (Reader.holds_cons.mp hholds).1⟩

/-- A message with a name has what follows its first bytes. -/
theorem Contains.tail {first encoded : List UInt8}
    (hcontains : Contains msg len off (first ++ encoded)) :
    Contains msg len (off + first.length) encoded := by
  obtain ⟨hlen, hholds⟩ := hcontains
  rw [List.length_append] at hlen
  exact ⟨by omega, (Reader.holds_append.mp hholds).2⟩

theorem skipTurn_zero (hlen : len < 4294967296) (hoff : off < len) (hbyte : msg off = 0) :
    (skipTurn msg len off).Yields (.inl (.ok (off + 1))) := by
  rw [skipTurn, if_pos hoff, yields_bind]
  refine ⟨0, Reader.yields_readByte.mpr hbyte, ?_⟩
  rw [if_pos rfl, u32_of_lt _ (by omega)]
  exact (yields_pure _ _).mpr rfl

theorem skipTurn_label (hlen : len < 4294967296) (hlabel : ValidLabel label)
    (hbyte : msg off = UInt8.ofNat label.length) (hend : off + 1 + label.length ≤ len) :
    (skipTurn msg len off).Yields (.inr (off + 1 + label.length)) := by
  rw [skipTurn, if_pos (by omega), yields_bind]
  refine ⟨_, Reader.yields_readByte.mpr hbyte, ?_⟩
  rw [if_neg hlabel.length_ne_zero, if_neg hlabel.not_pointer, hlabel.toNat_length,
    if_neg (Nat.not_lt_of_le hlabel.short), u32_of_lt (off + 1) (by omega)]
  dsimp only
  rw [u32_of_lt _ (by omega), if_neg (Nat.not_lt_of_le hend)]
  exact (yields_pure _ _).mpr rfl

/-- The skipper comes from an encoded name to what is right behind it. -/
theorem yields_skip (hlen : len < 4294967296) (hlabels : ∀ label ∈ labels, ValidLabel label)
    (hcontains : Contains msg len off (encodedLabels labels ++ [0])) :
    (Reader.turns (skipTurn msg len) (labels.length + 1) off).Yields
      (.ok (off + (encodedLabels labels ++ [0]).length)) := by
  induction labels generalizing off with
  | nil =>
    obtain ⟨hoff, hbyte⟩ := hcontains.head
    exact yields_bind.mpr ⟨_, skipTurn_zero hlen hoff hbyte, (yields_pure _ _).mpr rfl⟩
  | cons label labels ih =>
    obtain ⟨hlabel, hlater⟩ := List.forall_mem_cons.mp hlabels
    rw [encodedLabels_cons, List.cons_append, List.append_assoc] at hcontains ⊢
    obtain ⟨hoff, hbyte⟩ := hcontains.head
    rw [← List.cons_append] at hcontains
    have hrest := hcontains.tail
    rw [List.length_cons, Nat.add_comm label.length 1, ← Nat.add_assoc] at hrest
    have hend : off + 1 + label.length ≤ len := Nat.le_trans (Nat.le_add_right _ _) hrest.1
    refine yields_bind.mpr ⟨_, skipTurn_label hlen hlabel hbyte hend, ?_⟩
    have hsame :
      off + (UInt8.ofNat label.length :: (label ++ (encodedLabels labels ++ [0]))).length =
        off + 1 + label.length + (encodedLabels labels ++ [0]).length := by
      simp only [List.length_cons, List.length_append]
      omega
    rw [hsame]
    exact ih hlater hrest

/-- There are at least as many encoded bytes as labels. -/
theorem length_le_encoded (labels : List (List UInt8)) :
    labels.length ≤ (encodedLabels labels).length := by
  induction labels with
  | nil => exact Nat.le_refl _
  | cons label labels ih =>
    simp only [encodedLabels_cons, List.length_cons, List.length_append]
    omega

/-! ### Names that are encoded -/

/-- Whatever `dns_encode_name` accepts is at most 255 bytes, decodes to labels that are the name
when they are joined with dots, and is stepped over whole by `dns_skip_name` wherever it stands in a
message. It accepts every dotted name of at most 253 bytes with labels of one to 63 bytes that the
buffer has room for. -/
theorem encodes_name (name : List UInt8) (outCap : ℕ) :
    (∀ out, dnsEncodeName name outCap = .ok out →
      out.length ≤ 255 ∧ out.length ≤ outCap ∧
        (∃ labels, decodeLabels out = some labels ∧
          joinLabels labels = withoutTrailingDot name) ∧
        ∀ msg len off, len < 4294967296 → Contains msg len off out →
          (dnsSkipName msg len off).Yields (.ok (off + out.length))) ∧
      ∀ labels, labels ≠ [] → (∀ label ∈ labels, ValidLabel label) →
        (name = joinLabels labels ∨ name = joinLabels labels ++ [dot]) → name.length ≤ 253 →
        (encodedLabels labels).length + 1 ≤ outCap →
        dnsEncodeName name outCap = .ok (encodedLabels labels ++ [0]) := by
  constructor
  · intro out hout
    rw [dnsEncodeName] at hout
    split_ifs at hout with hname hlong
    obtain ⟨hcap, labels, hspells, hlabels, rfl⟩ := spells_of_encodeLabels hout
    rw [List.nil_append] at hcap ⊢
    have hlength : (encodedLabels labels ++ [0]).length = (encodedLabels labels).length + 1 :=
      List.length_append
    have hspelled := hspells.length_encoded
    rw [maxName] at hlong
    refine ⟨by omega, hcap, ⟨labels, decodeLabels_encoded hlabels, hspells.join hlabels⟩, ?_⟩
    intro msg len off hlen hcontains
    have hturns := length_le_encoded labels
    have hend := hcontains.1
    exact Reader.yields_turns_mono (yields_skip hlen hlabels hcontains) (by omega)
  · intro labels hne hlabels hname hshort hroom
    have hspells : Spells labels name := by
      obtain rfl | rfl := hname
      · exact spells_joinLabels labels
      · exact spells_trailingDot hne
    have hnonempty : name ≠ [] := fun hempty ↦ hne ((hspells.eq_nil hlabels).mp hempty)
    have hlong : ¬maxName < name.length := Nat.not_lt_of_le hshort
    rw [dnsEncodeName, if_neg hnonempty, if_neg hlong,
      encodeLabels_of_spells hspells hlabels (by simpa using hroom), List.nil_append]

/-- `a.bc` is encoded into six bytes. -/
theorem encodes_name_short :
    ∃ out, dnsEncodeName [97, 46, 98, 99] 6 = .ok out ∧ out.length ≤ 255 := by
  have hlabels : ∀ label ∈ [[97], [98, 99]], ValidLabel label :=
    List.forall_mem_cons.mpr ⟨⟨by decide, by decide, by decide⟩,
      List.forall_mem_singleton.mpr ⟨by decide, by decide, by decide⟩⟩
  have hout := (encodes_name [97, 46, 98, 99] 6).2 [[97], [98, 99]] (by decide) hlabels
    (Or.inl rfl) (by decide) (by decide)
  exact ⟨_, hout, ((encodes_name _ _).1 _ hout).1⟩

end EynOS.Network.Dns
