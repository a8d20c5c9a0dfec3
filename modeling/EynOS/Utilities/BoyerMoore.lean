import EynOS.Foundation.Filling
import Mathlib.Data.List.Infix

/-!
# The search of Boyer and Moore

`boyer_moore_search` of `math.c` and the two tables it shifts by. The `strlen` of the kernel stops
after 16384 bytes, and the search sees no more of the two strings. `boyerMoore_iff`: the search ends
and stays inside of the strings and of its tables, for every text and pattern; it is right only
where the first occurrence in what it sees is the first one; and there it is right for a pattern in
every text exactly when no shift of the table of good suffixes is past a place where the pattern can
still begin.

A read or a write outside of a string or of a table is no result. An `int` is an integer: the
strings are in the 1 GB of the kernel's space, and no sum of two lengths leaves an `int`. The memory
for the table is there.
-/

namespace EynOS.Utilities

open Foundation

/-! ### Strings and tables -/

/-- A string, up to its NUL. -/
structure Text where
  bytes : List UInt8
  noNul : 0 ∉ bytes

def Text.length (text : Text) : ℕ := text.bytes.length

/-- The bytes of a string and its NUL. -/
def Text.chars (text : Text) : List UInt8 := text.bytes ++ [0]

section Access

variable {α : Type}

def readAt (buffer : List α) (index : ℤ) : Option α :=
  if 0 ≤ index then buffer[index.toNat]? else none

def writeAt (buffer : List α) (index : ℤ) (value : α) : Option (List α) :=
  if 0 ≤ index ∧ index.toNat < buffer.length then some (buffer.set index.toNat value) else none

end Access

/-- `kMaxScan`. -/
def maxScan : ℕ := 16384

/-- The loop of `strlen`. -/
def strlenLoop (chars : List UInt8) : ℕ → ℕ → Option ℕ
  | 0, i => some i
  | rounds + 1, i =>
    (readAt chars i).bind fun char ↦ if char = 0 then some i else strlenLoop chars rounds (i + 1)

def strlen (chars : List UInt8) : Option ℕ := strlenLoop chars maxScan 0

/-- One turn of the loop of `build_bad_char_table`. -/
def badCharTurn (pattern : List UInt8) (i : ℕ) (table : List ℤ) : Option (List ℤ) :=
  (readAt pattern i).bind fun char ↦ writeAt table char.toNat i

def buildBadCharTable (pattern : List UInt8) (patternLen : ℕ) : Option (List ℤ) :=
  fillM (badCharTurn pattern) (List.range (patternLen - 1)) (List.replicate 256 (-1))

/-- The loops of `build_good_suffix_table` that count how many bytes of the pattern are the same at
two places. -/
def agreeLoop (pattern : List UInt8) (first second : ℤ → ℤ) (limit : ℤ) : ℕ → ℤ → Option ℤ
  | 0, _ => none
  | rounds + 1, j =>
    if j < limit then
      (readAt pattern (first j)).bind fun a ↦
        (readAt pattern (second j)).bind fun b ↦
          if a = b then agreeLoop pattern first second limit rounds (j + 1) else some j
    else some j

/-- One turn of the second case of `build_good_suffix_table`. -/
def suffixTurn (pattern : List UInt8) (patternLen : ℕ) (i : ℕ) (table : List ℤ) :
    Option (List ℤ) :=
  (agreeLoop pattern (fun j ↦ patternLen - 1 - j) (fun j ↦ patternLen - 1 - i - j)
    (patternLen - 1 - i) (patternLen + 1) 0).bind fun j ↦
      if j = patternLen - 1 - i then writeAt table i (patternLen - 1 - i) else some table

/-- One turn of the third case of `build_good_suffix_table`. -/
def prefixTurn (pattern : List UInt8) (patternLen : ℕ) (i : ℕ) (table : List ℤ) :
    Option (List ℤ) :=
  (agreeLoop pattern (fun j ↦ j) (fun j ↦ patternLen - 1 - i + j) (i + 1)
    (patternLen + 1) 0).bind fun j ↦
      if (i : ℤ) < j then writeAt table (patternLen - 1 - i) (patternLen - 1 - i) else some table

def buildGoodSuffixTable (pattern : List UInt8) (patternLen : ℕ) : Option (List ℤ) :=
  (writeAt (List.replicate patternLen (patternLen : ℤ)) (patternLen - 1) 1).bind fun table ↦
    (fillM (suffixTurn pattern patternLen) (List.range (patternLen - 1)).reverse table).bind
      (fillM (prefixTurn pattern patternLen) (List.range (patternLen - 1)))

/-- The comparison from right to left: where it stops in the text and in the pattern. -/
def compareLoop (text pattern : List UInt8) : ℕ → ℤ → ℤ → Option (ℤ × ℤ)
  | 0, _, _ => none
  | rounds + 1, k, j =>
    if 0 ≤ j then
      (readAt text k).bind fun a ↦
        (readAt pattern j).bind fun b ↦
          if a = b then compareLoop text pattern rounds (k - 1) (j - 1) else some (k, j)
    else some (k, j)

/-- The loop of `boyer_moore_search`. -/
def searchLoop (text pattern : List UInt8) (textLen patternLen : ℕ)
    (badCharTable goodSuffixTable : List ℤ) : ℕ → ℤ → Option ℤ
  | 0, _ => none
  | rounds + 1, i =>
    if i < textLen then
      (compareLoop text pattern (patternLen + 1) i (patternLen - 1)).bind fun (k, j) ↦
        if j < 0 then some (k + 1)
        else
          (readAt text k).bind fun char ↦
            (readAt badCharTable char.toNat).bind fun last ↦
              (readAt goodSuffixTable j).bind fun goodSuffixShift ↦
                let badCharShift := j - last
                let shift :=
                  if goodSuffixShift < badCharShift then badCharShift else goodSuffixShift
                searchLoop text pattern textLen patternLen badCharTable goodSuffixTable rounds
                  (i + if shift ≤ 0 then 1 else shift)
    else some (-1)

def boyerMooreSearch (text pattern : Text) : Option ℤ :=
  (strlen text.chars).bind fun textLen ↦
    (strlen pattern.chars).bind fun patternLen ↦
      if patternLen = 0 then some 0
      else if textLen = 0 then some (-1)
      else if textLen < patternLen then some (-1)
      else
        (buildBadCharTable pattern.chars patternLen).bind fun badCharTable ↦
          (buildGoodSuffixTable pattern.chars patternLen).bind fun goodSuffixTable ↦
            searchLoop text.chars pattern.chars textLen patternLen badCharTable goodSuffixTable
              (textLen + 1) (patternLen - 1)

/-! ### What the search is for -/

/-- A text has the pattern at a place. -/
def OccursAt (text pattern : Text) (start : ℕ) : Prop :=
  pattern.bytes <+: text.bytes.drop start

/-- A result is the smallest index at which the pattern occurs, and -1 where it occurs nowhere. -/
def IsFirst (text pattern : Text) (result : ℤ) : Prop :=
  (result = -1 ∧ ∀ start, ¬ OccursAt text pattern start) ∨
    ∃ start : ℕ, result = start ∧ OccursAt text pattern start ∧
      ∀ earlier < start, ¬ OccursAt text pattern earlier

/-- What `strlen` lets the search see of a string. -/
def Text.seen (text : Text) : Text where
  bytes := text.bytes.take maxScan
  noNul := fun hmem ↦ text.noNul (List.mem_of_mem_take hmem)

/-- The first occurrence in what the search sees is the first one. -/
def SeesFirst (text pattern : Text) : Prop :=
  ∀ result, IsFirst text.seen pattern.seen result → IsFirst text pattern result

/-- The search returns the first occurrence. -/
def Right (text pattern : Text) : Prop :=
  ∃ result, boyerMooreSearch text pattern = some result ∧ IsFirst text pattern result

/-- The bytes of a string from an index on are the same at a distance. -/
def Repeats (bytes : List UInt8) (start period : ℕ) : Prop :=
  ∀ t < bytes.length, start ≤ t → t + period < bytes.length → bytes[t + period]? = bytes[t]?

instance (bytes : List UInt8) (start period : ℕ) : Decidable (Repeats bytes start period) :=
  inferInstanceAs (Decidable (∀ t < bytes.length, start ≤ t → t + period < bytes.length →
    bytes[t + period]? = bytes[t]?))

/-- What the table of good suffixes holds for a mismatch at an index. -/
def goodSuffixShift (bytes : List UInt8) (j : ℕ) : ℕ :=
  if 0 < j ∧ Repeats bytes 0 j then j
  else if j + 1 < bytes.length ∧ Repeats bytes 1 j then bytes.length - 1 - j
  else if j + 1 = bytes.length then 1
  else bytes.length

/-- After a mismatch at an index the pattern may begin a distance further on: it is there what has
matched, and another byte at the mismatch. -/
def MayFollow (bytes : List UInt8) (j distance : ℕ) : Prop :=
  (∀ t < bytes.length, j < t → distance ≤ t → bytes[t - distance]? = bytes[t]?) ∧
    (distance ≤ j → bytes[j - distance]? ≠ bytes[j]?)

/-- No entry of the table of good suffixes is past a place where the pattern may begin and is still
seen. -/
def Safe (bytes : List UInt8) : Prop :=
  ∀ j < bytes.length, ∀ distance < goodSuffixShift bytes j, 0 < distance →
    distance + bytes.length ≤ maxScan → ¬ MayFollow bytes j distance

/-! ### Accesses -/

@[simp]
theorem readAt_natCast {α : Type} (buffer : List α) (index : ℕ) :
    readAt buffer index = buffer[index]? := by
  unfold readAt
  rw [if_pos (Int.natCast_nonneg index), Int.toNat_natCast]

theorem writeAt_natCast {α : Type} {buffer : List α} {index : ℕ} (hindex : index < buffer.length)
    (value : α) : writeAt buffer index value = some (buffer.set index value) := by
  unfold writeAt
  rw [if_pos ⟨Int.natCast_nonneg index, by rwa [Int.toNat_natCast]⟩, Int.toNat_natCast]

/-- A buffer that begins with the bytes of a string. -/
def Text.In (text : Text) (chars : List UInt8) : Prop := text.bytes <+: chars

theorem Text.In.length_le {text : Text} {chars : List UInt8} (hin : text.In chars) :
    text.length ≤ chars.length :=
  List.IsPrefix.length_le hin

theorem Text.In.getElem? {text : Text} {chars : List UInt8} (hin : text.In chars) {index : ℕ}
    (hindex : index < text.length) : chars[index]? = text.bytes[index]? := by
  obtain ⟨rest, rfl⟩ := hin
  exact List.getElem?_append_left hindex

theorem Text.exists_byte (text : Text) (index : ℕ) (hindex : index < text.length) :
    ∃ byte, text.bytes[index]? = some byte :=
  ⟨_, List.getElem?_eq_getElem hindex⟩

/-! ### The tables -/

/-- The count of the bytes that are the same at two places. -/
theorem agreeLoop_spec {pattern : List UInt8} {first second : ℤ → ℤ} {limit : ℕ} {a b : ℕ → ℕ}
    (hfirst : ∀ t < limit, first t = a t ∧ a t < pattern.length)
    (hsecond : ∀ t < limit, second t = b t ∧ b t < pattern.length) (rounds j : ℕ)
    (hrounds : limit < rounds + j) (hj : j ≤ limit)
    (hagree : ∀ t < j, pattern[a t]? = pattern[b t]?) :
    ∃ r : ℕ, r ≤ limit ∧ agreeLoop pattern first second limit rounds j = some (r : ℤ) ∧
      (r = limit ↔ ∀ t < limit, pattern[a t]? = pattern[b t]?) := by
  induction rounds generalizing j with
  | zero => omega
  | succ rounds ih =>
    unfold agreeLoop
    by_cases hlimit : j < limit
    · obtain ⟨x, hx⟩ : ∃ x, pattern[a j]? = some x :=
        ⟨_, List.getElem?_eq_getElem (hfirst j hlimit).2⟩
      obtain ⟨y, hy⟩ : ∃ y, pattern[b j]? = some y :=
        ⟨_, List.getElem?_eq_getElem (hsecond j hlimit).2⟩
      rw [if_pos (Int.ofNat_lt.mpr hlimit), (hfirst j hlimit).1, (hsecond j hlimit).1,
        readAt_natCast, readAt_natCast, hx, hy, Option.bind_some, Option.bind_some]
      by_cases hsame : x = y
      · rw [if_pos hsame]
        have hnext := ih (j + 1) (by omega) hlimit fun t ht ↦ by
          rcases Nat.lt_succ_iff_lt_or_eq.mp ht with hless | rfl
          · exact hagree t hless
          · rw [hx, hy, hsame]
        rwa [Int.natCast_succ] at hnext
      · rw [if_neg hsame]
        refine ⟨j, hj, rfl, fun heq ↦ absurd heq hlimit.ne, fun hall ↦ ?_⟩
        have hbytes := hall j hlimit
        rw [hx, hy] at hbytes
        exact absurd (Option.some.inj hbytes) hsame
    · rw [if_neg (by omega)]
      obtain rfl : j = limit := by omega
      exact ⟨j, le_rfl, rfl, fun _ ↦ hagree, fun _ ↦ rfl⟩

theorem agreeLoop_start {pattern : List UInt8} {first second : ℤ → ℤ} {limit : ℕ} {a b : ℕ → ℕ}
    (hfirst : ∀ t < limit, first t = a t ∧ a t < pattern.length)
    (hsecond : ∀ t < limit, second t = b t ∧ b t < pattern.length) {rounds : ℕ}
    (hrounds : limit < rounds) :
    ∃ r : ℕ, r ≤ limit ∧ agreeLoop pattern first second limit rounds 0 = some (r : ℤ) ∧
      (r = limit ↔ ∀ t < limit, pattern[a t]? = pattern[b t]?) :=
  agreeLoop_spec hfirst hsecond rounds 0 hrounds (Nat.zero_le limit) fun t ht ↦
    absurd ht (Nat.not_lt_zero t)

section Tables

variable {pattern : Text} {chars : List UInt8}

/-- A turn of the second case. -/
theorem suffixTurn_eq (hchars : pattern.In chars) {i : ℕ} (hi : i + 1 < pattern.length)
    {table : List ℤ}
    (hlength : table.length = pattern.length) :
    suffixTurn chars pattern.length i table =
      some (fillStep (Repeats pattern.bytes 1) id (fun i ↦ (pattern.length : ℤ) - 1 - i) i
        table) := by
  have hlength_le := hchars.length_le
  have hlengths : pattern.length = pattern.bytes.length := rfl
  obtain ⟨r, hr, hloop, hiff⟩ := @agreeLoop_start chars (fun j ↦ pattern.length - 1 - j)
    (fun j ↦ pattern.length - 1 - i - j) (pattern.length - 1 - i) (fun t ↦ pattern.length - 1 - t)
    (fun t ↦ pattern.length - 1 - i - t) (fun t ht ↦ ⟨by omega, by omega⟩)
    (fun t ht ↦ ⟨by omega, by omega⟩) (pattern.length + 1) (by omega)
  have hlimit : ((pattern.length - 1 - i : ℕ) : ℤ) = pattern.length - 1 - i := by omega
  rw [hlimit] at hloop
  have hrepeats : r = pattern.length - 1 - i ↔ Repeats pattern.bytes 1 i := by
    rw [hiff]
    constructor
    · intro hall t ht hstart hend
      have hbytes := hall (pattern.length - 1 - i - t) (by omega)
      rw [hchars.getElem? (by omega), hchars.getElem? (by omega)] at hbytes
      convert hbytes using 2 <;> omega
    · intro hrepeats t ht
      rw [hchars.getElem? (by omega), hchars.getElem? (by omega)]
      have hbytes := hrepeats (pattern.length - 1 - i - t) (by omega) (by omega) (by omega)
      convert hbytes using 2
      omega
  unfold suffixTurn fillStep
  rw [hloop, Option.bind_some]
  by_cases hselects : Repeats pattern.bytes 1 i
  · rw [if_pos (by rw [hrepeats.mpr hselects]; omega), if_pos hselects,
      writeAt_natCast (by omega)]
    rfl
  · rw [if_neg fun heq ↦ hselects (hrepeats.mp (by omega)), if_neg hselects]

/-- A turn of the third case. -/
theorem prefixTurn_eq (hchars : pattern.In chars) {i : ℕ} (hi : i + 1 < pattern.length)
    {table : List ℤ}
    (hlength : table.length = pattern.length) :
    prefixTurn chars pattern.length i table =
      some (fillStep (fun i ↦ Repeats pattern.bytes 0 (pattern.length - 1 - i))
        (fun i ↦ pattern.length - 1 - i) (fun i ↦ (pattern.length : ℤ) - 1 - i) i table) := by
  have hlength_le := hchars.length_le
  have hlengths : pattern.length = pattern.bytes.length := rfl
  obtain ⟨r, hr, hloop, hiff⟩ := @agreeLoop_start chars (fun j ↦ j)
    (fun j ↦ pattern.length - 1 - i + j) (i + 1) (fun t ↦ t) (fun t ↦ pattern.length - 1 - i + t)
    (fun t ht ↦ ⟨by omega, by omega⟩) (fun t ht ↦ ⟨by omega, by omega⟩) (pattern.length + 1)
      (by omega)
  rw [Int.natCast_succ] at hloop
  have hrepeats : r = i + 1 ↔ Repeats pattern.bytes 0 (pattern.length - 1 - i) := by
    rw [hiff]
    constructor
    · intro hall t ht _ hend
      have hbytes := hall t (by omega)
      rw [hchars.getElem? (by omega), hchars.getElem? (by omega)] at hbytes
      rw [hbytes, Nat.add_comm]
    · intro hrepeats t ht
      rw [hchars.getElem? (by omega), hchars.getElem? (by omega),
        ← hrepeats t (by omega) (Nat.zero_le t) (by omega), Nat.add_comm]
  have hplace : (pattern.length : ℤ) - 1 - i = (pattern.length - 1 - i : ℕ) := by omega
  unfold prefixTurn fillStep
  rw [hloop, Option.bind_some]
  by_cases hselects : Repeats pattern.bytes 0 (pattern.length - 1 - i)
  · rw [if_pos (by rw [hrepeats.mpr hselects]; omega), if_pos hselects, hplace,
      writeAt_natCast (by omega), ← hplace]
  · rw [if_neg fun hless ↦ hselects (hrepeats.mp (by omega)), if_neg hselects]

/-- What the second case writes. -/
theorem getElem?_suffixFill {table : List ℤ} (hlength : table.length = pattern.length) {j : ℕ}
    (hj : j < pattern.length) :
    (fill (Repeats pattern.bytes 1) id (fun i ↦ (pattern.length : ℤ) - 1 - i)
      (List.range (pattern.length - 1)).reverse table)[j]? =
        if j + 1 < pattern.length ∧ Repeats pattern.bytes 1 j then
          some ((pattern.length - 1 - j : ℕ) : ℤ)
        else table[j]? := by
  split_ifs with hselects
  · have hwritten := @getElem?_fill_of_mem ℤ (Repeats pattern.bytes 1) _ id
      (fun i ↦ (pattern.length : ℤ) - 1 - i) (List.range (pattern.length - 1)).reverse table j
      (by rw [List.map_id]; exact List.nodup_reverse.mpr List.nodup_range)
      (by rw [List.mem_reverse, List.mem_range]; omega) hselects.2 (by rw [hlength]; exact hj)
    rw [id_eq] at hwritten
    rw [hwritten]
    congr 1
    omega
  · refine getElem?_fill_of_forall_ne fun i hi hrepeats heq ↦ hselects ?_
    rw [List.mem_reverse, List.mem_range] at hi
    rw [id_eq] at heq
    exact ⟨by omega, heq ▸ hrepeats⟩

/-- What the third case writes. -/
theorem getElem?_prefixFill {table : List ℤ} (hlength : table.length = pattern.length) {j : ℕ}
    (hj : j < pattern.length) :
    (fill (fun i ↦ Repeats pattern.bytes 0 (pattern.length - 1 - i))
      (fun i ↦ pattern.length - 1 - i) (fun i ↦ (pattern.length : ℤ) - 1 - i)
      (List.range (pattern.length - 1)) table)[j]? =
        if 0 < j ∧ Repeats pattern.bytes 0 j then some (j : ℤ) else table[j]? := by
  split_ifs with hselects
  · have hindex : pattern.length - 1 - (pattern.length - 1 - j) = j := by omega
    have hnodup : ((List.range (pattern.length - 1)).map fun i ↦ pattern.length - 1 - i).Nodup :=
      List.nodup_range.map_on fun x hx y hy heq ↦ by
        rw [List.mem_range] at hx hy
        omega
    have hwritten := @getElem?_fill_of_mem ℤ
      (fun i ↦ Repeats pattern.bytes 0 (pattern.length - 1 - i)) _ _
      (fun i ↦ (pattern.length : ℤ) - 1 - i) _ table (pattern.length - 1 - j) hnodup
      (List.mem_range.mpr (by omega)) (by rw [hindex]; exact hselects.2)
      (by rw [hlength]; omega)
    rw [hindex] at hwritten
    rw [hwritten]
    congr 1
    omega
  · refine getElem?_fill_of_forall_ne fun i hi hrepeats heq ↦ hselects ?_
    rw [List.mem_range] at hi
    exact ⟨by omega, heq ▸ hrepeats⟩

theorem buildGoodSuffixTable_spec (hchars : pattern.In chars) (hpos : 0 < pattern.length) :
    ∃ table, buildGoodSuffixTable chars pattern.length = some table ∧
      ∀ j < pattern.length, table[j]? = some (goodSuffixShift pattern.bytes j : ℤ) := by
  have hlengths : pattern.length = pattern.bytes.length := rfl
  have hlast : (pattern.length : ℤ) - 1 = (pattern.length - 1 : ℕ) := by omega
  have hinitial : ((List.replicate pattern.length (pattern.length : ℤ)).set
      (pattern.length - 1) 1).length = pattern.length := by
    rw [List.length_set, List.length_replicate]
  have hindices : ∀ i ∈ List.range (pattern.length - 1), i + 1 < pattern.length := by
    intro i hi
    rw [List.mem_range] at hi
    omega
  unfold buildGoodSuffixTable
  rw [hlast, writeAt_natCast (by rw [List.length_replicate]; omega), Option.bind_some,
    fillM_eq_some
      (fun i hi table ↦ suffixTurn_eq hchars (hindices i (List.mem_reverse.mp hi))) hinitial,
    Option.bind_some, fillM_eq_some (fun i hi table ↦ prefixTurn_eq hchars (hindices i hi))
      (by rw [length_fill, hinitial])]
  refine ⟨_, rfl, fun j hj ↦ ?_⟩
  rw [getElem?_prefixFill (by rw [length_fill, hinitial]) hj, getElem?_suffixFill hinitial hj]
  unfold goodSuffixShift
  rw [← hlengths]
  split_ifs with hborder hsuffix hend
  · rfl
  · rfl
  · rw [show pattern.length - 1 = j by omega, List.getElem?_set_self (by simpa using hj)]
    rfl
  · rw [List.getElem?_set_ne (by omega), List.getElem?_replicate_of_lt hj]

theorem badCharTurn_eq (hchars : pattern.In chars) {i : ℕ} (hi : i < pattern.length)
    {table : List ℤ}
    (hlength : table.length = 256) :
    badCharTurn chars i table =
      some (fillStep (fun _ ↦ True) (fun i ↦ (pattern.bytes[i]?.getD 0).toNat) (fun i ↦ (i : ℤ)) i
        table) := by
  obtain ⟨byte, hbyte⟩ := pattern.exists_byte i hi
  unfold badCharTurn fillStep
  rw [readAt_natCast, hchars.getElem? hi, hbyte, Option.bind_some, if_pos trivial,
    writeAt_natCast (by rw [hlength]; exact byte.toNat_lt)]
  simp only [hbyte, Option.getD_some]

/-- The table of bad characters after some turns: no byte looked at is the character and further
on. -/
theorem getElem?_badCharFill (char : UInt8) {count : ℕ} (hcount : count ≤ pattern.length) :
    ∃ last : ℤ, (fill (fun _ ↦ True) (fun i ↦ (pattern.bytes[i]?.getD 0).toNat) (fun i ↦ (i : ℤ))
        (List.range count) (List.replicate 256 (-1)))[char.toNat]? = some last ∧ -1 ≤ last ∧
        ∀ t : ℕ, last < t → t < count → pattern.bytes[t]? ≠ some char := by
  induction count with
  | zero =>
    refine ⟨-1, ?_, by omega, fun t _ ht ↦ absurd ht (Nat.not_lt_zero t)⟩
    rw [List.range_zero, fill, List.getElem?_replicate_of_lt char.toNat_lt]
  | succ count ih =>
    obtain ⟨last, hlast, hlow, hnone⟩ := ih (by omega)
    obtain ⟨byte, hbyte⟩ := pattern.exists_byte count (by omega)
    rw [List.range_succ, fill_concat]
    simp only [fillStep, if_true, hbyte, Option.getD_some]
    by_cases hchar : byte = char
    · subst hchar
      refine ⟨count, List.getElem?_set_self ?_, by omega, fun t hless ht ↦ by omega⟩
      rw [length_fill, List.length_replicate]
      exact byte.toNat_lt
    · refine ⟨last, ?_, hlow, fun t hless ht ↦ ?_⟩
      · rw [List.getElem?_set_ne fun heq ↦ hchar (UInt8.toNat_inj.mp heq), hlast]
      · rcases Nat.lt_succ_iff_lt_or_eq.mp ht with hbefore | rfl
        · exact hnone t hless hbefore
        · rw [hbyte]
          exact fun heq ↦ hchar (Option.some.inj heq)

theorem buildBadCharTable_spec (hchars : pattern.In chars) :
    ∃ table, buildBadCharTable chars pattern.length = some table ∧
      ∀ char : UInt8, ∃ last : ℤ, table[char.toNat]? = some last ∧ -1 ≤ last ∧
        ∀ t : ℕ, last < t → t < pattern.length - 1 → pattern.bytes[t]? ≠ some char := by
  unfold buildBadCharTable
  have hlength : (List.replicate 256 (-1 : ℤ)).length = 256 := List.length_replicate ..
  rw [fillM_eq_some (fun i hi table ↦ badCharTurn_eq hchars (by
    rw [List.mem_range] at hi
    omega)) hlength]
  exact ⟨_, rfl, fun char ↦ getElem?_badCharFill char (Nat.sub_le pattern.length 1)⟩

end Tables

/-! ### The search -/

section Search

variable {text pattern : Text} {source chars : List UInt8}

theorem occursAt_iff {start : ℕ} :
    OccursAt text pattern start ↔
      ∀ t < pattern.length, text.bytes[start + t]? = pattern.bytes[t]? := by
  unfold OccursAt
  rw [List.prefix_iff_getElem?]
  constructor
  · intro hpre t ht
    rw [← List.getElem?_drop, hpre t ht]
    exact (List.getElem?_eq_getElem ht).symm
  · intro hall t ht
    rw [List.getElem?_drop, hall t ht, List.getElem?_eq_getElem ht]

theorem OccursAt.le_length {start : ℕ} (hoccurs : OccursAt text pattern start)
    (hpos : 0 < pattern.length) : start + pattern.length ≤ text.length := by
  obtain ⟨byte, hbyte⟩ := pattern.exists_byte (pattern.length - 1) (by omega)
  have hlast := occursAt_iff.mp hoccurs (pattern.length - 1) (by omega)
  rw [hbyte] at hlast
  have hlengths : text.length = text.bytes.length := rfl
  have hlt := (List.getElem?_eq_some_iff.mp hlast).1
  omega

/-- The comparison at a place stops at an index of the pattern. -/
def StopsAt (text pattern : Text) (start j : ℕ) : Prop :=
  j < pattern.length ∧ text.bytes[start + j]? ≠ pattern.bytes[j]? ∧
    ∀ t < pattern.length, j < t → text.bytes[start + t]? = pattern.bytes[t]?

/-- The comparison finds the pattern or stops at a mismatch. -/
theorem compareLoop_spec (hsource : text.In source) (hchars : pattern.In chars) {start : ℕ}
    (hstart : start + pattern.length ≤ text.length)
    {count rounds : ℕ} (hcount : count ≤ pattern.length) (hrounds : count < rounds)
    (hmatched : ∀ t < pattern.length, count ≤ t →
      text.bytes[start + t]? = pattern.bytes[t]?) :
    (OccursAt text pattern start ∧ compareLoop source chars rounds
        (start + count - 1) (count - 1) = some ((start : ℤ) - 1, -1)) ∨
      ∃ j : ℕ, StopsAt text pattern start j ∧ compareLoop source chars rounds
        (start + count - 1) (count - 1) = some ((start : ℤ) + j, (j : ℤ)) := by
  induction count generalizing rounds with
  | zero =>
    obtain ⟨rounds, rfl⟩ : ∃ less, rounds = less + 1 := ⟨rounds - 1, by omega⟩
    left
    refine ⟨occursAt_iff.mpr fun t ht ↦ hmatched t ht (Nat.zero_le t), ?_⟩
    unfold compareLoop
    rw [if_neg (by omega)]
    simp
  | succ count ih =>
    obtain ⟨rounds, rfl⟩ : ∃ less, rounds = less + 1 := ⟨rounds - 1, by omega⟩
    obtain ⟨x, hx⟩ := text.exists_byte (start + count) (by omega)
    obtain ⟨y, hy⟩ := pattern.exists_byte count (by omega)
    have hk : (start : ℤ) + (count + 1 : ℕ) - 1 = (start + count : ℕ) := by omega
    have hj : ((count + 1 : ℕ) : ℤ) - 1 = count := by omega
    unfold compareLoop
    rw [hk, hj, if_pos (Int.natCast_nonneg count), readAt_natCast, readAt_natCast,
      hsource.getElem? (by omega), hchars.getElem? (by omega), hx, hy,
      Option.bind_some, Option.bind_some]
    by_cases hsame : x = y
    · rw [if_pos hsame, Int.natCast_add]
      refine ih (by omega) (by omega) fun t ht hle ↦ ?_
      rcases Nat.lt_or_eq_of_le hle with hless | rfl
      · exact hmatched t ht hless
      · rw [hx, hy, hsame]
    · right
      rw [if_neg hsame, Int.natCast_add]
      refine ⟨count, ⟨by omega, ?_, fun t ht hless ↦ hmatched t ht hless⟩, rfl⟩
      rw [hx, hy]
      exact fun heq ↦ hsame (Option.some.inj heq)

theorem StopsAt.unique {start j other : ℕ} (hj : StopsAt text pattern start j)
    (hother : StopsAt text pattern start other) : other = j := by
  rcases Nat.lt_trichotomy other j with hless | heq | hmore
  · exact absurd (hother.2.2 j hj.1 hless) hj.2.1
  · exact heq
  · exact absurd (hj.2.2 other hother.1 hmore) hother.2.1

/-- The shift at a mismatch: every distance that it passes is less than the entry of the table of
good suffixes, or the bad character is not there. -/
def ShiftsBy (text pattern : Text) (start j shift : ℕ) : Prop :=
  0 < shift ∧ goodSuffixShift pattern.bytes j ≤ shift ∧
    ∀ distance < shift, 0 < distance → distance < goodSuffixShift pattern.bytes j ∨
      (distance ≤ j ∧ pattern.bytes[j - distance]? ≠ text.bytes[start + j]?)

/-- The shift that the two tables give. -/
theorem exists_shiftsBy {start j : ℕ} {char : UInt8} {last : ℤ} (hj : j < pattern.length)
    (hchar : text.bytes[start + j]? = some char) (hlow : -1 ≤ last)
    (hnone : ∀ t : ℕ, last < t → t < pattern.length - 1 → pattern.bytes[t]? ≠ some char)
    {shift : ℤ} (hshift : shift = if (goodSuffixShift pattern.bytes j : ℤ) < j - last then j - last
      else goodSuffixShift pattern.bytes j) :
    ∃ places : ℕ, (if shift ≤ 0 then 1 else shift) = places ∧
      ShiftsBy text pattern start j places := by
  refine ⟨(if shift ≤ 0 then 1 else shift).toNat, ?_, ?_, ?_, ?_⟩
  · split_ifs <;> omega
  · split_ifs <;> omega
  · split_ifs at hshift ⊢ <;> omega
  · intro distance hless hpos
    by_cases hgood : distance < goodSuffixShift pattern.bytes j
    · exact .inl hgood
    · have hbad : (distance : ℤ) < j - last := by split_ifs at hshift hless <;> omega
      refine .inr ⟨by omega, ?_⟩
      rw [hchar]
      exact hnone (j - distance) (by omega) (by omega)

theorem OccursAt.getElem?_sub {start distance t : ℕ}
    (hoccurs : OccursAt text pattern (start + distance)) (ht : t < pattern.length)
    (hle : distance ≤ t) : pattern.bytes[t - distance]? = text.bytes[start + t]? := by
  rw [← occursAt_iff.mp hoccurs (t - distance) (by omega)]
  congr 1
  omega

/-- A shift that is not too far passes no place where the pattern is. -/
theorem not_occursAt_of_safe (hsafe : Safe pattern.bytes) (hseen : text.length ≤ maxScan)
    {start j shift : ℕ}
    (hstops : StopsAt text pattern start j) (hshifts : ShiftsBy text pattern start j shift)
    (hearlier : ∀ earlier < start, ¬ OccursAt text pattern earlier) {place : ℕ}
    (hplace : place < start + shift) : ¬ OccursAt text pattern place := by
  obtain ⟨hj, hmismatch, hmatched⟩ := hstops
  rcases Nat.lt_trichotomy place start with hbefore | rfl | hafter
  · exact hearlier place hbefore
  · exact fun hoccurs ↦ hmismatch (occursAt_iff.mp hoccurs j hj)
  · obtain ⟨distance, rfl⟩ := Nat.exists_eq_add_of_lt hafter
    rw [Nat.add_assoc]
    intro hoccurs
    have hends := hoccurs.le_length (Nat.zero_lt_of_lt hj)
    have hscan : distance + 1 + pattern.bytes.length ≤ maxScan := by
      change distance + 1 + pattern.length ≤ maxScan
      omega
    rcases hshifts.2.2 (distance + 1) (by omega) (Nat.succ_pos distance) with
      hgood | ⟨hle, hbad⟩
    · refine hsafe j hj (distance + 1) hgood (Nat.succ_pos distance) hscan
        ⟨fun t ht hjt hle ↦ ?_, ?_⟩
      · rw [hoccurs.getElem?_sub ht hle, hmatched t ht hjt]
      · intro hle
        rwa [hoccurs.getElem?_sub hj hle]
    · exact hbad (hoccurs.getElem?_sub hj hle)

variable {badCharTable goodSuffixTable : List ℤ}

theorem searchLoop_turn (hsource : text.In source) (hchars : pattern.In chars)
    (hbad : buildBadCharTable chars pattern.length = some badCharTable)
    (hgood : buildGoodSuffixTable chars pattern.length = some goodSuffixTable)
    (start : ℕ) (hpos : 0 < pattern.length) (hstart : start + pattern.length ≤ text.length)
    (rounds : ℕ) :
    (OccursAt text pattern start ∧ searchLoop source chars text.length pattern.length
        badCharTable goodSuffixTable (rounds + 1) (start + pattern.length - 1) =
          some (start : ℤ)) ∨
      ∃ j shift : ℕ, StopsAt text pattern start j ∧ ShiftsBy text pattern start j shift ∧
        searchLoop source chars text.length pattern.length badCharTable goodSuffixTable
          (rounds + 1) (start + pattern.length - 1) =
            searchLoop source chars text.length pattern.length badCharTable
              goodSuffixTable rounds ((start + shift : ℕ) + pattern.length - 1) := by
  rw [searchLoop, if_pos (by omega)]
  rcases compareLoop_spec hsource hchars hstart le_rfl (Nat.lt_succ_self pattern.length)
    (fun t ht hle ↦ absurd ht (by omega)) with ⟨hoccurs, hloop⟩ | ⟨j, hstops, hloop⟩
  · left
    refine ⟨hoccurs, ?_⟩
    rw [hloop, Option.bind_some]
    simp
  · right
    have hj := hstops.1
    obtain ⟨char, hchar⟩ := text.exists_byte (start + j) (by omega)
    obtain ⟨_, hgood', hgoods⟩ := buildGoodSuffixTable_spec hchars hpos
    obtain rfl := Option.some.inj (hgood.symm.trans hgood')
    obtain ⟨_, hbad', hbads⟩ := buildBadCharTable_spec hchars
    obtain rfl := Option.some.inj (hbad.symm.trans hbad')
    obtain ⟨last, hlast, hlow, hnone⟩ := hbads char
    obtain ⟨shift, hshift, hshifts⟩ := exists_shiftsBy hj hchar hlow hnone rfl
    refine ⟨j, shift, hstops, hshifts, ?_⟩
    rw [hloop, Option.bind_some]
    dsimp only
    rw [if_neg (by omega), ← Int.natCast_add, readAt_natCast, hsource.getElem? (by omega),
      hchar, Option.bind_some, readAt_natCast, hlast, Option.bind_some, readAt_natCast,
      hgoods j hj, Option.bind_some, hshift]
    congr 1
    omega

/-- The search from a place: it ends with a place of the pattern from there on or with none, and
with the first place where no shift is too far and the pattern is at no earlier place. -/
theorem searchLoop_spec (hsource : text.In source) (hchars : pattern.In chars)
    (hbad : buildBadCharTable chars pattern.length = some badCharTable)
    (hgood : buildGoodSuffixTable chars pattern.length = some goodSuffixTable)
    (hpos : 0 < pattern.length) (hseen : text.length ≤ maxScan) (rounds start : ℕ)
    (hrounds : 0 < rounds)
    (hends : text.length + 2 ≤ rounds + start + pattern.length) :
    ∃ result, searchLoop source chars text.length pattern.length badCharTable
        goodSuffixTable rounds (start + pattern.length - 1) = some result ∧
      (result = -1 ∨ ∃ place : ℕ, result = place ∧ start ≤ place ∧ OccursAt text pattern place) ∧
      (Safe pattern.bytes → (∀ earlier < start, ¬ OccursAt text pattern earlier) →
        IsFirst text pattern result) := by
  induction rounds generalizing start with
  | zero => omega
  | succ rounds ih =>
    by_cases hstart : start + pattern.length ≤ text.length
    · rcases searchLoop_turn hsource hchars hbad hgood start hpos hstart rounds with
        ⟨hoccurs, hloop⟩ | ⟨j, shift, hstops, hshifts, hloop⟩
      · exact ⟨start, hloop, .inr ⟨start, rfl, le_rfl, hoccurs⟩,
          fun _ hearlier ↦ .inr ⟨start, rfl, hoccurs, hearlier⟩⟩
      · have hshift := hshifts.1
        obtain ⟨result, hresult, hplace, hfirst⟩ := ih (start + shift) (by omega) (by omega)
        refine ⟨result, hloop.trans hresult, ?_, fun hsafe hearlier ↦ hfirst hsafe ?_⟩
        · rcases hplace with hnone | ⟨place, heq, hlater, hoccurs⟩
          · exact .inl hnone
          · exact .inr ⟨place, heq, by omega, hoccurs⟩
        · exact fun earlier hless ↦
            not_occursAt_of_safe hsafe hseen hstops hshifts hearlier hless
    · refine ⟨-1, ?_, .inl rfl, fun _ hearlier ↦ .inl ⟨rfl, fun other hoccurs ↦ ?_⟩⟩
      · rw [searchLoop, if_neg (by omega)]
      · have hother := hoccurs.le_length hpos
        exact hearlier other (by omega) hoccurs

end Search

/-! ### Texts that the search reads wrongly -/

/-- A text that has the pattern at a distance, and before it what stops the first comparison at an
index of the pattern. -/
def misreadBytes (bytes : List UInt8) (j distance : ℕ) (other : UInt8) : List UInt8 :=
  (List.range distance).map (fun x ↦ if j < x then bytes[x]?.getD other else other) ++ bytes

theorem zero_notMem_misreadBytes {pattern : Text} {j distance : ℕ} {other : UInt8}
    (hother : other ≠ 0) : 0 ∉ misreadBytes pattern.bytes j distance other := by
  intro hmem
  rcases List.mem_append.mp hmem with hbefore | hpattern
  · obtain ⟨x, -, hx⟩ := List.mem_map.mp hbefore
    split_ifs at hx
    · rcases hbyte : pattern.bytes[x]? with _ | byte
      · rw [hbyte] at hx
        exact hother hx
      · rw [hbyte, Option.getD_some] at hx
        exact pattern.noNul (hx ▸ List.mem_of_getElem? hbyte)
    · exact hother hx
  · exact pattern.noNul hpattern

theorem occursAt_misread {text pattern : Text} {j distance : ℕ} {other : UInt8}
    (htext : text.bytes = misreadBytes pattern.bytes j distance other) :
    OccursAt text pattern distance := by
  unfold OccursAt
  rw [htext, misreadBytes, List.drop_left' (by simp)]

/-- The first comparison stops at the index. -/
theorem stopsAt_misread {text pattern : Text} {j distance : ℕ} {other : UInt8}
    (htext : text.bytes = misreadBytes pattern.bytes j distance other) (hj : j < pattern.length)
    (hother : pattern.bytes[j]? ≠ some other) (hfollow : MayFollow pattern.bytes j distance) :
    StopsAt text pattern 0 j := by
  have hbefore : ∀ t < distance, text.bytes[0 + t]? =
      some (if j < t then pattern.bytes[t]?.getD other else other) := by
    intro t ht
    rw [htext, misreadBytes, Nat.zero_add, List.getElem?_append_left (by simpa using ht),
      List.getElem?_map, List.getElem?_range ht, Option.map_some]
  have hafter : ∀ t, distance ≤ t → text.bytes[0 + t]? = pattern.bytes[t - distance]? := by
    intro t ht
    rw [htext, misreadBytes, Nat.zero_add, List.getElem?_append_right (by simpa using ht)]
    simp
  refine ⟨hj, ?_, fun t ht hjt ↦ ?_⟩
  · by_cases hless : j < distance
    · rw [hbefore j hless, if_neg (Nat.lt_irrefl j)]
      exact hother.symm
    · rw [hafter j (by omega)]
      exact hfollow.2 (by omega)
  · by_cases hless : t < distance
    · obtain ⟨byte, hbyte⟩ := pattern.exists_byte t ht
      rw [hbefore t hless, if_pos hjt, hbyte, Option.getD_some]
    · rw [hafter t (by omega)]
      exact hfollow.1 t ht hjt (by omega)

/-! ### What the search sees -/

/-- The loop of `strlen` from an index at which the string has not ended. -/
theorem strlenLoop_eq (text : Text) (rounds i : ℕ) (hi : i ≤ text.length) :
    strlenLoop text.chars rounds i = some (min text.length (i + rounds)) := by
  induction rounds generalizing i with
  | zero => rw [strlenLoop, Nat.add_zero, Nat.min_eq_right hi]
  | succ rounds ih =>
    rw [strlenLoop, readAt_natCast, Text.chars]
    rcases Nat.lt_or_eq_of_le hi with hless | hends
    · obtain ⟨byte, hbyte⟩ := text.exists_byte i hless
      have hnonzero : byte ≠ 0 := fun hzero ↦
        text.noNul (hzero ▸ List.mem_of_getElem? hbyte)
      rw [List.getElem?_append_left hless, hbyte, Option.bind_some, if_neg hnonzero]
      change strlenLoop text.chars rounds (i + 1) = _
      rw [ih (i + 1) hless]
      congr 2
      omega
    · have hlength : i = text.bytes.length := hends
      rw [hlength, List.getElem?_concat_length, Option.bind_some, if_pos rfl, ← hlength, ← hends]
      congr 1
      omega

/-- The length that `strlen` returns is that of what the search sees. -/
theorem strlen_chars (text : Text) : strlen text.chars = some text.seen.length := by
  rw [strlen, strlenLoop_eq text maxScan 0 (Nat.zero_le _)]
  congr 1
  change min text.bytes.length (0 + maxScan) = (text.bytes.take maxScan).length
  rw [List.length_take, Nat.zero_add, Nat.min_comm]

theorem Text.seen_in (text : Text) : text.seen.In text.chars :=
  (List.take_prefix _ _).trans (List.prefix_append _ _)

theorem Text.seen_length_le (text : Text) : text.seen.length ≤ maxScan :=
  List.length_take_le _ _

/-- A string that is not too long is seen as a whole. -/
theorem Text.seen_of_length_lt {text : Text} (hshort : text.seen.length < maxScan) :
    text.seen = text := by
  have hbytes : (text.bytes.take maxScan).length < maxScan := hshort
  rw [List.length_take] at hbytes
  obtain ⟨bytes, hnul⟩ := text
  unfold Text.seen
  congr 1
  exact List.take_of_length_le (by omega)

theorem boyerMooreSearch_eq {text pattern : Text} (hpos : 0 < pattern.seen.length)
    (hle : pattern.seen.length ≤ text.seen.length) :
    ∃ badCharTable goodSuffixTable,
      buildBadCharTable pattern.chars pattern.seen.length = some badCharTable ∧
      buildGoodSuffixTable pattern.chars pattern.seen.length = some goodSuffixTable ∧
      boyerMooreSearch text pattern = searchLoop text.chars pattern.chars text.seen.length
        pattern.seen.length badCharTable goodSuffixTable (text.seen.length + 1)
        ((0 : ℕ) + pattern.seen.length - 1) := by
  obtain ⟨goodSuffixTable, hgood, -⟩ := buildGoodSuffixTable_spec pattern.seen_in hpos
  obtain ⟨badCharTable, hbad, -⟩ := buildBadCharTable_spec pattern.seen_in
  refine ⟨badCharTable, goodSuffixTable, hbad, hgood, ?_⟩
  unfold boyerMooreSearch
  rw [strlen_chars, strlen_chars, Option.bind_some, Option.bind_some, if_neg (by omega),
    if_neg (by omega), if_neg (by omega), hbad, hgood, Option.bind_some, Option.bind_some]
  congr 1
  omega

/-- What the search makes of any text and pattern: it ends with none or with a place of the pattern,
and not with none where the pattern is at the start, in what it sees; and with the first place where
no shift is too far. -/
theorem boyerMooreSearch_result (text pattern : Text) :
    ∃ result, boyerMooreSearch text pattern = some result ∧
      (result = -1 ∧ ¬ OccursAt text.seen pattern.seen 0 ∨
        ∃ place : ℕ, result = place ∧ OccursAt text.seen pattern.seen place) ∧
      (Safe pattern.seen.bytes → IsFirst text.seen pattern.seen result) := by
  have hzero : ∀ earlier < 0, ¬ OccursAt text.seen pattern.seen earlier :=
    fun earlier hless ↦ absurd hless (Nat.not_lt_zero earlier)
  rcases Nat.eq_zero_or_pos pattern.seen.length with hempty | hpos
  · have hoccurs : OccursAt text.seen pattern.seen 0 :=
      occursAt_iff.mpr fun t ht ↦ absurd ht (by omega)
    refine ⟨0, ?_, .inr ⟨0, rfl, hoccurs⟩, fun _ ↦ .inr ⟨0, rfl, hoccurs, hzero⟩⟩
    rw [boyerMooreSearch, strlen_chars, strlen_chars, Option.bind_some, Option.bind_some,
      if_pos hempty]
  · by_cases hle : pattern.seen.length ≤ text.seen.length
    · obtain ⟨badCharTable, goodSuffixTable, hbad, hgood, hsearch⟩ := boyerMooreSearch_eq hpos hle
      have hspec := searchLoop_spec text.seen_in pattern.seen_in hbad hgood hpos
        text.seen_length_le
      rcases searchLoop_turn text.seen_in pattern.seen_in hbad hgood 0 hpos (by omega)
        text.seen.length with ⟨hoccurs, hloop⟩ | ⟨j, shift, hstops, hshifts, hloop⟩
      · exact ⟨0, hsearch.trans hloop, .inr ⟨0, rfl, hoccurs⟩, fun _ ↦
          .inr ⟨0, rfl, hoccurs, hzero⟩⟩
      · obtain ⟨result, hresult, hplace, hfirst⟩ :=
          hspec (text.seen.length + 1) 0 (Nat.succ_pos _) (by omega)
        refine ⟨result, hsearch.trans hresult, ?_, fun hsafe ↦ hfirst hsafe hzero⟩
        rcases hplace with hnone | ⟨place, heq, -, hoccurs⟩
        · exact .inl ⟨hnone, fun hoccurs ↦ hstops.2.1 (occursAt_iff.mp hoccurs j hstops.1)⟩
        · exact .inr ⟨place, heq, hoccurs⟩
    · have hnowhere : ∀ start, ¬ OccursAt text.seen pattern.seen start := fun start hoccurs ↦ by
        have hfits := hoccurs.le_length hpos
        omega
      refine ⟨-1, ?_, .inl ⟨rfl, hnowhere 0⟩, fun _ ↦ .inl ⟨rfl, hnowhere⟩⟩
      rw [boyerMooreSearch, strlen_chars, strlen_chars, Option.bind_some, Option.bind_some]
      split_ifs
      · omega
      · rfl
      · rfl
      · omega

/-- An occurrence that is seen is one, or the pattern is so long that it is only looked for at the
start. -/
theorem occursAt_of_seen {text pattern : Text} {start : ℕ}
    (hoccurs : OccursAt text.seen pattern.seen start) :
    OccursAt text pattern start ∨ ∀ place, OccursAt text.seen pattern.seen place → place = 0 := by
  by_cases hshort : pattern.seen.length < maxScan
  · left
    rw [Text.seen_of_length_lt hshort] at hoccurs
    exact hoccurs.trans ((List.take_prefix _ _).drop start)
  · right
    intro place hplace
    have hscan : 0 < maxScan := by decide
    have hends := hplace.le_length (by omega)
    have hseen := text.seen_length_le
    omega

/-- Where the search is right, the first occurrence in what it sees is the first one. -/
theorem seesFirst_of_right {text pattern : Text} (hright : Right text pattern) :
    SeesFirst text pattern := by
  obtain ⟨result, hresult, hfirst⟩ := hright
  obtain ⟨found, hfound, hplace, -⟩ := boyerMooreSearch_result text pattern
  obtain rfl := Option.some.inj (hresult.symm.trans hfound)
  intro seen hseen
  suffices heq : seen = result from heq ▸ hfirst
  rcases hplace with ⟨rfl, hstart⟩ | ⟨place, rfl, hoccurs⟩
  · rcases hseen with ⟨rfl, -⟩ | ⟨start, rfl, hthere, -⟩
    · rfl
    · rcases occursAt_of_seen hthere with hwhole | hlong
      · rcases hfirst with ⟨-, hnowhere⟩ | ⟨other, hother, -⟩
        · exact absurd hwhole (hnowhere start)
        · omega
      · exact absurd (hlong start hthere ▸ hthere) hstart
  · rcases hseen with ⟨-, hnowhere⟩ | ⟨start, rfl, hthere, hearlier⟩
    · exact absurd hoccurs (hnowhere place)
    · have hle : start ≤ place := Nat.le_of_not_lt fun hless ↦ hearlier place hless hoccurs
      rcases occursAt_of_seen hthere with hwhole | hlong
      · rcases hfirst with ⟨hnone, -⟩ | ⟨other, hother, -, hbefore⟩
        · omega
        · have hge : place ≤ start := Nat.le_of_not_lt fun hless ↦ hbefore start (by omega) hwhole
          omega
      · rw [hlong place hoccurs, hlong start hthere]

/-- Where the search is right in every text in which it sees the first occurrence, no entry is too
far. -/
theorem safe_of_right {pattern : Text}
    (hright : ∀ text, SeesFirst text pattern → Right text pattern) :
    Safe pattern.seen.bytes := by
  intro j hj distance hless hpos hscan hfollow
  have hlength : pattern.seen.length = pattern.seen.bytes.length := rfl
  have hpattern : 0 < pattern.seen.length := Nat.lt_of_le_of_lt (Nat.zero_le j) hj
  have hwhole : pattern.seen = pattern := Text.seen_of_length_lt (by omega)
  obtain ⟨other, hzero, hother⟩ : ∃ other : UInt8, other ≠ 0 ∧
      pattern.seen.bytes[j]? ≠ some other := by
    by_cases hone : pattern.seen.bytes[j]? = some 1
    · exact ⟨2, by decide, by rw [hone]; decide⟩
    · exact ⟨1, by decide, hone⟩
  obtain ⟨text, htext⟩ : ∃ text : Text,
      text.bytes = misreadBytes pattern.seen.bytes j distance other :=
    ⟨⟨_, zero_notMem_misreadBytes hzero⟩, rfl⟩
  have htextLength : text.bytes.length = distance + pattern.seen.bytes.length := by
    rw [htext, misreadBytes, List.length_append, List.length_map, List.length_range]
  have hseen : text.seen = text := by
    obtain ⟨bytes, hnul⟩ := text
    unfold Text.seen
    congr 1
    exact List.take_of_length_le (htextLength.trans_le hscan)
  have hlong : text.seen.length = distance + pattern.seen.length := by
    rw [hseen]
    exact htextLength
  have hsees : SeesFirst text pattern := by
    intro result hresult
    rwa [hseen, hwhole] at hresult
  obtain ⟨result, hresult, hisFirst⟩ := hright text hsees
  rw [← hseen, ← hwhole] at hisFirst
  rw [← hseen] at htext
  obtain ⟨badCharTable, goodSuffixTable, hbad, hgood, hsearch⟩ :=
    boyerMooreSearch_eq hpattern (show _ ≤ text.seen.length by omega)
  have hmisread := stopsAt_misread htext hj hother hfollow
  rcases searchLoop_turn text.seen_in pattern.seen_in hbad hgood 0 hpattern (by omega)
    text.seen.length with ⟨hoccurs, -⟩ | ⟨stop, shift, hstops, hshifts, hloop⟩
  · exact hmisread.2.1 (occursAt_iff.mp hoccurs j hj)
  · rw [hmisread.unique hstops] at hshifts
    have hshift := hshifts.2.1
    obtain ⟨later, hlater, hplace, -⟩ := searchLoop_spec text.seen_in pattern.seen_in hbad hgood
      hpattern text.seen_length_le text.seen.length (0 + shift) (by omega) (by omega)
    obtain rfl := Option.some.inj
      (hresult.symm.trans (hsearch.trans (hloop.trans hlater)))
    have hoccurs := occursAt_misread htext
    -- The search goes on behind the place of the pattern.
    rcases hisFirst with ⟨-, hnowhere⟩ | ⟨start, rfl, -, hearlier⟩
    · exact hnowhere distance hoccurs
    · refine hearlier distance ?_ hoccurs
      rcases hplace with hnone | ⟨place, heq, hle, -⟩ <;> omega

example : boyerMooreSearch ⟨[1, 2, 1, 2, 3], by decide⟩ ⟨[1, 2, 3], by decide⟩ = some 2 := by
  decide +kernel

end EynOS.Utilities
