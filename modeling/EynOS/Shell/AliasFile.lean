import EynOS.Foundation.Run
import EynOS.Shell.AliasKey
import Mathlib.Data.List.Nodup

/-!
# The file of aliases read back

What a line of the file is read as (`cutOut_of_parse`, `sound_of_parse`), and what the line of an
entry is read as: `Entry.Readable` says when it is the entry again (`entryLines_of_readable`), and
otherwise what is read has a shorter template (`parse_entryLines`). `load_of_readable` loads a whole
table.
-/

namespace EynOS.Shell.Alias

open Foundation

/-! ### Tables -/

/-- An entry as the table holds it. -/
structure Entry.Sound (entry : Entry) : Prop where
  key : IsKey entry.name
  nonempty : entry.tmpl ≠ []
  short : entry.tmpl.length < ALIAS_MAX_TMPL
  plain : containsMetaChars entry.tmpl = false
  terminated : '\x00' ∉ entry.tmpl

/-- A table of entries with different names. -/
structure Sound (entries : List Entry) : Prop where
  sound : ∀ entry ∈ entries, entry.Sound
  names : (entries.map Entry.name).Nodup
  count : entries.length ≤ ALIAS_MAX_COUNT

variable {entries : List Entry} {entry : Entry} {name tmpl line text : List Char}

theorem sound_nil : Sound [] := ⟨by simp, by simp, by simp⟩

theorem aliasFind_eq_none : aliasFind entries name = none ↔ name ∉ entries.map Entry.name := by
  rw [aliasFind, List.find?_eq_none, List.mem_map]
  simp

/-- A table takes an entry with a new name while there is room. -/
theorem Sound.concat (hentries : Sound entries) (hentry : entry.Sound)
    (hname : aliasFind entries entry.name = none) (hroom : entries.length < ALIAS_MAX_COUNT) :
    Sound (entries ++ [entry]) where
  sound other hother := by
    rcases List.mem_append.mp hother with hother | hother
    · exact hentries.sound other hother
    · exact List.mem_singleton.mp hother ▸ hentry
  names := by
    rw [List.map_append, List.map_singleton, List.nodup_append]
    refine ⟨hentries.names, List.nodup_singleton _, fun other hother last hlast ↦ ?_⟩
    obtain rfl := List.mem_singleton.mp hlast
    exact fun heq ↦ aliasFind_eq_none.mp hname (heq ▸ hother)
  count := by
    rw [List.length_append]
    exact hroom

/-- A binding of a table is one of its entries. -/
theorem Sound.find_iff (hentries : Sound entries) :
    aliasFind entries name = some entry ↔ entry ∈ entries ∧ entry.name = name := by
  constructor
  · intro hfind
    exact ⟨List.mem_of_find?_eq_some hfind, by simpa using List.find?_some hfind⟩
  · rintro ⟨hmem, rfl⟩
    cases hfind : aliasFind entries entry.name with
    | none => exact absurd (List.mem_map_of_mem hmem) (aliasFind_eq_none.mp hfind)
    | some other =>
      have hsame : other.name = entry.name := by simpa using List.find?_some hfind
      rw [List.inj_on_of_nodup_map hentries.names (List.mem_of_find?_eq_some hfind) hmem hsame]

/-! ### Lines -/

theorem of_parsed {nameSrc tmplSrc : List Char}
    (hparsed : parsed nameSrc tmplSrc = some (name, tmpl)) :
    tmpl = tmplSrc.rdropWhile isAliasWs ∧ tmpl ≠ [] ∧ tmpl.length < ALIAS_MAX_TMPL ∧
      aliasNormalizeKey (nameSrc.rdropWhile isAliasWs) = some name := by
  rw [parsed] at hparsed
  split at hparsed
  · exact absurd hparsed (by simp)
  next key hkey =>
    dsimp only at hparsed
    split_ifs at hparsed with hempty hlong
    obtain ⟨rfl, rfl⟩ := Prod.mk.inj (Option.some.inj hparsed)
    exact ⟨rfl, hempty, Nat.not_le.mp hlong, hkey⟩

theorem splitSeparator_eq_some {previous : Option Char} {left right : List Char}
    (hsplit : splitSeparator previous text = some (left, right)) : text = left ++ '=' :: right := by
  induction text generalizing previous left with
  | nil => exact absurd hsplit (by simp [splitSeparator])
  | cons c text ih =>
    rw [splitSeparator] at hsplit
    split_ifs at hsplit with hc
    · obtain ⟨rfl, rfl⟩ := Prod.mk.inj (Option.some.inj hsplit)
      rw [hc.1, List.nil_append]
    · obtain ⟨⟨front, behind⟩, hfront, heq⟩ := Option.map_eq_some_iff.mp hsplit
      obtain ⟨rfl, rfl⟩ := Prod.mk.inj heq
      rw [List.cons_append, ← ih hfront]

/-- A `=` with a blank on each side. -/
def HasSeparator (text : List Char) : Prop :=
  ∃ before first second behind, text = before ++ first :: '=' :: second :: behind ∧
    isAliasWs first = true ∧ isAliasWs second = true

theorem splitSeparator_eq_none {previous : Option Char} :
    splitSeparator previous text = none ↔ ¬HasSeparator (previous.toList ++ text) := by
  induction text generalizing previous with
  | nil =>
    refine iff_of_true rfl ?_
    rintro ⟨before, first, second, behind, heq, -⟩
    have hlength := congrArg List.length heq
    have hprevious : previous.toList.length ≤ 1 := by cases previous <;> simp
    simp only [List.length_append, List.length_cons, List.length_nil] at hlength
    omega
  | cons c text ih =>
    rw [splitSeparator]
    split_ifs with hc
    · obtain ⟨rfl, hleft, hright⟩ := hc
      obtain ⟨first, rfl, hfirst⟩ := (Option.any_eq_true _ _).mp hleft
      obtain ⟨second, hhead, hsecond⟩ := (Option.any_eq_true _ _).mp hright
      obtain ⟨behind, rfl⟩ := List.head?_eq_some_iff.mp hhead
      exact iff_of_false (by simp) (not_not_intro ⟨[], first, second, behind, rfl, hfirst, hsecond⟩)
    · rw [Option.map_eq_none_iff, ih, not_iff_not]
      constructor
      · rintro ⟨before, first, second, behind, heq, hblanks⟩
        exact ⟨previous.toList ++ before, first, second, behind,
          by rw [List.append_assoc, ← heq]; rfl, hblanks⟩
      · rintro ⟨before, first, second, behind, heq, hfirst, hsecond⟩
        cases previous with
        | none => exact ⟨before, first, second, behind, heq, hfirst, hsecond⟩
        | some previous =>
          cases before with
          | nil =>
            obtain ⟨rfl, hrest⟩ := List.cons.inj heq
            obtain ⟨rfl, rfl⟩ := List.cons.inj hrest
            exact absurd ⟨rfl, hfirst, hsecond⟩ hc
          | cons other before =>
            obtain ⟨-, hrest⟩ := List.cons.inj heq
            exact ⟨before, first, second, behind, hrest, hfirst, hsecond⟩

/-- What is left of a template is the end of it without blanks at its start. -/
theorem dropEquals_dropWhile (text : List Char) : ∃ later : List Char,
    dropEquals (text.dropWhile isAliasWs) = later.dropWhile isAliasWs ∧ later <:+ text := by
  unfold dropEquals
  split
  next later hlater =>
    have hsuffix := List.dropWhile_suffix (l := text) isAliasWs
    rw [hlater] at hsuffix
    exact ⟨later, rfl, (List.suffix_cons '=' later).trans hsuffix⟩
  · exact ⟨text, rfl, List.suffix_rfl⟩

theorem trim_inside (text : List Char) : trim isAliasWs text <:+: text :=
  (List.rdropWhile_prefix _ _).isInfix.trans (List.dropWhile_suffix _).isInfix

/-- A template that is cut out of a line behind its first character, and trimmed. -/
structure CutOut (tmpl line : List Char) : Prop where
  trimmed : trim isAliasWs tmpl = tmpl
  behind : ∃ c rest, c :: rest <:+ line ∧ tmpl <:+: rest

theorem CutOut.length_lt (hcut : CutOut tmpl line) : tmpl.length < line.length := by
  obtain ⟨c, rest, hrest, htmpl⟩ := hcut.behind
  exact Nat.lt_of_le_of_lt htmpl.length_le hrest.length_le

theorem CutOut.subset (hcut : CutOut tmpl line) : tmpl ⊆ line := by
  obtain ⟨c, rest, hrest, htmpl⟩ := hcut.behind
  exact fun other hother ↦ hrest.subset (List.mem_cons_of_mem c (htmpl.subset hother))

theorem cutOut_of_parseQuoted (hparse : parseQuoted text = some (name, tmpl)) :
    CutOut tmpl text := by
  rw [parseQuoted] at hparse
  split at hparse
  · exact absurd hparse (by simp)
  next c behind hbehind =>
    obtain ⟨rfl, -⟩ := of_parsed hparse
    obtain ⟨later, hlater, hsuffix⟩ := dropEquals_dropWhile behind
    rw [hlater]
    refine ⟨trim_trim, c, behind, ?_, (trim_inside later).trans hsuffix.isInfix⟩
    rw [← hbehind]
    exact List.dropWhile_suffix _

theorem cutOut_of_parseUnquoted (hparse : parseUnquoted text = some (name, tmpl)) :
    CutOut tmpl text := by
  rw [parseUnquoted] at hparse
  split at hparse
  next left right hsplit =>
    obtain ⟨rfl, -⟩ := of_parsed hparse
    exact ⟨trim_trim, '=', right, ⟨left, (splitSeparator_eq_some hsplit).symm⟩, trim_inside right⟩
  · split at hparse
    · exact absurd hparse (by simp)
    next c behind hbehind =>
      obtain ⟨rfl, -⟩ := of_parsed hparse
      refine ⟨trim_trim, c, behind, ?_, trim_inside behind⟩
      rw [← hbehind]
      exact List.dropWhile_suffix _

/-- What is parsed: a key, and a template that was cut out of the trimmed line. -/
theorem cutOut_of_parse (hparse : aliasParseConfigLine line = some (name, tmpl)) :
    CutOut tmpl (trim isAliasWs line) := by
  rw [aliasParseConfigLine] at hparse
  split at hparse
  · exact absurd hparse (by simp)
  · exact absurd hparse (by simp)
  next rest hrest =>
    obtain ⟨htrim, c, behind, hsuffix, hinfix⟩ := cutOut_of_parseQuoted hparse
    rw [hrest]
    exact ⟨htrim, c, behind, hsuffix.trans (List.suffix_cons '"' rest), hinfix⟩
  · exact cutOut_of_parseUnquoted hparse

/-- What a line adds to a table can be held there. -/
theorem sound_of_parse (hparse : aliasParseConfigLine line = some (name, tmpl))
    (hline : '\x00' ∉ line) (hplain : containsMetaChars tmpl = false) :
    Entry.Sound { name, tmpl } := by
  have hcut := cutOut_of_parse hparse
  have hparsed : ∃ nameSrc tmplSrc, parsed nameSrc tmplSrc = some (name, tmpl) := by
    rw [aliasParseConfigLine] at hparse
    split at hparse
    · exact absurd hparse (by simp)
    · exact absurd hparse (by simp)
    · rw [parseQuoted] at hparse
      split at hparse
      · exact absurd hparse (by simp)
      · exact ⟨_, _, hparse⟩
    · rw [parseUnquoted] at hparse
      split at hparse
      · exact ⟨_, _, hparse⟩
      · split at hparse
        · exact absurd hparse (by simp)
        · exact ⟨_, _, hparse⟩
  obtain ⟨nameSrc, tmplSrc, hparsed⟩ := hparsed
  obtain ⟨-, hempty, hshort, hkey⟩ := of_parsed hparsed
  exact ⟨isKey_of_normalizeKey hkey, hempty, hshort, hplain, fun hmem ↦
    hline ((trim_inside line).subset (hcut.subset hmem))⟩

/-! ### The line of an entry -/

def Entry.label (entry : Entry) : List Char :=
  if entry.name.any isAliasWs then '"' :: (entry.name ++ ['"']) else entry.name

theorem lineOf_eq : lineOf entry = (entry.label ++ ' ' :: entry.tmpl) ++ ['\n'] := by
  simp [lineOf, Entry.label]

theorem isSolid_label (hkey : IsKey entry.name) : IsSolid isAliasWs entry.label := by
  rw [Entry.label]
  split_ifs
  · refine ⟨by simp, by simp [isAliasWs], ?_⟩
    rw [← List.cons_append, List.getLast?_concat]
    simp [isAliasWs]
  · exact hkey.isSolid

variable {left core right : List Char}

/-- The line of an entry whose template is cut short at its blanks. -/
theorem trim_label (hkey : IsKey entry.name) (hcore : IsSolid isAliasWs core)
    (hright : IsBlank isAliasWs right) :
    trim isAliasWs (entry.label ++ ' ' :: (left ++ core ++ right)) =
      entry.label ++ ' ' :: (left ++ core) := by
  have hlabel := isSolid_label hkey
  rw [show entry.label ++ ' ' :: (left ++ core ++ right) =
    (entry.label ++ ' ' :: left) ++ core ++ right by simp, trim_around hcore,
    rdropWhile_of_isBlank hright, dropWhile_of_head]
  · simp
  · rw [List.head?_append_of_ne_nil _ hlabel.nonempty]
    exact hlabel.head

theorem parsed_key (hkey : IsKey name) (tmplSrc : List Char) : parsed name tmplSrc =
    if tmplSrc.rdropWhile isAliasWs = [] then none
    else if ALIAS_MAX_TMPL ≤ (tmplSrc.rdropWhile isAliasWs).length then none
    else some (name, tmplSrc.rdropWhile isAliasWs) := by
  rw [parsed, rdropWhile_of_last hkey.isSolid.last, hkey.normalize]

/-- A line with a quoted name. -/
theorem parse_quoted (hkey : IsKey entry.name) (hquoted : entry.name.any isAliasWs = true)
    (htrim : trim isAliasWs line = entry.label ++ text) :
    aliasParseConfigLine line = parsed entry.name (dropEquals (text.dropWhile isAliasWs)) := by
  have hquote : ∀ c ∈ entry.name, (c != '"') = true := by
    intro c hc
    rcases hkey.chars c hc with hname | rfl
    · simp only [bne_iff_ne, ne_eq]
      rintro rfl
      exact absurd hname (by decide)
    · decide
  rw [aliasParseConfigLine, htrim, Entry.label, if_pos hquoted]
  simp only [List.cons_append, List.append_assoc]
  rw [parseQuoted, List.dropWhile_append_of_pos hquote, List.takeWhile_append_of_pos hquote]
  simp only [List.dropWhile_cons, List.takeWhile_cons, bne_self_eq_false, Bool.false_eq_true,
    if_false, List.append_nil, List.nil_append]

/-- A line with a name that is not quoted. -/
theorem parse_unquoted (hkey : IsKey entry.name) (hunquoted : entry.name.any isAliasWs = false)
    (htrim : trim isAliasWs line = entry.label ++ text) :
    aliasParseConfigLine line = parseUnquoted (entry.name ++ text) := by
  obtain ⟨c, rest, hname⟩ := List.exists_cons_of_ne_nil hkey.isSolid.nonempty
  have hc : isNameChar c = true := by
    refine (hkey.chars c (by rw [hname]; simp)).resolve_right ?_
    rintro rfl
    exact absurd (hkey.isSolid.head ' ' (by rw [hname]; rfl)) (by decide)
  rw [aliasParseConfigLine, htrim, Entry.label, if_neg (by simp [hunquoted]), hname,
    List.cons_append]
  split
  next heq => exact absurd heq (List.cons_ne_nil _ _)
  next heq =>
    obtain ⟨rfl, -⟩ := List.cons.inj heq
    exact absurd hc (by decide)
  next heq =>
    obtain ⟨rfl, -⟩ := List.cons.inj heq
    exact absurd hc (by decide)
  · rfl

/-- The blanks in front of a template are dropped. -/
theorem dropWhile_space (hcore : IsSolid isAliasWs core) (hleft : IsBlank isAliasWs left) :
    (' ' :: (left ++ core)).dropWhile isAliasWs = core := by
  rw [List.dropWhile_cons_of_pos (by decide), dropWhile_append_of_isBlank hleft,
    dropWhile_of_head hcore.head]

/-- Without a separator, the name is the first word and the template what is behind it. -/
theorem parseUnquoted_of_none (hunquoted : name.any isAliasWs = false)
    (hcore : IsSolid isAliasWs core) (hleft : IsBlank isAliasWs left)
    (hnone : splitSeparator none (name ++ ' ' :: (left ++ core)) = none) :
    parseUnquoted (name ++ ' ' :: (left ++ core)) = parsed name core := by
  have hword : ∀ c ∈ name, (!isAliasWs c) = true := by simpa using hunquoted
  have hdrop : (name ++ ' ' :: (left ++ core)).dropWhile (!isAliasWs ·) =
      ' ' :: (left ++ core) := by
    rw [List.dropWhile_append_of_pos hword]
    rfl
  have htake : (name ++ ' ' :: (left ++ core)).takeWhile (!isAliasWs ·) = name := by
    rw [List.takeWhile_append_of_pos hword]
    exact List.append_nil name
  rw [parseUnquoted, hnone]
  simp only [hdrop, htake]
  rw [dropWhile_append_of_isBlank hleft, dropWhile_of_head hcore.head]

/-- A separator in a line is in the template. -/
theorem parseUnquoted_of_some (hkey : IsKey name) (hleft : IsBlank isAliasWs left)
    {before behind : List Char}
    (hsome : splitSeparator none (name ++ ' ' :: (left ++ core)) = some (before, behind)) :
    ∃ front, core = front ++ '=' :: behind := by
  have heq := splitSeparator_eq_some hsome
  have hequals : '=' ∉ name ++ ' ' :: left := by
    intro hmem
    rcases List.mem_append.mp hmem with hmem | hmem
    · rcases hkey.chars _ hmem with hname | hspace
      · exact absurd hname (by decide)
      · exact absurd hspace (by decide)
    · rcases List.mem_cons.mp hmem with hspace | hmem
      · exact absurd hspace (by decide)
      · exact absurd (hleft _ hmem) (by decide)
  rw [← List.cons_append, ← List.append_assoc] at heq
  rcases List.append_eq_append_iff.mp heq with ⟨front, rfl, hcore⟩ | ⟨front, hfront, hrest⟩
  · exact ⟨front, hcore⟩
  · cases front with
    | nil => exact ⟨[], by simpa using hrest.symm⟩
    | cons c front =>
      obtain ⟨rfl, -⟩ := List.cons.inj hrest
      exact absurd (hfront ▸ List.mem_append_right _ List.mem_cons_self) hequals

/-! ### Which entries are read back -/

/-- An entry whose line says what the entry is: the template is not blank, no line ends before its
last character that is no blank, and it has no `=` where the reader takes one for a separator. -/
structure Entry.Readable (entry : Entry) : Prop where
  nonblank : trim isAliasWs entry.tmpl ≠ []
  oneLine : '\n' ∉ entry.tmpl.rdropWhile isAliasWs
  equals : if entry.name.any isAliasWs then (trim isAliasWs entry.tmpl).head? ≠ some '='
    else ¬HasSeparator (' ' :: entry.tmpl.rdropWhile isAliasWs)

/-- In front of a separator stands a blank. -/
theorem hasSeparator_append (hunquoted : name.any isAliasWs = false) :
    HasSeparator (name ++ text) ↔ HasSeparator text := by
  induction name with
  | nil => rfl
  | cons c name ih =>
    rw [List.any_cons, Bool.or_eq_false_iff] at hunquoted
    rw [← ih hunquoted.2, List.cons_append]
    constructor
    · rintro ⟨before, first, second, behind, heq, hfirst, hsecond⟩
      cases before with
      | nil =>
        obtain ⟨rfl, -⟩ := List.cons.inj heq
        exact absurd hfirst (by simp [hunquoted.1])
      | cons other before =>
        exact ⟨before, first, second, behind, (List.cons.inj heq).2, hfirst, hsecond⟩
    · rintro ⟨before, first, second, behind, heq, hblanks⟩
      exact ⟨c :: before, first, second, behind, by rw [heq, List.cons_append], hblanks⟩

/-- The first line of an entry, with a template that begins with some text: what is parsed is the
trimmed text, and there is no `=` for a separator, or it is shorter. -/
theorem parse_first (hkey : IsKey entry.name) (hcore : IsSolid isAliasWs core)
    (hleft : IsBlank isAliasWs left) (hright : IsBlank isAliasWs right)
    (hparse : aliasParseConfigLine (entry.label ++ ' ' :: (left ++ core ++ right)) =
      some (name, tmpl)) :
    tmpl.length < core.length ∨ name = entry.name ∧ tmpl = core ∧
      if entry.name.any isAliasWs then core.head? ≠ some '='
      else ¬HasSeparator (' ' :: (left ++ core)) := by
  have hlast := rdropWhile_of_last hcore.last
  cases hquoted : entry.name.any isAliasWs with
  | true =>
    rw [parse_quoted hkey hquoted (trim_label hkey hcore hright), dropWhile_space hcore hleft,
      parsed_key hkey] at hparse
    split_ifs at hparse
    obtain ⟨rfl, rfl⟩ := Prod.mk.inj (Option.some.inj hparse)
    by_cases hequals : core.head? = some '='
    · left
      obtain ⟨later, rfl⟩ := List.head?_eq_some_iff.mp hequals
      exact Nat.lt_succ_of_le (trim_inside later).length_le
    · right
      have hsame : dropEquals core = core := by
        unfold dropEquals
        split
        · exact absurd rfl hequals
        · rfl
      rw [hsame, hlast]
      exact ⟨rfl, rfl, hequals⟩
  | false =>
    rw [parse_unquoted hkey hquoted (trim_label hkey hcore hright)] at hparse
    cases hsplit : splitSeparator none (entry.name ++ ' ' :: (left ++ core)) with
    | none =>
      rw [parseUnquoted_of_none hquoted hcore hleft hsplit, parsed_key hkey, hlast] at hparse
      split_ifs at hparse
      obtain ⟨rfl, rfl⟩ := Prod.mk.inj (Option.some.inj hparse)
      refine .inr ⟨rfl, rfl, ?_⟩
      rw [← hasSeparator_append hquoted]
      exact splitSeparator_eq_none.mp hsplit
    | some parts =>
      obtain ⟨before, behind⟩ := parts
      left
      obtain ⟨front, rfl⟩ := parseUnquoted_of_some hkey hleft hsplit
      rw [parseUnquoted, hsplit] at hparse
      obtain ⟨rfl, -⟩ := of_parsed hparse
      have hle := (trim_inside behind).length_le
      rw [trim] at hle
      rw [List.length_append, List.length_cons]
      omega

/-- Where there is no `=` for a separator, the first line is read back. -/
theorem parse_first_of_equals (hkey : IsKey entry.name) (hcore : IsSolid isAliasWs core)
    (hleft : IsBlank isAliasWs left) (hright : IsBlank isAliasWs right)
    (hshort : core.length < ALIAS_MAX_TMPL)
    (hequals : if entry.name.any isAliasWs then core.head? ≠ some '='
      else ¬HasSeparator (' ' :: (left ++ core))) :
    aliasParseConfigLine (entry.label ++ ' ' :: (left ++ core ++ right)) =
      some (entry.name, core) := by
  have hparsed : parsed entry.name core = some (entry.name, core) := by
    rw [parsed_key hkey, rdropWhile_of_last hcore.last, if_neg hcore.nonempty,
      if_neg (Nat.not_le.mpr hshort)]
  cases hquoted : entry.name.any isAliasWs with
  | true =>
    rw [if_pos hquoted] at hequals
    have hsame : dropEquals core = core := by
      unfold dropEquals
      split
      · exact absurd rfl hequals
      · rfl
    rw [parse_quoted hkey hquoted (trim_label hkey hcore hright), dropWhile_space hcore hleft,
      hsame, hparsed]
  | false =>
    rw [if_neg (by simp [hquoted])] at hequals
    rw [parse_unquoted hkey hquoted (trim_label hkey hcore hright),
      parseUnquoted_of_none hquoted hcore hleft, hparsed]
    refine splitSeparator_eq_none.mpr ?_
    rw [Option.toList_none, List.nil_append, hasSeparator_append hquoted]
    exact hequals

/-- The first line of an entry without a template. -/
theorem parse_blank (hkey : IsKey entry.name) (htext : IsBlank isAliasWs text) :
    aliasParseConfigLine (entry.label ++ ' ' :: text) = none := by
  have hblank : IsBlank isAliasWs (' ' :: text) := List.forall_mem_cons.mpr ⟨by decide, htext⟩
  have htrim : trim isAliasWs (entry.label ++ ' ' :: text) = entry.label ++ [] := by
    rw [trim_append_of_isBlank hblank, trim_of_isSolid (isSolid_label hkey), List.append_nil]
  cases hquoted : entry.name.any isAliasWs with
  | true =>
    rw [parse_quoted hkey hquoted htrim, parsed_key hkey]
    exact if_pos rfl
  | false =>
    have hword : ∀ c ∈ entry.name, (!isAliasWs c) = true := by simpa using hquoted
    have hnone : splitSeparator none entry.name = none := by
      refine splitSeparator_eq_none.mpr ?_
      rintro ⟨before, first, second, behind, heq, hfirst, -⟩
      have hmem : first ∈ entry.name := by
        rw [← List.nil_append entry.name, ← Option.toList_none, heq]
        simp
      exact absurd hfirst (by simpa using hword first hmem)
    rw [parse_unquoted hkey hquoted htrim, List.append_nil, parseUnquoted, hnone]
    simp only [List.dropWhile_eq_nil_iff.mpr hword]

/-! ### The lines of an entry -/

/-- A text is one line, or a first line and the rest. -/
theorem splitOn_cases (text : List Char) : '\n' ∉ text ∧ text.splitOn '\n' = [text] ∨
    ∃ first rest, '\n' ∉ first ∧ text = first ++ '\n' :: rest ∧
      text.splitOn '\n' = first :: rest.splitOn '\n' := by
  by_cases hmem : '\n' ∈ text
  · obtain ⟨first, rest, rfl, hfirst⟩ := List.eq_append_cons_of_mem hmem
    refine .inr ⟨first, rest, hfirst, rfl, ?_⟩
    rw [List.splitOn_append_cons_self, List.splitOn_eq_singleton hfirst, List.singleton_append]
  · exact .inl ⟨hmem, List.splitOn_eq_singleton hmem⟩

/-- A line is a part of its text. -/
theorem infix_of_mem_splitOn (hline : line ∈ text.splitOn '\n') : line <:+: text := by
  induction hlength : text.length using Nat.strong_induction_on generalizing text with
  | _ length ih =>
    rcases splitOn_cases text with ⟨-, hsplit⟩ | ⟨first, rest, -, heq, hsplit⟩
    · rw [hsplit, List.mem_singleton] at hline
      exact hline ▸ List.infix_rfl
    · rw [hsplit, List.mem_cons] at hline
      have hsuffix : rest <:+ text := ⟨first ++ ['\n'], by rw [heq]; simp⟩
      rcases hline with rfl | hline
      · exact ⟨[], '\n' :: rest, by rw [heq, List.nil_append]⟩
      · refine (ih rest.length ?_ hline rfl).trans hsuffix.isInfix
        rw [← hlength, heq, List.length_append, List.length_cons]
        omega

theorem parse_of_isBlank (hline : IsBlank isAliasWs line) : aliasParseConfigLine line = none := by
  rw [aliasParseConfigLine, trim_of_isBlank hline]

def entryLines (entry : Entry) : List (List Char) :=
  (entry.label ++ ' ' :: entry.tmpl).splitOn '\n'

theorem newline_not_mem_label (hkey : IsKey entry.name) : '\n' ∉ entry.label := by
  have hname : '\n' ∉ entry.name := fun hmem ↦ by
    rcases hkey.chars _ hmem with hname | hspace
    · exact absurd hname (by decide)
    · exact absurd hspace (by decide)
  rw [Entry.label]
  split_ifs
  · simpa using hname
  · exact hname

theorem entryLines_cases (hkey : IsKey entry.name) :
    ∃ first behind others, '\n' ∉ first ∧ entry.tmpl = first ++ behind ∧
      entryLines entry = (entry.label ++ ' ' :: first) :: others ∧
        ∀ line ∈ others, line <:+: behind ∧ '\n' ∈ behind := by
  have hlabel := newline_not_mem_label hkey
  rcases splitOn_cases entry.tmpl with ⟨hone, -⟩ | ⟨first, rest, hfirst, heq, -⟩
  · refine ⟨entry.tmpl, [], [], hone, (List.append_nil _).symm, ?_, by simp⟩
    exact List.splitOn_eq_singleton (by simp [hlabel, hone])
  · refine ⟨first, '\n' :: rest, rest.splitOn '\n', hfirst, heq, ?_, fun line hline ↦ ?_⟩
    · rw [entryLines, heq, ← List.cons_append, ← List.append_assoc, List.splitOn_append_cons_self,
        List.splitOn_eq_singleton (by simp [hlabel, hfirst]), List.singleton_append]
    · exact ⟨(infix_of_mem_splitOn hline).trans (List.suffix_cons _ _).isInfix, List.mem_cons_self⟩

/-- What the lines of an entry say: the entry itself, where it can be read back, and otherwise
something with a shorter template. -/
theorem parse_entryLines (hkey : IsKey entry.name) (hline : line ∈ entryLines entry)
    (hparse : aliasParseConfigLine line = some (name, tmpl)) :
    name = entry.name ∧ tmpl = trim isAliasWs entry.tmpl ∧ entry.Readable ∨
      tmpl.length < (trim isAliasWs entry.tmpl).length := by
  obtain ⟨first, behind, others, hfirst, heq, hlines, hothers⟩ := entryLines_cases hkey
  rw [hlines, List.mem_cons] at hline
  rcases hline with rfl | hline
  · rcases trim_cases isAliasWs first with hblank | ⟨hcore, left, right, hleft, hright, hsplit⟩
    · exact absurd hparse (by simp [parse_blank hkey hblank])
    · have hcoreNonempty : trim isAliasWs first ≠ [] := hcore.nonempty
      rw [hsplit] at hparse
      rcases parse_first hkey hcore hleft hright hparse with hshorter | ⟨rfl, rfl, hequals⟩
      · right
        refine Nat.lt_of_lt_of_le hshorter ?_
        rw [heq, ← List.nil_append (first ++ behind), ← List.append_assoc]
        exact length_trim_inside
      · by_cases hbehind : IsBlank isAliasWs behind
        · have htrim : trim isAliasWs entry.tmpl = trim isAliasWs first := by
            rw [heq, trim_append_of_isBlank hbehind]
          have hrdrop : entry.tmpl.rdropWhile isAliasWs = left ++ trim isAliasWs first := by
            have hlast : ∀ c ∈ (left ++ trim isAliasWs first).getLast?, isAliasWs c = false := by
              rw [List.getLast?_append_of_ne_nil _ hcoreNonempty]
              exact hcore.last
            rw [heq, rdropWhile_append_of_isBlank hbehind]
            conv_lhs => rw [hsplit, rdropWhile_append_of_isBlank hright, rdropWhile_of_last hlast]
          refine .inl ⟨rfl, htrim.symm, htrim ▸ hcoreNonempty, ?_, ?_⟩
          · rw [hrdrop]
            rw [hsplit] at hfirst
            exact fun hmem ↦ hfirst (List.mem_append_left _ hmem)
          · rw [htrim, hrdrop]
            exact hequals
        · right
          rw [heq]
          exact length_trim_append_lt hcoreNonempty hbehind
  · right
    obtain ⟨before, after, hinfix⟩ := (hothers line hline).1
    refine Nat.lt_of_lt_of_le (cutOut_of_parse hparse).length_lt ?_
    rw [heq, ← hinfix, ← List.append_assoc, ← List.append_assoc]
    exact length_trim_inside

/-- An entry that can be read back is read from its first line, and the others are blank. -/
theorem entryLines_of_readable (hentry : entry.Sound) (hreadable : entry.Readable) :
    ∃ first others, entryLines entry = first :: others ∧
      aliasParseConfigLine first = some (entry.name, trim isAliasWs entry.tmpl) ∧
        ∀ line ∈ others, IsBlank isAliasWs line := by
  obtain ⟨hcore, left, right, hleft, hright, hsplit⟩ :=
    (trim_cases isAliasWs entry.tmpl).resolve_left fun hblank ↦
      hreadable.nonblank (trim_of_isBlank hblank)
  have hlast : ∀ c ∈ (left ++ trim isAliasWs entry.tmpl).getLast?, isAliasWs c = false := by
    rw [List.getLast?_append_of_ne_nil _ hcore.nonempty]
    exact hcore.last
  have hrdrop : entry.tmpl.rdropWhile isAliasWs = left ++ trim isAliasWs entry.tmpl := by
    conv_lhs => rw [hsplit, rdropWhile_append_of_isBlank hright, rdropWhile_of_last hlast]
  obtain ⟨-, honeLine, hequals⟩ := hreadable
  rw [hrdrop] at honeLine hequals
  have hlabel := newline_not_mem_label hentry.key
  have hshort : (trim isAliasWs entry.tmpl).length < ALIAS_MAX_TMPL :=
    Nat.lt_of_le_of_lt (trim_inside _).length_le hentry.short
  have hfront (tail : List Char) (htail : '\n' ∉ tail) :
      '\n' ∉ entry.label ++ ' ' :: (left ++ trim isAliasWs entry.tmpl ++ tail) := by
    simp only [List.mem_append, List.mem_cons, not_or] at honeLine ⊢
    exact ⟨hlabel, by decide, honeLine, htail⟩
  rcases splitOn_cases right with ⟨hone, -⟩ | ⟨tail, rest, htail, rfl, -⟩
  · refine ⟨_, [], ?_, parse_first_of_equals hentry.key hcore hleft hright hshort hequals, by simp⟩
    conv_lhs => rw [entryLines, hsplit]
    exact List.splitOn_eq_singleton (hfront right hone)
  · have hblanks : IsBlank isAliasWs tail ∧ IsBlank isAliasWs rest :=
      ⟨fun c hc ↦ hright c (by simp [hc]), fun c hc ↦ hright c (by simp [hc])⟩
    refine ⟨_, rest.splitOn '\n', ?_,
      parse_first_of_equals hentry.key hcore hleft hblanks.1 hshort hequals,
      fun line hline c hc ↦ ?_⟩
    · conv_lhs => rw [entryLines, hsplit, ← List.append_assoc, ← List.cons_append,
        ← List.append_assoc, List.splitOn_append_cons_self,
        List.splitOn_eq_singleton (hfront tail htail), List.singleton_append]
    · exact hblanks.2 c ((infix_of_mem_splitOn hline).subset hc)

/-! ### Loading -/

/-- An entry without the blanks around its template. -/
def Entry.trimmed (entry : Entry) : Entry := { entry with tmpl := trim isAliasWs entry.tmpl }

theorem loadLine_of_none (hparse : aliasParseConfigLine line = none) :
    loadLine entries line = entries := by
  rw [loadLine, hparse]

theorem foldl_loadLine_of_none {lines : List (List Char)}
    (hlines : ∀ line ∈ lines, aliasParseConfigLine line = none) :
    lines.foldl loadLine entries = entries := by
  induction lines with
  | nil => rfl
  | cons line lines ih =>
    obtain ⟨hline, hlines⟩ := List.forall_mem_cons.mp hlines
    rw [List.foldl_cons, loadLine_of_none hline, ih hlines]

/-- What a line does to a table. -/
theorem loadLine_cases (entries : List Entry) (line : List Char) :
    loadLine entries line = entries ∨
      ∃ name tmpl, aliasParseConfigLine line = some (name, tmpl) ∧
        containsMetaChars tmpl = false ∧ aliasFind entries name = none ∧
          entries.length < ALIAS_MAX_COUNT ∧
            loadLine entries line = entries ++ [Entry.mk name tmpl] := by
  rw [loadLine]
  split
  · exact .inl rfl
  next name tmpl hparse =>
    split_ifs with hmeta hfind hroom
    · exact .inl rfl
    · exact .inl rfl
    · exact .inl rfl
    · exact .inr ⟨name, tmpl, hparse, by simpa using hmeta, by simpa using hfind,
        Nat.not_le.mp hroom, rfl⟩

/-- Every entry of a loaded table comes from a line. -/
theorem parse_of_mem_load {lines : List (List Char)}
    (hentry : entry ∈ lines.foldl loadLine entries) : entry ∈ entries ∨
      ∃ line ∈ lines, aliasParseConfigLine line = some (entry.name, entry.tmpl) := by
  induction lines generalizing entries with
  | nil => exact .inl hentry
  | cons line lines ih =>
    rcases ih hentry with hbefore | ⟨other, hother, hparse⟩
    · rcases loadLine_cases entries line with hsame | ⟨name, tmpl, hparse, -, -, -, hadd⟩
      · rw [hsame] at hbefore
        exact .inl hbefore
      · rw [hadd, List.mem_append, List.mem_singleton] at hbefore
        rcases hbefore with hbefore | rfl
        · exact .inl hbefore
        · exact .inr ⟨line, List.mem_cons_self, hparse⟩
    · exact .inr ⟨other, List.mem_cons_of_mem _ hother, hparse⟩

/-- A loaded table is one that the calls could have made. -/
theorem sound_load {lines : List (List Char)} (hentries : Sound entries)
    (hlines : ∀ line ∈ lines, '\x00' ∉ line) : Sound (lines.foldl loadLine entries) := by
  induction lines generalizing entries with
  | nil => exact hentries
  | cons line lines ih =>
    obtain ⟨hline, hlines⟩ := List.forall_mem_cons.mp hlines
    refine ih ?_ hlines
    rcases loadLine_cases entries line with hsame | ⟨name, tmpl, hparse, hplain, hfind, hroom, hadd⟩
    · rw [hsame]
      exact hentries
    · rw [hadd]
      exact hentries.concat (sound_of_parse hparse hline hplain) hfind hroom

theorem sound_loadFile (contents : List Char) : Sound (loadFile contents) := by
  refine sound_load sound_nil fun line hline hmem ↦ ?_
  have hzero := List.mem_takeWhile_imp ((infix_of_mem_splitOn hline).subset hmem)
  exact absurd hzero (by decide)

/-- Entries that can be read back are loaded behind those that are there. -/
theorem load_of_readable {before : List Entry} (hentries : Sound (before ++ entries))
    (hreadable : ∀ entry ∈ entries, entry.Readable) :
    (entries.flatMap entryLines).foldl loadLine (before.map Entry.trimmed) =
      (before ++ entries).map Entry.trimmed := by
  induction entries generalizing before with
  | nil => rw [List.flatMap_nil, List.foldl_nil, List.append_nil]
  | cons entry entries ih =>
    obtain ⟨hentry, hlater⟩ := List.forall_mem_cons.mp hreadable
    have hsound := hentries.sound entry (by simp)
    obtain ⟨first, others, hlines, hfirst, hothers⟩ := entryLines_of_readable hsound hentry
    have hplain : containsMetaChars (trim isAliasWs entry.tmpl) = false := by
      have hall := hsound.plain
      rw [containsMetaChars, List.any_eq_false] at hall ⊢
      exact fun c hc ↦ hall c ((trim_inside entry.tmpl).subset hc)
    have hfind : aliasFind (before.map Entry.trimmed) entry.name = none := by
      have hnames := hentries.names
      rw [List.map_append, List.nodup_append] at hnames
      refine aliasFind_eq_none.mpr fun hmem ↦ ?_
      rw [List.map_map] at hmem
      exact hnames.2.2 _ hmem _ (by simp) rfl
    have hroom : (before.map Entry.trimmed).length < ALIAS_MAX_COUNT := by
      have hcount := hentries.count
      rw [List.length_append, List.length_cons] at hcount
      rw [List.length_map]
      omega
    have hadd : loadLine (before.map Entry.trimmed) first =
        (before ++ [entry]).map Entry.trimmed := by
      rw [loadLine, hfirst]
      dsimp only
      rw [if_neg (by simp [hplain]), hfind, if_neg (by simp), if_neg (Nat.not_le.mpr hroom),
        List.map_append, List.map_singleton, Entry.trimmed]
    rw [List.flatMap_cons, hlines, List.foldl_append, List.foldl_cons, hadd,
      foldl_loadLine_of_none fun line hline ↦ parse_of_isBlank (hothers line hline),
      ih (by rwa [List.append_assoc]) hlater, List.append_assoc, List.singleton_append]

end EynOS.Shell.Alias
