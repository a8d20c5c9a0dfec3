import Mathlib.Data.List.DropRight
import Mathlib.Data.List.TakeWhile

/-!
# Texts of words and blanks

`joinWords` puts words behind one another with one separator between two of them. A list of words
grows at its end by a whole word (`joinWords_concat`) or by one symbol of its last word
(`joinWords_concat_append`).

`trim` drops the blanks at both ends of a text. `trim_cases` takes a text apart into blanks, a solid
core that begins and ends with no blank, and blanks; `trim_around` says what the trimmed text is
where something solid stands between two texts. From these follow what a part of a text may be
longer or shorter than (`length_trim_inside`, `length_trim_append_lt`).
-/

namespace EynOS.Foundation

/-! ### Joining words -/

section Words

variable {Symbol : Type} {separator c : Symbol} {words others : List (List Symbol)}
  {word more text : List Symbol}

def joinWords (separator : Symbol) : List (List Symbol) → List Symbol
  | [] => []
  | [word] => word
  | word :: next :: words => word ++ separator :: joinWords separator (next :: words)

theorem joinWords_cons (hwords : words ≠ []) :
    joinWords separator (word :: words) = word ++ separator :: joinWords separator words := by
  cases words with
  | nil => exact absurd rfl hwords
  | cons next words => rfl

theorem joinWords_concat (hwords : words ≠ []) :
    joinWords separator (words ++ [word]) = joinWords separator words ++ separator :: word := by
  induction words with
  | nil => exact absurd rfl hwords
  | cons first words ih =>
    cases words with
    | nil => rfl
    | cons next words =>
      have hnext := ih (List.cons_ne_nil next words)
      rw [List.cons_append, joinWords_cons (by simp), hnext, joinWords, List.append_assoc,
        List.cons_append]

theorem joinWords_concat_append :
    joinWords separator (words ++ [word ++ more]) =
      joinWords separator (words ++ [word]) ++ more := by
  by_cases hwords : words = []
  · rw [hwords]
    rfl
  · rw [joinWords_concat hwords, joinWords_concat hwords, List.append_assoc, List.cons_append]

/-- What is in joined words is the separator or in a word. -/
theorem mem_joinWords (hc : c ∈ joinWords separator words) :
    c = separator ∨ ∃ word ∈ words, c ∈ word := by
  induction words with
  | nil => exact absurd hc List.not_mem_nil
  | cons word words ih =>
    by_cases hwords : words = []
    · rw [hwords] at hc
      exact .inr ⟨word, List.mem_cons_self, hc⟩
    · rw [joinWords_cons hwords, List.mem_append, List.mem_cons] at hc
      rcases hc with hc | hc | hc
      · exact .inr ⟨word, List.mem_cons_self, hc⟩
      · exact .inl hc
      · rcases ih hc with hc | ⟨other, hother, hc⟩
        · exact .inl hc
        · exact .inr ⟨other, List.mem_cons_of_mem _ hother, hc⟩

end Words

/-! ### Trimming -/

section Trimming

variable {Symbol : Type} {blank : Symbol → Bool} {text left right core first second : List Symbol}
  {c : Symbol}

/-- A text without the blanks at its ends. -/
def trim (blank : Symbol → Bool) (text : List Symbol) : List Symbol :=
  (text.dropWhile blank).rdropWhile blank

def IsBlank (blank : Symbol → Bool) (text : List Symbol) : Prop := ∀ c ∈ text, blank c = true

/-- A text begins and ends with a symbol that is no blank. -/
structure IsSolid (blank : Symbol → Bool) (text : List Symbol) : Prop where
  nonempty : text ≠ []
  head : ∀ c ∈ text.head?, blank c = false
  last : ∀ c ∈ text.getLast?, blank c = false

theorem IsBlank.append (hfirst : IsBlank blank first) (hsecond : IsBlank blank second) :
    IsBlank blank (first ++ second) := fun c hc ↦
  (List.mem_append.mp hc).elim (hfirst c) (hsecond c)

theorem dropWhile_of_isBlank (htext : IsBlank blank text) : text.dropWhile blank = [] :=
  List.dropWhile_eq_nil_iff.mpr htext

theorem rdropWhile_of_isBlank (htext : IsBlank blank text) : text.rdropWhile blank = [] :=
  List.rdropWhile_eq_nil_iff.mpr htext

theorem dropWhile_of_head (htext : ∀ c ∈ text.head?, blank c = false) :
    text.dropWhile blank = text := by
  cases text with
  | nil => rfl
  | cons c text => exact List.dropWhile_cons_of_neg (by simp [htext c rfl])

theorem rdropWhile_of_last (htext : ∀ c ∈ text.getLast?, blank c = false) :
    text.rdropWhile blank = text := by
  refine List.rdropWhile_eq_self_iff.mpr fun hne ↦ ?_
  simp [htext _ (List.getLast?_eq_some_getLast hne)]

theorem dropWhile_append_of_head (hhead : ∀ c ∈ right.head?, blank c = false) :
    (left ++ right).dropWhile blank = left.dropWhile blank ++ right := by
  rw [List.dropWhile_append]
  split_ifs with hempty
  · rw [List.isEmpty_iff.mp hempty, List.nil_append, dropWhile_of_head hhead]
  · rfl

theorem rdropWhile_append_of_last (hlast : ∀ c ∈ left.getLast?, blank c = false) :
    (left ++ right).rdropWhile blank = left ++ right.rdropWhile blank := by
  rw [List.rdropWhile, List.rdropWhile, List.reverse_append,
    dropWhile_append_of_head (by simpa using hlast), List.reverse_append, List.reverse_reverse]

theorem dropWhile_append_of_isBlank (hleft : IsBlank blank left) :
    (left ++ right).dropWhile blank = right.dropWhile blank :=
  List.dropWhile_append_of_pos hleft

theorem rdropWhile_append_of_isBlank (hright : IsBlank blank right) :
    (left ++ right).rdropWhile blank = left.rdropWhile blank := by
  rw [List.rdropWhile, List.rdropWhile, List.reverse_append,
    dropWhile_append_of_isBlank fun c hc ↦ hright c (List.mem_reverse.mp hc)]

/-- The trimmed text around something solid. -/
theorem trim_around (hcore : IsSolid blank core) : trim blank (left ++ core ++ right) =
    left.dropWhile blank ++ core ++ right.rdropWhile blank := by
  have hhead : ∀ c ∈ (core ++ right).head?, blank c = false := by
    rw [List.head?_append_of_ne_nil _ hcore.nonempty]
    exact hcore.head
  have hlast : ∀ c ∈ (left.dropWhile blank ++ core).getLast?, blank c = false := by
    rw [List.getLast?_append_of_ne_nil _ hcore.nonempty]
    exact hcore.last
  rw [trim, List.append_assoc, dropWhile_append_of_head hhead, ← List.append_assoc,
    rdropWhile_append_of_last hlast]

theorem trim_of_isBlank (htext : IsBlank blank text) : trim blank text = [] := by
  rw [trim, dropWhile_of_isBlank htext, List.rdropWhile_nil]

theorem trim_of_isSolid (hcore : IsSolid blank core) : trim blank core = core := by
  rw [trim, dropWhile_of_head hcore.head, rdropWhile_of_last hcore.last]

/-- A text is blank, or something solid with blanks around it. -/
theorem trim_cases (blank : Symbol → Bool) (text : List Symbol) :
    IsBlank blank text ∨ IsSolid blank (trim blank text) ∧ ∃ left right, IsBlank blank left ∧
      IsBlank blank right ∧ text = left ++ trim blank text ++ right := by
  by_cases htext : IsBlank blank text
  · exact .inl htext
  right
  have hdrop : text.dropWhile blank ≠ [] := fun hnil ↦ htext (List.dropWhile_eq_nil_iff.mp hnil)
  have hhead : blank ((text.dropWhile blank).head hdrop) = false := by
    simpa using List.head_dropWhile_not blank hdrop
  have hcore : trim blank text ≠ [] := fun hnil ↦ by
    have hall := List.rdropWhile_eq_nil_iff.mp hnil _ (List.head_mem hdrop)
    exact absurd hall (by simp [hhead])
  refine ⟨⟨hcore, fun c hc ↦ ?_, fun c hc ↦ ?_⟩, text.takeWhile blank,
    (text.dropWhile blank).rtakeWhile blank, fun c hc ↦ List.mem_takeWhile_imp hc,
    fun c hc ↦ List.mem_rtakeWhile_imp hc, ?_⟩
  · -- the first symbol is that of the text without the blanks at its start
    obtain ⟨rest, hrest⟩ := List.rdropWhile_prefix blank (text.dropWhile blank)
    have hsame : (text.dropWhile blank).head? = some c := by
      conv_lhs => rw [← hrest]
      exact (List.head?_append_of_ne_nil _ hcore).trans hc
    rw [List.head?_eq_some_head hdrop] at hsame
    exact Option.some.inj hsame ▸ hhead
  · have hlast := List.rdropWhile_last_not blank (text.dropWhile blank) hcore
    rw [List.getLast?_eq_some_getLast hcore] at hc
    obtain rfl := Option.some.inj hc
    exact eq_false_of_ne_true hlast
  · rw [trim, List.append_assoc, List.rdropWhile_append_rtakeWhile, List.takeWhile_append_dropWhile]

theorem isSolid_trim (htext : trim blank text ≠ []) : IsSolid blank (trim blank text) :=
  ((trim_cases blank text).resolve_left fun hblank ↦ htext (trim_of_isBlank hblank)).1

@[simp] theorem trim_trim : trim blank (trim blank text) = trim blank text := by
  by_cases htext : trim blank text = []
  · rw [htext]
    rfl
  · exact trim_of_isSolid (isSolid_trim htext)

theorem trim_append_of_isBlank (hright : IsBlank blank right) :
    trim blank (left ++ right) = trim blank left := by
  rcases trim_cases blank left with hleft | ⟨hsolid, before, behind, hbefore, hbehind, heq⟩
  · rw [trim_of_isBlank (hleft.append hright), trim_of_isBlank hleft]
  · conv_lhs => rw [heq, List.append_assoc, trim_around hsolid]
    rw [dropWhile_of_isBlank hbefore, rdropWhile_of_isBlank (hbehind.append hright),
      List.nil_append, List.append_nil]

/-- A part of a text is, when trimmed, no longer than the text. -/
theorem length_trim_inside :
    (trim blank text).length ≤ (trim blank (left ++ text ++ right)).length := by
  rcases trim_cases blank text with htext | ⟨hsolid, before, behind, -, -, heq⟩
  · rw [trim_of_isBlank htext]
    exact Nat.zero_le _
  · conv_rhs => rw [heq, show left ++ (before ++ trim blank text ++ behind) ++ right =
      (left ++ before) ++ trim blank text ++ (behind ++ right) by simp, trim_around hsolid]
    simp only [List.length_append]
    omega

/-- With something behind it that is not blank, a text gets longer. -/
theorem length_trim_append_lt (htext : trim blank text ≠ []) (hright : ¬IsBlank blank right) :
    (trim blank text).length < (trim blank (text ++ right)).length := by
  obtain ⟨hsolid, before, behind, hbefore, -, heq⟩ :=
    (trim_cases blank text).resolve_left fun hblank ↦ htext (trim_of_isBlank hblank)
  conv_rhs => rw [heq, List.append_assoc, trim_around hsolid, dropWhile_of_isBlank hbefore]
  have hrest : (behind ++ right).rdropWhile blank ≠ [] := fun hnil ↦ hright fun c hc ↦
    List.rdropWhile_eq_nil_iff.mp hnil c (List.mem_append_right _ hc)
  have hpos := List.length_pos_iff.mpr hrest
  simp only [List.length_append, List.length_nil]
  omega

end Trimming

end EynOS.Foundation
