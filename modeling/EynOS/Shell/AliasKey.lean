import EynOS.Foundation.Text
import EynOS.Shell.Alias

/-!
# The keys of aliases

A key is what `alias_normalize_key` puts out (`isKey_of_normalizeKey`), and what it leaves as it is
(`IsKey.normalize`): words of name characters with one space between them.
-/

namespace EynOS.Shell.Alias

open Foundation

/-! ### Keys -/

/-- A key: words of name characters with one space between them. -/
structure IsKey (name : List Char) : Prop where
  words : ∃ words : List (List Char), words ≠ [] ∧
    (∀ word ∈ words, word ≠ [] ∧ ∀ c ∈ word, isNameChar c = true) ∧ name = joinWords ' ' words
  short : name.length < ALIAS_MAX_NAME

variable {name out text rest : List Char} {words : List (List Char)} {word : List Char} {c : Char}

theorem isAliasWs_of_isNameChar (hc : isNameChar c = true) : isAliasWs c = false := by
  by_contra hnot
  rw [Bool.not_eq_false] at hnot
  simp only [isAliasWs, Bool.or_eq_true, beq_iff_eq] at hnot
  rcases hnot with ((rfl | rfl) | rfl) | rfl <;> exact absurd hc (by decide)

theorem IsKey.concat (hkey : IsKey name) (hc : isNameChar c = true)
    (hshort : name.length + 2 < ALIAS_MAX_NAME) : IsKey (name ++ [' ', c]) where
  words := by
    obtain ⟨words, hne, hwords, rfl⟩ := hkey.words
    refine ⟨words ++ [[c]], by simp, fun word hword ↦ ?_, (joinWords_concat hne).symm⟩
    rcases List.mem_append.mp hword with hword | hword
    · exact hwords word hword
    · obtain rfl := List.mem_singleton.mp hword
      exact ⟨by simp, by simpa using hc⟩
  short := by
    rw [List.length_append]
    exact hshort

/-- A key with a longer last word. -/
theorem IsKey.extend (hkey : IsKey name) (hc : isNameChar c = true)
    (hshort : name.length + 1 < ALIAS_MAX_NAME) : IsKey (name ++ [c]) where
  words := by
    obtain ⟨words, hne, hwords, rfl⟩ := hkey.words
    obtain ⟨before, word, rfl⟩ := (List.eq_nil_or_concat' words).resolve_left hne
    refine ⟨before ++ [word ++ [c]], by simp, fun other hother ↦ ?_, joinWords_concat_append.symm⟩
    rcases List.mem_append.mp hother with hother | hother
    · exact hwords other (List.mem_append_left _ hother)
    · obtain rfl := List.mem_singleton.mp hother
      obtain ⟨-, hchars⟩ := hwords word (by simp)
      exact ⟨by simp, by simpa [or_imp, forall_and] using ⟨hchars, hc⟩⟩
  short := by
    rw [List.length_append]
    exact hshort

theorem isKey_singleton (hc : isNameChar c = true) : IsKey [c] where
  words := ⟨[[c]], by simp, by simpa using hc, rfl⟩
  short := show 1 < 64 by decide

/-- What `alias_normalize_key` puts out is a key. -/
theorem isKey_of_normalizeFrom {sawWord pendingSpace : Bool} {result : List Char}
    (hout : if sawWord then IsKey out else out = [])
    (hresult : normalizeFrom ALIAS_MAX_NAME text out sawWord pendingSpace = some result) :
    IsKey result := by
  induction text generalizing out sawWord pendingSpace with
  | nil =>
    cases sawWord with
    | false => exact absurd hresult (by simp [normalizeFrom])
    | true =>
      obtain rfl := Option.some.inj hresult
      exact hout
  | cons c text ih =>
    rw [normalizeFrom] at hresult
    split_ifs at hresult with hblank hname hspace hfirst hsecond hroom
    · exact ih hout hresult
    · rw [Bool.and_eq_true] at hspace
      rw [if_pos hspace.2] at hout
      refine ih ?_ hresult
      exact IsKey.concat hout hname (Nat.not_le.mp hsecond)
    · refine ih ?_ hresult
      cases sawWord with
      | false =>
        rw [show out = [] from hout]
        exact isKey_singleton hname
      | true => exact IsKey.extend hout hname (Nat.not_le.mp hroom)

theorem isKey_of_normalizeKey (hname : aliasNormalizeKey text = some name) : IsKey name :=
  isKey_of_normalizeFrom (show if false then IsKey [] else [] = [] from rfl) hname

/-- The characters of a word are put out. -/
theorem normalizeFrom_word (hword : ∀ c ∈ word, isNameChar c = true)
    (hroom : out.length + word.length < ALIAS_MAX_NAME) :
    normalizeFrom ALIAS_MAX_NAME (word ++ rest) out true false =
      normalizeFrom ALIAS_MAX_NAME rest (out ++ word) true false := by
  induction word generalizing out with
  | nil => rw [List.nil_append, List.append_nil]
  | cons c word ih =>
    obtain ⟨hc, hword⟩ := List.forall_mem_cons.mp hword
    rw [List.length_cons] at hroom
    rw [List.cons_append, normalizeFrom, if_neg (by simp [isAliasWs_of_isNameChar hc]),
      if_neg (by simp [hc]), if_neg (by simp), if_neg (by omega),
      ih hword (by rw [List.length_append, List.length_singleton]; omega), List.append_assoc,
      List.singleton_append]

/-- Words behind a first one are put out with the spaces between them. -/
theorem normalizeFrom_words (hne : words ≠ [])
    (hwords : ∀ word ∈ words, word ≠ [] ∧ ∀ c ∈ word, isNameChar c = true)
    (hroom : out.length + (joinWords ' ' words).length + 1 < ALIAS_MAX_NAME) :
    normalizeFrom ALIAS_MAX_NAME (' ' :: joinWords ' ' words) out true false =
      some (out ++ ' ' :: joinWords ' ' words) := by
  induction words generalizing out with
  | nil => exact absurd rfl hne
  | cons word words ih =>
    obtain ⟨⟨hword, hchars⟩, hlater⟩ := List.forall_mem_cons.mp hwords
    obtain ⟨c, word, rfl⟩ := List.exists_cons_of_ne_nil hword
    obtain ⟨hc, hchars⟩ := List.forall_mem_cons.mp hchars
    have hstart (rest : List Char)
        (hlength : out.length + (c :: word).length + 1 < ALIAS_MAX_NAME) :
        normalizeFrom ALIAS_MAX_NAME (' ' :: c :: (word ++ rest)) out true false =
          normalizeFrom ALIAS_MAX_NAME rest (out ++ ' ' :: c :: word) true false := by
      rw [List.length_cons] at hlength
      rw [normalizeFrom, if_pos (by decide), normalizeFrom,
        if_neg (by simp [isAliasWs_of_isNameChar hc]), if_neg (by simp [hc]), if_pos (by simp),
        if_neg (by omega), if_neg (by omega), normalizeFrom_word hchars
          (by rw [List.length_append, List.length_cons, List.length_singleton]; omega),
        List.append_assoc]
      rfl
    cases words with
    | nil =>
      have hend := hstart [] hroom
      rw [List.append_nil] at hend
      exact hend
    | cons next words =>
      simp only [joinWords, List.length_append, List.length_cons] at hroom
      have hbehind := @ih (out ++ ' ' :: c :: word) (List.cons_ne_nil next words) hlater
        (by simp only [List.length_append, List.length_cons]; omega)
      have hfirst := hstart (' ' :: joinWords ' ' (next :: words))
        (by rw [List.length_cons]; omega)
      rw [hbehind, List.append_assoc] at hfirst
      exact hfirst

/-- A key is put out as it is. -/
theorem IsKey.normalize (hkey : IsKey name) : aliasNormalizeKey name = some name := by
  obtain ⟨⟨words, hne, hwords, rfl⟩, hshort⟩ := hkey
  obtain ⟨word, words, rfl⟩ := List.exists_cons_of_ne_nil hne
  obtain ⟨⟨hword, hchars⟩, hlater⟩ := List.forall_mem_cons.mp hwords
  obtain ⟨c, word, rfl⟩ := List.exists_cons_of_ne_nil hword
  obtain ⟨hc, hchars⟩ := List.forall_mem_cons.mp hchars
  have hstart (rest : List Char) (hlength : (c :: word).length < ALIAS_MAX_NAME) :
      aliasNormalizeKey (c :: (word ++ rest)) =
        normalizeFrom ALIAS_MAX_NAME rest (c :: word) true false := by
    rw [List.length_cons] at hlength
    rw [aliasNormalizeKey, List.dropWhile_cons_of_neg (by simp [isAliasWs_of_isNameChar hc]),
      normalizeFrom, if_neg (by simp [isAliasWs_of_isNameChar hc]), if_neg (by simp [hc]),
      if_neg (by simp), if_neg (by decide), normalizeFrom_word hchars
        (by rw [List.nil_append, List.length_singleton]; omega)]
    rfl
  cases words with
  | nil =>
    have hend := hstart [] hshort
    rw [List.append_nil] at hend
    exact hend
  | cons next words =>
    simp only [joinWords, List.length_append, List.length_cons] at hshort
    have hfirst := hstart (' ' :: joinWords ' ' (next :: words)) (by rw [List.length_cons]; omega)
    rw [normalizeFrom_words (List.cons_ne_nil next words) hlater
      (by rw [List.length_cons]; omega)] at hfirst
    exact hfirst

theorem IsKey.chars (hkey : IsKey name) : ∀ c ∈ name, isNameChar c = true ∨ c = ' ' := by
  obtain ⟨⟨words, -, hwords, rfl⟩, -⟩ := hkey
  intro c hc
  rcases mem_joinWords hc with hspace | ⟨word, hword, hmem⟩
  · exact .inr hspace
  · exact .inl ((hwords word hword).2 c hmem)

/-- A key begins and ends with a name character. -/
theorem IsKey.isSolid (hkey : IsKey name) : IsSolid isAliasWs name := by
  obtain ⟨⟨words, hne, hwords, rfl⟩, -⟩ := hkey
  have hsolid {word : List Char} (hword : word ∈ words) : IsSolid isAliasWs word := by
    obtain ⟨hnonempty, hchars⟩ := hwords word hword
    exact ⟨hnonempty, fun c hc ↦ isAliasWs_of_isNameChar (hchars c (List.mem_of_mem_head? hc)),
      fun c hc ↦ isAliasWs_of_isNameChar (hchars c (List.mem_of_mem_getLast? hc))⟩
  have hhead : ∃ word ∈ words, ∃ rest, joinWords ' ' words = word ++ rest := by
    obtain ⟨word, later, rfl⟩ := List.exists_cons_of_ne_nil hne
    cases later with
    | nil => exact ⟨word, by simp, [], (List.append_nil word).symm⟩
    | cons next later => exact ⟨word, by simp, _, rfl⟩
  have hlast : ∃ word ∈ words, ∃ before, joinWords ' ' words = before ++ word := by
    obtain ⟨before, word, rfl⟩ := (List.eq_nil_or_concat' words).resolve_left hne
    by_cases hbefore : before = []
    · exact ⟨word, by simp, [], by rw [hbefore]; rfl⟩
    · refine ⟨word, by simp, joinWords ' ' before ++ [' '], ?_⟩
      rw [joinWords_concat hbefore, List.append_assoc, List.singleton_append]
  obtain ⟨first, hfirst, rest, hrest⟩ := hhead
  obtain ⟨last, hlastMem, before, hbefore⟩ := hlast
  refine ⟨?_, ?_, ?_⟩
  · rw [hrest]
    exact List.append_ne_nil_of_left_ne_nil (hsolid hfirst).nonempty _
  · rw [hrest, List.head?_append_of_ne_nil _ (hsolid hfirst).nonempty]
    exact (hsolid hfirst).head
  · rw [hbefore, List.getLast?_append_of_ne_nil _ (hsolid hlastMem).nonempty]
    exact (hsolid hlastMem).last

end EynOS.Shell.Alias
