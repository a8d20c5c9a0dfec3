import Mathlib.Data.List.Induction
import Mathlib.Order.Lattice
import Mathlib.Order.Nat

/-!
# The first item with the least key

A scan over a list that keeps the best item of a kind so far, and replaces it where a later one is
better, ends with the first of the items of the kind whose key is least: `BestSoFar` is what the
scan keeps, and `BestSoFar.skip`, `BestSoFar.keep` and `BestSoFar.improve` are its steps.
-/

namespace EynOS.Foundation

section

variable {Item Key : Type*} [LinearOrder Key] {kind : Item → Prop} {key : Item → Key}

/-- An item of a kind, at its place, whose key is the least of the kind, and none before it has the
same key. -/
structure FirstLeast (kind : Item → Prop) (key : Item → Key) (items : List Item) (index : ℕ)
    (item : Item) : Prop where
  place : items[index]? = some item
  ofKind : kind item
  least : ∀ other ∈ items, kind other → key item ≤ key other
  first : ∀ earlier < index, ∀ other, items[earlier]? = some other → kind other →
    key item < key other

/-- The best item of a kind so far, by its place and its key. -/
def BestSoFar (kind : Item → Prop) (key : Item → Key) (seen : List Item) :
    Option (ℕ × Key) → Prop
  | none => ∀ item ∈ seen, ¬kind item
  | some (index, best) => ∃ item, FirstLeast kind key seen index item ∧ key item = best

variable {seen items : List Item} {item other : Item} {best : Option (ℕ × Key)}
  {index otherIndex : ℕ}

theorem FirstLeast.unique (hitem : FirstLeast kind key items index item)
    (hother : FirstLeast kind key items otherIndex other) : index = otherIndex ∧ item = other := by
  have hitemLe := hitem.least other (List.mem_of_getElem? hother.place) hother.ofKind
  have hotherLe := hother.least item (List.mem_of_getElem? hitem.place) hitem.ofKind
  have hindex : index = otherIndex := by
    rcases lt_trichotomy index otherIndex with hlt | heq | hgt
    · exact absurd (hother.first index hlt item hitem.place hitem.ofKind) hitemLe.not_gt
    · exact heq
    · exact absurd (hitem.first otherIndex hgt other hother.place hother.ofKind) hotherLe.not_gt
  subst hindex
  exact ⟨rfl, Option.some.inj (hitem.place.symm.trans hother.place)⟩

theorem FirstLeast.lt_length (hitem : FirstLeast kind key items index item) :
    index < items.length :=
  (List.getElem?_eq_some_iff.mp hitem.place).1

/-- An item after the others that is no better. -/
theorem FirstLeast.append (hitem : FirstLeast kind key seen index item)
    (hlater : kind other → key item ≤ key other) :
    FirstLeast kind key (seen ++ [other]) index item where
  place := by
    rw [List.getElem?_append_left hitem.lt_length]
    exact hitem.place
  ofKind := hitem.ofKind
  least candidate hcandidate hkind := by
    rcases List.mem_append.mp hcandidate with hseen | hlast
    · exact hitem.least candidate hseen hkind
    · obtain rfl := List.mem_singleton.mp hlast
      exact hlater hkind
  first earlier hearlier candidate hcandidate hkind := by
    rw [List.getElem?_append_left (hearlier.trans hitem.lt_length)] at hcandidate
    exact hitem.first earlier hearlier candidate hcandidate hkind

theorem FirstLeast.take {count : ℕ} (hitem : FirstLeast kind key items index item)
    (hindex : index < count) : FirstLeast kind key (items.take count) index item where
  place := by
    rw [List.getElem?_take_of_lt hindex]
    exact hitem.place
  ofKind := hitem.ofKind
  least other hother := hitem.least other (List.mem_of_mem_take hother)
  first earlier hearlier other hother := by
    rw [List.getElem?_take_of_lt (hearlier.trans hindex)] at hother
    exact hitem.first earlier hearlier other hother

theorem bestSoFar_nil : BestSoFar kind key [] none := fun _ hitem ↦ absurd hitem List.not_mem_nil

/-- An item of another kind. -/
theorem BestSoFar.skip (hbest : BestSoFar kind key seen best) (hother : ¬kind item) :
    BestSoFar kind key (seen ++ [item]) best := by
  cases best with
  | none =>
    intro candidate hcandidate
    rcases List.mem_append.mp hcandidate with hseen | hlast
    · exact hbest candidate hseen
    · rwa [List.mem_singleton.mp hlast]
  | some best =>
    obtain ⟨found, hfound, hkey⟩ := hbest
    exact ⟨found, hfound.append fun hkind ↦ absurd hkind hother, hkey⟩

/-- An item that is no better. -/
theorem BestSoFar.keep {best : ℕ × Key} (hbest : BestSoFar kind key seen (some best))
    (hlater : ¬key item < best.2) : BestSoFar kind key (seen ++ [item]) (some best) := by
  obtain ⟨found, hfound, hkey⟩ := hbest
  refine ⟨found, hfound.append fun _ ↦ ?_, hkey⟩
  rw [hkey]
  exact not_lt.mp hlater

/-- An item that is better than the others. -/
theorem BestSoFar.improve (hbest : BestSoFar kind key seen best) (hkind : kind item)
    (hless : ∀ found ∈ best, key item < found.2) :
    BestSoFar kind key (seen ++ [item]) (some (seen.length, key item)) := by
  have hbetter (candidate : Item) (hseen : candidate ∈ seen) (hcandidate : kind candidate) :
      key item < key candidate := by
    cases best with
    | none => exact absurd hcandidate (hbest candidate hseen)
    | some best =>
      obtain ⟨found, hfound, hkey⟩ := hbest
      refine (hless best rfl).trans_le ?_
      rw [← hkey]
      exact hfound.least candidate hseen hcandidate
  refine ⟨item, ⟨by simp, hkind, fun candidate hcandidate hsame ↦ ?_,
    fun earlier hearlier candidate hcandidate hsame ↦ ?_⟩, rfl⟩
  · rcases List.mem_append.mp hcandidate with hseen | hlast
    · exact (hbetter candidate hseen hsame).le
    · rw [List.mem_singleton.mp hlast]
  · rw [List.getElem?_append_left hearlier] at hcandidate
    exact hbetter candidate (List.mem_of_getElem? hcandidate) hsame

/-- Every list has a best item so far. -/
theorem exists_bestSoFar (kind : Item → Prop) (key : Item → Key) (items : List Item) :
    ∃ best, BestSoFar kind key items best := by
  induction items using List.reverseRecOn with
  | nil => exact ⟨none, bestSoFar_nil⟩
  | append_singleton seen item ih =>
    obtain ⟨best, hbest⟩ := ih
    by_cases hkind : kind item
    · by_cases hless : ∀ found ∈ best, key item < found.2
      · exact ⟨_, hbest.improve hkind hless⟩
      · cases best with
        | none => exact absurd (by simp) hless
        | some found => exact ⟨_, hbest.keep fun hlt ↦ hless (by simpa using hlt)⟩
    · exact ⟨best, hbest.skip hkind⟩

theorem exists_firstLeast (hitem : item ∈ items) (hkind : kind item) (key : Item → Key) :
    ∃ index found, FirstLeast kind key items index found := by
  obtain ⟨best, hbest⟩ := exists_bestSoFar kind key items
  cases best with
  | none => exact absurd hkind (hbest item hitem)
  | some best =>
    obtain ⟨found, hfound, -⟩ := hbest
    exact ⟨best.1, found, hfound⟩

end

end EynOS.Foundation
