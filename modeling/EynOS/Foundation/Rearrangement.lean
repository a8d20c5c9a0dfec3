import Mathlib.Data.Int.Order.Basic
import Mathlib.Logic.Equiv.Basic

/-!
# Rearranged windows of a list

`Rearranged low high before after` says that the entries at the indices from `low` to `high` are
permuted and all others kept. It composes, it is kept in a wider window, and it carries what is said
of every entry of the window. Indices are integers, so that they can be left of the list.

`OrderedBetween` is the order of neighbours in a window; `OrderedBetween.join` puts two ordered
windows on both sides of an entry together.
-/

namespace EynOS.Foundation

variable {Item : Type} {before middle after entries : List Item} {item other : Item}
  {low high left right index first second : ℤ}

def entryAt (entries : List Item) (index : ℤ) : Option Item :=
  if 0 ≤ index then entries[index.toNat]? else none

theorem entryAt_eq_some_of_range (hlow : 0 ≤ index) (hhigh : index < entries.length) :
    ∃ item, entryAt entries index = some item := by
  rw [entryAt, if_pos hlow]
  exact ⟨_, List.getElem?_eq_getElem (by omega)⟩

theorem range_of_entryAt (hentry : entryAt entries index = some item) :
    0 ≤ index ∧ index < entries.length := by
  unfold entryAt at hentry
  split_ifs at hentry with hlow
  obtain ⟨hhigh, -⟩ := List.getElem?_eq_some_iff.mp hentry
  omega

/-- The entries after one of them was replaced. -/
theorem entryAt_set (hfirst : 0 ≤ first) (hless : first < entries.length) :
    entryAt (entries.set first.toNat item) index =
      if index = first then some item else entryAt entries index := by
  unfold entryAt
  by_cases hindex : 0 ≤ index
  · rw [if_pos hindex, if_pos hindex, List.getElem?_set]
    split_ifs <;> first | rfl | omega
  · rw [if_neg hindex, if_neg hindex, if_neg (by omega)]

/-- The entries after two of them were exchanged. -/
theorem entryAt_exchange (hfirst : entryAt entries first = some item)
    (hsecond : entryAt entries second = some other) :
    entryAt ((entries.set first.toNat other).set second.toNat item) index =
      if index = second then some item else if index = first then some other
      else entryAt entries index := by
  obtain ⟨hpositive, hless⟩ := range_of_entryAt hfirst
  obtain ⟨hpositive', hless'⟩ := range_of_entryAt hsecond
  rw [entryAt_set hpositive' (by rwa [List.length_set]), entryAt_set hpositive hless]

/-! ### Rearrangements -/

/-- The entries of a window are permuted, and all others kept. -/
structure Rearranged (low high : ℤ) (before after : List Item) : Prop where
  length_eq : after.length = before.length
  permuted : ∃ places : Equiv.Perm ℤ, (∀ index, index < low ∨ high < index → places index = index) ∧
    ∀ index, entryAt after index = entryAt before (places index)

namespace Rearranged

theorem refl (low high : ℤ) (entries : List Item) : Rearranged low high entries entries :=
  ⟨rfl, Equiv.refl ℤ, fun _ _ ↦ rfl, fun _ ↦ rfl⟩

theorem trans (hfirst : Rearranged low high before middle)
    (hsecond : Rearranged low high middle after) : Rearranged low high before after := by
  obtain ⟨hlength, places, houtside, hplaces⟩ := hfirst
  obtain ⟨hlater, next, hnext, hentries⟩ := hsecond
  refine ⟨hlater.trans hlength, next.trans places, fun index hindex ↦ ?_, fun index ↦ ?_⟩
  · rw [Equiv.trans_apply, hnext index hindex, houtside index hindex]
  · rw [hentries, hplaces, Equiv.trans_apply]

section

variable (hrearranged : Rearranged low high before after)

include hrearranged

theorem widen (hleft : left ≤ low)
    (hright : high ≤ right) : Rearranged left right before after := by
  obtain ⟨hlength, places, houtside, hplaces⟩ := hrearranged
  exact ⟨hlength, places, fun index hindex ↦ houtside index (by omega), hplaces⟩

theorem outside
    (hindex : index < low ∨ high < index) : entryAt after index = entryAt before index := by
  obtain ⟨-, places, houtside, hplaces⟩ := hrearranged
  rw [hplaces, houtside index hindex]

/-- An entry of the window was in the window before. -/
theorem inside (hlow : low ≤ index)
    (hhigh : index ≤ high) :
    ∃ place, low ≤ place ∧ place ≤ high ∧ entryAt after index = entryAt before place := by
  obtain ⟨-, places, houtside, hplaces⟩ := hrearranged
  refine ⟨places index, ?_, ?_, hplaces index⟩ <;> by_contra hplace
  · have := places.injective (houtside (places index) (by omega))
    omega
  · have := places.injective (houtside (places index) (by omega))
    omega

/-- What is said of every entry of a window that contains the rearranged one, or has nothing of
it. -/
theorem forall_entries {property : Item → Prop}
    (hwindow : left ≤ low ∧ high ≤ right ∨ right < low ∨ high < left)
    (hall : ∀ index, left ≤ index → index ≤ right → ∀ item, entryAt before index = some item →
      property item)
    (hleft : left ≤ index) (hright : index ≤ right) (hitem : entryAt after index = some item) :
    property item := by
  by_cases hindex : low ≤ index ∧ index ≤ high
  · obtain ⟨place, hlow, hhigh, hplace⟩ := hrearranged.inside hindex.1 hindex.2
    exact hall place (by omega) (by omega) item (hplace ▸ hitem)
  · have hsame : entryAt after index = entryAt before index := hrearranged.outside (by omega)
    exact hall index hleft hright item (hsame ▸ hitem)

end

/-- Two entries of the window exchanged. -/
theorem exchange (hfirst : entryAt entries first = some item)
    (hsecond : entryAt entries second = some other) (hlow : low ≤ first ∧ low ≤ second)
    (hhigh : first ≤ high ∧ second ≤ high) :
    Rearranged low high entries ((entries.set first.toNat other).set second.toNat item) := by
  refine ⟨by rw [List.length_set, List.length_set], Equiv.swap first second, ?_, ?_⟩
  · intro index hindex
    exact Equiv.swap_apply_of_ne_of_ne (by omega) (by omega)
  · intro index
    rw [entryAt_exchange hfirst hsecond]
    by_cases hindex : index = second
    · rw [if_pos hindex, hindex, Equiv.swap_apply_right, hfirst]
    · rw [if_neg hindex]
      by_cases hindex' : index = first
      · rw [if_pos hindex', hindex', Equiv.swap_apply_left, hsecond]
      · rw [if_neg hindex', Equiv.swap_apply_of_ne_of_ne hindex' hindex]

end Rearranged

/-! ### Ordered windows -/

variable {relation : Item → Item → Prop}

def OrderedBetween (relation : Item → Item → Prop) (low high : ℤ) (entries : List Item) : Prop :=
  ∀ index, low ≤ index → index < high → ∀ item next, entryAt entries index = some item →
    entryAt entries (index + 1) = some next → relation item next

/-- The order of a window whose entries are kept. -/
theorem OrderedBetween.congr (hordered : OrderedBetween relation low high before)
    (hsame : ∀ index, low ≤ index → index ≤ high → entryAt after index = entryAt before index) :
    OrderedBetween relation low high after := by
  intro index hlow hhigh item next hitem hnext
  rw [hsame index hlow (by omega)] at hitem
  rw [hsame (index + 1) (by omega) (by omega)] at hnext
  exact hordered index hlow hhigh item next hitem hnext

/-- Two ordered windows on both sides of an entry that bounds them. -/
theorem OrderedBetween.join (hleft : OrderedBetween relation low (index - 1) entries)
    (hright : OrderedBetween relation (index + 1) high entries)
    (hitem : entryAt entries index = some item)
    (hbelow : ∀ place, low ≤ place → place ≤ index - 1 →
      ∀ other, entryAt entries place = some other →
      relation other item)
    (habove : ∀ place, index + 1 ≤ place → place ≤ high → ∀ other,
      entryAt entries place = some other → relation item other) :
    OrderedBetween relation low high entries := by
  intro place hlow hhigh one next hone hnext
  rcases lt_trichotomy (place + 1) index with hless | heq | hgreater
  · exact hleft place hlow (by omega) one next hone hnext
  · obtain rfl : item = next := Option.some.inj (hitem.symm.trans (heq ▸ hnext))
    exact hbelow place hlow (by omega) one hone
  · rcases Int.lt_or_eq_of_le (show index ≤ place by omega) with hmore | rfl
    · exact hright place (by omega) hhigh one next hone hnext
    · obtain rfl : item = one := Option.some.inj (hitem.symm.trans hone)
      exact habove (index + 1) (by omega) (by omega) next hnext

end EynOS.Foundation
