import Mathlib.Data.List.Count
import Mathlib.Data.List.Nodup

/-!
# References that are counted

Places hold references, and a table counts how often each thing is referred to. `Balanced` is the
invariant with references in flight: those that were taken and are not in a place yet, or that came
out of a place and were not dropped. A count goes up with a reference that is taken, down with one
that is dropped, and a reference that moves to a place sets the one free that was there.
-/

namespace EynOS.Foundation

variable {Place Thing : Type*} [DecidableEq Thing]

/-- How many of some places hold a reference to a thing. -/
def references (places : List Place) (held : Place → Thing) (thing : Thing) : ℕ :=
  places.countP fun place ↦ held place = thing

/-- Each thing but the one that stands for no reference is counted as often as a place holds it or a
reference to it is in flight. -/
def Balanced (places : List Place) (nothing : Thing) (held : Place → Thing) (count : Thing → ℕ)
    (pending : List Thing) : Prop :=
  ∀ thing, thing ≠ nothing → count thing = references places held thing + pending.count thing

variable {places : List Place} {nothing thing next : Thing} {held : Place → Thing} {place : Place}
  {count later : Thing → ℕ} {pending : List Thing}

theorem references_le (places : List Place) (held : Place → Thing) (thing : Thing) :
    references places held thing ≤ places.length := List.countP_le_length

/-- A place that holds a thing is counted. -/
theorem references_pos (hplace : place ∈ places) : 0 < references places held (held place) :=
  List.countP_pos_iff.mpr ⟨place, hplace, decide_eq_true rfl⟩

/-- Another reference in a place counts for the new thing and not for the old one. -/
theorem references_update [DecidableEq Place] (hnodup : places.Nodup) (hplace : place ∈ places)
    (thing : Thing) :
    references places (Function.update held place next) thing +
        (if held place = thing then 1 else 0) =
      references places held thing + if next = thing then 1 else 0 := by
  unfold references
  induction places with
  | nil => cases hplace
  | cons first places ih =>
    obtain ⟨hfirst, hnodup⟩ := List.nodup_cons.mp hnodup
    rw [List.countP_cons, List.countP_cons]
    rcases List.mem_cons.mp hplace with rfl | hlater
    · have hsame : places.countP (fun other ↦ Function.update held place next other = thing) =
          places.countP fun other ↦ held other = thing := by
        refine List.countP_congr fun other hother ↦ ?_
        rw [Function.update_of_ne fun heq : other = place ↦ hfirst (heq ▸ hother)]
      rw [hsame, Function.update_self]
      simp only [decide_eq_true_eq]
      omega
    · have hne : first ≠ place := fun heq ↦ hfirst (heq ▸ hlater)
      have := ih hnodup hlater
      rw [Function.update_of_ne hne]
      omega

namespace Balanced

/-- A reference is taken. -/
theorem take (hbalanced : Balanced places nothing held count pending)
    (hlater : ∀ other, other ≠ nothing →
      later other = count other + if thing = other then 1 else 0) :
    Balanced places nothing held later (thing :: pending) := by
  intro other hother
  rw [hlater other hother, hbalanced other hother, List.count_cons]
  simp only [beq_iff_eq]
  omega

/-- A reference in flight is dropped. -/
theorem drop (hbalanced : Balanced places nothing held count (thing :: pending))
    (hlater : ∀ other, other ≠ nothing →
      later other = count other - if thing = other then 1 else 0) :
    Balanced places nothing held later pending := by
  intro other hother
  rw [hlater other hother, hbalanced other hother, List.count_cons]
  simp only [beq_iff_eq]
  omega

/-- A reference in flight comes to a place, and the one that was there is in flight. -/
theorem move [DecidableEq Place] (hbalanced : Balanced places nothing held count (next :: pending))
    (hnodup : places.Nodup) (hplace : place ∈ places) :
    Balanced places nothing (Function.update held place next) count (held place :: pending) := by
  intro other hother
  have hmoved := @references_update _ _ _ places next held place _ hnodup hplace other
  rw [hbalanced other hother, List.count_cons, List.count_cons]
  simp only [beq_iff_eq]
  omega

theorem cons_nothing_iff : Balanced places nothing held count (nothing :: pending) ↔
    Balanced places nothing held count pending := by
  unfold Balanced
  refine forall₂_congr fun other hother ↦ ?_
  rw [List.count_cons_of_ne (Ne.symm hother)]

end Balanced

end EynOS.Foundation
