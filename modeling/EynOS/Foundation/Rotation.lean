import EynOS.Foundation.Loop
import Mathlib.Data.List.Basic

/-!
# Taking an item from a queue that rotates

A loop takes the first entry of a queue until it finds one to take: an entry that is to be dropped
leaves the queue, and one that is to be kept goes to its back. `rotate_outcome` says what the loop
comes to: one of the entries to take where there is one, the empty queue where all are dropped, and
no end otherwise.
-/

namespace EynOS.Foundation

/-- What happens to the first entry of a queue. -/
inductive Verdict
  | drop
  | keep
  | take
  deriving DecidableEq

variable {Item : Type}

/-- A turn of the loop: it ends with the entry taken, if any. -/
def rotate (verdict : Item → Verdict) : List Item → Option Item ⊕ List Item
  | [] => .inl none
  | item :: rest =>
    match verdict item with
    | .drop => .inr rest
    | .keep => .inr (rest ++ [item])
    | .take => .inl (some item)

variable {verdict : Item → Verdict} {items before rest : List Item} {item : Item}

/-- The first entry to take is reached, whatever is kept before it. -/
theorem exits_rotate_take (hitem : verdict item = .take)
    (hbefore : ∀ other ∈ before, verdict other ≠ .take) :
    Exits (rotate verdict) before.length (before ++ item :: rest) (some item) := by
  induction before generalizing rest with
  | nil => exact .leave (by simp [rotate, hitem])
  | cons first before ih =>
    obtain ⟨hfirst, hothers⟩ := List.forall_mem_cons.mp hbefore
    cases hverdict : verdict first with
    | drop =>
      have hbody : rotate verdict (first :: (before ++ item :: rest)) =
          .inr (before ++ item :: rest) := by
        simp [rotate, hverdict]
      exact .turn hbody (ih hothers)
    | keep =>
      have hbody : rotate verdict (first :: (before ++ item :: rest)) =
          .inr (before ++ item :: (rest ++ [first])) := by
        simp [rotate, hverdict]
      exact .turn hbody (ih hothers)
    | take => exact absurd hverdict hfirst

/-- A queue of entries to drop is emptied. -/
theorem exits_rotate_drop (hdrop : ∀ item ∈ items, verdict item = .drop) :
    Exits (rotate verdict) items.length items none := by
  induction items with
  | nil => exact .leave rfl
  | cons item items ih =>
    obtain ⟨hitem, hrest⟩ := List.forall_mem_cons.mp hdrop
    exact .turn (by simp [rotate, hitem]) (ih hrest)

/-- An entry that is kept stays, and so the loop goes on where there is none to take. -/
theorem not_ends_rotate (hkeep : ∃ item ∈ items, verdict item = .keep)
    (htake : ∀ item ∈ items, verdict item ≠ .take) : ¬Ends (rotate verdict) items := by
  rintro ⟨count, result, hexits⟩
  induction hexits with
  | @leave items result hbody =>
    cases items with
    | nil => simp at hkeep
    | cons first rest =>
      cases hverdict : verdict first with
      | drop => simp [rotate, hverdict] at hbody
      | keep => simp [rotate, hverdict] at hbody
      | take => exact htake first List.mem_cons_self hverdict
  | @turn count items next result hbody _ ih =>
    cases items with
    | nil => simp [rotate] at hbody
    | cons first rest =>
      obtain ⟨kept, hmem, hkept⟩ := hkeep
      obtain ⟨hfirst, hrest⟩ := List.forall_mem_cons.mp htake
      cases hverdict : verdict first with
      | drop =>
        obtain rfl : rest = next := by simpa [rotate, hverdict] using hbody
        have hne : kept ≠ first := by
          rintro rfl
          exact absurd (hkept.symm.trans hverdict) (by decide)
        exact ih ⟨kept, (List.mem_cons.mp hmem).resolve_left hne, hkept⟩ hrest
      | keep =>
        obtain rfl : rest ++ [first] = next := by simpa [rotate, hverdict] using hbody
        refine ih ⟨first, by simp, hverdict⟩ fun other hother ↦ ?_
        rcases List.mem_append.mp hother with hold | hlast
        · exact hrest other hold
        · rw [List.mem_singleton.mp hlast]
          exact hfirst
      | take => exact absurd hverdict hfirst

/-- What the loop comes to: an entry to take, the empty queue, or no end. -/
theorem rotate_outcome (verdict : Item → Verdict) (items : List Item) :
    (∃ item ∈ items, verdict item = .take ∧
        ∃ count, Exits (rotate verdict) count items (some item)) ∨
      (∀ item ∈ items, verdict item = .drop) ∧
        Exits (rotate verdict) items.length items none ∨
      (∃ item ∈ items, verdict item = .keep) ∧ (∀ item ∈ items, verdict item ≠ .take) ∧
        ¬Ends (rotate verdict) items := by
  by_cases htake : ∃ item ∈ items, verdict item = .take
  · refine .inl ?_
    cases hfind : items.find? fun item ↦ decide (verdict item = .take) with
    | none =>
      obtain ⟨item, hmem, hitem⟩ := htake
      exact absurd hitem (by simpa using List.find?_eq_none.mp hfind item hmem)
    | some item =>
      obtain ⟨hitem, before, rest, rfl, hbefore⟩ := List.find?_eq_some_iff_append.mp hfind
      have htaken : verdict item = .take := of_decide_eq_true hitem
      exact ⟨item, by simp, htaken, _,
        exits_rotate_take htaken fun other hother ↦ by simpa using hbefore other hother⟩
  · push Not at htake
    by_cases hkeep : ∃ item ∈ items, verdict item = .keep
    · exact .inr (.inr ⟨hkeep, htake, not_ends_rotate hkeep htake⟩)
    · push Not at hkeep
      have hdrop (item : Item) (hmem : item ∈ items) : verdict item = .drop := by
        cases hverdict : verdict item with
        | drop => rfl
        | keep => exact absurd hverdict (hkeep item hmem)
        | take => exact absurd hverdict (htake item hmem)
      exact .inr (.inl ⟨hdrop, exits_rotate_drop hdrop⟩)

end EynOS.Foundation
