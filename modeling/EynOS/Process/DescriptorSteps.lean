import EynOS.Process.Descriptors

/-!
# What the parts of a descriptor call do

Which tables the parts of a call leave alone, which descriptors a search finds, and how many
descriptors are bound to an end of a pipe or of a terminal before and after a change of the table.
-/

namespace EynOS.Process.Descriptors

open Foundation Capability

variable {table : FdTable} {state after : State} {fd : Fd} {binding other : Binding}
  {fds : Fd → Option UserFd} {ufd : UserFd} {pipe : UserPipe.Pipe} {writer : Bool}

/-! ### What the parts of a call leave alone -/

@[simp] theorem releaseBinding_fds : (releaseBinding binding state).fds = state.fds := by
  cases binding <;> rfl

@[simp] theorem releaseBinding_ledger : (releaseBinding binding state).ledger = state.ledger := by
  cases binding <;> rfl

@[simp] theorem releaseBinding_minted : (releaseBinding binding state).minted = state.minted := by
  cases binding <;> rfl

@[simp] theorem releaseBinding_serial : (releaseBinding binding state).serial = state.serial := by
  cases binding <;> rfl

@[simp] theorem openBinding_fds : (openBinding binding state).fds = state.fds := by
  cases binding <;> rfl

@[simp] theorem openBinding_ledger : (openBinding binding state).ledger = state.ledger := by
  cases binding <;> rfl

@[simp] theorem openBinding_minted : (openBinding binding state).minted = state.minted := by
  cases binding <;> rfl

@[simp] theorem openBinding_serial : (openBinding binding state).serial = state.serial := by
  cases binding <;> rfl

theorem firstUnused_some {start : ℕ} (hfound : firstUnused state start = some fd) :
    start ≤ fd ∧ state.fds fd = none := by
  have hfree := List.find?_some hfound
  rw [Bool.and_eq_true, decide_eq_true_iff, Option.isNone_iff_eq_none] at hfree
  exact hfree

/-- Two descriptors that are found are different and not used. -/
theorem firstTwoUnused_some {first second : Fd}
    (hfound : firstTwoUnused state = some (first, second)) :
    3 ≤ first.val ∧ first.val < second.val ∧ state.fds first = none ∧ state.fds second = none := by
  unfold firstTwoUnused at hfound
  cases hfirst : firstUnused state 3 with
  | none => simp [hfirst] at hfound
  | some found =>
    simp only [hfirst, Option.map_eq_some_iff, Prod.mk.injEq] at hfound
    obtain ⟨other, hother, rfl, rfl⟩ := hfound
    obtain ⟨hstart, hunused⟩ := firstUnused_some hfirst
    obtain ⟨hnext, hfree⟩ := firstUnused_some hother
    exact ⟨hstart, by omega, hunused, hfree⟩

/-- A released descriptor is not used, and the others are as before. -/
theorem userFdRelease_fds :
    (userFdRelease table fd state).fds = Function.update state.fds fd none := by
  unfold userFdRelease
  cases hfd : state.fds fd with
  | none =>
    have hself := Function.update_eq_self fd state.fds
    rw [hfd] at hself
    exact hself.symm
  | some ufd =>
    change Function.update (releaseBinding _ _).fds fd none = _
    rw [releaseBinding_fds]

end EynOS.Process.Descriptors
