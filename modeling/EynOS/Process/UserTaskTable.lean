import EynOS.Foundation.Run
import EynOS.Process.UserTaskRunQueue

/-!
# The invariant of the user-task table

`TableInvariant` says that at most one slot runs and that it is the one of the running pid, that the
run queues list used and runnable slots once each, that live pids are distinct, and that a task that
has ended stays a zombie. `Sound` is what the events keep of it.
-/

namespace EynOS.Process.UserTask

open Foundation

/-! ### Invariants -/

/-- What holds of the task table between events. -/
structure TableInvariant (scheduler : Scheduler) : Prop where
  running : ∀ index, (scheduler.slots index).state = .running →
    (scheduler.slots index).used = true ∧ (scheduler.slots index).pid = scheduler.runningPid
  oneRunning : ∀ first second, (scheduler.slots first).state = .running →
    (scheduler.slots second).state = .running → first = second
  lists : scheduler.runqInitialized = true → ∃ lists, scheduler.runq.Carries lists
  idle : scheduler.runqInitialized = false → ∀ index, scheduler.runq.queued index = false
  queued : ∀ index, scheduler.runq.queued index = true →
    (scheduler.slots index).used = true ∧ (scheduler.slots index).state = .runnable
  distinct : ∀ first second, (scheduler.slots first).used = true →
    (scheduler.slots second).used = true →
    (scheduler.slots first).pid = (scheduler.slots second).pid → first = second
  exited : ∀ index, (scheduler.slots index).exited = true ↔ (scheduler.slots index).state = .zombie

/-- The invariant with what its proof needs besides. -/
structure Consistent (scheduler : Scheduler) : Prop extends Threaded scheduler where
  running : ∀ index, (scheduler.slots index).state = .running →
    (scheduler.slots index).pid = scheduler.runningPid
  occupied : ∀ index, (scheduler.slots index).state ≠ .unused → (scheduler.slots index).used = true
  positive : ∀ index, (scheduler.slots index).used = true → 0 < (scheduler.slots index).pid
  distinct : ∀ first second, (scheduler.slots first).used = true →
    (scheduler.slots second).used = true →
    (scheduler.slots first).pid = (scheduler.slots second).pid → first = second
  exited : ∀ index, (scheduler.slots index).exited = true ↔ (scheduler.slots index).state = .zombie
  nextPid : 0 < scheduler.nextPid

/-- The task of the running pid has not ended. -/
def Alive (scheduler : Scheduler) : Prop :=
  ∀ index, (scheduler.slots index).used = true →
    (scheduler.slots index).pid = scheduler.runningPid → (scheduler.slots index).state ≠ .zombie

/-- A change that keeps the table consistent, every zombie a zombie and the running task alive. -/
structure Sound (before after : Scheduler) : Prop where
  consistent : Consistent after
  persists : ∀ index, (before.slots index).exited = true → (after.slots index).exited = true
  alive : Alive before → Alive after

variable (config : Config) {scheduler before middle after : Scheduler} {index : Index}

theorem Consistent.tableInvariant (hconsistent : Consistent scheduler) :
    TableInvariant scheduler where
  running index hrunning :=
    ⟨hconsistent.occupied index (by simp [hrunning]), hconsistent.running index hrunning⟩
  oneRunning first second hfirst hsecond :=
    hconsistent.distinct first second (hconsistent.occupied first (by simp [hfirst]))
      (hconsistent.occupied second (by simp [hsecond]))
      ((hconsistent.running first hfirst).trans (hconsistent.running second hsecond).symm)
  lists := hconsistent.lists
  idle := hconsistent.idle
  queued := hconsistent.runnable
  distinct := hconsistent.distinct
  exited := hconsistent.exited

namespace Sound

theorem trans (hfirst : Sound before middle) (hsecond : Sound middle after) :
    Sound before after where
  consistent := hsecond.consistent
  persists index hexited := hsecond.persists index (hfirst.persists index hexited)
  alive halive := hsecond.alive (hfirst.alive halive)

/-- A change that keeps the tasks is sound where it keeps the queues threaded. -/
theorem of_agrees (hconsistent : Consistent before) (hagrees : Agrees before after)
    (hthreaded : Threaded after) : Sound before after where
  consistent :=
    { hthreaded with
      running := fun index hrunning ↦ by
        rw [(hagrees.slot index).state] at hrunning
        rw [(hagrees.slot index).pid, hagrees.runningPid]
        exact hconsistent.running index hrunning
      occupied := fun index hstate ↦ by
        rw [(hagrees.slot index).state] at hstate
        rw [(hagrees.slot index).used]
        exact hconsistent.occupied index hstate
      positive := fun index hused ↦ by
        rw [(hagrees.slot index).used] at hused
        rw [(hagrees.slot index).pid]
        exact hconsistent.positive index hused
      distinct := fun first second hfirst hsecond hpid ↦ by
        rw [(hagrees.slot first).used] at hfirst
        rw [(hagrees.slot second).used] at hsecond
        rw [(hagrees.slot first).pid, (hagrees.slot second).pid] at hpid
        exact hconsistent.distinct first second hfirst hsecond hpid
      exited := fun index ↦ by
        rw [(hagrees.slot index).exited, (hagrees.slot index).state]
        exact hconsistent.exited index
      nextPid := hagrees.nextPid ▸ hconsistent.nextPid }
  persists index hexited := (hagrees.slot index).exited ▸ hexited
  alive halive index hused hpid := by
    rw [(hagrees.slot index).used] at hused
    rw [(hagrees.slot index).pid, hagrees.runningPid] at hpid
    rw [(hagrees.slot index).state]
    exact halive index hused hpid

/-- A change of fields that are not tracked is sound. -/
theorem of_eq (hconsistent : Consistent before) (hslots : after.slots = before.slots)
    (hrunq : after.runq = before.runq)
    (hinitialized : after.runqInitialized = before.runqInitialized)
    (hrunningPid : after.runningPid = before.runningPid)
    (hnextPid : after.nextPid = before.nextPid) : Sound before after :=
  have hagrees : Agrees before after := .of_slots_eq hslots hrunningPid hnextPid
  .of_agrees hconsistent hagrees (hconsistent.of_agrees hagrees hrunq hinitialized)

theorem refl (hconsistent : Consistent scheduler) : Sound scheduler scheduler :=
  .of_eq hconsistent rfl rfl rfl rfl rfl

/-- A change of one slot that keeps its task is sound. -/
theorem modify_same (hconsistent : Consistent scheduler) (index : Index) (change : Slot → Slot)
    (hchange : (scheduler.slots index).Same (change (scheduler.slots index))) :
    Sound scheduler (scheduler.modify index change) :=
  .of_agrees hconsistent (.modify hchange)
    (hconsistent.of_agrees (.modify hchange) rfl rfl)

end Sound

/-- A table in which one used slot has changed its state is consistent. -/
theorem Consistent.replace (hconsistent : Consistent before) (index : Index)
    (hthreaded : Threaded after)
    (hothers : ∀ other, other ≠ index → (before.slots other).Same (after.slots other))
    (hbefore : (before.slots index).used = true) (hafter : (after.slots index).used = true)
    (hpid : (after.slots index).pid = (before.slots index).pid)
    (hexited : (after.slots index).exited = true ↔ (after.slots index).state = .zombie)
    (hrunning : ∀ other, (after.slots other).state = .running →
      (after.slots other).pid = after.runningPid)
    (hnextPid : after.nextPid = before.nextPid) : Consistent after := by
  have hpids (other : Index) : (after.slots other).pid = (before.slots other).pid := by
    by_cases hother : other = index
    · rw [hother, hpid]
    · exact (hothers other hother).pid
  have husedEq (other : Index) : (after.slots other).used = (before.slots other).used := by
    by_cases hother : other = index
    · rw [hother, hbefore, hafter]
    · exact (hothers other hother).used
  refine ⟨hthreaded, ?_, ?_, ?_, ?_, ?_, ?_⟩
  · exact hrunning
  · intro other hstate
    by_cases hother : other = index
    · rw [hother, hafter]
    · rw [(hothers other hother).state] at hstate
      rw [husedEq]
      exact hconsistent.occupied other hstate
  · intro other hused
    rw [husedEq] at hused
    rw [hpids]
    exact hconsistent.positive other hused
  · intro first second hfirst hsecond hsame
    rw [husedEq] at hfirst hsecond
    rw [hpids, hpids] at hsame
    exact hconsistent.distinct first second hfirst hsecond hsame
  · intro other
    by_cases hother : other = index
    · rw [hother]
      exact hexited
    · rw [(hothers other hother).exited, (hothers other hother).state]
      exact hconsistent.exited other
  · rw [hnextPid]
    exact hconsistent.nextPid

/-- Changing the state of a slot that has not ended is sound: to runnable, to blocked where the slot
is not queued, and to running where it has the running pid. -/
theorem Sound.modify_state {change : Slot → Slot} (hconsistent : Consistent scheduler)
    (hused : (scheduler.slots index).used = true)
    (hold : (scheduler.slots index).state ≠ .zombie)
    (hkeeps : (change (scheduler.slots index)).used = true ∧
      (change (scheduler.slots index)).pid = (scheduler.slots index).pid ∧
        (change (scheduler.slots index)).exited = (scheduler.slots index).exited)
    (hnew : (change (scheduler.slots index)).state = .runnable ∨
      scheduler.runq.queued index = false ∧
        ((change (scheduler.slots index)).state = .blocked ∨
          (change (scheduler.slots index)).state = .running ∧
            (scheduler.slots index).pid = scheduler.runningPid)) :
    Sound scheduler (scheduler.modify index change) := by
  obtain ⟨hchangeUsed, hchangePid, hchangeExited⟩ := hkeeps
  have hself : (scheduler.modify index change).slots index = change (scheduler.slots index) :=
    Function.update_self _ _ _
  have hothers (other : Index) (hother : other ≠ index) :
      (scheduler.modify index change).slots other = scheduler.slots other :=
    Function.update_of_ne hother _ _
  have hnotExited : (scheduler.slots index).exited = false := by
    by_contra hexited
    exact hold ((hconsistent.exited index).mp (Bool.eq_true_of_not_eq_false hexited))
  have hnotZombie : (change (scheduler.slots index)).state ≠ .zombie := by
    rcases hnew with hstate | ⟨-, hstate | ⟨hstate, -⟩⟩ <;> simp [hstate]
  refine ⟨hconsistent.replace index ?_ (fun other hother ↦ ?_) hused ?_ ?_ ?_
    (fun other hother ↦ ?_) rfl, fun other hexited ↦ ?_, fun halive other hotherUsed hpid ↦ ?_⟩
  · refine hconsistent.toThreaded.modify fun hqueued ↦ ⟨hchangeUsed, ?_⟩
    rcases hnew with hstate | ⟨hfree, -⟩
    · exact hstate
    · rw [hfree] at hqueued
      exact absurd hqueued Bool.false_ne_true
  · rw [hothers other hother]
    exact .refl _
  · rw [hself, hchangeUsed]
  · rw [hself, hchangePid]
  · rw [hself, hchangeExited, hnotExited]
    exact iff_of_false Bool.false_ne_true hnotZombie
  · by_cases heq : other = index
    · subst heq
      rw [hself] at hother ⊢
      rw [hchangePid]
      rcases hnew with hstate | ⟨-, hstate | ⟨-, hpid⟩⟩
      · simp [hstate] at hother
      · simp [hstate] at hother
      · exact hpid
    · rw [hothers other heq] at hother ⊢
      exact hconsistent.running other hother
  · by_cases heq : other = index
    · rw [heq, hnotExited] at hexited
      exact absurd hexited Bool.false_ne_true
    · rw [hothers other heq]
      exact hexited
  · by_cases heq : other = index
    · subst heq
      rw [hself]
      exact hnotZombie
    · rw [hothers other heq] at hotherUsed hpid ⊢
      exact halive other hotherUsed hpid

/-! ### Queue operations -/

theorem sound_runqEnqueue (hconsistent : Consistent scheduler) (index : Index) :
    Sound scheduler (runqEnqueue config scheduler index) :=
  .of_agrees hconsistent (agrees_runqEnqueue config scheduler index)
    (hconsistent.toThreaded.runqEnqueue config)

theorem sound_runqRemove (hconsistent : Consistent scheduler) (index : Index) :
    Sound scheduler (runqRemove config scheduler index) :=
  .of_agrees hconsistent (agrees_runqRemove config scheduler index)
    (hconsistent.toThreaded.runqRemove config index).1

/-! ### Finding slots -/

/-- Every slot belongs to the same task, and the running pid is the same. -/
structure Identifies (before after : Scheduler) : Prop where
  used : ∀ index, (after.slots index).used = (before.slots index).used
  pid : ∀ index, (after.slots index).pid = (before.slots index).pid
  runningPid : after.runningPid = before.runningPid

namespace Identifies

theorem refl (scheduler : Scheduler) : Identifies scheduler scheduler :=
  ⟨fun _ ↦ rfl, fun _ ↦ rfl, rfl⟩

theorem trans (hfirst : Identifies before middle) (hsecond : Identifies middle after) :
    Identifies before after :=
  ⟨fun index ↦ (hsecond.used index).trans (hfirst.used index),
    fun index ↦ (hsecond.pid index).trans (hfirst.pid index),
    hsecond.runningPid.trans hfirst.runningPid⟩

theorem of_agrees (hagrees : Agrees before after) : Identifies before after :=
  ⟨fun index ↦ (hagrees.slot index).used, fun index ↦ (hagrees.slot index).pid,
    hagrees.runningPid⟩

/-- A change of one slot that keeps its pid. -/
theorem modify {change : Slot → Slot}
    (hused : (change (scheduler.slots index)).used = (scheduler.slots index).used)
    (hpid : (change (scheduler.slots index)).pid = (scheduler.slots index).pid) :
    Identifies scheduler (scheduler.modify index change) := by
  refine ⟨fun other ↦ ?_, fun other ↦ ?_, rfl⟩
  all_goals
    unfold Scheduler.modify
    by_cases hother : other = index
    · subst hother
      simp only [Function.update_self, hused, hpid]
    · simp only [Function.update_of_ne hother]

end Identifies

theorem findSlotByPid_eq_none {pid : ℤ} (hfind : scheduler.findSlotByPid pid = none)
    (hpid : 0 < pid) (hused : (scheduler.slots index).used = true) :
    (scheduler.slots index).pid ≠ pid := by
  unfold Scheduler.findSlotByPid at hfind
  rw [if_neg (not_le.mpr hpid), List.find?_eq_none] at hfind
  have hindex := hfind index (List.mem_finRange index)
  simpa [hused] using hindex

theorem findSlotByPid_spec {pid : ℤ} (hfind : scheduler.findSlotByPid pid = some index) :
    (scheduler.slots index).used = true ∧ (scheduler.slots index).pid = pid ∧ 0 < pid := by
  unfold Scheduler.findSlotByPid at hfind
  split_ifs at hfind with hpid
  have hfound := List.find?_some hfind
  rw [Bool.and_eq_true, beq_iff_eq] at hfound
  exact ⟨hfound.1, hfound.2, not_le.mp hpid⟩

theorem allocSlot_spec (halloc : scheduler.allocSlot = some index) :
    (scheduler.slots index).used = false := by
  have hfound := List.find?_some halloc
  rwa [Bool.not_eq_true'] at hfound

/-- Changing the current slot without changing its task is sound. -/
theorem sound_modifyCurrent_same {change : Slot → Slot} (hconsistent : Consistent scheduler)
    (hchange : ∀ slot : Slot, slot.Same (change slot)) :
    Sound scheduler (scheduler.modifyCurrent change) := by
  unfold Scheduler.modifyCurrent
  cases scheduler.currentSlot with
  | none => exact .refl hconsistent
  | some index => exact .modify_same hconsistent index change (hchange _)

/-! ### Blocking and waking -/

section

variable (hconsistent : Consistent scheduler)

include hconsistent

/-- Blocking the current task is sound, since it has not ended. -/
theorem sound_blockCurrent (halive : Alive scheduler)
    (reason : BlockReason) (wakeTick : ℕ) (waitTargetPid waitGuiHandle : ℤ) :
    Sound scheduler
      (blockCurrent config scheduler reason wakeTick waitTargetPid waitGuiHandle) := by
  unfold blockCurrent
  cases hcurrent : scheduler.currentSlot with
  | none => exact .refl hconsistent
  | some index =>
    obtain ⟨hused, hpid, -⟩ := findSlotByPid_spec hcurrent
    obtain ⟨hthreaded, hqueued⟩ := hconsistent.toThreaded.runqRemove config index
    have hremoved := sound_runqRemove config hconsistent index
    have hagrees := agrees_runqRemove config scheduler index
    dsimp only
    -- taking the slot out of its queue first comes to the same
    set change : Slot → Slot := fun slot ↦
      { slot with
        state := .blocked
        wakeTick := wakeTick
        waitTargetPid := waitTargetPid
        waitGuiHandle := waitGuiHandle
        blockReason := reason } with hchange
    have hswap : runqRemove config (scheduler.modify index change) index =
        (runqRemove config scheduler index).modify index change := by
      rw [hconsistent.toThreaded.runqRemove_eq config index]
      unfold runqRemove
      split_ifs with hcontra
      · rw [runqBootstrap_eq]
        · rfl
        · by_contra hinitialized
          have hidle := hconsistent.idle (Bool.eq_false_of_not_eq_true hinitialized) index
          exact Bool.false_ne_true (hidle.symm.trans hcontra)
      · have hfalse : ¬scheduler.runq.queued index = true := hcontra
        unfold ThreadedQueues.remove
        rw [if_neg hfalse]
    rw [hswap]
    have hblocked : Sound (runqRemove config scheduler index)
        ((runqRemove config scheduler index).modify index change) := by
      have hsame := hagrees.slot index
      refine .modify_state hremoved.consistent (hsame.used.trans hused) ?_
        ⟨hsame.used.trans hused, rfl, rfl⟩ (Or.inr ⟨hqueued, Or.inl rfl⟩)
      rw [hsame.state]
      exact halive index hused hpid
    exact (hremoved.trans hblocked).trans (.of_eq hblocked.consistent rfl rfl rfl rfl rfl)

theorem sound_unblockCurrent :
    Sound scheduler (unblockCurrent scheduler) := by
  unfold unblockCurrent Scheduler.modifyCurrent
  cases hcurrent : scheduler.currentSlot with
  | none => exact .refl hconsistent
  | some index =>
    obtain ⟨hused, hpid, -⟩ := findSlotByPid_spec hcurrent
    by_cases hblocked : (scheduler.slots index).state = .blocked
    · refine .modify_state hconsistent hused (by simp [hblocked]) ?_
        (Or.inr ⟨?_, Or.inr ⟨?_, hpid⟩⟩)
      · simp [hblocked, Slot.awaitingNothing, hused]
      · exact hconsistent.queued_eq_false (by simp [hblocked])
      · simp [hblocked, Slot.awaitingNothing]
    · refine .modify_same hconsistent index _ ?_
      rw [if_neg hblocked]
      exact ⟨rfl, rfl, rfl, rfl, rfl, id⟩

theorem sound_wakeSlot (index : Index)
    (hblocked : (scheduler.slots index).state = .blocked) :
    Sound scheduler (wakeSlot config scheduler scheduler.runningPid index) ∧
      Identifies scheduler (wakeSlot config scheduler scheduler.runningPid index) := by
  have hused := hconsistent.occupied index (by simp [hblocked])
  unfold wakeSlot
  split_ifs with hpid
  · exact ⟨.modify_state hconsistent hused (by simp [hblocked]) ⟨hused, rfl, rfl⟩
      (Or.inr ⟨hconsistent.queued_eq_false (by simp [hblocked]), Or.inr ⟨rfl, hpid⟩⟩),
      .modify rfl rfl⟩
  · have hrunnable : Sound scheduler
        (scheduler.modify index fun slot ↦ { slot with state := .runnable }) :=
      .modify_state hconsistent hused (by simp [hblocked]) ⟨hused, rfl, rfl⟩ (Or.inl rfl)
    exact ⟨hrunnable.trans (sound_runqEnqueue config hrunnable.consistent index),
      .trans (.modify rfl rfl) (.of_agrees (agrees_runqEnqueue config _ index))⟩

/-- One slot of a scheduler tick is sound. -/
theorem sound_wakeSleeper (index : Index) :
    Sound scheduler (wakeSleeper config scheduler.runningPid scheduler index) ∧
      Identifies scheduler (wakeSleeper config scheduler.runningPid scheduler index) := by
  unfold wakeSleeper
  dsimp only
  split_ifs with hsleeps hpid
  all_goals try exact ⟨.refl hconsistent, .refl scheduler⟩
  all_goals
    have hagrees : Agrees scheduler
        (scheduler.modify index fun slot ↦ { slot with wakeTick := 0, blockReason := .none }) :=
      .modify ⟨rfl, rfl, rfl, rfl, rfl, id⟩
    have hquiet := Sound.modify_same hconsistent index
      (fun slot ↦ { slot with wakeTick := 0, blockReason := .none }) ⟨rfl, rfl, rfl, rfl, rfl, id⟩
    obtain ⟨hwoken, hidentifies⟩ := sound_wakeSlot config hquiet.consistent index
      (by simpa [Scheduler.modify] using hsleeps.2.1)
  · exact ⟨hquiet.trans hwoken, (Identifies.of_agrees hagrees).trans hidentifies⟩
  · exact ⟨(hquiet.trans hwoken).trans (.of_eq hwoken.consistent rfl rfl rfl rfl rfl),
      ((Identifies.of_agrees hagrees).trans hidentifies).trans
        (.of_agrees (.of_slots_eq rfl rfl rfl))⟩

theorem sound_schedulerTick :
    Sound scheduler (schedulerTick config scheduler) := by
  unfold schedulerTick
  refine (List.foldlRecOn (List.finRange userTaskMax) _ (motive := fun ticked ↦
    Sound scheduler ticked ∧ Identifies scheduler ticked)
    ⟨.refl hconsistent, .refl scheduler⟩ ?_).1
  rintro ticked ⟨hsound, hidentifies⟩ index -
  have hnext := sound_wakeSleeper config hsound.consistent index
  rw [hidentifies.runningPid] at hnext
  exact ⟨hsound.trans hnext.1, hidentifies.trans hnext.2⟩

end

/-- One slot of a search for waiters is sound. -/
theorem sound_wakeWaiter (waits : Slot → Bool) (hconsistent : Consistent scheduler)
    (index : Index) :
    Sound scheduler (wakeWaiter config waits scheduler.runningPid scheduler index) ∧
      Identifies scheduler (wakeWaiter config waits scheduler.runningPid scheduler index) := by
  unfold wakeWaiter
  dsimp only
  split_ifs with hwaits
  · have hagrees : Agrees scheduler (scheduler.modify index Slot.awaitingNothing) :=
      .modify ⟨rfl, rfl, rfl, rfl, rfl, id⟩
    have hquiet := Sound.modify_same hconsistent index Slot.awaitingNothing
      ⟨rfl, rfl, rfl, rfl, rfl, id⟩
    obtain ⟨hwoken, hidentifies⟩ := sound_wakeSlot config hquiet.consistent index
      (by simpa [Scheduler.modify, Slot.awaitingNothing] using hwaits.2.1)
    exact ⟨(hquiet.trans hwoken).trans (.of_eq hwoken.consistent rfl rfl rfl rfl rfl),
      ((Identifies.of_agrees hagrees).trans hidentifies).trans
        (.of_agrees (.of_slots_eq rfl rfl rfl))⟩
  · exact ⟨.refl hconsistent, .refl scheduler⟩

theorem sound_wakeWaiters (waits : Slot → Bool) (hconsistent : Consistent scheduler) :
    Sound scheduler (wakeWaiters config waits scheduler) ∧
      Identifies scheduler (wakeWaiters config waits scheduler) := by
  unfold wakeWaiters
  refine List.foldlRecOn (List.finRange userTaskMax) _ (motive := fun woken ↦
    Sound scheduler woken ∧ Identifies scheduler woken) ⟨.refl hconsistent, .refl scheduler⟩ ?_
  rintro woken ⟨hsound, hidentifies⟩ index -
  have hnext := sound_wakeWaiter config waits hsound.consistent index
  rw [hidentifies.runningPid] at hnext
  exact ⟨hsound.trans hnext.1, hidentifies.trans hnext.2⟩

theorem sound_wakeWaitersForPid (hconsistent : Consistent scheduler) (pid : ℤ) :
    Sound scheduler (wakeWaitersForPid config scheduler pid) ∧
      Identifies scheduler (wakeWaitersForPid config scheduler pid) :=
  sound_wakeWaiters config _ hconsistent

/-! ### Ending tasks -/

section

variable (hconsistent : Consistent scheduler)

include hconsistent

/-- A table in which a used slot that was taken out of its queue has ended is consistent, and every
zombie has stayed one. -/
theorem consistent_ended (hused : (scheduler.slots index).used = true) (status : ℤ) :
    Consistent ((runqRemove config scheduler index).modify index (Slot.ended status)) ∧
      ∀ other, (scheduler.slots other).exited = true →
        (((runqRemove config scheduler index).modify index
          (Slot.ended status)).slots other).exited = true := by
  obtain ⟨hthreaded, hqueued⟩ := hconsistent.toThreaded.runqRemove config index
  have hremoved := sound_runqRemove config hconsistent index
  have husedAfter := ((agrees_runqRemove config scheduler index).slot index).used.trans hused
  set removed := runqRemove config scheduler index
  have hself : (removed.modify index (Slot.ended status)).slots index =
      Slot.ended status (removed.slots index) := Function.update_self _ _ _
  have hothers (other : Index) (hother : other ≠ index) :
      (removed.modify index (Slot.ended status)).slots other = removed.slots other :=
    Function.update_of_ne hother _ _
  refine ⟨hremoved.consistent.replace index ?_ (fun other hother ↦ ?_) husedAfter ?_ ?_
    ?_ (fun other hother ↦ ?_) rfl, fun other hexited ↦ ?_⟩
  · refine hthreaded.modify fun hcontra ↦ ?_
    rw [hqueued] at hcontra
    exact absurd hcontra Bool.false_ne_true
  · rw [hothers other hother]
    exact .refl _
  · rw [hself]
    exact husedAfter
  · rw [hself]
    rfl
  · rw [hself]
    exact iff_of_true rfl rfl
  · by_cases heq : other = index
    · rw [heq, hself] at hother
      exact absurd hother (by simp [Slot.ended])
    · rw [hothers other heq] at hother ⊢
      exact hremoved.consistent.running other hother
  · by_cases heq : other = index
    · rw [heq, hself]
      rfl
    · rw [hothers other heq]
      exact hremoved.persists other hexited

theorem Consistent.alive_of_idle (hrunningPid : scheduler.runningPid = 0) : Alive scheduler := by
  intro index hused hpid
  have hpositive := hconsistent.positive index hused
  omega

/-- The end of the running task is sound. -/
theorem sound_notifyExit (status : ℤ) :
    Sound scheduler (notifyExit config scheduler status) := by
  have hidle {reached : Scheduler} (hreached : Consistent reached)
      (hnone : ∀ index, (reached.slots index).state ≠ .running)
      (hpersists : ∀ index, (scheduler.slots index).exited = true →
        (reached.slots index).exited = true) :
      Sound scheduler
        { reached with
          activeSlot := none
          runningPid := 0
          pendingPid := 0
          active := false
          scheduleRequest := true } := by
    have hafter : Consistent
        { reached with
          activeSlot := none
          runningPid := 0
          pendingPid := 0
          active := false
          scheduleRequest := true } :=
      ⟨⟨hreached.lists, hreached.idle, hreached.runnable⟩,
        fun index hrunning ↦ absurd hrunning (hnone index), hreached.occupied, hreached.positive,
        hreached.distinct, hreached.exited, hreached.nextPid⟩
    exact ⟨hafter, hpersists, fun _ ↦ hafter.alive_of_idle rfl⟩
  unfold notifyExit
  dsimp only
  split_ifs with hpid
  · cases hfind : scheduler.findSlotByPid scheduler.runningPid with
    | none =>
      obtain ⟨hwoken, hidentifies⟩ :=
        sound_wakeWaitersForPid config hconsistent scheduler.runningPid
      have hnone (index : Index) : ((wakeWaitersForPid config scheduler
          scheduler.runningPid).slots index).state ≠ .running := by
        intro hrunning
        have hused := hwoken.consistent.occupied index (by simp [hrunning])
        have hindexPid := hwoken.consistent.running index hrunning
        rw [hidentifies.used] at hused
        rw [hidentifies.pid, hidentifies.runningPid] at hindexPid
        exact findSlotByPid_eq_none hfind hpid hused hindexPid
      exact hidle hwoken.consistent hnone hwoken.persists
    | some current =>
      obtain ⟨hused, hcurrentPid, -⟩ := findSlotByPid_spec hfind
      obtain ⟨hended, hpersists⟩ := consistent_ended config hconsistent hused status
      have hends : Identifies scheduler
          ((runqRemove config scheduler current).modify current (Slot.ended status)) :=
        (Identifies.of_agrees (agrees_runqRemove config scheduler current)).trans (.modify rfl rfl)
      obtain ⟨hwoken, hwakes⟩ := sound_wakeWaitersForPid config hended scheduler.runningPid
      have hidentifies := hends.trans hwakes
      have hnone (index : Index) : ((wakeWaitersForPid config
          ((runqRemove config scheduler current).modify current (Slot.ended status))
          scheduler.runningPid).slots index).state ≠ .running := by
        intro hrunning
        -- a running slot would be the one that has just ended
        have hindexUsed := hwoken.consistent.occupied index (by simp [hrunning])
        have hindexPid := hwoken.consistent.running index hrunning
        rw [hidentifies.used] at hindexUsed
        rw [hidentifies.pid, hidentifies.runningPid, ← hcurrentPid] at hindexPid
        obtain rfl : index = current :=
          hconsistent.distinct index current hindexUsed hused hindexPid
        have hexited := hwoken.persists index (by simp [Scheduler.modify, Slot.ended])
        rw [hwoken.consistent.exited index, hrunning] at hexited
        exact absurd hexited (by simp)
      exact hidle hwoken.consistent hnone
        fun index hexited ↦ hwoken.persists index (hpersists index hexited)
  · refine hidle hconsistent (fun index hrunning ↦ ?_) fun _ ↦ id
    have hpositive := hconsistent.positive index (hconsistent.occupied index (by simp [hrunning]))
    have hindexPid := hconsistent.running index hrunning
    omega

/-- Signalling the parent of a task that was terminated is sound. -/
theorem sound_signalParent (parentPid : ℤ) :
    Sound scheduler (signalParent config scheduler parentPid) := by
  unfold signalParent
  cases scheduler.findSlotByPid parentPid with
  | none => exact .refl hconsistent
  | some parent =>
    dsimp only
    have hquiet := Sound.modify_same hconsistent parent
      (fun slot ↦ { slot with sigPending := slot.sigPending ||| (1#32 <<< 17) })
      ⟨rfl, rfl, rfl, rfl, rfl, id⟩
    split_ifs with hblocked
    · have hwoken := (sound_wakeSlot config hquiet.consistent parent hblocked).1
      exact (hquiet.trans hwoken).trans (.of_eq hwoken.consistent rfl rfl rfl rfl rfl)
    · exact hquiet.trans (.of_eq hquiet.consistent rfl rfl rfl rfl rfl)

/-- Terminating the task of a used slot is sound. -/
theorem sound_terminateSlot (hused : (scheduler.slots index).used = true) (sig : ℕ) :
    Sound scheduler (terminateSlot config scheduler index sig) := by
  unfold terminateSlot
  dsimp only
  split_ifs with hzombie hrunning hparent
  · exact .refl hconsistent
  · exact sound_notifyExit config hconsistent _
  all_goals
    obtain ⟨hended, hpersists⟩ := consistent_ended config hconsistent hused (-sig)
    have hends : Identifies scheduler
        ((runqRemove config scheduler index).modify index (Slot.ended (-sig))) :=
      (Identifies.of_agrees (agrees_runqRemove config scheduler index)).trans (.modify rfl rfl)
    have hsound : Sound scheduler
        ((runqRemove config scheduler index).modify index (Slot.ended (-sig))) := by
      refine ⟨hended, hpersists, fun halive other hotherUsed hpid ↦ ?_⟩
      have hother : other ≠ index := by
        rintro rfl
        rw [hends.pid, hends.runningPid] at hpid
        exact hrunning hpid
      rw [hends.used] at hotherUsed
      rw [hends.pid, hends.runningPid] at hpid
      have hsame := ((agrees_runqRemove config scheduler index).slot other).state
      simp only [Scheduler.modify, Function.update_of_ne hother, hsame]
      exact halive other hotherUsed hpid
    have hwoken := (sound_wakeWaitersForPid config hsound.consistent (scheduler.slots index).pid).1
  · have hsignalled := sound_signalParent config hwoken.consistent (scheduler.slots index).parentPid
    exact ((hsound.trans hwoken).trans hsignalled).trans
      (.of_eq hsignalled.consistent rfl rfl rfl rfl rfl)
  · exact (hsound.trans hwoken).trans (.of_eq hwoken.consistent rfl rfl rfl rfl rfl)

theorem sound_queueSignal (pid sig : ℤ) :
    Sound scheduler (queueSignal config scheduler pid sig) := by
  unfold queueSignal
  split_ifs with hrange
  · exact .refl hconsistent
  · cases hfind : scheduler.findSlotByPid pid with
    | none => exact .refl hconsistent
    | some index =>
      dsimp only
      have hquiet := Sound.modify_same hconsistent index
        (fun slot ↦ { slot with sigPending := slot.sigPending ||| (1#32 <<< sig.toNat) })
        ⟨rfl, rfl, rfl, rfl, rfl, id⟩
      split_ifs
      · exact sound_terminateSlot config hconsistent (findSlotByPid_spec hfind).1 _
      · exact hquiet.trans (.of_eq hquiet.consistent rfl rfl rfl rfl rfl)
      · exact hquiet

end

/-! ### Launching tasks -/

/-- What launching a slot that is not queued does to the tracked fields: the loaded task runs under
its pid, and a task that could not be loaded has ended. -/
theorem launchSlot_spec (load : Load) (hqueued : scheduler.runq.queued index = false)
    (himage : (scheduler.slots index).image ≠ none) :
    let launched := launchSlot config scheduler index load
    (∀ other, other ≠ index → launched.slots other = scheduler.slots other) ∧
      launched.runq = scheduler.runq ∧ launched.runqInitialized = scheduler.runqInitialized ∧
      launched.nextPid = scheduler.nextPid ∧
      (launched.slots index).used = (scheduler.slots index).used ∧
      (launched.slots index).pid = (scheduler.slots index).pid ∧
      if load.enters then
        (launched.slots index).state = .running ∧
          (launched.slots index).exited = (scheduler.slots index).exited ∧
          launched.runningPid = (scheduler.slots index).pid
      else
        (launched.slots index).state = .zombie ∧ (launched.slots index).exited = true ∧
          launched.runningPid =
            if scheduler.runningPid = (scheduler.slots index).pid then 0
            else scheduler.runningPid := by
  have hremove : runqRemove config scheduler index = scheduler := by
    unfold runqRemove
    rw [if_neg (by simp [hqueued])]
  intro launched
  have hlaunched : launched = launchSlot config scheduler index load := rfl
  unfold launchSlot at hlaunched
  rw [if_neg himage, hremove] at hlaunched
  rw [hlaunched]
  cases load with
  | rejected =>
    refine ⟨fun other hother ↦ ?_, ?_⟩
    · simp [userElfRunArgv, Scheduler.modify, Load.enters, Function.update_of_ne hother]
    · simp [userElfRunArgv, Scheduler.modify, Load.enters, Slot.ended, Slot.launched,
        Slot.refilled]
  | unwound =>
    refine ⟨fun other hother ↦ ?_, ?_⟩
    · simp [userElfRunArgv, Scheduler.modify, Scheduler.setCurrentMappingState, Load.enters,
        Function.update_of_ne hother]
    · simp [userElfRunArgv, Scheduler.modify, Scheduler.setCurrentMappingState, Load.enters,
        Slot.ended, Slot.launched, Slot.refilled]
  | entered runtime entry userEsp cs ds =>
    refine ⟨fun other hother ↦ ?_, ?_⟩
    · simp [userElfRunArgv, Scheduler.modify, Scheduler.setCurrentMappingState, Load.enters,
        Function.update_of_ne hother]
    · simp [userElfRunArgv, Scheduler.modify, Scheduler.setCurrentMappingState, Load.enters,
        Slot.launched, Slot.refilled]

/-- Launching a slot that was taken from its queue is sound, where the loader fails or no task
runs. -/
theorem sound_launchSlot {load : Load} (hconsistent : Consistent scheduler)
    (hqueued : scheduler.runq.queued index = false)
    (hused : (scheduler.slots index).used = true)
    (hstate : (scheduler.slots index).state = .runnable)
    (hidle : load.enters = true → ∀ other, (scheduler.slots other).state ≠ .running) :
    Sound scheduler (launchSlot config scheduler index load) := by
  by_cases himage : (scheduler.slots index).image = none
  · unfold launchSlot
    rw [if_pos himage]
    exact .refl hconsistent
  obtain ⟨hothers, hrunq, hinitialized, hnextPid, hafterUsed, hafterPid, houtcome⟩ :=
    launchSlot_spec config load hqueued himage
  set launched := launchSlot config scheduler index load
  have hnotExited : (scheduler.slots index).exited = false := by
    by_contra hexited
    have hzombie := (hconsistent.exited index).mp (Bool.eq_true_of_not_eq_false hexited)
    simp [hstate] at hzombie
  have hthreaded : Threaded launched := by
    refine ⟨?_, ?_, fun other hother ↦ ?_⟩
    · rw [hrunq, hinitialized]
      exact hconsistent.lists
    · rw [hrunq, hinitialized]
      exact hconsistent.idle
    · rw [hrunq] at hother
      have hne : other ≠ index := by
        rintro rfl
        exact Bool.false_ne_true (hqueued.symm.trans hother)
      rw [hothers other hne]
      exact hconsistent.runnable other hother
  have hsame (other : Index) (hother : other ≠ index) :
      (scheduler.slots other).Same (launched.slots other) := by
    rw [hothers other hother]
    exact .refl _
  have husedOf {other : Index} (hother : other ≠ index)
      (hotherUsed : (launched.slots other).used = true) :
      (scheduler.slots other).pid ≠ (scheduler.slots index).pid := by
    rw [hothers other hother] at hotherUsed
    exact fun hpid ↦ hother (hconsistent.distinct other index hotherUsed hused hpid)
  by_cases henters : load.enters = true
  · rw [if_pos henters] at houtcome
    obtain ⟨hrunning, hexited, hrunningPid⟩ := houtcome
    refine ⟨hconsistent.replace index hthreaded hsame hused (hafterUsed.trans hused) hafterPid ?_
      (fun other hother ↦ ?_) hnextPid, fun other hother ↦ ?_, fun _ other hotherUsed hpid ↦ ?_⟩
    · rw [hexited, hnotExited, hrunning]
      simp
    · by_cases heq : other = index
      · rw [heq, hafterPid, hrunningPid]
      · rw [hothers other heq] at hother
        exact absurd hother (hidle henters other)
    · by_cases heq : other = index
      · rw [heq, hnotExited] at hother
        exact absurd hother Bool.false_ne_true
      · rw [hothers other heq]
        exact hother
    · by_cases heq : other = index
      · rw [heq, hrunning]
        simp
      · rw [hrunningPid, hothers other heq] at hpid
        exact absurd hpid (husedOf heq hotherUsed)
  · rw [if_neg henters] at houtcome
    obtain ⟨hzombie, hexited, hrunningPid⟩ := houtcome
    refine ⟨hconsistent.replace index hthreaded hsame hused (hafterUsed.trans hused) hafterPid ?_
      (fun other hother ↦ ?_) hnextPid, fun other hother ↦ ?_,
      fun halive other hotherUsed hpid ↦ ?_⟩
    · exact iff_of_true hexited hzombie
    · by_cases heq : other = index
      · rw [heq, hzombie] at hother
        exact absurd hother (by simp)
      · rw [hothers other heq] at hother ⊢
        have hother' := hconsistent.running other hother
        have hotherUsed := hconsistent.occupied other (by simp [hother])
        rw [hrunningPid, if_neg, hother']
        rw [← hother']
        exact fun hpid ↦ heq (hconsistent.distinct other index hotherUsed hused hpid)
    · by_cases heq : other = index
      · rw [heq]
        exact hexited
      · rw [hothers other heq]
        exact hother
    · by_cases heq : other = index
      · subst heq
        rw [hafterPid, hrunningPid] at hpid
        have hpositive := hconsistent.positive other hused
        split_ifs at hpid with hcurrent <;> omega
      · rw [hothers other heq] at hotherUsed hpid ⊢
        rw [hrunningPid] at hpid
        have hpositive := hconsistent.positive other hotherUsed
        split_ifs at hpid with hcurrent
        · omega
        · exact halive other hotherUsed hpid

/-- Looking for a task to launch is sound, where the loader fails or no task runs when one is
found. -/
theorem sound_continueOrSchedule (load : Load) (hconsistent : Consistent scheduler)
    (hidle : load.enters = true → (nextToLaunch config scheduler).1.isSome = true →
      ∀ other, (scheduler.slots other).state ≠ .running) :
    Sound scheduler (continueOrSchedule config scheduler load).2 := by
  obtain ⟨hthreaded, hpicked⟩ := hconsistent.toThreaded.nextToLaunch config
  have hagrees := agrees_nextToLaunch config scheduler
  have hready := Sound.of_agrees hconsistent hagrees hthreaded
  unfold continueOrSchedule
  rcases hnext : nextToLaunch config scheduler with ⟨_ | index, picked⟩
  · rw [hnext] at hready
    exact hready
  · rw [hnext] at hready hpicked hagrees hidle
    obtain ⟨hqueued, hused, hstate⟩ := hpicked index rfl
    refine hready.trans (sound_launchSlot config hready.consistent hqueued ?_ ?_ ?_)
    · exact (hagrees.slot index).used.trans hused
    · exact (hagrees.slot index).state.trans hstate
    · intro henters other
      rw [(hagrees.slot other).state]
      exact hidle henters rfl other

/-! ### Spawning and reaping -/

/-- Spawning a task into an unused slot under a fresh pid is sound. -/
theorem sound_spawnInto (hconsistent : Consistent scheduler)
    (hunused : (scheduler.slots index).used = false)
    (hfresh : ∀ other, (scheduler.slots other).used = true →
      (scheduler.slots other).pid ≠ scheduler.nextPid) (image : Image) :
    Sound scheduler (spawnInto config scheduler index image) := by
  have hqueued := hconsistent.toThreaded.queued_eq_false_of_unused hunused
  have hnotExited : (scheduler.slots index).exited = false := by
    by_contra hexited
    have hzombie := (hconsistent.exited index).mp (Bool.eq_true_of_not_eq_false hexited)
    rw [hconsistent.occupied index (by simp [hzombie])] at hunused
    exact absurd hunused (by simp)
  unfold spawnInto
  dsimp only
  set placed : Scheduler :=
    { scheduler with
      slots := Function.update scheduler.slots index
        (Slot.spawned config scheduler.nextPid scheduler.runningPid image)
      runq := scheduler.runq.release index
      nextPid := nextPidAfter scheduler.nextPid }
  have hself : placed.slots index =
      Slot.spawned config scheduler.nextPid scheduler.runningPid image :=
    Function.update_self _ _ _
  have hothers (other : Index) (hother : other ≠ index) :
      placed.slots other = scheduler.slots other := Function.update_of_ne hother _ _
  have hthreaded : Threaded placed := by
    refine ⟨fun hinitialized ↦ ?_, fun hinitialized other ↦ ?_, fun other hother ↦ ?_⟩
    · obtain ⟨lists, hlists⟩ := hconsistent.lists hinitialized
      exact ⟨lists, hlists.of_release hqueued⟩
    · refine (ThreadedQueues.release_queued other).trans ?_
      split_ifs
      · rfl
      · exact hconsistent.idle hinitialized other
    · have hother' := (ThreadedQueues.release_queued other).symm.trans hother
      split_ifs at hother' with heq
      rw [hothers other heq]
      exact hconsistent.runnable other hother'
  have hplaced : Consistent placed := by
    refine ⟨hthreaded, fun other hrunning ↦ ?_, fun other hstate ↦ ?_, fun other hused ↦ ?_,
      fun first second hfirst hsecond hpid ↦ ?_, fun other ↦ ?_, ?_⟩
    · by_cases heq : other = index
      · rw [heq, hself] at hrunning
        exact absurd hrunning (by simp [Slot.spawned])
      · rw [hothers other heq] at hrunning ⊢
        exact hconsistent.running other hrunning
    · by_cases heq : other = index
      · rw [heq, hself]
        rfl
      · rw [hothers other heq] at hstate ⊢
        exact hconsistent.occupied other hstate
    · by_cases heq : other = index
      · rw [heq, hself]
        exact hconsistent.nextPid
      · rw [hothers other heq] at hused ⊢
        exact hconsistent.positive other hused
    · by_cases hfirstEq : first = index <;> by_cases hsecondEq : second = index
      · rw [hfirstEq, hsecondEq]
      · rw [hothers second hsecondEq] at hsecond hpid
        rw [hfirstEq, hself] at hpid
        exact absurd hpid.symm (hfresh second hsecond)
      · rw [hothers first hfirstEq] at hfirst hpid
        rw [hsecondEq, hself] at hpid
        exact absurd hpid (hfresh first hfirst)
      · rw [hothers first hfirstEq] at hfirst hpid
        rw [hothers second hsecondEq] at hsecond hpid
        exact hconsistent.distinct first second hfirst hsecond hpid
    · by_cases heq : other = index
      · rw [heq, hself]
        simp [Slot.spawned, Slot.zero]
      · rw [hothers other heq]
        exact hconsistent.exited other
    · change 0 < nextPidAfter scheduler.nextPid
      unfold nextPidAfter
      split_ifs with hnext
      · exact hnext.2
      · exact one_pos
  have hsound : Sound scheduler placed := by
    refine ⟨hplaced, fun other hexited ↦ ?_, fun halive other hused hpid ↦ ?_⟩
    · have heq : other ≠ index := by
        rintro rfl
        exact Bool.false_ne_true (hnotExited.symm.trans hexited)
      rw [hothers other heq]
      exact hexited
    · by_cases heq : other = index
      · rw [heq, hself]
        simp [Slot.spawned]
      · rw [hothers other heq] at hused hpid ⊢
        exact halive other hused hpid
  exact hsound.trans (sound_runqEnqueue config hplaced index)

/-- Reaping a zombie keeps the table consistent, the running task alive and every other zombie a
zombie. -/
theorem sound_reap (hconsistent : Consistent scheduler) (index : Index) :
    Consistent (reap config scheduler index) ∧
      (Alive scheduler → Alive (reap config scheduler index)) ∧
        ∀ other, other ≠ index → (scheduler.slots other).exited = true →
          ((reap config scheduler index).slots other).exited = true := by
  have hunblocked := sound_unblockCurrent hconsistent
  have hremoved := hunblocked.trans (sound_runqRemove config hunblocked.consistent index)
  have hqueued := (hunblocked.consistent.toThreaded.runqRemove config index).2
  unfold reap
  dsimp only
  set removed := runqRemove config (unblockCurrent scheduler) index
  set reaped : Scheduler :=
    { removed.modify index (Slot.reaped config) with
      runq := removed.runq.release index
      scheduleRequest := true }
  have hself : reaped.slots index = Slot.reaped config (removed.slots index) :=
    Function.update_self _ _ _
  have hothers (other : Index) (hother : other ≠ index) :
      reaped.slots other = removed.slots other := Function.update_of_ne hother _ _
  have hused {other : Index} (hotherUsed : (reaped.slots other).used = true) : other ≠ index := by
    rintro rfl
    rw [hself] at hotherUsed
    exact absurd hotherUsed (by simp [Slot.reaped])
  refine ⟨⟨⟨fun hinitialized ↦ ?_, fun hinitialized other ↦ ?_, fun other hother ↦ ?_⟩,
    fun other hrunning ↦ ?_, fun other hstate ↦ ?_, fun other hotherUsed ↦ ?_,
    fun first second hfirst hsecond hpid ↦ ?_, fun other ↦ ?_, hremoved.consistent.nextPid⟩,
    fun halive other hotherUsed hpid ↦ ?_, fun other heq hexited ↦ ?_⟩
  · obtain ⟨lists, hlists⟩ := hremoved.consistent.lists hinitialized
    exact ⟨lists, hlists.of_release hqueued⟩
  · refine (ThreadedQueues.release_queued other).trans ?_
    split_ifs
    · rfl
    · exact hremoved.consistent.idle hinitialized other
  · have hother' := (ThreadedQueues.release_queued other).symm.trans hother
    split_ifs at hother' with heq
    rw [hothers other heq]
    exact hremoved.consistent.runnable other hother'
  · by_cases heq : other = index
    · rw [heq, hself] at hrunning
      exact absurd hrunning (by simp [Slot.reaped])
    · rw [hothers other heq] at hrunning ⊢
      exact hremoved.consistent.running other hrunning
  · by_cases heq : other = index
    · rw [heq, hself] at hstate
      exact absurd hstate (by simp [Slot.reaped])
    · rw [hothers other heq] at hstate ⊢
      exact hremoved.consistent.occupied other hstate
  · have heq := hused hotherUsed
    rw [hothers other heq] at hotherUsed ⊢
    exact hremoved.consistent.positive other hotherUsed
  · have hfirstEq := hused hfirst
    have hsecondEq := hused hsecond
    rw [hothers first hfirstEq] at hfirst hpid
    rw [hothers second hsecondEq] at hsecond hpid
    exact hremoved.consistent.distinct first second hfirst hsecond hpid
  · by_cases heq : other = index
    · rw [heq, hself]
      simp [Slot.reaped]
    · rw [hothers other heq]
      exact hremoved.consistent.exited other
  · have heq := hused hotherUsed
    rw [hothers other heq] at hotherUsed hpid ⊢
    exact hremoved.alive halive other hotherUsed hpid
  · rw [hothers other heq]
    exact hremoved.persists other hexited

/-! ### Switching -/

/-- The slot that is chosen to be resumed can be resumed. -/
theorem resumeTarget_spec {currentPid : ℤ}
    (htarget : scheduler.resumeTarget currentPid = some index) :
    scheduler.resumable currentPid (scheduler.slots index) = true := by
  unfold Scheduler.resumeTarget at htarget
  refine List.foldlRecOn (List.finRange userTaskMax) _ (motive := fun target ↦
    ∀ index, target = some index →
      scheduler.resumable currentPid (scheduler.slots index) = true) ?_ ?_ index htarget
  · exact fun _ hnone ↦ absurd hnone (Option.some_ne_none _).symm
  · rintro target htarget index - chosen hchosen
    by_cases hresumable : scheduler.resumable currentPid (scheduler.slots index) = true
    · rw [if_neg (not_not.mpr hresumable)] at hchosen
      cases target with
      | none =>
        obtain rfl : index = chosen := Option.some.inj hchosen
        exact hresumable
      | some other =>
        dsimp only at hchosen
        split_ifs at hchosen with hlevel
        · obtain rfl : index = chosen := Option.some.inj hchosen
          exact hresumable
        · exact htarget chosen hchosen
    · rw [if_pos hresumable] at hchosen
      exact htarget chosen hchosen

/-- Delivering a signal that does not terminate the task keeps it and leaves the queues alone. -/
theorem handlePending_safe (copied : Bool)
    (hsafe : (scheduler.slots index).pendingTerminates = false) :
    Agrees scheduler (handlePending config scheduler index copied) ∧
      (handlePending config scheduler index copied).runq = scheduler.runq ∧
        (handlePending config scheduler index copied).runqInitialized =
          scheduler.runqInitialized := by
  unfold handlePending
  unfold Slot.pendingTerminates at hsafe
  cases hsignal : (scheduler.slots index).pendingSignal with
  | none => exact ⟨.refl scheduler, rfl, rfl⟩
  | some sig =>
    simp only [hsignal, Bool.or_eq_false_iff, beq_eq_false_iff_ne, Bool.and_eq_false_iff] at hsafe
    have hcleared : Agrees scheduler (scheduler.modify index fun slot ↦
        { slot with sigPending := slot.sigPending &&& ~~~(1#32 <<< sig) }) :=
      .modify ⟨rfl, rfl, rfl, rfl, rfl, id⟩
    dsimp only
    rw [if_neg hsafe.1]
    split_ifs with hhandler hcopied hterminating
    · refine ⟨hcleared.trans (.modify ⟨rfl, rfl, rfl, rfl, rfl, fun _ ↦ rfl⟩), rfl, rfl⟩
    · exact ⟨hcleared, rfl, rfl⟩
    · -- the signal would have had to be one that terminates
      rcases hsafe.2 with hne | hfalse
      · rw [not_not] at hhandler
        exact absurd (by simpa [Scheduler.modify] using hhandler) hne
      · rw [hfalse] at hterminating
        exact absurd hterminating Bool.false_ne_true
    · exact ⟨hcleared, rfl, rfl⟩

/-- The task that runs becomes runnable, and then none runs. -/
theorem sound_yielded {current : Index} (change : Slot → Slot) (hconsistent : Consistent scheduler)
    (halive : Alive scheduler) (hcurrent : scheduler.currentSlot = some current)
    (hused : (change (scheduler.slots current)).used = (scheduler.slots current).used)
    (hpid : (change (scheduler.slots current)).pid = (scheduler.slots current).pid)
    (hexited : (change (scheduler.slots current)).exited = (scheduler.slots current).exited)
    (hstate : ∀ slot, (change slot).state = .runnable) :
    Sound scheduler (scheduler.modify current change) ∧
      ∀ other, ((scheduler.modify current change).slots other).state ≠ .running := by
  obtain ⟨hcurrentUsed, hcurrentPid, -⟩ := findSlotByPid_spec hcurrent
  have hyielded : Sound scheduler (scheduler.modify current change) :=
    .modify_state hconsistent hcurrentUsed (halive current hcurrentUsed hcurrentPid)
      ⟨hused.trans hcurrentUsed, hpid, hexited⟩ (Or.inl (hstate _))
  refine ⟨hyielded, fun other hrunning ↦ ?_⟩
  have hotherUsed := hyielded.consistent.occupied other (by simp [hrunning])
  have hotherPid := hyielded.consistent.running other hrunning
  by_cases heq : other = current
  · rw [heq] at hrunning
    exact absurd hrunning (by simp [Scheduler.modify, hstate])
  · simp only [Scheduler.modify, Function.update_of_ne heq] at hotherUsed hotherPid
    exact heq (hconsistent.distinct other current hotherUsed hcurrentUsed
      (hotherPid.trans hcurrentPid.symm))

/-- From the task that gave up the processor to the one that gets it: the first is queued, the
second leaves the queue, gets its quantum and handles what is pending. -/
theorem sound_handedOver {current target : Index} (copied : Bool)
    (hconsistent : Consistent scheduler)
    (hinitialized : scheduler.runqInitialized = true)
    (hsafe : (scheduler.slots target).pendingTerminates = false) :
    let refilled := (runqRemove config (runqEnqueue config scheduler current) target).modify target
      (Slot.refilled config)
    Sound scheduler (handlePending config refilled target copied) ∧
      Agrees scheduler (handlePending config refilled target copied) ∧
      (handlePending config refilled target copied).runq.queued target = false := by
  have hqueued := sound_runqEnqueue config hconsistent current
  have hqueuedAgrees := agrees_runqEnqueue config scheduler current
  have hremoved := sound_runqRemove config hqueued.consistent target
  have hremovedAgrees := agrees_runqRemove config (runqEnqueue config scheduler current) target
  have hremovedSlots : (runqRemove config (runqEnqueue config scheduler current) target).slots
      target = scheduler.slots target := by
    rw [hqueued.consistent.toThreaded.runqRemove_eq config target,
      runqEnqueue_slots config hinitialized]
  have hfree := (hqueued.consistent.toThreaded.runqRemove config target).2
  set removed := runqRemove config (runqEnqueue config scheduler current) target
  have hrefilled : Sound removed (removed.modify target (Slot.refilled config)) :=
    .modify_same hremoved.consistent target _ (Slot.same_refilled config _)
  have hrefilledSafe : ((removed.modify target (Slot.refilled config)).slots
      target).pendingTerminates = false := by
    have hself : (removed.modify target (Slot.refilled config)).slots target =
        Slot.refilled config (removed.slots target) := Function.update_self _ _ _
    rw [hself, hremovedSlots]
    exact hsafe
  obtain ⟨hagrees, hrunq, hready⟩ := handlePending_safe config copied hrefilledSafe
  have hdelivered := Sound.of_agrees hrefilled.consistent hagrees
    (hrefilled.consistent.toThreaded.of_agrees hagrees hrunq hready)
  refine ⟨((hqueued.trans hremoved).trans hrefilled).trans hdelivered, ?_, ?_⟩
  · exact (hqueuedAgrees.trans hremovedAgrees).trans
      ((Agrees.modify (Slot.same_refilled config _)).trans hagrees)
  · rw [hrunq]
    exact hfree

/-- A runnable task outside the queue starts to run where none does. -/
theorem sound_started {target : Index} (hconsistent : Consistent scheduler)
    (hnone : ∀ other, (scheduler.slots other).state ≠ .running)
    (hused : (scheduler.slots target).used = true)
    (hstate : (scheduler.slots target).state = .runnable)
    (hfree : scheduler.runq.queued target = false) :
    Sound scheduler
      { scheduler.modify target fun slot ↦ { slot with state := .running } with
        activeSlot := some target
        runningPid := (scheduler.slots target).pid
        scheduleRequest := false } := by
  set switched : Scheduler :=
    { scheduler.modify target fun slot ↦ { slot with state := .running } with
      activeSlot := some target
      runningPid := (scheduler.slots target).pid
      scheduleRequest := false }
  have hself : switched.slots target = { scheduler.slots target with state := .running } :=
    Function.update_self _ _ _
  have hothers (other : Index) (hother : other ≠ target) :
      switched.slots other = scheduler.slots other := Function.update_of_ne hother _ _
  have hnotExited : (scheduler.slots target).exited = false := by
    by_contra hexited
    have hzombie := (hconsistent.exited target).mp (Bool.eq_true_of_not_eq_false hexited)
    simp [hstate] at hzombie
  refine ⟨hconsistent.replace target ?_ (fun other hother ↦ ?_) hused ?_ ?_ ?_
    (fun other hother ↦ ?_) rfl, fun other hexited ↦ ?_, fun _ other hotherUsed hotherPid ↦ ?_⟩
  · refine ⟨hconsistent.lists, hconsistent.idle, fun other hother ↦ ?_⟩
    have heq : other ≠ target := by
      rintro rfl
      exact Bool.false_ne_true (hfree.symm.trans hother)
    rw [hothers other heq]
    exact hconsistent.runnable other hother
  · rw [hothers other hother]
    exact .refl _
  · rw [hself]
    exact hused
  · rw [hself]
  · rw [hself]
    simp [hnotExited]
  · by_cases heq : other = target
    · rw [heq, hself]
    · rw [hothers other heq] at hother
      exact absurd hother (hnone other)
  · by_cases heq : other = target
    · rw [heq, hself]
      exact heq ▸ hexited
    · rw [hothers other heq]
      exact hexited
  · by_cases heq : other = target
    · rw [heq, hself]
      simp
    · rw [hothers other heq] at hotherUsed hotherPid
      exact absurd (hconsistent.distinct other target hotherUsed hused hotherPid) heq

/-- Switching to a resumable task is sound, unless a signal terminates it on the way. -/
theorem sound_switchTo {current target : Index} {account : Slot → Slot} {copied : Bool}
    (hconsistent : Consistent scheduler) (halive : Alive scheduler)
    (hinitialized : scheduler.runqInitialized = true)
    (hcurrent : scheduler.currentSlot = some current)
    (htarget : scheduler.resumable scheduler.runningPid (scheduler.slots target) = true)
    (haccount : ∀ slot : Slot, slot.Same (account slot))
    (hsafe : (scheduler.slots target).pendingTerminates = false) (regs : Regs) :
    Sound scheduler (switchTo config scheduler current target regs account copied).2 := by
  obtain ⟨-, hpid, -⟩ := findSlotByPid_spec hcurrent
  unfold Scheduler.resumable at htarget
  simp only [Bool.and_eq_true, bne_iff_ne, beq_iff_eq] at htarget
  obtain ⟨⟨⟨⟨⟨htargetUsed, htargetPid⟩, htargetState⟩, -⟩, -⟩, -⟩ := htarget
  have hne : target ≠ current := by
    rintro rfl
    exact htargetPid hpid
  unfold switchTo
  dsimp only
  set change : Slot → Slot := fun slot ↦
    { account (slot.captured regs scheduler.runtimeGeneration) with state := .runnable }
  have hslots : (scheduler.modify current change).slots target = scheduler.slots target :=
    Function.update_of_ne hne _ _
  have haccounted := haccount ((scheduler.slots current).captured regs scheduler.runtimeGeneration)
  obtain ⟨hyielded, hnone⟩ := sound_yielded change hconsistent halive hcurrent
    haccounted.used haccounted.pid haccounted.exited fun _ ↦ rfl
  obtain ⟨hdelivered, hagrees, hfree⟩ := sound_handedOver config copied hyielded.consistent
    hinitialized (hslots ▸ hsafe)
  refine (hyielded.trans hdelivered).trans
    (sound_started hdelivered.consistent (fun other ↦ ?_) ?_ ?_ hfree)
  · rw [(hagrees.slot other).state]
    exact hnone other
  · rw [(hagrees.slot target).used, hslots, htargetUsed]
  · rw [(hagrees.slot target).state, hslots, htargetState]

end EynOS.Process.UserTask
