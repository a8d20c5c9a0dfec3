import EynOS.Process.UserTask

/-!
# The run queues of the task table

`Threaded` says that the run queues carry lists of used and runnable slots, with `in_runq` set
exactly for the listed ones, and that nothing is queued before the queues are set up. Every queue
operation keeps it, and changes nothing else that matters about a task: `Agrees` says what that is.
-/

namespace EynOS.Process.UserTask

open Foundation

/-! ### What queue operations leave alone -/

/-- A slot holds the same task in the same state, and a saved frame is not lost. -/
structure Slot.Same (old new : Slot) : Prop where
  used : new.used = old.used
  pid : new.pid = old.pid
  state : new.state = old.state
  exited : new.exited = old.exited
  entries : new.entries = old.entries
  frame : old.hasSyscallFrame = true → new.hasSyscallFrame = true

theorem Slot.Same.refl (slot : Slot) : slot.Same slot := ⟨rfl, rfl, rfl, rfl, rfl, id⟩

/-- Two schedulers have the same tasks in the same states. -/
structure Agrees (before after : Scheduler) : Prop where
  slot : ∀ index, (before.slots index).Same (after.slots index)
  runningPid : after.runningPid = before.runningPid
  nextPid : after.nextPid = before.nextPid

namespace Agrees

variable {before middle after : Scheduler}

theorem of_slots_eq (hslots : after.slots = before.slots)
    (hrunningPid : after.runningPid = before.runningPid)
    (hnextPid : after.nextPid = before.nextPid) :
    Agrees before after :=
  ⟨fun index ↦ by rw [hslots]; exact .refl _, hrunningPid, hnextPid⟩

theorem refl (scheduler : Scheduler) : Agrees scheduler scheduler := of_slots_eq rfl rfl rfl

/-- Agreement composes. -/
theorem trans (hfirst : Agrees before middle) (hsecond : Agrees middle after) :
    Agrees before after where
  slot index :=
    { used := (hsecond.slot index).used.trans (hfirst.slot index).used
      pid := (hsecond.slot index).pid.trans (hfirst.slot index).pid
      state := (hsecond.slot index).state.trans (hfirst.slot index).state
      exited := (hsecond.slot index).exited.trans (hfirst.slot index).exited
      entries := (hsecond.slot index).entries.trans (hfirst.slot index).entries
      frame := fun hframe ↦ (hsecond.slot index).frame ((hfirst.slot index).frame hframe) }
  runningPid := hsecond.runningPid.trans hfirst.runningPid
  nextPid := hsecond.nextPid.trans hfirst.nextPid

/-- A change of one slot that keeps its task. -/
theorem modify {index : Index} {change : Slot → Slot}
    (hchange : (before.slots index).Same (change (before.slots index))) :
    Agrees before (before.modify index change) := by
  refine ⟨fun other ↦ ?_, rfl, rfl⟩
  by_cases hother : other = index
  · subst hother
    simpa [Scheduler.modify] using hchange
  · simpa [Scheduler.modify, Function.update_of_ne hother] using Slot.Same.refl _

end Agrees

/-- The run queues carry lists of used and runnable slots once they are set up. -/
structure Threaded (scheduler : Scheduler) : Prop where
  lists : scheduler.runqInitialized = true → ∃ lists, scheduler.runq.Carries lists
  idle : scheduler.runqInitialized = false → ∀ index, scheduler.runq.queued index = false
  runnable : ∀ index, scheduler.runq.queued index = true →
    (scheduler.slots index).used = true ∧ (scheduler.slots index).state = .runnable

variable (config : Config) {scheduler before after : Scheduler} {index : Index}

namespace Threaded

/-- Changes that keep the tasks and do not touch the queues keep them threaded. -/
theorem of_agrees (hthreaded : Threaded before) (hagrees : Agrees before after)
    (hrunq : after.runq = before.runq)
    (hinitialized : after.runqInitialized = before.runqInitialized) : Threaded after where
  lists := by
    rw [hrunq, hinitialized]
    exact hthreaded.lists
  idle := by
    rw [hrunq, hinitialized]
    exact hthreaded.idle
  runnable other hother := by
    rw [hrunq] at hother
    rw [(hagrees.slot other).used, (hagrees.slot other).state]
    exact hthreaded.runnable other hother

/-- Changing one slot keeps the queues threaded where it is not queued, or still runnable. -/
theorem modify {change : Slot → Slot} (hthreaded : Threaded scheduler)
    (hindex : scheduler.runq.queued index = true →
      (change (scheduler.slots index)).used = true ∧
        (change (scheduler.slots index)).state = .runnable) :
    Threaded (scheduler.modify index change) where
  lists := hthreaded.lists
  idle := hthreaded.idle
  runnable other hother := by
    by_cases heq : other = index
    · subst heq
      simpa [Scheduler.modify] using hindex hother
    · simpa [Scheduler.modify, Function.update_of_ne heq] using hthreaded.runnable other hother

theorem queued_eq_false (hthreaded : Threaded scheduler)
    (hstate : (scheduler.slots index).state ≠ .runnable) : scheduler.runq.queued index = false := by
  by_contra hqueued
  exact hstate (hthreaded.runnable index (Bool.eq_true_of_not_eq_false hqueued)).2

theorem queued_eq_false_of_unused (hthreaded : Threaded scheduler)
    (hused : (scheduler.slots index).used = false) : scheduler.runq.queued index = false := by
  by_contra hqueued
  rw [(hthreaded.runnable index (Bool.eq_true_of_not_eq_false hqueued)).1] at hused
  exact Bool.noConfusion hused

end Threaded

/-! ### Setting up the queues -/

theorem runqBootstrap_eq (hinitialized : scheduler.runqInitialized = true) :
    runqBootstrap config scheduler = scheduler := if_pos hinitialized

/-- The queues are set up. -/
theorem runqBootstrap_initialized :
    (runqBootstrap config scheduler).runqInitialized = true := by
  unfold runqBootstrap
  split_ifs with hinitialized
  · exact hinitialized
  · rfl

/-- Raising a slot to the highest level keeps its task. -/
theorem Slot.same_boosted (slot : Slot) : slot.Same (slot.boosted config) :=
  ⟨rfl, rfl, rfl, rfl, rfl, id⟩

theorem Slot.same_refilled (slot : Slot) : slot.Same (slot.refilled config) :=
  ⟨rfl, rfl, rfl, rfl, rfl, id⟩

theorem Slot.same_accountPreempt (slot : Slot) : slot.Same (slot.accountPreempt config) := by
  unfold Slot.accountPreempt
  dsimp only
  split_ifs <;> exact ⟨rfl, rfl, rfl, rfl, rfl, id⟩

/-- Setting up the queues keeps the tasks. -/
theorem agrees_runqBootstrap (scheduler : Scheduler) :
    Agrees scheduler (runqBootstrap config scheduler) := by
  unfold runqBootstrap
  split_ifs
  · exact .refl scheduler
  · refine ⟨fun index ↦ ?_, rfl, rfl⟩
    dsimp only
    split_ifs
    · exact Slot.same_boosted config _
    · exact .refl _

/-- Queues without entries are threaded. -/
theorem threaded_clear (hclear : scheduler.runq = .clear) : Threaded scheduler := by
  have hqueued (index : Index) : scheduler.runq.queued index = false := by rw [hclear]; rfl
  refine ⟨fun _ ↦ ⟨fun _ ↦ [], ?_⟩, fun _ ↦ hqueued, fun index hindex ↦ ?_⟩
  · rw [hclear]
    exact ThreadedQueues.carries_clear
  · rw [hqueued index] at hindex
    exact absurd hindex Bool.false_ne_true

theorem Threaded.runqBootstrap (hthreaded : Threaded scheduler) :
    Threaded (runqBootstrap config scheduler) := by
  unfold UserTask.runqBootstrap
  split_ifs
  · exact hthreaded
  · exact threaded_clear rfl

/-! ### Enqueueing and removing -/

theorem agrees_runqEnqueue (scheduler : Scheduler) (index : Index) :
    Agrees scheduler (runqEnqueue config scheduler index) := by
  unfold runqEnqueue
  split_ifs
  · exact .refl scheduler
  · exact (agrees_runqBootstrap config _).trans (.of_slots_eq rfl rfl rfl)

/-- Enqueueing leaves the slots alone once the queues are set up. -/
theorem runqEnqueue_slots (hinitialized : scheduler.runqInitialized = true) :
    (runqEnqueue config scheduler index).slots = scheduler.slots := by
  unfold runqEnqueue
  rw [runqBootstrap_eq config hinitialized]
  split_ifs <;> rfl

/-- Queues that are set up stay so. -/
theorem runqEnqueue_initialized (hinitialized : scheduler.runqInitialized = true) :
    (runqEnqueue config scheduler index).runqInitialized = true := by
  unfold runqEnqueue
  rw [runqBootstrap_eq config hinitialized]
  split_ifs <;> exact hinitialized

theorem Threaded.runqEnqueue (hthreaded : Threaded scheduler) :
    Threaded (runqEnqueue config scheduler index) := by
  unfold UserTask.runqEnqueue
  split_ifs with hindex
  · exact hthreaded
  · rw [not_or, not_not, not_not] at hindex
    have hready := hthreaded.runqBootstrap config
    have hsame := (agrees_runqBootstrap config scheduler).slot index
    cases hqueued : (UserTask.runqBootstrap config scheduler).runq.queued index with
    | true =>
      -- the slot is queued already
      refine hready.of_agrees (.of_slots_eq rfl rfl rfl) ?_ rfl
      unfold ThreadedQueues.enqueue
      exact if_pos hqueued
    | false =>
      refine ⟨fun hinitialized ↦ ?_, fun hinitialized ↦ ?_, fun other hother ↦ ?_⟩
      · obtain ⟨lists, hlists⟩ := hready.lists hinitialized
        exact ⟨_, hlists.enqueue hqueued⟩
      · exact absurd hinitialized (by simp [runqBootstrap_initialized])
      · dsimp only at hother
        rw [ThreadedQueues.enqueue_queued] at hother
        split_ifs at hother with heq
        · subst heq
          rw [hsame.used, hsame.state]
          exact hindex
        · exact hready.runnable other hother

theorem Threaded.runqRemove_eq (hthreaded : Threaded scheduler) (index : Index) :
    runqRemove config scheduler index =
      { scheduler with runq := scheduler.runq.remove userTaskMax [0, 1, 2] index } := by
  unfold runqRemove
  split_ifs with hqueued
  · rw [runqBootstrap_eq]
    by_contra hinitialized
    rw [hthreaded.idle (Bool.eq_false_of_not_eq_true hinitialized) index] at hqueued
    exact Bool.false_ne_true hqueued
  · unfold ThreadedQueues.remove
    rw [if_neg hqueued]

theorem agrees_runqRemove (scheduler : Scheduler) (index : Index) :
    Agrees scheduler (runqRemove config scheduler index) := by
  unfold runqRemove
  split_ifs
  · exact (agrees_runqBootstrap config _).trans (.of_slots_eq rfl rfl rfl)
  · exact .refl scheduler

/-- Removing an entry keeps queues threaded, and the entry is not queued any more. -/
theorem Threaded.runqRemove (hthreaded : Threaded scheduler) (index : Index) :
    Threaded (runqRemove config scheduler index) ∧
      (runqRemove config scheduler index).runq.queued index = false := by
  rw [hthreaded.runqRemove_eq]
  refine ⟨⟨fun hinitialized ↦ ?_, fun hinitialized other ↦ ?_, fun other hother ↦ ?_⟩, ?_⟩
  · obtain ⟨lists, hlists⟩ := hthreaded.lists hinitialized
    refine ⟨_, hlists.remove (by decide) fun level ↦ ?_⟩
    simpa using hlists.length_le level
  · dsimp only
    rw [ThreadedQueues.remove_queued]
    split_ifs
    · rfl
    · exact hthreaded.idle hinitialized other
  · dsimp only at hother
    rw [ThreadedQueues.remove_queued] at hother
    split_ifs at hother
    exact hthreaded.runnable other hother
  · dsimp only
    rw [ThreadedQueues.remove_queued, if_pos rfl]

/-! ### Popping and rebuilding -/

/-- Popping keeps the tasks. -/
theorem agrees_runqPopHighest (scheduler : Scheduler) :
    Agrees scheduler (runqPopHighest config scheduler).2 := by
  unfold runqPopHighest
  dsimp only
  cases (runqBootstrap config scheduler).runq.popFrom [2, 1, 0] with
  | none => exact agrees_runqBootstrap config _
  | some popped => exact (agrees_runqBootstrap config _).trans (.of_slots_eq rfl rfl rfl)

/-- Popping keeps queues threaded. What is popped was queued and is not queued any more. -/
theorem Threaded.runqPopHighest (hthreaded : Threaded scheduler) :
    Threaded (runqPopHighest config scheduler).2 ∧
      ∀ index, (runqPopHighest config scheduler).1 = some index →
        (runqPopHighest config scheduler).2.runq.queued index = false ∧
          (scheduler.slots index).used = true ∧ (scheduler.slots index).state = .runnable := by
  have hready := hthreaded.runqBootstrap config
  have hagrees := agrees_runqBootstrap config scheduler
  unfold UserTask.runqPopHighest
  dsimp only
  cases hpop : (UserTask.runqBootstrap config scheduler).runq.popFrom [2, 1, 0] with
  | none => exact ⟨hready, fun _ hindex ↦ absurd hindex (Option.some_ne_none _).symm⟩
  | some popped =>
    obtain ⟨index, runq⟩ := popped
    obtain ⟨lists, hlists⟩ := hready.lists (runqBootstrap_initialized config)
    obtain ⟨level, rest, _, hlist, hrest⟩ := hlists.popFrom hpop
    have hqueued := (hlists.queued index).mpr ⟨level, by simp [hlist]⟩
    refine ⟨⟨fun _ ↦ ⟨_, hrest⟩, fun hinitialized ↦ ?_, fun other hother ↦ ?_⟩, ?_⟩
    · exact absurd hinitialized (by simp [runqBootstrap_initialized])
    · dsimp only at hother
      rw [ThreadedQueues.popFrom_queued hpop] at hother
      split_ifs at hother
      exact hready.runnable other hother
    · rintro _ ⟨rfl⟩
      refine ⟨?_, ?_⟩
      · dsimp only
        rw [ThreadedQueues.popFrom_queued hpop, if_pos rfl]
      · rw [← (hagrees.slot index).used, ← (hagrees.slot index).state]
        exact hready.runnable index hqueued

/-- Rebuilding keeps the tasks and leaves the queues threaded, whatever they were. -/
theorem runqRebuild_threaded (scheduler : Scheduler) :
    Threaded (runqRebuild config scheduler) ∧
    Agrees scheduler (runqRebuild config scheduler) ∧
      (runqRebuild config scheduler).runqInitialized = true := by
  unfold runqRebuild
  refine List.foldlRecOn (List.finRange userTaskMax) (runqEnqueue config) (motive := fun rebuilt ↦
    Threaded rebuilt ∧ Agrees scheduler rebuilt ∧ rebuilt.runqInitialized = true) ?_ ?_
  · exact ⟨threaded_clear rfl, (agrees_runqBootstrap config _).trans (.of_slots_eq rfl rfl rfl),
      runqBootstrap_initialized config⟩
  · rintro rebuilt ⟨hthreaded, hagrees, hinitialized⟩ index -
    exact ⟨hthreaded.runqEnqueue config, hagrees.trans (agrees_runqEnqueue config _ _),
      runqEnqueue_initialized config hinitialized⟩

/-- Raising slots keeps the tasks. -/
theorem agrees_boostSlots (scheduler : Scheduler) :
    Agrees scheduler (boostSlots config scheduler) := by
  refine ⟨fun index ↦ ?_, rfl, rfl⟩
  unfold boostSlots
  dsimp only
  split_ifs
  · exact Slot.same_boosted config _
  · exact .refl _

theorem agrees_mlfqBoostIfDue (scheduler : Scheduler) :
    Agrees scheduler (mlfqBoostIfDue config scheduler) := by
  unfold mlfqBoostIfDue
  dsimp only
  split_ifs
  · exact agrees_runqBootstrap config _
  · exact agrees_runqBootstrap config _
  · have hrebuilt := (runqRebuild_threaded config
      (boostSlots config (runqBootstrap config scheduler))).2.1
    exact ((agrees_runqBootstrap config scheduler).trans (agrees_boostSlots config _)).trans
      (hrebuilt.trans (.of_slots_eq rfl rfl rfl))

/-- A boost keeps the queues threaded, and they are set up after it. -/
theorem Threaded.mlfqBoostIfDue (hthreaded : Threaded scheduler) :
    Threaded (mlfqBoostIfDue config scheduler) ∧
      (mlfqBoostIfDue config scheduler).runqInitialized = true := by
  have hready := hthreaded.runqBootstrap config
  unfold UserTask.mlfqBoostIfDue
  dsimp only
  split_ifs
  · exact ⟨hready, runqBootstrap_initialized config⟩
  · exact ⟨hready, runqBootstrap_initialized config⟩
  · obtain ⟨hrebuilt, -, hinitialized⟩ := runqRebuild_threaded config
      (boostSlots config (UserTask.runqBootstrap config scheduler))
    exact ⟨hrebuilt.of_agrees (.of_slots_eq rfl rfl rfl) rfl rfl, hinitialized⟩

/-! ### Choosing what to launch -/

/-- Popping until a slot is runnable keeps the tasks. -/
theorem agrees_pickNext (bound : ℕ) (scheduler : Scheduler) :
    Agrees scheduler (pickNext config bound scheduler).2 := by
  induction bound generalizing scheduler with
  | zero => exact .refl scheduler
  | succ bound ih =>
    have hpopped := agrees_runqPopHighest config scheduler
    unfold pickNext
    rcases hpop : runqPopHighest config scheduler with ⟨_ | index, popped⟩
    · rw [hpop] at hpopped
      exact hpopped
    · rw [hpop] at hpopped
      dsimp only
      split_ifs
      · exact hpopped.trans (ih popped)
      · exact hpopped.trans (.modify (Slot.same_refilled config _))

theorem pickNext_runnable {bound : ℕ} (hpick : (pickNext config bound scheduler).1 = some index) :
    ((pickNext config bound scheduler).2.slots index).used = true ∧
      ((pickNext config bound scheduler).2.slots index).state = .runnable := by
  induction bound generalizing scheduler with
  | zero => exact absurd hpick (Option.some_ne_none _).symm
  | succ bound ih =>
    unfold pickNext at hpick ⊢
    rcases hpop : runqPopHighest config scheduler with ⟨_ | popped, reached⟩
    · rw [hpop] at hpick
      exact absurd hpick (Option.some_ne_none _).symm
    · rw [hpop] at hpick
      dsimp only at hpick ⊢
      by_cases hskip : ¬(reached.slots popped).used = true ∨
          (reached.slots popped).state ≠ .runnable
      · rw [if_pos hskip] at hpick ⊢
        exact ih hpick
      · rw [if_neg hskip] at hpick ⊢
        obtain rfl : popped = index := Option.some.inj hpick
        rw [not_or, not_not, not_not] at hskip
        simpa [Scheduler.modify, Slot.refilled] using hskip

theorem agrees_nextToLaunch (scheduler : Scheduler) :
    Agrees scheduler (nextToLaunch config scheduler).2 :=
  (agrees_mlfqBoostIfDue config scheduler).trans (agrees_pickNext config _ _)

theorem nextToLaunch_runnable (scheduler : Scheduler) (index : Index)
    (hpick : (nextToLaunch config scheduler).1 = some index) :
    ((nextToLaunch config scheduler).2.slots index).used = true ∧
      ((nextToLaunch config scheduler).2.slots index).state = .runnable :=
  pickNext_runnable config hpick

/-- The first slot that is popped is used and runnable, so the loop of
`user_task_continue_or_schedule` ends there. -/
theorem Threaded.nextToLaunch (hthreaded : Threaded scheduler) :
    Threaded (nextToLaunch config scheduler).2 ∧
      ∀ index, (nextToLaunch config scheduler).1 = some index →
        (nextToLaunch config scheduler).2.runq.queued index = false ∧
          (scheduler.slots index).used = true ∧ (scheduler.slots index).state = .runnable := by
  have hboost := (hthreaded.mlfqBoostIfDue config).1
  have hagrees := agrees_mlfqBoostIfDue config scheduler
  obtain ⟨hpopped, hindex⟩ := hboost.runqPopHighest config
  have hpoppedAgrees := hagrees.trans (agrees_runqPopHighest config _)
  unfold UserTask.nextToLaunch pickNext
  rcases hpop : UserTask.runqPopHighest config (UserTask.mlfqBoostIfDue config scheduler) with
    ⟨_ | index, popped⟩
  · rw [hpop] at hpopped
    exact ⟨hpopped, fun _ hnone ↦ absurd hnone (Option.some_ne_none _).symm⟩
  · rw [hpop] at hpopped hpoppedAgrees hindex
    obtain ⟨hqueued, hused, hstate⟩ := hindex index rfl
    have hsame := hpoppedAgrees.slot index
    rw [(hagrees.slot index).used] at hused
    rw [(hagrees.slot index).state] at hstate
    dsimp only
    rw [if_neg (by rw [hsame.used, hsame.state, hused, hstate]; simp)]
    refine ⟨hpopped.modify fun hcontra ↦ ?_, ?_⟩
    · rw [hqueued] at hcontra
      exact absurd hcontra Bool.false_ne_true
    · rintro _ ⟨rfl⟩
      exact ⟨hqueued, hused, hstate⟩

end EynOS.Process.UserTask
