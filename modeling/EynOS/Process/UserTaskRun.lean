import EynOS.Process.UserTaskTable
import Mathlib.Data.Fintype.Prod

/-!
# Runs of the user-task table

`not_table_invariant` is a run that breaks the invariant of the task table: a parent that polls a
queued child with `waitpid` launches it while it runs itself. `table_invariant` is what holds: the
invariant in every run in which a task is only launched while none runs, no switch delivers a signal
that terminates its target, and no pid is given out a second time while it is live.
-/

namespace EynOS.Process.UserTask

open Foundation

/-! ### When events keep the table consistent -/

/-- An event does none of three things: give a new task the pid of a live one, launch a task while
another runs, or switch to a task whose pending signal terminates it. -/
structure Permitted (config : Config) (scheduler : Scheduler) (event : Event) : Prop where
  fresh : event.spawnsIn scheduler = true → ∀ index, (scheduler.slots index).used = true →
    (scheduler.slots index).pid ≠ scheduler.nextPid
  idle : ∀ called ∈ event.schedules config scheduler, called.2.enters = true →
    (nextToLaunch config called.1).1.isSome = true →
      ∀ index, (called.1.slots index).state ≠ .running
  survives : ∀ pair ∈ (event.switches config scheduler).1,
    ((event.switches config scheduler).2.slots pair.2).pendingTerminates = false

instance (config : Config) (scheduler : Scheduler) (event : Event) :
    Decidable (Permitted config scheduler event) :=
  decidable_of_iff
    ((event.spawnsIn scheduler = true → ∀ index, (scheduler.slots index).used = true →
        (scheduler.slots index).pid ≠ scheduler.nextPid) ∧
      (∀ called ∈ event.schedules config scheduler, called.2.enters = true →
        (nextToLaunch config called.1).1.isSome = true →
          ∀ index, (called.1.slots index).state ≠ .running) ∧
      ∀ pair ∈ (event.switches config scheduler).1,
        ((event.switches config scheduler).2.slots pair.2).pendingTerminates = false)
    ⟨fun ⟨hfresh, hidle, hsurvives⟩ ↦ ⟨hfresh, hidle, hsurvives⟩,
      fun ⟨hfresh, hidle, hsurvives⟩ ↦ ⟨hfresh, hidle, hsurvives⟩⟩

def Reaps (scheduler : Scheduler) (event : Event) (index : Index) : Prop :=
  ∃ pid nohang load, event = .waitpidLoop pid nohang load ∧
    scheduler.findSlotByPid pid = some index

variable (config : Config) {scheduler : Scheduler} {event : Event}

/-- What an event does to a consistent table. -/
structure Advances (before : Scheduler) (event : Event) (after : Scheduler) : Prop where
  consistent : Consistent after
  alive : Alive after
  persists : ∀ index, (before.slots index).exited = true →
    (after.slots index).exited = true ∨ Reaps before event index

theorem Sound.advances {before after : Scheduler} (hsound : Sound before after)
    (halive : Alive before) : Advances before event after :=
  ⟨hsound.consistent, hsound.alive halive, fun index hexited ↦
    Or.inl (hsound.persists index hexited)⟩

/-- Clearing the mapping of the active task is sound. -/
theorem sound_aborted (hconsistent : Consistent scheduler) :
    Sound scheduler scheduler.aborted := by
  unfold Scheduler.aborted Scheduler.setCurrentMappingState
  cases scheduler.activeSlot with
  | none => exact .of_eq hconsistent rfl rfl rfl rfl rfl
  | some index =>
    have hcleared := Sound.modify_same hconsistent index
      (fun slot ↦ { slot with runtime := ⟨0, 0, 0⟩ }) ⟨rfl, rfl, rfl, rfl, rfl, id⟩
    exact hcleared.trans (.of_eq hcleared.consistent rfl rfl rfl rfl rfl)

/-- What `user_task_try_resume_from_syscall` and `user_task_try_preempt_from_irq` have found when
they switch between two tasks. -/
def Chosen (reached : Scheduler) : Option (Index × Index) → Prop
  | none => True
  | some (current, target) =>
    reached.runqInitialized = true ∧ reached.currentSlot = some current ∧
      reached.resumable reached.runningPid (reached.slots target) = true

section

variable (hconsistent : Consistent scheduler)

include hconsistent

/-- Choosing a task to resume is sound. -/
theorem resumeSwitch_spec :
    Sound scheduler (resumeSwitch config scheduler).2 ∧
      Chosen (resumeSwitch config scheduler).2 (resumeSwitch config scheduler).1 := by
  obtain ⟨hthreaded, hinitialized⟩ := hconsistent.toThreaded.mlfqBoostIfDue config
  have hboosted :=
    Sound.of_agrees hconsistent (agrees_mlfqBoostIfDue config scheduler) hthreaded
  unfold resumeSwitch
  split_ifs
  · exact ⟨.refl hconsistent, trivial⟩
  · dsimp only
    cases hcurrent : (mlfqBoostIfDue config scheduler).currentSlot with
    | none => exact ⟨hboosted, trivial⟩
    | some current =>
      cases htarget : (mlfqBoostIfDue config scheduler).resumeTarget
          (mlfqBoostIfDue config scheduler).runningPid with
      | none => exact ⟨hboosted, trivial⟩
      | some target => exact ⟨hboosted, hinitialized, hcurrent, resumeTarget_spec htarget⟩

/-- Choosing a task to preempt with is sound. -/
theorem preemptSwitch_spec (regs : Regs) :
    Sound scheduler (preemptSwitch config scheduler regs).2 ∧
      Chosen (preemptSwitch config scheduler regs).2 (preemptSwitch config scheduler regs).1 := by
  obtain ⟨hthreaded, hinitialized⟩ := hconsistent.toThreaded.mlfqBoostIfDue config
  have hboosted :=
    Sound.of_agrees hconsistent (agrees_mlfqBoostIfDue config scheduler) hthreaded
  unfold preemptSwitch
  split_ifs with hoff
  · exact ⟨.refl hconsistent, trivial⟩
  dsimp only
  cases hcurrent : (mlfqBoostIfDue config scheduler).currentSlot with
  | none => exact ⟨hboosted, trivial⟩
  | some current =>
    dsimp only
    set boosted := mlfqBoostIfDue config scheduler
    have haccounted : Sound boosted (boosted.modify current (Slot.accountPreempt config)) :=
      .modify_same hboosted.consistent current _ (Slot.same_accountPreempt config _)
    have hidentifies : Identifies boosted (boosted.modify current (Slot.accountPreempt config)) :=
      .of_agrees (.modify (Slot.same_accountPreempt config _))
    set accounted := boosted.modify current (Slot.accountPreempt config)
    have hreached : ∀ reached : Scheduler, reached = accounted.requestSchedule ∨
        reached = accounted →
          Sound scheduler reached ∧ reached.runqInitialized = true ∧
            reached.currentSlot = some current := by
      have hfound : accounted.currentSlot = some current := by
        rw [← hcurrent]
        unfold Scheduler.currentSlot Scheduler.findSlotByPid
        simp only [hidentifies.used, hidentifies.pid, hidentifies.runningPid]
      have hsound := hboosted.trans haccounted
      rintro reached (rfl | rfl)
      · exact ⟨hsound.trans (.of_eq hsound.consistent rfl rfl rfl rfl rfl), hinitialized, hfound⟩
      · exact ⟨hsound, hinitialized, hfound⟩
    set reached := if (boosted.slots current).mlfqSliceLeft = 1 then accounted.requestSchedule
      else accounted with hdef
    obtain ⟨hsound, hready, hfound⟩ := hreached reached (by
      rw [hdef]
      split_ifs
      · exact Or.inl rfl
      · exact Or.inr rfl)
    split_ifs
    · exact ⟨hsound, trivial⟩
    · cases htarget : reached.resumeTarget reached.runningPid with
      | none => exact ⟨hsound, trivial⟩
      | some target => exact ⟨hsound, hready, hfound, resumeTarget_spec htarget⟩

/-- A switch after a syscall is sound where the target survives it. -/
theorem sound_tryResumeFromSyscall (halive : Alive scheduler)
    (hsurvives : ∀ pair ∈ (resumeSwitch config scheduler).1,
      ((resumeSwitch config scheduler).2.slots pair.2).pendingTerminates = false)
    (regs : Regs) (copied : Bool) :
    Sound scheduler (tryResumeFromSyscall config scheduler regs copied).2 := by
  obtain ⟨hsound, hchosen⟩ := resumeSwitch_spec config hconsistent
  unfold tryResumeFromSyscall
  rcases hswitch : resumeSwitch config scheduler with ⟨_ | ⟨current, target⟩, reached⟩
  · rw [hswitch] at hsound
    exact hsound
  · rw [hswitch] at hsound hchosen hsurvives
    obtain ⟨hinitialized, hcurrent, htarget⟩ := hchosen
    exact hsound.trans (sound_switchTo config hsound.consistent (hsound.alive halive) hinitialized
      hcurrent htarget (Slot.same_accountPreempt config) (hsurvives (current, target) rfl) regs)

/-- A preemption is sound where the target survives it. -/
theorem sound_tryPreemptFromIrq (halive : Alive scheduler)
    (regs : Regs)
    (hsurvives : ∀ pair ∈ (preemptSwitch config scheduler regs).1,
      ((preemptSwitch config scheduler regs).2.slots pair.2).pendingTerminates = false)
    (copied : Bool) :
    Sound scheduler (tryPreemptFromIrq config scheduler regs copied).2 := by
  obtain ⟨hsound, hchosen⟩ := preemptSwitch_spec config hconsistent regs
  unfold tryPreemptFromIrq
  rcases hswitch : preemptSwitch config scheduler regs with ⟨_ | ⟨current, target⟩, reached⟩
  · rw [hswitch] at hsound
    exact hsound
  · rw [hswitch] at hsound hchosen hsurvives
    obtain ⟨hinitialized, hcurrent, htarget⟩ := hchosen
    exact hsound.trans (sound_switchTo config hsound.consistent (hsound.alive halive) hinitialized
      hcurrent htarget .refl (hsurvives (current, target) rfl) _)

/-- Spawning a task under a fresh pid is sound, where it is not launched while another runs. -/
theorem sound_spawnArgv {image : Option Image} {load : Load}
    (hpermitted : Permitted config scheduler (.spawn image load)) :
    Sound scheduler (spawnArgv config scheduler image load) := by
  obtain ⟨hfresh, hidle, -⟩ := hpermitted
  unfold spawnArgv
  cases halloc : scheduler.allocSlot with
  | none => exact .refl hconsistent
  | some index =>
    cases image with
    | none => exact .refl hconsistent
    | some image =>
      have hspawned := sound_spawnInto config hconsistent (allocSlot_spec halloc)
        (hfresh (by simp [Event.spawnsIn, halloc])) image
      have hactive : (spawnInto config scheduler index image).active = scheduler.active := by
        unfold spawnInto runqEnqueue runqBootstrap
        dsimp only
        split_ifs <;> rfl
      dsimp only
      rw [hactive]
      cases hidleNow : scheduler.active with
      | true => exact hspawned.trans (.of_eq hspawned.consistent rfl rfl rfl rfl rfl)
      | false =>
        exact hspawned.trans (sound_continueOrSchedule config load hspawned.consistent
          (hidle (spawnInto config scheduler index image, load)
            (by simp [Event.schedules, halloc, hidleNow])))

/-- Polling the scheduler is sound, where no task is launched while another runs. -/
theorem sound_pollScheduler {load : Load}
    (hpermitted : Permitted config scheduler (.poll load)) :
    Sound scheduler (pollScheduler config scheduler load) := by
  unfold pollScheduler
  cases hrequest : scheduler.scheduleRequest with
  | false => exact .refl hconsistent
  | true =>
    cases hactive : scheduler.active with
    | true => exact .refl hconsistent
    | false =>
      have hlaunched := sound_continueOrSchedule config load hconsistent
        (hpermitted.idle (scheduler, load) (by simp [Event.schedules, hrequest, hactive]))
      rcases hcontinue : continueOrSchedule config scheduler load with ⟨_ | _, reached⟩
      · rw [hcontinue] at hlaunched
        exact hlaunched.trans (.of_eq hlaunched.consistent rfl rfl rfl rfl rfl)
      · rw [hcontinue] at hlaunched
        exact hlaunched

/-- A pass through the waiting loop advances the table, where no task is launched while another
runs. -/
theorem waitpidLoop_advances {pid : ℤ} {nohang : Bool} {load : Load}
    (halive : Alive scheduler)
    (hpermitted : Permitted config scheduler (.waitpidLoop pid nohang load)) :
    Advances scheduler (.waitpidLoop pid nohang load)
      (waitpidLoop config scheduler pid nohang load) := by
  unfold waitpidLoop
  cases hfind : scheduler.findSlotByPid pid with
  | none => exact (Sound.refl hconsistent).advances halive
  | some index =>
    dsimp only
    by_cases hzombie : (scheduler.slots index).state = .zombie
    · rw [if_pos hzombie]
      obtain ⟨hreaped, hreapedAlive, hpersists⟩ := sound_reap config hconsistent index
      refine ⟨hreaped, hreapedAlive halive, fun other hexited ↦ ?_⟩
      by_cases hother : other = index
      · exact Or.inr ⟨pid, nohang, load, rfl, by rw [hother, hfind]⟩
      · exact Or.inl (hpersists other hother hexited)
    · rw [if_neg hzombie]
      have hlaunched := sound_continueOrSchedule config load hconsistent
        (hpermitted.idle (scheduler, load) (by simp [Event.schedules, hfind, hzombie]))
      rcases hcontinue : continueOrSchedule config scheduler load with ⟨_ | _, reached⟩
      · rw [hcontinue] at hlaunched
        dsimp only
        split_ifs
        · exact (hlaunched.trans (sound_unblockCurrent hlaunched.consistent)).advances halive
        · exact hlaunched.advances halive
      · rw [hcontinue] at hlaunched
        exact hlaunched.advances halive

/-- A permitted event keeps the table consistent, and only reaping ends a zombie. -/
theorem step_advances (halive : Alive scheduler)
    (hpermitted : Permitted config scheduler event) :
    Advances scheduler event (step config scheduler event) := by
  obtain ⟨hfresh, hidle, hsurvives⟩ := hpermitted
  cases event with
  | tick =>
    have hticked : Sound scheduler { scheduler with now := u32 (scheduler.now + 1) } :=
      .of_eq hconsistent rfl rfl rfl rfl rfl
    exact (hticked.trans (sound_schedulerTick config hticked.consistent)).advances halive
  | schedulerTick => exact (sound_schedulerTick config hconsistent).advances halive
  | spawn image load =>
    exact (sound_spawnArgv config hconsistent ⟨hfresh, hidle, hsurvives⟩).advances halive
  | poll load =>
    exact (sound_pollScheduler config hconsistent ⟨hfresh, hidle, hsurvives⟩).advances halive
  | abortContinue load =>
    have haborted := sound_aborted hconsistent
    have hlaunched := sound_continueOrSchedule config load haborted.consistent
      (hidle _ rfl)
    exact (haborted.trans hlaunched).advances halive
  | captureSyscallFrame regs =>
    have hsound : Sound scheduler (captureSyscallFrame scheduler regs) :=
      sound_modifyCurrent_same hconsistent fun _ ↦ ⟨rfl, rfl, rfl, rfl, rfl, fun _ ↦ rfl⟩
    exact hsound.advances halive
  | tryResume regs copied =>
    exact (sound_tryResumeFromSyscall config hconsistent halive hsurvives regs copied).advances
      halive
  | tryPreempt regs copied =>
    exact (sound_tryPreemptFromIrq config hconsistent halive regs hsurvives copied).advances halive
  | blockSleep wakeTick =>
    exact (sound_blockCurrent config hconsistent halive _ _ _ _).advances halive
  | blockGuiWait guiHandle =>
    exact (sound_blockCurrent config hconsistent halive _ _ _ _).advances halive
  | unblock => exact (sound_unblockCurrent hconsistent).advances halive
  | wakeGui guiHandle => exact (sound_wakeWaiters config _ hconsistent).1.advances halive
  | queueSignal pid sig => exact (sound_queueSignal config hconsistent pid sig).advances halive
  | setHandler sig handler =>
    have hsound : Sound scheduler (setHandlerCurrent scheduler sig handler) := by
      unfold setHandlerCurrent
      split_ifs
      · exact .refl hconsistent
      · exact sound_modifyCurrent_same hconsistent fun _ ↦ ⟨rfl, rfl, rfl, rfl, rfl, id⟩
    exact hsound.advances halive
  | sigreturn =>
    have hsound : Sound scheduler (sigreturnCurrent scheduler).2 := by
      unfold sigreturnCurrent
      cases scheduler.currentSlot with
      | none => exact .refl hconsistent
      | some index =>
        dsimp only
        split_ifs
        · exact .modify_same hconsistent index (fun slot ↦ { slot with sigSavedPresent := false })
            ⟨rfl, rfl, rfl, rfl, rfl, id⟩
        · exact .refl hconsistent
    exact hsound.advances halive
  | exit status => exact (sound_notifyExit config hconsistent status).advances halive
  | waitpidEnter pid nohang =>
    have hsound : Sound scheduler (waitpidEnter config scheduler pid nohang) := by
      unfold waitpidEnter
      cases scheduler.findSlotByPid pid with
      | none => exact .refl hconsistent
      | some index =>
        dsimp only
        split_ifs
        · exact sound_blockCurrent config hconsistent halive _ _ _ _
        · exact .refl hconsistent
    exact hsound.advances halive
  | waitpidLoop pid nohang load =>
    exact waitpidLoop_advances config hconsistent halive ⟨hfresh, hidle, hsurvives⟩

end

/-! ### Runs -/

/-- The table is consistent and its running task alive. -/
def Healthy (scheduler : Scheduler) : Prop := Consistent scheduler ∧ Alive scheduler

theorem consistent_boot : Consistent .boot where
  lists hinitialized := absurd hinitialized Bool.false_ne_true
  idle _ _ := rfl
  runnable _ hqueued := absurd hqueued Bool.false_ne_true
  running _ hrunning := absurd hrunning (by simp [Scheduler.boot, Slot.zero])
  occupied _ hstate := absurd rfl hstate
  positive _ hused := absurd hused Bool.false_ne_true
  distinct _ _ hused := absurd hused Bool.false_ne_true
  exited _ := iff_of_false Bool.false_ne_true (by simp [Scheduler.boot, Slot.zero])
  nextPid := one_pos

/-- In every run of permitted events the table keeps its invariant, and a zombie is one until
`waitpid` reaps it. -/
theorem table_invariant {events : List Event}
    (hrun : Run (Guarded (Permitted config) (Moves (step config))) .boot events scheduler) :
    TableInvariant scheduler ∧
      ∀ event, Permitted config scheduler event → ∀ index,
        (scheduler.slots index).state = .zombie →
          ((step config scheduler event).slots index).state = .zombie ∨
            Reaps scheduler event index := by
  have hstep : ∀ before event after, Healthy before → Permitted config before event →
      Moves (step config) before event after → Healthy after := by
    rintro before event after ⟨hconsistent, halive⟩ hpermitted hmove
    rw [← show step config before event = after from hmove]
    have hadvances := step_advances config hconsistent halive hpermitted
    exact ⟨hadvances.consistent, hadvances.alive⟩
  have hreached : Healthy scheduler :=
    hrun.guarded_invariant hstep ⟨consistent_boot, consistent_boot.alive_of_idle rfl⟩
  obtain ⟨hconsistent, halive⟩ := hreached
  refine ⟨hconsistent.tableInvariant, fun event hpermitted index hzombie ↦ ?_⟩
  have hadvances := step_advances config hconsistent halive hpermitted
  exact (hadvances.persists index ((hconsistent.exited index).mpr hzombie)).imp_left
    (hadvances.consistent.exited index).mp

/-- A parent spawns a child, waits for it, and is launched again when the child has exited. -/
def waitingEvents : List Event :=
  [.spawn (some shellImage) entersShell, .captureSyscallFrame {},
    .spawn (some shellImage) entersShell,
    .waitpidEnter 2 false, .waitpidLoop 2 false entersShell, .exit 0, .abortContinue entersShell,
    .waitpidLoop 2 false entersShell]

/-- The parent of that run runs at its end and the slot of its child is free. -/
theorem table_invariant_waiting :
    let scheduler := waitingEvents.foldl (step defaultConfig) .boot
    (scheduler.slots 0).state = .running ∧ (scheduler.slots 1).state = .unused ∧
      TableInvariant scheduler := by
  intro scheduler
  have hallowed : Allowed (Permitted defaultConfig) (step defaultConfig) .boot waitingEvents := by
    refine ⟨?_, ?_, ?_, ?_, ?_, ?_, ?_, ?_, trivial⟩ <;> decide +kernel
  exact ⟨by decide +kernel, by decide +kernel,
    (table_invariant defaultConfig (Run.of_allowed hallowed)).1⟩

/-- The invariant does not hold in every run: a parent that polls its queued child with `waitpid`
launches it, and then both are running. -/
theorem not_table_invariant :
    ¬∀ (config : Config) (events : List Event) (scheduler : Scheduler),
      Run (Moves (step config)) .boot events scheduler → TableInvariant scheduler := by
  intro hinvariant
  have hfinal := hinvariant defaultConfig _ _ (Run.of_foldl (step defaultConfig) .boot
    [.spawn (some shellImage) entersShell, .captureSyscallFrame {},
      .spawn (some shellImage) entersShell, .captureSyscallFrame {}, .waitpidEnter 2 true,
      .waitpidLoop 2 true entersShell])
  have hboth := hfinal.oneRunning 0 1 (by decide +kernel) (by decide +kernel)
  exact absurd hboth (by decide)

end EynOS.Process.UserTask
