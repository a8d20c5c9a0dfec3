import EynOS.Foundation.Run
import EynOS.Process.UserTaskRunQueue

/-!
# How often a task is launched

`not_launched_at_most_once` is a run in which a task is started from its ELF entry twice: a parent
that waits for its child is made runnable when the child exits, and `user_task_continue_or_schedule`
launches whatever is runnable. `launched_at_most_once` is what holds: where the task that is taken
from the run queue has no saved frame yet, every task is started once, and a task that has been
started and is runnable only runs again by a switch to its saved frame.
-/

namespace EynOS.Process.UserTask

open Foundation

/-! ### What keeps a started task from starting again -/

def TaskState.awake (state : TaskState) : Prop := state = .running ∨ state = .blocked

/-- A slot keeps its count of launches and its frame, and does not wake up. -/
structure Slot.Kept (old new : Slot) : Prop where
  entries : new.entries = old.entries
  frame : old.hasSyscallFrame = true → new.hasSyscallFrame = true
  used : new.used = old.used
  rests : ¬old.state.awake → ¬new.state.awake

theorem Slot.Kept.refl (slot : Slot) : slot.Kept slot := ⟨rfl, id, rfl, id⟩

theorem Slot.Kept.trans {old middle new : Slot} (hfirst : old.Kept middle)
    (hsecond : middle.Kept new) : old.Kept new :=
  ⟨hsecond.entries.trans hfirst.entries, hsecond.frame ∘ hfirst.frame,
    hsecond.used.trans hfirst.used, hsecond.rests ∘ hfirst.rests⟩

theorem Slot.Same.kept {old new : Slot} (hsame : old.Same new) : old.Kept new :=
  ⟨hsame.entries, hsame.frame, hsame.used, fun hrests ↦ by rwa [hsame.state]⟩

/-- Every slot is kept. -/
def Keeps (before after : Scheduler) : Prop :=
  ∀ index, (before.slots index).Kept (after.slots index)

variable (config : Config) {scheduler before middle after : Scheduler} {index : Index}

theorem Keeps.refl (scheduler : Scheduler) : Keeps scheduler scheduler := fun _ ↦ .refl _

theorem Keeps.trans (hfirst : Keeps before middle) (hsecond : Keeps middle after) :
    Keeps before after := fun index ↦ (hfirst index).trans (hsecond index)

theorem Agrees.keeps (hagrees : Agrees before after) : Keeps before after :=
  fun index ↦ (hagrees.slot index).kept

theorem Keeps.of_eq (hslots : after.slots = before.slots) : Keeps before after := by
  intro index
  rw [hslots]
  exact .refl _

theorem Keeps.modify {change : Slot → Slot}
    (hchange : (scheduler.slots index).Kept (change (scheduler.slots index))) :
    Keeps scheduler (scheduler.modify index change) := by
  intro other
  unfold Scheduler.modify
  by_cases hother : other = index
  · subst hother
    simpa using hchange
  · simpa [Function.update_of_ne hother] using Slot.Kept.refl _

theorem Keeps.foldl {wake : Scheduler → Index → Scheduler}
    (hwake : ∀ scheduler index, Keeps scheduler (wake scheduler index)) (indices : List Index)
    (scheduler : Scheduler) : Keeps scheduler (indices.foldl wake scheduler) := by
  induction indices generalizing scheduler with
  | nil => exact .refl scheduler
  | cons index indices ih => exact (hwake scheduler index).trans (ih _)

/-! ### Operations that keep every slot -/

theorem keeps_modifyCurrent {change : Slot → Slot}
    (hchange : ∀ slot : Slot, slot.Kept (change slot)) :
    Keeps scheduler (scheduler.modifyCurrent change) := by
  unfold Scheduler.modifyCurrent
  cases scheduler.currentSlot with
  | none => exact .refl scheduler
  | some index => exact .modify (hchange _)

theorem keeps_unblockCurrent (scheduler : Scheduler) :
    Keeps scheduler (unblockCurrent scheduler) := by
  refine keeps_modifyCurrent fun slot ↦ ?_
  split_ifs with hblocked
  · exact ⟨rfl, id, rfl, fun hrests ↦ absurd (Or.inr hblocked) hrests⟩
  · exact ⟨rfl, id, rfl, id⟩

theorem keeps_wakeSlot (currentPid : ℤ) (index : Index)
    (hblocked : (scheduler.slots index).state = .blocked) :
    Keeps scheduler (wakeSlot config scheduler currentPid index) := by
  have hwake (state : TaskState) : (scheduler.slots index).Kept
      { scheduler.slots index with state := state } :=
    ⟨rfl, id, rfl, fun hrests ↦ absurd (Or.inr hblocked) hrests⟩
  unfold wakeSlot
  split_ifs
  · exact .modify (hwake _)
  · exact (Keeps.modify (hwake _)).trans (agrees_runqEnqueue config _ _).keeps

theorem keeps_schedulerTick (scheduler : Scheduler) :
    Keeps scheduler (schedulerTick config scheduler) := by
  refine Keeps.foldl (fun reached index ↦ ?_) _ _
  unfold wakeSleeper
  dsimp only
  by_cases hsleeps : (reached.slots index).used = true ∧ (reached.slots index).state = .blocked ∧
      (reached.slots index).blockReason = .sleep ∧
        ticksSince reached.now (reached.slots index).wakeTick < 2 ^ 31
  · rw [if_pos hsleeps]
    have hquiet : Keeps reached (reached.modify index fun slot ↦
        { slot with wakeTick := 0, blockReason := .none }) := .modify ⟨rfl, id, rfl, id⟩
    have hwoken := hquiet.trans (keeps_wakeSlot config scheduler.runningPid index
      (by simpa [Scheduler.modify] using hsleeps.2.1))
    split_ifs
    · exact hwoken
    · exact hwoken.trans (.of_eq rfl)
  · rw [if_neg hsleeps]
    exact .refl reached

theorem keeps_wakeWaiters (waits : Slot → Bool) (scheduler : Scheduler) :
    Keeps scheduler (wakeWaiters config waits scheduler) := by
  refine Keeps.foldl (fun reached index ↦ ?_) _ _
  unfold wakeWaiter
  dsimp only
  split_ifs with hwaits
  · have hquiet : Keeps reached (reached.modify index Slot.awaitingNothing) :=
      .modify ⟨rfl, id, rfl, id⟩
    exact (hquiet.trans (keeps_wakeSlot config scheduler.runningPid index
      (by simpa [Scheduler.modify, Slot.awaitingNothing] using hwaits.2.1))).trans (.of_eq rfl)
  · exact .refl reached

theorem keeps_ended (scheduler : Scheduler) (index : Index) (status : ℤ) :
    Keeps scheduler ((runqRemove config scheduler index).modify index (Slot.ended status)) :=
  (agrees_runqRemove config scheduler index).keeps.trans
    (.modify ⟨rfl, id, rfl, fun _ ↦ by simp [Slot.ended, TaskState.awake]⟩)

/-- The end of the running task keeps the slots. -/
theorem keeps_notifyExit (scheduler : Scheduler) (status : ℤ) :
    Keeps scheduler (notifyExit config scheduler status) := by
  unfold notifyExit
  dsimp only
  split_ifs
  · cases scheduler.findSlotByPid scheduler.runningPid with
    | none => exact (keeps_wakeWaiters config _ scheduler).trans (.of_eq rfl)
    | some index =>
      exact ((keeps_ended config scheduler index status).trans
        (keeps_wakeWaiters config _ _)).trans (.of_eq rfl)
  · exact .of_eq rfl

theorem keeps_signalParent (scheduler : Scheduler) (parentPid : ℤ) :
    Keeps scheduler (signalParent config scheduler parentPid) := by
  unfold signalParent
  cases scheduler.findSlotByPid parentPid with
  | none => exact .refl scheduler
  | some parent =>
    dsimp only
    have hquiet : Keeps scheduler (scheduler.modify parent fun slot ↦
        { slot with sigPending := slot.sigPending ||| (1#32 <<< 17) }) :=
      .modify ⟨rfl, id, rfl, id⟩
    split_ifs with hblocked
    · exact (hquiet.trans (keeps_wakeSlot config _ parent hblocked)).trans (.of_eq rfl)
    · exact hquiet.trans (.of_eq rfl)

theorem keeps_terminateSlot (scheduler : Scheduler) (index : Index) (sig : ℕ) :
    Keeps scheduler (terminateSlot config scheduler index sig) := by
  unfold terminateSlot
  dsimp only
  split_ifs
  · exact .refl scheduler
  · exact keeps_notifyExit config scheduler _
  · exact (((keeps_ended config scheduler index _).trans (keeps_wakeWaiters config _ _)).trans
      (keeps_signalParent config _ _)).trans (.of_eq rfl)
  · exact ((keeps_ended config scheduler index _).trans (keeps_wakeWaiters config _ _)).trans
      (.of_eq rfl)

/-- Delivering a signal keeps the slots. -/
theorem keeps_handlePending (scheduler : Scheduler) (index : Index) (copied : Bool) :
    Keeps scheduler (handlePending config scheduler index copied) := by
  unfold handlePending
  cases (scheduler.slots index).pendingSignal with
  | none => exact .refl scheduler
  | some sig =>
    dsimp only
    have hcleared : Keeps scheduler (scheduler.modify index fun slot ↦
        { slot with sigPending := slot.sigPending &&& ~~~(1#32 <<< sig) }) :=
      .modify ⟨rfl, id, rfl, id⟩
    split_ifs
    · exact hcleared.trans (keeps_terminateSlot config _ index sig)
    · exact hcleared.trans (.modify ⟨rfl, fun _ ↦ rfl, rfl, id⟩)
    · exact hcleared
    · exact hcleared.trans (keeps_terminateSlot config _ index sig)
    · exact hcleared

theorem keeps_queueSignal (scheduler : Scheduler) (pid sig : ℤ) :
    Keeps scheduler (queueSignal config scheduler pid sig) := by
  unfold queueSignal
  split_ifs
  · exact .refl scheduler
  · cases scheduler.findSlotByPid pid with
    | none => exact .refl scheduler
    | some index =>
      dsimp only
      have hquiet : Keeps scheduler (scheduler.modify index fun slot ↦
          { slot with sigPending := slot.sigPending ||| (1#32 <<< sig.toNat) }) :=
        .modify ⟨rfl, id, rfl, id⟩
      split_ifs
      · exact keeps_terminateSlot config scheduler index _
      · exact hquiet.trans (.of_eq rfl)
      · exact hquiet

/-- Forgetting the mappings of the active task keeps the slots. -/
theorem keeps_setCurrentMappingState (scheduler : Scheduler) (runtime : Runtime) :
    Keeps scheduler (scheduler.setCurrentMappingState runtime) := by
  unfold Scheduler.setCurrentMappingState
  cases scheduler.activeSlot with
  | none => exact .of_eq rfl
  | some index =>
    have hquiet : Keeps scheduler (scheduler.modify index fun slot ↦
        { slot with runtime := runtime }) := .modify ⟨rfl, id, rfl, id⟩
    exact hquiet.trans (.of_eq rfl)

/-! ### Operations that wake, block, start or free a slot -/

def KeepsOthers (index : Index) (before after : Scheduler) : Prop :=
  ∀ other, other ≠ index → (before.slots other).Kept (after.slots other)

theorem keepsOthers_modify (change : Slot → Slot) :
    KeepsOthers index scheduler (scheduler.modify index change) := by
  intro other hother
  unfold Scheduler.modify
  simpa [Function.update_of_ne hother] using Slot.Kept.refl _

theorem KeepsOthers.trans (hfirst : KeepsOthers index before middle)
    (hsecond : KeepsOthers index middle after) : KeepsOthers index before after :=
  fun other hother ↦ (hfirst other hother).trans (hsecond other hother)

theorem Keeps.others (hkeeps : Keeps before after) (index : Index) :
    KeepsOthers index before after := fun other _ ↦ hkeeps other

/-- A launch of a task that has not been started starts it at most once, and keeps the other
slots. -/
theorem launchSlot_launches (load : Load) (hentries : (scheduler.slots index).entries = 0) :
    KeepsOthers index scheduler (launchSlot config scheduler index load) ∧
      ((launchSlot config scheduler index load).slots index).used = (scheduler.slots index).used ∧
      (((launchSlot config scheduler index load).slots index).entries = 0 ∨
        ((launchSlot config scheduler index load).slots index).entries = 1 ∧
          ((launchSlot config scheduler index load).slots index).hasSyscallFrame = true) := by
  have hagrees := agrees_runqRemove config scheduler index
  have hused := (hagrees.slot index).used
  have hnone := (hagrees.slot index).entries.trans hentries
  have hothers := hagrees.keeps.others index
  unfold launchSlot
  by_cases himage : (scheduler.slots index).image = none
  · rw [if_pos himage]
    exact ⟨(Keeps.refl scheduler).others index, rfl, Or.inl hentries⟩
  rw [if_neg himage]
  set removed := runqRemove config scheduler index
  cases load with
  | rejected =>
    refine ⟨fun other hother ↦ ?_, ?_, Or.inl ?_⟩
    · simpa [userElfRunArgv, Scheduler.modify, Load.enters, Function.update_of_ne hother] using
        hothers other hother
    · simpa [userElfRunArgv, Scheduler.modify, Load.enters, Slot.ended, Slot.launched,
        Slot.refilled] using hused
    · simpa [userElfRunArgv, Scheduler.modify, Load.enters, Slot.ended, Slot.launched,
        Slot.refilled] using hnone
  | unwound =>
    refine ⟨fun other hother ↦ ?_, ?_, Or.inl ?_⟩
    · simpa [userElfRunArgv, Scheduler.modify, Scheduler.setCurrentMappingState, Load.enters,
        Function.update_of_ne hother] using hothers other hother
    · simpa [userElfRunArgv, Scheduler.modify, Scheduler.setCurrentMappingState, Load.enters,
        Slot.ended, Slot.launched, Slot.refilled] using hused
    · simpa [userElfRunArgv, Scheduler.modify, Scheduler.setCurrentMappingState, Load.enters,
        Slot.ended, Slot.launched, Slot.refilled] using hnone
  | entered runtime entry userEsp cs ds =>
    refine ⟨fun other hother ↦ ?_, ?_, Or.inr ⟨?_, ?_⟩⟩
    · simpa [userElfRunArgv, Scheduler.modify, Scheduler.setCurrentMappingState, Load.enters,
        Function.update_of_ne hother] using hothers other hother
    · simpa [userElfRunArgv, Scheduler.modify, Scheduler.setCurrentMappingState, Load.enters,
        Slot.launched, Slot.refilled] using hused
    · simpa [userElfRunArgv, Scheduler.modify, Scheduler.setCurrentMappingState, Load.enters,
        Slot.launched, Slot.refilled] using hnone
    · simp [userElfRunArgv, Scheduler.modify, Scheduler.setCurrentMappingState, Load.enters]

/-! ### Tasks that have been started -/

/-- A task that has been started was started once and has a saved frame, and a free slot has no
started task. -/
structure StartedOnce (scheduler : Scheduler) : Prop where
  entries : ∀ index, (scheduler.slots index).entries ≤ 1
  frame : ∀ index, 0 < (scheduler.slots index).entries →
    (scheduler.slots index).hasSyscallFrame = true
  vacant : ∀ index, (scheduler.slots index).used = false → (scheduler.slots index).entries = 0

/-- Keeping a slot keeps what is known of a started task in it. -/
theorem StartedOnce.of_kept (hstarted : StartedOnce before)
    (hindex : KeepsOthers index before after)
    (hentries : (after.slots index).entries = 0 ∨
      (after.slots index).entries = 1 ∧ (after.slots index).hasSyscallFrame = true)
    (hvacant : (after.slots index).used = false → (after.slots index).entries = 0) :
    StartedOnce after := by
  refine ⟨fun other ↦ ?_, fun other hother ↦ ?_, fun other hother ↦ ?_⟩
  · by_cases heq : other = index
    · subst heq
      rcases hentries with hnone | ⟨hone, -⟩ <;> omega
    · rw [(hindex other heq).entries]
      exact hstarted.entries other
  · by_cases heq : other = index
    · subst heq
      rcases hentries with hnone | ⟨-, hframe⟩
      · omega
      · exact hframe
    · rw [(hindex other heq).entries] at hother
      exact (hindex other heq).frame (hstarted.frame other hother)
  · by_cases heq : other = index
    · subst heq
      exact hvacant hother
    · rw [(hindex other heq).used] at hother
      rw [(hindex other heq).entries]
      exact hstarted.vacant other hother

/-- What is known of started tasks stays so where the slots are kept. -/
theorem StartedOnce.of_keeps (hstarted : StartedOnce before) (hkeeps : Keeps before after) :
    StartedOnce after where
  entries index := (hkeeps index).entries ▸ hstarted.entries index
  frame index hindex :=
    (hkeeps index).frame (hstarted.frame index ((hkeeps index).entries ▸ hindex))
  vacant index hindex :=
    (hkeeps index).entries ▸ hstarted.vacant index ((hkeeps index).used ▸ hindex)

/-- A change of one slot that keeps its count of launches and its frame. -/
theorem StartedOnce.modify {change : Slot → Slot} (hstarted : StartedOnce scheduler)
    (hentries : (change (scheduler.slots index)).entries = (scheduler.slots index).entries)
    (hframe : (scheduler.slots index).hasSyscallFrame = true →
      (change (scheduler.slots index)).hasSyscallFrame = true)
    (hused : (change (scheduler.slots index)).used = (scheduler.slots index).used) :
    StartedOnce (scheduler.modify index change) := by
  have hself : (scheduler.modify index change).slots index = change (scheduler.slots index) :=
    Function.update_self _ _ _
  refine hstarted.of_kept (keepsOthers_modify change) ?_ ?_
  · rw [hself, hentries]
    rcases Nat.le_one_iff_eq_zero_or_eq_one.mp (hstarted.entries index) with hnone | hone
    · exact Or.inl hnone
    · exact Or.inr ⟨hone, hframe (hstarted.frame index (by omega))⟩
  · rw [hself, hentries, hused]
    exact hstarted.vacant index

def KeepsStarted (before after : Scheduler) : Prop :=
  ∀ index, 0 < (before.slots index).entries → (before.slots index).Kept (after.slots index)

theorem KeepsStarted.trans (hfirst : KeepsStarted before middle)
    (hsecond : KeepsStarted middle after) : KeepsStarted before after := by
  intro index hindex
  have hkept := hfirst index hindex
  exact hkept.trans (hsecond index (hkept.entries ▸ hindex))

theorem Keeps.started (hkeeps : Keeps before after) : KeepsStarted before after :=
  fun index _ ↦ hkeeps index

theorem KeepsOthers.started (hothers : KeepsOthers index before after)
    (hentries : (before.slots index).entries = 0) : KeepsStarted before after := by
  intro other hother
  refine hothers other ?_
  rintro rfl
  omega

/-! ### Launching fresh tasks -/

/-- The task that an event launches, if it does, has no saved frame: it has neither been launched
before nor entered the kernel. -/
def LaunchesFresh (scheduler : Scheduler) (event : Event) : Prop :=
  ∀ called ∈ event.schedules config scheduler, ∀ index ∈ (nextToLaunch config called.1).1,
    (called.1.slots index).hasSyscallFrame = false

instance (config : Config) (scheduler : Scheduler) (event : Event) :
    Decidable (LaunchesFresh config scheduler event) := by
  unfold LaunchesFresh
  infer_instance

/-- Launching a task without a saved frame starts it for the first time. -/
theorem continueOrSchedule_started (load : Load) (hstarted : StartedOnce scheduler)
    (hfresh : ∀ index ∈ (nextToLaunch config scheduler).1,
      (scheduler.slots index).hasSyscallFrame = false) :
    StartedOnce (continueOrSchedule config scheduler load).2 ∧
      KeepsStarted scheduler (continueOrSchedule config scheduler load).2 := by
  have hpicks := (agrees_nextToLaunch config scheduler).keeps
  unfold continueOrSchedule
  rcases hnext : nextToLaunch config scheduler with ⟨_ | index, picked⟩
  · rw [hnext] at hpicks
    exact ⟨hstarted.of_keeps hpicks, hpicks.started⟩
  · rw [hnext] at hpicks hfresh
    have hentries : (picked.slots index).entries = 0 := by
      rw [(hpicks index).entries]
      by_contra hne
      have hframe := hstarted.frame index (Nat.pos_of_ne_zero hne)
      rw [hfresh index rfl] at hframe
      exact absurd hframe Bool.false_ne_true
    obtain ⟨hothers, hused, hlaunched⟩ := launchSlot_launches config load hentries
    refine ⟨(hstarted.of_keeps hpicks).of_kept hothers hlaunched fun hvacant ↦ ?_,
      hpicks.started.trans (hothers.started hentries)⟩
    have hpickedUsed : (picked.slots index).used = true := by
      have hpicked := nextToLaunch_runnable config scheduler index
      rw [hnext] at hpicked
      exact (hpicked rfl).1
    rw [hused, hpickedUsed] at hvacant
    exact absurd hvacant Bool.true_eq_false.mp

/-- Spawning a task into a free slot starts nothing. -/
theorem spawnInto_started (hstarted : StartedOnce scheduler)
    (hunused : (scheduler.slots index).used = false) (image : Image) :
    StartedOnce (spawnInto config scheduler index image) ∧
      KeepsStarted scheduler (spawnInto config scheduler index image) := by
  unfold spawnInto
  dsimp only
  set placed : Scheduler :=
    { scheduler with
      slots := Function.update scheduler.slots index
        (Slot.spawned config scheduler.nextPid scheduler.runningPid image)
      runq := scheduler.runq.release index
      nextPid := nextPidAfter scheduler.nextPid }
  have hself : placed.slots index =
      Slot.spawned config scheduler.nextPid scheduler.runningPid image :=
    Function.update_self _ _ _
  have hothers : KeepsOthers index scheduler placed := by
    intro other hother
    rw [show placed.slots other = scheduler.slots other from Function.update_of_ne hother _ _]
    exact .refl _
  have hplaced : StartedOnce placed :=
    hstarted.of_kept hothers (Or.inl (by rw [hself]; rfl)) fun _ ↦ by rw [hself]; rfl
  have hqueued := (agrees_runqEnqueue config placed index).keeps
  exact ⟨hplaced.of_keeps hqueued,
    (hothers.started (hstarted.vacant index hunused)).trans hqueued.started⟩

/-! ### Events -/

/-- A started task that was runnable only runs after a change where it is resumed. -/
structure Continues (resumed : Option Index) (before after : Scheduler) : Prop where
  started : StartedOnce after
  resumes : ∀ index, 0 < (before.slots index).entries → (before.slots index).state = .runnable →
    (after.slots index).state = .running → resumed = some index

variable {resumed : Option Index}

theorem Slot.Kept.not_running {old new : Slot} (hkept : old.Kept new)
    (hrunnable : old.state = .runnable) : new.state ≠ .running := by
  intro hrunning
  exact hkept.rests (by simp [TaskState.awake, hrunnable]) (Or.inl hrunning)

/-- Where every started task is kept, none runs again. -/
theorem KeepsStarted.continues (hkeeps : KeepsStarted before after) (hstarted : StartedOnce after) :
    Continues resumed before after where
  started := hstarted
  resumes index hindex hrunnable hrunning :=
    absurd hrunning ((hkeeps index hindex).not_running hrunnable)

/-- Where every slot is kept, no task runs again. -/
theorem Keeps.continues (hkeeps : Keeps before after) (hstarted : StartedOnce before) :
    Continues resumed before after :=
  hkeeps.started.continues (hstarted.of_keeps hkeeps)

/-- Where all slots but one are kept, only that one may run again. -/
theorem KeepsOthers.continues (hothers : KeepsOthers index before after)
    (hstarted : StartedOnce after)
    (hindex : (after.slots index).state = .running → resumed = some index) :
    Continues resumed before after where
  started := hstarted
  resumes other hother hrunnable hrunning := by
    by_cases heq : other = index
    · rw [heq] at hrunning ⊢
      exact hindex hrunning
    · exact absurd hrunning ((hothers other heq).not_running hrunnable)

/-- A change that keeps the tasks may come first. -/
theorem Continues.after_agrees (hcontinues : Continues resumed middle after)
    (hagrees : Agrees before middle) : Continues resumed before after where
  started := hcontinues.started
  resumes index hindex hrunnable hrunning :=
    hcontinues.resumes index ((hagrees.slot index).entries ▸ hindex)
      ((hagrees.slot index).state.trans hrunnable) hrunning

/-- Blocking the current task starts nothing. -/
theorem blockCurrent_continues (hstarted : StartedOnce scheduler) (reason : BlockReason)
    (wakeTick : ℕ) (waitTargetPid waitGuiHandle : ℤ) :
    Continues resumed scheduler
      (blockCurrent config scheduler reason wakeTick waitTargetPid waitGuiHandle) := by
  unfold blockCurrent
  cases scheduler.currentSlot with
  | none => exact (Keeps.refl scheduler).continues hstarted
  | some index =>
    dsimp only
    set change : Slot → Slot := fun slot ↦
      { slot with
        state := .blocked
        wakeTick := wakeTick
        waitTargetPid := waitTargetPid
        waitGuiHandle := waitGuiHandle
        blockReason := reason }
    have hblocked : StartedOnce (scheduler.modify index change) := hstarted.modify rfl id rfl
    have hagrees := agrees_runqRemove config (scheduler.modify index change) index
    have hremoved : Keeps (scheduler.modify index change)
        (runqRemove config (scheduler.modify index change) index).requestSchedule :=
      hagrees.keeps.trans (.of_eq rfl)
    refine KeepsOthers.continues ((keepsOthers_modify change).trans (hremoved.others index))
      (hblocked.of_keeps hremoved) fun hrunning ↦ ?_
    rw [show (runqRemove config (scheduler.modify index change) index).requestSchedule.slots =
      (runqRemove config (scheduler.modify index change) index).slots from rfl,
      (hagrees.slot index).state] at hrunning
    simp [Scheduler.modify, change] at hrunning

/-- A switch only makes its target run. -/
theorem switchTo_continues (current target : Index) {account : Slot → Slot}
    (hstarted : StartedOnce scheduler) (haccount : ∀ slot : Slot, slot.Same (account slot))
    (regs : Regs) (copied : Bool) :
    Continues (some target) scheduler
      (switchTo config scheduler current target regs account copied).2 := by
  unfold switchTo
  dsimp only
  set change : Slot → Slot := fun slot ↦
    { account (slot.captured regs scheduler.runtimeGeneration) with state := .runnable }
  have hyielded : Keeps scheduler (scheduler.modify current change) := by
    have haccounted := haccount
      ((scheduler.slots current).captured regs scheduler.runtimeGeneration)
    exact .modify ⟨haccounted.entries, fun _ ↦ haccounted.frame rfl, haccounted.used,
      fun _ ↦ by simp [TaskState.awake, change]⟩
  set removed := runqRemove config
    (runqEnqueue config (scheduler.modify current change) current) target
  have hremoved : Keeps scheduler removed :=
    (hyielded.trans (agrees_runqEnqueue config _ current).keeps).trans
      (agrees_runqRemove config _ target).keeps
  have hrefilled : Keeps removed (removed.modify target (Slot.refilled config)) :=
    .modify (Slot.same_refilled config _).kept
  have hdelivered := (hremoved.trans hrefilled).trans (keeps_handlePending config _ target copied)
  set delivered := handlePending config (removed.modify target (Slot.refilled config)) target copied
  have hswitched : StartedOnce (delivered.modify target fun slot ↦
      { slot with state := .running }) := (hstarted.of_keeps hdelivered).modify rfl id rfl
  have hrest : Keeps (delivered.modify target fun slot ↦ { slot with state := .running })
      { delivered.modify target fun slot ↦ { slot with state := .running } with
        activeSlot := some target
        runningPid := (delivered.slots target).pid
        scheduleRequest := false } := .of_eq rfl
  exact KeepsOthers.continues (((hdelivered.others target).trans (keepsOthers_modify _)).trans
    (hrest.others target)) (hswitched.of_keeps hrest) fun _ ↦ rfl

/-- Reaping a slot starts nothing. -/
theorem reap_continues (hstarted : StartedOnce scheduler) (index : Index) :
    Continues resumed scheduler (reap config scheduler index) := by
  have hremoved := (keeps_unblockCurrent scheduler).trans
    (agrees_runqRemove config (unblockCurrent scheduler) index).keeps
  unfold reap
  dsimp only
  set removed := runqRemove config (unblockCurrent scheduler) index
  set reaped : Scheduler :=
    { removed.modify index (Slot.reaped config) with
      runq := removed.runq.release index
      scheduleRequest := true }
  have hself : reaped.slots index = Slot.reaped config (removed.slots index) :=
    Function.update_self _ _ _
  have hrest : Keeps (removed.modify index (Slot.reaped config)) reaped := .of_eq rfl
  have hothers : KeepsOthers index removed reaped :=
    (keepsOthers_modify _).trans (hrest.others index)
  refine ((hremoved.others index).trans hothers).continues
    ((hstarted.of_keeps hremoved).of_kept hothers (Or.inl (by rw [hself]; rfl))
      fun _ ↦ by rw [hself]; rfl) fun hrunning ↦ ?_
  rw [hself] at hrunning
  exact absurd hrunning (by simp [Slot.reaped])

/-- Choosing a task to resume keeps the tasks. -/
theorem agrees_resumeSwitch (scheduler : Scheduler) :
    Agrees scheduler (resumeSwitch config scheduler).2 := by
  unfold resumeSwitch
  split_ifs
  · exact .refl scheduler
  · dsimp only
    split <;> exact agrees_mlfqBoostIfDue config scheduler

/-- Choosing a task to preempt with keeps the tasks. -/
theorem agrees_preemptSwitch (scheduler : Scheduler) (regs : Regs) :
    Agrees scheduler (preemptSwitch config scheduler regs).2 := by
  have hboosted := agrees_mlfqBoostIfDue config scheduler
  unfold preemptSwitch
  split_ifs
  · exact .refl scheduler
  dsimp only
  cases (mlfqBoostIfDue config scheduler).currentSlot with
  | none => exact hboosted
  | some current =>
    dsimp only
    set boosted := mlfqBoostIfDue config scheduler
    have haccounted : Agrees scheduler (boosted.modify current (Slot.accountPreempt config)) :=
      hboosted.trans (.modify (Slot.same_accountPreempt config _))
    set accounted := boosted.modify current (Slot.accountPreempt config)
    have hreached : Agrees scheduler (if (boosted.slots current).mlfqSliceLeft = 1 then
        accounted.requestSchedule else accounted) := by
      split_ifs
      · exact haccounted.trans (.of_slots_eq rfl rfl rfl)
      · exact haccounted
    set reached := if (boosted.slots current).mlfqSliceLeft = 1 then accounted.requestSchedule
      else accounted
    by_cases hstays : ¬reached.scheduleRequest = true ∨ regs.cs % 4 ≠ 3
    · rw [if_pos hstays]
      exact hreached
    · rw [if_neg hstays]
      cases reached.resumeTarget reached.runningPid with
      | none => exact hreached
      | some target => exact hreached

section

variable (hstarted : StartedOnce scheduler)

include hstarted

/-- Spawning starts no started task, where a task it launches is fresh. -/
theorem spawnArgv_continues {image : Option Image} {load : Load}
    (hfresh : LaunchesFresh config scheduler (.spawn image load)) :
    Continues resumed scheduler (spawnArgv config scheduler image load) := by
  unfold spawnArgv
  cases halloc : scheduler.allocSlot with
  | none => exact (Keeps.refl scheduler).continues hstarted
  | some index =>
    cases image with
    | none => exact (Keeps.refl scheduler).continues hstarted
    | some image =>
      have hunused : (scheduler.slots index).used = false := by
        have hfound := List.find?_some halloc
        rwa [Bool.not_eq_true'] at hfound
      have hactive : (spawnInto config scheduler index image).active = scheduler.active := by
        unfold spawnInto runqEnqueue runqBootstrap
        dsimp only
        split_ifs <;> rfl
      obtain ⟨hspawned, hkeeps⟩ := spawnInto_started config hstarted hunused image
      dsimp only
      rw [hactive]
      cases hidle : scheduler.active with
      | true =>
        have hrequested : Keeps (spawnInto config scheduler index image)
            (spawnInto config scheduler index image).requestSchedule := .of_eq rfl
        exact (hkeeps.trans hrequested.started).continues (hspawned.of_keeps hrequested)
      | false =>
        obtain ⟨hlaunched, hlaunchKeeps⟩ := continueOrSchedule_started config load hspawned
          (hfresh (spawnInto config scheduler index image, load)
            (by simp [Event.schedules, halloc, hidle]))
        exact (hkeeps.trans hlaunchKeeps).continues hlaunched

/-- Polling starts no started task, where a task it launches is fresh. -/
theorem pollScheduler_continues {load : Load}
    (hfresh : LaunchesFresh config scheduler (.poll load)) :
    Continues resumed scheduler (pollScheduler config scheduler load) := by
  unfold pollScheduler
  cases hrequest : scheduler.scheduleRequest with
  | false => exact (Keeps.refl scheduler).continues hstarted
  | true =>
    cases hactive : scheduler.active with
    | true => exact (Keeps.refl scheduler).continues hstarted
    | false =>
      obtain ⟨hlaunched, hkeeps⟩ := continueOrSchedule_started config load hstarted
        (hfresh (scheduler, load) (by simp [Event.schedules, hrequest, hactive]))
      rcases hcontinue : continueOrSchedule config scheduler load with ⟨_ | _, reached⟩
      · rw [hcontinue] at hlaunched hkeeps
        have hcleared : Keeps reached { reached with scheduleRequest := false } := .of_eq rfl
        exact (hkeeps.trans hcleared.started).continues (hlaunched.of_keeps hcleared)
      · rw [hcontinue] at hlaunched hkeeps
        exact hkeeps.continues hlaunched

/-- Waiting starts no started task, where a task it launches is fresh. -/
theorem waitpidLoop_continues {pid : ℤ} {nohang : Bool} {load : Load}
    (hfresh : LaunchesFresh config scheduler (.waitpidLoop pid nohang load)) :
    Continues resumed scheduler (waitpidLoop config scheduler pid nohang load) := by
  unfold waitpidLoop
  cases hfind : scheduler.findSlotByPid pid with
  | none => exact (Keeps.refl scheduler).continues hstarted
  | some index =>
    dsimp only
    by_cases hzombie : (scheduler.slots index).state = .zombie
    · rw [if_pos hzombie]
      exact reap_continues config hstarted index
    · rw [if_neg hzombie]
      obtain ⟨hlaunched, hkeeps⟩ := continueOrSchedule_started config load hstarted
        (hfresh (scheduler, load) (by simp [Event.schedules, hfind, hzombie]))
      rcases hcontinue : continueOrSchedule config scheduler load with ⟨_ | _, reached⟩
      · rw [hcontinue] at hlaunched hkeeps
        dsimp only
        split_ifs
        · have hunblocked := keeps_unblockCurrent reached
          exact (hkeeps.trans hunblocked.started).continues (hlaunched.of_keeps hunblocked)
        · exact hkeeps.continues hlaunched
      · rw [hcontinue] at hlaunched hkeeps
        exact hkeeps.continues hlaunched

/-- Under the condition on launches an event starts no started task, and a runnable one only runs
after it where the event switches to its frame. -/
theorem step_continues (event : Event)
    (hfresh : LaunchesFresh config scheduler event) :
    Continues ((event.switches config scheduler).1.map Prod.snd) scheduler
      (step config scheduler event) := by
  cases event with
  | tick =>
    have hticked : Keeps scheduler { scheduler with now := u32 (scheduler.now + 1) } := .of_eq rfl
    exact (hticked.trans (keeps_schedulerTick config _)).continues hstarted
  | schedulerTick => exact (keeps_schedulerTick config scheduler).continues hstarted
  | spawn image load => exact spawnArgv_continues config hstarted hfresh
  | poll load => exact pollScheduler_continues config hstarted hfresh
  | abortContinue load =>
    have haborted : Keeps scheduler scheduler.aborted :=
      (keeps_setCurrentMappingState scheduler _).trans (.of_eq rfl)
    obtain ⟨hlaunched, hkeeps⟩ := continueOrSchedule_started config load
      (hstarted.of_keeps haborted) (hfresh (scheduler.aborted, load) rfl)
    exact (haborted.started.trans hkeeps).continues hlaunched
  | captureSyscallFrame regs =>
    have hkeeps : Keeps scheduler (captureSyscallFrame scheduler regs) :=
      keeps_modifyCurrent fun _ ↦ ⟨rfl, fun _ ↦ rfl, rfl, id⟩
    exact hkeeps.continues hstarted
  | tryResume regs copied =>
    have hchosen := agrees_resumeSwitch config scheduler
    change Continues ((resumeSwitch config scheduler).1.map Prod.snd) scheduler
      (tryResumeFromSyscall config scheduler regs copied).2
    unfold tryResumeFromSyscall
    rcases hswitch : resumeSwitch config scheduler with ⟨_ | ⟨current, target⟩, reached⟩
    · rw [hswitch] at hchosen
      exact hchosen.keeps.continues hstarted
    · rw [hswitch] at hchosen
      have hswitched := switchTo_continues config current target
        (hstarted.of_keeps hchosen.keeps) (Slot.same_accountPreempt config) regs copied
      exact hswitched.after_agrees hchosen
  | tryPreempt regs copied =>
    have hchosen := agrees_preemptSwitch config scheduler regs
    change Continues ((preemptSwitch config scheduler regs).1.map Prod.snd) scheduler
      (tryPreemptFromIrq config scheduler regs copied).2
    unfold tryPreemptFromIrq
    rcases hswitch : preemptSwitch config scheduler regs with ⟨_ | ⟨current, target⟩, reached⟩
    · rw [hswitch] at hchosen
      exact hchosen.keeps.continues hstarted
    · rw [hswitch] at hchosen
      have haccount : ∀ slot : Slot, slot.Same (id slot) := .refl
      have hswitched := switchTo_continues config current target
        (hstarted.of_keeps hchosen.keeps) haccount { regs with intNo := 0, errCode := 0 } copied
      exact hswitched.after_agrees hchosen
  | blockSleep wakeTick => exact blockCurrent_continues config hstarted _ _ _ _
  | blockGuiWait guiHandle => exact blockCurrent_continues config hstarted _ _ _ _
  | unblock => exact (keeps_unblockCurrent scheduler).continues hstarted
  | wakeGui guiHandle => exact (keeps_wakeWaiters config _ scheduler).continues hstarted
  | queueSignal pid sig => exact (keeps_queueSignal config scheduler pid sig).continues hstarted
  | setHandler sig handler =>
    have hkeeps : Keeps scheduler (setHandlerCurrent scheduler sig handler) := by
      unfold setHandlerCurrent
      split_ifs
      · exact .refl scheduler
      · exact keeps_modifyCurrent fun _ ↦ ⟨rfl, id, rfl, id⟩
    exact hkeeps.continues hstarted
  | sigreturn =>
    have hkeeps : Keeps scheduler (sigreturnCurrent scheduler).2 := by
      unfold sigreturnCurrent
      cases scheduler.currentSlot with
      | none => exact .refl scheduler
      | some index =>
        have hrestored : Keeps scheduler (scheduler.modify index fun slot ↦
            { slot with sigSavedPresent := false }) := .modify ⟨rfl, id, rfl, id⟩
        dsimp only
        split_ifs
        · exact hrestored
        · exact .refl scheduler
    exact hkeeps.continues hstarted
  | exit status => exact (keeps_notifyExit config scheduler status).continues hstarted
  | waitpidEnter pid nohang =>
    change Continues _ scheduler (waitpidEnter config scheduler pid nohang)
    unfold waitpidEnter
    cases scheduler.findSlotByPid pid with
    | none => exact (Keeps.refl scheduler).continues hstarted
    | some index =>
      dsimp only
      split_ifs
      · exact blockCurrent_continues config hstarted _ _ _ _
      · exact (Keeps.refl scheduler).continues hstarted
  | waitpidLoop pid nohang load => exact waitpidLoop_continues config hstarted hfresh

end

/-! ### Runs -/

/-- In every run in which only tasks without a saved frame are launched, every task is started from
its ELF entry at most once, and a started task that is runnable only runs again by a switch to its
saved frame. -/
theorem launched_at_most_once {events : List Event}
    (hrun : Run (Guarded (LaunchesFresh config) (Moves (step config))) .boot events scheduler) :
    (∀ index, (scheduler.slots index).entries ≤ 1) ∧
      ∀ event, LaunchesFresh config scheduler event → ∀ index,
        0 < (scheduler.slots index).entries → (scheduler.slots index).state = .runnable →
          ((step config scheduler event).slots index).state = .running →
            (event.switches config scheduler).1.map Prod.snd = some index := by
  have hboot : StartedOnce .boot :=
    ⟨fun _ ↦ Nat.zero_le _, fun _ hentries ↦ absurd hentries (lt_irrefl 0), fun _ _ ↦ rfl⟩
  have hstep : ∀ before event after, StartedOnce before → LaunchesFresh config before event →
      Moves (step config) before event after → StartedOnce after := by
    intro before event after hstarted hfresh hmove
    rw [← show step config before event = after from hmove]
    exact (step_continues config hstarted event hfresh).started
  have hstarted : StartedOnce scheduler := hrun.guarded_invariant hstep hboot
  exact ⟨hstarted.entries, fun event hfresh ↦ (step_continues config hstarted event hfresh).resumes⟩

/-- One task spawns another and exits, the other is launched and exits. -/
def sequentialEvents : List Event :=
  [.spawn (some shellImage) entersShell, .captureSyscallFrame {},
    .spawn (some shellImage) entersShell,
    .exit 0, .abortContinue entersShell, .captureSyscallFrame {}, .exit 0]

/-- Both tasks of that run were started exactly once. -/
theorem launched_at_most_once_sequential :
    let scheduler := sequentialEvents.foldl (step defaultConfig) .boot
    0 < (scheduler.slots 0).entries ∧ (scheduler.slots 0).entries ≤ 1 ∧
      0 < (scheduler.slots 1).entries ∧ (scheduler.slots 1).entries ≤ 1 := by
  intro scheduler
  have hallowed :
      Allowed (LaunchesFresh defaultConfig) (step defaultConfig) .boot sequentialEvents := by
    refine ⟨?_, ?_, ?_, ?_, ?_, ?_, ?_, trivial⟩ <;> decide +kernel
  have honce := (launched_at_most_once defaultConfig (Run.of_allowed hallowed)).1
  exact ⟨by decide +kernel, honce 0, by decide +kernel, honce 1⟩

/-- Not in every run: a parent that waits for its child is started a second time from its ELF entry
when the child has exited. -/
theorem not_launched_at_most_once :
    ¬∀ (config : Config) (events : List Event) (scheduler : Scheduler),
      Run (Moves (step config)) .boot events scheduler →
        ∀ index, (scheduler.slots index).entries ≤ 1 := by
  intro honce
  have hparent := honce defaultConfig _ _ (Run.of_foldl (step defaultConfig) .boot
    [.spawn (some shellImage) entersShell, .captureSyscallFrame {},
      .spawn (some shellImage) entersShell, .captureSyscallFrame {}, .waitpidEnter 2 false,
      .waitpidLoop 2 false entersShell, .exit 0, .abortContinue entersShell]) 0
  revert hparent
  decide +kernel

end EynOS.Process.UserTask
