import EynOS.Foundation.MachineWord
import EynOS.Foundation.ThreadedQueues
import Mathlib.Data.List.FinRange
import Mathlib.Logic.Function.Basic

/-!
# The user-task table of `user_elf.c`

Sixteen task slots, three feedback-queue levels threaded through them, and the globals that say
which task runs. Tasks are spawned, launched from their ELF entry, blocked, woken, signalled,
resumed from a saved frame and reaped by the functions below; `step` takes one event. The
configuration is that of the i386 build with `CONFIG_SCHED_MLFQ` set; `Config.irqPreempt` is
`CONFIG_SCHED_MLFQ_IRQ_PREEMPT`.

Two fields of a slot are not in the source: `entries` counts how often ring 3 was entered at the ELF
entry for the task in the slot, and `exited` says that the task was made a zombie and has not been
reaped. Not modelled: the stdio descriptors and the terminal of a task, the watchdog,
`g_user_interrupt`, `execve`, and what the loader does to memory (`Load` is its outcome).
-/

namespace EynOS.Process.UserTask

open Foundation

/-! ### Slots and globals -/

abbrev userTaskMax : ℕ := 16

/-- A slot of `g_user_tasks`. -/
abbrev Index := Fin userTaskMax

/-- A level of the feedback queues, of which there are `SCHED_MLFQ_LEVELS`. -/
abbrev Level := Fin 3

/-- `SCHED_MLFQ_LEVEL_LOW`. -/
def levelLow : ℕ := 0

/-- `SCHED_MLFQ_LEVEL_HIGH`. -/
def levelHigh : ℕ := 2

/-- `user_task_state_t`. -/
inductive TaskState
  | unused
  | runnable
  | running
  | blocked
  | zombie
  deriving DecidableEq

/-- `user_task_block_reason_t`. -/
inductive BlockReason
  | none
  | sleep
  | waitpid
  | guiEvent
  deriving DecidableEq

/-- `user_task_runtime_t`. -/
structure Runtime where
  codeBase : ℕ
  codePages : ℕ
  stackPage : ℕ
  deriving DecidableEq

/-- `user_task_image_t`. -/
structure Image where
  drive : ℕ
  path : String
  argv : List String
  deriving DecidableEq

/-- `regs_t`. -/
structure Regs where
  edi : ℕ := 0
  esi : ℕ := 0
  ebp : ℕ := 0
  esp : ℕ := 0
  ebx : ℕ := 0
  edx : ℕ := 0
  ecx : ℕ := 0
  eax : ℕ := 0
  intNo : ℕ := 0
  errCode : ℕ := 0
  eip : ℕ := 0
  cs : ℕ := 0
  eflags : ℕ := 0
  useresp : ℕ := 0
  ss : ℕ := 0
  deriving DecidableEq

/-- `user_task_slot_t`. Its `in_runq` and `runq_next` are in the queue table. -/
structure Slot where
  used : Bool
  pid : ℤ
  parentPid : ℤ
  status : ℤ
  state : TaskState
  waitTargetPid : ℤ
  waitGuiHandle : ℤ
  wakeTick : ℕ
  blockReason : BlockReason
  mlfqLevel : ℕ
  mlfqSliceLeft : ℕ
  runtime : Runtime
  image : Option Image
  sigPending : BitVec 32
  sigMask : BitVec 32
  sigHandler : ℕ → ℕ
  sigSavedFrame : Regs
  sigSavedPresent : Bool
  hasSyscallFrame : Bool
  syscallFrameGeneration : ℕ
  lastSyscallFrame : Regs
  entries : ℕ
  exited : Bool

/-- A slot after `memset`. -/
def Slot.zero : Slot where
  used := false
  pid := 0
  parentPid := 0
  status := 0
  state := .unused
  waitTargetPid := 0
  waitGuiHandle := 0
  wakeTick := 0
  blockReason := .none
  mlfqLevel := 0
  mlfqSliceLeft := 0
  runtime := ⟨0, 0, 0⟩
  image := none
  sigPending := 0
  sigMask := 0
  sigHandler := fun _ ↦ 0
  sigSavedFrame := {}
  sigSavedPresent := false
  hasSyscallFrame := false
  syscallFrameGeneration := 0
  lastSyscallFrame := {}
  entries := 0
  exited := false

/-- What the build and the timer fix. -/
structure Config where
  quantumTicks : Level → ℕ
  boostIntervalTicks : ℕ
  irqPreempt : Bool

/-- The task table and the globals of the scheduler. `now` is `sched_get_tick_count` and `live` is
the mapping of `g_user_code_base`, `g_user_code_pages` and `g_user_stack_page`. -/
structure Scheduler where
  slots : Index → Slot
  runq : ThreadedQueues Level Index
  runqInitialized : Bool
  lastBoostTick : ℕ
  now : ℕ
  nextPid : ℤ
  pendingPid : ℤ
  runningPid : ℤ
  runtimeGeneration : ℕ
  active : Bool
  activeSlot : Option Index
  scheduleRequest : Bool
  live : Runtime

/-- The statically initialized scheduler. The queue heads are zero, which is slot 0, until
`runqBootstrap`. -/
def Scheduler.boot : Scheduler where
  slots := fun _ ↦ .zero
  runq :=
    { head := fun _ ↦ some 0, tail := fun _ ↦ some 0, next := fun _ ↦ some 0
      queued := fun _ ↦ false }
  runqInitialized := false
  lastBoostTick := 0
  now := 0
  nextPid := 1
  pendingPid := 0
  runningPid := 0
  runtimeGeneration := 1
  active := false
  activeSlot := none
  scheduleRequest := false
  live := ⟨0, 0, 0⟩

/-- Change one slot. -/
def Scheduler.modify (scheduler : Scheduler) (index : Index) (change : Slot → Slot) : Scheduler :=
  { scheduler with
    slots := Function.update scheduler.slots index (change (scheduler.slots index)) }

/-- `user_task_request_schedule`. -/
def Scheduler.requestSchedule (scheduler : Scheduler) : Scheduler :=
  { scheduler with scheduleRequest := true }

/-! ### The run queues -/

variable (config : Config)

/-- The queue of a level, with `SCHED_MLFQ_LEVEL_HIGH` for levels out of range. -/
def runqLevel (level : ℕ) : Level := if hlevel : level < 3 then ⟨level, hlevel⟩ else 2

/-- `user_task_level_quantum_ticks`. -/
def levelQuantumTicks (level : ℕ) : ℕ :=
  if config.quantumTicks (runqLevel level) = 0 then 1 else config.quantumTicks (runqLevel level)

/-- The slot at the highest level with a full slice. -/
def Slot.boosted (slot : Slot) : Slot :=
  { slot with mlfqLevel := levelHigh, mlfqSliceLeft := levelQuantumTicks config levelHigh }

/-- The slot with a full slice where its slice is used up. -/
def Slot.refilled (slot : Slot) : Slot :=
  { slot with
    mlfqSliceLeft :=
      if slot.mlfqSliceLeft = 0 then levelQuantumTicks config slot.mlfqLevel
      else slot.mlfqSliceLeft }

/-- `user_task_runq_bootstrap`. -/
def runqBootstrap (scheduler : Scheduler) : Scheduler :=
  if scheduler.runqInitialized then scheduler
  else
    { scheduler with
      slots := fun index ↦
        let slot := scheduler.slots index
        if slot.used ∧ slot.state = .runnable then slot.boosted config else slot
      runq := .clear
      lastBoostTick := scheduler.now
      runqInitialized := true }

/-- `user_task_runq_enqueue`. -/
def runqEnqueue (scheduler : Scheduler) (index : Index) : Scheduler :=
  if ¬(scheduler.slots index).used ∨ (scheduler.slots index).state ≠ .runnable then scheduler
  else
    let scheduler := runqBootstrap config scheduler
    { scheduler with
      runq := scheduler.runq.enqueue (runqLevel (scheduler.slots index).mlfqLevel) index }

/-- `user_task_runq_remove`. -/
def runqRemove (scheduler : Scheduler) (index : Index) : Scheduler :=
  if scheduler.runq.queued index then
    let scheduler := runqBootstrap config scheduler
    { scheduler with runq := scheduler.runq.remove userTaskMax [0, 1, 2] index }
  else scheduler

/-- `user_task_runq_pop_highest`. -/
def runqPopHighest (scheduler : Scheduler) : Option Index × Scheduler :=
  let scheduler := runqBootstrap config scheduler
  match scheduler.runq.popFrom [2, 1, 0] with
  | some (index, runq) => (some index, { scheduler with runq := runq })
  | none => (none, scheduler)

/-- `user_task_runq_rebuild`. -/
def runqRebuild (scheduler : Scheduler) : Scheduler :=
  let scheduler := runqBootstrap config scheduler
  (List.finRange userTaskMax).foldl (runqEnqueue config) { scheduler with runq := .clear }

/-- The 32-bit difference of two tick counts. -/
def ticksSince (now before : ℕ) : ℕ := u32 (now + (2 ^ 32 - before % 2 ^ 32))

/-- Raise the runnable and the running slots to the highest level. -/
def boostSlots (scheduler : Scheduler) : Scheduler :=
  { scheduler with
    slots := fun index ↦
      let slot := scheduler.slots index
      if slot.used ∧ (slot.state = .runnable ∨ slot.state = .running) then slot.boosted config
      else slot }

/-- `user_task_mlfq_boost_if_due`. -/
def mlfqBoostIfDue (scheduler : Scheduler) : Scheduler :=
  let scheduler := runqBootstrap config scheduler
  if config.boostIntervalTicks = 0 then scheduler
  else if ticksSince scheduler.now scheduler.lastBoostTick < config.boostIntervalTicks then
    scheduler
  else { runqRebuild config (boostSlots config scheduler) with lastBoostTick := scheduler.now }

/-- `user_task_mlfq_account_preempt` for one slot. -/
def Slot.accountPreempt (slot : Slot) : Slot :=
  let slot := { slot with mlfqSliceLeft := slot.mlfqSliceLeft - 1 }
  if slot.mlfqSliceLeft = 0 then
    let slot :=
      if slot.mlfqLevel > levelLow then { slot with mlfqLevel := slot.mlfqLevel - 1 } else slot
    { slot with mlfqSliceLeft := levelQuantumTicks config slot.mlfqLevel }
  else slot

/-! ### Finding slots -/

/-- `user_task_find_slot_by_pid`. -/
def Scheduler.findSlotByPid (scheduler : Scheduler) (pid : ℤ) : Option Index :=
  if pid ≤ 0 then none
  else (List.finRange userTaskMax).find? fun index ↦
    (scheduler.slots index).used && (scheduler.slots index).pid == pid

/-- `user_task_alloc_slot`. -/
def Scheduler.allocSlot (scheduler : Scheduler) : Option Index :=
  (List.finRange userTaskMax).find? fun index ↦ !(scheduler.slots index).used

/-- `user_task_current_slot`. -/
def Scheduler.currentSlot (scheduler : Scheduler) : Option Index :=
  scheduler.findSlotByPid scheduler.runningPid

def Scheduler.modifyCurrent (scheduler : Scheduler) (change : Slot → Slot) : Scheduler :=
  match scheduler.currentSlot with
  | some index => scheduler.modify index change
  | none => scheduler

/-! ### Launching -/

/-- What `user_elf_run_argv` does with an image: it fails before or after it has replaced the
mappings of the user task, or it enters ring 3 at the ELF entry. -/
inductive Load
  | rejected
  | unwound
  | entered (runtime : Runtime) (entry userEsp cs ds : ℕ)

def Load.enters : Load → Bool
  | .entered .. => true
  | _ => false

def entryFrame (entry userEsp cs ds : ℕ) : Regs :=
  { eip := entry, esp := userEsp, useresp := userEsp, cs := cs, ss := ds, eflags := 0x202 }

/-- `user_task_set_current_mapping_state`. -/
def Scheduler.setCurrentMappingState (scheduler : Scheduler) (runtime : Runtime) : Scheduler :=
  let scheduler :=
    match scheduler.activeSlot with
    | some index => scheduler.modify index fun slot ↦ { slot with runtime := runtime }
    | none => scheduler
  { scheduler with live := runtime }

/-- The bookkeeping of `user_elf_run_argv`. -/
def userElfRunArgv (scheduler : Scheduler) : Load → Scheduler
  | .rejected => scheduler
  | .unwound =>
    { scheduler with active := true }.setCurrentMappingState ⟨0, 0, 0⟩
  | .entered runtime entry userEsp cs ds =>
    let scheduler := { scheduler with active := true }.setCurrentMappingState runtime
    let generation := u32 (scheduler.runtimeGeneration + 1)
    let generation := if generation = 0 then 1 else generation
    let scheduler :=
      { scheduler with
        runningPid := scheduler.pendingPid
        pendingPid := 0
        runtimeGeneration := generation }
    match scheduler.activeSlot with
    | some index => scheduler.modify index fun slot ↦
        { slot with
          lastSyscallFrame := entryFrame entry userEsp cs ds
          hasSyscallFrame := true
          syscallFrameGeneration := generation
          entries := slot.entries + 1 }
    | none => scheduler

def Slot.launched (slot : Slot) : Slot :=
  { slot.refilled config with
    state := .running
    waitTargetPid := 0
    waitGuiHandle := -1
    wakeTick := 0
    blockReason := .none
    hasSyscallFrame := false
    syscallFrameGeneration := 0 }

def Slot.ended (status : ℤ) (slot : Slot) : Slot :=
  { slot with state := .zombie, status := status, exited := true }

/-- `user_task_launch_slot`. -/
def launchSlot (scheduler : Scheduler) (index : Index) (load : Load) : Scheduler :=
  if (scheduler.slots index).image = none then scheduler
  else
    let scheduler := (runqRemove config scheduler index).modify index (Slot.launched config)
    let pid := (scheduler.slots index).pid
    let scheduler :=
      userElfRunArgv { scheduler with activeSlot := some index, pendingPid := pid } load
    if load.enters then scheduler
    else
      -- Returning here means load failed before entering ring 3.
      { scheduler with
        activeSlot := none
        pendingPid := if scheduler.pendingPid = pid then 0 else scheduler.pendingPid
        runningPid := if scheduler.runningPid = pid then 0 else scheduler.runningPid }.modify
        index (Slot.ended (-1))

/-- The loop of `user_task_continue_or_schedule`: pop slots until one is used and runnable. -/
def pickNext : ℕ → Scheduler → Option Index × Scheduler
  | 0, scheduler => (none, scheduler)
  | bound + 1, scheduler =>
    match runqPopHighest config scheduler with
    | (none, scheduler) => (none, scheduler)
    | (some index, scheduler) =>
      if ¬(scheduler.slots index).used ∨ (scheduler.slots index).state ≠ .runnable then
        pickNext bound scheduler
      else (some index, scheduler.modify index (Slot.refilled config))

/-- The slot that `user_task_continue_or_schedule` launches. -/
def nextToLaunch (scheduler : Scheduler) : Option Index × Scheduler :=
  pickNext config (userTaskMax + 1) (mlfqBoostIfDue config scheduler)

/-- `user_task_continue_or_schedule`, and whether it found a task to launch. -/
def continueOrSchedule (scheduler : Scheduler) (load : Load) : Bool × Scheduler :=
  match nextToLaunch config scheduler with
  | (none, scheduler) => (false, scheduler)
  | (some index, scheduler) => (true, launchSlot config scheduler index load)

/-- `user_task_poll_scheduler`. -/
def pollScheduler (scheduler : Scheduler) (load : Load) : Scheduler :=
  if ¬scheduler.scheduleRequest then scheduler
  else if scheduler.active then scheduler
  else
    match continueOrSchedule config scheduler load with
    | (true, scheduler) => scheduler
    | (false, scheduler) => { scheduler with scheduleRequest := false }

/-- The scheduler when `user_task_abort_continue` looks for a task. -/
def Scheduler.aborted (scheduler : Scheduler) : Scheduler :=
  { scheduler.setCurrentMappingState ⟨0, 0, 0⟩ with active := false }

/-! ### Spawning -/

def Slot.spawned (pid parentPid : ℤ) (image : Image) : Slot :=
  { Slot.zero with
    used := true
    pid := pid
    parentPid := parentPid
    image := some image
    state := .runnable
    waitGuiHandle := -1
    mlfqLevel := levelHigh
    mlfqSliceLeft := levelQuantumTicks config levelHigh }

/-- `g_user_task_next_pid++` with the reset of `user_task_spawn_argv`. -/
def nextPidAfter (pid : ℤ) : ℤ := if pid + 1 < 2 ^ 31 ∧ 0 < pid + 1 then pid + 1 else 1

/-- The table with a new task in a slot. -/
def spawnInto (scheduler : Scheduler) (index : Index) (image : Image) : Scheduler :=
  let slot := Slot.spawned config scheduler.nextPid scheduler.runningPid image
  runqEnqueue config
    { scheduler with
      slots := Function.update scheduler.slots index slot
      runq := scheduler.runq.release index
      nextPid := nextPidAfter scheduler.nextPid } index

/-- `user_task_spawn_argv`. The image is what `user_task_image_build` returned. -/
def spawnArgv (scheduler : Scheduler) (image : Option Image) (load : Load) : Scheduler :=
  match scheduler.allocSlot, image with
  | some index, some image =>
    let scheduler := spawnInto config scheduler index image
    if ¬scheduler.active then (continueOrSchedule config scheduler load).2
    else scheduler.requestSchedule
  | _, _ => scheduler

/-! ### Blocking and waking -/

/-- `user_task_block_current_sleep_until`, `user_task_block_current_waitpid` and
`user_task_block_current_gui_wait`, with the block reason and the wait fields they set. -/
def blockCurrent (scheduler : Scheduler) (reason : BlockReason) (wakeTick : ℕ)
    (waitTargetPid waitGuiHandle : ℤ) : Scheduler :=
  match scheduler.currentSlot with
  | none => scheduler
  | some index =>
    (runqRemove config
      (scheduler.modify index fun slot ↦
        { slot with
          state := .blocked
          wakeTick := wakeTick
          waitTargetPid := waitTargetPid
          waitGuiHandle := waitGuiHandle
          blockReason := reason })
      index).requestSchedule

/-- `user_task_block_current_sleep_until`. -/
def blockCurrentSleepUntil (scheduler : Scheduler) (wakeTick : ℕ) : Scheduler :=
  blockCurrent config scheduler .sleep wakeTick 0 (-1)

/-- `user_task_block_current_waitpid`. -/
def blockCurrentWaitpid (scheduler : Scheduler) (targetPid : ℤ) : Scheduler :=
  blockCurrent config scheduler .waitpid 0 targetPid (-1)

/-- `user_task_block_current_gui_wait`. -/
def blockCurrentGuiWait (scheduler : Scheduler) (guiHandle : ℤ) : Scheduler :=
  blockCurrent config scheduler .guiEvent 0 0 guiHandle

def Slot.awaitingNothing (slot : Slot) : Slot :=
  { slot with waitTargetPid := 0, waitGuiHandle := -1, wakeTick := 0, blockReason := .none }

/-- `user_task_unblock_current`. -/
def unblockCurrent (scheduler : Scheduler) : Scheduler :=
  scheduler.modifyCurrent fun slot ↦
    (if slot.state = .blocked then { slot with state := .running } else slot).awaitingNothing

/-- Make a slot run again: at once where it is the running task, else from a queue. -/
def wakeSlot (scheduler : Scheduler) (currentPid : ℤ) (index : Index) : Scheduler :=
  if (scheduler.slots index).pid = currentPid then
    scheduler.modify index fun slot ↦ { slot with state := .running }
  else
    runqEnqueue config (scheduler.modify index fun slot ↦ { slot with state := .runnable }) index

/-- One slot of `user_task_scheduler_tick`. -/
def wakeSleeper (currentPid : ℤ) (scheduler : Scheduler) (index : Index) : Scheduler :=
  let slot := scheduler.slots index
  if slot.used ∧ slot.state = .blocked ∧ slot.blockReason = .sleep ∧
      ticksSince scheduler.now slot.wakeTick < 2 ^ 31 then
    let woken := wakeSlot config
      (scheduler.modify index fun slot ↦ { slot with wakeTick := 0, blockReason := .none })
      currentPid index
    if slot.pid = currentPid then woken else woken.requestSchedule
  else scheduler

/-- `user_task_scheduler_tick`. -/
def schedulerTick (scheduler : Scheduler) : Scheduler :=
  (List.finRange userTaskMax).foldl (wakeSleeper config scheduler.runningPid) scheduler

/-- One slot of `user_task_wake_waiters_for_pid` and `user_task_wake_gui_waiters`. -/
def wakeWaiter (waits : Slot → Bool) (currentPid : ℤ) (scheduler : Scheduler) (index : Index) :
    Scheduler :=
  let slot := scheduler.slots index
  if slot.used ∧ slot.state = .blocked ∧ waits slot then
    (wakeSlot config (scheduler.modify index Slot.awaitingNothing) currentPid
      index).requestSchedule
  else scheduler

/-- Wake the blocked slots that wait for something. -/
def wakeWaiters (waits : Slot → Bool) (scheduler : Scheduler) : Scheduler :=
  (List.finRange userTaskMax).foldl (wakeWaiter config waits scheduler.runningPid) scheduler

/-- `user_task_wake_waiters_for_pid`. -/
def wakeWaitersForPid (scheduler : Scheduler) (pid : ℤ) : Scheduler :=
  wakeWaiters config
    (fun slot ↦ slot.blockReason == .waitpid && slot.waitTargetPid == pid) scheduler

/-- `user_task_wake_gui_waiters`. -/
def wakeGuiWaiters (scheduler : Scheduler) (guiHandle : ℤ) : Scheduler :=
  wakeWaiters config
    (fun slot ↦ slot.blockReason == .guiEvent && slot.waitGuiHandle == guiHandle) scheduler

/-! ### Ending and signals -/

/-- `user_task_notify_exit`. -/
def notifyExit (scheduler : Scheduler) (status : ℤ) : Scheduler :=
  let pid := scheduler.runningPid
  let scheduler :=
    if pid > 0 then
      let scheduler :=
        match scheduler.findSlotByPid pid with
        | some index => (runqRemove config scheduler index).modify index (Slot.ended status)
        | none => scheduler
      wakeWaitersForPid config scheduler pid
    else scheduler
  { scheduler with
    activeSlot := none
    runningPid := 0
    pendingPid := 0
    active := false
    scheduleRequest := true }

/-- `user_task_signal_is_terminating`. -/
def signalIsTerminating (sig : ℕ) : Bool :=
  sig == 2 || sig == 3 || sig == 6 || sig == 9 || sig == 11 || sig == 13 || sig == 14 || sig == 15

/-- `SIGCHLD` for the parent of a task that was terminated. -/
def signalParent (scheduler : Scheduler) (parentPid : ℤ) : Scheduler :=
  match scheduler.findSlotByPid parentPid with
  | none => scheduler
  | some parent =>
    let scheduler := scheduler.modify parent fun slot ↦
      { slot with sigPending := slot.sigPending ||| (1#32 <<< 17) }
    let scheduler :=
      if (scheduler.slots parent).state = .blocked then
        wakeSlot config scheduler scheduler.runningPid parent
      else scheduler
    scheduler.requestSchedule

/-- `user_task_terminate_slot`. -/
def terminateSlot (scheduler : Scheduler) (index : Index) (sig : ℕ) : Scheduler :=
  let slot := scheduler.slots index
  if slot.state = .zombie then scheduler
  else if slot.pid = scheduler.runningPid then notifyExit config scheduler (-sig)
  else
    let scheduler := (runqRemove config scheduler index).modify index (Slot.ended (-sig))
    let scheduler := wakeWaitersForPid config scheduler slot.pid
    let scheduler :=
      if slot.parentPid > 0 then signalParent config scheduler slot.parentPid else scheduler
    scheduler.requestSchedule

/-- The signal that `user_task_handle_pending` delivers. -/
def Slot.pendingSignal (slot : Slot) : Option ℕ :=
  let pending := slot.sigPending &&& ~~~slot.sigMask
  (List.range' 1 31).find? fun sig ↦ pending.getLsbD sig

def Slot.pendingTerminates (slot : Slot) : Bool :=
  match slot.pendingSignal with
  | none => false
  | some sig => sig == 9 || (slot.sigHandler sig == 0 && signalIsTerminating sig)

/-- The slot with its frame rewritten to call a handler. -/
def Slot.handled (sig : ℕ) (slot : Slot) : Slot :=
  let useresp := u32 (slot.lastSyscallFrame.esp + (2 ^ 32 - 4)) / 4 * 4
  { slot with
    sigSavedFrame := slot.lastSyscallFrame
    sigSavedPresent := true
    lastSyscallFrame :=
      { slot.lastSyscallFrame with esp := useresp, eip := u32 (slot.sigHandler sig) }
    hasSyscallFrame := true }

/-- `user_task_handle_pending`. The flag says that the signal number could be copied to the user
stack. -/
def handlePending (scheduler : Scheduler) (index : Index) (copied : Bool) : Scheduler :=
  match (scheduler.slots index).pendingSignal with
  | none => scheduler
  | some sig =>
    let scheduler := scheduler.modify index fun slot ↦
      { slot with sigPending := slot.sigPending &&& ~~~(1#32 <<< sig) }
    if sig = 9 then terminateSlot config scheduler index sig
    else if (scheduler.slots index).sigHandler sig ≠ 0 then
      if copied then scheduler.modify index (Slot.handled sig) else scheduler
    else if signalIsTerminating sig then terminateSlot config scheduler index sig
    else scheduler

/-- `user_task_queue_signal`. -/
def queueSignal (scheduler : Scheduler) (pid sig : ℤ) : Scheduler :=
  if pid ≤ 0 ∨ sig ≤ 0 ∨ 32 ≤ sig then scheduler
  else
    match scheduler.findSlotByPid pid with
    | none => scheduler
    | some index =>
      let slot := scheduler.slots index
      if slot.sigHandler sig.toNat = 0 ∧ signalIsTerminating sig.toNat then
        terminateSlot config scheduler index sig.toNat
      else
        let scheduler := scheduler.modify index fun slot ↦
          { slot with sigPending := slot.sigPending ||| (1#32 <<< sig.toNat) }
        if slot.state = .runnable then scheduler.requestSchedule else scheduler

/-- `user_task_set_handler_current`. -/
def setHandlerCurrent (scheduler : Scheduler) (sig : ℤ) (handler : ℕ) : Scheduler :=
  if sig ≤ 0 ∨ 32 ≤ sig ∨ sig = 9 then scheduler
  else scheduler.modifyCurrent fun slot ↦
    { slot with sigHandler := Function.update slot.sigHandler sig.toNat handler }

/-- `user_task_sigreturn_current`, with the frame it restores. -/
def sigreturnCurrent (scheduler : Scheduler) : Option Regs × Scheduler :=
  match scheduler.currentSlot with
  | none => (none, scheduler)
  | some index =>
    if ¬(scheduler.slots index).sigSavedPresent then (none, scheduler)
    else
      (some (scheduler.slots index).sigSavedFrame,
        scheduler.modify index fun slot ↦ { slot with sigSavedPresent := false })

/-! ### Switching between frames -/

/-- The slot with a frame saved under a generation. -/
def Slot.captured (regs : Regs) (generation : ℕ) (slot : Slot) : Slot :=
  { slot with
    lastSyscallFrame := regs, hasSyscallFrame := true, syscallFrameGeneration := generation }

/-- `user_task_capture_syscall_frame`. -/
def captureSyscallFrame (scheduler : Scheduler) (regs : Regs) : Scheduler :=
  scheduler.modifyCurrent (Slot.captured regs scheduler.runtimeGeneration)

/-- A slot can be resumed from its saved frame. -/
def Scheduler.resumable (scheduler : Scheduler) (currentPid : ℤ) (slot : Slot) : Bool :=
  slot.used && slot.pid != currentPid && slot.state == .runnable && slot.hasSyscallFrame &&
    slot.syscallFrameGeneration == scheduler.runtimeGeneration && slot.runtime == scheduler.live

/-- The first of the resumable slots with the highest level. -/
def Scheduler.resumeTarget (scheduler : Scheduler) (currentPid : ℤ) : Option Index :=
  (List.finRange userTaskMax).foldl
    (fun target index ↦
      if ¬scheduler.resumable currentPid (scheduler.slots index) then target
      else
        match target with
        | none => some index
        | some other =>
          if (scheduler.slots index).mlfqLevel > (scheduler.slots other).mlfqLevel then some index
          else target)
    none

/-- Save the frame of the current task, queue it and go on with the frame of the target. The frame
is what the interrupt return uses. -/
def switchTo (scheduler : Scheduler) (current target : Index) (regs : Regs)
    (account : Slot → Slot) (copied : Bool) : Regs × Scheduler :=
  let scheduler := scheduler.modify current fun slot ↦
    { account (slot.captured regs scheduler.runtimeGeneration) with state := .runnable }
  let scheduler := runqRemove config (runqEnqueue config scheduler current) target
  let scheduler := scheduler.modify target (Slot.refilled config)
  -- Deliver any pending signals for the target before switching.
  let scheduler := handlePending config scheduler target copied
  ((scheduler.slots target).lastSyscallFrame,
    { scheduler.modify target fun slot ↦ { slot with state := .running } with
      activeSlot := some target
      runningPid := (scheduler.slots target).pid
      scheduleRequest := false })

/-- The current task and the target of `user_task_try_resume_from_syscall`, if it switches, in the
scheduler that it has reached then. -/
def resumeSwitch (scheduler : Scheduler) : Option (Index × Index) × Scheduler :=
  if ¬scheduler.scheduleRequest ∨ ¬scheduler.active then (none, scheduler)
  else
    let scheduler := mlfqBoostIfDue config scheduler
    match scheduler.currentSlot, scheduler.resumeTarget scheduler.runningPid with
    | some current, some target => (some (current, target), scheduler)
    | _, _ => (none, scheduler)

/-- `user_task_try_resume_from_syscall`. -/
def tryResumeFromSyscall (scheduler : Scheduler) (regs : Regs) (copied : Bool) :
    Option Regs × Scheduler :=
  match resumeSwitch config scheduler with
  | (none, scheduler) => (none, scheduler)
  | (some (current, target), scheduler) =>
    let switched :=
      switchTo config scheduler current target regs (Slot.accountPreempt config) copied
    (some switched.1, switched.2)

/-- The current task and the target of `user_task_try_preempt_from_irq`, if it switches, in the
scheduler that it has reached then. -/
def preemptSwitch (scheduler : Scheduler) (regs : Regs) : Option (Index × Index) × Scheduler :=
  if ¬config.irqPreempt ∨ ¬scheduler.active then (none, scheduler)
  else
    let scheduler := mlfqBoostIfDue config scheduler
    match scheduler.currentSlot with
    | none => (none, scheduler)
    | some current =>
      let sliceBefore := (scheduler.slots current).mlfqSliceLeft
      let scheduler := scheduler.modify current (Slot.accountPreempt config)
      let scheduler := if sliceBefore = 1 then scheduler.requestSchedule else scheduler
      if ¬scheduler.scheduleRequest ∨ regs.cs % 4 ≠ 3 then (none, scheduler)
      else
        match scheduler.resumeTarget scheduler.runningPid with
        | none => (none, scheduler)
        | some target => (some (current, target), scheduler)

/-- `user_task_try_preempt_from_irq` with the registers of the interrupt frame. -/
def tryPreemptFromIrq (scheduler : Scheduler) (regs : Regs) (copied : Bool) :
    Option Regs × Scheduler :=
  match preemptSwitch config scheduler regs with
  | (none, scheduler) => (none, scheduler)
  | (some (current, target), scheduler) =>
    let switched :=
      switchTo config scheduler current target { regs with intNo := 0, errCode := 0 } id copied
    (some switched.1, switched.2)

/-! ### Waiting -/

/-- The slot that `user_task_waitpid` gives back. -/
def Slot.reaped (slot : Slot) : Slot :=
  { slot.awaitingNothing with
    used := false
    pid := 0
    state := .unused
    status := 0
    image := none
    mlfqLevel := levelHigh
    mlfqSliceLeft := levelQuantumTicks config levelHigh
    hasSyscallFrame := false
    syscallFrameGeneration := 0
    entries := 0
    exited := false }

/-- The end of `user_task_waitpid` for a zombie. -/
def reap (scheduler : Scheduler) (index : Index) : Scheduler :=
  let scheduler := runqRemove config (unblockCurrent scheduler) index
  { scheduler.modify index (Slot.reaped config) with
    runq := scheduler.runq.release index
    scheduleRequest := true }

/-- The start of `user_task_waitpid`, before its loop. -/
def waitpidEnter (scheduler : Scheduler) (pid : ℤ) (nohang : Bool) : Scheduler :=
  match scheduler.findSlotByPid pid with
  | none => scheduler
  | some index =>
    if (scheduler.slots index).state ≠ .zombie ∧ ¬nohang then
      blockCurrentWaitpid config scheduler pid
    else scheduler

/-- One pass through the loop of `user_task_waitpid`: reap a zombie, else launch a queued task, else
give up or wait for an interrupt. -/
def waitpidLoop (scheduler : Scheduler) (pid : ℤ) (nohang : Bool) (load : Load) : Scheduler :=
  match scheduler.findSlotByPid pid with
  | none => scheduler
  | some index =>
    if (scheduler.slots index).state = .zombie then reap config scheduler index
    else
      match continueOrSchedule config scheduler load with
      | (true, scheduler) => scheduler
      | (false, scheduler) => if nohang then unblockCurrent scheduler else scheduler

/-! ### Events -/

/-- What happens to the task table. Events that may launch a task carry what the loader does. -/
inductive Event
  | tick
  | schedulerTick
  | spawn (image : Option Image) (load : Load)
  | poll (load : Load)
  | abortContinue (load : Load)
  | captureSyscallFrame (regs : Regs)
  | tryResume (regs : Regs) (copied : Bool)
  | tryPreempt (regs : Regs) (copied : Bool)
  | blockSleep (wakeTick : ℕ)
  | blockGuiWait (guiHandle : ℤ)
  | unblock
  | wakeGui (guiHandle : ℤ)
  | queueSignal (pid sig : ℤ)
  | setHandler (sig : ℤ) (handler : ℕ)
  | sigreturn
  | exit (status : ℤ)
  | waitpidEnter (pid : ℤ) (nohang : Bool)
  | waitpidLoop (pid : ℤ) (nohang : Bool) (load : Load)

def Event.spawnsIn (scheduler : Scheduler) : Event → Bool
  | .spawn (some _) _ => scheduler.allocSlot.isSome
  | _ => false

/-- The scheduler in which an event calls `user_task_continue_or_schedule`, if it does, and what the
loader does there. -/
def Event.schedules (scheduler : Scheduler) : Event → Option (Scheduler × Load)
  | .spawn (some image) load =>
    match scheduler.allocSlot with
    | some index =>
      if scheduler.active then none else some (spawnInto config scheduler index image, load)
    | none => none
  | .poll load =>
    if scheduler.scheduleRequest ∧ ¬scheduler.active then some (scheduler, load) else none
  | .abortContinue load => some (scheduler.aborted, load)
  | .waitpidLoop pid _ load =>
    match scheduler.findSlotByPid pid with
    | some index =>
      if (scheduler.slots index).state = .zombie then none else some (scheduler, load)
    | none => none
  | _ => none

/-- The tasks between which an event switches, if it does, in the scheduler it has reached then. -/
def Event.switches (scheduler : Scheduler) : Event → Option (Index × Index) × Scheduler
  | .tryResume _ _ => resumeSwitch config scheduler
  | .tryPreempt regs _ => preemptSwitch config scheduler regs
  | _ => (none, scheduler)

/-- One event. -/
def step (scheduler : Scheduler) : Event → Scheduler
  | .tick => schedulerTick config { scheduler with now := u32 (scheduler.now + 1) }
  | .schedulerTick => schedulerTick config scheduler
  | .spawn image load => spawnArgv config scheduler image load
  | .poll load => pollScheduler config scheduler load
  | .abortContinue load => (continueOrSchedule config scheduler.aborted load).2
  | .captureSyscallFrame regs => captureSyscallFrame scheduler regs
  | .tryResume regs copied => (tryResumeFromSyscall config scheduler regs copied).2
  | .tryPreempt regs copied => (tryPreemptFromIrq config scheduler regs copied).2
  | .blockSleep wakeTick => blockCurrentSleepUntil config scheduler wakeTick
  | .blockGuiWait guiHandle => blockCurrentGuiWait config scheduler guiHandle
  | .unblock => unblockCurrent scheduler
  | .wakeGui guiHandle => wakeGuiWaiters config scheduler guiHandle
  | .queueSignal pid sig => queueSignal config scheduler pid sig
  | .setHandler sig handler => setHandlerCurrent scheduler sig handler
  | .sigreturn => (sigreturnCurrent scheduler).2
  | .exit status => notifyExit config scheduler status
  | .waitpidEnter pid nohang => waitpidEnter config scheduler pid nohang
  | .waitpidLoop pid nohang load => waitpidLoop config scheduler pid nohang load

/-! ### A build and a program -/

/-- The default quanta and boost interval at 50 Hz, without preemption by the timer. -/
def defaultConfig : Config where
  quantumTicks := fun level ↦ if level = 0 then 1 else if level = 1 then 2 else 3
  boostIntervalTicks := 50
  irqPreempt := false

/-- A program without arguments. -/
def shellImage : Image := ⟨0, "/binaries/shell", []⟩

def entersShell : Load := .entered ⟨0x400000, 1, 0xBFFF7000⟩ 0x400000 0xBFFFEF00 0x1B 0x23

end EynOS.Process.UserTask
