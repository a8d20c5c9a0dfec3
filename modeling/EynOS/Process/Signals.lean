import EynOS.Foundation.Run
import Mathlib.Data.List.FinRange
import Mathlib.Logic.Function.Basic

/-!
# The signals of a user task

A slot of the task table has the pending signals, the handlers and the registers with which its task
entered the kernel last. Before the task is resumed `user_task_handle_pending` takes the lowest
pending signal: for one with a handler it writes the number of the signal to the user's stack, saves
the registers in the slot and makes the task resume in the handler, and `sigreturn` brings the saved
registers back. There is room for one set of saved registers.

`Task.frames` records the registers that each handler interrupted and whose `sigreturn` is still to
come; no function reads it. `signals_restored` is about the runs in which no write to the user's
stack fails and no handler is set up while saved registers are outstanding: a signal with a handler
is not dropped, and what a `sigreturn` brings back are the registers that the handler interrupted.
`signals_not_restored` shows both failing otherwise.

Not modelled: scheduling, the termination of the running task beyond its state, and the number of
the signal on the stack; whether it can be written is a part of the event.
-/

namespace EynOS.Process.Signals

open Foundation

/-! ### The slot of a task -/

/-- `regs_t`. -/
structure Regs where
  edi : UInt32
  esi : UInt32
  ebp : UInt32
  esp : UInt32
  ebx : UInt32
  edx : UInt32
  ecx : UInt32
  eax : UInt32
  intNo : UInt32
  errCode : UInt32
  eip : UInt32
  cs : UInt32
  eflags : UInt32
  useresp : UInt32
  ss : UInt32
  deriving DecidableEq

abbrev Signal := Fin 32

/-- What a slot of the task table has for signals. A handler of 0 is no handler. -/
structure Slot where
  zombie : Bool
  status : ℤ
  sigPending : BitVec 32
  sigMask : BitVec 32
  sigHandler : Signal → UInt32
  sigSavedFrame : Regs
  sigSavedPresent : Bool
  hasSyscallFrame : Bool
  lastSyscallFrame : Regs

/-- `1u << sig`. -/
def signalBit (sig : Signal) : BitVec 32 := BitVec.twoPow 32 sig.val

def userTaskSignalIsTerminating (sig : Signal) : Bool :=
  decide (sig ∈ [2, 3, 6, 9, 11, 13, 14, 15])

/-- `user_task_terminate_slot`, which is what `user_task_notify_exit` does to the slot too. -/
def userTaskTerminateSlot (sig : Signal) (slot : Slot) : Slot :=
  if slot.zombie then slot else { slot with zombie := true, status := -sig.val }

def firstPending (slot : Slot) : Option Signal :=
  (List.finRange 32).find? fun sig ↦
    decide (1 ≤ sig) && (slot.sigPending &&& ~~~slot.sigMask).getLsbD sig.val

def handlerRegs (slot : Slot) (sig : Signal) : Regs :=
  { slot.lastSyscallFrame with
    esp := (slot.lastSyscallFrame.esp - 4) &&& ~~~3
    eip := slot.sigHandler sig }

def setUpHandler (sig : Signal) (slot : Slot) : Slot :=
  { slot with
    sigSavedFrame := slot.lastSyscallFrame
    sigSavedPresent := true
    lastSyscallFrame := handlerRegs slot sig
    hasSyscallFrame := true }

/-- `user_task_handle_pending`, where the write to the user's stack succeeds or fails. -/
def userTaskHandlePending (copied : Bool) (slot : Slot) : Slot :=
  match firstPending slot with
  | none => slot
  | some sig =>
    let taken := { slot with sigPending := slot.sigPending &&& ~~~(signalBit sig) }
    if sig = 9 then userTaskTerminateSlot sig taken
    else if taken.sigHandler sig ≠ 0 then
      if copied then setUpHandler sig taken else taken
    else if userTaskSignalIsTerminating sig then userTaskTerminateSlot sig taken
    else taken

def userTaskQueueSignal (sig : ℤ) (slot : Slot) : ℤ × Slot :=
  if hsig : 0 < sig ∧ sig < 32 then
    let signal : Signal := ⟨sig.toNat, by omega⟩
    if slot.sigHandler signal = 0 ∧ userTaskSignalIsTerminating signal then
      (0, userTaskTerminateSlot signal slot)
    else (0, { slot with sigPending := slot.sigPending ||| signalBit signal })
  else (-1, slot)

def userTaskSetHandlerCurrent (sig : ℤ) (handler : UInt32) (slot : Slot) : ℤ × Slot :=
  if hsig : 0 < sig ∧ sig < 32 then
    if sig = 9 then (-1, slot)
    else (0, { slot with
      sigHandler := Function.update slot.sigHandler ⟨sig.toNat, by omega⟩ handler })
  else (-1, slot)

def userTaskCaptureSyscallFrame (regs : Regs) (slot : Slot) : Slot :=
  { slot with lastSyscallFrame := regs, hasSyscallFrame := true }

/-- `user_task_sigreturn_current`: the answer, the registers and the slot. -/
def userTaskSigreturnCurrent (regs : Regs) (slot : Slot) : ℤ × Regs × Slot :=
  if !slot.sigSavedPresent then (-1, regs, slot)
  else (0, slot.sigSavedFrame, { slot with sigSavedPresent := false })

/-! ### A task -/

/-- A task: its slot, its registers, and the registers that its handlers have interrupted. -/
structure Task where
  slot : Slot
  registers : Regs
  frames : List Regs

/-- What happens to a task. -/
inductive Event
  | queueSignal (sig : ℤ)
  | childTerminated
  | setHandler (sig : ℤ) (handler : UInt32)
  | capture (regs : Regs)
  | resume (copied : Bool)
  | sigreturn

/-- The signal whose handler a task is about to be resumed in. -/
def delivered (slot : Slot) : Option Signal :=
  (firstPending slot).filter fun sig ↦ decide (sig ≠ 9) && decide (slot.sigHandler sig ≠ 0)

def setsUp (slot : Slot) (copied : Bool) : Bool := (delivered slot).isSome && copied

/-- One event. A task is resumed with the registers that `user_task_handle_pending` leaves in its
slot. -/
def step (task : Task) : Event → Task
  | .queueSignal sig => { task with slot := (userTaskQueueSignal sig task.slot).2 }
  | .childTerminated =>
    { task with slot := { task.slot with sigPending := task.slot.sigPending ||| signalBit 17 } }
  | .setHandler sig handler =>
    { task with slot := (userTaskSetHandlerCurrent sig handler task.slot).2 }
  | .capture regs =>
    { task with slot := userTaskCaptureSyscallFrame regs task.slot, registers := regs }
  | .resume copied =>
    { slot := userTaskHandlePending copied task.slot
      registers := (userTaskHandlePending copied task.slot).lastSyscallFrame
      frames :=
        if setsUp task.slot copied then task.slot.lastSyscallFrame :: task.frames
        else task.frames }
  | .sigreturn =>
    { slot := (userTaskSigreturnCurrent task.registers task.slot).2.2
      registers := (userTaskSigreturnCurrent task.registers task.slot).2.1
      frames := task.frames.tail }

/-- A task without handlers and saved registers. -/
structure Fresh (task : Task) : Prop where
  handlers : task.slot.sigHandler = fun _ ↦ 0
  saved : task.slot.sigSavedPresent = false
  frames : task.frames = []

/-! ### What is expected of signals -/

/-- A signal is pending, not masked, and has a handler. -/
def Handled (slot : Slot) (sig : Signal) : Prop :=
  1 ≤ sig ∧ slot.sigPending.getLsbD sig.val = true ∧ slot.sigMask.getLsbD sig.val = false ∧
    slot.sigHandler sig ≠ 0

/-- The task resumes in the handler of a signal, and the registers that it interrupts are saved. -/
def InHandler (before after : Slot) (sig : Signal) : Prop :=
  after.lastSyscallFrame = handlerRegs before sig ∧ after.hasSyscallFrame = true ∧
    after.sigSavedFrame = before.lastSyscallFrame ∧ after.sigSavedPresent = true

/-- An event drops no signal that has a handler. -/
def Lossless (task after : Task) : Prop :=
  ∀ sig, Handled task.slot sig →
    after.slot.sigPending.getLsbD sig.val = true ∨ InHandler task.slot after.slot sig

/-- Where a handler is set up, more are set up while it runs and each of these has had its
`sigreturn`, the next `sigreturn` brings back the registers that it interrupted. -/
def Restores (guard : Task → Event → Prop) (task : Task) : Prop :=
  ∀ copied, guard task (.resume copied) → setsUp task.slot copied = true →
    ∀ events late,
      Run (Guarded (fun before event ↦
          guard before event ∧ task.frames.length < (step before event).frames.length)
        (Moves step)) (step task (.resume copied)) events late →
      late.frames.length = task.frames.length + 1 →
        (step late .sigreturn).registers = task.slot.lastSyscallFrame

/-- Where a handler is to be set up, the write to the user's stack succeeds and no saved registers
are outstanding. -/
def Safe (task : Task) : Event → Prop
  | .resume copied => (delivered task.slot).isSome = true →
      copied = true ∧ task.slot.sigSavedPresent = false
  | _ => True

variable {task after : Task} {slot : Slot} {sig other : Signal} {copied : Bool} {event : Event}

/-! ### Pending signals -/

/-- Taking the bit of a signal away leaves the others. -/
theorem getLsbD_clear (bits : BitVec 32) (hother : other ≠ sig)
    (hset : bits.getLsbD other.val = true) :
    (bits &&& ~~~(signalBit sig)).getLsbD other.val = true := by
  have hne : sig.val ≠ other.val := fun heq ↦ hother (Fin.ext heq.symm)
  unfold signalBit
  rw [BitVec.getLsbD_and, BitVec.getLsbD_not, BitVec.getLsbD_twoPow, hset]
  simp [hne]

/-- The signal whose handler is set up is pending, not masked and has a handler. -/
theorem delivered_eq_some (hdelivered : delivered slot = some sig) :
    firstPending slot = some sig ∧ sig ≠ 9 ∧ Handled slot sig := by
  obtain ⟨hfirst, hkind⟩ := Option.filter_eq_some_iff.mp hdelivered
  simp only [Bool.and_eq_true, decide_eq_true_eq] at hkind
  have hbits := List.find?_some hfirst
  simp only [Bool.and_eq_true, decide_eq_true_eq, BitVec.getLsbD_and, BitVec.getLsbD_not] at hbits
  obtain ⟨hpositive, hpending, -, hmask⟩ := hbits
  exact ⟨hfirst, hkind.1, hpositive, hpending, by simpa using hmask, hkind.2⟩

/-- Where a handler is to be set up, it is unless the write to the user's stack fails. -/
theorem handlePending_of_some (hdelivered : delivered slot = some sig) :
    userTaskHandlePending copied slot =
      if copied then
        setUpHandler sig { slot with sigPending := slot.sigPending &&& ~~~(signalBit sig) }
      else { slot with sigPending := slot.sigPending &&& ~~~(signalBit sig) } := by
  obtain ⟨hfirst, hne, hhandled⟩ := delivered_eq_some hdelivered
  unfold userTaskHandlePending
  rw [hfirst]
  dsimp only
  rw [if_neg hne, if_pos hhandled.2.2.2]

/-- Terminating a task changes only its state. -/
theorem exists_terminateSlot (sig : Signal) (slot : Slot) :
    ∃ zombie status,
      userTaskTerminateSlot sig slot = { slot with zombie := zombie, status := status } := by
  unfold userTaskTerminateSlot
  split_ifs
  · exact ⟨slot.zombie, slot.status, rfl⟩
  · exact ⟨true, -sig.val, rfl⟩

/-- Where no handler is to be set up, only signals without one are dropped. -/
theorem handlePending_of_none (copied : Bool) (hdelivered : delivered slot = none)
    (hnine : slot.sigHandler 9 = 0) :
    ∃ pending zombie status, userTaskHandlePending copied slot =
        { slot with sigPending := pending, zombie := zombie, status := status } ∧
      ∀ sig, Handled slot sig → pending.getLsbD sig.val = true := by
  unfold userTaskHandlePending
  cases hfirst : firstPending slot with
  | none => exact ⟨slot.sigPending, slot.zombie, slot.status, rfl, fun sig hhandled ↦ hhandled.2.1⟩
  | some first =>
    have hunhandled : slot.sigHandler first = 0 := by
      by_contra hhandler
      have hne : first ≠ 9 := by
        rintro rfl
        exact hhandler hnine
      unfold delivered at hdelivered
      simp [hfirst, hne, hhandler] at hdelivered
    have hkept (sig : Signal) (hhandled : Handled slot sig) :
        (slot.sigPending &&& ~~~(signalBit first)).getLsbD sig.val = true := by
      refine getLsbD_clear _ ?_ hhandled.2.1
      rintro rfl
      exact hhandled.2.2.2 hunhandled
    obtain ⟨zombie, status, hterminated⟩ := exists_terminateSlot first
      { slot with sigPending := slot.sigPending &&& ~~~(signalBit first) }
    dsimp only
    rw [if_neg (not_not.mpr hunhandled)]
    split_ifs
    · exact ⟨_, zombie, status, hterminated, hkept⟩
    · exact ⟨_, zombie, status, hterminated, hkept⟩
    · exact ⟨_, slot.zombie, slot.status, rfl, hkept⟩

/-! ### Every event -/

/-- Signal 9 has no handler, and the saved registers are those that the outstanding handler has
interrupted. -/
structure Sound (task : Task) : Prop where
  nine : task.slot.sigHandler 9 = 0
  frames : task.frames =
    if task.slot.sigSavedPresent then [task.slot.sigSavedFrame] else []

/-- Queueing a signal changes neither the handlers nor the saved registers, and drops no signal. -/
theorem queueSignal_kept (sig : ℤ) (slot : Slot) :
    (userTaskQueueSignal sig slot).2.sigHandler = slot.sigHandler ∧
      (userTaskQueueSignal sig slot).2.sigSavedPresent = slot.sigSavedPresent ∧
        (userTaskQueueSignal sig slot).2.sigSavedFrame = slot.sigSavedFrame ∧
          ∀ other : Signal, slot.sigPending.getLsbD other.val = true →
            (userTaskQueueSignal sig slot).2.sigPending.getLsbD other.val = true := by
  unfold userTaskQueueSignal
  by_cases hsig : 0 < sig ∧ sig < 32
  · rw [dif_pos hsig]
    dsimp only
    split_ifs with hterminating
    · obtain ⟨zombie, status, hterminated⟩ := exists_terminateSlot ⟨sig.toNat, by omega⟩ slot
      rw [hterminated]
      exact ⟨rfl, rfl, rfl, fun _ hset ↦ hset⟩
    · refine ⟨rfl, rfl, rfl, fun other hset ↦ ?_⟩
      rw [BitVec.getLsbD_or, hset, Bool.true_or]
  · rw [dif_neg hsig]
    exact ⟨rfl, rfl, rfl, fun _ hset ↦ hset⟩

/-- Installing a handler leaves signal 9 without one and changes nothing else. -/
theorem setHandler_kept (sig : ℤ) (handler : UInt32) (slot : Slot) :
    (userTaskSetHandlerCurrent sig handler slot).2.sigHandler 9 = slot.sigHandler 9 ∧
      (userTaskSetHandlerCurrent sig handler slot).2.sigSavedPresent = slot.sigSavedPresent ∧
        (userTaskSetHandlerCurrent sig handler slot).2.sigSavedFrame = slot.sigSavedFrame ∧
          (userTaskSetHandlerCurrent sig handler slot).2.sigPending = slot.sigPending := by
  unfold userTaskSetHandlerCurrent
  split_ifs with hsig hnine
  · exact ⟨rfl, rfl, rfl, rfl⟩
  · refine ⟨Function.update_of_ne ?_ _ _, rfl, rfl, rfl⟩
    intro heq
    have hval := congrArg Fin.val heq
    simp only at hval
    omega
  · exact ⟨rfl, rfl, rfl, rfl⟩

/-- A safe event keeps the saved registers in order. -/
theorem sound_step (hsound : Sound task) (hsafe : Safe task event) : Sound (step task event) := by
  cases event with
  | queueSignal sig =>
    obtain ⟨hhandlers, hpresent, hframe, -⟩ := queueSignal_kept sig task.slot
    refine ⟨(congrFun hhandlers 9).trans hsound.nine, hsound.frames.trans ?_⟩
    rw [← hpresent, ← hframe]
    rfl
  | childTerminated => exact ⟨hsound.nine, hsound.frames⟩
  | setHandler sig handler =>
    obtain ⟨hnine, hpresent, hframe, -⟩ := setHandler_kept sig handler task.slot
    refine ⟨hnine.trans hsound.nine, hsound.frames.trans ?_⟩
    rw [← hpresent, ← hframe]
    rfl
  | capture regs => exact ⟨hsound.nine, hsound.frames⟩
  | resume copied =>
    cases hdelivered : delivered task.slot with
    | none =>
      obtain ⟨pending, zombie, status, hslot, -⟩ :=
        handlePending_of_none copied hdelivered hsound.nine
      have hsets : setsUp task.slot copied = false := by simp [setsUp, hdelivered]
      simp only [step, hslot, hsets]
      exact ⟨hsound.nine, hsound.frames⟩
    | some sig =>
      obtain ⟨rfl, hpresent⟩ := hsafe (by simp [hdelivered])
      have hsets : setsUp task.slot true = true := by simp [setsUp, hdelivered]
      have hempty := hsound.frames
      rw [hpresent] at hempty
      simp only [step, handlePending_of_some hdelivered, hsets, hempty]
      exact ⟨hsound.nine, rfl⟩
  | sigreturn =>
    have hframes := hsound.frames
    unfold step userTaskSigreturnCurrent
    cases hpresent : task.slot.sigSavedPresent with
    | false =>
      rw [hpresent] at hframes
      refine ⟨hsound.nine, ?_⟩
      simp [hframes, hpresent]
    | true =>
      rw [hpresent] at hframes
      refine ⟨hsound.nine, ?_⟩
      simp [hframes]

/-- A safe event drops no signal that has a handler. -/
theorem lossless_step (hsound : Sound task) (hsafe : Safe task event) :
    Lossless task (step task event) := by
  intro sig hhandled
  cases event with
  | queueSignal queued => exact .inl ((queueSignal_kept queued task.slot).2.2.2 sig hhandled.2.1)
  | childTerminated =>
    left
    simp only [step]
    rw [BitVec.getLsbD_or, hhandled.2.1, Bool.true_or]
  | setHandler changed handler =>
    left
    simp only [step, (setHandler_kept changed handler task.slot).2.2.2]
    exact hhandled.2.1
  | capture regs => exact .inl hhandled.2.1
  | resume copied =>
    cases hdelivered : delivered task.slot with
    | none =>
      obtain ⟨pending, zombie, status, hslot, hkept⟩ :=
        handlePending_of_none copied hdelivered hsound.nine
      left
      simp only [step, hslot]
      exact hkept sig hhandled
    | some first =>
      obtain ⟨rfl, -⟩ := hsafe (by simp [hdelivered])
      simp only [step, handlePending_of_some hdelivered]
      by_cases hsame : sig = first
      · right
        rw [hsame]
        exact ⟨rfl, rfl, rfl, rfl⟩
      · exact .inl (getLsbD_clear _ hsame hhandled.2.1)
  | sigreturn =>
    left
    unfold step userTaskSigreturnCurrent
    split_ifs <;> exact hhandled.2.1

/-- While a handler runs and no other is set up, its registers stay saved. -/
theorem saved_run {middle late : Task} {events : List Event} {frame : Regs}
    (hsound : Sound middle) (hframes : middle.frames = [frame])
    (hrun :
      Run (Guarded (fun before event ↦ Safe before event ∧ 0 < (step before event).frames.length)
      (Moves step)) middle events late) : Sound late ∧ late.frames = [frame] := by
  induction hrun with
  | refl => exact ⟨hsound, hframes⟩
  | @snoc events before next event _ hlast ih =>
    obtain ⟨hbefore, hsaved⟩ := ih
    obtain ⟨⟨hsafe, hnested⟩, hmoves⟩ := hlast
    obtain rfl : step before event = next := hmoves
    refine ⟨sound_step hbefore hsafe, ?_⟩
    cases event with
    | resume copied =>
      have hpresent : before.slot.sigSavedPresent = true := by
        by_contra habsent
        have hempty := hbefore.frames
        rw [if_neg habsent, hsaved] at hempty
        exact absurd hempty (by simp)
      cases hdelivered : delivered before.slot with
      | none =>
        have hsets : setsUp before.slot copied = false := by simp [setsUp, hdelivered]
        simp only [step, hsets]
        exact hsaved
      | some sig =>
        obtain ⟨-, habsent⟩ := hsafe (by simp [hdelivered])
        exact absurd (hpresent.symm.trans habsent) (by decide)
    | sigreturn =>
      simp [step, hsaved] at hnested
    | queueSignal sig => exact hsaved
    | childTerminated => exact hsaved
    | setHandler sig handler => exact hsaved
    | capture regs => exact hsaved

/-- Where handlers are set up safely their registers are brought back. -/
theorem restores_of_sound (hsound : Sound task) : Restores Safe task := by
  intro copied hsafe hsets events late hrun hlength
  have hsome : (delivered task.slot).isSome = true := by
    unfold setsUp at hsets
    exact (Bool.and_eq_true_iff.mp hsets).1
  obtain ⟨-, habsent⟩ := hsafe hsome
  have hempty : task.frames = [] := by
    rw [hsound.frames, habsent]
    rfl
  rw [hempty] at hrun hlength
  have hframes : (step task (.resume copied)).frames = [task.slot.lastSyscallFrame] := by
    simp [step, hsets, hempty]
  obtain ⟨hlate, hsaved⟩ := saved_run (sound_step hsound hsafe) hframes hrun
  have hpresent := hlate.frames
  rw [hsaved] at hpresent
  unfold step userTaskSigreturnCurrent
  cases hlatePresent : late.slot.sigSavedPresent with
  | false => simp [hlatePresent] at hpresent
  | true =>
    rw [hlatePresent] at hpresent
    exact (List.cons.inj hpresent).1.symm

/-- A task without handlers and saved registers is sound. -/
theorem Fresh.sound (hfresh : Fresh task) : Sound task := by
  refine ⟨congrFun hfresh.handlers 9, ?_⟩
  rw [hfresh.saved, hfresh.frames]
  rfl

/-! ### Runs -/

/-- In every run of a task in which each write to the user's stack for a handler succeeds and no
handler is set up while saved registers are outstanding, a pending signal with a handler is not
dropped without its handler being set up, and a `sigreturn` brings back the registers that its
handler interrupted. -/
theorem signals_restored {start task : Task} {events : List Event} (hstart : Fresh start)
    (hrun : Run (Guarded Safe (Moves step)) start events task) :
    (∀ event, Safe task event → Lossless task (step task event)) ∧ Restores Safe task := by
  have hsound : Sound task :=
    hrun.guarded_invariant (fun before event after hbefore hsafe hmoves ↦ by
      obtain rfl : step before event = after := hmoves
      exact sound_step hbefore hsafe) hstart.sound
  exact ⟨fun event hsafe ↦ lossless_step hsound hsafe, restores_of_sound hsound⟩

/-- Registers that differ in the instruction pointer only. -/
def regsAt (eip : UInt32) : Regs :=
  { edi := 0, esi := 0, ebp := 0, esp := 0x8000, ebx := 0, edx := 0, ecx := 0, eax := 0, intNo := 0
    errCode := 0, eip := eip, cs := 0, eflags := 0, useresp := 0, ss := 0 }

/-- The slot of a task that has just been spawned. -/
def spawned : Task :=
  { slot :=
      { zombie := false, status := 0, sigPending := 0, sigMask := 0, sigHandler := fun _ ↦ 0
        sigSavedFrame := regsAt 0, sigSavedPresent := false, hasSyscallFrame := false
        lastSyscallFrame := regsAt 0 }
    registers := regsAt 0
    frames := [] }

theorem fresh_spawned : Fresh spawned := ⟨rfl, rfl, rfl⟩

/-- A handler for signal 2 is installed, the signal is queued, and the task enters the kernel. -/
def interrupted : List Event := [.setHandler 2 0x1000, .queueSignal 2, .capture (regsAt 0x5000)]

/-- The handler of a signal runs and returns. -/
theorem signals_restored_once : Fresh spawned ∧
    Run (Guarded Safe (Moves step)) spawned interrupted (interrupted.foldl step spawned) ∧
      (step (step (interrupted.foldl step spawned) (.resume true)) .sigreturn).registers =
        regsAt 0x5000 := by
  have hrun :
      Run (Guarded Safe (Moves step)) spawned interrupted (interrupted.foldl step spawned) :=
    .of_allowed ⟨trivial, trivial, trivial, trivial⟩
  have hrestores := (signals_restored fresh_spawned hrun).2
  exact ⟨fresh_spawned, hrun, hrestores true (fun _ ↦ ⟨rfl, rfl⟩) (by decide) [] _ .refl
    (by decide)⟩

/-- While the handler runs the signal is queued again and its handler is set up once more; both
handlers call `sigreturn`, the first of them from 0x7000. -/
def nested : List Event :=
  [.queueSignal 2, .capture (regsAt 0x6000), .resume true, .capture (regsAt 0x1010), .sigreturn,
    .capture (regsAt 0x7000)]

/-- A write to the user's stack that fails drops a signal that has a handler, and a handler that is
set up while another one runs makes the registers that the other one interrupted get lost. -/
theorem signals_not_restored :
    (¬∀ start events task, Fresh start → Run (Moves step) start events task →
      ∀ event, Lossless task (step task event)) ∧
    ¬∀ start events task, Fresh start → Run (Moves step) start events task →
      Restores (fun _ _ ↦ True) task := by
  have hrun := Run.of_foldl step spawned interrupted
  constructor
  · intro hall
    have hlossless := hall _ _ _ fresh_spawned hrun (.resume false) 2 (by
      refine ⟨by decide, by decide, by decide, by decide⟩)
    rcases hlossless with hpending | hhandler
    · exact absurd hpending (by decide)
    · exact absurd hhandler.2.2.2 (by decide)
  · intro hall
    have hnested : Run (Guarded (fun before event ↦
          True ∧ (interrupted.foldl step spawned).frames.length < (step before event).frames.length)
        (Moves step)) (step (interrupted.foldl step spawned) (.resume true)) nested
        (nested.foldl step (step (interrupted.foldl step spawned) (.resume true))) :=
      .of_allowed (by decide)
    have hrestored := hall _ _ _ fresh_spawned hrun true trivial (by decide) nested _ hnested
      (by decide)
    exact absurd (congrArg Regs.eip hrestored) (by decide)

end EynOS.Process.Signals
