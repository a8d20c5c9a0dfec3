import EynOS.Foundation.MachineWord
import EynOS.Foundation.Run
import EynOS.Foundation.ThreadedQueues

/-!
# The work queues of the scheduler

`State` has the table of 64 work items, the run queue of each of 32 priorities threaded through it,
and the bitmap of the queues that have entries. A work item is run by a call through its callback,
which may call every operation on work items before it returns, so that
`schedWorkOnTimesliceEnd` stops where it makes the call and `callbackReturns` is the rest of it.

Not modelled: the counters of runs, demotions and boosts, the user data and the cache hint of an
item, and the timeslice of user tasks.
-/

namespace EynOS.Process.SchedWork

open Foundation

/-! ### The table and the queues -/

def schedMlfqLevels : ℕ := 3

def schedMlfqLevelLow : ℕ := 0

def schedMlfqLevelMedium : ℕ := 1

def schedMlfqLevelHigh : ℕ := 2

/-- The affinity mask of an item that every processor may run. -/
def schedWorkCpuAny : ℕ := 4294967295

/-- A place in the table of work items. -/
abbrev Index := Fin 64

abbrev Priority := Fin 32

-- for the numerals of levels and priorities
local instance neZeroThree : NeZero 3 := ⟨Nat.succ_ne_zero 2⟩

local instance neZeroThirtyTwo : NeZero 32 := ⟨Nat.succ_ne_zero 31⟩

/-- What is fixed when the kernel is built. -/
structure Config where
  mlfq : Bool
  quantumMs : Fin 3 → ℕ
  boostMs : ℕ

/-- A work item. -/
structure Work where
  id : ℕ
  run : Option ℕ
  priority : ℕ
  affinityMask : ℕ
  budgetTicks : ℕ
  budgetLeft : ℕ
  mlfqLevel : ℕ
  mlfqSliceLeft : ℕ
  mlfqLastBoostTick : ℕ

/-- The work items and their queues. While a callback is being run, `running` is its item. -/
structure State where
  work : Index → Work
  runq : ThreadedQueues Priority Index
  inflight : Bool
  readyBitmap : BitVec 32
  ticks : ℕ
  tickHz : ℕ
  quantumTicks : Fin 3 → ℕ
  boostIntervalTicks : ℕ
  lastGlobalBoostTick : ℕ
  running : Option Index

/-- Change one work item. -/
def State.modify (state : State) (index : Index) (change : Work → Work) : State :=
  { state with work := Function.update state.work index (change (state.work index)) }

variable (config : Config)

/-! ### Ticks and levels -/

def schedTicksFromMs (tickHz ms : ℕ) : ℕ :=
  let hz := if tickHz = 0 then 100 else tickHz
  if ms = 0 then 1
  else
    let rem := u32 (hz % 1000 * ms)
    let ticks := u32 (u32 (hz / 1000 * ms) + u32 (rem + 999) / 1000)
    if ticks = 0 then 1 else ticks

/-- Compute the quanta and the boost interval from the tick frequency. -/
def schedMlfqRecomputeTicks (state : State) : State :=
  { state with
    quantumTicks := fun level ↦ schedTicksFromMs state.tickHz (config.quantumMs level)
    boostIntervalTicks := schedTicksFromMs state.tickHz config.boostMs }

def schedSetTickHz (hz : ℕ) (state : State) : State :=
  schedMlfqRecomputeTicks config { state with tickHz := if hz = 0 then 100 else hz }

def schedMlfqLevelQuantumTicks (state : State) (level : ℕ) : ℕ :=
  if hlevel : level < 3 then state.quantumTicks ⟨level, hlevel⟩ else state.quantumTicks 2

def schedPriorityToMlfqLevel (priority : ℕ) : ℕ :=
  if 32 * 2 / 3 ≤ priority then schedMlfqLevelHigh
  else if 32 / 3 ≤ priority then schedMlfqLevelMedium
  else schedMlfqLevelLow

def schedMlfqLevelToPrio (mlfqLevel : ℕ) : Priority :=
  let level := if schedMlfqLevels ≤ mlfqLevel then schedMlfqLevelHigh else mlfqLevel
  if level = schedMlfqLevelHigh then 31
  else if level = schedMlfqLevelMedium then 16
  else 0

/-- The run queue of a priority, where there is no feedback. -/
def schedPrioIndex (priority : ℕ) : Priority :=
  if hpriority : priority < 32 then ⟨priority, hpriority⟩ else 31

/-- The run queue that an item is put on. -/
def prioOf (work : Work) : Priority :=
  if config.mlfq then schedMlfqLevelToPrio work.mlfqLevel else schedPrioIndex work.priority

/-! ### The bitmap -/

def prioBit (prio : Priority) : BitVec 32 := 1#32 <<< prio.val

/-- The highest priority whose bit is set. -/
def schedBsr32 (bitmap : BitVec 32) : Option Priority :=
  (List.finRange 32).reverse.find? fun prio ↦ bitmap.getLsbD prio.val

/-! ### Queue operations -/

/-- Put an item on the queue of its level. -/
def schedWorkEnqueue (index : Index) (state : State) : State :=
  if state.runq.queued index then state
  else
    let prio := prioOf config (state.work index)
    { state with
      runq := state.runq.enqueue prio index
      readyBitmap :=
        if state.runq.head prio = none then state.readyBitmap ||| prioBit prio
        else state.readyBitmap }

/-- Take the first item of a queue. -/
def schedWorkDequeuePrio (prio : Priority) (state : State) : Option (Index × State) :=
  match state.runq.popFrom [prio] with
  | none => none
  | some (index, runq) =>
    some (index,
      { state with
        runq := runq
        readyBitmap :=
          if runq.head prio = none then state.readyBitmap &&& ~~~(prioBit prio)
          else state.readyBitmap })

/-- The place of an item that is registered under an id. -/
def schedWorkGet (state : State) (id : ℕ) : Option Index :=
  if id = 0 then none
  else
    if hindex : id - 1 < 64 then
      if (state.work ⟨id - 1, hindex⟩).id = id then some ⟨id - 1, hindex⟩ else none
    else none

/-- The table without items. -/
def schedWorkInit (state : State) : State :=
  { state with
    work := fun _ ↦
      { id := 0
        run := none
        priority := 0
        affinityMask := schedWorkCpuAny
        budgetTicks := 0
        budgetLeft := 0
        mlfqLevel := schedMlfqLevelHigh
        mlfqSliceLeft := schedMlfqLevelQuantumTicks state schedMlfqLevelHigh
        mlfqLastBoostTick := 0 }
    runq := ThreadedQueues.clear
    readyBitmap := 0
    inflight := false
    running := none }

/-- Register an item in the first place without one, and queue it where it has a budget. -/
def schedWorkRegister (run : Option ℕ) (priority affinityMask budgetTicks : ℕ) (state : State) :
    ℤ × State :=
  match run with
  | none => (-1, state)
  | some callback =>
    match (List.finRange 64).find? fun index ↦ (state.work index).id = 0 with
    | none => (-1, state)
    | some index =>
      let level := schedPriorityToMlfqLevel priority
      let registered : State :=
        { state with
          work := Function.update state.work index
            { id := index.val + 1
              run := some callback
              priority := priority
              affinityMask := if affinityMask = 0 then schedWorkCpuAny else affinityMask
              budgetTicks := budgetTicks
              budgetLeft := budgetTicks
              mlfqLevel := level
              mlfqSliceLeft := schedMlfqLevelQuantumTicks state level
              mlfqLastBoostTick := state.ticks }
          runq := state.runq.release index }
      (index.val + 1,
        if budgetTicks = 0 then registered else schedWorkEnqueue config index registered)

/-- Refill the budget of an item that has used it up, and queue the item. -/
def schedWorkSetReady (id : ℕ) (state : State) : ℤ × State :=
  match schedWorkGet state id with
  | none => (-1, state)
  | some index =>
    (0, schedWorkEnqueue config index (state.modify index fun work ↦
      { work with
        budgetLeft :=
          if work.budgetLeft = 0 ∧ work.budgetTicks ≠ 0 then work.budgetTicks
          else work.budgetLeft
        mlfqSliceLeft :=
          if work.mlfqSliceLeft = 0 then schedMlfqLevelQuantumTicks state work.mlfqLevel
          else work.mlfqSliceLeft }))

/-- Take the budget of an item away. It stays queued. -/
def schedWorkUnready (id : ℕ) (state : State) : ℤ × State :=
  match schedWorkGet state id with
  | none => (-1, state)
  | some index => (0, state.modify index fun work ↦ { work with budgetLeft := 0 })

def schedWorkUpdateBudget (id budgetTicks : ℕ) (state : State) : ℤ × State :=
  match schedWorkGet state id with
  | none => (-1, state)
  | some index =>
    (0, state.modify index fun work ↦
      { work with
        budgetTicks := budgetTicks
        budgetLeft := if budgetTicks < work.budgetLeft then budgetTicks else work.budgetLeft })

/-- Charge an item for what its callback has done. -/
def schedulerAccount (index : Index) (cost : ℕ) (state : State) : State :=
  if cost = 0 then state
  else
    state.modify index fun work ↦
      { work with budgetLeft := if cost < work.budgetLeft then work.budgetLeft - cost else 0 }

/-! ### The end of a timeslice -/

/-- Put the items of some places that were queued on the queues of their levels. -/
def requeue : List Index → State → State
  | [], state => state
  | index :: indices, state =>
    if (state.work index).id = 0 ∨ state.runq.queued index = false then requeue indices state
    else
      requeue indices
        (schedWorkEnqueue config index { state with runq := state.runq.release index })

/-- Build the queues anew from the items that were queued. -/
def schedWorkRequeueAll (state : State) : State :=
  requeue config (List.finRange 64)
    { state with
      runq := { state.runq with head := fun _ ↦ none, tail := fun _ ↦ none }
      readyBitmap := 0 }

/-- Raise every item to the highest level, once in a boost interval. -/
def schedMlfqBoostIfDue (state : State) : State :=
  if config.mlfq = false then state
  else if u32 (state.ticks + 4294967296 - state.lastGlobalBoostTick) < state.boostIntervalTicks then
    state
  else
    { schedWorkRequeueAll config
        { state with
          work := fun index ↦
            let work := state.work index
            if work.id = 0 then work
            else
              { work with
                mlfqLevel := schedMlfqLevelHigh
                mlfqSliceLeft := schedMlfqLevelQuantumTicks state schedMlfqLevelHigh
                mlfqLastBoostTick := state.ticks } } with
      lastGlobalBoostTick := state.ticks }

/-- Use up some of the quantum of an item. An item that has used it up sinks one level. -/
def schedMlfqAccountRun (index : Index) (state : State) : State :=
  if config.mlfq = false then state
  else
    state.modify index fun work ↦
      let sliceLeft := work.mlfqSliceLeft - 1
      if sliceLeft = 0 then
        let level :=
          if schedMlfqLevelLow < work.mlfqLevel then work.mlfqLevel - 1 else work.mlfqLevel
        { work with
          mlfqLevel := level
          mlfqSliceLeft := schedMlfqLevelQuantumTicks state level
          mlfqLastBoostTick := state.ticks }
      else { work with mlfqSliceLeft := sliceLeft, mlfqLastBoostTick := state.ticks }

/-- Some rounds of the search for an item to run, with the bits that are still to be tried. There
is no state after them where the search has not come to an end. -/
def search : ℕ → BitVec 32 → State → Option State
  | 0, _, _ => none
  | rounds + 1, ready, state =>
    match schedBsr32 ready with
    | none => some { state with inflight := false }
    | some prio =>
      match schedWorkDequeuePrio prio state with
      | none =>
        search rounds (ready &&& ~~~(prioBit prio))
          { state with readyBitmap := state.readyBitmap &&& ~~~(prioBit prio) }
      | some (index, dequeued) =>
        let work := dequeued.work index
        if work.run = none ∨ work.budgetLeft = 0 then search rounds ready dequeued
        else if work.affinityMask % 2 = 0 then
          search rounds ready (schedWorkEnqueue config index dequeued)
        else some { dequeued with running := some index }

/-- The end of a timeslice, up to the call of a callback where there is an item to run. -/
def schedWorkOnTimesliceEnd (rounds : ℕ) (state : State) : Option State :=
  if state.inflight then some state
  else
    let boosted := schedMlfqBoostIfDue config { state with inflight := true }
    search config rounds boosted.readyBitmap boosted

def callbackReturns (state : State) : Option State :=
  match state.running with
  | none => none
  | some index =>
    let charged := schedMlfqAccountRun config index
      (state.modify index fun work ↦ { work with budgetLeft := work.budgetLeft - 1 })
    let settled :=
      if 0 < (charged.work index).budgetLeft then schedWorkEnqueue config index charged
      else charged
    some { settled with running := none, inflight := false }

/-! ### Runs -/

/-- What happens to the work queues. A callback that is being run may do all of it. -/
inductive Event
  | register (run : Option ℕ) (priority affinityMask budgetTicks : ℕ)
  | setReady (id : ℕ)
  | unready (id : ℕ)
  | updateBudget (id budgetTicks : ℕ)
  | account (index : Index) (cost : ℕ)
  | setTickHz (hz : ℕ)
  | tick
  | onTimesliceEnd (rounds : ℕ)
  | callbackReturns

/-- One event. -/
def step (state : State) : Event → Option State
  | .register run priority affinityMask budgetTicks =>
    some (schedWorkRegister config run priority affinityMask budgetTicks state).2
  | .setReady id => some (schedWorkSetReady config id state).2
  | .unready id => some (schedWorkUnready id state).2
  | .updateBudget id budgetTicks => some (schedWorkUpdateBudget id budgetTicks state).2
  | .account index cost => some (schedulerAccount index cost state)
  | .setTickHz hz => some (schedSetTickHz config hz state)
  | .tick => some { state with ticks := u32 (state.ticks + 1) }
  | .onTimesliceEnd rounds => schedWorkOnTimesliceEnd config rounds state
  | .callbackReturns => callbackReturns config state

/-- The scheduler when the kernel has started. -/
def schedInit : State :=
  let state : State :=
    { work := fun _ ↦
        { id := 0
          run := none
          priority := 0
          affinityMask := 0
          budgetTicks := 0
          budgetLeft := 0
          mlfqLevel := 0
          mlfqSliceLeft := 0
          mlfqLastBoostTick := 0 }
      runq := ThreadedQueues.clear
      inflight := false
      readyBitmap := 0
      ticks := 0
      tickHz := 100
      quantumTicks := fun _ ↦ 1
      boostIntervalTicks := 1
      lastGlobalBoostTick := 0
      running := none }
  schedWorkInit (schedMlfqRecomputeTicks config state)

end EynOS.Process.SchedWork
