import EynOS.Foundation.Run
import EynOS.Foundation.SlotArray
import Mathlib.Data.Multiset.Filter

/-!
# Children of Linux-compatible processes

`fork`, `vfork` and `clone` load the program of the caller once more into the process table, and
enter the new process into a table of links between parents and children. `wait4` looks a child up
there, and takes the link away. Nothing else touches a link, in particular no exit.

A wait that blocks is two steps, since other processes run while it does: `wait4` up to its loop,
and `wake` behind it. `State.spawned` and `State.returned` record which children there have been,
and which of them a wait has returned; no step reads them.

Not modelled: what a process is loaded from and what it executes, the status that `wait4` writes
(always 0), and signals.
-/

namespace EynOS.Process.LinuxChildren

open Foundation Foundation.SlotArray

/-! ### Tables -/

def MAX_NATIVE_PROCESSES : ℕ := 8

def LINUX_MAX_CHILD_TRACK : ℕ := 64

def ECHILD : Int32 := 10

def EAGAIN : Int32 := 11

def EINVAL : Int32 := 22

/-- What `native_spawn` and the waits read of a process. A slot that was cleared has the pid 0. -/
structure NativeProcess where
  pid : UInt32
  active : Bool
  deriving DecidableEq

/-- `linux_child_link_t`, but for its flag. -/
structure Link where
  parent : UInt32
  child : UInt32
  deriving DecidableEq

/-- The process table, the processes that the shell has loaded and that are in no table, the next
pid, the links, and which waits block, each with its caller and the child it waits for. -/
structure State where
  processes : Fin MAX_NATIVE_PROCESSES → NativeProcess
  transients : List UInt32
  nextPid : UInt32
  links : List (Slot Link)
  blocked : List Link
  spawned : Multiset Link
  returned : Multiset Link

/-- `native_exec_init`, and the table of links before any process. -/
def init : State where
  processes _ := { pid := 0, active := false }
  transients := []
  nextPid := 1
  links := List.replicate LINUX_MAX_CHILD_TRACK { valid := false, packet := ⟨0, 0⟩ }
  blocked := []
  spawned := 0
  returned := 0

/-- A process of this pid runs. -/
def State.Live (state : State) (pid : UInt32) : Prop :=
  pid ∈ state.transients ∨ ∃ slot, (state.processes slot).active ∧ (state.processes slot).pid = pid

instance (state : State) (pid : UInt32) : Decidable (state.Live pid) :=
  inferInstanceAs (Decidable (_ ∨ _))

/-- The children that no wait has returned. -/
def State.unwaited (state : State) : Multiset Link := state.spawned - state.returned

/-! ### Processes -/

/-- `native_process_is_active`: the first process with the pid counts. -/
def nativeProcessIsActive (pid : UInt32) (state : State) : Bool :=
  if pid = 0 then false
  else
    match (List.finRange MAX_NATIVE_PROCESSES).find? fun slot ↦
      (state.processes slot).pid = pid with
    | none => false
    | some slot => (state.processes slot).active

/-- How `native_load_program` ends: without a pid, with a pid but no process, or with both. -/
inductive Load
  | refused
  | failed
  | loaded
  deriving DecidableEq

/-- `native_load_program`: the pid of the process, if there is one. -/
def nativeLoadProgram (load : Load) (state : State) : Option UInt32 × State :=
  match load with
  | .refused => (none, state)
  | .failed => (none, { state with nextPid := state.nextPid + 1 })
  | .loaded => (some state.nextPid, { state with nextPid := state.nextPid + 1 })

/-- The slot that `native_spawn` takes: one without a pid, or else one that is not active. -/
def freeSlot (state : State) : Option (Fin MAX_NATIVE_PROCESSES) :=
  match (List.finRange MAX_NATIVE_PROCESSES).find? fun slot ↦
    ¬(state.processes slot).active ∧ (state.processes slot).pid = 0 with
  | some slot => some slot
  | none => (List.finRange MAX_NATIVE_PROCESSES).find? fun slot ↦ ¬(state.processes slot).active

/-- `native_spawn`: the pid of the new process. -/
def nativeSpawn (load : Load) (state : State) : Option UInt32 × State :=
  match freeSlot state with
  | none => (none, state)
  | some slot =>
    match nativeLoadProgram load state with
    | (none, state) => (none, state)
    | (some pid, state) =>
      (some pid, { state with
        processes := Function.update state.processes slot { pid := pid, active := true } })

/-! ### Links -/

def linuxChildRegister (parent child : UInt32) (links : List (Slot Link)) :
    Option (List (Slot Link)) :=
  if parent = 0 ∨ child = 0 then none else fillFirst ⟨parent, child⟩ links

def Link.asked (parent : UInt32) (filter : Int32) (link : Link) : Bool :=
  link.parent = parent ∧ (0 < filter → link.child = filter.toUInt32)

def linuxChildFindSlot (parent : UInt32) (filter : Int32) (state : State) : Option Link :=
  (used state.links).find? (Link.asked parent filter)

/-- `linux_child_find_slot` and `linux_child_drop_slot`. -/
def dropFound (parent : UInt32) (filter : Int32) (state : State) : State :=
  match takeFirst (Link.asked parent filter) state.links with
  | none => state
  | some (_, rest) => { state with links := rest }

/-- `linux_child_find_reapable_slot` and `linux_child_drop_slot`. -/
def reap (parent : UInt32) (filter : Int32) (state : State) : Option (Link × List (Slot Link)) :=
  takeFirst (fun link ↦ link.asked parent filter && !nativeProcessIsActive link.child state)
    state.links

def State.record (parent child : UInt32) (state : State) : State :=
  { state with spawned := ⟨parent, child⟩ ::ₘ state.spawned }

/-- `linux_spawn_native_child`. A process has a name where `named` says so. -/
def linuxSpawnNativeChild (parent : UInt32) (named : Bool) (load : Load) (state : State) :
    Int32 × State :=
  if ¬named then (-EINVAL, state)
  else
    match nativeSpawn load state with
    | (none, state) => (-EAGAIN, state)
    | (some child, state) =>
      let state := state.record parent child
      if child = 0 then (-EAGAIN, state)
      else
        match linuxChildRegister parent child state.links with
        | none => (-EAGAIN, state)
        | some links => (child.toInt32, { state with links := links })

/-- `sys_wait4` up to its loop: what it returns, or nothing where it blocks. -/
def sysWait4 (caller : UInt32) (pid : Int32) (nohang : Bool) (state : State) :
    Option Int32 × State :=
  if caller = 0 then (some (-ECHILD), state)
  else if pid = 0 ∨ pid < -1 then (some (-EINVAL), state)
  else
    match reap caller pid state with
    | some (link, rest) =>
      (some link.child.toInt32,
        { state with links := rest, returned := ⟨caller, link.child⟩ ::ₘ state.returned })
    | none =>
      match linuxChildFindSlot caller pid state with
      | none => (some (-ECHILD), state)
      | some link =>
        if nohang then (some 0, state)
        else (none, { state with blocked := ⟨caller, link.child⟩ :: state.blocked })

/-- `sys_wait4` behind its loop. -/
def wakeUp (wait : Link) (state : State) : Int32 × State :=
  let state := dropFound wait.parent wait.child.toInt32 state
  (wait.child.toInt32, { state with
    blocked := state.blocked.erase wait, returned := wait ::ₘ state.returned })

/-! ### Steps -/

/-- What processes do. -/
inductive Event
  /-- The shell loads a program, `native_execute_program`. -/
  | execute (load : Load)
  /-- A program of the shell ends. -/
  | leave (pid : UInt32)
  /-- `execve`: a program is loaded in the place of another, whose pid stays. -/
  | execve (load : Load)
  | spawn (parent : UInt32) (named : Bool) (load : Load)
  /-- A process of the table ends, and its slot is cleared, or (`exit`) is not. -/
  | exit (slot : Fin MAX_NATIVE_PROCESSES) (cleared : Bool)
  | wait4 (caller : UInt32) (pid : Int32) (nohang : Bool)
  /-- A wait that blocked sees that its child has ended. -/
  | wake (wait : Link)

/-- One event, with what it returns to the process. -/
def step (state : State) : Event → Option (Option Int32 × State)
  | .execute load =>
    match nativeLoadProgram load state with
    | (none, state) => some (none, state)
    | (some pid, state) => some (none, { state with transients := pid :: state.transients })
  | .leave pid =>
    if pid ∈ state.transients then
      some (none, { state with transients := state.transients.erase pid })
    else none
  | .execve load => some (none, (nativeLoadProgram load state).2)
  | .spawn parent named load =>
    if state.Live parent then
      let done := linuxSpawnNativeChild parent named load state
      some (some done.1, done.2)
    else none
  | .exit slot cleared =>
    if (state.processes slot).active then
      let pid := if cleared then 0 else (state.processes slot).pid
      some (none, { state with
        processes := Function.update state.processes slot { pid := pid, active := false } })
    else none
  | .wait4 caller pid nohang =>
    if state.Live caller then some (sysWait4 caller pid nohang state) else none
  | .wake wait =>
    if wait ∈ state.blocked ∧ nativeProcessIsActive wait.child state = false then
      let done := wakeUp wait state
      some (some done.1, done.2)
    else none

def Steps : State → Event → State → Prop :=
  Fires fun state event ↦ (step state event).map Prod.snd

/-- A child has been returned at most once, to its own parent, and there are no more links than
children that processes which run have still to wait for. -/
structure Accounted (state : State) : Prop where
  once : state.returned ≤ state.spawned
  distinct : (state.spawned.map Link.child).Nodup
  bounded : (used state.links).length ≤
    (state.unwaited.filter fun link ↦ state.Live link.parent).card

/-- What a call says is so: a wait that may ask for a child says that there is none exactly where
there is none that it asks for, and a spawn that fails leaves the process table alone. -/
structure Answered (state : State) (event : Event) (reply : Option Int32) (next : State) :
    Prop where
  echild : ∀ caller pid nohang, event = .wait4 caller pid nohang → pid = -1 ∨ 0 < pid →
    (reply = some (-ECHILD) ↔ ∀ link ∈ state.unwaited, ¬link.asked caller pid)
  failed : ∀ parent named load code, event = .spawn parent named load → reply = some code →
    code < 0 → next.processes = state.processes

/-- A load does not bring the counter of pids back to 0. -/
def Load.fresh (load : Load) (state : State) : Prop :=
  load ≠ .refused → state.nextPid ≠ 0xFFFFFFFF

instance (load : Load) (state : State) : Decidable (load.fresh state) :=
  inferInstanceAs (Decidable (_ → _))

/-- The condition on an event: no load wraps the pids, a spawn that gets a process finds a free link
and a pid that is no negative number, a process that ends has no link, and a wait that wakes up
still has its own. -/
def Event.Careful (state : State) : Event → Prop
  | .execute load => load.fresh state
  | .leave pid => ∀ link ∈ used state.links, link.parent ≠ pid
  | .execve load => load.fresh state
  | .spawn _ named load => named = true → freeSlot state ≠ none →
      load.fresh state ∧ (load = .loaded →
        state.nextPid.toNat < 2147483648 ∧ (used state.links).length < LINUX_MAX_CHILD_TRACK)
  | .exit slot _ => ∀ link ∈ used state.links, link.parent ≠ (state.processes slot).pid
  | .wait4 _ _ _ => True
  | .wake wait => wait ∈ used state.links

instance (state : State) : (event : Event) → Decidable (event.Careful state)
  | .execute load => inferInstanceAs (Decidable (load.fresh state))
  | .leave pid => inferInstanceAs (Decidable (∀ link ∈ used state.links, link.parent ≠ pid))
  | .execve load => inferInstanceAs (Decidable (load.fresh state))
  | .spawn _ named load => inferInstanceAs (Decidable (named = true → freeSlot state ≠ none →
      load.fresh state ∧ (load = .loaded →
        state.nextPid.toNat < 2147483648 ∧ (used state.links).length < LINUX_MAX_CHILD_TRACK)))
  | .exit slot _ => inferInstanceAs
      (Decidable (∀ link ∈ used state.links, link.parent ≠ (state.processes slot).pid))
  | .wait4 _ _ _ => inferInstanceAs (Decidable True)
  | .wake wait => inferInstanceAs (Decidable (wait ∈ used state.links))

end EynOS.Process.LinuxChildren
