import EynOS.Process.Capability
import EynOS.Process.UserPipe

/-!
# File descriptors

The table of file descriptors with the pipes and the pseudo-terminals that descriptors refer to, the
numbers that the three standard descriptors are mapped to, and the registry of capabilities, as the
system calls of `isr.c` read and change them. Bytes go through the functions of `UserPipe`.

Three fields are not part of the source: `opening` numbers every binding of a descriptor, `serial`
tells apart the pipes and terminals that have used one entry of their table, and `minted` keeps the
capabilities for descriptors with the opening each was minted for.

Not modelled: what reading and writing a file does to its contents and to the descriptor's offset,
size and read buffer, and what a console does; how a path is made absolute; the copy of a path from
the caller and the checks of the command context, whose failure ends a call before it changes
anything; the spools of pipes, which only the shell enables; and how a call that waits goes on.
-/

namespace EynOS.Process.Descriptors

open Foundation Capability

abbrev USER_FD_MAX : ℕ := 16

abbrev USER_PIPE_MAX : ℕ := 24

abbrev USER_PTY_MAX : ℕ := 8

def USER_PTY_BUFFER_BYTES : ℕ := 4096

def SYSCALL_IO_MAX : ℤ := 65536

def OPEN_FLAG_WRONLY : UInt32 := 0x0001

def OPEN_FLAG_RDWR : UInt32 := 0x0002

def OPEN_FLAG_NONBLOCK : UInt32 := 0x0800

def CAP_OBJ_USER_GUI : UInt32 := 2

/-- `sizeof(user_fd_t)`. -/
def USER_FD_BYTES : ℕ := 196

/-- A number of a file descriptor. -/
abbrev Fd : Type := Fin USER_FD_MAX

-- for the numerals of standard descriptors
local instance neZeroThree : NeZero 3 := ⟨Nat.succ_ne_zero 2⟩

/-! ### Tables -/

/-- What a descriptor is bound to: a file or a directory, one end of a pipe, or one end of a
pseudo-terminal. -/
inductive Binding
  | file (drive : ℕ) (path : List UInt8) (isDir : Bool)
  | pipe (id : Fin USER_PIPE_MAX) (writer : Bool)
  | pty (id : Fin USER_PTY_MAX) (slave : Bool)
  deriving DecidableEq

/-- `user_fd_t` in use. -/
structure UserFd where
  binding : Binding
  nonblock : Bool
  opening : ℕ
  deriving DecidableEq

/-- `user_pipe_t` with its path. -/
structure NamedPipe where
  pipe : UserPipe.Pipe
  fifoPath : List UInt8
  serial : ℕ

/-- `user_pty_t`. -/
structure Pty where
  used : Bool
  masterRefs : ℕ
  slaveRefs : ℕ
  m2s : CountedRing UInt8
  s2m : CountedRing UInt8
  serial : ℕ

/-- A capability for a descriptor, with the opening of the descriptor it was minted for. -/
structure Minted where
  cap : Cap
  fd : Fd
  opening : ℕ

/-- The tables. A descriptor that is not used is `none`. -/
structure State where
  fds : Fd → Option UserFd
  pipes : Fin USER_PIPE_MAX → NamedPipe
  ptys : Fin USER_PTY_MAX → Pty
  stdio : Fin 3 → Fd
  ledger : Ledger
  minted : List Minted
  serial : ℕ

def zeroNamedPipe : NamedPipe := { pipe := UserPipe.zeroPipe, fifoPath := [], serial := 0 }

def zeroPty : Pty where
  used := false
  masterRefs := 0
  slaveRefs := 0
  m2s := UserPipe.zeroRing
  s2m := UserPipe.zeroRing
  serial := 0

/-- The tables at the start, with the standard descriptors mapped to themselves. -/
def State.boot : State where
  fds := fun _ ↦ none
  pipes := fun _ ↦ zeroNamedPipe
  ptys := fun _ ↦ zeroPty
  stdio := fun std ↦ ⟨std, std.isLt.trans (by decide)⟩
  ledger := .start
  minted := []
  serial := 0

/-- Change a descriptor. -/
def State.setFd (state : State) (fd : Fd) (ufd : Option UserFd) : State :=
  { state with fds := Function.update state.fds fd ufd }

def State.setPipe (state : State) (id : Fin USER_PIPE_MAX) (pipe : NamedPipe) : State :=
  { state with pipes := Function.update state.pipes id pipe }

/-- Change a terminal. -/
def State.setPty (state : State) (id : Fin USER_PTY_MAX) (pty : Pty) : State :=
  { state with ptys := Function.update state.ptys id pty }

def State.bindFd (state : State) (fd : Fd) (binding : Binding) (nonblock : Bool) : State :=
  { state.setFd fd (some { binding := binding, nonblock := nonblock, opening := state.serial }) with
    serial := state.serial + 1 }

/-! ### Where the table of descriptors lies -/

/-- The address of `g_user_fds`, which the table does not leave the 32-bit space from. -/
structure FdTable where
  base : UInt32
  nonnull : base ≠ 0
  fits : base.toNat + USER_FD_MAX * USER_FD_BYTES ≤ 2 ^ 32

/-- `&g_user_fds[fd]`. -/
def FdTable.address (table : FdTable) (fd : Fd) : UInt64 :=
  UInt64.ofNat (table.base.toNat + fd * USER_FD_BYTES)

def userFdIndexFromPtr (table : FdTable) (ptr : UInt64) : Option Fd :=
  if ptr = 0 then none
  else if ptr.toNat < table.base.toNat ∨
      table.base.toNat + USER_FD_MAX * USER_FD_BYTES ≤ ptr.toNat then none
  else
    let off := ptr.toNat - table.base.toNat
    if off % USER_FD_BYTES ≠ 0 then none
    else if hidx : off / USER_FD_BYTES < USER_FD_MAX then some ⟨off / USER_FD_BYTES, hidx⟩
    else none

def userFdFromCap (table : FdTable) (secret : CapSecret) (state : State) (cap : Cap)
    (requiredRights : UInt32) : Option Fd :=
  match userFdIndexFromPtr table cap.obj.toUInt64 with
  | none => none
  | some fd =>
    if (state.fds fd).isNone then none
    else if capValidate secret state.ledger.registry cap cap.obj.toUInt64 CAP_OBJ_USER_FD
        requiredRights = false then none
    else some fd

/-! ### Entries -/

def firstUnused (state : State) (start : ℕ) : Option Fd :=
  (List.finRange USER_FD_MAX).find? fun fd ↦ decide (start ≤ fd) && (state.fds fd).isNone

/-- `user_fd_alloc`, as the number it finds. -/
def userFdAlloc (state : State) : Option Fd := firstUnused state 3

/-- `user_fd_get` for a number that is an `int`. -/
def fdIndex (fd : ℤ) : Option Fd :=
  if h : 0 ≤ fd ∧ fd < USER_FD_MAX then some ⟨fd.toNat, by omega⟩ else none

/-- `user_pipe_alloc`, with the entry where there is a free one. -/
def userPipeAlloc (persistentFifo : Bool) (fifoPath : List UInt8) (state : State) :
    Option (Fin USER_PIPE_MAX) × State :=
  match (List.finRange USER_PIPE_MAX).find? fun id ↦ !(state.pipes id).pipe.used with
  | none => (none, state)
  | some id =>
    (some id, { state.setPipe id
        { pipe := UserPipe.userPipeAlloc persistentFifo (state.pipes id).pipe
          fifoPath := if persistentFifo then fifoPath else []
          serial := state.serial } with
      serial := state.serial + 1 })

def userPipeFindFifoByPath (path : List UInt8) (state : State) : Option (Fin USER_PIPE_MAX) :=
  if path = [] then none
  else
    (List.finRange USER_PIPE_MAX).find? fun id ↦
      (state.pipes id).pipe.used && (state.pipes id).pipe.persistentFifo &&
        decide ((state.pipes id).fifoPath = path)

/-- `user_pipe_get_or_create_fifo`, with whether the path names a FIFO of the file system. -/
def userPipeGetOrCreateFifo (path : List UInt8) (onDisk : Bool) (state : State) :
    Option (Fin USER_PIPE_MAX) × State :=
  match userPipeFindFifoByPath path state with
  | some id => (some id, state)
  | none => if onDisk then userPipeAlloc true path state else (none, state)

/-- `user_pty_alloc`, with the entry where there is a free one. -/
def userPtyAlloc (state : State) : Option (Fin USER_PTY_MAX) × State :=
  match (List.finRange USER_PTY_MAX).find? fun id ↦ !(state.ptys id).used with
  | none => (none, state)
  | some id =>
    (some id, { state.setPty id { zeroPty with used := true, serial := state.serial } with
      serial := state.serial + 1 })

def userPtyMaybeDestroy (pty : Pty) : Pty :=
  if pty.used = false then pty
  else if pty.masterRefs = 0 ∧ pty.slaveRefs = 0 then { zeroPty with serial := pty.serial }
  else pty

/-! ### Releasing and duplicating -/

/-- The part of `user_fd_release` for the pipe of the descriptor. -/
def releasePipe (writer : Bool) (entry : NamedPipe) : NamedPipe :=
  let after := UserPipe.userFdRelease writer entry.pipe
  { entry with pipe := after, fifoPath := if after.used then entry.fifoPath else [] }

/-- The part of `user_fd_release` for the terminal of the descriptor. -/
def releasePty (slave : Bool) (pty : Pty) : Pty :=
  if pty.used = false then pty
  else
    userPtyMaybeDestroy
      (if slave then { pty with slaveRefs := pty.slaveRefs - 1 }
      else { pty with masterRefs := pty.masterRefs - 1 })

def releaseBinding (binding : Binding) (state : State) : State :=
  match binding with
  | .file _ _ _ => state
  | .pipe id writer => state.setPipe id (releasePipe writer (state.pipes id))
  | .pty id slave => state.setPty id (releasePty slave (state.ptys id))

def userFdRelease (table : FdTable) (fd : Fd) (state : State) : State :=
  match state.fds fd with
  | none => state
  | some ufd =>
    (releaseBinding ufd.binding
      { state with ledger := state.ledger.revoke (table.address fd) CAP_OBJ_USER_FD }).setFd fd none

def Binding.usable (state : State) : Binding → Bool
  | .file _ _ _ => true
  | .pipe id _ => (state.pipes id).pipe.used
  | .pty id _ => (state.ptys id).used

/-- One more descriptor for a terminal. -/
def openPtyEnd (slave : Bool) (pty : Pty) : Pty :=
  if slave then { pty with slaveRefs := pty.slaveRefs + 1 }
  else { pty with masterRefs := pty.masterRefs + 1 }

/-- One more descriptor for what a descriptor is bound to. -/
def openBinding (binding : Binding) (state : State) : State :=
  match binding with
  | .file _ _ _ => state
  | .pipe id writer =>
    state.setPipe id
      { state.pipes id with pipe := UserPipe.openEnd writer (state.pipes id).pipe }
  | .pty id slave => state.setPty id (openPtyEnd slave (state.ptys id))

/-- `user_fd_duplicate_into` for numbers in range: the descriptor or -1. -/
def userFdDuplicateInto (table : FdTable) (oldfd newfd : Fd) (state : State) :
    Option Fd × State :=
  match state.fds oldfd with
  | none => (none, state)
  | some _ =>
    if newfd.val ≤ 2 then (none, state)
    else if oldfd = newfd then (some newfd, state)
    else
      let released := userFdRelease table newfd state
      match released.fds oldfd with
      | none => (none, released)
      | some src =>
        if src.binding.usable released = false then (none, released)
        else (some newfd, openBinding src.binding (released.bindFd newfd src.binding src.nonblock))

/-! ### Results -/

/-- What the number of a descriptor stands for. -/
inductive Object
  | console
  | file (drive : ℕ) (path : List UInt8) (isDir : Bool)
  | pipe (id : Fin USER_PIPE_MAX) (serial : ℕ) (writer : Bool)
  | pty (id : Fin USER_PTY_MAX) (serial : ℕ) (slave : Bool)
  deriving DecidableEq

def Binding.object (state : State) : Binding → Object
  | .file drive path isDir => .file drive path isDir
  | .pipe id writer => .pipe id (state.pipes id).serial writer
  | .pty id slave => .pty id (state.ptys id).serial slave

/-- How a call ends. -/
inductive Outcome
  | failed
  | done
  | opened (fd : Fd) (object : Object)
  | pair (first : Fd) (firstObject : Object) (second : Fd) (secondObject : Object)
  | duplicated (fd : Fd)
  | moved (response : UserPipe.Response)
  | elsewhere

/-! ### Opening -/

/-- The end of a FIFO that `SYSCALL_OPEN` opens. -/
def fifoEnd (flags : UInt32) : Bool := flags &&& (OPEN_FLAG_WRONLY ||| OPEN_FLAG_RDWR) ≠ 0

/-- The part of `SYSCALL_OPEN` for a FIFO. -/
def openFifo (id : Fin USER_PIPE_MAX) (flags : UInt32) (state : State) : Outcome × State :=
  match userFdAlloc state with
  | none => (.failed, state)
  | some fd =>
    let binding := Binding.pipe id (fifoEnd flags)
    (.opened fd (binding.object state),
      openBinding binding (state.bindFd fd binding (flags &&& OPEN_FLAG_NONBLOCK ≠ 0)))

/-- The part of `SYSCALL_OPEN` for a file, with whether `vfs_stat` finds it and finds a
directory. -/
def openFile (drive : ℕ) (path : List UInt8) (stat : Option Bool) (state : State) :
    Outcome × State :=
  match stat with
  | none => (.failed, state)
  | some isDir =>
    match userFdAlloc state with
    | none => (.failed, state)
    | some fd =>
      let binding := Binding.file drive path isDir
      (.opened fd (binding.object state), state.bindFd fd binding false)

def syscallOpen (drive : ℕ) (path : List UInt8) (flags : UInt32) (onDisk : Bool)
    (stat : Option Bool) (state : State) : Outcome × State :=
  match userPipeGetOrCreateFifo path onDisk state with
  | (some id, found) => openFifo id flags found
  | (none, found) => openFile drive path stat found

/-- The two descriptors that `syscall_kernel_pipe_create` and `syscall_kernel_pty_create` use. -/
def firstTwoUnused (state : State) : Option (Fd × Fd) :=
  match firstUnused state 3 with
  | none => none
  | some first => (firstUnused state (first + 1)).map fun second ↦ (first, second)

/-- The part of `syscall_kernel_pipe_create` that binds the two descriptors. -/
def bindPipe (readFd writeFd : Fd) (id : Fin USER_PIPE_MAX) (state : State) : State :=
  let bound := (state.bindFd readFd (.pipe id false) false).bindFd writeFd (.pipe id true) false
  bound.setPipe id
    { bound.pipes id with pipe := { (bound.pipes id).pipe with readerRefs := 1, writerRefs := 1 } }

def syscallKernelPipeCreate (state : State) : Option (Fd × Fd × Fin USER_PIPE_MAX) × State :=
  match userPipeAlloc false [] state with
  | (none, _) => (none, state)
  | (some id, allocated) =>
    match firstTwoUnused allocated with
    | none => (none, allocated.setPipe id zeroNamedPipe)
    | some (readFd, writeFd) =>
      (some (readFd, writeFd, id), bindPipe readFd writeFd id allocated)

/-- The part of `syscall_kernel_pty_create` that binds the two descriptors. -/
def bindPty (masterFd slaveFd : Fd) (id : Fin USER_PTY_MAX) (state : State) : State :=
  let bound := (state.bindFd masterFd (.pty id false) false).bindFd slaveFd (.pty id true) false
  bound.setPty id { bound.ptys id with masterRefs := 1, slaveRefs := 1 }

def syscallKernelPtyCreate (state : State) : Option (Fd × Fd × Fin USER_PTY_MAX) × State :=
  match userPtyAlloc state with
  | (none, _) => (none, state)
  | (some id, allocated) =>
    match firstTwoUnused allocated with
    | none => (none, allocated.setPty id zeroPty)
    | some (masterFd, slaveFd) =>
      (some (masterFd, slaveFd, id), bindPty masterFd slaveFd id allocated)

/-- `SYSCALL_PIPE`, with whether the numbers can be copied to the caller. -/
def syscallPipe (table : FdTable) (copied : Bool) (state : State) : Outcome × State :=
  match syscallKernelPipeCreate state with
  | (none, after) => (.failed, after)
  | (some (readFd, writeFd, id), after) =>
    if copied then
      (.pair readFd ((Binding.pipe id false).object after) writeFd
        ((Binding.pipe id true).object after), after)
    else (.failed, userFdRelease table writeFd (userFdRelease table readFd after))

/-- `SYSCALL_PTY_OPEN`, with whether the numbers can be copied to the caller. -/
def syscallPtyOpen (table : FdTable) (copied : Bool) (state : State) : Outcome × State :=
  match syscallKernelPtyCreate state with
  | (none, after) => (.failed, after)
  | (some (masterFd, slaveFd, id), after) =>
    if copied then
      (.pair masterFd ((Binding.pty id false).object after) slaveFd
        ((Binding.pty id true).object after), after)
    else (.failed, userFdRelease table slaveFd (userFdRelease table masterFd after))

/-! ### Duplicating and closing -/

/-- The number that `SYSCALL_DUP` and `SYSCALL_DUP2` duplicate: a standard number is replaced by the
one it is mapped to, and what is then a standard number or not used is refused. -/
def dupSource (fd : ℤ) (state : State) : Option Fd :=
  match fdIndex fd with
  | none => none
  | some requested =>
    let oldfd := if hstd : requested.val < 3 then state.stdio ⟨requested, hstd⟩ else requested
    if oldfd.val ≤ 2 ∨ (state.fds oldfd).isNone then none else some oldfd

def duplicated : Option Fd → Outcome
  | some fd => .duplicated fd
  | none => .failed

def syscallDup (table : FdTable) (fd : ℤ) (state : State) : Outcome × State :=
  match dupSource fd state with
  | none => (.failed, state)
  | some oldfd =>
    match firstUnused state 3 with
    | none => (.failed, state)
    | some newfd =>
      (duplicated (userFdDuplicateInto table oldfd newfd state).1,
        (userFdDuplicateInto table oldfd newfd state).2)

def syscallDup2 (table : FdTable) (fd new : ℤ) (state : State) : Outcome × State :=
  match dupSource fd state with
  | none => (.failed, state)
  | some oldfd =>
    match fdIndex new with
    | none => (.failed, state)
    | some newfd =>
      if hstd : newfd.val < 3 then
        (.duplicated newfd,
          { state with stdio := Function.update state.stdio ⟨newfd, hstd⟩ oldfd })
      else
        (duplicated (userFdDuplicateInto table oldfd newfd state).1,
          (userFdDuplicateInto table oldfd newfd state).2)

def syscallClose (table : FdTable) (fd : ℤ) (state : State) : Outcome × State :=
  match fdIndex fd with
  | none => (.failed, state)
  | some fd => if fd.val ≤ 2 then (.done, state) else (.done, userFdRelease table fd state)

def syscallResetUserFds (table : FdTable) (state : State) : State :=
  { (List.finRange USER_FD_MAX).foldl (fun state fd ↦ userFdRelease table fd state) state with
    pipes := fun _ ↦ zeroNamedPipe
    ptys := fun _ ↦ zeroPty }

/-! ### Capabilities -/

def syscallCapMintFd (table : FdTable) (secret : CapSecret) (fd : ℤ) (reqRights : UInt32)
    (copied : Bool) (state : State) : Outcome × State :=
  match fdIndex fd with
  | none => (.failed, state)
  | some fd =>
    match state.fds fd with
    | none => (.failed, state)
    | some ufd =>
      let allowed := CAP_R_READ ||| CAP_R_WRITE ||| CAP_R_SEEK ||| CAP_R_CLOSE
      let rights := if reqRights ≠ 0 then reqRights &&& allowed else allowed
      if rights = 0 then (.failed, state)
      else
        match state.ledger.mint secret (table.address fd) CAP_OBJ_USER_FD rights with
        | (none, ledger) => (.failed, { state with ledger := ledger })
        | (some cap, ledger) =>
          (if copied then .done else .failed,
            { state with
              ledger := ledger
              minted := state.minted ++ [{ cap := cap, fd := fd, opening := ufd.opening }] })

def syscallCapFdClose (table : FdTable) (secret : CapSecret) (cap : Cap) (state : State) :
    Outcome × State :=
  match userFdFromCap table secret state cap CAP_R_CLOSE with
  | none => (.failed, state)
  | some fd => if fd.val ≤ 2 then (.failed, state) else (.done, userFdRelease table fd state)

/-! ### Reading and writing -/

/-- Where the bytes of a call go. -/
inductive Route
  | console
  | descriptor (ufd : UserFd)
  | bad

/-- The descriptor that a standard number is mapped to, or the number itself where that descriptor
is not used. -/
def remapped (std : Fin 3) (state : State) : Fd :=
  if 2 < (state.stdio std).val ∧ (state.fds (state.stdio std)).isNone
    then ⟨std, std.isLt.trans (by decide)⟩
  else state.stdio std

def tableRoute (fd : Fd) (state : State) : Route :=
  match state.fds fd with
  | some ufd => .descriptor ufd
  | none => .bad

/-- The route of `SYSCALL_READ`. -/
def readRoute (fd : ℤ) (state : State) : Route :=
  match fdIndex fd with
  | none => .bad
  | some requested =>
    let fd := if requested.val = 0 then remapped 0 state else requested
    if fd.val = 0 then .console else tableRoute fd state

/-- The route of `SYSCALL_WRITE`. -/
def writeRoute (fd : ℤ) (state : State) : Route :=
  match fdIndex fd with
  | none => .bad
  | some requested =>
    let fd := if requested.val = 1 then remapped 1 state
      else if requested.val = 2 then remapped 2 state
      else requested
    if fd.val = 1 ∨ fd.val = 2 then .console else tableRoute fd state

/-- The ring that one end of a terminal reads. -/
def Pty.source (slave : Bool) (pty : Pty) : CountedRing UInt8 := if slave then pty.m2s else pty.s2m

/-- The number of descriptors of the other end. -/
def Pty.peerRefs (slave : Bool) (pty : Pty) : ℕ := if slave then pty.masterRefs else pty.slaveRefs

/-- Change the ring that one end of a terminal reads. -/
def Pty.setSource (slave : Bool) (ring : CountedRing UInt8) (pty : Pty) : Pty :=
  if slave then { pty with m2s := ring } else { pty with s2m := ring }

variable (access : UserPipe.Access)

def userPtyRead (slave : Bool) (dst : ℕ) (maxlen : ℤ) (nonblock interrupt : Bool) (pty : Pty) :
    UserPipe.Response × Pty :=
  if maxlen < 0 ∨ dst = 0 ∨ pty.used = false then (.refused, pty)
  else if maxlen = 0 then (.bytes [], pty)
  else if (pty.source slave).used = 0 then
    if pty.peerRefs slave = 0 then (.bytes [], pty)
    else if nonblock ∨ interrupt then (.refused, pty)
    else (.waits [], pty)
  else
    match UserPipe.userPipeCopyoutBytes access USER_PTY_BUFFER_BYTES dst maxlen.toNat maxlen.toNat
      [] (pty.source slave) with
    | (none, ring) => (.fault, pty.setSource slave ring)
    | (some copied, ring) => (.bytes copied, pty.setSource slave ring)

/-- The loop of `user_pty_write` for the end that `slave` is not, whose source it fills. -/
def userPtyWriteLoop (slave : Bool) (src len : ℕ) (nonblock interrupt : Bool) :
    ℕ → List UInt8 → Pty → UserPipe.Response × Pty
  | 0, bytes, pty => (.bytes bytes, pty)
  | rounds + 1, bytes, pty =>
    if len ≤ bytes.length then (.bytes bytes, pty)
    else if USER_PTY_BUFFER_BYTES ≤ (pty.source slave).used then
      if pty.peerRefs (!slave) = 0 ∨ nonblock ∨ interrupt then (UserPipe.stored 0 bytes, pty)
      else (.waits bytes, pty)
    else
      match UserPipe.userPipeCopyinBytes access USER_PTY_BUFFER_BYTES (src + bytes.length)
        (len - bytes.length) (len - bytes.length) [] (pty.source slave) with
      | (none, ring) => (.fault, pty.setSource slave ring)
      | (some wrote, ring) =>
        userPtyWriteLoop slave src len nonblock interrupt rounds (bytes ++ wrote)
          (pty.setSource slave ring)

def userPtyWrite (slave : Bool) (src : ℕ) (len : ℤ) (nonblock interrupt : Bool) (pty : Pty) :
    UserPipe.Response × Pty :=
  if len < 0 ∨ src = 0 ∨ pty.used = false then (.refused, pty)
  else if len = 0 then (.bytes [], pty)
  else if pty.peerRefs slave = 0 then (.refused, pty)
  else userPtyWriteLoop access (!slave) src len.toNat nonblock interrupt len.toNat [] pty

def readBinding (dst : ℕ) (maxlen : ℤ) (nonblock interrupt : Bool) (binding : Binding)
    (state : State) : Outcome × State :=
  match binding with
  | .file _ _ _ => (.elsewhere, state)
  | .pipe id _ =>
    let read := UserPipe.userPipeRead access dst maxlen nonblock interrupt (state.pipes id).pipe
    (.moved read.1, state.setPipe id { state.pipes id with pipe := read.2 })
  | .pty id slave =>
    let read := userPtyRead access slave dst maxlen nonblock interrupt (state.ptys id)
    (.moved read.1, state.setPty id read.2)

def writeBinding (src : ℕ) (len : ℤ) (nonblock interrupt : Bool) (binding : Binding)
    (state : State) : Outcome × State :=
  match binding with
  | .file _ _ _ => (.elsewhere, state)
  | .pipe id _ =>
    let written := UserPipe.userPipeWrite access src len nonblock interrupt (state.pipes id).pipe
    (.moved written.1, state.setPipe id { state.pipes id with pipe := written.2 })
  | .pty id slave =>
    let written := userPtyWrite access slave src len nonblock interrupt (state.ptys id)
    (.moved written.1, state.setPty id written.2)

def syscallRead (fd : ℤ) (dst : ℕ) (maxlen : ℤ) (interrupt : Bool) (state : State) :
    Outcome × State :=
  if maxlen = 0 then (.done, state)
  else if dst = 0 ∨ maxlen < 0 then (.failed, state)
  else
    match readRoute fd state with
    | .console => (.elsewhere, state)
    | .bad => (.failed, state)
    | .descriptor ufd =>
      readBinding access dst (min maxlen SYSCALL_IO_MAX) ufd.nonblock interrupt ufd.binding state

def syscallWrite (fd : ℤ) (src : ℕ) (len : ℤ) (interrupt : Bool) (state : State) :
    Outcome × State :=
  if len < 0 ∨ src = 0 then (.failed, state)
  else if len = 0 then (.done, state)
  else
    match writeRoute fd state with
    | .console => (.elsewhere, state)
    | .bad => (.failed, state)
    | .descriptor ufd =>
      writeBinding access src (min len SYSCALL_IO_MAX) ufd.nonblock interrupt ufd.binding state

/-! ### Calls -/

/-- The calls that change the tables. The capabilities of windows use the same registry. -/
inductive Call
  | openPath (drive : ℕ) (path : List UInt8) (flags : UInt32) (onDisk : Bool) (stat : Option Bool)
  | pipe (copied : Bool)
  | ptyOpen (copied : Bool)
  | dup (fd : ℤ)
  | dup2 (fd new : ℤ)
  | close (fd : ℤ)
  | reset
  | read (fd : ℤ) (access : UserPipe.Access) (dst : ℕ) (maxlen : ℤ) (interrupt : Bool)
  | write (fd : ℤ) (access : UserPipe.Access) (src : ℕ) (len : ℤ) (interrupt : Bool)
  | capMintFd (fd : ℤ) (rights : UInt32) (copied : Bool)
  | capFdClose (cap : Cap)
  | capMintGui (obj : UInt64) (rights : UInt32)
  | capRevokeGui (obj : UInt64)

/-- Perform a call. -/
def respond (table : FdTable) (secret : CapSecret) (state : State) : Call → Outcome × State
  | .openPath drive path flags onDisk stat => syscallOpen drive path flags onDisk stat state
  | .pipe copied => syscallPipe table copied state
  | .ptyOpen copied => syscallPtyOpen table copied state
  | .dup fd => syscallDup table fd state
  | .dup2 fd new => syscallDup2 table fd new state
  | .close fd => syscallClose table fd state
  | .reset => (.done, syscallResetUserFds table state)
  | .read fd access dst maxlen interrupt => syscallRead access fd dst maxlen interrupt state
  | .write fd access src len interrupt => syscallWrite access fd src len interrupt state
  | .capMintFd fd rights copied => syscallCapMintFd table secret fd rights copied state
  | .capFdClose cap => syscallCapFdClose table secret cap state
  | .capMintGui obj rights =>
    (.done, { state with ledger := (state.ledger.mint secret obj CAP_OBJ_USER_GUI rights).2 })
  | .capRevokeGui obj =>
    (.done, { state with ledger := state.ledger.revoke obj CAP_OBJ_USER_GUI })

end EynOS.Process.Descriptors
