import EynOS.Foundation.CountedRing
import EynOS.Foundation.MachineWord
import EynOS.Foundation.Run

/-!
# Pipes

A pipe keeps queued bytes in its buffer and, when the spool is enabled, in a second ring. A call
copies from or to user memory piece by piece; `Access` says for every address and length whether
the copy succeeds, and what the memory holds. A call that has to wait returns `waits` with the
number of bytes it has stored so far, and `resumeWrite` continues it.

`Stream` is a pipe with the bytes that its writers have had accepted and its readers have got since
its first end was opened.

Not modelled: the table of pipes and file descriptors, and the paths of named pipes.
-/

namespace EynOS.Process.UserPipe

open Foundation

def USER_PIPE_BUFFER_BYTES : ℕ := 4096

def USER_PIPE_SPOOL_CAP_BYTES : ℕ := 16384

def zeroRing : CountedRing UInt8 := { cells := fun _ ↦ 0, readPos := 0, writePos := 0, used := 0 }

/-- `user_pipe_t`. `spoolBuf` says whether the spool has memory. -/
structure Pipe where
  used : Bool
  persistentFifo : Bool
  spoolEnabled : Bool
  readerRefs : ℕ
  writerRefs : ℕ
  buffer : CountedRing UInt8
  spoolBuf : Bool
  spoolCap : ℕ
  spool : CountedRing UInt8

def zeroPipe : Pipe where
  used := false
  persistentFifo := false
  spoolEnabled := false
  readerRefs := 0
  writerRefs := 0
  buffer := zeroRing
  spoolBuf := false
  spoolCap := 0
  spool := zeroRing

/-- Forget the bytes of a ring. -/
def rewind (ring : CountedRing UInt8) : CountedRing UInt8 :=
  { ring with readPos := 0, writePos := 0, used := 0 }

/-! ### Life of a pipe -/

def userPipeMaybeDestroy (pipe : Pipe) : Pipe :=
  if pipe.used = false then pipe
  else if pipe.readerRefs = 0 ∧ pipe.writerRefs = 0 then
    if pipe.persistentFifo then
      { pipe with buffer := rewind pipe.buffer, spool := rewind pipe.spool }
    else zeroPipe
  else pipe

/-- `user_pipe_alloc` for a pipe that is not used. -/
def userPipeAlloc (persistentFifo : Bool) (pipe : Pipe) : Pipe :=
  if pipe.used then pipe
  else { zeroPipe with used := true, persistentFifo := persistentFifo }

def openEnd (writer : Bool) (pipe : Pipe) : Pipe :=
  if pipe.used = false then pipe
  else if writer then { pipe with writerRefs := pipe.writerRefs + 1 }
  else { pipe with readerRefs := pipe.readerRefs + 1 }

/-- `user_fd_release` for a descriptor of one end. -/
def userFdRelease (writer : Bool) (pipe : Pipe) : Pipe :=
  if pipe.used = false then pipe
  else
    userPipeMaybeDestroy
      (if writer then { pipe with writerRefs := pipe.writerRefs - 1 }
      else { pipe with readerRefs := pipe.readerRefs - 1 })

/-- `user_pipe_set_spool`, with the outcome of the allocation of the spool. -/
def userPipeSetSpool (enabled allocated : Bool) (pipe : Pipe) : ℤ × Pipe :=
  if pipe.used = false then (-1, pipe)
  else if enabled = false then
    (0, { pipe with
      spoolEnabled := false
      spool := rewind pipe.spool
      spoolBuf := false
      spoolCap := 0 })
  else if pipe.spoolBuf then (0, { pipe with spoolEnabled := true })
  else if allocated = false then (-1, pipe)
  else
    (0, { pipe with
      spoolEnabled := true
      spool := zeroRing
      spoolBuf := true
      spoolCap := USER_PIPE_SPOOL_CAP_BYTES })

/-! ### Copying -/

/-- The memory of a user program as a call sees it: what it holds, and which copies succeed. -/
structure Access where
  memory : ℕ → UInt8
  succeeds : ℕ → ℕ → Bool

def Access.bytes (access : Access) (address count : ℕ) : List UInt8 :=
  (List.range count).map fun n ↦ access.memory (u32 (address + n))

variable (access : Access)

/-- `user_pipe_copyout_bytes` with the bytes that are copied, or `none` where a copy fails. -/
def userPipeCopyoutBytes (capacity dst maxlen : ℕ) :
    ℕ → List UInt8 → CountedRing UInt8 → Option (List UInt8) × CountedRing UInt8
  | 0, copied, ring => (some copied, ring)
  | rounds + 1, copied, ring =>
    if copied.length < maxlen ∧ 0 < ring.used then
      let contiguous := min (capacity - ring.readPos) ring.used
      let chunk := min (maxlen - copied.length) contiguous
      if chunk = 0 then (some copied, ring)
      else if access.succeeds (u32 (dst + copied.length)) chunk = false then (none, ring)
      else
        userPipeCopyoutBytes capacity dst maxlen rounds (copied ++ ring.front chunk)
          (ring.consume capacity chunk)
    else (some copied, ring)

/-- `user_pipe_copyin_bytes` with the bytes that are copied, or `none` where a copy fails. -/
def userPipeCopyinBytes (capacity src len : ℕ) :
    ℕ → List UInt8 → CountedRing UInt8 → Option (List UInt8) × CountedRing UInt8
  | 0, copied, ring => (some copied, ring)
  | rounds + 1, copied, ring =>
    if copied.length < len then
      let freeSpace := capacity - ring.used
      if freeSpace = 0 then (some copied, ring)
      else
        let contiguous := min (capacity - ring.writePos) freeSpace
        let chunk := min (len - copied.length) contiguous
        if chunk = 0 then (some copied, ring)
        else if access.succeeds (u32 (src + copied.length)) chunk = false then (none, ring)
        else
          let bytes := access.bytes (src + copied.length) chunk
          userPipeCopyinBytes capacity src len rounds (copied ++ bytes) (ring.fill capacity bytes)
    else (some copied, ring)

/-! ### Reading and writing -/

/-- How a call ends: with bytes, with -1 because of its arguments or the state of the pipe, with -1
because of the user's memory, or not yet. -/
inductive Response
  | bytes (bytes : List UInt8)
  | refused
  | fault
  | waits (bytes : List UInt8)

def userPipeRead (dst : ℕ) (maxlen : ℤ) (nonblock interrupt : Bool) (pipe : Pipe) :
    Response × Pipe :=
  if maxlen < 0 ∨ dst = 0 ∨ pipe.used = false then (.refused, pipe)
  else if maxlen = 0 then (.bytes [], pipe)
  else if pipe.buffer.used = 0 ∧ pipe.spool.used = 0 then
    if pipe.writerRefs = 0 then (.bytes [], pipe)
    else if nonblock ∨ interrupt then (.refused, pipe)
    else (.waits [], pipe)
  else
    match userPipeCopyoutBytes access USER_PIPE_BUFFER_BYTES dst maxlen.toNat maxlen.toNat []
      pipe.buffer with
    | (none, buffer) => (.fault, { pipe with buffer := buffer })
    | (some copied, buffer) =>
      if maxlen.toNat ≤ copied.length ∨ pipe.spool.used = 0 then
        (.bytes copied, { pipe with buffer := buffer })
      else
        match userPipeCopyoutBytes access pipe.spoolCap (dst + copied.length)
          (maxlen.toNat - copied.length) (maxlen.toNat - copied.length) [] pipe.spool with
        | (none, spool) => (.fault, { pipe with buffer := buffer, spool := spool })
        | (some more, spool) =>
          (.bytes (copied ++ more), { pipe with buffer := buffer, spool := spool })

/-- The response of a write that cannot go on: what it has stored, or -1 where that is nothing. -/
def stored (progress : ℕ) (bytes : List UInt8) : Response :=
  if progress + bytes.length = 0 then .refused else .bytes bytes

/-- The loop of `user_pipe_write` for a call that stored some bytes before it had to wait, with the
bytes it has stored since. Every round that goes on stores a byte, so that as many rounds suffice as
there are bytes to store. -/
def userPipeWriteLoop (src len progress : ℕ) (nonblock interrupt : Bool) :
    ℕ → List UInt8 → Pipe → Response × Pipe
  | 0, bytes, pipe => (.bytes bytes, pipe)
  | rounds + 1, bytes, pipe =>
    let n := progress + bytes.length
    if len ≤ n then (.bytes bytes, pipe)
    else if USER_PIPE_BUFFER_BYTES ≤ pipe.buffer.used ∧
        (pipe.spoolEnabled = false ∨ pipe.spoolCap ≤ pipe.spool.used) then
      if pipe.readerRefs = 0 ∨ nonblock ∨ interrupt then (stored progress bytes, pipe)
      else (.waits bytes, pipe)
    else if pipe.buffer.used < USER_PIPE_BUFFER_BYTES then
      match userPipeCopyinBytes access USER_PIPE_BUFFER_BYTES (src + n) (len - n) (len - n) []
        pipe.buffer with
      | (none, buffer) => (.fault, { pipe with buffer := buffer })
      | (some wrote, buffer) =>
        userPipeWriteLoop src len progress nonblock interrupt rounds (bytes ++ wrote)
          { pipe with buffer := buffer }
    else if pipe.spoolEnabled ∧ pipe.spoolBuf ∧ pipe.spool.used < pipe.spoolCap then
      match userPipeCopyinBytes access pipe.spoolCap (src + n) (len - n) (len - n) []
        pipe.spool with
      | (none, spool) => (.fault, { pipe with spool := spool })
      | (some wrote, spool) =>
        userPipeWriteLoop src len progress nonblock interrupt rounds (bytes ++ wrote)
          { pipe with spool := spool }
    -- an enabled spool without memory: the call goes round without storing anything
    else if nonblock then (stored progress bytes, pipe)
    else (.waits bytes, pipe)

def userPipeWrite (src : ℕ) (len : ℤ) (nonblock interrupt : Bool) (pipe : Pipe) : Response × Pipe :=
  if len < 0 ∨ src = 0 ∨ pipe.used = false then (.refused, pipe)
  else if len = 0 then (.bytes [], pipe)
  else if pipe.readerRefs = 0 then (.refused, pipe)
  else userPipeWriteLoop access src len.toNat 0 nonblock interrupt len.toNat [] pipe

/-! ### Runs -/

/-- What happens to a pipe. A write that had to wait after it stored some bytes is resumed. -/
inductive Event
  | alloc (persistentFifo : Bool)
  | openEnd (writer : Bool)
  | release (writer : Bool)
  | setSpool (enabled allocated : Bool)
  | read (access : Access) (dst : ℕ) (maxlen : ℤ) (nonblock interrupt : Bool)
  | write (access : Access) (src : ℕ) (len : ℤ) (nonblock interrupt : Bool)
  | resumeWrite (access : Access) (src len progress : ℕ) (nonblock interrupt : Bool)

/-- What an event does to a pipe, with the response where it is a read or a write. -/
def respond (pipe : Pipe) : Event → Response × Pipe
  | .alloc persistentFifo => (.bytes [], userPipeAlloc persistentFifo pipe)
  | .openEnd writer => (.bytes [], openEnd writer pipe)
  | .release writer => (.bytes [], userFdRelease writer pipe)
  | .setSpool enabled allocated => (.bytes [], (userPipeSetSpool enabled allocated pipe).2)
  | .read access dst maxlen nonblock interrupt =>
    userPipeRead access dst maxlen nonblock interrupt pipe
  | .write access src len nonblock interrupt =>
    userPipeWrite access src len nonblock interrupt pipe
  | .resumeWrite access src len progress nonblock interrupt =>
    userPipeWriteLoop access src len progress nonblock interrupt (len - progress) [] pipe

/-- The bytes that a response hands to a reader or takes from a writer. -/
def Response.moved : Response → List UInt8
  | .bytes copied => copied
  | .refused => []
  | .fault => []
  | .waits copied => copied

/-- A pipe with the bytes accepted from its writers and returned to its readers. -/
structure Stream where
  pipe : Pipe
  accepted : List UInt8
  returned : List UInt8

/-- One event. The stream starts anew where the pipe is allocated and where its last end is
released. -/
def Stream.step (stream : Stream) (event : Event) : Stream :=
  let response := respond stream.pipe event
  match event with
  | .alloc _ =>
    if stream.pipe.used then stream else { pipe := response.2, accepted := [], returned := [] }
  | .openEnd _ => { stream with pipe := response.2 }
  | .release _ =>
    if stream.pipe.used ∧ response.2.readerRefs = 0 ∧ response.2.writerRefs = 0 then
      { pipe := response.2, accepted := [], returned := [] }
    else { stream with pipe := response.2 }
  | .setSpool _ _ => { stream with pipe := response.2 }
  | .read _ _ _ _ _ =>
    { stream with pipe := response.2, returned := stream.returned ++ response.1.moved }
  | .write _ _ _ _ _ =>
    { stream with pipe := response.2, accepted := stream.accepted ++ response.1.moved }
  | .resumeWrite _ _ _ _ _ _ =>
    { stream with pipe := response.2, accepted := stream.accepted ++ response.1.moved }

/-- A pipe that is not used. -/
def Stream.start : Stream := { pipe := zeroPipe, accepted := [], returned := [] }

end EynOS.Process.UserPipe
