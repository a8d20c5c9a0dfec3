import EynOS.Daemon.Message
import EynOS.Foundation.Run

/-!
# Calls of a daemon

Any number of clients perform `eyn_daemon_call` and one daemon performs `eyn_daemon_recv` and
`eyn_daemon_reply`. The lock is a directory, and both FIFOs are streams of bytes. Each byte carries
the number of the call whose request or reply it belongs to, and `State.replied` and `State.answers`
record the replies that the daemon starts to send and what the calls return; these are for the
statements only, and nothing that the parties do depends on them.

Not modelled: the time that is waited (a wait may end at any moment), and the paths, which are the
same for every client of the daemon.
-/

namespace EynOS.Daemon.Calls

open Foundation

/-! ### The parties -/

/-- A byte in a FIFO, with the number of its call. -/
abbrev Item : Type := UInt8 × ℕ

/-- The bytes of a call. -/
def tag (id : ℕ) (bytes : List UInt8) : List Item := bytes.map fun byte ↦ (byte, id)

/-- An `eyn_daemon_call`: its number, the request, and `resp_cap`. -/
structure Call where
  id : ℕ
  request : Message
  respCap : ℕ

/-- Where a client is in `eyn_daemon_call`: outside, waiting for the lock, with the lock, with the
reading end of the reply FIFO, writing the request, receiving the reply, or about to release the
lock. -/
inductive Phase where
  | idle
  | locking (call : Call)
  | locked (call : Call)
  | opened (call : Call)
  | writing (call : Call) (written : ℕ)
  | receiving (call : Call) (got : List Item)
  | leaving

/-- Between lock acquisition and release. -/
def Phase.holds : Phase → Bool
  | .idle => false
  | .locking _ => false
  | _ => true

def Phase.reads : Phase → Bool
  | .opened _ => true
  | .writing _ _ => true
  | .receiving _ _ => true
  | _ => false

def Phase.writes : Phase → Bool
  | .writing _ _ => true
  | .receiving _ _ => true
  | _ => false

/-- What the daemon does: nothing, `eyn_daemon_recv` with the bytes taken so far, or
`eyn_daemon_reply` to a request with the number of bytes written so far. -/
inductive Activity where
  | idle
  | receiving (got : List Item)
  | replying (id : ℕ) (reply : Message) (written : ℕ)

/-- What the daemon has taken of a request. -/
def Activity.got : Activity → List Item
  | .receiving got => got
  | _ => []

/-- The daemon has the writing end of the reply FIFO. -/
def Activity.replies : Activity → Bool
  | .replying _ _ _ => true
  | _ => false

/-- A call that has returned a reply. -/
structure Answer where
  id : ℕ
  respCap : ℕ
  payload : List UInt8

/-- The lock, the clients, the FIFOs with the numbers of open ends of the reply FIFO, the daemon
with the requests it has received and not replied to, and what has happened so far. -/
structure State where
  lock : Bool
  clients : ℕ → Phase
  nextId : ℕ
  requestFifo : List Item
  replyFifo : List Item
  readers : ℕ
  writers : ℕ
  daemon : Activity
  unanswered : List ℕ
  replied : List (ℕ × Message)
  answers : List Answer

/-- What happens: the steps of the clients, and those of the daemon. -/
inductive Event where
  | begin (client : ℕ) (request : Message) (respCap : ℕ)
  | lockTimeout (client : ℕ)
  | acquire (client : ℕ)
  | openReader (client : ℕ)
  | openFails (client : ℕ)
  | openWriter (client : ℕ)
  | write (client : ℕ)
  | writeFails (client : ℕ)
  | read (client : ℕ)
  | giveUp (client : ℕ)
  | release (client : ℕ)
  | recv
  | daemonRead
  | daemonGiveUp
  | reply (id : ℕ) (reply : Message)
  | replyFails (id : ℕ)
  | writeReply
  | closeReply

namespace State

/-- Before any call. -/
def start : State where
  lock := false
  clients := fun _ ↦ .idle
  nextId := 0
  requestFifo := []
  replyFifo := []
  readers := 0
  writers := 0
  daemon := .idle
  unanswered := []
  replied := []
  answers := []

def setClient (state : State) (client : ℕ) (phase : Phase) : State :=
  { state with clients := Function.update state.clients client phase }

/-- Ends of the reply FIFO are closed. Its bytes are dropped with the last one. -/
def closeEnds (state : State) (readers writers : ℕ) : State :=
  { state with
    readers := state.readers - readers
    writers := state.writers - writers
    replyFifo :=
      if state.readers - readers = 0 ∧ state.writers - writers = 0 then [] else state.replyFifo }

/-! ### A client -/

/-- `eyn_daemon_call` is called. -/
def begin (state : State) (client : ℕ) (request : Message) (respCap : ℕ) : State :=
  if EYN_DAEMON_MSG_MAX < request.payload.length then state
  else
    match state.clients client with
    | .idle =>
      { state.setClient client
        (.locking { id := state.nextId, request := request, respCap := respCap })
        with nextId := state.nextId + 1 }
    | _ => state

def lockTimeout (state : State) (client : ℕ) : State :=
  match state.clients client with
  | .locking _ => state.setClient client .idle
  | _ => state

/-- `mkdir` of the lock directory. -/
def acquire (state : State) (client : ℕ) : State :=
  match state.clients client with
  | .locking call =>
    if state.lock then state else { state.setClient client (.locked call) with lock := true }
  | _ => state

/-- The reading end of the reply FIFO is opened. -/
def openReader (state : State) (client : ℕ) : State :=
  match state.clients client with
  | .locked call => { state.setClient client (.opened call) with readers := state.readers + 1 }
  | _ => state

def openFails (state : State) (client : ℕ) : State :=
  match state.clients client with
  | .locked _ => state.setClient client .leaving
  | .opened _ => (state.closeEnds 1 0).setClient client .leaving
  | _ => state

/-- The writing ends of the reply FIFO and of the request FIFO are opened. -/
def openWriter (state : State) (client : ℕ) : State :=
  match state.clients client with
  | .opened call => { state.setClient client (.writing call 0) with writers := state.writers + 1 }
  | _ => state

/-- As much of the request is stored as there is room for. -/
def write (capacity : ℕ) (state : State) (client : ℕ) : State :=
  match state.clients client with
  | .writing call written =>
    let count := min (call.request.encode.length - written) (capacity - state.requestFifo.length)
    if count = 0 then state
    else
      { state.setClient client
          (if written + count = call.request.encode.length then .receiving call []
          else .writing call (written + count)) with
        requestFifo :=
          state.requestFifo ++ tag call.id ((call.request.encode.drop written).take count) }
  | _ => state

/-- The request cannot be written. -/
def writeFails (state : State) (client : ℕ) : State :=
  match state.clients client with
  | .writing _ _ => (state.closeEnds 1 1).setClient client .leaving
  | _ => state

/-- A read of `eyn_daemon__recv_framed`, and what it leads to. -/
def read (state : State) (client : ℕ) : State :=
  match state.clients client with
  | .receiving call got =>
    let taken := state.replyFifo.take ((framing Prod.fst).wanted got)
    if taken = [] then state
    else
      let left := { state with replyFifo := state.replyFifo.drop taken.length }
      match (framing Prod.fst).status (got ++ taken) with
      | .more => left.setClient client (.receiving call (got ++ taken))
      | .bad => (left.closeEnds 1 1).setClient client .leaving
      | .complete =>
        { (left.closeEnds 1 1).setClient client .leaving with
          answers := state.answers ++
            [{ id := call.id
               respCap := call.respCap
               payload := received call.respCap ((got ++ taken).map Prod.fst) }] }
  | _ => state

/-- The receive ends after a read that found nothing: its time is up, or it is interrupted. Bytes
may have come since. -/
def giveUp (state : State) (client : ℕ) : State :=
  match state.clients client with
  | .receiving _ _ => (state.closeEnds 1 1).setClient client .leaving
  | _ => state

/-- `rmdir` of the lock directory. -/
def release (state : State) (client : ℕ) : State :=
  match state.clients client with
  | .leaving => { state.setClient client .idle with lock := false }
  | _ => state

/-! ### The daemon -/

/-- The daemon calls `eyn_daemon_recv`. -/
def recv (state : State) : State :=
  match state.daemon with
  | .idle => { state with daemon := .receiving [] }
  | _ => state

/-- A read of `eyn_daemon__recv_framed`, and what it leads to. The request that is received is that
of the call whose byte comes first. -/
def daemonRead (state : State) : State :=
  match state.daemon with
  | .receiving got =>
    let taken := state.requestFifo.take ((framing Prod.fst).wanted got)
    if taken = [] then state
    else
      let left := { state with requestFifo := state.requestFifo.drop taken.length }
      match (framing Prod.fst).status (got ++ taken) with
      | .more => { left with daemon := .receiving (got ++ taken) }
      | .bad => { left with daemon := .idle }
      | .complete =>
        { left with
          daemon := .idle
          unanswered := state.unanswered ++ ((got ++ taken).head?.map Prod.snd).toList }
  | _ => state

/-- The receive ends after a read that found nothing. -/
def daemonGiveUp (state : State) : State :=
  match state.daemon with
  | .receiving _ => { state with daemon := .idle }
  | _ => state

/-- The daemon calls `eyn_daemon_reply` for a request that it has received. -/
def reply (state : State) (id : ℕ) (reply : Message) : State :=
  match state.daemon with
  | .idle =>
    if id ∈ state.unanswered then
      { state with
        daemon := .replying id reply 0
        writers := state.writers + 1
        unanswered := state.unanswered.erase id
        replied := state.replied ++ [(id, reply)] }
    else state
  | _ => state

def replyFails (state : State) (id : ℕ) : State :=
  match state.daemon with
  | .idle => { state with unanswered := state.unanswered.erase id }
  | _ => state

/-- The daemon closes the reply FIFO, also where it could not write the whole reply. -/
def closeReply (state : State) : State :=
  match state.daemon with
  | .replying _ _ _ => { state.closeEnds 0 1 with daemon := .idle }
  | _ => state

/-- A write of the header or of the payload of a reply. It fails where nobody has the reading
end. -/
def writeReply (capacity : ℕ) (state : State) : State :=
  match state.daemon with
  | .replying id reply written =>
    if state.readers = 0 then state.closeReply
    else
      let asked :=
        if written < headerSize then headerSize - written else reply.encode.length - written
      let count := min asked (capacity - state.replyFifo.length)
      { state with
        daemon := .replying id reply (written + count)
        replyFifo := state.replyFifo ++ tag id ((reply.encode.drop written).take count) }
  | _ => state

end State

/-- One event, for FIFOs of some capacity. -/
def State.step (capacity : ℕ) (state : State) : Event → State
  | .begin client request respCap => state.begin client request respCap
  | .lockTimeout client => state.lockTimeout client
  | .acquire client => state.acquire client
  | .openReader client => state.openReader client
  | .openFails client => state.openFails client
  | .openWriter client => state.openWriter client
  | .write client => state.write capacity client
  | .writeFails client => state.writeFails client
  | .read client => state.read client
  | .giveUp client => state.giveUp client
  | .release client => state.release client
  | .recv => state.recv
  | .daemonRead => state.daemonRead
  | .daemonGiveUp => state.daemonGiveUp
  | .reply id reply => state.reply id reply
  | .replyFails id => state.replyFails id
  | .writeReply => state.writeReply capacity
  | .closeReply => state.closeReply

/-- Nothing is left of an earlier request: not in the request FIFO, and not with the daemon. -/
def State.Settled (state : State) : Prop :=
  state.requestFifo = [] ∧ state.daemon.got = [] ∧ state.unanswered = [] ∧
    state.daemon.replies = false

instance (state : State) : Decidable state.Settled := inferInstanceAs (Decidable (_ ∧ _ ∧ _ ∧ _))

def Event.opens : Event → Bool
  | .openReader _ => true
  | _ => false

def Event.givesUp : Event → Bool
  | .daemonGiveUp => true
  | _ => false

/-- A client opens the reply FIFO only where nothing is left of an earlier request, and the daemon
gives a receive up only before it has taken anything. -/
def Permitted (state : State) (event : Event) : Prop :=
  (event.opens = true → state.Settled) ∧ (event.givesUp = true → state.daemon.got = [])

instance (state : State) (event : Event) : Decidable (Permitted state event) :=
  inferInstanceAs (Decidable ((_ = true → _) ∧ (_ = true → _)))

end EynOS.Daemon.Calls
