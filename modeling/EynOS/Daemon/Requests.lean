import EynOS.Daemon.Message
import EynOS.Foundation.Run
import Mathlib.Data.List.Forall2

/-!
# The request FIFO of a daemon

Any number of senders write messages to one FIFO, and the daemon receives them. A write stores as
much as there is room for; what is left is stored later, by the same call or by the next turn of
`eyn_daemon__write_all`. `State.sent` lists the messages whose first bytes are in the FIFO and
`State.incomplete` the senders whose message has not been written to its end.

`messages_whole` is when the daemon receives whole messages: where no message is begun in the FIFO
while another one is incomplete (so in particular where each write finds room for its whole
message), and no receive gives up with bytes taken. `not_messages_whole` fills the FIFO.
-/

namespace EynOS.Daemon.Requests

open Foundation

/-! ### The system -/

/-- A `eyn_daemon_recv` that has not returned: `buf_cap`, and the bytes that it has taken. -/
structure Receiving where
  bufCap : ℕ
  got : List UInt8

/-- What a `eyn_daemon_recv` has returned: `buf_cap`, and the payload. -/
structure Received where
  bufCap : ℕ
  payload : List UInt8

/-- The FIFO, for each sender the message that it writes and how much of it is written, the receive
of the daemon, and what has happened so far. -/
structure State where
  fifo : List UInt8
  sending : ℕ → Option (Message × ℕ)
  receiving : Option Receiving
  begun : List (ℕ × Message)
  sent : List (ℕ × Message)
  incomplete : List ℕ
  returned : List Received

/-- What happens: `eyn_daemon_send` or `eyn_daemon_call` has opened the FIFO, a write stores bytes
or fails, `eyn_daemon_recv` is called, reads, or ends without a message. -/
inductive Event where
  | begin (sender : ℕ) (message : Message)
  | write (sender : ℕ)
  | fail (sender : ℕ)
  | recv (bufCap : ℕ)
  | read
  | giveUp

namespace State

/-- Before anything is sent. -/
def start : State where
  fifo := []
  sending := fun _ ↦ none
  receiving := none
  begun := []
  sent := []
  incomplete := []
  returned := []

/-- A sender starts to write, unless it has not ended the last message or the payload is too
large. -/
def begin (state : State) (sender : ℕ) (message : Message) : State :=
  if EYN_DAEMON_MSG_MAX < message.payload.length then state
  else
    match state.sending sender with
    | some _ => state
    | none =>
      { state with
        sending := Function.update state.sending sender (some (message, 0))
        begun := state.begun ++ [(sender, message)] }

/-- A sender stores as many of the bytes that are left as there is room for. -/
def write (capacity : ℕ) (state : State) (sender : ℕ) : State :=
  match state.sending sender with
  | none => state
  | some (message, written) =>
    let count := min (message.encode.length - written) (capacity - state.fifo.length)
    if count = 0 then state
    else
      let ended := written + count = message.encode.length
      { state with
        fifo := state.fifo ++ (message.encode.drop written).take count
        sending := Function.update state.sending sender
          (if ended then none else some (message, written + count))
        sent := if written = 0 then state.sent ++ [(sender, message)] else state.sent
        incomplete :=
          if ended then state.incomplete.erase sender
          else if written = 0 then sender :: state.incomplete
          else state.incomplete }

/-- A sender gives its message up. -/
def fail (state : State) (sender : ℕ) : State :=
  { state with sending := Function.update state.sending sender none }

/-- The daemon calls `eyn_daemon_recv`. -/
def recv (state : State) (bufCap : ℕ) : State :=
  match state.receiving with
  | some _ => state
  | none => { state with receiving := some { bufCap := bufCap, got := [] } }

/-- A read of `eyn_daemon__recv_framed`, and what it leads to. -/
def read (state : State) : State :=
  match state.receiving with
  | none => state
  | some receiving =>
    let taken := state.fifo.take ((framing id).wanted receiving.got)
    if taken = [] then state
    else
      let got := receiving.got ++ taken
      let left := { state with fifo := state.fifo.drop taken.length }
      match (framing id).status got with
      | .more => { left with receiving := some { receiving with got := got } }
      | .bad => { left with receiving := none }
      | .complete =>
        { left with
          receiving := none
          returned := state.returned ++
            [{ bufCap := receiving.bufCap, payload := Daemon.received receiving.bufCap got }] }

/-- The receive finds the FIFO empty and ends: its time is up, or it is interrupted. -/
def giveUp (state : State) : State :=
  if state.fifo = [] then { state with receiving := none } else state

end State

/-- One event, for a FIFO of some capacity. -/
def State.step (capacity : ℕ) (state : State) : Event → State
  | .begin sender message => state.begin sender message
  | .write sender => state.write capacity sender
  | .fail sender => state.fail sender
  | .recv bufCap => state.recv bufCap
  | .read => state.read
  | .giveUp => state.giveUp

/-- A message is begun in the FIFO only where none is incomplete, and a receive gives up only
before it has taken anything. -/
def Permitted (state : State) : Event → Prop
  | .write sender => ∀ begun ∈ state.sending sender, begun.2 = 0 → state.incomplete = []
  | .giveUp => ∀ receiving ∈ state.receiving, receiving.got = []
  | _ => True

instance (state : State) : DecidablePred (Permitted state)
  | .write _ => inferInstanceAs (Decidable (∀ begun ∈ state.sending _, begun.2 = 0 → _ = []))
  | .giveUp => inferInstanceAs (Decidable (∀ receiving ∈ state.receiving, receiving.got = []))
  | .begin _ _ => isTrue trivial
  | .fail _ => isTrue trivial
  | .recv _ => isTrue trivial
  | .read => isTrue trivial

variable {state : State} {capacity sender other written : ℕ} {message : Message} {bufCap : ℕ}
  {event : Event}

/-! ### The bytes in the FIFO -/

/-- The bytes that the daemon has taken of the current message. -/
def State.got (state : State) : List UInt8 :=
  match state.receiving with
  | none => []
  | some receiving => receiving.got

/-- The messages that the daemon has not returned. -/
def State.pending (state : State) : List (ℕ × Message) := state.sent.drop state.returned.length

/-- The bytes that are still to be written: none, or the end of the one incomplete message, which
its sender goes on with unless it has given it up. -/
def Unwritten (state : State) (rest : List UInt8) : Prop :=
  (state.incomplete = [] ∧ rest = [] ∧
    ∀ sender message written, state.sending sender = some (message, written) → written = 0) ∨
  ∃ sender message written, state.incomplete = [sender] ∧ rest = message.encode.drop written ∧
    ∀ other begun count, state.sending other = some (begun, count) →
      count = 0 ∨ other = sender ∧ begun = message ∧ count = written

/-- What the daemon has taken, what is in the FIFO and what is still to be written are the messages
that were not returned, of which the daemon has not taken a whole one. -/
structure Whole (state : State) : Prop where
  returned : List.Forall₂ (fun received sent ↦
    received.payload = sent.2.payload.take received.bufCap) state.returned
    (state.sent.take state.returned.length)
  stream : ∃ rest, state.got ++ (state.fifo ++ rest) =
    (state.pending.map fun sent ↦ sent.2.encode).flatten ∧ Unwritten state rest
  current : ∀ first ∈ state.pending.head?, state.got.length < first.2.encode.length
  begun : ∀ sender message written, state.sending sender = some (message, written) →
    written < message.encode.length

theorem length_encode_pos (message : Message) : 0 < message.encode.length := by
  rw [length_encode]
  exact Nat.add_pos_left (by decide) _

section

variable (hwhole : Whole state)

include hwhole

theorem Whole.length_le : state.returned.length ≤ state.sent.length := by
  have hlength := hwhole.returned.length_eq
  rw [List.length_take] at hlength
  omega

theorem Whole.got_eq_nil (hpending : state.pending = []) :
    state.got = [] := by
  obtain ⟨rest, hstream, -⟩ := hwhole.stream
  rw [hpending] at hstream
  exact (List.append_eq_nil_iff.mp hstream).1

/-- A change of what senders are about to write. -/
theorem Whole.setSending {sending : ℕ → Option (Message × ℕ)}
    {begun : List (ℕ × Message)}
    (hsending : ∀ sender message written, sending sender = some (message, written) →
      written = 0 ∨ state.sending sender = some (message, written)) :
    Whole { state with sending := sending, begun := begun } := by
  obtain ⟨hreturned, ⟨rest, hstream, hunwritten⟩, hcurrent, hbegun⟩ := hwhole
  refine ⟨hreturned, ⟨rest, hstream, ?_⟩, hcurrent, fun sender message written hsome ↦ ?_⟩
  · rcases hunwritten with ⟨hcomplete, hrest, hnone⟩ | ⟨sender, message, written, hone, hrest, hrun⟩
    · refine Or.inl ⟨hcomplete, hrest, fun other begun count hother ↦ ?_⟩
      exact (hsending other begun count hother).elim id (hnone other begun count)
    · refine Or.inr ⟨sender, message, written, hone, hrest, fun other begun count hother ↦ ?_⟩
      exact (hsending other begun count hother).elim Or.inl (hrun other begun count)
  · rcases hsending sender message written hsome with rfl | hwas
    · exact length_encode_pos message
    · exact hbegun sender message written hwas

theorem Whole.begin (sender : ℕ) (message : Message) :
    Whole (state.begin sender message) := by
  unfold State.begin
  split_ifs
  · exact hwhole
  cases state.sending sender with
  | some _ => exact hwhole
  | none =>
    refine hwhole.setSending fun other begun written hsome ↦ ?_
    by_cases hother : other = sender
    · rw [hother, Function.update_self, Option.some.injEq, Prod.mk.injEq] at hsome
      exact Or.inl hsome.2.symm
    · rw [Function.update_of_ne hother] at hsome
      exact Or.inr hsome

theorem Whole.fail (sender : ℕ) : Whole (state.fail sender) := by
  refine hwhole.setSending fun other begun written hsome ↦ ?_
  by_cases hother : other = sender
  · rw [hother, Function.update_self] at hsome
    exact absurd hsome.symm (Option.some_ne_none _)
  · rw [Function.update_of_ne hother] at hsome
    exact Or.inr hsome

theorem Whole.recv (bufCap : ℕ) : Whole (state.recv bufCap) := by
  unfold State.recv
  cases hreceiving : state.receiving with
  | some receiving => exact hwhole
  | none =>
    have hgot : state.got = [] := by
      unfold State.got
      rw [hreceiving]
    obtain ⟨hreturned, hstream, hcurrent, hbegun⟩ := hwhole
    rw [hgot] at hstream hcurrent
    exact ⟨hreturned, hstream, hcurrent, hbegun⟩

theorem Whole.giveUp
    (hgot : ∀ receiving ∈ state.receiving, receiving.got = []) : Whole state.giveUp := by
  unfold State.giveUp
  by_cases hempty : state.fifo = []
  · rw [if_pos hempty]
    have hnothing : state.got = [] := by
      unfold State.got
      cases hreceiving : state.receiving with
      | none => rfl
      | some receiving => exact hgot receiving (by rw [hreceiving]; rfl)
    obtain ⟨hreturned, hstream, hcurrent, hbegun⟩ := hwhole
    rw [hnothing] at hstream hcurrent
    exact ⟨hreturned, hstream, hcurrent, hbegun⟩
  · rw [if_neg hempty]
    exact hwhole

end

/-- What is still to be written after a write, where no other sender is in the middle of a
message. -/
theorem unwritten_write {after : State} {count : ℕ}
    (hothers : ∀ other begun count, other ≠ sender → state.sending other = some (begun, count) →
      count = 0)
    (hsending : after.sending = Function.update state.sending sender
      (if written + count = message.encode.length then none else some (message, written + count)))
    (hincomplete : after.incomplete =
      if written + count = message.encode.length then [] else [sender]) :
    Unwritten after (message.encode.drop (written + count)) := by
  by_cases hended : written + count = message.encode.length
  · rw [if_pos hended] at hsending hincomplete
    refine Or.inl ⟨hincomplete, List.drop_eq_nil_of_le (Nat.le_of_eq hended.symm),
      fun other begun count hother ↦ ?_⟩
    rw [hsending] at hother
    by_cases hsame : other = sender
    · rw [hsame, Function.update_self] at hother
      exact absurd hother.symm (Option.some_ne_none _)
    · rw [Function.update_of_ne hsame] at hother
      exact hothers other begun count hsame hother
  · rw [if_neg hended] at hsending hincomplete
    refine Or.inr ⟨sender, message, written + count, hincomplete, rfl,
      fun other begun count hother ↦ ?_⟩
    rw [hsending] at hother
    by_cases hsame : other = sender
    · rw [hsame, Function.update_self, Option.some.injEq, Prod.mk.injEq] at hother
      exact Or.inr ⟨hsame, hother.1.symm, hother.2.symm⟩
    · rw [Function.update_of_ne hsame] at hother
      exact Or.inl (hothers other begun count hsame hother)

/-- A write to the FIFO that begins a message only where none is incomplete. -/
theorem Whole.write (hwhole : Whole state) (capacity sender : ℕ)
    (hfirst : ∀ begun ∈ state.sending sender, begun.2 = 0 → state.incomplete = []) :
    Whole (state.write capacity sender) := by
  unfold State.write
  cases hsending : state.sending sender with
  | none => exact hwhole
  | some begun =>
    obtain ⟨message, written⟩ := begun
    simp only
    generalize hcount : min (message.encode.length - written)
      (capacity - state.fifo.length) = count
    by_cases hzero : count = 0
    · rw [if_pos hzero]
      exact hwhole
    rw [if_neg hzero]
    have hlt := hwhole.begun sender message written hsending
    have hbound : written + count ≤ message.encode.length := by omega
    have hle := hwhole.length_le
    have hnothing := hwhole.got_eq_nil
    obtain ⟨hreturned, ⟨rest, hstream, hunwritten⟩, hcurrent, hbegun⟩ := hwhole
    have hsplit : (message.encode.drop written).take count ++
        message.encode.drop (written + count) = message.encode.drop written := by
      rw [← List.drop_drop, List.take_append_drop]
    have hrunning (other : ℕ) (begun : Message) (stored : ℕ)
        (hother : Function.update state.sending sender
          (if written + count = message.encode.length then none
          else some (message, written + count)) other = some (begun, stored)) :
        stored < begun.encode.length := by
      by_cases hsame : other = sender
      · rw [hsame, Function.update_self] at hother
        by_cases hended : written + count = message.encode.length
        · rw [if_pos hended] at hother
          exact absurd hother.symm (Option.some_ne_none _)
        · rw [if_neg hended, Option.some.injEq, Prod.mk.injEq] at hother
          obtain ⟨rfl, rfl⟩ := hother
          exact Nat.lt_of_le_of_ne hbound hended
      · rw [Function.update_of_ne hsame] at hother
        exact hbegun other begun stored hother
    by_cases hstarts : written = 0
    · have hcomplete : state.incomplete = [] := hfirst (message, written) hsending hstarts
      obtain ⟨-, rfl, hnone⟩ : state.incomplete = [] ∧ rest = [] ∧
          ∀ sender message written, state.sending sender = some (message, written) →
            written = 0 := by
        rcases hunwritten with hnone | ⟨_, _, _, hone, -⟩
        · exact hnone
        · rw [hcomplete] at hone
          exact absurd hone (List.cons_ne_nil _ _).symm
      simp only [if_pos hstarts]
      have hpending : (state.sent ++ [(sender, message)]).drop state.returned.length =
          state.pending ++ [(sender, message)] := List.drop_append_of_le_length hle
      refine ⟨?_, ⟨message.encode.drop (written + count), ?_, ?_⟩, ?_, hrunning⟩
      · rw [List.take_append_of_le_length hle]
        exact hreturned
      · change state.got ++ (state.fifo ++ _ ++ _) = List.flatten (List.map _ (List.drop _ _))
        rw [hpending, List.map_append, List.flatten_append, ← hstream, List.append_nil,
          List.append_assoc, hsplit, hstarts]
        simp
      · refine unwritten_write (fun other begun stored _ ↦ hnone other begun stored) rfl ?_
        simp [hcomplete]
      · change ∀ first ∈ (List.drop _ _).head?, state.got.length < _
        rw [hpending]
        cases hlist : state.pending with
        | nil =>
          rintro first hhead
          obtain rfl := Option.some.inj hhead
          rw [hnothing hlist]
          exact length_encode_pos message
        | cons first later =>
          rw [hlist] at hcurrent
          exact hcurrent
    · obtain ⟨hone, rfl, hothers⟩ : state.incomplete = [sender] ∧
          rest = message.encode.drop written ∧
          ∀ other begun count, state.sending other = some (begun, count) →
            count = 0 ∨ other = sender ∧ begun = message ∧ count = written := by
        rcases hunwritten with ⟨-, -, hnone⟩ | ⟨writer, begun, stored, hone, hrest, hothers⟩
        · exact absurd (hnone sender message written hsending) hstarts
        · rcases hothers sender message written hsending with hnew | ⟨rfl, rfl, rfl⟩
          · exact absurd hnew hstarts
          · exact ⟨hone, hrest, hothers⟩
      simp only [if_neg hstarts]
      refine ⟨hreturned, ⟨message.encode.drop (written + count), ?_, ?_⟩, hcurrent, hrunning⟩
      · change state.got ++ (state.fifo ++ _ ++ _) = _
        rw [List.append_assoc, hsplit]
        exact hstream
      · refine unwritten_write (fun other begun stored hne hother ↦ ?_) rfl ?_
        · exact (hothers other begun stored hother).resolve_right fun h ↦ hne h.1
        · simp [hone]

/-! ### Reading -/

theorem Unwritten.congr {after : State} {rest : List UInt8} (hunwritten : Unwritten state rest)
    (hincomplete : after.incomplete = state.incomplete) (hsending : after.sending = state.sending) :
    Unwritten after rest := by
  unfold Unwritten at *
  rw [hincomplete, hsending]
  exact hunwritten

theorem Whole.read (hwhole : Whole state) : Whole state.read := by
  unfold State.read
  cases hreceiving : state.receiving with
  | none => exact hwhole
  | some receiving =>
    simp only
    generalize htaken : state.fifo.take ((framing id).wanted receiving.got) = taken
    by_cases hnone : taken = []
    · rw [if_pos hnone]
      exact hwhole
    rw [if_neg hnone]
    have hgot : state.got = receiving.got := by
      unfold State.got
      rw [hreceiving]
    have hle := hwhole.length_le
    obtain ⟨hreturned, ⟨rest, hstream, hunwritten⟩, hcurrent, hbegun⟩ := hwhole
    rw [hgot] at hstream hcurrent
    have htakenPrefix : state.fifo = taken ++ state.fifo.drop taken.length := by
      have hpre : taken <+: state.fifo := by
        rw [← htaken]
        exact List.take_prefix _ _
      exact (List.prefix_iff_eq_append.mp hpre).symm
    have hshort : taken.length ≤ (framing id).wanted receiving.got := by
      rw [← htaken, List.length_take]
      exact Nat.min_le_left _ _
    rw [htakenPrefix, List.append_assoc] at hstream
    cases hpending : state.pending with
    | nil =>
      rw [hpending] at hstream
      exact absurd (List.append_eq_nil_iff.mp (List.append_eq_nil_iff.mp hstream).2).1 hnone
    | cons first later =>
      rw [hpending, List.map_cons, List.flatten_cons] at hstream
      rw [hpending] at hcurrent
      have hframe : (framing id).IsFrame first.2.encode := isFrame_encode (List.map_id _)
      have hproper : receiving.got.length < first.2.encode.length := hcurrent first rfl
      have hstart : receiving.got <+: first.2.encode := by
        have hleft := List.prefix_append receiving.got
          (taken ++ (state.fifo.drop taken.length ++ rest))
        rw [hstream] at hleft
        exact List.prefix_of_prefix_length_le hleft (List.prefix_append _ _)
          (Nat.le_of_lt hproper)
      have hmore := hframe.read hstart hstream hshort
      rw [hframe.status_eq hmore]
      by_cases hwhole : (receiving.got ++ taken).length < first.2.encode.length
      · rw [if_pos hwhole]
        refine ⟨hreturned, ⟨rest, ?_, hunwritten.congr rfl rfl⟩, ?_, hbegun⟩
        · change (receiving.got ++ taken) ++ (state.fifo.drop _ ++ rest) =
            (state.pending.map _).flatten
          rw [hpending, List.append_assoc, List.map_cons, List.flatten_cons]
          exact hstream
        · change ∀ first ∈ state.pending.head?, (receiving.got ++ taken).length < _
          rw [hpending]
          rintro _ hhead
          obtain rfl := Option.some.inj hhead
          exact hwhole
      · rw [if_neg hwhole]
        have hsame : receiving.got ++ taken = first.2.encode :=
          hmore.eq_of_length (Nat.le_antisymm hmore.length_le (Nat.le_of_not_lt hwhole))
        have hnext : state.sent.drop (state.returned.length + 1) = later := by
          rw [← List.drop_drop]
          change state.pending.drop 1 = later
          rw [hpending]
          rfl
        have hfirst : state.sent.take (state.returned.length + 1) =
            state.sent.take state.returned.length ++ [first] := by
          rw [List.take_add]
          change _ ++ state.pending.take 1 = _
          rw [hpending]
          rfl
        refine ⟨?_, ⟨rest, ?_, hunwritten.congr rfl rfl⟩, ?_, hbegun⟩
        · rw [List.length_append, List.length_singleton, hfirst]
          refine List.rel_append hreturned (List.Forall₂.cons ?_ List.Forall₂.nil)
          rw [hsame]
          exact received_encode _ _
        · change [] ++ (state.fifo.drop _ ++ rest) = List.flatten (List.map _ (List.drop _ _))
          rw [List.length_append, List.length_singleton, hnext, List.nil_append]
          rw [← List.append_assoc, hsame] at hstream
          exact List.append_cancel_left hstream
        · exact fun next _ ↦ length_encode_pos next.2

/-- A permitted event keeps messages whole. -/
theorem Whole.step (hwhole : Whole state) (capacity : ℕ) (hpermitted : Permitted state event) :
    Whole (state.step capacity event) := by
  cases event with
  | begin sender message => exact hwhole.begin sender message
  | write sender => exact hwhole.write capacity sender hpermitted
  | fail sender => exact hwhole.fail sender
  | recv bufCap => exact hwhole.recv bufCap
  | read => exact hwhole.read
  | giveUp => exact hwhole.giveUp hpermitted

/-! ### The order of one sender -/

def ofSender (sender : ℕ) (messages : List (ℕ × Message)) : List (ℕ × Message) :=
  messages.filter fun sent ↦ sent.1 = sender

/-- What a sender has sent is part of what it has begun, without the message that it has not begun
to write. -/
def InOrder (state : State) : Prop :=
  ∀ sender, ∃ earlier, (ofSender sender state.sent).Sublist earlier ∧
    earlier.Sublist (ofSender sender state.begun) ∧
    ∀ message, state.sending sender = some (message, 0) →
      ofSender sender state.begun = earlier ++ [(sender, message)]

theorem ofSender_append (sender : ℕ) (first second : List (ℕ × Message)) :
    ofSender sender (first ++ second) = ofSender sender first ++ ofSender sender second :=
  List.filter_append _ _

theorem ofSender_self (sender : ℕ) (message : Message) :
    ofSender sender [(sender, message)] = [(sender, message)] := by
  simp [ofSender]

theorem ofSender_other (hother : other ≠ sender) (message : Message) :
    ofSender other [(sender, message)] = [] := by
  simp [ofSender, hother.symm]

/-- The messages of other senders stay in order. -/
theorem InOrder.keep {after : State} (horder : InOrder state)
    (hsent : ofSender other after.sent = ofSender other state.sent)
    (hbegun : ofSender other after.begun = ofSender other state.begun)
    (hsending : after.sending other = state.sending other) :
    ∃ earlier, (ofSender other after.sent).Sublist earlier ∧
      earlier.Sublist (ofSender other after.begun) ∧
      ∀ message, after.sending other = some (message, 0) →
        ofSender other after.begun = earlier ++ [(other, message)] := by
  rw [hsent, hbegun, hsending]
  exact horder other

/-- Each event keeps the order of each sender. -/
theorem InOrder.step (horder : InOrder state) (capacity : ℕ) (event : Event) :
    InOrder (state.step capacity event) := by
  cases event with
  | begin sender message =>
    simp only [State.step]
    unfold State.begin
    split_ifs
    · exact horder
    cases hsending : state.sending sender with
    | some _ => exact horder
    | none =>
      intro other
      by_cases hother : other = sender
      · subst hother
        obtain ⟨earlier, hsent, hbegun, -⟩ := horder other
        refine ⟨ofSender other state.begun, hsent.trans hbegun, ?_, fun started hstarted ↦ ?_⟩
        · rw [ofSender_append]
          exact List.sublist_append_left _ _
        · simp only [Function.update_self, Option.some.injEq, Prod.mk.injEq] at hstarted
          rw [ofSender_append, ← hstarted.1, ofSender_self]
      · refine horder.keep rfl ?_ (Function.update_of_ne hother _ _)
        rw [ofSender_append, ofSender_other hother, List.append_nil]
  | write sender =>
    simp only [State.step]
    unfold State.write
    cases hsending : state.sending sender with
    | none => exact horder
    | some begun =>
      obtain ⟨message, written⟩ := begun
      simp only
      generalize min (message.encode.length - written) (capacity - state.fifo.length) = count
      by_cases hzero : count = 0
      · rw [if_pos hzero]
        exact horder
      rw [if_neg hzero]
      intro other
      by_cases hother : other = sender
      · subst hother
        obtain ⟨earlier, hsent, hbegun, hnew⟩ := horder other
        refine ⟨ofSender other state.begun, ?_, List.Sublist.refl _, fun started hstarted ↦ ?_⟩
        · by_cases hstarts : written = 0
          · subst hstarts
            simp only [if_true]
            rw [ofSender_append, ofSender_self, hnew message hsending]
            exact hsent.append (List.Sublist.refl _)
          · simp only [if_neg hstarts]
            exact hsent.trans hbegun
        · simp only [Function.update_self] at hstarted
          split_ifs at hstarted
          rw [Option.some.injEq, Prod.mk.injEq] at hstarted
          omega
      · refine horder.keep ?_ rfl (Function.update_of_ne hother _ _)
        by_cases hstarts : written = 0
        · simp only [if_pos hstarts]
          rw [ofSender_append, ofSender_other hother, List.append_nil]
        · simp only [if_neg hstarts]
  | fail sender =>
    intro other
    by_cases hother : other = sender
    · subst hother
      obtain ⟨earlier, hsent, hbegun, -⟩ := horder other
      refine ⟨ofSender other state.begun, hsent.trans hbegun, List.Sublist.refl _, ?_⟩
      intro started hstarted
      simp only [State.step, State.fail, Function.update_self] at hstarted
      exact absurd hstarted.symm (Option.some_ne_none _)
    · exact horder.keep rfl rfl (Function.update_of_ne hother _ _)
  | recv bufCap =>
    simp only [State.step]
    unfold State.recv
    split <;> exact horder
  | read =>
    simp only [State.step]
    unfold State.read
    split
    · exact horder
    · simp only
      split_ifs
      · exact horder
      · split <;> exact horder
  | giveUp =>
    simp only [State.step]
    unfold State.giveUp
    split_ifs <;> exact horder

/-! ### Runs -/

theorem whole_start : Whole .start where
  returned := List.Forall₂.nil
  stream := ⟨[], rfl, Or.inl ⟨rfl, rfl, fun _ _ _ h ↦ absurd h.symm (Option.some_ne_none _)⟩⟩
  current := fun _ h ↦ absurd h.symm (Option.some_ne_none _)
  begun := fun _ _ _ h ↦ absurd h.symm (Option.some_ne_none _)

theorem inOrder_start : InOrder .start := fun _ ↦
  ⟨[], List.Sublist.refl _, List.Sublist.refl _, fun _ h ↦ absurd h.symm (Option.some_ne_none _)⟩

/-- In a run of permitted events the receives that return a message return the payloads of the sent
messages, cut off at the lengths of the buffers, each once and in the order in which they were
begun in the FIFO, which for each sender is the order in which it sends them. -/
theorem messages_whole {capacity : ℕ} {events : List Event} {state : State}
    (hrun : Run (Guarded Permitted (Moves (State.step capacity))) .start events state) :
    List.Forall₂ (fun received sent ↦ received.payload = sent.2.payload.take received.bufCap)
        state.returned (state.sent.take state.returned.length) ∧
      ∀ sender, (ofSender sender state.sent).Sublist (ofSender sender state.begun) := by
  have hwhole : Whole state := by
    refine hrun.guarded_invariant ?_ whole_start
    rintro before event after hbefore hpermitted rfl
    exact hbefore.step capacity hpermitted
  have horder : InOrder state := by
    refine hrun.unguarded.invariant ?_ inOrder_start
    rintro before event after hbefore rfl
    exact hbefore.step capacity event
  refine ⟨hwhole.returned, fun sender ↦ ?_⟩
  obtain ⟨earlier, hsent, hbegun, -⟩ := horder sender
  exact hsent.trans hbegun

def plainMessage (length : ℕ) (hlength : length < 4294967296) : Message where
  payload := List.replicate length 7
  wantsReply := 0
  replyPath := List.replicate EYN_DAEMON_PATH_MAX 0
  payload_lt := by rwa [List.length_replicate]
  path_length := List.length_replicate

/-- Two senders write a message each, the second one in two parts, and the daemon receives both, the
second one into a small buffer. -/
def splitEvents : List Event :=
  [.begin 1 (plainMessage 5 (by decide)), .begin 2 (plainMessage 3 (by decide)), .write 1, .write 2,
    .recv 10, .read, .read, .write 2, .recv 2, .read, .read]

/-- What holds after these events, for a FIFO of 150 bytes. -/
theorem messages_whole_split :
    let state := splitEvents.foldl (State.step 150) .start
    List.Forall₂ (fun received sent ↦ received.payload = sent.2.payload.take received.bufCap)
        state.returned (state.sent.take state.returned.length) ∧
      ∀ sender, (ofSender sender state.sent).Sublist (ofSender sender state.begun) :=
  messages_whole (Run.of_allowed (by decide +kernel))

/-- The message of a second sender finds room for a part only. The daemon takes the first message,
a third sender writes one into the room that is left then, and the second sender goes on. -/
def mixedEvents : List Event :=
  [.begin 1 (plainMessage 2048 (by decide)), .begin 2 (plainMessage 2048 (by decide)),
    .begin 3 (plainMessage 0 (by decide)), .write 1, .write 2, .recv 2048] ++
    List.replicate 9 .read ++ [.write 3, .write 2, .recv 2048] ++ List.replicate 9 .read

/-- The daemon returns a payload that mixes the bytes of two senders. -/
theorem not_messages_whole :
    ¬ ∀ (capacity : ℕ) (events : List Event) (state : State),
      Run (Moves (State.step capacity)) .start events state →
        List.Forall₂ (fun received sent ↦ received.payload = sent.2.payload.take received.bufCap)
          state.returned (state.sent.take state.returned.length) := by
  intro hclaim
  have hmixed := hclaim 4096 mixedEvents _ (Run.of_foldl _ _ _)
  exact absurd hmixed (by decide +kernel)

end EynOS.Daemon.Requests
