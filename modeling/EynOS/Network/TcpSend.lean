import EynOS.Foundation.Run
import EynOS.Network.Tcp

/-!
# What the retransmit record of a TCP socket covers

A socket keeps one retransmit record, the last segment it sent. `Sender` tracks beside a socket the
segments with payload or FIN that left the machine and that no acknowledgement has covered yet.
`not_retx_covers_outstanding` is a history in which the second of two sends leaves the first
segment without a record. `retx_covers_outstanding` is what the record is good for: where a segment
is only sent once everything before it is acknowledged, every outstanding segment is the one in the
record, and the timer sends it again.
-/

namespace EynOS.Network.Tcp

open Foundation

/-! ### Outstanding segments -/

/-- A segment that the peer has to acknowledge: one with payload or FIN. -/
def Sent.counts (sent : Sent) : Bool := sent.payload ≠ [] ∨ hasFlag sent.flags flagFin

/-- The sequence number after a segment, where numbers do not wrap. -/
def Sent.endSeq (sent : Sent) : ℕ :=
  sent.seq + sent.payload.length + if hasFlag sent.flags flagFin then 1 else 0

def Socket.record (socket : Socket) : Sent where
  seq := socket.lastSeq
  ack := socket.lastAck
  flags := socket.lastFlags
  payload := socket.lastPayload

/-- A socket with the segments that are not acknowledged yet, the latest first. -/
structure Sender where
  socket : Socket
  outstanding : List Sent

/-- Add what left the machine to the outstanding segments. -/
def track (outstanding : List Sent) : List Sent → List Sent
  | [] => outstanding
  | sent :: later =>
    track (if sent.counts ∧ sent ∉ outstanding then sent :: outstanding else outstanding) later

/-- What the acknowledgement in an arrival leaves outstanding. -/
def Sender.unacknowledged (sender : Sender) : Arrival → List Sent
  | .segment _ received =>
    if matchesSocket sender.socket received ∧ hasFlag received.flags flagAck then
      sender.outstanding.filter fun sent ↦ received.ack < sent.endSeq
    else sender.outstanding
  | .timer _ => sender.outstanding

/-- One thing that a poll pass does. -/
def Sender.arrive (sender : Sender) (arrival : Arrival) : Sender where
  socket := (pollOnce sender.socket arrival).1
  outstanding := track (sender.unacknowledged arrival) (pollOnce sender.socket arrival).2

/-- One event. A receive call polls when the queue is empty. -/
def Sender.step (sender : Sender) : Event → Sender
  | .poll arrivals =>
    { socket := (netPoll sender.socket arrivals).1
      outstanding := (arrivals.foldl Sender.arrive sender).outstanding }
  | .recv arrivals =>
    { socket := (socketRecv sender.socket arrivals).2.1
      outstanding :=
        if sender.socket.inUse ∧ (socketRxqDequeue sender.socket).isNone then
          (arrivals.foldl Sender.arrive sender).outstanding
        else sender.outstanding }
  | .send link timer payload =>
    { socket := (socketSendImpl link timer sender.socket payload).2.1
      outstanding :=
        track sender.outstanding (socketSendImpl link timer sender.socket payload).2.2 }
  | .close link timer =>
    { socket := (socketCloseImpl link timer sender.socket).1
      outstanding := track sender.outstanding (socketCloseImpl link timer sender.socket).2 }

/-- The record is armed with a segment. -/
def Socket.Covers (socket : Socket) (sent : Sent) : Prop :=
  socket.retxActive = true ∧ socket.record = sent

/-- A send or a close waits for everything before it to be acknowledged, and its sequence numbers
do not wrap. -/
def Sender.Waits (sender : Sender) : Event → Prop
  | .poll _ => True
  | .recv _ => True
  | .send _ _ payload => sender.socket.state = .established →
      sender.outstanding = [] ∧ sender.socket.seq + payload.length < 4294967296
  | .close _ _ => sender.socket.state = .established →
      sender.outstanding = [] ∧ sender.socket.seq + 1 < 4294967296

/-! ### The invariant -/

/-- The record, where it is armed, is a segment to acknowledge with its end, and the only segment
that can be outstanding; before the handshake it is none and nothing is outstanding. -/
structure Covered (sender : Sender) : Prop where
  handshake : sender.socket.state = .synSent ∨ sender.socket.state = .synReceived →
    sender.outstanding = [] ∧ sender.socket.record.counts = false
  armed : sender.socket.state = .established ∨ sender.socket.state = .finWait →
    sender.socket.retxActive = true →
      sender.socket.record.counts = true ∧
        sender.socket.lastEndSeq = sender.socket.record.endSeq
  outstanding : sender.socket.state = .established ∨ sender.socket.state = .finWait →
    sender.outstanding = [] ∨
      (sender.socket.retxActive = true ∧ sender.outstanding = [sender.socket.record] ∧
        sender.socket.lastPayload.length ≤ 1400 ∧ sender.socket.localPort ≠ 0 ∧
          sender.socket.remotePort ≠ 0)

theorem covered_of_closed {sender : Sender} (hclosed : sender.socket.state = .closed) :
    Covered sender where
  handshake := by simp [hclosed]
  armed := by simp [hclosed]
  outstanding := by simp [hclosed]

/-- The fields that the invariant is about. -/
structure SameRecord (socket other : Socket) : Prop where
  state : other.state = socket.state
  active : other.retxActive = socket.retxActive
  record : other.record = socket.record
  endSeq : other.lastEndSeq = socket.lastEndSeq
  localPort : other.localPort = socket.localPort
  remotePort : other.remotePort = socket.remotePort

theorem SameRecord.trans {first second third : Socket} (hfirst : SameRecord first second)
    (hsecond : SameRecord second third) : SameRecord first third where
  state := hsecond.state.trans hfirst.state
  active := hsecond.active.trans hfirst.active
  record := hsecond.record.trans hfirst.record
  endSeq := hsecond.endSeq.trans hfirst.endSeq
  localPort := hsecond.localPort.trans hfirst.localPort
  remotePort := hsecond.remotePort.trans hfirst.remotePort

theorem Covered.congr {sender : Sender} {other : Socket} (hcovered : Covered sender)
    (hsame : SameRecord sender.socket other) :
    Covered { socket := other, outstanding := sender.outstanding } := by
  have hpayload : other.lastPayload = sender.socket.lastPayload :=
    congrArg Sent.payload hsame.record
  refine ⟨fun hstate ↦ ?_, fun hstate hactive ↦ ?_, fun hstate ↦ ?_⟩
  · rw [hsame.record]
    exact hcovered.handshake (hsame.state ▸ hstate)
  · rw [hsame.record, hsame.endSeq]
    exact hcovered.armed (hsame.state ▸ hstate) (hsame.active ▸ hactive)
  · rw [hsame.record, hsame.active, hsame.localPort, hsame.remotePort, hpayload]
    exact hcovered.outstanding (hsame.state ▸ hstate)

/-! ### What the helpers send -/

/-- Acknowledgements are not to be acknowledged. -/
theorem track_sendAck (outstanding : List Sent) (link : ℤ) (socket : Socket) :
    track outstanding (sendAck link socket) = outstanding := by
  unfold sendAck sendSegment
  split_ifs
  · rfl
  · rfl
  · simp [track, Sent.counts, hasFlag, flagAck, flagFin]
  · rfl

theorem track_append (outstanding first second : List Sent) :
    track outstanding (first ++ second) = track (track outstanding first) second := by
  induction first generalizing outstanding with
  | nil => rfl
  | cons sent first ih => exact ih _

/-- A segment leaves the machine or does not; where it does, it is small enough and the ports are
known. -/
theorem sendSegment_spec (link : ℤ) (socket : Socket) (segment : Sent) :
    (sendSegment link socket segment).2 = [] ∨
      ((sendSegment link socket segment).2 = [segment] ∧ segment.payload.length ≤ 1400 ∧
        socket.localPort ≠ 0 ∧ socket.remotePort ≠ 0) := by
  unfold sendSegment
  split_ifs with hlarge hports hlink
  · exact Or.inl rfl
  · exact Or.inl rfl
  · rw [not_or] at hports
    exact Or.inr ⟨rfl, not_lt.mp hlarge, hports.1, hports.2⟩
  · exact Or.inl rfl

/-- Receiving payload sends acknowledgements and keeps the record. -/
theorem receivePayload_record (link : ℤ) (socket : Socket) (segment : Segment)
    (outstanding : List Sent) :
    SameRecord socket (receivePayload link socket segment).1 ∧
      track outstanding (receivePayload link socket segment).2 = outstanding := by
  unfold receivePayload
  split_ifs
  · exact ⟨⟨rfl, rfl, rfl, rfl, rfl, rfl⟩, rfl⟩
  · refine ⟨?_, track_sendAck outstanding link _⟩
    unfold socketRxqEnqueue
    split_ifs
    · exact ⟨rfl, rfl, rfl, rfl, rfl, rfl⟩
    · cases socket.rxq.enqueue rxqCapacity _ <;> exact ⟨rfl, rfl, rfl, rfl, rfl, rfl⟩
  · exact ⟨⟨rfl, rfl, rfl, rfl, rfl, rfl⟩, track_sendAck outstanding link _⟩

/-- Receiving a FIN sends acknowledgements, and keeps the record or closes. -/
theorem receiveFin_record (link : ℤ) (socket : Socket) (segment : Segment)
    (outstanding : List Sent) :
    (SameRecord socket (receiveFin link socket segment).1 ∨
        (receiveFin link socket segment).1.state = .closed) ∧
      track outstanding (receiveFin link socket segment).2 = outstanding := by
  unfold receiveFin
  split_ifs
  · exact ⟨Or.inr rfl, track_sendAck outstanding link _⟩
  · exact ⟨Or.inl ⟨rfl, rfl, rfl, rfl, rfl, rfl⟩, track_sendAck outstanding link _⟩
  · exact ⟨Or.inr rfl, rfl⟩
  · exact ⟨Or.inl ⟨rfl, rfl, rfl, rfl, rfl, rfl⟩, rfl⟩

/-- Arming the record for a segment without SYN whose numbers do not wrap. -/
theorem socketRetxArm_spec (timer : ℤ) (socket : Socket) (segment : Sent)
    (hlarge : segment.payload.length ≤ maxPayload)
    (hsyn : hasFlag segment.flags flagSyn = false) (hwrap : segment.endSeq < 4294967296) :
    let armed := socketRetxArm timer socket segment.flags segment.seq segment.ack segment.payload
    armed.state = socket.state ∧ armed.retxActive = true ∧ armed.record = segment ∧
      armed.lastEndSeq = segment.endSeq ∧ armed.localPort = socket.localPort ∧
        armed.remotePort = socket.remotePort := by
  unfold socketRetxArm
  rw [if_neg (not_lt.mpr hlarge)]
  refine ⟨rfl, rfl, rfl, ?_, rfl, rfl⟩
  simp only [hsyn, Bool.false_eq_true, if_false, Sent.endSeq] at hwrap ⊢
  split_ifs at hwrap ⊢ with hfin
  · rw [u32_u32_add, u32_of_lt _ hwrap]
  · rw [Nat.add_zero] at hwrap ⊢
    exact u32_of_lt _ hwrap

/-! ### One event -/

/-- An acknowledgement takes the outstanding segment and the record away together. -/
theorem Covered.acknowledge {sender : Sender} (hcovered : Covered sender)
    (hstate : sender.socket.state = .established ∨ sender.socket.state = .finWait) (ack : ℕ) :
    Covered
      { socket := socketRetxAckReceived sender.socket ack
        outstanding := sender.outstanding.filter fun sent ↦ ack < sent.endSeq } := by
  have hnosyn : ¬(sender.socket.state = .synSent ∨ sender.socket.state = .synReceived) := by
    rcases hstate with hstate | hstate <;> simp [hstate]
  unfold socketRetxAckReceived
  split_ifs with hinactive hacked
  · rcases hcovered.outstanding hstate with hnone | ⟨hactive, -⟩
    · rw [hnone, List.filter_nil, ← hnone]
      exact hcovered
    · rw [hactive] at hinactive
      exact absurd hinactive (by decide)
  · refine ⟨fun hsyn ↦ absurd hsyn hnosyn, fun _ hactive ↦ absurd hactive (by simp
      [socketRetxCancel]), fun _ ↦ Or.inl ?_⟩
    rcases hcovered.outstanding hstate with hnone | ⟨hactive, hone, -⟩
    · rw [hnone, List.filter_nil]
    · rw [hone, List.filter_singleton, ← (hcovered.armed hstate hactive).2,
        decide_eq_false (not_lt.mpr hacked)]
      rfl
  · rcases hcovered.outstanding hstate with hnone | ⟨hactive, hone, -⟩
    · rw [hnone, List.filter_nil, ← hnone]
      exact hcovered
    · rw [hone, List.filter_singleton, ← (hcovered.armed hstate hactive).2,
        decide_eq_true (not_le.mp hacked), cond_true, ← hone]
      exact hcovered

/-- A segment for an established connection keeps the invariant. -/
theorem Covered.receiveEstablished {sender : Sender} (hcovered : Covered sender)
    (hstate : sender.socket.state = .established ∨ sender.socket.state = .finWait) (link : ℤ)
    (segment : Segment) :
    let acked := if hasFlag segment.flags flagAck then
      socketRetxAckReceived sender.socket segment.ack else sender.socket
    let payload := receivePayload link acked segment
    let fin := receiveFin link payload.1 segment
    Covered
      { socket := fin.1
        outstanding := track
          (if hasFlag segment.flags flagAck then
            sender.outstanding.filter fun sent ↦ segment.ack < sent.endSeq
            else sender.outstanding) (payload.2 ++ fin.2) } := by
  intro acked payload fin
  have hacked : Covered
      { socket := acked
        outstanding :=
          if hasFlag segment.flags flagAck then
            sender.outstanding.filter fun sent ↦ segment.ack < sent.endSeq
            else sender.outstanding } := by
    by_cases hack : hasFlag segment.flags flagAck = true
    · simp only [acked, hack, if_true]
      exact hcovered.acknowledge hstate segment.ack
    · simp only [acked, if_neg hack]
      exact hcovered
  set outstanding := if hasFlag segment.flags flagAck then
    sender.outstanding.filter fun sent ↦ segment.ack < sent.endSeq else sender.outstanding
  obtain ⟨hpayload, htrack⟩ := receivePayload_record link acked segment outstanding
  obtain ⟨hfin, htrackFin⟩ := receiveFin_record link payload.1 segment outstanding
  rw [track_append, htrack, htrackFin]
  rcases hfin with hsame | hclosed
  · exact hacked.congr (hpayload.trans hsame)
  · exact covered_of_closed hclosed

/-- The timer sends the segment in the record, which is then outstanding. -/
theorem Covered.timer {sender : Sender} (hcovered : Covered sender) (link : ℤ) :
    Covered (sender.arrive (.timer link)) := by
  unfold Sender.arrive pollOnce Sender.unacknowledged retxTimerCb
  dsimp only
  split_ifs with hinactive hclosed hlimit hports
  · exact hcovered
  · exact covered_of_closed hclosed
  · exact covered_of_closed rfl
  · exact hcovered
  · rw [Bool.not_eq_false] at hinactive
    have hsent := sendSegment_spec link sender.socket sender.socket.record
    have hsame : SameRecord sender.socket
        { sender.socket with retxCount := sender.socket.retxCount + 1 } :=
      ⟨rfl, rfl, rfl, rfl, rfl, rfl⟩
    change Covered ⟨_, track sender.outstanding
      (sendSegment link sender.socket sender.socket.record).2⟩
    rcases hsent with hnothing | ⟨hsent, hsmall, hlocal, hremote⟩
    · rw [hnothing]
      exact hcovered.congr hsame
    · rw [hsent]
      by_cases hcounts : sender.socket.record.counts = true
      · by_cases hmember : sender.socket.record ∈ sender.outstanding
        · simp only [track, hmember, not_true_eq_false, and_false, if_false]
          exact hcovered.congr hsame
        · -- a record whose segment had not left the machine yet
          simp only [track, hcounts, hmember, not_false_eq_true, and_self, if_true]
          have hstillCovered := hcovered.congr hsame
          refine ⟨fun hsyn ↦ ?_, hstillCovered.armed, fun hstate ↦ Or.inr
            ⟨hinactive, ?_, hsmall, hlocal, hremote⟩⟩
          · have hnot := (hcovered.handshake hsyn).2
            rw [hcounts] at hnot
            exact absurd hnot (by decide)
          · rcases hcovered.outstanding hstate with hnone | ⟨-, hone, -⟩
            · rw [hnone]
              rfl
            · rw [hone] at hmember
              exact absurd (List.mem_singleton_self _) hmember
      · simp only [track, hcounts]
        exact hcovered.congr hsame

/-- A segment that arrives keeps the invariant. -/
theorem Covered.receive {sender : Sender} (hcovered : Covered sender) (link : ℤ)
    (segment : Segment) :
    Covered (sender.arrive (.segment link segment)) := by
  unfold Sender.arrive pollOnce Sender.unacknowledged
  dsimp only
  by_cases hmatches : matchesSocket sender.socket segment = true
  swap
  · rw [if_neg hmatches, if_neg fun hboth ↦ hmatches hboth.1]
    exact hcovered
  simp only [hmatches, if_true, true_and]
  unfold receiveSegment
  by_cases hreset : hasFlag segment.flags flagRst = true
  · rw [if_pos hreset]
    exact covered_of_closed rfl
  rw [if_neg hreset]
  cases hstate : sender.socket.state with
  | closed => simp [matchesSocket, hstate] at hmatches
  | synSent =>
    obtain ⟨hnone, hrecord⟩ := hcovered.handshake (Or.inl hstate)
    simp only [hnone, List.filter_nil, ite_self]
    split_ifs
    · rw [track_sendAck]
      exact ⟨by simp, fun _ hactive ↦ absurd hactive (by simp [socketRetxCancel]),
        fun _ ↦ Or.inl rfl⟩
    · exact ⟨fun _ ↦ ⟨rfl, hrecord⟩, by simp [hstate], by simp [hstate]⟩
  | synReceived =>
    obtain ⟨hnone, hrecord⟩ := hcovered.handshake (Or.inr hstate)
    simp only [hnone, List.filter_nil, ite_self]
    split_ifs
    · exact ⟨by simp, fun _ hactive ↦ absurd hactive (by simp [socketRetxCancel]),
        fun _ ↦ Or.inl rfl⟩
    · exact ⟨fun _ ↦ ⟨rfl, hrecord⟩, by simp [hstate], by simp [hstate]⟩
  | established => exact hcovered.receiveEstablished (Or.inl hstate) link segment
  | finWait => exact hcovered.receiveEstablished (Or.inr hstate) link segment

/-- Everything that a poll pass finds keeps the invariant. -/
theorem Covered.arrive {sender : Sender} (hcovered : Covered sender) (arrival : Arrival) :
    Covered (sender.arrive arrival) := by
  cases arrival with
  | segment link segment => exact hcovered.receive link segment
  | timer link => exact hcovered.timer link

/-- A poll pass does one thing after the other, and so keeps the invariant. -/
theorem Covered.poll {sender : Sender} (hcovered : Covered sender) (arrivals : List Arrival) :
    Covered { socket := (netPoll sender.socket arrivals).1
              outstanding := (arrivals.foldl Sender.arrive sender).outstanding } := by
  induction arrivals generalizing sender with
  | nil => exact hcovered
  | cons arrival arrivals ih => exact ih (hcovered.arrive arrival)

/-- Taking a packet from the queue leaves the record alone. -/
theorem socketRxqDequeue_record (socket : Socket) :
    ∀ taken ∈ socketRxqDequeue socket, SameRecord socket taken.2 := by
  intro taken htaken
  obtain ⟨rest, -, rfl⟩ := Option.map_eq_some_iff.mp htaken
  exact ⟨rfl, rfl, rfl, rfl, rfl, rfl⟩

/-- A receive call polls or not, and keeps the invariant either way. -/
theorem Covered.recv {sender : Sender} (hcovered : Covered sender) (arrivals : List Arrival) :
    Covered (sender.step (.recv arrivals)) := by
  unfold Sender.step socketRecv
  dsimp only
  by_cases hunused : sender.socket.inUse = false
  · rw [if_pos hunused, if_neg (by simp [hunused])]
    exact hcovered
  rw [if_neg hunused]
  rw [Bool.not_eq_false] at hunused
  cases htaken : socketRxqDequeue sender.socket with
  | some taken =>
    rw [if_neg (by simp)]
    exact hcovered.congr (socketRxqDequeue_record _ taken htaken)
  | none =>
    rw [if_pos ⟨hunused, rfl⟩]
    have hpolled := hcovered.poll arrivals
    dsimp only
    cases hlater : socketRxqDequeue (netPoll sender.socket arrivals).1 with
    | some taken => exact hpolled.congr (socketRxqDequeue_record _ taken hlater)
    | none => exact hpolled

/-- Sending a segment for which the record is armed keeps the invariant when nothing else is
outstanding. -/
theorem Covered.arm {sender : Sender} (hnone : sender.outstanding = []) (link timer : ℤ) (seq : ℕ)
    {flags : ℕ} {payload : List UInt8} (hlarge : payload.length ≤ maxPayload)
    (hsyn : hasFlag flags flagSyn = false)
    (hcounts : Sent.counts ⟨sender.socket.seq, sender.socket.ack, flags, payload⟩ = true)
    (hwrap : Sent.endSeq ⟨sender.socket.seq, sender.socket.ack, flags, payload⟩ < 4294967296)
    {state : TcpState} (hstate : state = .established ∨ state = .finWait) :
    Covered
      { socket :=
          { socketRetxArm timer sender.socket flags sender.socket.seq sender.socket.ack payload with
            seq := seq, state := state }
        outstanding :=
          track sender.outstanding (sendSegment link sender.socket
            ⟨sender.socket.seq, sender.socket.ack, flags, payload⟩).2 } := by
  set segment : Sent := ⟨sender.socket.seq, sender.socket.ack, flags, payload⟩
  set armed :=
    socketRetxArm timer sender.socket flags sender.socket.seq sender.socket.ack payload with harmed
  obtain ⟨-, hactive, hrecord, hend, hlocal, hremote⟩ :=
    socketRetxArm_spec timer sender.socket segment hlarge hsyn hwrap
  have hsocketRecord : Socket.record { armed with seq := seq, state := state } = segment := hrecord
  refine ⟨fun hopening ↦ ?_, fun _ _ ↦ ?_, fun _ ↦ ?_⟩
  · rcases hstate with rfl | rfl <;> simp at hopening
  · rw [hsocketRecord]
    exact ⟨hcounts, hend⟩
  · rw [hnone]
    rcases sendSegment_spec link sender.socket segment with hnothing | ⟨hsent, hsmall, hports⟩
    · rw [hnothing]
      exact Or.inl rfl
    · rw [hsent, hsocketRecord]
      refine Or.inr ⟨hactive, by simp [track, hcounts], ?_, ?_, ?_⟩
      · rwa [show armed.lastPayload = segment.payload from congrArg Sent.payload hrecord]
      · rw [hlocal]
        exact hports.1
      · rw [hremote]
        exact hports.2

/-- A send that waits for the acknowledgement of everything before it keeps the invariant. -/
theorem Covered.send {sender : Sender} (hcovered : Covered sender) {link timer : ℤ}
    {payload : List UInt8} (hwaits : sender.Waits (.send link timer payload)) :
    Covered (sender.step (.send link timer payload)) := by
  unfold Sender.step socketSendImpl
  dsimp only
  by_cases hestablished : sender.socket.state ≠ .established
  · rw [if_pos hestablished]
    exact hcovered
  rw [if_neg hestablished]
  rw [not_not] at hestablished
  by_cases hports : sender.socket.localPort = 0 ∨ sender.socket.remotePort = 0
  · rw [if_pos hports]
    exact hcovered
  rw [if_neg hports]
  by_cases hlarge : maxPayload < payload.length
  · rw [if_pos hlarge]
    exact hcovered
  rw [if_neg hlarge]
  by_cases hempty : payload = []
  · rw [if_pos hempty]
    exact hcovered
  rw [if_neg hempty]
  obtain ⟨hnone, hseq⟩ := hwaits hestablished
  have hcounts : Sent.counts ⟨sender.socket.seq, sender.socket.ack, flagPsh ||| flagAck, payload⟩ =
      true := by
    simp [Sent.counts, hempty]
  have hwrap : Sent.endSeq ⟨sender.socket.seq, sender.socket.ack, flagPsh ||| flagAck, payload⟩ <
      4294967296 := by
    simpa [Sent.endSeq, hasFlag, flagPsh, flagAck, flagFin] using hseq
  obtain ⟨hstate, -⟩ := socketRetxArm_spec timer sender.socket
    ⟨sender.socket.seq, sender.socket.ack, flagPsh ||| flagAck, payload⟩ (not_lt.mp hlarge)
    (by simp [hasFlag, flagPsh, flagAck, flagSyn]) hwrap
  rw [hestablished] at hstate
  have harm (seq : ℕ) := Covered.arm hnone link timer seq (not_lt.mp hlarge)
    (by decide) hcounts hwrap (Or.inl hstate)
  split_ifs
  · exact harm _
  · exact harm _

/-- A close that waits for the acknowledgement of everything before it keeps the invariant. -/
theorem Covered.close {sender : Sender} {link timer : ℤ}
    (hwaits : sender.Waits (.close link timer)) :
    Covered (sender.step (.close link timer)) := by
  unfold Sender.step socketCloseImpl
  dsimp only
  by_cases hestablished : sender.socket.state = .established
  · rw [if_pos hestablished]
    obtain ⟨hnone, hseq⟩ := hwaits hestablished
    have hwrap : Sent.endSeq ⟨sender.socket.seq, sender.socket.ack, flagFin ||| flagAck, []⟩ <
        4294967296 := by
      simpa [Sent.endSeq, hasFlag, flagAck, flagFin] using hseq
    exact Covered.arm hnone link timer _ (Nat.zero_le _) (by decide)
      (by simp [Sent.counts, hasFlag, flagAck, flagFin]) hwrap (Or.inr rfl)
  · rw [if_neg hestablished]
    exact covered_of_closed rfl

/-- Every event keeps the invariant where sends and closes wait. -/
theorem Covered.step {sender : Sender} {event : Event} (hcovered : Covered sender)
    (hwaits : sender.Waits event) : Covered (sender.step event) := by
  cases event with
  | poll arrivals => exact hcovered.poll arrivals
  | recv arrivals => exact hcovered.recv arrivals
  | send link timer payload => exact hcovered.send hwaits
  | close link timer => exact Covered.close hwaits

/-- The invariant holds when a connection is opened. -/
theorem covered_opened {isn : ℕ} {socket : Socket} (hopened : Opened isn socket) :
    Covered { socket := socket, outstanding := [] } := by
  cases hopened with
  | connect =>
    refine ⟨fun _ ↦ ⟨rfl, ?_⟩, ?_, fun _ ↦ Or.inl rfl⟩
    · simp [Socket.record, Sent.counts, socketConnectImpl, socketRetxArm, maxPayload, hasFlag,
        flagSyn, flagFin]
    · simp [socketConnectImpl, socketRetxArm, socketRetxCancel, maxPayload]
  | passive =>
    refine ⟨fun _ ↦ ⟨rfl, ?_⟩, ?_, fun _ ↦ Or.inl rfl⟩
    · simp [Socket.record, Sent.counts, passiveOpen, socketRetxArm, maxPayload, hasFlag,
        flagSyn, flagAck, flagFin]
    · simp [passiveOpen, socketRetxArm, socketRetxCancel, maxPayload]

/-! ### Histories -/

/-- In every history in which a segment is only sent once everything before it is acknowledged, the
record covers every outstanding segment of an established connection, and the timer sends it again
up to the retry limit. -/
theorem retx_covers_outstanding {isn : ℕ} {socket : Socket} {events : List Event} {sender : Sender}
    (hopened : Opened isn socket)
    (hrun : Run (Guarded Sender.Waits (Moves Sender.step))
      { socket := socket, outstanding := [] } events sender)
    (hstate : sender.socket.state = .established ∨ sender.socket.state = .finWait) :
    ∀ sent ∈ sender.outstanding, sender.socket.Covers sent ∧
      (sender.socket.retxCount < retxMaxAttempts → (retxTimerCb 0 sender.socket).2 = [sent]) := by
  have hcovered : Covered sender := hrun.guarded_invariant
    (fun before event after hbefore hwaits hmove ↦ by
      rw [← show before.step event = after from hmove]
      exact hbefore.step hwaits)
    (covered_opened hopened)
  intro sent hsent
  rcases hcovered.outstanding hstate with hnone | ⟨hactive, hone, hsmall, hlocal, hremote⟩
  · rw [hnone] at hsent
    exact absurd hsent List.not_mem_nil
  · rw [hone, List.mem_singleton] at hsent
    refine ⟨⟨hactive, hsent.symm⟩, fun hlimit ↦ ?_⟩
    have hopen : sender.socket.state ≠ .closed := by
      rcases hstate with hstate | hstate <;> simp [hstate]
    unfold retxTimerCb sendSegment
    rw [if_neg (by simp [hactive]), if_neg hopen, if_neg (not_le.mpr hlimit),
      if_neg (by simp [hlocal, hremote]), if_neg (not_lt.mpr hsmall),
      if_neg (by simp [hlocal, hremote]), if_pos rfl, hsent]
    rfl

/-- A history that sends, loses the segment, sends it again from the timer, sees it acknowledged and
sends once more. -/
def waitingEvents : List Event :=
  [.poll [.segment 0 (serverSegment 1000 6 (flagSyn ||| flagAck) [])], .send 0 1 [1, 2],
    .poll [.timer 0, .segment 0 (serverSegment 1001 8 flagAck [])], .send 0 1 [3]]

/-- Its last segment is outstanding and covered. -/
theorem retx_covers_outstanding_waiting :
    let sender := waitingEvents.foldl Sender.step
      { socket := (socketConnectImpl 0 0 5 1 40000 2 80).1, outstanding := [] }
    sender.outstanding = [⟨8, 1001, flagPsh ||| flagAck, [3]⟩] ∧
      sender.socket.Covers ⟨8, 1001, flagPsh ||| flagAck, [3]⟩ := by
  intro sender
  have houtstanding : sender.outstanding = [⟨8, 1001, flagPsh ||| flagAck, [3]⟩] := by
    decide +kernel
  have hallowed : Allowed Sender.Waits Sender.step
      { socket := (socketConnectImpl 0 0 5 1 40000 2 80).1, outstanding := [] } waitingEvents :=
    ⟨trivial, fun _ ↦ by decide +kernel, trivial, fun _ ↦ by decide +kernel, trivial⟩
  have hopened : Opened 1000 (socketConnectImpl 0 0 5 1 40000 2 80).1 := .connect 0 0 5 1 40000 2 80
  refine ⟨houtstanding, ?_⟩
  exact (retx_covers_outstanding hopened (Run.of_allowed hallowed)
    (Or.inl (by decide +kernel)) _ (by rw [houtstanding]; exact List.mem_singleton_self _)).1

/-- The record does not cover every outstanding segment in every history: after two sends without an
acknowledgement between them the first segment has no record. -/
theorem not_retx_covers_outstanding :
    ¬∀ (isn : ℕ) (socket : Socket) (events : List Event) (sender : Sender), Opened isn socket →
      Run (Moves Sender.step) { socket := socket, outstanding := [] } events sender →
      sender.socket.state = .established ∨ sender.socket.state = .finWait →
      ∀ sent ∈ sender.outstanding, sender.socket.Covers sent := by
  intro hcovers
  have hfirst := hcovers 0 _ _ _ (.connect 0 0 5 1 40000 2 80)
    (Run.of_foldl Sender.step _
      [.poll [.segment 0 (serverSegment 1000 6 (flagSyn ||| flagAck) [])], .send 0 1 [1],
        .send 0 1 [2]])
    (Or.inl (by decide +kernel)) ⟨6, 1001, flagPsh ||| flagAck, [1]⟩ (by decide +kernel)
  have hsecond : (Socket.record _).seq = 6 := congrArg Sent.seq hfirst.2
  revert hsecond
  decide +kernel

end EynOS.Network.Tcp
