import EynOS.Foundation.Run
import EynOS.Network.Tcp

/-!
# What a TCP socket hands out is a prefix of what the peer sent

A peer sends a stream of bytes from its initial sequence number on, cut into segments in any way,
with retransmissions, and the network reorders, loses and duplicates them. `Receiving` relates the
acknowledgement number, the receive queue and the bytes handed out so far: handed out and queued
bytes together are the first bytes of the stream, and the acknowledgement number counts them.
`receiveSegment_spec` shows that one segment keeps the relation and `recv_stream_in_order` concludes
for every history of a socket, from the handshake on.
-/

namespace EynOS.Network.Tcp

open Foundation

/-! ### The peer and the history -/

/-- A segment of a peer that sends a stream: a slice of it, with a FIN only at its end, or a segment
without payload and FIN. -/
def Segment.FromPeer (isn : ℕ) (stream : List UInt8) (segment : Segment) : Prop :=
  (∃ offset, segment.seq = u32 (isn + 1 + offset) ∧
    offset + segment.payload.length ≤ stream.length ∧
    segment.payload = (stream.drop offset).take segment.payload.length ∧
    hasFlag segment.flags flagSyn = false ∧
    (hasFlag segment.flags flagFin = true → offset + segment.payload.length = stream.length)) ∨
  (segment.payload = [] ∧ hasFlag segment.flags flagFin = false ∧
    (hasFlag segment.flags flagSyn = true → segment.seq = isn))

/-- What a poll pass finds: any timer, and segments of the peer. -/
def Arrival.FromPeer (isn : ℕ) (stream : List UInt8) : Arrival → Prop
  | .segment _ received => received.FromPeer isn stream
  | .timer _ => True

/-- A socket with the bytes that `net_tcp_socket_recv` has returned. -/
structure Reader where
  socket : Socket
  delivered : List UInt8

/-- One event. -/
def Reader.step (reader : Reader) : Event → Reader
  | .poll arrivals => { reader with socket := (netPoll reader.socket arrivals).1 }
  | .recv arrivals =>
    match socketRecv reader.socket arrivals with
    | (some packet, socket, _) =>
      { socket := socket, delivered := reader.delivered ++ packet.payload }
    | (none, socket, _) => { reader with socket := socket }
  | .send link timer payload =>
    { reader with socket := (socketSendImpl link timer reader.socket payload).2.1 }
  | .close link timer => { reader with socket := (socketCloseImpl link timer reader.socket).1 }

def Socket.queued (socket : Socket) : List UInt8 :=
  (socket.rxq.toList rxqCapacity).flatMap RxPacket.payload

/-! ### The invariant -/

/-- How far a connection is: before the handshake, while bytes flow, after the FIN of the peer, or
cleared. -/
inductive Phase (isn : ℕ) (stream : List UInt8) (socket : Socket) (count : ℕ) : Prop
  | opening (hstate : socket.state = .synSent ∨ socket.state = .closed) (hack : socket.ack = 0)
      (hcount : count = 0)
  | flowing (hstate : socket.state ≠ .synSent) (hack : socket.ack = u32 (isn + 1 + count))
  | finished (hstate : socket.state = .closed) (hack : socket.ack = u32 (isn + 1 + count + 1))
      (hcount : count = stream.length)
  | cleared (hstate : socket.state = .closed) (hinUse : socket.inUse = false)

/-- The bytes handed out and those in the queue are the first bytes of the stream. -/
structure Buffered (stream delivered : List UInt8) (rxq : RingBuffer RxPacket) (count : ℕ) :
    Prop where
  bound : count ≤ stream.length
  contents : ∃ packets, rxq.Holds rxqCapacity packets ∧
    delivered ++ packets.flatMap RxPacket.payload = stream.take count

/-- The invariant of a history. -/
def Receiving (isn : ℕ) (stream : List UInt8) (reader : Reader) : Prop :=
  ∃ count, Buffered stream reader.delivered reader.socket.rxq count ∧
    Phase isn stream reader.socket count

/-! ### What the helpers leave alone -/

/-- The fields of a socket that the retransmit record has nothing to do with. -/
structure SameStream (socket other : Socket) : Prop where
  ack : other.ack = socket.ack
  rxq : other.rxq = socket.rxq
  inUse : other.inUse = socket.inUse

theorem sameStream_socketRetxArm (timer : ℤ) (socket : Socket) (flags seq ack : ℕ)
    (payload : List UInt8) :
    SameStream socket (socketRetxArm timer socket flags seq ack payload) ∧
      (socketRetxArm timer socket flags seq ack payload).state = socket.state := by
  unfold socketRetxArm
  split_ifs <;> exact ⟨⟨rfl, rfl, rfl⟩, rfl⟩

theorem sameStream_socketRetxAckReceived (socket : Socket) (ack : ℕ) :
    SameStream socket (socketRetxAckReceived socket ack) ∧
      (socketRetxAckReceived socket ack).state = socket.state := by
  unfold socketRetxAckReceived
  split_ifs <;> exact ⟨⟨rfl, rfl, rfl⟩, rfl⟩

/-- The timer leaves the stream alone and at most closes the connection. -/
theorem sameStream_retxTimerCb (link : ℤ) (socket : Socket) :
    SameStream socket (retxTimerCb link socket).1 ∧
      ((retxTimerCb link socket).1.state = socket.state ∨
        (retxTimerCb link socket).1.state = .closed) := by
  unfold retxTimerCb
  split_ifs
  all_goals first
    | exact ⟨⟨rfl, rfl, rfl⟩, Or.inl rfl⟩
    | exact ⟨⟨rfl, rfl, rfl⟩, Or.inr rfl⟩

/-- A phase lasts while the connection keeps its acknowledgement and at most closes. -/
theorem Phase.congr {isn count : ℕ} {stream : List UInt8} {socket other : Socket}
    (hphase : Phase isn stream socket count) (hack : other.ack = socket.ack)
    (hinUse : other.inUse = socket.inUse)
    (hstate : other.state = socket.state ∨ other.state = .closed) :
    Phase isn stream other count := by
  cases hphase with
  | opening hopening hzero hcount =>
    refine .opening ?_ (hack.trans hzero) hcount
    rcases hstate with hsame | hclosed
    · rwa [hsame]
    · exact Or.inr hclosed
  | flowing hflowing hflow =>
    refine .flowing ?_ (hack.trans hflow)
    rcases hstate with hsame | hclosed
    · rwa [hsame]
    · simp [hclosed]
  | finished hfinished hfin hcount =>
    refine .finished ?_ (hack.trans hfin) hcount
    rcases hstate with hsame | hclosed
    · rwa [hsame]
    · exact hclosed
  | cleared hcleared hunused =>
    refine .cleared ?_ (hinUse.trans hunused)
    rcases hstate with hsame | hclosed
    · rwa [hsame]
    · exact hclosed

/-! ### One segment -/

variable {isn : ℕ} {stream delivered : List UInt8} {socket : Socket} {count : ℕ}
  {segment : Segment}

/-- A socket takes a segment that fits and finds room at the end of its queue, or refuses it. -/
theorem socketRxqEnqueue_spec {packets : List RxPacket}
    (hholds : socket.rxq.Holds rxqCapacity packets) (segment : Segment) :
    socketRxqEnqueue socket segment = none ∨
      ∃ rxq packet, socketRxqEnqueue socket segment = some { socket with rxq := rxq } ∧
        rxq.Holds rxqCapacity (packets ++ [packet]) ∧ packet.payload = segment.payload := by
  unfold socketRxqEnqueue
  by_cases hlarge : maxPayload < segment.payload.length
  · exact Or.inl (if_pos hlarge)
  · rw [if_neg hlarge]
    by_cases hroom : packets.length < rxqCapacity
    · obtain ⟨rxq, henqueue, hfilled⟩ := hholds.enqueue hroom
        { srcIp := segment.srcIp, srcPort := segment.srcPort, dstIp := segment.dstIp
          dstPort := segment.dstPort, payload := segment.payload }
      exact Or.inr ⟨rxq, _, by rw [henqueue]; rfl, hfilled, rfl⟩
    · have hfull : packets.length = rxqCapacity :=
        le_antisymm hholds.length_le (not_lt.mp hroom)
      rw [hholds.enqueue_full hfull]
      exact Or.inl rfl

/-- The payload of a segment of the peer only ever extends what is buffered by the next bytes of the
stream. -/
theorem receivePayload_spec (hstream : stream.length < 4294967296)
    (hbuffered : Buffered stream delivered socket.rxq count)
    (hack : socket.ack = u32 (isn + 1 + count)) (hsegment : segment.FromPeer isn stream)
    (link : ℤ) :
    ∃ reached, Buffered stream delivered (receivePayload link socket segment).1.rxq reached ∧
      (receivePayload link socket segment).1.ack = u32 (isn + 1 + reached) ∧
      (receivePayload link socket segment).1.state = socket.state ∧
      (receivePayload link socket segment).1.inUse = socket.inUse := by
  have hbound := hbuffered.bound
  obtain ⟨packets, hholds, hcontents⟩ := hbuffered.contents
  unfold receivePayload
  by_cases hempty : segment.payload = []
  · rw [if_pos hempty]
    exact ⟨count, hbuffered, hack, rfl, rfl⟩
  rw [if_neg hempty]
  by_cases horder : segment.seq = socket.ack
  · rw [if_pos horder]
    rcases socketRxqEnqueue_spec hholds segment with hrefused | htaken
    · rw [hrefused]
      exact ⟨count, hbuffered, hack, rfl, rfl⟩
    · obtain ⟨rxq, packet, htaken, hfilled, hpayload⟩ := htaken
      rcases hsegment with ⟨offset, hseq, hinside, hslice, -, -⟩ | ⟨hnone, -, -⟩
      · -- only the segment that starts at the next byte has the acknowledged number
        have hnext : offset = count := by
          refine u32_add_inj (isn + 1) (by omega) (by omega) ?_
          rw [← hseq, ← hack, horder]
        subst hnext
        rw [htaken]
        refine ⟨offset + segment.payload.length, ⟨hinside, packets ++ [packet], hfilled, ?_⟩, ?_,
          rfl, rfl⟩
        · rw [List.flatMap_append, ← List.append_assoc, hcontents, List.flatMap_singleton,
            hpayload, List.take_add, ← hslice]
        · dsimp only
          rw [hack, u32_u32_add, Nat.add_assoc (isn + 1)]
      · exact absurd hnone hempty
  · rw [if_neg horder]
    exact ⟨count, hbuffered, hack, rfl, rfl⟩

/-- A FIN of the peer is accepted only at the end of the stream. -/
theorem receiveFin_spec (hstream : stream.length < 4294967296) (hbound : count ≤ stream.length)
    (hstate : socket.state ≠ .synSent) (hack : socket.ack = u32 (isn + 1 + count))
    (hsegment : segment.FromPeer isn stream) (link : ℤ) :
    (receiveFin link socket segment).1.rxq = socket.rxq ∧
      Phase isn stream (receiveFin link socket segment).1 count := by
  unfold receiveFin
  by_cases hfin : hasFlag segment.flags flagFin = true
  · rw [if_pos hfin]
    by_cases horder : u32 (segment.seq + segment.payload.length) = socket.ack
    · rw [if_pos horder]
      refine ⟨rfl, .finished rfl ?_ ?_⟩
      · simp only [socketRetxCancel]
        rw [hack, u32_u32_add]
      · rcases hsegment with ⟨offset, hseq, hinside, -, -, hend⟩ | ⟨-, hnofin, -⟩
        · have hlast : offset + segment.payload.length = count := by
            refine u32_add_inj (isn + 1) (by omega) (by omega) ?_
            rw [← hack, ← horder, hseq, u32_u32_add, Nat.add_assoc (isn + 1)]
          rw [← hlast]
          exact hend hfin
        · rw [hfin] at hnofin
          exact absurd hnofin (by decide)
    · rw [if_neg horder]
      exact ⟨rfl, .flowing hstate hack⟩
  · rw [if_neg hfin]
    split_ifs
    · exact ⟨rfl, .flowing (by simp [socketRetxCancel]) hack⟩
    · exact ⟨rfl, .flowing hstate hack⟩

theorem hasFlag_syn_of_synAck {flags : ℕ}
    (hflags : flags &&& (flagSyn ||| flagAck) = flagSyn ||| flagAck) :
    hasFlag flags flagSyn = true := by
  have hsyn : flags &&& flagSyn = flagSyn := by
    calc flags &&& flagSyn = flags &&& ((flagSyn ||| flagAck) &&& flagSyn) := rfl
      _ = flagSyn := by rw [← Nat.and_assoc, hflags]; rfl
  rw [hasFlag, hsyn]
  rfl

/-- Once the handshake is over, what has flowed decides the phase. -/
theorem Phase.ack_eq (hphase : Phase isn stream socket count) (hsent : socket.state ≠ .synSent)
    (hclosed : socket.state ≠ .closed) : socket.ack = u32 (isn + 1 + count) := by
  cases hphase with
  | opening hstate => exact absurd (hstate.resolve_left hsent) hclosed
  | flowing _ hack => exact hack
  | finished hstate => exact absurd hstate hclosed
  | cleared hstate => exact absurd hstate hclosed

/-- A segment of the peer for an established connection keeps the invariant. -/
theorem receiveEstablished_spec (hstream : stream.length < 4294967296)
    (hbuffered : Buffered stream delivered socket.rxq count)
    (hack : socket.ack = u32 (isn + 1 + count)) (hstate : socket.state ≠ .synSent)
    (hsegment : segment.FromPeer isn stream) (link : ℤ) :
    ∃ reached,
      Buffered stream delivered
        (receiveFin link (receivePayload link
          (if hasFlag segment.flags flagAck then socketRetxAckReceived socket segment.ack
            else socket) segment).1 segment).1.rxq reached ∧
      Phase isn stream
        (receiveFin link (receivePayload link
          (if hasFlag segment.flags flagAck then socketRetxAckReceived socket segment.ack
            else socket) segment).1 segment).1 reached := by
  set acked := if hasFlag segment.flags flagAck then socketRetxAckReceived socket segment.ack
    else socket with hacked
  have hsame : SameStream socket acked ∧ acked.state = socket.state := by
    rw [hacked]
    split_ifs
    · exact sameStream_socketRetxAckReceived socket segment.ack
    · exact ⟨⟨rfl, rfl, rfl⟩, rfl⟩
  obtain ⟨reached, hbuffer, hreached, hkept, -⟩ := receivePayload_spec hstream
    (hsame.1.rxq ▸ hbuffered) (hsame.1.ack.trans hack) hsegment link
  have hstill : (receivePayload link acked segment).1.state ≠ .synSent := by
    rw [hkept, hsame.2]
    exact hstate
  obtain ⟨hrxq, hphase⟩ :=
    receiveFin_spec hstream hbuffer.bound hstill hreached hsegment link
  exact ⟨reached, hrxq ▸ hbuffer, hphase⟩

/-- A segment of the peer keeps the invariant, whatever the state of the connection. -/
theorem receiveSegment_spec (hstream : stream.length < 4294967296)
    (hbuffered : Buffered stream delivered socket.rxq count)
    (hphase : Phase isn stream socket count) (hsegment : segment.FromPeer isn stream) (link : ℤ) :
    ∃ reached, Buffered stream delivered (receiveSegment link socket segment).1.rxq reached ∧
      Phase isn stream (receiveSegment link socket segment).1 reached := by
  unfold receiveSegment
  by_cases hreset : hasFlag segment.flags flagRst = true
  · rw [if_pos hreset]
    exact ⟨count, hbuffered, hphase.congr rfl rfl (Or.inr rfl)⟩
  rw [if_neg hreset]
  cases hstate : socket.state with
  | closed => exact ⟨count, hbuffered, hphase⟩
  | synSent =>
    dsimp only
    split_ifs with hsynAck
    · have hseq : segment.seq = isn := by
        have hsyn := hasFlag_syn_of_synAck hsynAck.1
        rcases hsegment with ⟨_, _, _, _, hnosyn, _⟩ | ⟨_, _, hstart⟩
        · rw [hsyn] at hnosyn
          exact absurd hnosyn (by decide)
        · exact hstart hsyn
      have hcount : count = 0 := by
        cases hphase with
        | opening _ _ hcount => exact hcount
        | flowing hflowing => exact absurd hstate hflowing
        | finished hclosed => simp [hstate] at hclosed
        | cleared hclosed => simp [hstate] at hclosed
      refine ⟨count, hbuffered, .flowing (by simp) ?_⟩
      dsimp only
      rw [hseq, hcount, Nat.add_zero]
    · exact ⟨count, hbuffered, hphase⟩
  | synReceived =>
    dsimp only
    have hack := hphase.ack_eq (by simp [hstate]) (by simp [hstate])
    split_ifs
    · exact ⟨count, hbuffered, .flowing (by simp) hack⟩
    · exact ⟨count, hbuffered, hphase⟩
  | established =>
    exact receiveEstablished_spec hstream hbuffered
      (hphase.ack_eq (by simp [hstate]) (by simp [hstate])) (by simp [hstate]) hsegment link
  | finWait =>
    exact receiveEstablished_spec hstream hbuffered
      (hphase.ack_eq (by simp [hstate]) (by simp [hstate])) (by simp [hstate]) hsegment link

/-! ### One event -/

/-- A poll pass keeps the invariant. The induction is on what it finds. -/
theorem netPoll_spec (hstream : stream.length < 4294967296) {arrivals : List Arrival}
    (harrivals : ∀ arrival ∈ arrivals, arrival.FromPeer isn stream) :
    ∀ {socket : Socket} {count : ℕ}, Buffered stream delivered socket.rxq count →
      Phase isn stream socket count →
      ∃ reached, Buffered stream delivered (netPoll socket arrivals).1.rxq reached ∧
        Phase isn stream (netPoll socket arrivals).1 reached := by
  induction arrivals with
  | nil => exact fun {_ count} hbuffered hphase ↦ ⟨count, hbuffered, hphase⟩
  | cons arrival arrivals ih =>
    intro socket count hbuffered hphase
    have hrest : ∀ other ∈ arrivals, other.FromPeer isn stream := fun other hother ↦
      harrivals other (List.mem_cons_of_mem arrival hother)
    have hfirst := harrivals arrival List.mem_cons_self
    have honce : ∃ reached,
        Buffered stream delivered (pollOnce socket arrival).1.rxq reached ∧
          Phase isn stream (pollOnce socket arrival).1 reached := by
      cases arrival with
      | segment link segment =>
        by_cases hmatches : matchesSocket socket segment = true
        · simp only [pollOnce, hmatches, if_true]
          exact receiveSegment_spec hstream hbuffered hphase hfirst link
        · simp only [pollOnce, if_neg hmatches]
          exact ⟨count, hbuffered, hphase⟩
      | timer link =>
        obtain ⟨hsame, hstate⟩ := sameStream_retxTimerCb link socket
        exact ⟨count, hsame.rxq ▸ hbuffered, hphase.congr hsame.ack hsame.inUse hstate⟩
    obtain ⟨reached, hbuffer, hreached⟩ := honce
    exact ih hrest hbuffer hreached

/-- Taking a packet moves its bytes from the queue to what has been handed out. -/
theorem socketRxqDequeue_spec (hbuffered : Buffered stream delivered socket.rxq count) :
    socketRxqDequeue socket = none ∨
      ∃ packet rxq, socketRxqDequeue socket = some (packet, { socket with rxq := rxq }) ∧
        Buffered stream (delivered ++ packet.payload) rxq count := by
  obtain ⟨packets, hholds, hcontents⟩ := hbuffered.contents
  unfold socketRxqDequeue
  cases packets with
  | nil =>
    rw [hholds.dequeue_nil]
    exact Or.inl rfl
  | cons packet packets =>
    obtain ⟨rxq, hdequeue, hrest⟩ := hholds.dequeue_cons
    rw [hdequeue]
    refine Or.inr ⟨packet, rxq, rfl, hbuffered.bound, packets, hrest, ?_⟩
    rw [← hcontents, List.flatMap_cons, List.append_assoc]

/-- Every event keeps the invariant. -/
theorem Receiving.step {reader : Reader} {event : Event} (hstream : stream.length < 4294967296)
    (hreader : Receiving isn stream reader)
    (hevent : ∀ arrival ∈ event.arrivals, arrival.FromPeer isn stream) :
    Receiving isn stream (reader.step event) := by
  obtain ⟨count, hbuffered, hphase⟩ := hreader
  cases event with
  | poll arrivals => exact netPoll_spec hstream hevent hbuffered hphase
  | recv arrivals =>
    simp only [Reader.step, socketRecv]
    by_cases hunused : reader.socket.inUse = false
    · rw [if_pos hunused]
      exact ⟨count, hbuffered, hphase⟩
    · rw [if_neg hunused]
      rcases socketRxqDequeue_spec hbuffered with hempty | ⟨packet, rxq, htaken, hrest⟩
      · rw [hempty]
        dsimp only
        have harrivals : ∀ arrival ∈ arrivals, arrival.FromPeer isn stream := hevent
        obtain ⟨reached, hpolled, hreached⟩ := netPoll_spec hstream harrivals hbuffered hphase
        rcases socketRxqDequeue_spec hpolled with hstill | ⟨packet, rxq, htaken, hrest⟩
        · rw [hstill]
          exact ⟨reached, hpolled, hreached⟩
        · rw [htaken]
          exact ⟨reached, hrest, hreached.congr rfl rfl (Or.inl rfl)⟩
      · rw [htaken]
        exact ⟨count, hrest, hphase.congr rfl rfl (Or.inl rfl)⟩
  | send link timer payload =>
    have hsend : SameStream reader.socket (socketSendImpl link timer reader.socket payload).2.1 ∧
        (socketSendImpl link timer reader.socket payload).2.1.state = reader.socket.state := by
      have harm := sameStream_socketRetxArm timer reader.socket (flagPsh ||| flagAck)
        reader.socket.seq reader.socket.ack payload
      unfold socketSendImpl
      split_ifs
      · exact ⟨⟨rfl, rfl, rfl⟩, rfl⟩
      · exact ⟨⟨rfl, rfl, rfl⟩, rfl⟩
      · exact ⟨⟨rfl, rfl, rfl⟩, rfl⟩
      · exact ⟨⟨rfl, rfl, rfl⟩, rfl⟩
      · dsimp only
        split_ifs
        · exact harm
        · exact ⟨⟨harm.1.ack, harm.1.rxq, harm.1.inUse⟩, harm.2⟩
    refine ⟨count, ?_, hphase.congr hsend.1.ack hsend.1.inUse (Or.inl hsend.2)⟩
    simp only [Reader.step, hsend.1.rxq]
    exact hbuffered
  | close link timer =>
    simp only [Reader.step, socketCloseImpl]
    split_ifs with hestablished
    · have harm := sameStream_socketRetxArm timer reader.socket (flagFin ||| flagAck)
        reader.socket.seq reader.socket.ack []
      have hack := hphase.ack_eq (by simp [hestablished]) (by simp [hestablished])
      refine ⟨count, ?_, .flowing (by simp) (harm.1.ack.trans hack)⟩
      simp only [harm.1.rxq]
      exact hbuffered
    · -- a cleared socket has an empty queue: what has been handed out is all there is
      obtain ⟨packets, -, hcontents⟩ := hbuffered.contents
      have hearlier : reader.delivered <+: stream :=
        (hcontents ▸ List.prefix_append _ _ : reader.delivered <+: stream.take count).trans
          (List.take_prefix count stream)
      refine ⟨reader.delivered.length, ⟨hearlier.length_le, [], ?_, ?_⟩, .cleared rfl rfl⟩
      · exact RingBuffer.holds_nil (Nat.zero_lt_succ _) rfl fun _ _ ↦ rfl
      · rw [List.flatMap_nil, List.append_nil]
        exact List.prefix_iff_eq_take.mp hearlier

/-- The invariant holds when a connection is opened. -/
theorem receiving_opened (hopened : Opened isn socket) :
    Receiving isn stream { socket := socket, delivered := [] } := by
  have hempty : socketMetaClear.rxq.Holds rxqCapacity [] :=
    RingBuffer.holds_nil (by decide) rfl fun _ _ ↦ rfl
  refine ⟨0, ⟨Nat.zero_le _, [], ?_, by simp⟩, ?_⟩
  · cases hopened with
    | connect => exact hempty
    | passive => exact hempty
  · cases hopened with
    | connect => exact .opening (Or.inl rfl) rfl rfl
    | passive link timer ticks syn hseq =>
      refine .flowing (by simp [passiveOpen, socketRetxArm, socketRetxCancel, maxPayload]) ?_
      rw [← hseq]
      rfl

/-! ### Histories -/

/-- In every history of a socket, what `net_tcp_socket_recv` has returned is a prefix of the stream
of the peer, and the acknowledgement number counts the bytes placed in the queue and the FIN. -/
theorem recv_stream_in_order {events : List Event} {reader : Reader}
    (hstream : stream.length < 4294967296) (hopened : Opened isn socket)
    (hpeer : ∀ event ∈ events, ∀ arrival ∈ event.arrivals, arrival.FromPeer isn stream)
    (hrun : Run (Moves Reader.step) { socket := socket, delivered := [] } events reader) :
    reader.delivered <+: stream ∧ reader.delivered ++ reader.socket.queued <+: stream ∧
      (reader.socket.state ≠ .synSent → reader.socket.state ≠ .closed →
        reader.socket.ack =
          u32 (isn + 1 + (reader.delivered.length + reader.socket.queued.length))) ∧
      (reader.socket.state = .closed → reader.socket.inUse = true →
        (reader.socket.ack = 0 ∧ reader.delivered.length + reader.socket.queued.length = 0) ∨
        reader.socket.ack =
          u32 (isn + 1 + (reader.delivered.length + reader.socket.queued.length)) ∨
        (reader.delivered.length + reader.socket.queued.length = stream.length ∧
          reader.socket.ack =
            u32 (isn + 1 + (reader.delivered.length + reader.socket.queued.length) + 1))) := by
  have hreceiving : Receiving isn stream reader :=
    (hrun.guard_labels hpeer).guarded_invariant
      (fun before event after hbefore hevent hmove ↦ by
        rw [← show before.step event = after from hmove]
        exact hbefore.step hstream hevent)
      (receiving_opened hopened)
  obtain ⟨count, hbuffered, hphase⟩ := hreceiving
  obtain ⟨packets, hholds, hcontents⟩ := hbuffered.contents
  have hqueued : reader.socket.queued = packets.flatMap RxPacket.payload := by
    rw [Socket.queued, hholds.toList_eq]
  have hcount : reader.delivered.length + reader.socket.queued.length = count := by
    rw [hqueued, ← List.length_append, hcontents, List.length_take,
      Nat.min_eq_left hbuffered.bound]
  rw [hcount]
  have hearlier : reader.delivered ++ reader.socket.queued <+: stream := by
    rw [hqueued, hcontents]
    exact List.take_prefix count stream
  refine ⟨(List.prefix_append _ _).trans hearlier, hearlier,
    fun hsent hclosed ↦ hphase.ack_eq hsent hclosed, fun hclosed hinUse ↦ ?_⟩
  cases hphase with
  | opening _ hack hzero => exact Or.inl ⟨hack, hzero⟩
  | flowing _ hack => exact Or.inr (Or.inl hack)
  | finished _ hack hend => exact Or.inr (Or.inr ⟨hend, hack⟩)
  | cleared _ hunused =>
    rw [hinUse] at hunused
    exact absurd hunused (by decide)

/-- A history in which the two halves of a stream arrive in the wrong order, and again. -/
def reorderedEvents : List Event :=
  [.poll [.segment 0 (serverSegment 4294967294 6 (flagSyn ||| flagAck) []),
    .segment 0 (serverSegment 1 6 (flagPsh ||| flagAck) [3, 4]),
    .segment 0 (serverSegment 4294967295 6 (flagPsh ||| flagAck) [1, 2]),
    .segment 0 (serverSegment 4294967295 6 (flagPsh ||| flagAck) [1, 2]),
    .timer 0,
    .segment 0 (serverSegment 1 6 (flagFin ||| flagAck) [3, 4])],
  .recv [], .recv [], .recv []]

/-- The history hands out the stream, over a sequence number that wraps. -/
theorem recv_stream_in_order_shuffled :
    (reorderedEvents.foldl Reader.step
        { socket := (socketConnectImpl 0 0 5 1 40000 2 80).1, delivered := [] }).delivered =
      [1, 2, 3, 4] ∧
    (reorderedEvents.foldl Reader.step
        { socket := (socketConnectImpl 0 0 5 1 40000 2 80).1, delivered := [] }).delivered <+:
      [1, 2, 3, 4] := by
  have hpeer : ∀ event ∈ reorderedEvents, ∀ arrival ∈ event.arrivals,
      arrival.FromPeer 4294967294 [1, 2, 3, 4] := by
    simp only [reorderedEvents, List.forall_mem_cons, Event.arrivals, List.not_mem_nil,
      IsEmpty.forall_iff, implies_true, and_true, Arrival.FromPeer, true_and]
    refine ⟨Or.inr ⟨rfl, rfl, fun _ ↦ rfl⟩, Or.inl ⟨2, ?_⟩, Or.inl ⟨0, ?_⟩, Or.inl ⟨0, ?_⟩,
      Or.inl ⟨2, ?_⟩⟩ <;> decide
  refine ⟨by decide +kernel, ?_⟩
  exact (recv_stream_in_order (by decide) (.connect 0 0 5 1 40000 2 80) hpeer
    (Run.of_foldl Reader.step _ reorderedEvents)).1

end EynOS.Network.Tcp
