import EynOS.Network.Netstack

/-!
# What happens to the table of TCP sockets

Calls on sockets and arrivals are events of one step function. A call that waits for the network is
cut into its part before the wait, what arrives while it waits and its part after it, so that
between two events anything may arrive. `netTcpSocketConnect_events`, `netTcpSend_events`,
`netTcpSocketRecv_events` and `netTcpSocketAccept_events` show that the calls of the source are
sequences of events.
-/

namespace EynOS.Network.Netstack

open Foundation Tcp

/-! ### Events -/

/-- What happens to the table. -/
inductive Event
  | openSocket
  | bind (id : ℤ) (localPort : ℕ)
  | listen (id : ℤ)
  | legacyListen (localPort : ℕ)
  | connect (id : ℤ) (opening : Opening)
  | legacyConnect (opening : Opening)
  | sendStart (opening : Opening)
  | sendFinish (link timer finLink finTimer : ℤ) (payload : List UInt8)
  | send (link timer : ℤ) (id : ℤ) (payload : List UInt8)
  | sendCurrent (link timer : ℤ) (payload : List UInt8)
  | accept (id : ℤ)
  | recv (id : ℤ)
  | close (link timer : ℤ) (id : ℤ)
  | arrival (arrival : Arrival)

/-- The listener whose backlog a call to accept scans. -/
def acceptingId (table : Table) (id : ℤ) : Option ℕ :=
  match usedId table id with
  | none => none
  | some id => if (table id).listening then some id else none

def Event.opens (table : Table) : Event → Option (ℕ × Opening)
  | .connect id opening =>
    if opening.dstPort = 0 then none else (usedId table id).map fun id ↦ (id, opening)
  | .legacyConnect opening | .sendStart opening =>
    if opening.dstPort = 0 then none else some (legacySocketId, opening)
  | _ => none

/-- One event. -/
def step (table : Table) : Event → Table
  | .openSocket => (netTcpSocketOpen table).2
  | .bind id localPort => (netTcpSocketBind table id localPort).2
  | .listen id => (netTcpSocketListen table id).2
  | .legacyListen localPort => (netTcpListen table localPort).2
  | .connect id opening =>
    match Event.opens table (.connect id opening) with
    | none => table
    | some (id, opening) => connectStart table id opening
  | .legacyConnect opening =>
    if opening.dstPort = 0 then table else connectStart table legacySocketId opening
  | .sendStart opening => if opening.dstPort = 0 then table else sendStart table opening
  | .sendFinish link timer finLink finTimer payload =>
    (sendFinish link timer finLink finTimer table payload).2.1
  | .send link timer id payload => (netTcpSocketSend link timer table id payload).2.1
  | .sendCurrent link timer payload => (netTcpSendCurrent link timer table payload).2.1
  | .accept id =>
    match acceptingId table id with
    | none => table
    | some id => (acceptOnce table id).2
  | .recv id =>
    match anyId table id with
    | none => table
    | some id =>
      match dequeue table id with
      | none => table
      | some (_, table) => table
  | .close link timer id => (netTcpSocketCloseId link timer table id).2.1
  | .arrival arrival => (pollOnce table arrival).1

/-! ### What a socket keeps -/

/-- The local port, the remote address and the remote port of a connection. -/
def connection (socket : Socket) : ℕ × ℕ × ℕ :=
  (socket.localPort, socket.remoteIp, socket.remotePort)

/-- A socket keeps its addresses and its slot, and does not open. -/
structure Stays (old new : Socket) : Prop where
  connection_eq : connection new = connection old
  inUse_eq : new.inUse = old.inUse
  closed : old.state = .closed → new.state = .closed

namespace Stays

variable {old middle new socket : Socket}

theorem refl (socket : Socket) : Stays socket socket := ⟨rfl, rfl, id⟩

theorem trans (hfirst : Stays old middle) (hsecond : Stays middle new) : Stays old new where
  connection_eq := hsecond.connection_eq.trans hfirst.connection_eq
  inUse_eq := hsecond.inUse_eq.trans hfirst.inUse_eq
  closed := fun hclosed ↦ hsecond.closed (hfirst.closed hclosed)

theorem retxCancel (socket : Socket) : Stays socket (socketRetxCancel socket) :=
  ⟨rfl, rfl, id⟩

theorem retxArm (timer : ℤ) (socket : Socket) (flags seq ack : ℕ) (payload : List UInt8) :
    Stays socket (socketRetxArm timer socket flags seq ack payload) := by
  unfold socketRetxArm
  by_cases hlarge : maxPayload < payload.length
  · rw [if_pos hlarge]
    exact refl socket
  · rw [if_neg hlarge]
    exact ⟨rfl, rfl, id⟩

theorem retxAckReceived (socket : Socket) (ack : ℕ) :
    Stays socket (socketRetxAckReceived socket ack) := by
  unfold socketRetxAckReceived
  split_ifs
  · exact refl socket
  · exact retxCancel socket
  · exact refl socket

theorem ends (socket : Socket) : Stays socket (socketRetxCancel { socket with state := .closed }) :=
  ⟨rfl, rfl, fun _ ↦ rfl⟩

theorem timer (link : ℤ) (socket : Socket) : Stays socket (retxTimerCb link socket).1 := by
  unfold retxTimerCb
  split_ifs
  · exact refl socket
  · exact retxCancel socket
  · exact ⟨rfl, rfl, fun _ ↦ rfl⟩
  · exact refl socket
  · exact ⟨rfl, rfl, id⟩

theorem payload (link : ℤ) (socket : Socket) (segment : Tcp.Segment) :
    Stays socket (receivePayload link socket segment).1 := by
  unfold receivePayload
  split_ifs
  · exact refl socket
  · dsimp only
    cases hqueue : socketRxqEnqueue socket segment with
    | none => exact refl socket
    | some filled =>
      obtain ⟨rxq, -, rfl⟩ : ∃ rxq, _ ∧ { socket with rxq := rxq } = filled := by
        unfold socketRxqEnqueue at hqueue
        split_ifs at hqueue
        exact Option.map_eq_some_iff.mp hqueue
      exact ⟨rfl, rfl, id⟩
  · exact refl socket

theorem fin (link : ℤ) (socket : Socket) (segment : Tcp.Segment) :
    Stays socket (receiveFin link socket segment).1 := by
  unfold receiveFin
  split_ifs
  · exact ⟨rfl, rfl, fun _ ↦ rfl⟩
  · exact refl socket
  · exact ends socket
  · exact refl socket

/-- A segment is received for the connection. -/
theorem segment (link : ℤ) (socket : Socket) (segment : Tcp.Segment) :
    Stays socket (receiveSegment link socket segment).1 := by
  have hflow : Stays socket (receiveFin link (receivePayload link
      (if hasFlag segment.flags flagAck then socketRetxAckReceived socket segment.ack else socket)
      segment).1 segment).1 := by
    refine trans ?_ ((payload link _ segment).trans (fin link _ segment))
    split_ifs
    · exact retxAckReceived socket segment.ack
    · exact refl socket
  unfold receiveSegment
  by_cases hreset : hasFlag segment.flags flagRst = true
  · rw [if_pos hreset]
    exact ends socket
  rw [if_neg hreset]
  cases hstate : socket.state with
  | closed => exact refl socket
  | synSent =>
    have hopen : socket.state ≠ .closed := by simp [hstate]
    dsimp only
    split_ifs
    · exact ⟨rfl, rfl, fun hclosed ↦ absurd hclosed hopen⟩
    · exact refl socket
  | synReceived =>
    have hopen : socket.state ≠ .closed := by simp [hstate]
    dsimp only
    split_ifs
    · exact ⟨rfl, rfl, fun hclosed ↦ absurd hclosed hopen⟩
    · exact refl socket
  | established => exact hflow
  | finWait => exact hflow

theorem send (link timer : ℤ) (socket : Socket) (payload : List UInt8) :
    Stays socket (socketSendImpl link timer socket payload).2.1 := by
  unfold socketSendImpl
  split_ifs
  · exact refl socket
  · exact refl socket
  · exact refl socket
  · exact refl socket
  · dsimp only
    split_ifs
    · exact retxArm timer socket _ _ _ _
    · obtain ⟨hconnection, hused, hclosed⟩ :=
        retxArm timer socket (flagPsh ||| flagAck) socket.seq socket.ack payload
      exact ⟨hconnection, hused, hclosed⟩

/-- The payload of `net_tcp_send` is sent. -/
theorem sendPayload (link timer : ℤ) (socket : Socket) (payload : List UInt8) :
    Stays socket (sendPayload link timer socket payload).2.1 := by
  unfold Netstack.sendPayload
  split_ifs
  · exact refl socket
  · dsimp only
    split_ifs
    · exact retxArm timer socket _ _ _ _
    · obtain ⟨hconnection, hused, hclosed⟩ :=
        retxArm timer socket (flagPsh ||| flagAck) socket.seq socket.ack payload
      exact ⟨hconnection, hused, hclosed⟩

/-- The FIN of `net_tcp_send` is sent on a connection. -/
theorem sendFin (link timer : ℤ) (hold : old.state ≠ .closed) (hstays : Stays old socket) :
    Stays old (sendFin link timer socket).2.1 := by
  obtain ⟨hconnection, hused, _⟩ := hstays.trans
    (retxArm timer socket (flagFin ||| flagAck) socket.seq socket.ack [])
  unfold Netstack.sendFin
  dsimp only
  split_ifs
  · exact ⟨hconnection, hused, fun hclosed ↦ absurd hclosed hold⟩
  · exact ⟨hconnection, hused, fun hclosed ↦ absurd hclosed hold⟩

end Stays

/-! ### Payloads -/

/-- The queue of a socket has room for the payload of a segment that is in order. -/
def Fits (socket : Socket) (segment : Tcp.Segment) : Prop :=
  segment.payload ≠ [] ∧ segment.seq = socket.ack ∧ segment.payload.length ≤ maxPayload ∧
    (socket.rxq.slot socket.rxq.tail).valid = false

instance (socket : Socket) (segment : Tcp.Segment) : Decidable (Fits socket segment) :=
  inferInstanceAs (Decidable (_ ∧ _ ∧ _ ∧ _))

/-- A payload that fits is put into the queue and acknowledged, and another one changes nothing. -/
theorem receivePayload_cases (link : ℤ) (socket : Socket) (segment : Tcp.Segment) :
    (¬Fits socket segment ∧ (receivePayload link socket segment).1 = socket) ∨
    (Fits socket segment ∧ ∃ rxq packet, packet.payload = segment.payload ∧
      socket.rxq.enqueue rxqCapacity packet = some rxq ∧
      (receivePayload link socket segment).1 =
        { socket with rxq := rxq, ack := u32 (socket.ack + segment.payload.length) }) := by
  unfold receivePayload
  by_cases hempty : segment.payload = []
  · rw [if_pos hempty]
    exact Or.inl ⟨fun hfits ↦ hfits.1 hempty, rfl⟩
  rw [if_neg hempty]
  by_cases horder : segment.seq = socket.ack
  · simp only [horder, if_true]
    unfold socketRxqEnqueue
    by_cases hlarge : maxPayload < segment.payload.length
    · rw [if_pos hlarge]
      exact Or.inl ⟨fun hfits ↦ absurd hfits.2.2.1 (Nat.not_le.mpr hlarge), rfl⟩
    rw [if_neg hlarge]
    generalize hpacket : (RxPacket.mk _ _ _ _ _) = packet
    have hpayload : packet.payload = segment.payload := by rw [← hpacket]
    unfold RingBuffer.enqueue
    by_cases htaken : (socket.rxq.slot socket.rxq.tail).valid = true
    · rw [if_pos htaken]
      refine Or.inl ⟨fun hfits ↦ ?_, rfl⟩
      rw [hfits.2.2.2] at htaken
      exact Bool.false_ne_true htaken
    · rw [if_neg htaken]
      refine Or.inr
        ⟨⟨hempty, horder, Nat.not_lt.mp hlarge, Bool.eq_false_iff.mpr htaken⟩, _, packet,
        hpayload, if_neg htaken, rfl⟩
  · rw [if_neg horder]
    exact Or.inl ⟨fun hfits ↦ horder hfits.2.1, rfl⟩

/-! ### What arrivals keep -/

variable {table : Table} {id : ℕ}

theorem setSocket_apply (table : Table) (id other : ℕ) (socket : Socket) :
    table.setSocket id socket other =
      if other = id then { table id with socket := socket } else table other :=
  Function.update_apply ..

theorem setBacklog_apply (table : Table) (id other : ℕ) (backlog : List ℕ) :
    table.setBacklog id backlog other =
      if other = id then { table id with acceptBacklog := backlog } else table other :=
  Function.update_apply ..

theorem answerSyn_spec (link timer : ℤ) (ticks : ℕ) (socket : Socket) (syn : Tcp.Segment) :
    connection (answerSyn link timer ticks socket syn).1 = (syn.dstPort, syn.srcIp, syn.srcPort) ∧
      (answerSyn link timer ticks socket syn).1.inUse = socket.inUse := by
  obtain ⟨hconnection, hused, _⟩ := Stays.retxArm timer
    { socket with
      localIp := syn.dstIp, remoteIp := syn.srcIp, localPort := syn.dstPort
      remotePort := syn.srcPort, seq := ticks, ack := u32 (syn.seq + 1), state := .synReceived }
    (flagSyn ||| flagAck) ticks (u32 (syn.seq + 1)) []
  exact ⟨hconnection, hused⟩

/-- A free identifier is one of a pool socket that is not in use. -/
theorem freeId_spec (hfree : freeId table = some id) :
    0 < id ∧ id < maxSockets ∧ (table id).socket.inUse = false := by
  have hmem := List.mem_of_find?_eq_some hfree
  have hunused := List.find?_some hfree
  rw [poolIds, List.mem_range'_1] at hmem
  simp only [Bool.not_eq_true'] at hunused
  exact ⟨hmem.1, by rw [maxSockets] at hmem ⊢; omega, hunused⟩

/-- The listener for a port is a pool socket in use. -/
theorem listenerFor_spec {dstPort : ℕ} (hlistener : listenerFor table dstPort = some id) :
    0 < id ∧ id < maxSockets ∧ (table id).socket.inUse = true ∧ (table id).listening = true := by
  have hmem := List.mem_of_find?_eq_some hlistener
  have hlistens := List.find?_some hlistener
  rw [poolIds, List.mem_range'_1] at hmem
  simp only [Bool.and_eq_true] at hlistens
  exact ⟨hmem.1, by rw [maxSockets] at hmem ⊢; omega, hlistens.1.1, hlistens.1.2⟩

/-- A SYN is answered by the legacy socket, or by a free socket that is put into the backlog of a
listener with room. -/
theorem passiveId_spec {dstPort : ℕ} {opened : Table}
    (hpassive : passiveId table dstPort = some (id, opened)) :
    (id = legacySocketId ∧ opened = table ∧ (table id).listening = true ∧
      (table id).socket.state = .closed) ∨
    ∃ listener, listenerFor table dstPort = some listener ∧ freeId table = some id ∧
      listener ≠ id ∧ (table listener).acceptBacklog.length < acceptBacklogSize ∧
      opened = Table.setBacklog (Function.update table id Endpoint.taken) listener
        ((table listener).acceptBacklog ++ [id]) := by
  unfold passiveId at hpassive
  dsimp only at hpassive
  split_ifs at hpassive with hlegacy
  · obtain ⟨rfl, rfl⟩ := Prod.mk.inj (Option.some.inj hpassive)
    exact Or.inl ⟨rfl, rfl, hlegacy.1, hlegacy.2.1⟩
  · right
    split at hpassive
    · exact absurd hpassive (Option.some_ne_none _).symm
    · rename_i listener hlistener
      split_ifs at hpassive with hfull
      split at hpassive
      · exact absurd hpassive (Option.some_ne_none _).symm
      · rename_i newid hfree
        obtain ⟨rfl, rfl⟩ := Prod.mk.inj (Option.some.inj hpassive)
        have hne : listener ≠ newid := by
          rintro rfl
          have hused := (listenerFor_spec hlistener).2.2.1
          rw [(freeId_spec hfree).2.2] at hused
          exact Bool.false_ne_true hused
        refine ⟨listener, hlistener, hfree, hne, Nat.lt_of_not_le hfull, ?_⟩
        rw [Function.update_of_ne hne]

/-! ### Own backlogs -/

/-- No socket is in its own backlog. -/
def Apart (table : Table) : Prop := ∀ id, id ∉ (table id).acceptBacklog

namespace Apart

/-- An endpoint gets no new entry. -/
theorem update (hapart : Apart table) {endpoint : Endpoint}
    (hsub : endpoint.acceptBacklog ⊆ (table id).acceptBacklog) :
    Apart (Function.update table id endpoint) := by
  intro other hmem
  rcases eq_or_ne other id with rfl | hne
  · rw [Function.update_self] at hmem
    exact hapart other (hsub hmem)
  · rw [Function.update_of_ne hne] at hmem
    exact hapart other hmem

theorem updateNil (hapart : Apart table) {endpoint : Endpoint}
    (hnil : endpoint.acceptBacklog = []) :
    Apart (Function.update table id endpoint) :=
  hapart.update (hnil ▸ List.nil_subset _)

theorem setSocket (hapart : Apart table) (id : ℕ) (socket : Socket) :
    Apart (table.setSocket id socket) :=
  hapart.update (List.Subset.refl _)

theorem metaClear (hapart : Apart table) (id : ℕ) : Apart (tcpSocketMetaClear table id) := by
  unfold tcpSocketMetaClear
  split
  · exact hapart.updateNil rfl
  · exact hapart

theorem retxCancel (hapart : Apart table) (id : ℕ) : Apart (tcpSocketRetxCancel table id) := by
  unfold tcpSocketRetxCancel
  split
  · exact hapart.setSocket id _
  · exact hapart

/-- The candidates of a listener are cleared. -/
theorem reclaim (listener : ℕ) (backlog : List ℕ) (hapart : Apart table) :
    Apart (Netstack.reclaim listener backlog table) := by
  induction backlog generalizing table with
  | nil => exact hapart
  | cons cand rest ih =>
    have hcleared := (hapart.retxCancel cand).metaClear cand
    unfold Netstack.reclaim
    dsimp only
    split
    · exact hcleared
    · exact ih hcleared

theorem close (link timer : ℤ) (hapart : Apart table) (id : ℕ) :
    Apart (tcpSocketCloseImpl link timer table id).1 := by
  simp only [tcpSocketCloseImpl]
  split_ifs
  · exact hapart.update (List.Subset.refl _)
  · exact hapart.update (List.Subset.refl _)
  · exact ((hapart.retxCancel id).reclaim id _).metaClear id

theorem dropEntry (hapart : Apart table) (listener k : ℕ) :
    Apart (Netstack.dropEntry table listener k) :=
  hapart.update List.eraseIdx_subset

theorem acceptScan (listener steps k : ℕ) (hapart : Apart table) :
    Apart (Netstack.acceptScan listener steps k table).2 := by
  induction steps generalizing k table with
  | zero => exact hapart
  | succ steps ih =>
    unfold Netstack.acceptScan
    split
    · exact hapart
    · split
      · exact hapart.dropEntry listener k
      · exact ih k ((hapart.metaClear _).dropEntry listener k)
      all_goals exact ih (k + 1) hapart

/-- Something arrives: a socket that was free gets into the backlog of one that was in use. -/
theorem arrival (hapart : Apart table) (arrival : Arrival) : Apart (pollOnce table arrival).1 := by
  cases arrival with
  | timer link id =>
    simp only [pollOnce]
    split_ifs
    · exact hapart.setSocket id _
    · exact hapart
  | segment link timer ticks segment =>
    simp only [pollOnce, pollSegment]
    split
    · exact hapart.setSocket _ _
    · split_ifs
      · exact hapart
      · split
        · exact hapart
        · rename_i other opened hpassive
          rcases passiveId_spec hpassive with ⟨_, rfl, _⟩ | ⟨listener, _, _, hne, _, rfl⟩
          · exact hapart.setSocket _ _
          · refine setSocket (fun id hmem ↦ ?_) _ _
            have htaken : Apart (Function.update table other Endpoint.taken) := hapart.updateNil rfl
            rw [setBacklog_apply] at hmem
            split_ifs at hmem with hid
            · subst hid
              rcases List.mem_append.mp hmem with hold | hnew
              · exact hapart id hold
              · exact hne (List.mem_singleton.mp hnew)
            · exact htaken id hmem

theorem step (hapart : Apart table) (event : Event) : Apart (step table event) := by
  have hsend (link timer : ℤ) (id : ℕ) (payload : List UInt8) :
      Apart (tcpSocketSendImpl link timer table id payload).2.1 := hapart.setSocket id _
  cases event with
  | openSocket =>
    simp only [Netstack.step, netTcpSocketOpen]
    split
    · exact hapart
    · exact hapart.updateNil rfl
  | bind id localPort =>
    simp only [Netstack.step, netTcpSocketBind]
    split_ifs
    · exact hapart
    · exact hapart
    · split
      · exact hapart
      · split_ifs
        · exact hapart
        · exact hapart.update (List.Subset.refl _)
  | listen id =>
    simp only [Netstack.step, netTcpSocketListen]
    split
    · exact hapart
    · split_ifs
      · exact hapart
      · exact hapart.updateNil rfl
  | legacyListen localPort =>
    simp only [Netstack.step, netTcpListen]
    split_ifs
    · exact hapart
    · exact hapart.update (List.Subset.refl _)
  | connect id opening =>
    simp only [Netstack.step]
    split
    · exact hapart
    · exact hapart.updateNil rfl
  | legacyConnect opening =>
    simp only [Netstack.step]
    split_ifs
    · exact hapart
    · exact hapart.updateNil rfl
  | sendStart opening =>
    simp only [Netstack.step]
    split_ifs
    · exact hapart
    · exact hapart.updateNil rfl
  | sendFinish link timer finLink finTimer payload =>
    simp only [Netstack.step, sendFinish]
    split_ifs
    · exact hapart
    · exact hapart.setSocket _ _
    all_goals exact hapart.setSocket _ _
  | send link timer id payload =>
    simp only [Netstack.step, netTcpSocketSend]
    split
    · exact hapart
    · exact hsend link timer _ payload
  | sendCurrent link timer payload => exact hsend link timer legacySocketId payload
  | accept id =>
    simp only [Netstack.step]
    split
    · exact hapart
    · exact hapart.acceptScan _ _ _
  | recv id =>
    simp only [Netstack.step]
    split
    · exact hapart
    · split
      · exact hapart
      · rename_i hdequeue
        obtain ⟨taken, -, heq⟩ := Option.map_eq_some_iff.mp hdequeue
        rw [← (Prod.mk.inj heq).2]
        exact hapart.setSocket _ _
  | close link timer id =>
    simp only [Netstack.step, netTcpSocketCloseId]
    split
    · exact hapart
    · exact hapart.close link timer _
  | arrival arrival => exact hapart.arrival arrival

theorem run (hapart : Apart table) (events : List Event) :
    Apart (events.foldl Netstack.step table) := by
  induction events generalizing table with
  | nil => exact hapart
  | cons event events ih => exact ih (hapart.step event)

end Apart

/-! ### Listeners that wait -/

/-- A socket stays in use, and its listening does not change. -/
structure Keeps (old new : Table) (id : ℕ) : Prop where
  inUse : (new id).socket.inUse = true
  listening : (new id).listening = (old id).listening

theorem Keeps.refl (hused : (table id).socket.inUse = true) : Keeps table table id :=
  ⟨hused, rfl⟩

theorem Keeps.trans {old middle new : Table} (hfirst : Keeps old middle id)
    (hsecond : Keeps middle new id) : Keeps old new id :=
  ⟨hsecond.inUse, hsecond.listening.trans hfirst.listening⟩

/-- What arrives keeps a socket that is in use. -/
theorem pollOnce_keeps (arrival : Arrival) (hused : (table id).socket.inUse = true) :
    Keeps table (pollOnce table arrival).1 id := by
  have hset (base : Table) (other : ℕ) (socket : Socket) (hbase : Keeps table base id)
      (hsocket : other = id → socket.inUse = true) :
      Keeps table (base.setSocket other socket) id := by
    constructor
    · rw [setSocket_apply]
      split_ifs with hsame
      · exact hsocket hsame.symm
      · exact hbase.inUse
    · rw [setSocket_apply, ← hbase.listening]
      split_ifs with hsame
      · rw [hsame]
      · rfl
  have hsame : Keeps table table id := .refl hused
  cases arrival with
  | timer link other =>
    simp only [pollOnce]
    split_ifs
    · refine hset table other _ hsame ?_
      rintro rfl
      rw [(Stays.timer link _).inUse_eq]
      exact hused
    · exact hsame
  | segment link timer ticks segment =>
    simp only [pollOnce, pollSegment]
    split
    · rename_i other _
      refine hset table other _ hsame ?_
      rintro rfl
      rw [(Stays.segment link _ segment).inUse_eq]
      exact hused
    · split_ifs
      · exact hsame
      · split
        · exact hsame
        · rename_i other opened hpassive
          have hopened : Keeps table opened id := by
            rcases passiveId_spec hpassive with ⟨_, rfl, _⟩ | ⟨listener, _, hfree, hne, _, rfl⟩
            · exact hsame
            · have hother : id ≠ other := by
                rintro rfl
                rw [(freeId_spec hfree).2.2] at hused
                exact Bool.false_ne_true hused
              by_cases hlistener : id = listener
              · subst hlistener
                have hentry : Table.setBacklog (Function.update table other Endpoint.taken) id
                    ((table id).acceptBacklog ++ [other]) id =
                    { table id with acceptBacklog := (table id).acceptBacklog ++ [other] } := by
                  rw [setBacklog_apply, if_pos rfl, Function.update_of_ne hother]
                exact ⟨by rw [hentry]; exact hused, by rw [hentry]⟩
              · have hentry : Table.setBacklog (Function.update table other Endpoint.taken) listener
                    ((table listener).acceptBacklog ++ [other]) id = table id := by
                  rw [setBacklog_apply, if_neg hlistener, Function.update_of_ne hother]
                exact ⟨by rw [hentry]; exact hused, by rw [hentry]⟩
          refine hset opened other _ hopened ?_
          rintro rfl
          rw [(answerSyn_spec link timer ticks _ segment).2]
          exact hopened.inUse

theorem netPoll_keeps (arrivals : List Arrival) (table : Table)
    (hused : (table id).socket.inUse = true) : Keeps table (netPoll table arrivals).1 id := by
  induction arrivals generalizing table with
  | nil => exact .refl hused
  | cons arrival arrivals ih =>
    have hfirst := pollOnce_keeps arrival hused
    simp only [netPoll]
    exact hfirst.trans (ih _ hfirst.inUse)

/-- A poll pass does not free the identifiers of sockets. -/
theorem netPoll_anyId {given : ℤ} (arrivals : List Arrival) (hid : anyId table given = some id) :
    anyId (netPoll table arrivals).1 given = some id := by
  unfold anyId at hid ⊢
  split_ifs at hid with hrange hany
  rw [if_neg hrange]
  refine (if_pos ?_).trans hid
  exact hany.imp_right fun hused ↦ (netPoll_keeps arrivals table hused).inUse

theorem Keeps.dropEntry {old new : Table} (hkeeps : Keeps old new id) (k : ℕ) :
    Keeps old (dropEntry new id k) id := by
  have hentry : Netstack.dropEntry new id k id =
      { new id with acceptBacklog := (new id).acceptBacklog.eraseIdx k } := by
    rw [Netstack.dropEntry, setBacklog_apply, if_pos rfl]
  exact ⟨by rw [hentry]; exact hkeeps.inUse, by rw [hentry]; exact hkeeps.listening⟩

/-- The scan of a backlog keeps its listener. -/
theorem acceptScan_keeps (steps k : ℕ) (table : Table) (hused : (table id).socket.inUse = true)
    (hapart : Apart table) : Keeps table (acceptScan id steps k table).2 id := by
  induction steps generalizing k table with
  | zero => exact .refl hused
  | succ steps ih =>
    unfold acceptScan
    split
    · exact .refl hused
    · rename_i cand hcand
      have hne : id ≠ cand := by
        rintro rfl
        exact hapart id (List.mem_of_getElem? hcand)
      split
      · exact Keeps.dropEntry (.refl hused) k
      · have hcleared : Keeps table (tcpSocketMetaClear table cand) id := by
          unfold tcpSocketMetaClear
          split_ifs
          · have hentry : Function.update table cand Endpoint.cleared id = table id :=
              Function.update_of_ne hne _ _
            exact ⟨by rw [hentry]; exact hused, by rw [hentry]⟩
          · exact .refl hused
        have hdropped := hcleared.dropEntry k
        exact hdropped.trans (ih k _ hdropped.inUse ((hapart.metaClear cand).dropEntry id k))
      · exact ih (k + 1) table hused hapart
      · exact ih (k + 1) table hused hapart
      · exact ih (k + 1) table hused hapart

/-- A listener that is kept goes on accepting. -/
theorem acceptingId_spec {given : ℤ} (hid : acceptingId table given = some id) :
    (table id).socket.inUse = true ∧
      ∀ later, Keeps table later id → acceptingId later given = some id := by
  unfold acceptingId usedId at hid ⊢
  by_cases hrange : given ≤ 0 ∨ (maxSockets : ℤ) ≤ given
  · simp [hrange] at hid
  rw [if_neg hrange] at hid
  by_cases hused : (table given.toNat).socket.inUse = true
  · rw [if_pos hused] at hid
    dsimp only at hid
    split_ifs at hid with hlistening
    obtain rfl := Option.some.inj hid
    refine ⟨hused, fun later hkeeps ↦ ?_⟩
    rw [if_neg hrange, if_pos hkeeps.inUse]
    exact if_pos (hkeeps.listening.trans hlistening)
  · simp [hused] at hid

/-! ### Calls that wait -/

/-- A pass of `net_poll` is a sequence of arrivals. -/
theorem netPoll_events (table : Table) (arrivals : List Arrival) :
    (netPoll table arrivals).1 = (arrivals.map Event.arrival).foldl step table := by
  induction arrivals generalizing table with
  | nil => rfl
  | cons arrival arrivals ih =>
    simp only [netPoll, List.map_cons, List.foldl_cons]
    exact ih _

/-- Waiting for a handshake is a sequence of arrivals. -/
theorem waitEstablished_events (id : ℕ) (passes : List (List Arrival)) (table : Table) :
    ∃ arrivals : List Arrival,
      (waitEstablished id passes table).1 = (arrivals.map Event.arrival).foldl step table := by
  induction passes generalizing table with
  | nil => exact ⟨[], rfl⟩
  | cons arrivals passes ih =>
    simp only [waitEstablished]
    split_ifs
    · exact ⟨arrivals, netPoll_events table arrivals⟩
    · obtain ⟨later, hlater⟩ := ih (netPoll table arrivals).1
      refine ⟨arrivals ++ later, hlater.trans ?_⟩
      rw [List.map_append, List.foldl_append, netPoll_events]

/-- What `tcp_socket_connect_impl` does after the start is a sequence of arrivals. -/
theorem tcpSocketConnectImpl_events (table : Table) (id : ℕ) (opening : Opening)
    (passes : List (List Arrival)) (hport : opening.dstPort ≠ 0) :
    ∃ arrivals : List Arrival, (tcpSocketConnectImpl table id opening passes).2.1 =
      (arrivals.map Event.arrival).foldl step (connectStart table id opening) := by
  simp only [tcpSocketConnectImpl, if_neg hport]
  by_cases hrc : opening.rc = 0
  · rw [if_neg (not_not_intro hrc)]
    exact waitEstablished_events id passes _
  · rw [if_pos hrc]
    exact ⟨[], rfl⟩

/-- `net_tcp_socket_connect` is a sequence of events. -/
theorem netTcpSocketConnect_events (table : Table) (id : ℤ) (opening : Opening)
    (passes : List (List Arrival)) :
    ∃ arrivals : List Arrival, (netTcpSocketConnect table id opening passes).2.1 =
      (arrivals.map Event.arrival).foldl step (step table (.connect id opening)) := by
  unfold netTcpSocketConnect
  cases hid : usedId table id with
  | none => exact ⟨[], by simp [step, Event.opens, hid]⟩
  | some index =>
    dsimp only
    by_cases hport : opening.dstPort = 0
    · exact ⟨[], by simp [step, Event.opens, tcpSocketConnectImpl, hport]⟩
    · have hstep : step table (.connect id opening) = connectStart table index opening := by
        simp [step, Event.opens, hid, hport]
      rw [hstep]
      exact tcpSocketConnectImpl_events table index opening passes hport

/-- `net_tcp_connect` is a sequence of events. -/
theorem netTcpConnect_events (table : Table) (opening : Opening) (passes : List (List Arrival)) :
    ∃ arrivals : List Arrival, (netTcpConnect table opening passes).2.1 =
      (arrivals.map Event.arrival).foldl step (step table (.legacyConnect opening)) := by
  by_cases hport : opening.dstPort = 0
  · exact ⟨[], by simp [netTcpConnect, tcpSocketConnectImpl, step, hport]⟩
  · simp only [step, if_neg hport]
    exact tcpSocketConnectImpl_events table legacySocketId opening passes hport

/-- `net_tcp_send` is a sequence of events. -/
theorem netTcpSend_events (table : Table) (opening : Opening) (payload : List UInt8)
    (passes : List (List Arrival)) (link timer finLink finTimer : ℤ) :
    ∃ events : List Event,
      (netTcpSend table opening payload passes link timer finLink finTimer).2.1 =
        events.foldl step table := by
  simp only [netTcpSend]
  by_cases hport : opening.dstPort = 0
  · exact ⟨[], by rw [if_pos hport]; rfl⟩
  rw [if_neg hport]
  by_cases hlarge : maxPayload < payload.length
  · exact ⟨[], by rw [if_pos hlarge]; rfl⟩
  rw [if_neg hlarge]
  have hstart : step table (.sendStart opening) = sendStart table opening := by
    simp only [step, if_neg hport]
  by_cases hrc : opening.rc = 0
  · rw [if_neg (not_not_intro hrc)]
    obtain ⟨arrivals, harrivals⟩ :=
      waitEstablished_events legacySocketId passes (sendStart table opening)
    refine ⟨[.sendStart opening] ++ arrivals.map Event.arrival ++
      [.sendFinish link timer finLink finTimer payload], ?_⟩
    rw [List.foldl_append, List.foldl_append, List.foldl_cons, List.foldl_nil, List.foldl_cons,
      List.foldl_nil, hstart, ← harrivals]
    rfl
  · rw [if_pos hrc]
    exact ⟨[.sendStart opening], hstart.symm⟩

/-- `net_tcp_socket_recv` is a sequence of events. -/
theorem netTcpSocketRecv_events (table : Table) (id : ℤ) (arrivals : List Arrival) :
    ∃ events : List Event, (netTcpSocketRecv table id arrivals).2.1 = events.foldl step table := by
  unfold netTcpSocketRecv
  cases hid : anyId table id with
  | none => exact ⟨[], rfl⟩
  | some index =>
    simp only [tcpSocketRecvImpl]
    cases hfirst : dequeue table index with
    | some taken => exact ⟨[.recv id], by simp [step, hid, hfirst]⟩
    | none =>
      refine ⟨arrivals.map Event.arrival ++ [.recv id], ?_⟩
      rw [List.foldl_append, ← netPoll_events, List.foldl_cons, List.foldl_nil]
      have hkept := netPoll_anyId arrivals hid
      cases hsecond : dequeue (netPoll table arrivals).1 index with
      | none => simp [step, hkept, hsecond]
      | some taken => simp [step, hkept, hsecond]

/-- The loop of `net_tcp_socket_accept` is a sequence of events. -/
theorem acceptLoop_events {index : ℕ} (given : ℤ) (passes : List (List Arrival)) (table : Table)
    (hid : acceptingId table given = some index) (hapart : Apart table) :
    ∃ events : List Event, (acceptLoop index passes table).2.1 = events.foldl step table := by
  induction passes generalizing table with
  | nil => exact ⟨[], rfl⟩
  | cons arrivals passes ih =>
    have hstep : step table (.accept given) = (acceptOnce table index).2 := by
      simp only [step, hid]
    obtain ⟨hused, haccepting⟩ := acceptingId_spec hid
    have hscanned := acceptScan_keeps (table index).acceptBacklog.length 0 table hused hapart
    have hpolled := hscanned.trans (netPoll_keeps arrivals _ hscanned.inUse)
    have hafter := hapart.acceptScan index (table index).acceptBacklog.length 0
    unfold acceptLoop
    split
    · rename_i cand after hscan
      rw [hscan] at hstep
      exact ⟨[.accept given], hstep.symm⟩
    · rename_i after hscan
      rw [acceptOnce] at hscan
      rw [acceptOnce, hscan] at hstep
      rw [hscan] at hpolled hafter
      obtain ⟨events, hevents⟩ := ih (netPoll after arrivals).1 (haccepting _ hpolled)
        (netPoll_events after arrivals ▸ hafter.run _)
      refine ⟨[.accept given] ++ arrivals.map Event.arrival ++ events, ?_⟩
      rw [List.foldl_append, List.foldl_append, List.foldl_cons, List.foldl_nil, hstep,
        ← netPoll_events]
      exact hevents

/-- `net_tcp_socket_accept` is a sequence of events. -/
theorem netTcpSocketAccept_events (table : Table) (given : ℤ) (passes : List (List Arrival))
    (hapart : Apart table) :
    ∃ events : List Event,
      (netTcpSocketAccept table given passes).2.1 = events.foldl step table := by
  unfold netTcpSocketAccept
  cases hused : usedId table given with
  | none => exact ⟨[], rfl⟩
  | some index =>
    dsimp only
    by_cases hlistening : (table index).listening = true
    · have hid : acceptingId table given = some index := by
        simp only [acceptingId, hused, hlistening, if_true]
      rw [if_pos hlistening]
      exact acceptLoop_events given passes table hid hapart
    · rw [if_neg hlistening]
      exact ⟨[], rfl⟩

/-! ### Sequences of calls -/

/-- A call of a program with what arrives in the passes in which it waits, or an event that waits
for nothing. -/
inductive Call
  | socketConnect (id : ℤ) (opening : Opening) (passes : List (List Arrival))
  | connect (opening : Opening) (passes : List (List Arrival))
  | sendOnce (opening : Opening) (payload : List UInt8) (passes : List (List Arrival))
      (link timer finLink finTimer : ℤ)
  | socketRecv (id : ℤ) (arrivals : List Arrival)
  | socketAccept (id : ℤ) (passes : List (List Arrival))
  | atOnce (event : Event)

def Call.run (table : Table) : Call → Table
  | .socketConnect id opening passes => (netTcpSocketConnect table id opening passes).2.1
  | .connect opening passes => (netTcpConnect table opening passes).2.1
  | .sendOnce opening payload passes link timer finLink finTimer =>
    (netTcpSend table opening payload passes link timer finLink finTimer).2.1
  | .socketRecv id arrivals => (netTcpSocketRecv table id arrivals).2.1
  | .socketAccept id passes => (netTcpSocketAccept table id passes).2.1
  | .atOnce event => step table event

/-- A call is a sequence of events. -/
theorem Call.run_events (hapart : Apart table) (call : Call) :
    ∃ events : List Event, call.run table = events.foldl step table := by
  cases call with
  | socketConnect id opening passes =>
    obtain ⟨arrivals, heq⟩ := netTcpSocketConnect_events table id opening passes
    exact ⟨.connect id opening :: arrivals.map Event.arrival, heq⟩
  | connect opening passes =>
    obtain ⟨arrivals, heq⟩ := netTcpConnect_events table opening passes
    exact ⟨.legacyConnect opening :: arrivals.map Event.arrival, heq⟩
  | sendOnce opening payload passes link timer finLink finTimer =>
    exact netTcpSend_events table opening payload passes link timer finLink finTimer
  | socketRecv id arrivals => exact netTcpSocketRecv_events table id arrivals
  | socketAccept id passes => exact netTcpSocketAccept_events table id passes hapart
  | atOnce event => exact ⟨[event], rfl⟩

/-- After every sequence of calls, with whatever arrives in them and between them, the table is one
that a sequence of events leads to, so that what holds after all events holds for all programs. -/
theorem calls_are_events (calls : List Call) :
    ∃ events : List Event, calls.foldl Call.run netInit = events.foldl step netInit := by
  suffices hcalls : ∀ table, Apart table →
      ∃ events : List Event, calls.foldl Call.run table = events.foldl step table from
    hcalls netInit fun _ ↦ List.not_mem_nil
  induction calls with
  | nil => exact fun table _ ↦ ⟨[], rfl⟩
  | cons call calls ih =>
    intro table hapart
    obtain ⟨events, hevents⟩ := call.run_events hapart
    obtain ⟨later, hlater⟩ := ih _ (hapart.run events)
    refine ⟨events ++ later, ?_⟩
    rw [List.foldl_cons, hevents, hlater, List.foldl_append]

end EynOS.Network.Netstack
