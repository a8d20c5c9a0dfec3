import EynOS.Network.NetstackSteps

/-!
# TCP connections are demultiplexed uniquely

`Distinct` says that no two sockets have connections with the same local port, remote address and
remote port, and that a pool socket with a connection is in use. Then `net_poll` finds for every
segment the only socket that it belongs to (`Distinct.demultiplex_eq`). A connection that is opened
for a SYN is always a new one; an active open takes its local port from the caller or from the clock
without looking at the other sockets, so `demultiplexed_uniquely` holds for the runs whose active
opens use addresses that are free (`Separate`). `not_demultiplexed_uniquely` is a run with two opens
in one tick.
-/

namespace EynOS.Network.Netstack

open Foundation Tcp

/-! ### Connections -/

def Opening.connection (opening : Opening) : ℕ × ℕ × ℕ :=
  (chosenPort opening.ticks opening.localPort, opening.dstIp, opening.dstPort)

/-- A socket has a connection. -/
def Live (table : Table) (id : ℕ) : Prop :=
  id < maxSockets ∧ (table id).socket.state ≠ .closed

/-- Connections differ, and pool sockets with a connection are in use. -/
structure Distinct (table : Table) : Prop where
  unique : ∀ first second, Live table first → Live table second →
    connection (table first).socket = connection (table second).socket → first = second
  used : ∀ id, Live table id → id ≠ legacySocketId → (table id).socket.inUse = true

/-- No other socket has a connection with the addresses of an active open. -/
def Separate (table : Table) (event : Event) : Prop :=
  ∀ opened ∈ event.opens table, ∀ other < maxSockets,
    (table other).socket.state ≠ .closed → other ≠ opened.1 →
      connection (table other).socket ≠ opened.2.connection

instance (table : Table) (event : Event) : Decidable (Separate table event) :=
  inferInstanceAs (Decidable (∀ opened ∈ event.opens table, ∀ other < maxSockets,
    (table other).socket.state ≠ .closed → other ≠ opened.1 →
      connection (table other).socket ≠ opened.2.connection))

variable {table opened : Table} {id : ℕ} {segment : Tcp.Segment}

/-- A segment belongs to a socket with a connection that has its addresses. -/
theorem matchesSocket_iff (socket : Socket) (segment : Tcp.Segment) :
    matchesSocket socket segment = true ↔ socket.state ≠ .closed ∧
      (segment.dstPort, segment.srcIp, segment.srcPort) = connection socket := by
  unfold matchesSocket connection
  rw [decide_eq_true_iff, Prod.mk.injEq, Prod.mk.injEq]
  constructor
  · rintro ⟨hstate, hlocal, hport, hip⟩
    exact ⟨hstate, hlocal, hip, hport⟩
  · rintro ⟨hstate, hlocal, hip, hport⟩
    exact ⟨hstate, hlocal, hport, hip⟩

/-- The socket that is found for a segment is the one that it belongs to. -/
theorem Distinct.demultiplex_eq (hdistinct : Distinct table) (hid : id < maxSockets)
    (hmatches : matchesSocket (table id).socket segment = true) :
    demultiplex table segment = some id := by
  obtain ⟨hstate, hconnection⟩ := (matchesSocket_iff _ _).mp hmatches
  have hreached : ((id == legacySocketId || (table id).socket.inUse) &&
      matchesSocket (table id).socket segment) = true := by
    by_cases hlegacy : id = legacySocketId
    · simp [hlegacy] at hmatches ⊢
      exact hmatches
    · simp [hdistinct.used id ⟨hid, hstate⟩ hlegacy, hmatches]
  cases hfound : demultiplex table segment with
  | none =>
    have hnone := List.find?_eq_none.mp hfound id (List.mem_range.mpr hid)
    exact absurd hreached hnone
  | some other =>
    have hother := List.mem_range.mp (List.mem_of_find?_eq_some hfound)
    have hfits := List.find?_some hfound
    simp only [Bool.and_eq_true] at hfits
    obtain ⟨hotherState, hotherConnection⟩ := (matchesSocket_iff _ _).mp hfits.2
    rw [hdistinct.unique other id ⟨hother, hotherState⟩ ⟨hid, hstate⟩
      (hotherConnection.symm.trans hconnection)]

/-- A segment for which no socket is found has the addresses of no connection. -/
theorem Distinct.connection_ne (hdistinct : Distinct table)
    (hnone : demultiplex table segment = none) (hlive : Live table id) :
    connection (table id).socket ≠ (segment.dstPort, segment.srcIp, segment.srcPort) := by
  intro hsame
  have hfound := hdistinct.demultiplex_eq hlive.1
    ((matchesSocket_iff _ segment).mpr ⟨hlive.2, hsame.symm⟩)
  rw [hnone] at hfound
  exact Option.some_ne_none _ hfound.symm

/-! ### Changes that open nothing -/

/-- An endpoint has no connection that it did not have before. -/
def Calm (old new : Endpoint) : Prop :=
  new.socket.state ≠ .closed → old.socket.state ≠ .closed ∧
    connection new.socket = connection old.socket ∧ new.socket.inUse = old.socket.inUse

/-- No endpoint has a connection that it did not have before. -/
def AllCalm (old new : Table) : Prop := ∀ id, Calm (old id) (new id)

namespace Calm

theorem refl (endpoint : Endpoint) : Calm endpoint endpoint := fun hstate ↦ ⟨hstate, rfl, rfl⟩

/-- A socket keeps its addresses and its slot. -/
theorem of_stays {old new : Endpoint} (hstays : Stays old.socket new.socket) : Calm old new :=
  fun hstate ↦ ⟨fun hclosed ↦ hstate (hstays.closed hclosed), hstays.connection_eq, hstays.inUse_eq⟩

theorem of_closed {old new : Endpoint} (hclosed : new.socket.state = .closed) : Calm old new :=
  fun hstate ↦ absurd hclosed hstate

end Calm

namespace AllCalm

variable {old middle new : Table}

theorem refl (table : Table) : AllCalm table table := fun _ ↦ Calm.refl _

theorem trans (hfirst : AllCalm old middle) (hsecond : AllCalm middle new) : AllCalm old new := by
  intro id hstate
  obtain ⟨hmiddle, hconnection, hused⟩ := hsecond id hstate
  obtain ⟨hold, hbefore, husedBefore⟩ := hfirst id hmiddle
  exact ⟨hold, hconnection.trans hbefore, hused.trans husedBefore⟩

/-- One endpoint changes. -/
theorem update {endpoint : Endpoint} (hcalm : Calm (table id) endpoint) :
    AllCalm table (Function.update table id endpoint) := by
  intro other
  rw [Function.update_apply]
  split_ifs with hsame
  · rw [hsame]
    exact hcalm
  · exact Calm.refl _

theorem setSocket {socket : Socket} (hstays : Stays (table id).socket socket) :
    AllCalm table (table.setSocket id socket) :=
  update (Calm.of_stays hstays)

theorem setBacklog (table : Table) (id : ℕ) (backlog : List ℕ) :
    AllCalm table (table.setBacklog id backlog) :=
  update (Calm.refl _)

theorem metaClear (table : Table) (id : ℕ) : AllCalm table (tcpSocketMetaClear table id) := by
  unfold tcpSocketMetaClear
  split_ifs
  · exact update (Calm.of_closed rfl)
  · exact refl table

theorem retxCancel (table : Table) (id : ℕ) : AllCalm table (tcpSocketRetxCancel table id) := by
  unfold tcpSocketRetxCancel
  split_ifs
  · exact setSocket (Stays.retxCancel _)
  · exact refl table

/-- The candidates of a listener are cleared. -/
theorem reclaim (listener : ℕ) (backlog : List ℕ) (table : Table) :
    AllCalm table (reclaim listener backlog table) := by
  induction backlog generalizing table with
  | nil => exact refl table
  | cons cand rest ih =>
    have hcleared := (retxCancel table cand).trans (metaClear _ cand)
    unfold Netstack.reclaim
    dsimp only
    split_ifs
    · exact hcleared
    · exact hcleared.trans (ih _)

theorem close (link timer : ℤ) (table : Table) (id : ℕ) :
    AllCalm table (tcpSocketCloseImpl link timer table id).1 := by
  unfold tcpSocketCloseImpl
  by_cases hestablished : (table id).socket.state = .established
  · simp only [hestablished, if_true, socketCloseImpl]
    refine update fun _ ↦ ⟨by simp [hestablished], ?_, ?_⟩
    · exact (Stays.retxArm timer (table id).socket _ _ _ _).connection_eq
    · exact (Stays.retxArm timer (table id).socket _ _ _ _).inUse_eq
  · rw [if_neg hestablished]
    split_ifs
    · exact update (Calm.of_closed rfl)
    · exact ((retxCancel table id).trans (reclaim id _ _)).trans (metaClear _ id)

theorem acceptScan (listener steps k : ℕ) (table : Table) :
    AllCalm table (acceptScan listener steps k table).2 := by
  induction steps generalizing k table with
  | zero => exact refl table
  | succ steps ih =>
    unfold Netstack.acceptScan
    split
    · exact refl table
    · split
      · exact setBacklog table listener _
      · exact ((metaClear table _).trans (setBacklog _ listener _)).trans (ih k _)
      · exact ih (k + 1) table
      · exact ih (k + 1) table
      · exact ih (k + 1) table

/-- `net_tcp_send` sends its payload and its FIN. -/
theorem sendFinish (link timer finLink finTimer : ℤ) (table : Table) (payload : List UInt8) :
    AllCalm table (sendFinish link timer finLink finTimer table payload).2.1 := by
  simp only [Netstack.sendFinish]
  by_cases hestablished : (table legacySocketId).socket.state = .established
  · rw [if_neg (not_not_intro hestablished)]
    have hpayload := Stays.sendPayload link timer (table legacySocketId).socket payload
    split_ifs
    · exact setSocket hpayload
    · exact setSocket (Stays.sendFin finLink finTimer (by simp [hestablished]) hpayload)
    · exact setSocket (Stays.sendFin finLink finTimer (by simp [hestablished]) hpayload)
  · rw [if_pos hestablished]
    exact refl table

theorem send (link timer : ℤ) (table : Table) (id : ℕ) (payload : List UInt8) :
    AllCalm table (tcpSocketSendImpl link timer table id payload).2.1 :=
  setSocket (Stays.send link timer _ payload)

/-- A packet is taken out of a queue. -/
theorem dequeue {packet : RxPacket} {taken : Table}
    (hdequeue : dequeue table id = some (packet, taken)) :
    AllCalm table taken := by
  unfold Netstack.dequeue socketRxqDequeue at hdequeue
  rw [Option.map_map, Option.map_eq_some_iff] at hdequeue
  obtain ⟨⟨first, rxq⟩, _, htaken⟩ := hdequeue
  rw [← (Prod.mk.inj htaken).2]
  exact setSocket ⟨rfl, rfl, fun hclosed ↦ hclosed⟩

end AllCalm

/-- Where nothing is opened, connections go on differing. -/
theorem Distinct.calm {old new : Table} (hdistinct : Distinct old) (hcalm : AllCalm old new) :
    Distinct new := by
  have hold (id : ℕ) (hlive : Live new id) : Live old id := ⟨hlive.1, (hcalm id hlive.2).1⟩
  constructor
  · intro first second hfirst hsecond hsame
    rw [(hcalm first hfirst.2).2.1, (hcalm second hsecond.2).2.1] at hsame
    exact hdistinct.unique first second (hold first hfirst) (hold second hsecond) hsame
  · intro id hlive hpool
    rw [(hcalm id hlive.2).2.2]
    exact hdistinct.used id (hold id hlive) hpool

/-- Where one connection with new addresses is opened, connections go on differing. -/
theorem Distinct.openOne {old new : Table} (hdistinct : Distinct old) (id : ℕ)
    (hcalm : ∀ other, other ≠ id → Calm (old other) (new other))
    (hfresh : ∀ other, Live old other → other ≠ id →
      connection (old other).socket ≠ connection (new id).socket)
    (hused : id ≠ legacySocketId → (new id).socket.inUse = true) : Distinct new := by
  have hold (other : ℕ) (hne : other ≠ id) (hlive : Live new other) : Live old other :=
    ⟨hlive.1, (hcalm other hne hlive.2).1⟩
  have hapart (other : ℕ) (hne : other ≠ id) (hlive : Live new other) :
      connection (new other).socket ≠ connection (new id).socket := by
    rw [(hcalm other hne hlive.2).2.1]
    exact hfresh other (hold other hne hlive) hne
  constructor
  · intro first second hfirst hsecond hsame
    by_cases hfirstId : first = id
    · by_cases hsecondId : second = id
      · rw [hfirstId, hsecondId]
      · rw [hfirstId] at hsame
        exact absurd hsame.symm (hapart second hsecondId hsecond)
    · by_cases hsecondId : second = id
      · rw [hsecondId] at hsame
        exact absurd hsame (hapart first hfirstId hfirst)
      · rw [(hcalm first hfirstId hfirst.2).2.1, (hcalm second hsecondId hsecond.2).2.1] at hsame
        exact hdistinct.unique first second (hold first hfirstId hfirst)
          (hold second hsecondId hsecond) hsame
  · intro other hlive hpool
    by_cases hother : other = id
    · rw [hother] at hpool ⊢
      exact hused hpool
    · rw [(hcalm other hother hlive.2).2.2]
      exact hdistinct.used other (hold other hother hlive) hpool

/-! ### What arrives -/

/-- A SYN opens a connection with new addresses. -/
theorem Distinct.answered (hdistinct : Distinct table) (hnone : demultiplex table segment = none)
    (hpassive : passiveId table segment.dstPort = some (id, opened)) (link timer : ℤ) (ticks : ℕ) :
    Distinct (opened.setSocket id (answerSyn link timer ticks (opened id).socket segment).1) := by
  obtain ⟨hconnection, hinUse⟩ := answerSyn_spec link timer ticks (opened id).socket segment
  have hentry : (opened.setSocket id (answerSyn link timer ticks (opened id).socket segment).1 id)
      = { opened id with socket := (answerSyn link timer ticks (opened id).socket segment).1 } := by
    rw [setSocket_apply, if_pos rfl]
  have hopened : AllCalm table opened ∧
      (id ≠ legacySocketId → (opened id).socket.inUse = true) := by
    rcases passiveId_spec hpassive with ⟨hlegacy, rfl, _⟩ | ⟨listener, _, hfree, hne, _, rfl⟩
    · exact ⟨AllCalm.refl _, fun hpool ↦ absurd hlegacy hpool⟩
    · refine ⟨(AllCalm.update (Calm.of_closed rfl)).trans (AllCalm.setBacklog _ _ _), fun _ ↦ ?_⟩
      rw [setBacklog_apply, if_neg hne.symm, Function.update_self]
      rfl
  refine hdistinct.openOne id (fun other hother ↦ ?_) (fun other hlive _ ↦ ?_) fun hpool ↦ ?_
  · rw [setSocket_apply, if_neg hother]
    exact hopened.1 other
  · rw [hentry]
    dsimp only
    rw [hconnection]
    exact hdistinct.connection_ne hnone hlive
  · rw [hentry]
    exact hinUse.trans (hopened.2 hpool)

/-- What arrives keeps connections apart. -/
theorem Distinct.pollOnce (hdistinct : Distinct table) (arrival : Arrival) :
    Distinct (pollOnce table arrival).1 := by
  cases arrival with
  | timer link other =>
    simp only [Netstack.pollOnce]
    split_ifs
    · exact hdistinct.calm (AllCalm.setSocket (Stays.timer link _))
    · exact hdistinct
  | segment link timer ticks segment =>
    simp only [Netstack.pollOnce, pollSegment]
    split
    · exact hdistinct.calm (AllCalm.setSocket (Stays.segment link _ segment))
    · rename_i hnone
      split_ifs
      · exact hdistinct
      · split
        · exact hdistinct
        · rename_i hpassive
          exact hdistinct.answered hnone hpassive link timer ticks

/-! ### Every event -/

/-- An active open with free addresses keeps connections apart. -/
theorem Distinct.opens (hdistinct : Distinct table) {opening : Opening} {endpoint : Endpoint}
    (hseparate : ∀ other < maxSockets, (table other).socket.state ≠ .closed → other ≠ id →
      connection (table other).socket ≠ opening.connection)
    (hconnection : connection endpoint.socket = opening.connection)
    (hused : id ≠ legacySocketId → endpoint.socket.inUse = true) :
    Distinct (Function.update table id endpoint) := by
  refine hdistinct.openOne id (fun other hother ↦ ?_) (fun other hlive hother ↦ ?_) ?_
  · rw [Function.update_of_ne hother]
    exact Calm.refl _
  · rw [Function.update_self, hconnection]
    exact hseparate other hlive.1 hlive.2 hother
  · rw [Function.update_self]
    exact hused

theorem Opening.socket_spec (opening : Opening) :
    Netstack.connection opening.socket.1 = opening.connection ∧ opening.socket.1.inUse = true := by
  obtain ⟨hconnection, hused, _⟩ := Stays.retxArm opening.timer
    (socketRetxCancel { socketMetaClear with
      inUse := true, localIp := opening.localIp
      localPort := chosenPort opening.ticks opening.localPort, remoteIp := opening.dstIp
      remotePort := opening.dstPort, seq := opening.ticks, ack := 0, state := .synSent })
    flagSyn opening.ticks 0 []
  exact ⟨hconnection, hused⟩

/-- Every event whose active open uses free addresses keeps connections apart. -/
theorem Distinct.step {event : Event} (hdistinct : Distinct table)
    (hseparate : Separate table event) : Distinct (step table event) := by
  cases event with
  | openSocket =>
    simp only [Netstack.step, netTcpSocketOpen]
    split
    · exact hdistinct
    · exact hdistinct.calm (AllCalm.update (Calm.of_closed rfl))
  | bind given localPort =>
    simp only [Netstack.step, netTcpSocketBind]
    split_ifs
    · exact hdistinct
    · exact hdistinct
    · split
      · exact hdistinct
      · split_ifs
        · exact hdistinct
        · exact hdistinct.calm (AllCalm.update (Calm.refl _))
  | listen given =>
    simp only [Netstack.step, netTcpSocketListen]
    split
    · exact hdistinct
    · split_ifs
      · exact hdistinct
      · exact hdistinct.calm (AllCalm.update (Calm.of_closed rfl))
  | legacyListen localPort =>
    simp only [Netstack.step, netTcpListen]
    split_ifs
    · exact hdistinct
    · exact hdistinct.calm (AllCalm.update (Calm.of_closed rfl))
  | connect given opening =>
    simp only [Netstack.step]
    split
    · exact hdistinct
    · rename_i id other hopens
      obtain ⟨hconnection, hused⟩ := Opening.socket_spec other
      exact hdistinct.opens (hseparate (id, other) hopens) hconnection fun _ ↦ hused
  | legacyConnect opening =>
    simp only [Netstack.step]
    split_ifs with hport
    · exact hdistinct
    · obtain ⟨hconnection, hused⟩ := Opening.socket_spec opening
      exact hdistinct.opens (hseparate (legacySocketId, opening) (if_neg hport)) hconnection
        fun _ ↦ hused
  | sendStart opening =>
    simp only [Netstack.step]
    split_ifs with hport
    · exact hdistinct
    · exact hdistinct.opens (hseparate (legacySocketId, opening) (if_neg hport))
        (Opening.socket_spec opening).1 fun hpool ↦ absurd rfl hpool
  | sendFinish link timer finLink finTimer payload =>
    exact hdistinct.calm (AllCalm.sendFinish link timer finLink finTimer table payload)
  | send link timer given payload =>
    simp only [Netstack.step, netTcpSocketSend]
    split
    · exact hdistinct
    · exact hdistinct.calm (AllCalm.send link timer table _ payload)
  | sendCurrent link timer payload =>
    exact hdistinct.calm (AllCalm.send link timer table legacySocketId payload)
  | accept given =>
    simp only [Netstack.step]
    split
    · exact hdistinct
    · exact hdistinct.calm (AllCalm.acceptScan _ _ _ _)
  | recv given =>
    simp only [Netstack.step]
    split
    · exact hdistinct
    · split
      · exact hdistinct
      · rename_i hdequeue
        exact hdistinct.calm (AllCalm.dequeue hdequeue)
  | close link timer given =>
    simp only [Netstack.step, netTcpSocketCloseId]
    split
    · exact hdistinct
    · exact hdistinct.calm (AllCalm.close link timer table _)
  | arrival arrival => exact hdistinct.pollOnce arrival

theorem distinct_netInit : Distinct netInit where
  unique := fun _ _ hfirst ↦ absurd rfl hfirst.2
  used := fun _ hlive ↦ absurd rfl hlive.2

/-- In every run whose active opens use addresses that no other connection has, connections differ
in their local port, remote address and remote port, and every segment of a connection is delivered
to its socket. -/
theorem demultiplexed_uniquely {events : List Event} {table : Table}
    (hrun : Run (Guarded Separate (Moves step)) netInit events table) :
    (∀ first second, first < maxSockets → second < maxSockets → first ≠ second →
      (table first).socket.state ≠ .closed → (table second).socket.state ≠ .closed →
        connection (table first).socket ≠ connection (table second).socket) ∧
    ∀ segment id, id < maxSockets → matchesSocket (table id).socket segment = true →
      demultiplex table segment = some id := by
  have hdistinct : Distinct table := by
    refine hrun.guarded_invariant (fun before event after hbefore hguard hmoves ↦ ?_)
      distinct_netInit
    rw [← hmoves]
    exact hbefore.step hguard
  constructor
  · intro first second hfirst hsecond hne hfirstState hsecondState hsame
    exact hne (hdistinct.unique first second ⟨hfirst, hfirstState⟩ ⟨hsecond, hsecondState⟩ hsame)
  · exact fun segment id hid hmatches ↦ hdistinct.demultiplex_eq hid hmatches

/-- An active open of a connection to a server, in the first tick. -/
def firstTick (localPort : ℕ) : Opening where
  link := 0
  timer := 1
  ticks := 0
  localIp := 1
  localPort := localPort
  dstIp := 2
  dstPort := 80

/-- Two connections to one server from different ports. -/
theorem demultiplexed_uniquely_ports :
    demultiplex ([Event.openSocket, .openSocket, .connect 1 (firstTick 5000),
        .connect 2 (firstTick 5001)].foldl step netInit)
      { serverSegment 0 1 (flagSyn ||| flagAck) [] with dstPort := 5001 } = some 2 :=
  (demultiplexed_uniquely (Run.of_allowed (by decide))).2 _ 2 (by decide) (by decide)

/-- Two connections that are opened in one tick get the same addresses. -/
theorem not_demultiplexed_uniquely :
    ∃ events table, Run (Moves step) netInit events table ∧
      (table 1).socket.state ≠ .closed ∧ (table 2).socket.state ≠ .closed ∧
        connection (table 1).socket = connection (table 2).socket :=
  ⟨_, _, Run.of_foldl step netInit [.openSocket, .openSocket, .connect 1 (firstTick 0),
    .connect 2 (firstTick 0)], by decide, by decide, by decide⟩

end EynOS.Network.Netstack
