import EynOS.Foundation.Run
import EynOS.Network.FrameLayout
import EynOS.Network.UdpQueues

/-!
# Datagrams are delivered in order

A frame of `net_udp_send` that reaches the stack it is for is taken apart into the datagram that was
sent (`yields_sending`), so that it is queued once. What the calls return then is what queues in
order return (`delivers_in_order`), as long as no datagram for a port without a socket arrives while
an older one for that port is in a slot behind the first free one: the slots that such ports share
are filled from the front and read from the front, so the newer one would come first.

`Matches` ties the queues to the reference: rings hold what is pending for their sockets, and for
each port the shared slots hold its datagrams in the order of arrival.
-/

namespace EynOS.Network.Udp

open Foundation Traced Reader

/-! ### The wire -/

variable {frame : ℕ → UInt8} {len : ℕ} {sending : Sending}

/-- A frame that was sent is taken apart into its datagram. -/
theorem yields_sending (hframe : Holds frame 0 sending.frame) (hroom : sending.frame.length ≤ len)
    (hlen : len ≤ 1600) :
    (receiveFrame sending.datagram.dstIp frame len).Yields
      { learned := some (sending.datagram.srcIp, sending.srcMac)
        content := .udp sending.datagram } := by
  obtain ⟨dstMac, srcMac, id, ⟨srcIp, srcPort, dstIp, dstPort, payload⟩, hdstMac, hsrcMac, hsrcPort,
    hdstPort, hshort⟩ := sending
  dsimp only [Sending.frame] at hframe hroom hsrcPort hdstPort hshort ⊢
  rw [maxPayload] at hshort
  have hsmall : udpHdrSize + payload.length < 65516 := by
    rw [udpHdrSize]
    omega
  have hwhole : 42 + payload.length ≤ len := by
    refine Nat.le_trans ?_ hroom
    simp only [udpFrame, ethHeader, ipv4Header, Ipv4Address.bytes, List.length_append, hdstMac,
      hsrcMac, length_be16, List.length_cons, List.length_nil]
    omega
  have hheaders : 34 ≤ len := by omega
  rw [udpFrame, List.append_assoc, List.append_assoc] at hframe
  obtain ⟨hcarries, -, hrest⟩ := carries_sent hdstMac hsrcMac hsmall hheaders hframe
  obtain ⟨hheader, htail⟩ := holds_append.mp hrest
  have hpayload := (holds_append.mp htail).1
  refine hcarries.yields_receiveFrame (Or.inl rfl) ?_
  have hudp : CarriesUdp frame len ipv4HdrSize srcPort dstPort
      (udpChecksum16 srcIp dstIp srcPort dstPort (udpHdrSize + payload.length) payload) payload :=
    { headerBytes := hheader
      payloadBytes := hpayload
      room := by
        rw [ethHdrSize, ipv4HdrSize, udpHdrSize]
        omega
      srcPort := hsrcPort
      dstPort := hdstPort }
  change (receivePacket dstIp frame len ipv4HdrSize 17 srcMac srcIp dstIp).Yields _
  rw [receivePacket, if_neg (by decide), if_neg (by decide), if_neg (by decide)]
  exact hudp.yields_receiveUdp (by omega) rfl

/-- A frame that was sent is queued once. -/
theorem netPoll_sending (hframe : Holds frame 0 sending.frame)
    (hroom : sending.frame.length ≤ len) (hlen : len ≤ 1600) (queues : Queues) :
    netPoll sending.datagram.dstIp frame len queues = udpRxqEnqueue queues sending.datagram := by
  have hyields := yields_sending hframe hroom hlen
  rw [netPoll, hyields]

theorem length_frame_le (sending : Sending) : sending.frame.length ≤ 1600 := by
  have hshort := sending.short
  rw [maxPayload] at hshort
  simp only [Sending.frame, udpFrame, ethHeader, ipv4Header, Ipv4Address.bytes, List.length_append,
    sending.dstMac_length, sending.srcMac_length, length_be16, List.length_cons, List.length_nil,
    List.length_replicate]
  omega

theorem step_arrive (queues : Queues) (sending : Sending) :
    step queues (.arrive sending) = (udpRxqEnqueue queues sending.datagram, none) := by
  rw [step, netPoll_sending (holds_getD _) (Nat.le_refl _) (length_frame_le sending)]

theorem take_payload (sending : Sending) :
    { sending.datagram with payload := sending.datagram.payload.take maxPayload } =
      sending.datagram := by
  rw [List.take_of_length_le sending.short]

/-! ### The queues and the reference -/

/-- A socket holds what the reference says is pending for it. -/
structure SocketMatches (socket : UdpSocket) (reference : FifoSocket) : Prop where
  bound : socket.bound = reference.bound
  port : socket.port = reference.port
  ring : socket.bound = true → socket.rxq.Holds socketRxqSize reference.pending

/-- The queues hold what the reference says is pending. -/
structure Matches (queues : Queues) (fifo : Fifo) : Prop where
  sockets : ∀ id, SocketMatches (queues.sockets id) (fifo.sockets id)
  slots : queues.udpRxq.length = udpRxqSize
  count : (SlotArray.used queues.udpRxq).length = fifo.pending.length
  shared : ∀ port, (SlotArray.used queues.udpRxq).filter (fun datagram ↦ datagram.dstPort = port) =
    fifo.pending.filter fun datagram ↦ datagram.dstPort = port

variable {queues : Queues} {fifo : Fifo}

theorem Matches.bound_eq (hmatches : Matches queues fifo) :
    (fun id ↦ (queues.sockets id).bound) = fun id ↦ (fifo.sockets id).bound :=
  funext fun id ↦ (hmatches.sockets id).bound

theorem Matches.boundTo_eq (hmatches : Matches queues fifo) (port : ℕ) :
    boundTo (fun id ↦ (queues.sockets id).bound) (fun id ↦ (queues.sockets id).port) port =
      boundTo (fun id ↦ (fifo.sockets id).bound) (fun id ↦ (fifo.sockets id).port) port := by
  rw [hmatches.bound_eq, funext fun id ↦ (hmatches.sockets id).port]

/-- A change of one socket. -/
theorem Matches.updateSocket (hmatches : Matches queues fifo) {id : ℕ} {socket : UdpSocket}
    {reference : FifoSocket} (hsocket : SocketMatches socket reference) :
    Matches { queues with sockets := Function.update queues.sockets id socket }
      { fifo with sockets := Function.update fifo.sockets id reference } where
  sockets := fun other ↦ by
    dsimp only
    by_cases hother : other = id
    · rw [hother, Function.update_self, Function.update_self]
      exact hsocket
    · rw [Function.update_of_ne hother, Function.update_of_ne hother]
      exact hmatches.sockets other
  slots := hmatches.slots
  count := hmatches.count
  shared := hmatches.shared

theorem matches_initial : Matches initial Fifo.initial where
  sockets := fun _ ↦ ⟨rfl, rfl, fun hbound ↦ absurd hbound Bool.false_ne_true⟩
  slots := List.length_replicate
  count := rfl
  shared := fun _ ↦ rfl

theorem boundTo_some {bound : ℕ → Bool} {port : ℕ → ℕ} {wanted id : ℕ}
    (hid : boundTo bound port wanted = some id) : bound id = true := by
  have hfound := List.find?_some hid
  simp only [Bool.decide_and, Bool.decide_eq_true, Bool.and_eq_true] at hfound
  exact hfound.1

section

variable (hmatches : Matches queues fifo)

include hmatches

/-- An arrival in order joins what is pending. -/
theorem Matches.arrive (sending : Sending)
    (horder : InOrder queues (.arrive sending)) :
    Matches (udpRxqEnqueue queues sending.datagram) (fifo.arrive sending.datagram) := by
  unfold udpRxqEnqueue Fifo.arrive
  rw [take_payload]
  dsimp only
  rw [hmatches.boundTo_eq]
  cases hsocket : boundTo (fun id ↦ (fifo.sockets id).bound) (fun id ↦ (fifo.sockets id).port)
    sending.datagram.dstPort with
  | some id =>
    obtain ⟨hbound, hport, hring⟩ := hmatches.sockets id
    have hholds := hring (hbound.trans (boundTo_some hsocket))
    dsimp only
    split_ifs with hroom
    · obtain ⟨filled, hfilled, hfull⟩ := hholds.enqueue hroom sending.datagram
      rw [hfilled]
      exact hmatches.updateSocket ⟨hbound, hport, fun _ ↦ hfull⟩
    · have hfull : (fifo.sockets id).pending.length = socketRxqSize :=
        Nat.le_antisymm hholds.length_le (Nat.le_of_not_lt hroom)
      rw [hholds.enqueue_full hfull]
      exact hmatches
  | none =>
    have hbehind := horder ((hmatches.boundTo_eq _).trans hsocket)
    have hcount := hmatches.count
    have hslots := hmatches.slots
    dsimp only
    cases hfilled : SlotArray.fillFirst sending.datagram queues.udpRxq with
    | none =>
      have hfull := SlotArray.fillFirst_eq_none.mp hfilled
      rw [if_neg (by omega)]
      exact hmatches
    | some filled =>
      have hroom : ¬(SlotArray.used queues.udpRxq).length = queues.udpRxq.length := fun hfull ↦ by
        rw [SlotArray.fillFirst_eq_none.mpr hfull] at hfilled
        exact nomatch hfilled
      have hle := SlotArray.length_used_le queues.udpRxq
      obtain ⟨hlength, before, hused, hnew⟩ := SlotArray.used_fillFirst hfilled
      rw [if_pos (by omega)]
      refine ⟨hmatches.sockets, hlength.trans hslots, ?_, fun port ↦ ?_⟩
      · rw [hnew, List.length_append, List.length_append, List.length_singleton, ← hcount, hused,
          List.length_append, List.length_cons, Nat.add_assoc]
      · have hshared := hmatches.shared port
        rw [hused, List.filter_append] at hshared
        rw [hnew, List.filter_append, List.filter_append, ← hshared, List.append_assoc]
        by_cases hport : sending.datagram.dstPort = port
        · have hnone : (SlotArray.behindFree queues.udpRxq).filter
              (fun datagram ↦ datagram.dstPort = port) = [] :=
            List.filter_eq_nil_iff.mpr fun datagram hdatagram ↦ by
              simpa [← hport] using hbehind datagram hdatagram
          rw [List.filter_cons_of_pos (by simpa using hport), hnone,
            List.filter_cons_of_pos (by simpa using hport)]
          rfl
        · rw [List.filter_cons_of_neg (by simpa using hport),
            List.filter_cons_of_neg (by simpa using hport), List.filter_nil, List.append_nil]

/-- A port that is bound has nothing pending. -/
theorem Matches.bind (port : ℕ) :
    Matches (netUdpBind queues port) (fifo.bind port) := by
  unfold netUdpBind Fifo.bind
  have hfree : (fun id ↦ decide ((queues.sockets id).bound = false)) =
      fun id ↦ decide ((fifo.sockets id).bound = false) :=
    funext fun id ↦ by rw [(hmatches.sockets id).bound]
  rw [hmatches.boundTo_eq, hfree]
  split_ifs
  · exact hmatches
  · exact hmatches
  · split
    · refine hmatches.updateSocket ⟨rfl, rfl, fun _ ↦ ?_⟩
      exact RingBuffer.holds_nil (Nat.succ_pos 3) rfl fun _ _ ↦ rfl
    · exact hmatches

theorem Matches.close (id : ℕ) :
    Matches (netUdpClose queues id) (fifo.close id) := by
  unfold netUdpClose Fifo.close
  rw [(hmatches.sockets id).bound]
  split_ifs
  · exact hmatches
  · exact hmatches.updateSocket ⟨rfl, rfl, fun hbound ↦ absurd hbound Bool.false_ne_true⟩

/-- A socket returns the oldest datagram that is pending for it. -/
theorem Matches.recvSocket (id : ℕ) :
    (netUdpRecvSocket queues id).2 = (fifo.recvSocket id).2 ∧
      Matches (netUdpRecvSocket queues id).1 (fifo.recvSocket id).1 := by
  obtain ⟨hbound, hport, hring⟩ := hmatches.sockets id
  unfold netUdpRecvSocket Fifo.recvSocket
  rw [hbound]
  split_ifs with hnone
  · exact ⟨rfl, hmatches⟩
  · have hopen : (fifo.sockets id).bound = true := by
      rw [not_or, Bool.not_eq_false] at hnone
      exact hnone.2
    have hholds := hring (hbound.trans hopen)
    rw [hholds.takeHead_eq]
    cases hpending : (fifo.sockets id).pending with
    | nil =>
      rw [hpending] at hholds
      rw [hholds.dequeue_nil]
      exact ⟨rfl, hmatches⟩
    | cons datagram later =>
      rw [hpending] at hholds
      obtain ⟨rest, hrest, hlater⟩ := hholds.dequeue_cons
      rw [hrest]
      exact ⟨rfl, hmatches.updateSocket ⟨hbound, hport, fun _ ↦ hlater⟩⟩

/-- A port without a socket returns the oldest datagram that is pending for it. -/
theorem Matches.recv (port : ℕ) :
    (netUdpRecv queues port).2 = (fifo.recv port).2 ∧
      Matches (netUdpRecv queues port).1 (fifo.recv port).1 := by
  have hfind : (SlotArray.used queues.udpRxq).find? (fun datagram ↦ datagram.dstPort = port) =
      fifo.pending.find? fun datagram ↦ datagram.dstPort = port := by
    rw [← List.head?_filter, hmatches.shared port, List.head?_filter]
  unfold netUdpRecv Fifo.recv
  split_ifs
  · exact ⟨rfl, hmatches⟩
  · rw [← hfind]
    cases htaken : SlotArray.takeFirst (fun datagram ↦ datagram.dstPort = port) queues.udpRxq with
    | none =>
      rw [SlotArray.takeFirst_eq_none.mp htaken]
      exact ⟨rfl, hmatches⟩
    | some taken =>
      obtain ⟨datagram, rest⟩ := taken
      obtain ⟨hlength, hfound, hused⟩ := SlotArray.takeFirst_eq_some htaken
      rw [hfound]
      refine ⟨rfl, hmatches.sockets, hlength.trans hmatches.slots, ?_, fun other ↦ ?_⟩
      · rw [hfound] at hfind
        rw [hused, List.length_eraseP_of_mem (List.mem_of_find?_eq_some hfound)
            (List.find?_some hfound),
          List.length_eraseP_of_mem (List.mem_of_find?_eq_some hfind.symm)
            (List.find?_some hfind.symm), hmatches.count]
      · rw [hused]
        by_cases hother : other = port
        · rw [hother, filter_eraseP_self, filter_eraseP_self, hmatches.shared port]
        · have hdisjoint (datagram : Datagram) (hport : decide (datagram.dstPort = port) = true) :
              decide (datagram.dstPort = other) = false := by
            rw [decide_eq_true_iff] at hport
            rw [hport]
            exact decide_eq_false (Ne.symm hother)
          rw [filter_eraseP_of_disjoint _ hdisjoint, filter_eraseP_of_disjoint _ hdisjoint,
            hmatches.shared other]

end

/-! ### Runs -/

/-- Every event in order returns what it returns where the queues are in order. -/
theorem Matches.step (hmatches : Matches queues fifo) (event : Event)
    (horder : InOrder queues event) :
    (step queues event).2 = (fifo.step event).2 ∧
      Matches (Udp.step queues event).1 (fifo.step event).1 := by
  cases event with
  | arrive sending =>
    rw [step_arrive]
    exact ⟨rfl, hmatches.arrive sending horder⟩
  | recvSocket id => exact hmatches.recvSocket id
  | recv port => exact hmatches.recv port
  | bind port => exact ⟨rfl, hmatches.bind port⟩
  | close id => exact ⟨rfl, hmatches.close id⟩

/-- So do all events of a run that is in order. -/
theorem Matches.outputs {events : List Event} (hmatches : Matches queues fifo)
    (horder : Allowed InOrder (fun queues event ↦ (Udp.step queues event).1) queues events) :
    Udp.outputs queues events = fifo.outputs events := by
  induction events generalizing queues fifo with
  | nil => rfl
  | cons event events ih =>
    obtain ⟨hevent, hrest⟩ := horder
    obtain ⟨hsame, hnext⟩ := hmatches.step event hevent
    rw [Udp.outputs, Fifo.outputs, hsame, ih hnext hrest]

/-- A frame of `net_udp_send` that comes to the stack that it is for is taken apart into the
datagram that was sent, which is queued once. And in every run in which a datagram for a port
without a socket arrives only while none for that port is in a slot behind the first free one, the
receiving calls return each socket's and each port's datagrams in the order of arrival, without
those that came while the queue was full. -/
theorem delivers_in_order (events : List Event)
    (horder : Allowed InOrder (fun queues event ↦ (step queues event).1) initial events) :
    (∀ (sending : Sending) (frame : ℕ → UInt8) (len : ℕ), Holds frame 0 sending.frame →
      sending.frame.length ≤ len → len ≤ 1600 →
      (receiveFrame sending.datagram.dstIp frame len).Yields
          { learned := some (sending.datagram.srcIp, sending.srcMac)
            content := .udp sending.datagram } ∧
        ∀ queues, netPoll sending.datagram.dstIp frame len queues =
          udpRxqEnqueue queues sending.datagram) ∧
    outputs initial events = Fifo.initial.outputs events :=
  ⟨fun _ _ _ hframe hroom hlen ↦
      ⟨yields_sending hframe hroom hlen, netPoll_sending hframe hroom hlen⟩,
    matches_initial.outputs horder⟩

/-- A datagram of one byte for port 9. -/
def single (byte : UInt8) : Sending where
  dstMac := [2, 0, 0, 0, 0, 2]
  srcMac := [2, 0, 0, 0, 0, 1]
  id := 1
  datagram :=
    { srcIp := ⟨10, 0, 2, 2⟩, srcPort := 7, dstIp := ⟨10, 0, 2, 15⟩, dstPort := 9
      payload := [byte] }
  dstMac_length := rfl
  srcMac_length := rfl
  srcPort := (by decide : 7 ≠ 0 ∧ 7 < 65536)
  dstPort := (by decide : 9 ≠ 0 ∧ 9 < 65536)
  short := (by decide : 1 ≤ maxPayload)

/-- Two datagrams are returned in order. -/
theorem delivers_in_order_two :
    outputs initial [.arrive (single 1), .arrive (single 2), .recv 9, .recv 9] =
      [none, none, some (single 1).datagram, some (single 2).datagram] := by
  refine (delivers_in_order _ ?_).2.trans (by decide)
  simp only [Allowed, step_arrive]
  decide

/-- Of three datagrams, the last of which comes after the first was taken, it is returned before the
second. -/
theorem not_delivers_in_order :
    ¬∀ events, outputs initial events = Fifo.initial.outputs events := by
  intro hall
  have houtputs := hall
    [.arrive (single 1), .arrive (single 2), .recv 9, .arrive (single 3), .recv 9]
  simp only [outputs, step_arrive] at houtputs
  revert houtputs
  decide

end EynOS.Network.Udp
