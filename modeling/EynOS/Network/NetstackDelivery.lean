import EynOS.Network.NetstackSteps
import EynOS.Network.TcpReceive

/-!
# No acknowledged byte is lost

Beside the table, a `Ledger` numbers the connections that every socket carries one after another,
and records for each of them the bytes that were acknowledged to the peer and the bytes that calls
on the socket have returned. `Settled` says that for the connection a socket carries, what was
acknowledged is what was returned followed by what is in the queue, and for its earlier connections
that both are the same. `Fate` says what an event may do to a socket. `acknowledged_delivered`
concludes for the runs in which no event empties a queue with data or leaves one to a new connection
(`Sparing`); `not_acknowledged_delivered` is a peer that closes before its connection is accepted.
-/

namespace EynOS.Network.Netstack

open Foundation Tcp

/-! ### The record -/

/-- A socket has a connection whose acknowledgements count bytes. -/
def Flowing (socket : Socket) : Prop := socket.state ≠ .closed ∧ socket.state ≠ .synSent

instance (socket : Socket) : Decidable (Flowing socket) := inferInstanceAs (Decidable (_ ∧ _))

/-- The connections of a socket: the number of the one it carries, the sequence number with which
the bytes of this one start, and for each the bytes that were acknowledged and those that were
returned. -/
structure Account where
  epoch : ℕ
  first : ℕ
  acked : ℕ → List UInt8
  returned : ℕ → List UInt8

/-- The table with the accounts of its sockets. -/
structure Ledger where
  table : Table
  account : ℕ → Account

def Takes (socket : Socket) (segment : Tcp.Segment) : Prop :=
  hasFlag segment.flags flagRst = false ∧
    (socket.state = .established ∨ socket.state = .finWait) ∧ Fits socket segment

instance (socket : Socket) (segment : Tcp.Segment) : Decidable (Takes socket segment) :=
  inferInstanceAs (Decidable (_ ∧ _ ∧ _))

/-- The socket for which an event starts a new connection. -/
def Event.renews (table : Table) : Event → Option ℕ
  | .arrival (.segment _ _ _ segment) =>
    if (demultiplex table segment).isSome ∨ hasFlag segment.flags flagSyn = false then none
    else (passiveId table segment.dstPort).map Prod.fst
  | event => (event.opens table).map Prod.fst

def Event.takes (table : Table) (id : ℕ) : Event → List UInt8
  | .arrival (.segment _ _ _ segment) =>
    if demultiplex table segment = some id ∧ Takes (table id).socket segment then segment.payload
    else []
  | _ => []

def Event.gives (table : Table) (id : ℕ) : Event → List UInt8
  | .recv given =>
    if anyId table given = some id then
      match dequeue table id with
      | none => []
      | some (packet, _) => packet.payload
    else []
  | _ => []

def Account.after (account : Account) (old new : Socket) (renewed : Bool)
    (taken given : List UInt8) : Account where
  epoch := if renewed then account.epoch + 1 else account.epoch
  first := if Flowing new ∧ ¬Flowing old then new.ack else account.first
  acked := Function.update account.acked account.epoch (account.acked account.epoch ++ taken)
  returned :=
    Function.update account.returned account.epoch (account.returned account.epoch ++ given)

/-- One event. -/
def Ledger.step (ledger : Ledger) (event : Event) : Ledger where
  table := Netstack.step ledger.table event
  account := fun id ↦ (ledger.account id).after (ledger.table id).socket
    (Netstack.step ledger.table event id).socket (event.renews ledger.table == some id)
    (event.takes ledger.table id) (event.gives ledger.table id)

/-- Nothing has happened yet. -/
def Ledger.start : Ledger where
  table := netInit
  account := fun _ ↦ { epoch := 0, first := 0, acked := fun _ ↦ [], returned := fun _ ↦ [] }

def queued (socket : Socket) : List UInt8 :=
  (socket.rxq.toList rxqCapacity).flatMap RxPacket.payload

/-! ### The invariant -/

/-- The account of a socket agrees with its queue and its acknowledgement number. -/
structure Settled (id : ℕ) (socket : Socket) (account : Account) : Prop where
  past : ∀ number, number < account.epoch → account.acked number = account.returned number
  future : ∀ number, account.epoch < number →
    account.acked number = [] ∧ account.returned number = []
  current : ∃ packets, socket.rxq.Holds rxqCapacity packets ∧
    account.acked account.epoch =
      account.returned account.epoch ++ packets.flatMap RxPacket.payload
  unused : 0 < id → socket.inUse = false →
    socket.state = .closed ∧ socket.rxq.Holds rxqCapacity []
  opening : socket.state = .synSent → account.acked account.epoch = []
  counted : Flowing socket →
    socket.ack = u32 (account.first + (account.acked account.epoch).length)

/-- What an event may do to a socket: its state and its slot may change, a payload may be put into
its queue or a packet taken out of it, and where its queue is empty it may be reset or carry a new
connection. -/
inductive Fate (id : ℕ) (old new : Socket) : Bool → List UInt8 → List UInt8 → Prop
  | keep (hrxq : new.rxq = old.rxq)
      (hused : 0 < id → new.inUse = false →
        old.inUse = false ∧ (old.state = .closed → new.state = .closed))
      (hopening : new.state = .synSent → old.state = .synSent)
      (hflowing : Flowing new → (Flowing old ∧ new.ack = old.ack) ∨
        (old.state = .synSent ∧ u32 new.ack = new.ack)) : Fate id old new false [] []
  | take (packet : RxPacket) (hold : Flowing old)
      (hrxq : old.rxq.enqueue rxqCapacity packet = some new.rxq)
      (hused : new.inUse = old.inUse) (hopening : new.state ≠ .synSent)
      (hflowing : Flowing new → new.ack = u32 (old.ack + packet.payload.length)) :
      Fate id old new false packet.payload []
  | give (packet : RxPacket) (hrxq : old.rxq.dequeue rxqCapacity = some (packet, new.rxq))
      (hused : new.inUse = old.inUse) (hstate : new.state = old.state) (hack : new.ack = old.ack) :
      Fate id old new false [] packet.payload
  | reset (hempty : old.rxq.toList rxqCapacity = []) (hrxq : new.rxq.Holds rxqCapacity [])
      (hclosed : new.state = .closed) : Fate id old new false [] []
  | renew (hempty : old.rxq.toList rxqCapacity = []) (hrxq : new.rxq.Holds rxqCapacity [])
      (hused : 0 < id → new.inUse = true)
      (hstate : new.state = .synSent ∨ (¬Flowing old ∧ u32 new.ack = new.ack)) :
      Fate id old new true [] []

variable {id : ℕ} {old new : Socket} {account : Account} {table : Table} {segment : Tcp.Segment}

theorem Account.after_nil (account : Account) (old new : Socket) (renewed : Bool) :
    account.after old new renewed [] [] =
      { account with
        epoch := if renewed then account.epoch + 1 else account.epoch
        first := if Flowing new ∧ ¬Flowing old then new.ack else account.first } := by
  simp only [Account.after, List.append_nil, Function.update_eq_self]

/-- A queue that is scanned without result is empty. -/
theorem Settled.empty (hsettled : Settled id old account)
    (hempty : old.rxq.toList rxqCapacity = []) :
    old.rxq.Holds rxqCapacity [] ∧
      account.acked account.epoch = account.returned account.epoch := by
  obtain ⟨packets, hholds, hacked⟩ := hsettled.current
  rw [hholds.toList_eq] at hempty
  subst hempty
  exact ⟨hholds, by rw [hacked, List.flatMap_nil, List.append_nil]⟩

/-- A socket that only changes its state keeps its account. -/
theorem Settled.keep (hsettled : Settled id old account) (hrxq : new.rxq = old.rxq)
    (hused : 0 < id → new.inUse = false →
      old.inUse = false ∧ (old.state = .closed → new.state = .closed))
    (hopening : new.state = .synSent → old.state = .synSent)
    (hflowing : Flowing new → (Flowing old ∧ new.ack = old.ack) ∨
      (old.state = .synSent ∧ u32 new.ack = new.ack)) :
    Settled id new (account.after old new false [] []) := by
  rw [Account.after_nil]
  constructor
  · exact hsettled.past
  · exact hsettled.future
  · rw [hrxq]
    exact hsettled.current
  · intro hpool hunused
    obtain ⟨holdUnused, hclosed⟩ := hused hpool hunused
    obtain ⟨hstate, hholds⟩ := hsettled.unused hpool holdUnused
    rw [hrxq]
    exact ⟨hclosed hstate, hholds⟩
  · exact fun hstate ↦ hsettled.opening (hopening hstate)
  · intro hnew
    dsimp only
    rcases hflowing hnew with ⟨hold, hack⟩ | ⟨hstate, hack⟩
    · rw [if_neg fun hboth ↦ hboth.2 hold, hack]
      exact hsettled.counted hold
    · have hnone : ¬Flowing old := fun hold ↦ hold.2 hstate
      have hacked := hsettled.opening hstate
      rw [if_pos ⟨hnew, hnone⟩]
      simp only [Bool.false_eq_true, if_false, hacked, List.length_nil, Nat.add_zero, hack]

/-- The number of a connection to which something is added. -/
theorem Account.after_false (account : Account) (old new : Socket) (taken given : List UInt8) :
    (account.after old new false taken given).epoch = account.epoch ∧
      (account.after old new false taken given).acked account.epoch =
        account.acked account.epoch ++ taken ∧
      (account.after old new false taken given).returned account.epoch =
        account.returned account.epoch ++ given ∧
      ∀ number, number ≠ account.epoch →
        (account.after old new false taken given).acked number = account.acked number ∧
          (account.after old new false taken given).returned number = account.returned number := by
  refine ⟨rfl, Function.update_self .., Function.update_self .., fun number hnumber ↦ ⟨?_, ?_⟩⟩
  · exact Function.update_of_ne hnumber _ _
  · exact Function.update_of_ne hnumber _ _

section

variable (hsettled : Settled id old account)

include hsettled

/-- What is added to the account of the current connection leaves the other ones alone. -/
theorem Settled.added (taken given : List UInt8)
    (hcurrent : ∃ packets, new.rxq.Holds rxqCapacity packets ∧
      account.acked account.epoch ++ taken =
        account.returned account.epoch ++ given ++ packets.flatMap RxPacket.payload)
    (hunused : 0 < id → new.inUse = false →
      new.state = .closed ∧ new.rxq.Holds rxqCapacity [])
    (hopening : new.state = .synSent → account.acked account.epoch ++ taken = [])
    (hcounted : Flowing new → Flowing old ∧
      new.ack = u32 (account.first + (account.acked account.epoch ++ taken).length)) :
    Settled id new (account.after old new false taken given) := by
  obtain ⟨hepoch, hacked, hreturned, hother⟩ := account.after_false old new taken given
  constructor
  · intro number hnumber
    rw [hepoch] at hnumber
    rw [(hother number hnumber.ne).1, (hother number hnumber.ne).2]
    exact hsettled.past number hnumber
  · intro number hnumber
    rw [hepoch] at hnumber
    rw [(hother number hnumber.ne').1, (hother number hnumber.ne').2]
    exact hsettled.future number hnumber
  · rw [hepoch, hacked, hreturned]
    exact hcurrent
  · exact hunused
  · rw [hepoch, hacked]
    exact hopening
  · intro hnew
    obtain ⟨hold, hack⟩ := hcounted hnew
    have hfirst : (account.after old new false taken given).first = account.first :=
      if_neg fun hboth ↦ hboth.2 hold
    rw [hepoch, hacked, hfirst, hack]

/-- A payload is acknowledged when it is put into the queue. -/
theorem Settled.take (packet : RxPacket) (hold : Flowing old)
    (hrxq : old.rxq.enqueue rxqCapacity packet = some new.rxq) (hused : new.inUse = old.inUse)
    (hopening : new.state ≠ .synSent)
    (hflowing : Flowing new → new.ack = u32 (old.ack + packet.payload.length)) :
    Settled id new (account.after old new false packet.payload []) := by
  obtain ⟨packets, hholds, hacked⟩ := hsettled.current
  refine hsettled.added packet.payload [] ⟨packets ++ [packet], ?_, ?_⟩ ?_ ?_ ?_
  · have hroom : packets.length < rxqCapacity := by
      by_contra hfull
      rw [hholds.enqueue_full (le_antisymm hholds.length_le (not_lt.mp hfull))] at hrxq
      exact Option.some_ne_none _ hrxq.symm
    obtain ⟨filled, henqueue, hfilled⟩ := hholds.enqueue hroom packet
    rw [henqueue] at hrxq
    rw [← Option.some.inj hrxq]
    exact hfilled
  · rw [hacked, List.append_nil, List.flatMap_append, List.flatMap_singleton, List.append_assoc]
  · intro hpool hunused
    rw [hused] at hunused
    exact absurd (hsettled.unused hpool hunused).1 hold.1
  · exact fun hstate ↦ absurd hstate hopening
  · intro hnew
    refine ⟨hold, ?_⟩
    rw [hflowing hnew, hsettled.counted hold, u32_u32_add, List.length_append, Nat.add_assoc]

/-- A packet is returned when it is taken out of the queue. -/
theorem Settled.give (packet : RxPacket)
    (hrxq : old.rxq.dequeue rxqCapacity = some (packet, new.rxq)) (hused : new.inUse = old.inUse)
    (hstate : new.state = old.state) (hack : new.ack = old.ack) :
    Settled id new (account.after old new false [] packet.payload) := by
  obtain ⟨packets, hholds, hacked⟩ := hsettled.current
  have hflowing : Flowing new ↔ Flowing old := by
    unfold Flowing
    rw [hstate]
  cases packets with
  | nil =>
    rw [hholds.dequeue_nil] at hrxq
    exact absurd hrxq (Option.some_ne_none _).symm
  | cons head rest =>
    obtain ⟨remaining, hdequeue, hrest⟩ := hholds.dequeue_cons
    rw [hdequeue] at hrxq
    obtain ⟨rfl, hremaining⟩ := Prod.mk.inj (Option.some.inj hrxq)
    refine hsettled.added [] _ ⟨rest, ?_, ?_⟩ ?_ ?_ ?_
    · rw [← hremaining]
      exact hrest
    · rw [hacked, List.append_nil, List.flatMap_cons, List.append_assoc]
    · intro hpool hunused
      rw [hused] at hunused
      have hempty := (hsettled.unused hpool hunused).2
      rw [hempty.dequeue_nil] at hdequeue
      exact absurd hdequeue (Option.some_ne_none _).symm
    · intro hnew
      rw [List.append_nil]
      exact hsettled.opening (hstate ▸ hnew)
    · intro hnew
      rw [List.append_nil, hack]
      exact ⟨hflowing.mp hnew, hsettled.counted (hflowing.mp hnew)⟩

/-- Whatever may happen to a socket, its account goes on agreeing with it. -/
theorem Settled.after {renewed : Bool} {taken given : List UInt8}
    (hfate : Fate id old new renewed taken given) :
    Settled id new (account.after old new renewed taken given) := by
  cases hfate with
  | keep hrxq hused hopening hflowing => exact hsettled.keep hrxq hused hopening hflowing
  | take packet hold hrxq hused hopening hflowing =>
    exact hsettled.take packet hold hrxq hused hopening hflowing
  | give packet hrxq hused hstate hack => exact hsettled.give packet hrxq hused hstate hack
  | reset hempty hrxq hclosed =>
    obtain ⟨_, hacked⟩ := hsettled.empty hempty
    refine hsettled.added [] [] ⟨[], hrxq, ?_⟩ (fun _ _ ↦ ⟨hclosed, hrxq⟩) ?_ ?_
    · rw [hacked, List.append_nil, List.flatMap_nil, List.append_nil]
    · intro hstate
      rw [hclosed] at hstate
      exact TcpState.noConfusion hstate
    · exact fun hnew ↦ absurd hclosed hnew.1
  | renew hempty hrxq hused hstate =>
    obtain ⟨_, hacked⟩ := hsettled.empty hempty
    obtain ⟨hnextAcked, hnextReturned⟩ := hsettled.future _ (Nat.lt_succ_self account.epoch)
    rw [Account.after_nil]
    constructor
    · intro number hnumber
      rcases Nat.lt_succ_iff_lt_or_eq.mp hnumber with hlow | rfl
      · exact hsettled.past number hlow
      · exact hacked
    · exact fun number hnumber ↦ hsettled.future number ((Nat.lt_succ_self _).trans hnumber)
    · refine ⟨[], hrxq, hnextAcked.trans ?_⟩
      rw [List.flatMap_nil, List.append_nil]
      exact hnextReturned.symm
    · intro hpool hunused
      rw [hused hpool] at hunused
      exact absurd hunused.symm Bool.false_ne_true
    · exact fun _ ↦ hnextAcked
    · intro hnew
      rcases hstate with hsent | ⟨hnone, hack⟩
      · exact absurd hsent hnew.2
      · dsimp only
        rw [if_pos ⟨hnew, hnone⟩, if_pos rfl, hnextAcked, List.length_nil, Nat.add_zero, hack]

end

/-! ### What happens to one socket -/

theorem cleared_holds : socketMetaClear.rxq.Holds rxqCapacity [] :=
  RingBuffer.holds_nil (by decide) rfl fun _ _ ↦ rfl

theorem Fate.same (id : ℕ) (socket : Socket) : Fate id socket socket false [] [] :=
  .keep rfl (fun _ hunused ↦ ⟨hunused, fun hclosed ↦ hclosed⟩) (fun hstate ↦ hstate)
    fun hflowing ↦ Or.inl ⟨hflowing, rfl⟩

/-- A socket keeps its queue and goes on, ends, or starts to end. -/
theorem Fate.of_sameStream (hsame : SameStream old new)
    (hstate : new.state = old.state ∨ new.state = .closed ∨
      (old.state = .established ∧ new.state = .finWait)) : Fate id old new false [] [] := by
  refine .keep hsame.rxq (fun _ hunused ↦ ⟨hsame.inUse ▸ hunused, fun hclosed ↦ ?_⟩)
    (fun hopening ↦ ?_) fun hflowing ↦ Or.inl ⟨?_, hsame.ack⟩
  · rcases hstate with hkept | hends | ⟨hestablished, _⟩
    · rw [hkept, hclosed]
    · exact hends
    · rw [hestablished] at hclosed
      exact TcpState.noConfusion hclosed
  · rcases hstate with hkept | hends | ⟨_, hwaits⟩
    · rw [← hkept, hopening]
    · rw [hends] at hopening
      exact TcpState.noConfusion hopening
    · rw [hwaits] at hopening
      exact TcpState.noConfusion hopening
  · unfold Flowing at hflowing ⊢
    rcases hstate with hkept | hends | ⟨hestablished, _⟩
    · rwa [hkept] at hflowing
    · exact absurd hends hflowing.1
    · simp [hestablished]

theorem Fate.cleared (hempty : old.rxq.toList rxqCapacity = []) :
    Fate id old socketMetaClear false [] [] :=
  .reset hempty cleared_holds rfl

theorem Fate.listens (endpoint : Endpoint)
    (hempty : endpoint.socket.rxq.toList rxqCapacity = []) :
    Fate id endpoint.socket endpoint.listen.socket false [] [] := by
  refine .reset hempty (RingBuffer.holds_nil (Nat.zero_lt_succ 7) rfl fun index hindex ↦ ?_) rfl
  exact congrArg Slot.valid (if_pos hindex)

/-- The socket of an active open has an empty queue. -/
theorem Opening.socket_holds (opening : Opening) :
    opening.socket.1.rxq.Holds rxqCapacity [] ∧ opening.socket.1.state = .synSent ∧
      opening.socket.1.inUse = true := by
  obtain ⟨hsame, hstate⟩ := sameStream_socketRetxArm opening.timer
    (socketRetxCancel { socketMetaClear with
      inUse := true, localIp := opening.localIp
      localPort := chosenPort opening.ticks opening.localPort, remoteIp := opening.dstIp
      remotePort := opening.dstPort, seq := opening.ticks, ack := 0, state := .synSent })
    flagSyn opening.ticks 0 []
  refine ⟨?_, hstate, hsame.inUse⟩
  have hrxq : opening.socket.1.rxq = socketMetaClear.rxq := hsame.rxq
  rw [hrxq]
  exact cleared_holds

/-- The socket that answers a SYN. -/
theorem Fate.answers (link timer : ℤ) (ticks : ℕ) (hempty : old.rxq.toList rxqCapacity = [])
    (hnone : ¬Flowing old) {socket : Socket} (hsocket : socket.rxq.Holds rxqCapacity [])
    (hused : 0 < id → socket.inUse = true) :
    Fate id old (answerSyn link timer ticks socket segment).1 true [] [] := by
  obtain ⟨hsame, hstate⟩ := sameStream_socketRetxArm timer
    { socket with
      localIp := segment.dstIp, remoteIp := segment.srcIp, localPort := segment.dstPort
      remotePort := segment.srcPort, seq := ticks, ack := u32 (segment.seq + 1)
      state := .synReceived }
    (flagSyn ||| flagAck) ticks (u32 (segment.seq + 1)) []
  refine .renew hempty ?_ (fun hpool ↦ hsame.inUse.trans (hused hpool)) (Or.inr ⟨hnone, ?_⟩)
  · have hrxq : (answerSyn link timer ticks socket segment).1.rxq = socket.rxq := hsame.rxq
    rw [hrxq]
    exact hsocket
  · have hack : (answerSyn link timer ticks socket segment).1.ack = u32 (segment.seq + 1) :=
      hsame.ack
    rw [hack]
    exact u32_of_lt _ (u32_lt _)

/-- A FIN leaves the queue alone, and the acknowledgement number where the connection goes on. -/
theorem receiveFin_fate (link : ℤ) (socket : Socket) (segment : Tcp.Segment) :
    (receiveFin link socket segment).1.rxq = socket.rxq ∧
      (receiveFin link socket segment).1.inUse = socket.inUse ∧
      ((receiveFin link socket segment).1.state = .closed ∨
        ((receiveFin link socket segment).1.state = socket.state ∧
          (receiveFin link socket segment).1.ack = socket.ack)) := by
  unfold receiveFin
  split_ifs
  · exact ⟨rfl, rfl, Or.inl rfl⟩
  · exact ⟨rfl, rfl, Or.inr ⟨rfl, rfl⟩⟩
  · exact ⟨rfl, rfl, Or.inl rfl⟩
  · exact ⟨rfl, rfl, Or.inr ⟨rfl, rfl⟩⟩

/-- A segment for an established connection is taken, or changes at most the state. -/
theorem Fate.flows (link : ℤ) (hreset : hasFlag segment.flags flagRst = false)
    (hstate : old.state = .established ∨ old.state = .finWait) :
    Fate id old (receiveSegment link old segment).1 false
      (if Takes old segment then segment.payload else []) [] := by
  have hflowing : Flowing old := by
    unfold Flowing
    rcases hstate with hold | hold <;> simp [hold]
  generalize hbefore : (if hasFlag segment.flags flagAck = true then
    socketRetxAckReceived old segment.ack else old) = before
  have hsame : SameStream old before ∧ before.state = old.state := by
    rw [← hbefore]
    split_ifs
    · exact sameStream_socketRetxAckReceived old segment.ack
    · exact ⟨⟨rfl, rfl, rfl⟩, rfl⟩
  have hreceived : (receiveSegment link old segment).1 =
      (receiveFin link (receivePayload link before segment).1 segment).1 := by
    unfold receiveSegment
    rw [if_neg (by rw [hreset]; decide), ← hbefore]
    rcases hstate with hold | hold <;> rw [hold]
  have hfits : Fits before segment ↔ Takes old segment := by
    unfold Takes Fits
    rw [hsame.1.ack, hsame.1.rxq]
    exact ⟨fun hfits ↦ ⟨hreset, hstate, hfits⟩, fun htakes ↦ htakes.2.2⟩
  have hnotOpening : before.state ≠ .synSent := by
    rw [hsame.2]
    exact hflowing.2
  rw [hreceived]
  obtain ⟨hfinRxq, hfinUsed, hfinState⟩ :=
    receiveFin_fate link (receivePayload link before segment).1 segment
  rcases receivePayload_cases link before segment with
    ⟨hrefused, hpayload⟩ | ⟨htaken, rxq, packet, hpacket, henqueue, hpayload⟩
  · rw [if_neg fun htakes ↦ hrefused (hfits.mpr htakes)]
    rw [hpayload] at hfinRxq hfinUsed hfinState ⊢
    refine .keep (hfinRxq.trans hsame.1.rxq) (fun _ hunused ↦ ⟨?_, fun hclosed ↦ ?_⟩)
      (fun hopening ↦ ?_) fun hnew ↦ Or.inl ⟨hflowing, ?_⟩
    · rw [← hsame.1.inUse, ← hfinUsed, hunused]
    · exact absurd hclosed hflowing.1
    · rcases hfinState with hclosed | ⟨hkept, _⟩
      · rw [hclosed] at hopening
        exact TcpState.noConfusion hopening
      · rw [← hsame.2, ← hkept, hopening]
    · rcases hfinState with hclosed | ⟨_, hack⟩
      · exact absurd hclosed hnew.1
      · rw [hack, hsame.1.ack]
  · rw [if_pos (hfits.mp htaken), ← hpacket]
    rw [hpayload] at hfinRxq hfinUsed hfinState ⊢
    refine .take packet hflowing ?_ (hfinUsed.trans hsame.1.inUse) (fun hopening ↦ ?_) fun hnew ↦ ?_
    · rw [hfinRxq, ← hsame.1.rxq]
      exact henqueue
    · rcases hfinState with hclosed | ⟨hkept, _⟩
      · rw [hclosed] at hopening
        exact TcpState.noConfusion hopening
      · rw [hkept] at hopening
        exact hnotOpening hopening
    · rcases hfinState with hclosed | ⟨_, hack⟩
      · exact absurd hclosed hnew.1
      · rw [hack, hpacket, hsame.1.ack]

/-- A segment is received for a connection. -/
theorem Fate.receives (link : ℤ) (old : Socket) (segment : Tcp.Segment) :
    Fate id old (receiveSegment link old segment).1 false
      (if Takes old segment then segment.payload else []) [] := by
  by_cases hreset : hasFlag segment.flags flagRst = true
  · have hnone : ¬Takes old segment := fun htakes ↦ by
      rw [htakes.1] at hreset
      exact Bool.false_ne_true hreset
    rw [if_neg hnone]
    unfold receiveSegment
    rw [if_pos hreset]
    exact .of_sameStream ⟨rfl, rfl, rfl⟩ (Or.inr (Or.inl rfl))
  by_cases hstate : old.state = .established ∨ old.state = .finWait
  · exact .flows link (Bool.eq_false_iff.mpr hreset) hstate
  rw [if_neg fun htakes : Takes old segment ↦ hstate htakes.2.1]
  unfold receiveSegment
  rw [if_neg hreset]
  cases hold : old.state with
  | closed => exact .same id old
  | synSent =>
    dsimp only
    split_ifs
    · refine .keep rfl (fun _ hunused ↦ ⟨hunused, fun hclosed ↦ ?_⟩) (fun hopening ↦ ?_)
        fun _ ↦ Or.inr ⟨hold, u32_of_lt _ (u32_lt _)⟩
      · rw [hold] at hclosed
        exact TcpState.noConfusion hclosed
      · exact TcpState.noConfusion hopening
    · exact .same id old
  | synReceived =>
    dsimp only
    split_ifs
    · refine .keep rfl (fun _ hunused ↦ ⟨hunused, fun hclosed ↦ ?_⟩) (fun hopening ↦ ?_)
        fun _ ↦ Or.inl ⟨by simp [Flowing, hold], rfl⟩
      · rw [hold] at hclosed
        exact TcpState.noConfusion hclosed
      · exact TcpState.noConfusion hopening
    · exact .same id old
  | established => exact absurd (Or.inl hold) hstate
  | finWait => exact absurd (Or.inr hold) hstate

/-- Data are sent. -/
theorem Fate.sends (link timer : ℤ) (old : Socket) (payload : List UInt8) :
    Fate id old (socketSendImpl link timer old payload).2.1 false [] [] := by
  obtain ⟨hsame, hstate⟩ :=
    sameStream_socketRetxArm timer old (flagPsh ||| flagAck) old.seq old.ack payload
  unfold socketSendImpl
  split_ifs
  · exact .same id old
  · exact .same id old
  · exact .same id old
  · exact .same id old
  · dsimp only
    split_ifs
    · exact .of_sameStream hsame (Or.inl hstate)
    · exact .of_sameStream ⟨hsame.ack, hsame.rxq, hsame.inUse⟩ (Or.inl hstate)

/-- `net_tcp_send` sends its payload and its FIN. -/
theorem Fate.finishes (id : ℕ) (link timer finLink finTimer : ℤ) (old : Socket)
    (payload : List UInt8)
    (hestablished : old.state = .established) :
    Fate id old (sendPayload link timer old payload).2.1 false [] [] ∧
      Fate id old (sendFin finLink finTimer (sendPayload link timer old payload).2.1).2.1
        false [] [] := by
  have hpayload : SameStream old (sendPayload link timer old payload).2.1 ∧
      (sendPayload link timer old payload).2.1.state = old.state := by
    obtain ⟨hsame, hstate⟩ :=
      sameStream_socketRetxArm timer old (flagPsh ||| flagAck) old.seq old.ack payload
    unfold sendPayload
    split_ifs
    · exact ⟨⟨rfl, rfl, rfl⟩, rfl⟩
    · dsimp only
      split_ifs
      · exact ⟨hsame, hstate⟩
      · exact ⟨⟨hsame.ack, hsame.rxq, hsame.inUse⟩, hstate⟩
  generalize (sendPayload link timer old payload).2.1 = middle at hpayload ⊢
  obtain ⟨hsent, hstate⟩ := hpayload
  refine ⟨.of_sameStream hsent (Or.inl hstate), ?_⟩
  obtain ⟨hsame, hkept⟩ :=
    sameStream_socketRetxArm finTimer middle (flagFin ||| flagAck) middle.seq middle.ack []
  have hack := hsame.ack.trans hsent.ack
  have hrxq := hsame.rxq.trans hsent.rxq
  have hused := hsame.inUse.trans hsent.inUse
  unfold sendFin
  dsimp only
  split_ifs
  · exact .of_sameStream ⟨hack, hrxq, hused⟩ (Or.inl (hkept.trans hstate))
  · exact .of_sameStream ⟨hack, hrxq, hused⟩ (Or.inr (Or.inr ⟨hestablished, rfl⟩))

/-! ### What happens to the table -/

/-- The closed sockets of a backlog before its first established one. -/
def closedBefore (table : Table) (backlog : List ℕ) : List ℕ :=
  (backlog.takeWhile fun cand ↦
    !(decide (cand < maxSockets) && (table cand).socket.state == .established)).filter
      fun cand ↦ (table cand).socket.state == .closed

/-- The sockets whose queue an event empties or leaves to a new connection. -/
def Event.discards (table : Table) : Event → List ℕ
  | .accept given =>
    match acceptingId table given with
    | none => []
    | some listener => closedBefore table (table listener).acceptBacklog
  | .close _ _ given =>
    match anyId table given with
    | none => []
    | some id =>
      if (table id).socket.state = .established ∨ id = legacySocketId then []
      else id :: (table id).acceptBacklog
  | .listen given =>
    match usedId table given with
    | none => []
    | some id => if (table id).listenPort = 0 then [] else [id]
  | .legacyListen localPort => if localPort = 0 then [] else [legacySocketId]
  | event => (event.renews table).toList

/-- No event empties a queue with data or leaves one to a new connection. -/
def Sparing (ledger : Ledger) (event : Event) : Prop :=
  ∀ id ∈ event.discards ledger.table,
    ((ledger.table id).socket.rxq.toList rxqCapacity).isEmpty = true

instance (ledger : Ledger) (event : Event) : Decidable (Sparing ledger event) :=
  inferInstanceAs (Decidable (∀ id ∈ event.discards ledger.table, _))

/-- One endpoint changes, and nothing is started, taken or given. -/
theorem fate_update {endpoint : Endpoint} (index : ℕ)
    (hfate : Fate index (table index).socket endpoint.socket false [] []) (id : ℕ) :
    Fate id (table id).socket (Function.update table index endpoint id).socket false [] [] := by
  by_cases hid : id = index
  · subst hid
    rw [Function.update_self]
    exact hfate
  · rw [Function.update_of_ne hid]
    exact .same id _

/-- One endpoint gets a new connection. -/
theorem fate_opens {endpoint : Endpoint} (index : ℕ)
    (hfate : Fate index (table index).socket endpoint.socket true [] []) (id : ℕ) :
    Fate id (table id).socket (Function.update table index endpoint id).socket
      (some index == some id) [] [] := by
  by_cases hid : id = index
  · subst hid
    rw [Function.update_self, beq_self_eq_true]
    exact hfate
  · have hne : (some index == some id) = false := by
      simp [Ne.symm hid]
    rw [Function.update_of_ne hid, hne]
    exact .same id _

/-- An entry of a backlog that is not established hides none of the entries behind it. -/
theorem mem_closedBefore_cons {cand : ℕ} {rest : List ℕ}
    (hcand : cand < maxSockets → (table cand).socket.state ≠ .established) :
    id ∈ closedBefore table (cand :: rest) ↔
      (id = cand ∧ (table cand).socket.state = .closed) ∨ id ∈ closedBefore table rest := by
  have hpasses : (!(decide (cand < maxSockets) &&
      (table cand).socket.state == .established)) = true := by
    by_cases hrange : cand < maxSockets
    · simp [hcand hrange]
    · simp [hrange]
  unfold closedBefore
  rw [List.takeWhile_cons, if_pos hpasses, List.filter_cons]
  by_cases hclosed : (table cand).socket.state = .closed
  · rw [if_pos (by rw [hclosed]; rfl), List.mem_cons]
    simp [hclosed]
  · rw [if_neg (by simpa using hclosed)]
    simp [hclosed]

/-- Taking an entry out of a backlog changes no socket. -/
theorem dropEntry_socket (table : Table) (listener k id : ℕ) :
    (dropEntry table listener k id).socket = (table id).socket := by
  unfold dropEntry
  rw [setBacklog_apply]
  split_ifs with hid
  · rw [hid]
  · rfl

theorem metaClear_socket (table : Table) (cand id : ℕ) :
    (tcpSocketMetaClear table cand id).socket =
      if id = cand ∧ cand < maxSockets then socketMetaClear else (table id).socket := by
  unfold tcpSocketMetaClear
  by_cases hrange : cand < maxSockets
  · simp only [hrange, if_true, and_true, Function.update_apply]
    split_ifs
    · rfl
    · rfl
  · simp [hrange]

/-- What is left of a backlog when an entry is taken out whose socket was cleared. -/
theorem drop_eraseIdx_metaClear (table : Table) (cand listener : ℕ) {k : ℕ}
    (hk : k < (table listener).acceptBacklog.length) :
    ((tcpSocketMetaClear table cand listener).acceptBacklog.eraseIdx k).drop k =
        (table listener).acceptBacklog.drop (k + 1) ∨
      ((tcpSocketMetaClear table cand listener).acceptBacklog.eraseIdx k).drop k = [] := by
  have hbacklog : (tcpSocketMetaClear table cand listener).acceptBacklog =
        (table listener).acceptBacklog ∨
      (tcpSocketMetaClear table cand listener).acceptBacklog = [] := by
    unfold tcpSocketMetaClear
    split_ifs
    · rw [Function.update_apply]
      split_ifs
      · exact Or.inr rfl
      · exact Or.inl rfl
    · exact Or.inl rfl
  rcases hbacklog with hsame | hempty
  · left
    rw [hsame, List.eraseIdx_eq_take_drop_succ, List.drop_left' (List.length_take_of_le hk.le)]
  · right
    rw [hempty, List.eraseIdx_nil, List.drop_nil]

/-- The scan of a backlog clears sockets that are closed and stand before the first established
one. -/
theorem acceptScan_socket (listener steps k : ℕ) (table : Table) (id : ℕ) :
    ((acceptScan listener steps k table).2 id).socket = (table id).socket ∨
      (((acceptScan listener steps k table).2 id).socket = socketMetaClear ∧
        id ∈ closedBefore table ((table listener).acceptBacklog.drop k)) := by
  induction steps generalizing k table with
  | zero => exact Or.inl rfl
  | succ steps ih =>
    unfold acceptScan
    split
    · exact Or.inl rfl
    · rename_i cand hcand
      obtain ⟨hk, hentry⟩ := List.getElem?_eq_some_iff.mp hcand
      have hdrop : (table listener).acceptBacklog.drop k =
          cand :: (table listener).acceptBacklog.drop (k + 1) := by
        rw [List.drop_eq_getElem_cons hk, hentry]
      rw [hdrop]
      split
      · exact Or.inl (dropEntry_socket table listener k id)
      · rename_i hstate
        have hclosed (hrange : cand < maxSockets) : (table cand).socket.state = .closed := by
          rwa [if_pos hrange] at hstate
        have hopen (hrange : cand < maxSockets) : (table cand).socket.state ≠ .established := by
          rw [hclosed hrange]
          exact TcpState.noConfusion
        generalize hmid : dropEntry (tcpSocketMetaClear table cand) listener k = mid
        have hsocket (other : ℕ) : (mid other).socket =
            if other = cand ∧ cand < maxSockets then socketMetaClear else (table other).socket := by
          rw [← hmid, dropEntry_socket]
          exact metaClear_socket table cand other
        have hbacklog : (mid listener).acceptBacklog.drop k =
              (table listener).acceptBacklog.drop (k + 1) ∨
            (mid listener).acceptBacklog.drop k = [] := by
          rw [← hmid, dropEntry, setBacklog_apply, if_pos rfl]
          exact drop_eraseIdx_metaClear table cand listener hk
        have hsame (backlog : List ℕ) : closedBefore mid backlog = closedBefore table backlog := by
          have hstates (other : ℕ) : (mid other).socket.state = (table other).socket.state := by
            rw [hsocket]
            split_ifs with hother
            · rw [hother.1]
              exact (hclosed hother.2).symm
            · rfl
          simp only [closedBefore, hstates]
        rcases ih k mid with hkept | ⟨hcleared, hmem⟩
        · rw [hkept, hsocket]
          split_ifs with hself
          · refine Or.inr ⟨rfl, (mem_closedBefore_cons hopen).mpr (Or.inl ⟨hself.1, ?_⟩)⟩
            exact hclosed hself.2
          · exact Or.inl rfl
        · refine Or.inr ⟨hcleared, (mem_closedBefore_cons hopen).mpr (Or.inr ?_)⟩
          rw [hsame] at hmem
          rcases hbacklog with hrest | hnone
          · rwa [hrest] at hmem
          · rw [hnone] at hmem
            exact absurd hmem List.not_mem_nil
      all_goals
        rename_i hstate
        rcases ih (k + 1) table with hkept | ⟨hcleared, hmem⟩
        · exact Or.inl hkept
        · refine Or.inr ⟨hcleared, (mem_closedBefore_cons fun hrange ↦ ?_).mpr (Or.inr hmem)⟩
          rw [if_pos hrange] at hstate
          rw [hstate]
          exact TcpState.noConfusion

/-- Clearing the candidates of a listener changes no other socket. -/
theorem reclaim_socket (listener : ℕ) (backlog : List ℕ) (table : Table) (id : ℕ) :
    (reclaim listener backlog table id).socket = (table id).socket ∨
      ((reclaim listener backlog table id).socket = socketMetaClear ∧ id ∈ backlog) := by
  induction backlog generalizing table with
  | nil => exact Or.inl rfl
  | cons cand rest ih =>
    have hcand : (tcpSocketMetaClear (tcpSocketRetxCancel table cand) cand id).socket =
          (table id).socket ∨
        ((tcpSocketMetaClear (tcpSocketRetxCancel table cand) cand id).socket = socketMetaClear ∧
          id = cand) := by
      rw [metaClear_socket]
      split_ifs with hid
      · exact Or.inr ⟨rfl, hid.1⟩
      · left
        unfold tcpSocketRetxCancel
        split_ifs with hrange
        · rw [setSocket_apply, if_neg fun hsame ↦ hid ⟨hsame, hrange⟩]
        · rfl
    unfold reclaim
    dsimp only
    split_ifs
    · exact hcand.imp_right fun hcleared ↦
        ⟨hcleared.1, by rw [hcleared.2]; exact List.mem_cons_self⟩
    · rcases ih (tcpSocketMetaClear (tcpSocketRetxCancel table cand) cand) with
        hkept | ⟨hcleared, hmem⟩
      · rw [hkept]
        exact hcand.imp_right fun hcleared ↦
          ⟨hcleared.1, by rw [hcleared.2]; exact List.mem_cons_self⟩
      · exact Or.inr ⟨hcleared, List.mem_cons_of_mem _ hmem⟩

theorem fate_close (link timer : ℤ) (table : Table) {index : ℕ} (hindex : index < maxSockets)
    (hspare : ∀ id ∈ (if (table index).socket.state = .established ∨ index = legacySocketId then []
      else index :: (table index).acceptBacklog), (table id).socket.rxq.toList rxqCapacity = [])
    (id : ℕ) : Fate id (table id).socket
      ((tcpSocketCloseImpl link timer table index).1 id).socket false [] [] := by
  unfold tcpSocketCloseImpl
  dsimp only
  by_cases hestablished : (table index).socket.state = .established
  · rw [if_pos hestablished]
    refine fate_update index ?_ id
    obtain ⟨hsame, _⟩ := sameStream_socketRetxArm timer (table index).socket (flagFin ||| flagAck)
      (table index).socket.seq (table index).socket.ack []
    unfold socketCloseImpl
    rw [if_pos hestablished]
    exact .of_sameStream ⟨hsame.ack, hsame.rxq, hsame.inUse⟩ (Or.inr (Or.inr ⟨hestablished, rfl⟩))
  rw [if_neg hestablished]
  by_cases hlegacy : index = legacySocketId
  · rw [if_pos hlegacy]
    refine fate_update index ?_ id
    exact .of_sameStream ⟨rfl, rfl, rfl⟩ (Or.inr (Or.inl rfl))
  rw [if_neg hlegacy]
  rw [if_neg fun hboth ↦ hboth.elim hestablished hlegacy] at hspare
  dsimp only
  rw [metaClear_socket]
  split_ifs with hself
  · refine .cleared ?_
    rw [hself.1]
    exact hspare index List.mem_cons_self
  · have hne : id ≠ index := fun hsame ↦ hself ⟨hsame, hindex⟩
    have hcancel : (tcpSocketRetxCancel table index id).socket = (table id).socket := by
      rw [tcpSocketRetxCancel, if_pos hindex, setSocket_apply, if_neg hne]
    rcases reclaim_socket index (table index).acceptBacklog
      (tcpSocketRetxCancel table index) id with
      hkept | ⟨hcleared, hmem⟩
    · rw [hkept, hcancel]
      exact .same id _
    · rw [hcleared]
      exact .cleared (hspare id (List.mem_cons_of_mem _ hmem))

theorem fate_segment (link timer : ℤ) (ticks : ℕ) (segment : Tcp.Segment)
    (hunused : ∀ id, 0 < id → (table id).socket.inUse = false →
      (table id).socket.state = .closed ∧ (table id).socket.rxq.Holds rxqCapacity [])
    (hspare : ∀ id ∈ Event.renews table (.arrival (.segment link timer ticks segment)),
      (table id).socket.rxq.Holds rxqCapacity [])
    (id : ℕ) : Fate id (table id).socket
      ((pollSegment link timer ticks table segment).1 id).socket
      (Event.renews table (.arrival (.segment link timer ticks segment)) == some id)
      (Event.takes table id (.arrival (.segment link timer ticks segment))) [] := by
  unfold pollSegment
  simp only [Event.renews, Event.takes] at hspare ⊢
  cases hfound : demultiplex table segment with
  | some index =>
    simp only [Option.isSome_some, true_or, if_true, Option.some.injEq]
    by_cases hid : id = index
    · subst hid
      simp only [true_and]
      have hentry :
        (table.setSocket id (receiveSegment link (table id).socket segment).1 id).socket =
          (receiveSegment link (table id).socket segment).1 := by
        rw [setSocket_apply, if_pos rfl]
      rw [hentry]
      exact .receives link _ segment
    · rw [setSocket_apply, if_neg hid, if_neg fun hboth ↦ hid hboth.1.symm]
      exact .same id _
  | none =>
    simp only [hfound, Option.isSome_none, Bool.false_eq_true, false_or, reduceCtorEq, false_and,
      if_false] at hspare ⊢
    split_ifs with hsyn
    · exact .same id _
    rw [if_neg hsyn] at hspare
    cases hpassive : passiveId table segment.dstPort with
    | none => exact .same id _
    | some taken =>
      obtain ⟨index, opened⟩ := taken
      rw [hpassive] at hspare
      have hempty := hspare index rfl
      have hopened : (∀ other, other ≠ index → (opened other).socket = (table other).socket) ∧
          (opened index).socket.rxq.Holds rxqCapacity [] ∧
            (0 < index → (opened index).socket.inUse = true) ∧ ¬Flowing (table index).socket := by
        rcases passiveId_spec hpassive with
          ⟨rfl, rfl, _, hclosed⟩ | ⟨listener, _, hfree, hne, _, rfl⟩
        · exact ⟨fun _ _ ↦ rfl, hempty, fun hlow ↦ absurd hlow (Nat.lt_irrefl _),
            fun hflowing ↦ hflowing.1 hclosed⟩
        · obtain ⟨hlow, _, hfreeUnused⟩ := freeId_spec hfree
          refine ⟨fun other hother ↦ ?_, ?_, fun _ ↦ ?_, fun hflowing ↦ ?_⟩
          · rw [setBacklog_apply]
            split_ifs with hlistener
            · rw [hlistener, Function.update_of_ne hne]
            · rw [Function.update_of_ne hother]
          · rw [setBacklog_apply, if_neg hne.symm, Function.update_self]
            exact cleared_holds
          · rw [setBacklog_apply, if_neg hne.symm, Function.update_self]
            rfl
          · exact hflowing.1 (hunused index hlow hfreeUnused).1
      dsimp only [Option.map_some]
      rw [setSocket_apply]
      by_cases hid : id = index
      · subst hid
        rw [if_pos rfl, beq_self_eq_true]
        exact .answers link timer ticks hempty.toList_eq hopened.2.2.2 hopened.2.1 hopened.2.2.1
      · have hne : (some index == some id) = false := by
          simp [Ne.symm hid]
        rw [if_neg hid, hne, hopened.1 id hid]
        exact .same id _

def Event.Fated (table : Table) (event : Event) : Prop :=
  ∀ id, Fate id (table id).socket (step table event id).socket (event.renews table == some id)
    (event.takes table id) (event.gives table id)

/-- The queues that an event discards are empty. -/
def Event.Spares (table : Table) (event : Event) : Prop :=
  ∀ id ∈ event.discards table, (table id).socket.rxq.Holds rxqCapacity []

-- The lemmas of the single events share these equations.
attribute [local simp] Event.discards Event.renews

theorem fated_openSocket (hunused : ∀ id, 0 < id → (table id).socket.inUse = false →
      (table id).socket.state = .closed ∧ (table id).socket.rxq.Holds rxqCapacity []) :
    Event.Fated table .openSocket := by
  intro id
  simp only [step, netTcpSocketOpen]
  cases hfree : freeId table with
  | none => exact .same id _
  | some index =>
    obtain ⟨hlow, _, hfreeUnused⟩ := freeId_spec hfree
    exact fate_update index (.reset (hunused index hlow hfreeUnused).2.toList_eq cleared_holds rfl)
      id

theorem fated_bind (given : ℤ) (localPort : ℕ) : Event.Fated table (.bind given localPort) := by
  intro id
  simp only [step, netTcpSocketBind]
  split_ifs
  · exact .same id _
  · exact .same id _
  · split
    · exact .same id _
    · split_ifs
      · exact .same id _
      · refine fate_update _ ?_ id
        exact .same _ _

theorem fated_listen {given : ℤ} (hspare : Event.Spares table (.listen given)) :
    Event.Fated table (.listen given) := by
  intro id
  simp only [Event.Spares, Event.discards] at hspare
  simp only [step, netTcpSocketListen]
  cases hid : usedId table given with
  | none => exact .same id _
  | some index =>
    simp only [hid] at hspare
    dsimp only
    split_ifs at hspare ⊢
    · exact .same id _
    · refine fate_update index ?_ id
      exact .listens (table index) (hspare index List.mem_cons_self).toList_eq

theorem fated_legacyListen {localPort : ℕ} (hspare : Event.Spares table (.legacyListen localPort)) :
    Event.Fated table (.legacyListen localPort) := by
  intro id
  simp only [Event.Spares, Event.discards] at hspare
  simp only [step, netTcpListen]
  split_ifs at hspare ⊢
  · exact .same id _
  · refine fate_update legacySocketId ?_ id
    exact .listens (table legacySocketId) (hspare legacySocketId List.mem_cons_self).toList_eq

theorem fated_connect {given : ℤ} {opening : Opening}
    (hspare : Event.Spares table (.connect given opening)) :
    Event.Fated table (.connect given opening) := by
  intro id
  simp only [Event.Spares, Event.discards, Event.renews, Option.mem_toList] at hspare
  simp only [step, Event.renews]
  cases hopens : Event.opens table (.connect given opening) with
  | none => exact .same id _
  | some opened =>
    obtain ⟨index, other⟩ := opened
    obtain ⟨hholds, hstate, hused⟩ := Opening.socket_holds other
    rw [hopens] at hspare
    exact fate_opens index (.renew (hspare index rfl).toList_eq hholds (fun _ ↦ hused)
      (Or.inl hstate)) id

theorem fated_legacyConnect {opening : Opening}
    (hspare : Event.Spares table (.legacyConnect opening)) :
    Event.Fated table (.legacyConnect opening) := by
  intro id
  simp only [Event.Spares, Event.discards, Event.renews, Event.opens, Option.mem_toList] at hspare
  simp only [step, Event.renews, Event.opens]
  obtain ⟨hholds, hstate, hused⟩ := Opening.socket_holds opening
  split_ifs at hspare ⊢
  · exact .same id _
  · exact fate_opens legacySocketId (.renew (hspare legacySocketId rfl).toList_eq hholds
      (fun _ ↦ hused) (Or.inl hstate)) id

theorem fated_sendStart {opening : Opening} (hspare : Event.Spares table (.sendStart opening)) :
    Event.Fated table (.sendStart opening) := by
  intro id
  simp only [Event.Spares, Event.discards, Event.renews, Event.opens, Option.mem_toList] at hspare
  simp only [step, Event.renews, Event.opens]
  obtain ⟨hholds, hstate, _⟩ := Opening.socket_holds opening
  split_ifs at hspare ⊢
  · exact .same id _
  · exact fate_opens legacySocketId (.renew (hspare legacySocketId rfl).toList_eq hholds
      (fun hlow ↦ absurd hlow (Nat.lt_irrefl _)) (Or.inl hstate)) id

theorem fated_sendFinish (link timer finLink finTimer : ℤ) (payload : List UInt8) :
    Event.Fated table (.sendFinish link timer finLink finTimer payload) := by
  intro id
  simp only [step, sendFinish]
  by_cases hestablished : (table legacySocketId).socket.state = .established
  · obtain ⟨hsent, hfinished⟩ :=
      Fate.finishes legacySocketId link timer finLink finTimer (table legacySocketId).socket
        payload hestablished
    rw [if_neg (not_not_intro hestablished)]
    split_ifs
    · exact fate_update legacySocketId hsent id
    · exact fate_update legacySocketId hfinished id
    · exact fate_update legacySocketId hfinished id
  · rw [if_pos hestablished]
    exact .same id _

theorem fated_send (link timer given : ℤ) (payload : List UInt8) :
    Event.Fated table (.send link timer given payload) := by
  intro id
  simp only [step, netTcpSocketSend]
  split
  · exact .same id _
  · exact fate_update _ (.sends link timer _ payload) id

theorem fated_sendCurrent (link timer : ℤ) (payload : List UInt8) :
    Event.Fated table (.sendCurrent link timer payload) := by
  intro id
  exact fate_update legacySocketId (.sends link timer _ payload) id

theorem fated_accept {given : ℤ} (hspare : Event.Spares table (.accept given)) :
    Event.Fated table (.accept given) := by
  intro id
  simp only [Event.Spares, Event.discards] at hspare
  simp only [step]
  cases hid : acceptingId table given with
  | none => exact .same id _
  | some listener =>
    simp only [hid] at hspare
    rcases acceptScan_socket listener (table listener).acceptBacklog.length 0 table id with
      hkept | ⟨hcleared, hmem⟩
    · dsimp only [acceptOnce]
      rw [hkept]
      exact .same id _
    · dsimp only [acceptOnce]
      rw [hcleared]
      exact .cleared (hspare id hmem).toList_eq

theorem fated_recv (given : ℤ) : Event.Fated table (.recv given) := by
  intro id
  simp only [step, Event.gives]
  cases hany : anyId table given with
  | none =>
    rw [if_neg (Option.some_ne_none _).symm]
    exact .same id _
  | some index =>
    dsimp only
    cases hdequeue : dequeue table index with
    | none =>
      have hnothing : (if some index = some id then
          match dequeue table id with
          | none => []
          | some (packet, _) => packet.payload
          else []) = [] := by
        split_ifs with hid
        · rw [← Option.some.inj hid, hdequeue]
        · rfl
      rw [hnothing]
      exact .same id _
    | some taken =>
      obtain ⟨packet, after⟩ := taken
      by_cases hid : id = index
      · subst hid
        rw [if_pos rfl, hdequeue]
        unfold dequeue socketRxqDequeue at hdequeue
        rw [Option.map_map, Option.map_eq_some_iff] at hdequeue
        obtain ⟨⟨first, rxq⟩, hfirst, htaken⟩ := hdequeue
        obtain ⟨rfl, rfl⟩ := Prod.mk.inj htaken
        dsimp only [Function.comp_apply]
        rw [setSocket_apply, if_pos rfl]
        exact .give first hfirst rfl rfl rfl
      · rw [if_neg fun hsame ↦ hid (Option.some.inj hsame).symm]
        unfold dequeue at hdequeue
        obtain ⟨taken, _, htaken⟩ := Option.map_eq_some_iff.mp hdequeue
        dsimp only
        rw [← (Prod.mk.inj htaken).2, setSocket_apply, if_neg hid]
        exact .same id _

theorem fated_close {link timer given : ℤ} (hspare : Event.Spares table (.close link timer given)) :
    Event.Fated table (.close link timer given) := by
  intro id
  simp only [Event.Spares, Event.discards] at hspare
  simp only [step, netTcpSocketCloseId]
  cases hany : anyId table given with
  | none => exact .same id _
  | some index =>
    simp only [hany] at hspare
    have hindex : index < maxSockets := by
      unfold anyId at hany
      split_ifs at hany with hrange
      obtain rfl := Option.some.inj hany
      omega
    exact fate_close link timer table hindex (fun other hother ↦ (hspare other hother).toList_eq) id

theorem fated_arrival {arrival : Arrival}
    (hunused : ∀ id, 0 < id → (table id).socket.inUse = false →
      (table id).socket.state = .closed ∧ (table id).socket.rxq.Holds rxqCapacity [])
    (hspare : Event.Spares table (.arrival arrival)) :
    Event.Fated table (.arrival arrival) := by
  intro id
  cases arrival with
  | segment link timer ticks segment =>
    refine fate_segment link timer ticks segment hunused (fun other hother ↦ hspare other ?_) id
    simp only [Event.discards, Option.mem_toList]
    exact hother
  | timer link index =>
    simp only [step, pollOnce]
    split_ifs
    · obtain ⟨hsame, hstate⟩ := sameStream_retxTimerCb link (table index).socket
      exact fate_update index (.of_sameStream hsame (hstate.imp_right Or.inl)) id
    · exact .same id _

/-- What any event does to any socket. -/
theorem fate_step (event : Event)
    (hunused : ∀ id, 0 < id → (table id).socket.inUse = false →
      (table id).socket.state = .closed ∧ (table id).socket.rxq.Holds rxqCapacity [])
    (hspare : event.Spares table) : event.Fated table := by
  cases event with
  | openSocket => exact fated_openSocket hunused
  | bind _ _ => exact fated_bind _ _
  | listen _ => exact fated_listen hspare
  | legacyListen _ => exact fated_legacyListen hspare
  | connect _ _ => exact fated_connect hspare
  | legacyConnect _ => exact fated_legacyConnect hspare
  | sendStart _ => exact fated_sendStart hspare
  | sendFinish _ _ _ _ _ => exact fated_sendFinish _ _ _ _ _
  | send _ _ _ _ => exact fated_send _ _ _ _
  | sendCurrent _ _ _ => exact fated_sendCurrent _ _ _
  | accept _ => exact fated_accept hspare
  | recv _ => exact fated_recv _
  | close _ _ _ => exact fated_close hspare
  | arrival _ => exact fated_arrival hunused hspare

/-! ### Every run -/

/-- Every account agrees with its socket. -/
def Balanced (ledger : Ledger) : Prop :=
  ∀ id, Settled id (ledger.table id).socket (ledger.account id)

/-- Every event that spares the queues keeps the accounts in agreement. -/
theorem Balanced.step {ledger : Ledger} {event : Event} (hbalanced : Balanced ledger)
    (hspare : Sparing ledger event) : Balanced (ledger.step event) := by
  intro id
  refine (hbalanced id).after (fate_step event (fun other ↦ (hbalanced other).unused)
    (fun other hother ↦ ?_) id)
  exact ((hbalanced other).empty (List.isEmpty_iff.mp (hspare other hother))).1

/-- Nothing has been acknowledged at the start. -/
theorem balanced_start : Balanced Ledger.start := by
  intro id
  constructor
  · exact fun _ hnumber ↦ absurd hnumber (Nat.not_lt_zero _)
  · exact fun _ _ ↦ ⟨rfl, rfl⟩
  · exact ⟨[], cleared_holds, rfl⟩
  · exact fun _ _ ↦ ⟨rfl, cleared_holds⟩
  · exact fun _ ↦ rfl
  · exact fun hflowing ↦ absurd rfl hflowing.1

/-- Calls to receive return what is in the queue of a socket. -/
theorem Balanced.drain {id : ℕ} (hid : id < maxSockets) (packets : List RxPacket) :
    ∀ ledger : Ledger, Balanced ledger →
      (ledger.table id).socket.rxq.Holds rxqCapacity packets →
        (((List.replicate packets.length (Event.recv id)).foldl Ledger.step ledger).account
            id).returned (ledger.account id).epoch =
          (ledger.account id).returned (ledger.account id).epoch ++
            packets.flatMap RxPacket.payload := by
  induction packets with
  | nil => exact fun ledger _ _ ↦ (List.append_nil _).symm
  | cons packet rest ih =>
    intro ledger hbalanced hholds
    obtain ⟨rxq, hdequeue, hrest⟩ := hholds.dequeue_cons
    have hany : anyId ledger.table id = some id := by
      unfold anyId
      rw [if_neg (by omega), Int.toNat_natCast]
      refine if_pos ?_
      by_contra hneither
      obtain ⟨hpool, hunused⟩ := not_or.mp hneither
      have hempty := ((hbalanced id).unused (Nat.pos_of_ne_zero hpool)
        (Bool.eq_false_iff.mpr hunused)).2
      rw [hempty.dequeue_nil] at hdequeue
      exact Option.some_ne_none _ hdequeue.symm
    have htaken : dequeue ledger.table id = some (packet,
        ledger.table.setSocket id { (ledger.table id).socket with rxq := rxq }) := by
      unfold dequeue socketRxqDequeue
      rw [hdequeue]
      rfl
    have htable : (ledger.step (.recv id)).table =
        ledger.table.setSocket id { (ledger.table id).socket with rxq := rxq } := by
      simp only [Ledger.step, Netstack.step, hany, htaken]
    have hgives : Event.gives ledger.table id (.recv id) = packet.payload := by
      simp only [Event.gives, hany, if_true, htaken]
    have haccount : (ledger.step (.recv id)).account id = (ledger.account id).after
        (ledger.table id).socket ((ledger.step (.recv id)).table id).socket false []
          packet.payload := by
      rw [← hgives]
      rfl
    have hnext : ((ledger.step (.recv id)).table id).socket.rxq.Holds rxqCapacity rest := by
      rw [htable, setSocket_apply, if_pos rfl]
      exact hrest
    have hspare : Sparing ledger (.recv id) := fun _ hother ↦ absurd hother List.not_mem_nil
    obtain ⟨hepoch, _, hreturned, _⟩ := (ledger.account id).after_false (ledger.table id).socket
      ((ledger.step (.recv id)).table id).socket [] packet.payload
    have hlater := ih (ledger.step (.recv id)) (hbalanced.step hspare) hnext
    rw [haccount, hepoch, hreturned] at hlater
    rw [List.length_cons, List.replicate_succ, List.foldl_cons, hlater, List.flatMap_cons,
      List.append_assoc]

/-- In every run in which no event empties a queue with data or leaves one to a new connection: the
bytes that were acknowledged for the earlier connections of a socket are those that calls on the
socket have returned for them, the bytes that were acknowledged for the connection it carries are
those that were returned followed by those in its queue, and its acknowledgement number counts them;
and as many calls to receive as there are packets return all of them. -/
theorem acknowledged_delivered {events : List Event} {ledger : Ledger}
    (hrun : Run (Guarded Sparing (Moves Ledger.step)) Ledger.start events ledger) (id : ℕ) :
    (∀ number, number ≠ (ledger.account id).epoch →
      (ledger.account id).acked number = (ledger.account id).returned number) ∧
    (ledger.account id).acked (ledger.account id).epoch =
      (ledger.account id).returned (ledger.account id).epoch ++ queued (ledger.table id).socket ∧
    (Flowing (ledger.table id).socket → (ledger.table id).socket.ack = u32
      ((ledger.account id).first +
        ((ledger.account id).acked (ledger.account id).epoch).length)) ∧
    (id < maxSockets → ∃ calls, (((List.replicate calls (Event.recv id)).foldl Ledger.step
      ledger).account id).returned (ledger.account id).epoch =
        (ledger.account id).acked (ledger.account id).epoch) := by
  have hbalanced : Balanced ledger := by
    refine hrun.guarded_invariant (fun before event after hbefore hguard hmoves ↦ ?_) balanced_start
    rw [← hmoves]
    exact hbefore.step hguard
  have hsettled := hbalanced id
  obtain ⟨packets, hholds, hacked⟩ := hsettled.current
  refine ⟨fun number hnumber ↦ ?_, ?_, hsettled.counted, fun hid ↦ ?_⟩
  · rcases Nat.lt_or_gt_of_ne hnumber with hlow | hhigh
    · exact hsettled.past number hlow
    · rw [(hsettled.future number hhigh).1, (hsettled.future number hhigh).2]
  · unfold queued
    rw [hholds.toList_eq]
    exact hacked
  · refine ⟨packets.length, ?_⟩
    rw [hacked]
    exact Balanced.drain hid packets ledger hbalanced hholds

/-- The first calls of a server, a client that connects, and one byte that it sends. -/
def clientEvents (last : List Event) : List Event :=
  [.openSocket, .bind 1 80, .listen 1] ++ ([(100, 0, flagSyn, []), (101, 8, flagAck, []),
    (101, 8, flagAck ||| flagPsh, [65])].map fun segment ↦
      Event.arrival (.segment 0 1 7
        { srcIp := 2, srcPort := 5000, dstIp := 1, dstPort := 80, seq := segment.1
          ack := segment.2.1, flags := segment.2.2.1, payload := segment.2.2.2 })) ++ last

/-- A byte that is received after the connection was accepted. -/
theorem acknowledged_delivered_accepted :
    let ledger := (clientEvents [.accept 1, .recv 2]).foldl Ledger.step Ledger.start
    (ledger.account 2).acked (ledger.account 2).epoch =
      (ledger.account 2).returned (ledger.account 2).epoch ++ queued (ledger.table 2).socket :=
  (acknowledged_delivered (Run.of_allowed (by decide)) 2).2.1

/-- The byte of a client that closes its connection before it is accepted is acknowledged and
lost. -/
theorem not_acknowledged_delivered :
    ∃ events ledger, Run (Moves Ledger.step) Ledger.start events ledger ∧
      (ledger.account 2).epoch = 1 ∧ (ledger.account 2).acked 1 = [65] ∧
        (ledger.account 2).returned 1 = [] ∧ queued (ledger.table 2).socket = [] := by
  refine ⟨_, _, Run.of_foldl Ledger.step Ledger.start (clientEvents
    [.arrival (.segment 0 1 7
      { srcIp := 2, srcPort := 5000, dstIp := 1, dstPort := 80, seq := 102, ack := 8
        flags := flagAck ||| flagFin, payload := [] }), .accept 1]), ?_, ?_, ?_, ?_⟩
  all_goals decide +kernel

end EynOS.Network.Netstack
