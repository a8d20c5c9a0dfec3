import EynOS.Foundation.SlotArray
import EynOS.Network.Frame

/-!
# Queues of received datagrams

The UDP half of `netstack.c`: a datagram that `net_poll` accepts goes into the receive ring of the
socket that is bound to its port, or else into an array of slots that all other ports share, and is
cut off at `NET_UDP_MAX_PAYLOAD`. `net_udp_recv_socket` takes the datagram at the head of a ring,
`net_udp_recv` the first one in the array that is for its port.

`Fifo` is what the queues are for: every socket and every port has its datagrams returned in the
order in which they came, and only a full queue drops one.

Statistics, the checks that the network is initialized, and the result codes are left out.
-/

namespace EynOS.Network.Udp

open Foundation

/-- `NET_UDP_MAX_PAYLOAD`. -/
def maxPayload : ℕ := 512

def maxSockets : ℕ := 8

def socketRxqSize : ℕ := 4

/-- The number of slots that unbound ports share. -/
def udpRxqSize : ℕ := 8

/-! ### The queues -/

structure UdpSocket where
  bound : Bool
  port : ℕ
  rxq : RingBuffer Datagram

/-- The sockets and the shared slots. -/
structure Queues where
  sockets : ℕ → UdpSocket
  udpRxq : List (Slot Datagram)

def noDatagram : Datagram where
  srcIp := ⟨0, 0, 0, 0⟩
  srcPort := 0
  dstIp := ⟨0, 0, 0, 0⟩
  dstPort := 0
  payload := []

def emptyRing : RingBuffer Datagram where
  slot := fun _ ↦ { valid := false, packet := noDatagram }
  head := 0
  tail := 0

/-- What `net_init` starts with. -/
def initial : Queues where
  sockets := fun _ ↦ { bound := false, port := 0, rxq := emptyRing }
  udpRxq := List.replicate udpRxqSize { valid := false, packet := noDatagram }

def boundTo (bound : ℕ → Bool) (port : ℕ → ℕ) (wanted : ℕ) : Option ℕ :=
  (List.range maxSockets).find? fun id ↦ bound id ∧ port id = wanted

def udpRxqEnqueue (queues : Queues) (datagram : Datagram) : Queues :=
  let datagram := { datagram with payload := datagram.payload.take maxPayload }
  match boundTo (fun id ↦ (queues.sockets id).bound) (fun id ↦ (queues.sockets id).port)
    datagram.dstPort with
  | some id =>
    match (queues.sockets id).rxq.enqueue socketRxqSize datagram with
    | some rxq =>
      { queues with
        sockets := Function.update queues.sockets id { queues.sockets id with rxq := rxq } }
    | none => queues
  | none =>
    match SlotArray.fillFirst datagram queues.udpRxq with
    | some udpRxq => { queues with udpRxq := udpRxq }
    | none => queues

/-- What `net_poll` does to the queues with a frame. -/
def netPoll (localIp : Ipv4Address) (frame : ℕ → UInt8) (len : ℕ) (queues : Queues) : Queues :=
  match (receiveFrame localIp frame len).outcome with
  | .ok { content := .udp datagram, .. } => udpRxqEnqueue queues datagram
  | _ => queues

def netUdpBind (queues : Queues) (port : ℕ) : Queues :=
  if port = 0 then queues
  else if (boundTo (fun id ↦ (queues.sockets id).bound) (fun id ↦ (queues.sockets id).port)
    port).isSome then queues
  else
    match (List.range maxSockets).find? fun id ↦ (queues.sockets id).bound = false with
    | some id =>
      { queues with
        sockets := Function.update queues.sockets id
          { bound := true, port := port
            rxq :=
              { slot := fun index ↦ { (queues.sockets id).rxq.slot index with valid := false }
                head := 0
                tail := 0 } } }
    | none => queues

def netUdpClose (queues : Queues) (id : ℕ) : Queues :=
  if maxSockets ≤ id ∨ (queues.sockets id).bound = false then queues
  else
    { queues with
      sockets := Function.update queues.sockets id
        { queues.sockets id with bound := false, port := 0 } }

def netUdpRecvSocket (queues : Queues) (id : ℕ) : Queues × Option Datagram :=
  if maxSockets ≤ id ∨ (queues.sockets id).bound = false then (queues, none)
  else
    match (queues.sockets id).rxq.takeHead socketRxqSize with
    | some (datagram, rxq) =>
      ({ queues with
          sockets := Function.update queues.sockets id { queues.sockets id with rxq := rxq } },
        some datagram)
    | none => (queues, none)

def netUdpRecv (queues : Queues) (port : ℕ) : Queues × Option Datagram :=
  if port = 0 then (queues, none)
  else
    match SlotArray.takeFirst (fun datagram ↦ datagram.dstPort = port) queues.udpRxq with
    | some (datagram, udpRxq) => ({ queues with udpRxq := udpRxq }, some datagram)
    | none => (queues, none)

/-! ### Histories -/

/-- A datagram that `net_udp_send` put on the wire. -/
structure Sending where
  dstMac : List UInt8
  srcMac : List UInt8
  id : ℕ
  datagram : Datagram
  dstMac_length : dstMac.length = 6
  srcMac_length : srcMac.length = 6
  srcPort : datagram.srcPort ≠ 0 ∧ datagram.srcPort < 65536
  dstPort : datagram.dstPort ≠ 0 ∧ datagram.dstPort < 65536
  short : datagram.payload.length ≤ maxPayload

def Sending.frame (sending : Sending) : List UInt8 :=
  udpFrame sending.dstMac sending.srcMac sending.id sending.datagram

/-- What happens to the queues of the stack that datagrams are for. -/
inductive Event
  | arrive (sending : Sending)
  | recvSocket (id : ℕ)
  | recv (port : ℕ)
  | bind (port : ℕ)
  | close (id : ℕ)

/-- An event, with the datagram that it returns to its caller. -/
def step (queues : Queues) : Event → Queues × Option Datagram
  | .arrive sending =>
    (netPoll sending.datagram.dstIp (sending.frame.getD · 0) sending.frame.length queues, none)
  | .recvSocket id => netUdpRecvSocket queues id
  | .recv port => netUdpRecv queues port
  | .bind port => (netUdpBind queues port, none)
  | .close id => (netUdpClose queues id, none)

/-- What events return. -/
def outputs : Queues → List Event → List (Option Datagram)
  | _, [] => []
  | queues, event :: events => (step queues event).2 :: outputs (step queues event).1 events

/-! ### First in, first out -/

/-- A socket of the reference. -/
structure FifoSocket where
  bound : Bool
  port : ℕ
  pending : List Datagram

/-- The sockets and what is pending for other ports, in the order of arrival. -/
structure Fifo where
  sockets : ℕ → FifoSocket
  pending : List Datagram

namespace Fifo

def initial : Fifo where
  sockets := fun _ ↦ { bound := false, port := 0, pending := [] }
  pending := []

/-- A datagram joins the queue of the socket that is bound to its port, or the common one, unless
that one is full. -/
def arrive (fifo : Fifo) (datagram : Datagram) : Fifo :=
  match boundTo (fun id ↦ (fifo.sockets id).bound) (fun id ↦ (fifo.sockets id).port)
    datagram.dstPort with
  | some id =>
    if (fifo.sockets id).pending.length < socketRxqSize then
      { fifo with
        sockets := Function.update fifo.sockets id
          { fifo.sockets id with pending := (fifo.sockets id).pending ++ [datagram] } }
    else fifo
  | none =>
    if fifo.pending.length < udpRxqSize then { fifo with pending := fifo.pending ++ [datagram] }
    else fifo

/-- A port gets a socket with nothing pending, if it has none and there is one left. -/
def bind (fifo : Fifo) (port : ℕ) : Fifo :=
  if port = 0 then fifo
  else if (boundTo (fun id ↦ (fifo.sockets id).bound) (fun id ↦ (fifo.sockets id).port)
    port).isSome then fifo
  else
    match (List.range maxSockets).find? fun id ↦ (fifo.sockets id).bound = false with
    | some id =>
      { fifo with
        sockets := Function.update fifo.sockets id { bound := true, port := port, pending := [] } }
    | none => fifo

def close (fifo : Fifo) (id : ℕ) : Fifo :=
  if maxSockets ≤ id ∨ (fifo.sockets id).bound = false then fifo
  else
    { fifo with
      sockets := Function.update fifo.sockets id
        { fifo.sockets id with bound := false, port := 0 } }

def recvSocket (fifo : Fifo) (id : ℕ) : Fifo × Option Datagram :=
  if maxSockets ≤ id ∨ (fifo.sockets id).bound = false then (fifo, none)
  else
    match (fifo.sockets id).pending with
    | datagram :: later =>
      ({ fifo with
          sockets := Function.update fifo.sockets id { fifo.sockets id with pending := later } },
        some datagram)
    | [] => (fifo, none)

/-- The oldest datagram of an unbound port. -/
def recv (fifo : Fifo) (port : ℕ) : Fifo × Option Datagram :=
  if port = 0 then (fifo, none)
  else
    match fifo.pending.find? fun datagram ↦ datagram.dstPort = port with
    | some datagram =>
      ({ fifo with pending := fifo.pending.eraseP fun datagram ↦ datagram.dstPort = port },
        some datagram)
    | none => (fifo, none)

/-- What an event does to queues in order. -/
def step (fifo : Fifo) : Event → Fifo × Option Datagram
  | .arrive sending => (fifo.arrive sending.datagram, none)
  | .recvSocket id => fifo.recvSocket id
  | .recv port => fifo.recv port
  | .bind port => (fifo.bind port, none)
  | .close id => (fifo.close id, none)

/-- What events return where all queues are in order. -/
def outputs : Fifo → List Event → List (Option Datagram)
  | _, [] => []
  | fifo, event :: events => (fifo.step event).2 :: outputs (fifo.step event).1 events

end Fifo

/-! ### The condition -/

/-- A datagram for a port without a socket arrives only while none for the same port is in a slot
behind the first free one. -/
def InOrder (queues : Queues) : Event → Prop
  | .arrive sending =>
    boundTo (fun id ↦ (queues.sockets id).bound) (fun id ↦ (queues.sockets id).port)
        sending.datagram.dstPort = none →
      ∀ datagram ∈ SlotArray.behindFree queues.udpRxq,
        datagram.dstPort ≠ sending.datagram.dstPort
  | _ => True

instance : (queues : Queues) → (event : Event) → Decidable (InOrder queues event)
  | queues, .arrive sending => inferInstanceAs (Decidable (boundTo _ _ _ = none →
      ∀ datagram ∈ SlotArray.behindFree queues.udpRxq,
        datagram.dstPort ≠ sending.datagram.dstPort))
  | _, .recvSocket _ => isTrue trivial
  | _, .recv _ => isTrue trivial
  | _, .bind _ => isTrue trivial
  | _, .close _ => isTrue trivial

end EynOS.Network.Udp
