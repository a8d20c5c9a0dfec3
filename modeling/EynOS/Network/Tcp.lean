import EynOS.Foundation.MachineWord
import EynOS.Foundation.RingBuffer

/-!
# TCP sockets

The model of one TCP connection of `netstack.c`: the socket with its receive queue and its single
retransmit record, the branch of `net_poll` for a segment that belongs to the connection, the
retransmit timer, and the calls that open, use and close a pool socket.

What the surroundings decide is a parameter: `link` is what resolving the next hop and sending the
frame returned, `timer` what starting a timer returned, and `ticks` the clock. Functions that send
give back the segments that left the machine.

Not modelled: the legacy socket, the choice of a socket for a segment, listening and accepting,
checksums, statistics and the addresses in outgoing frames.
-/

namespace EynOS.Network.Tcp

open Foundation

/-! ### Segments -/

def flagFin : ℕ := 0x01

def flagSyn : ℕ := 0x02

def flagRst : ℕ := 0x04

def flagPsh : ℕ := 0x08

def flagAck : ℕ := 0x10

/-- `NET_TCP_MAX_PAYLOAD`. -/
def maxPayload : ℕ := 1536

/-- `TCP_RETX_MAX_ATTEMPTS`. -/
def retxMaxAttempts : ℕ := 4

/-- The number of slots of a receive queue. -/
def rxqCapacity : ℕ := 8

def hasFlag (flags flag : ℕ) : Bool := flags &&& flag != 0

/-- A segment that arrived, with the addresses of its packet. -/
structure Segment where
  srcIp : ℕ
  srcPort : ℕ
  dstIp : ℕ
  dstPort : ℕ
  seq : ℕ
  ack : ℕ
  flags : ℕ
  payload : List UInt8

/-- A segment that was sent. -/
structure Sent where
  seq : ℕ
  ack : ℕ
  flags : ℕ
  payload : List UInt8
deriving DecidableEq

/-- `net_tcp_rx_packet`. -/
structure RxPacket where
  srcIp : ℕ
  srcPort : ℕ
  dstIp : ℕ
  dstPort : ℕ
  payload : List UInt8

/-! ### Sockets -/

inductive TcpState
  | closed
  | synSent
  | synReceived
  | established
  | finWait
deriving DecidableEq

/-- `tcp_socket`. The payload of the retransmit record is the first `last_payload_len` bytes of its
buffer. -/
structure Socket where
  state : TcpState
  localIp : ℕ
  localPort : ℕ
  remoteIp : ℕ
  remotePort : ℕ
  seq : ℕ
  ack : ℕ
  retxTimerId : ℤ
  retxActive : Bool
  retxCount : ℕ
  lastFlags : ℕ
  lastSeq : ℕ
  lastAck : ℕ
  lastEndSeq : ℕ
  lastPayload : List UInt8
  rxq : RingBuffer RxPacket
  inUse : Bool

/-- `tcp_socket_meta_clear`. -/
def socketMetaClear : Socket where
  state := .closed
  localIp := 0
  localPort := 0
  remoteIp := 0
  remotePort := 0
  seq := 0
  ack := 0
  retxTimerId := 0
  retxActive := false
  retxCount := 0
  lastFlags := 0
  lastSeq := 0
  lastAck := 0
  lastEndSeq := 0
  lastPayload := []
  rxq :=
    { slot := fun _ ↦
        { valid := false
          packet := { srcIp := 0, srcPort := 0, dstIp := 0, dstPort := 0, payload := [] } }
      head := 0
      tail := 0 }
  inUse := false

/-- `tcp_send_segment`: its result and what left the machine. -/
def sendSegment (link : ℤ) (socket : Socket) (segment : Sent) : ℤ × List Sent :=
  if 1400 < segment.payload.length then (-2, [])
  else if socket.localPort = 0 ∨ socket.remotePort = 0 then (-3, [])
  else if link = 0 then (0, [segment])
  else (link, [])

/-- Acknowledge what has been received. -/
def sendAck (link : ℤ) (socket : Socket) : List Sent :=
  (sendSegment link socket
    { seq := socket.seq, ack := socket.ack, flags := flagAck, payload := [] }).2

/-! ### The retransmit record -/

/-- `tcp_socket_retx_cancel`. -/
def socketRetxCancel (socket : Socket) : Socket :=
  { socket with
    retxTimerId := -1, retxActive := false, retxCount := 0, lastFlags := 0, lastPayload := [] }

/-- `tcp_socket_retx_arm`. -/
def socketRetxArm (timer : ℤ) (socket : Socket) (flags seq ack : ℕ) (payload : List UInt8) :
    Socket :=
  if maxPayload < payload.length then socket
  else
    let endSeq := u32 (seq + payload.length)
    let endSeq := if hasFlag flags flagSyn then u32 (endSeq + 1) else endSeq
    let endSeq := if hasFlag flags flagFin then u32 (endSeq + 1) else endSeq
    { socketRetxCancel socket with
      lastFlags := flags, lastSeq := seq, lastAck := ack, lastEndSeq := endSeq
      lastPayload := payload, retxCount := 0, retxActive := true, retxTimerId := timer }

/-- `tcp_socket_retx_ack_received`. -/
def socketRetxAckReceived (socket : Socket) (ack : ℕ) : Socket :=
  if socket.retxActive = false then socket
  else if socket.lastEndSeq ≤ ack then socketRetxCancel socket
  else socket

/-- `tcp_retx_timer_cb`. -/
def retxTimerCb (link : ℤ) (socket : Socket) : Socket × List Sent :=
  if socket.retxActive = false then (socket, [])
  else if socket.state = .closed then (socketRetxCancel socket, [])
  else if retxMaxAttempts ≤ socket.retxCount then
    ({ socketRetxCancel socket with state := .closed }, [])
  else if socket.localPort = 0 ∨ socket.remotePort = 0 then (socket, [])
  else
    ({ socket with retxCount := socket.retxCount + 1 },
      (sendSegment link socket
        { seq := socket.lastSeq, ack := socket.lastAck, flags := socket.lastFlags
          payload := socket.lastPayload }).2)

/-! ### Receiving -/

/-- `tcp_socket_rxq_enqueue`, with nothing for its failure. -/
def socketRxqEnqueue (socket : Socket) (segment : Segment) : Option Socket :=
  if maxPayload < segment.payload.length then none
  else
    (socket.rxq.enqueue rxqCapacity
      { srcIp := segment.srcIp, srcPort := segment.srcPort, dstIp := segment.dstIp
        dstPort := segment.dstPort, payload := segment.payload }).map
      fun rxq ↦ { socket with rxq := rxq }

/-- The payload of a segment for an established connection: only what is in order and fits the queue
advances the acknowledgement. -/
def receivePayload (link : ℤ) (socket : Socket) (segment : Segment) : Socket × List Sent :=
  if segment.payload = [] then (socket, [])
  else
    let socket :=
      if segment.seq = socket.ack then
        match socketRxqEnqueue socket segment with
        | some socket => { socket with ack := u32 (socket.ack + segment.payload.length) }
        | none => socket
      else socket
    (socket, sendAck link socket)

/-- The FIN of a segment for an established connection, or what else may end it. -/
def receiveFin (link : ℤ) (socket : Socket) (segment : Segment) : Socket × List Sent :=
  if hasFlag segment.flags flagFin then
    if u32 (segment.seq + segment.payload.length) = socket.ack then
      let socket := { socket with ack := u32 (socket.ack + 1) }
      (socketRetxCancel { socket with state := .closed }, sendAck link socket)
    else (socket, sendAck link socket)
  else if socket.state = .finWait ∧ hasFlag segment.flags flagAck then
    (socketRetxCancel { socket with state := .closed }, [])
  else (socket, [])

/-- The branch of `net_poll` for a segment of an existing connection. -/
def receiveSegment (link : ℤ) (socket : Socket) (segment : Segment) : Socket × List Sent :=
  if hasFlag segment.flags flagRst then (socketRetxCancel { socket with state := .closed }, [])
  else
    match socket.state with
    | .closed => (socket, [])
    | .synSent =>
      if segment.flags &&& (flagSyn ||| flagAck) = flagSyn ||| flagAck ∧
          segment.ack = u32 (socket.seq + 1) then
        let socket := { socketRetxCancel socket with
          seq := u32 (socket.seq + 1), ack := u32 (segment.seq + 1) }
        ({ socket with state := .established }, sendAck link socket)
      else (socket, [])
    | .synReceived =>
      if hasFlag segment.flags flagAck ∧ segment.ack = u32 (socket.seq + 1) then
        ({ socketRetxCancel socket with seq := u32 (socket.seq + 1), state := .established }, [])
      else (socket, [])
    | .established | .finWait =>
      let socket :=
        if hasFlag segment.flags flagAck then socketRetxAckReceived socket segment.ack else socket
      match receivePayload link socket segment with
      | (socket, acks) =>
        match receiveFin link socket segment with
        | (socket, finAcks) => (socket, acks ++ finAcks)

/-- Whether `net_poll` takes a segment for one of the connection. -/
def matchesSocket (socket : Socket) (segment : Segment) : Bool :=
  socket.state ≠ .closed ∧ segment.dstPort = socket.localPort ∧
    segment.srcPort = socket.remotePort ∧ segment.srcIp = socket.remoteIp

/-- What `net_poll` finds to do: a segment in the device, or a retransmit timer that is due. -/
inductive Arrival
  | segment (link : ℤ) (segment : Segment)
  | timer (link : ℤ)

/-- One thing that `net_poll` does for the connection. -/
def pollOnce (socket : Socket) : Arrival → Socket × List Sent
  | .segment link segment =>
    if matchesSocket socket segment then receiveSegment link socket segment else (socket, [])
  | .timer link => retxTimerCb link socket

/-- A pass of `net_poll`. -/
def netPoll (socket : Socket) : List Arrival → Socket × List Sent
  | [] => (socket, [])
  | arrival :: arrivals =>
    match pollOnce socket arrival with
    | (socket, sent) =>
      match netPoll socket arrivals with
      | (socket, later) => (socket, sent ++ later)

/-- Take the first packet of the receive queue. -/
def socketRxqDequeue (socket : Socket) : Option (RxPacket × Socket) :=
  (socket.rxq.dequeue rxqCapacity).map fun taken ↦ (taken.1, { socket with rxq := taken.2 })

/-- `net_tcp_socket_recv`: the packet, if there is one, and what a poll pass sent. The poll pass
happens only when the queue is empty. -/
def socketRecv (socket : Socket) (arrivals : List Arrival) :
    Option RxPacket × Socket × List Sent :=
  if socket.inUse = false then (none, socket, [])
  else
    match socketRxqDequeue socket with
    | some (packet, socket) => (some packet, socket, [])
    | none =>
      match netPoll socket arrivals with
      | (socket, sent) =>
        match socketRxqDequeue socket with
        | some (packet, socket) => (some packet, socket, sent)
        | none => (none, socket, sent)

/-! ### Opening, sending and closing -/

/-- `tcp_socket_connect_impl` up to the wait for the handshake. -/
def socketConnectImpl (link timer : ℤ) (ticks localIp localPort remoteIp remotePort : ℕ) :
    Socket × List Sent :=
  let socket := socketRetxCancel { socketMetaClear with
    inUse := true, localIp := localIp, localPort := localPort, remoteIp := remoteIp
    remotePort := remotePort, seq := ticks, ack := 0, state := .synSent }
  (socketRetxArm timer socket flagSyn socket.seq 0 [],
    (sendSegment link socket
      { seq := socket.seq, ack := 0, flags := flagSyn, payload := [] }).2)

def passiveOpen (link timer : ℤ) (ticks : ℕ) (syn : Segment) : Socket × List Sent :=
  let socket := { socketMetaClear with
    inUse := true, retxTimerId := -1, localIp := syn.dstIp, remoteIp := syn.srcIp
    localPort := syn.dstPort, remotePort := syn.srcPort, seq := ticks, ack := u32 (syn.seq + 1)
    state := .synReceived }
  (socketRetxArm timer socket (flagSyn ||| flagAck) socket.seq socket.ack [],
    (sendSegment link socket
      { seq := socket.seq, ack := socket.ack, flags := flagSyn ||| flagAck, payload := [] }).2)

/-- `tcp_socket_send_impl` on an initialized network: its result, the socket and what it sent. -/
def socketSendImpl (link timer : ℤ) (socket : Socket) (payload : List UInt8) :
    ℤ × Socket × List Sent :=
  if socket.state ≠ .established then (-3, socket, [])
  else if socket.localPort = 0 ∨ socket.remotePort = 0 then (-4, socket, [])
  else if maxPayload < payload.length then (-5, socket, [])
  else if payload = [] then (0, socket, [])
  else
    match sendSegment link socket
      { seq := socket.seq, ack := socket.ack, flags := flagPsh ||| flagAck
        payload := payload } with
    | (rc, sent) =>
      let socket := socketRetxArm timer socket (flagPsh ||| flagAck) socket.seq socket.ack payload
      if rc ≠ 0 then (rc, socket, sent)
      else (payload.length, { socket with seq := u32 (socket.seq + payload.length) }, sent)

/-- `tcp_socket_close_impl` on a pool socket that does not listen. -/
def socketCloseImpl (link timer : ℤ) (socket : Socket) : Socket × List Sent :=
  if socket.state = .established then
    let sent := (sendSegment link socket
      { seq := socket.seq, ack := socket.ack, flags := flagFin ||| flagAck, payload := [] }).2
    let socket := socketRetxArm timer socket (flagFin ||| flagAck) socket.seq socket.ack []
    ({ socket with seq := u32 (socket.seq + 1), state := .finWait }, sent)
  else (socketMetaClear, [])

/-! ### Histories -/

/-- What happens to a socket. -/
inductive Event
  | poll (arrivals : List Arrival)
  | recv (arrivals : List Arrival)
  | send (link timer : ℤ) (payload : List UInt8)
  | close (link timer : ℤ)

/-- The arrivals that a poll pass of the event may see. -/
def Event.arrivals : Event → List Arrival
  | .poll arrivals => arrivals
  | .recv arrivals => arrivals
  | .send _ _ _ => []
  | .close _ _ => []

/-- A socket that has just started a connection to the peer or answered its SYN. -/
inductive Opened (isn : ℕ) : Socket → Prop
  | connect (link timer : ℤ) (ticks localIp localPort remoteIp remotePort : ℕ) :
      Opened isn (socketConnectImpl link timer ticks localIp localPort remoteIp remotePort).1
  | passive (link timer : ℤ) (ticks : ℕ) (syn : Segment) (hseq : syn.seq = isn) :
      Opened isn (passiveOpen link timer ticks syn).1

def serverSegment (seq ack flags : ℕ) (payload : List UInt8) : Segment where
  srcIp := 2
  srcPort := 80
  dstIp := 1
  dstPort := 40000
  seq := seq
  ack := ack
  flags := flags
  payload := payload

end EynOS.Network.Tcp
