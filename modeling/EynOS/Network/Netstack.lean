import EynOS.Foundation.Run
import EynOS.Network.Tcp

/-!
# The table of TCP sockets

The model of the sockets of `netstack.c` together: how `net_poll` finds the socket of a segment and
opens a socket for a new connection, and the calls on the sockets. What one segment does to its
socket is `Tcp.receiveSegment`. Identifiers that callers pass are integers; the table is a function
of which only the indices below `maxSockets` are used. Calls that wait for the network take what
arrives in each pass of their loop.

Not modelled: a network that is not initialized, null pointers, statistics, the watchdog, the screen
that is redrawn while a call waits, and the backlog argument of `net_tcp_socket_listen`, which the
source does not read.
-/

namespace EynOS.Network.Netstack

open Foundation Tcp

/-! ### The table -/

/-- `NET_TCP_MAX_SOCKETS`. -/
def maxSockets : ℕ := 8

/-- `NET_TCP_LEGACY_SOCKET_ID`. -/
def legacySocketId : ℕ := 0

/-- `NET_TCP_ACCEPT_BACKLOG`. -/
def acceptBacklogSize : ℕ := 4

/-- `tcp_socket` with what belongs to listening. The entries of the backlog are the first
`accept_backlog_count` ones. -/
structure Endpoint where
  socket : Socket
  listenPort : ℕ
  listening : Bool
  acceptBacklog : List ℕ

/-- `tcp_sockets`. -/
abbrev Table := ℕ → Endpoint

def Endpoint.cleared : Endpoint where
  socket := socketMetaClear
  listenPort := 0
  listening := false
  acceptBacklog := []

def Endpoint.taken : Endpoint :=
  { Endpoint.cleared with socket := { socketMetaClear with inUse := true, retxTimerId := -1 } }

/-- The sockets after `net_init`. -/
def netInit : Table := fun _ ↦
  { Endpoint.cleared with socket := { socketMetaClear with retxTimerId := -1 } }

def Table.setSocket (table : Table) (id : ℕ) (socket : Socket) : Table :=
  Function.update table id { table id with socket := socket }

def Table.setBacklog (table : Table) (id : ℕ) (backlog : List ℕ) : Table :=
  Function.update table id { table id with acceptBacklog := backlog }

def tcpSocketMetaClear (table : Table) (id : ℕ) : Table :=
  if id < maxSockets then Function.update table id Endpoint.cleared else table

def tcpSocketRetxCancel (table : Table) (id : ℕ) : Table :=
  if id < maxSockets then table.setSocket id (socketRetxCancel (table id).socket) else table

def socketRxqClear (socket : Socket) : Socket :=
  { socket with
    rxq :=
      { slot := fun index ↦
          if index < rxqCapacity then { socket.rxq.slot index with valid := false }
          else socket.rxq.slot index
        head := 0
        tail := 0 } }

def poolIds : List ℕ := List.range' 1 (maxSockets - 1)

/-- The first pool socket that is not in use. -/
def freeId (table : Table) : Option ℕ := poolIds.find? fun id ↦ !(table id).socket.inUse

/-- The index of a pool socket that is in use. -/
def usedId (table : Table) (id : ℤ) : Option ℕ :=
  if id ≤ 0 ∨ (maxSockets : ℤ) ≤ id then none
  else if (table id.toNat).socket.inUse then some id.toNat
  else none

/-- The index of a pool socket that is in use, or of the legacy socket. -/
def anyId (table : Table) (id : ℤ) : Option ℕ :=
  if id < 0 ∨ (maxSockets : ℤ) ≤ id then none
  else if id.toNat = legacySocketId ∨ (table id.toNat).socket.inUse then some id.toNat
  else none

/-! ### Receiving segments -/

/-- The socket of an existing connection for a segment. -/
def demultiplex (table : Table) (segment : Tcp.Segment) : Option ℕ :=
  (List.range maxSockets).find? fun id ↦
    (id == legacySocketId || (table id).socket.inUse) && matchesSocket (table id).socket segment

/-- The first pool socket that listens on a port. -/
def listenerFor (table : Table) (dstPort : ℕ) : Option ℕ :=
  poolIds.find? fun id ↦
    (table id).socket.inUse && (table id).listening && (table id).listenPort == dstPort

/-- The socket that answers a SYN for a port, cleared and put into the backlog of its listener
unless it is the legacy socket. -/
def passiveId (table : Table) (dstPort : ℕ) : Option (ℕ × Table) :=
  let legacy := table legacySocketId
  if legacy.listening ∧ legacy.socket.state = .closed ∧ dstPort = legacy.listenPort then
    some (legacySocketId, table)
  else
    match listenerFor table dstPort with
    | none => none
    | some listener =>
      if acceptBacklogSize ≤ (table listener).acceptBacklog.length then none
      else
        match freeId table with
        | none => none
        | some newid =>
          let table : Table := Function.update table newid Endpoint.taken
          some (newid, table.setBacklog listener ((table listener).acceptBacklog ++ [newid]))

def answerSyn (link timer : ℤ) (ticks : ℕ) (socket : Socket) (syn : Tcp.Segment) :
    Socket × List Sent :=
  let socket := { socket with
    localIp := syn.dstIp, remoteIp := syn.srcIp, localPort := syn.dstPort, remotePort := syn.srcPort
    seq := ticks, ack := u32 (syn.seq + 1), state := .synReceived }
  (socketRetxArm timer socket (flagSyn ||| flagAck) socket.seq socket.ack [],
    (sendSegment link socket
      { seq := socket.seq, ack := socket.ack, flags := flagSyn ||| flagAck, payload := [] }).2)

/-- What `net_poll` does with a segment. -/
def pollSegment (link timer : ℤ) (ticks : ℕ) (table : Table) (segment : Tcp.Segment) :
    Table × List Sent :=
  match demultiplex table segment with
  | some id =>
    let (socket, sent) := receiveSegment link (table id).socket segment
    (table.setSocket id socket, sent)
  | none =>
    if hasFlag segment.flags flagSyn = false then (table, [])
    else
      match passiveId table segment.dstPort with
      | none => (table, [])
      | some (id, table) =>
        let (socket, sent) := answerSyn link timer ticks (table id).socket segment
        (table.setSocket id socket, sent)

/-- What `net_poll` finds to do: a segment in the device, or the retransmit timer of a socket that
is due. -/
inductive Arrival
  | segment (link timer : ℤ) (ticks : ℕ) (segment : Tcp.Segment)
  | timer (link : ℤ) (id : ℕ)

/-- One thing that `net_poll` does. -/
def pollOnce (table : Table) : Arrival → Table × List Sent
  | .segment link timer ticks segment => pollSegment link timer ticks table segment
  | .timer link id =>
    if id < maxSockets then
      let (socket, sent) := retxTimerCb link (table id).socket
      (table.setSocket id socket, sent)
    else (table, [])

/-- A pass of `net_poll`. -/
def netPoll (table : Table) : List Arrival → Table × List Sent
  | [] => (table, [])
  | arrival :: arrivals =>
    let (table, sent) := pollOnce table arrival
    let (table, later) := netPoll table arrivals
    (table, sent ++ later)

/-- Poll until a socket is established, at most as often as a call waits. -/
def waitEstablished (id : ℕ) : List (List Arrival) → Table → Table × List Sent
  | [], table => (table, [])
  | arrivals :: passes, table =>
    let (table, sent) := netPoll table arrivals
    if (table id).socket.state = .established then (table, sent)
    else
      let (table, later) := waitEstablished id passes table
      (table, sent ++ later)

/-- Take the first packet out of the receive queue of a socket. -/
def dequeue (table : Table) (id : ℕ) : Option (RxPacket × Table) :=
  (socketRxqDequeue (table id).socket).map fun taken ↦ (taken.1, table.setSocket id taken.2)

def tcpSocketRecvImpl (table : Table) (id : ℕ) (arrivals : List Arrival) :
    Option RxPacket × Table × List Sent :=
  match dequeue table id with
  | some (packet, table) => (some packet, table, [])
  | none =>
    let (table, sent) := netPoll table arrivals
    match dequeue table id with
    | some (packet, table) => (some packet, table, sent)
    | none => (none, table, sent)

/-- `net_tcp_socket_recv`, for the legacy socket `net_tcp_recv`. -/
def netTcpSocketRecv (table : Table) (id : ℤ) (arrivals : List Arrival) :
    Option RxPacket × Table × List Sent :=
  match anyId table id with
  | none => (none, table, [])
  | some id => tcpSocketRecvImpl table id arrivals

/-! ### Opening and closing -/

def netTcpSocketOpen (table : Table) : ℤ × Table :=
  match freeId table with
  | none => (-1, table)
  | some id => (id, Function.update table id Endpoint.taken)

/-- Clear the candidates of a listener that is closed. Clearing the listener empties its backlog. -/
def reclaim (listener : ℕ) : List ℕ → Table → Table
  | [], table => table
  | cand :: rest, table =>
    let table := tcpSocketMetaClear (tcpSocketRetxCancel table cand) cand
    if cand = listener then table else reclaim listener rest table

def tcpSocketCloseImpl (link timer : ℤ) (table : Table) (id : ℕ) : Table × List Sent :=
  let endpoint := table id
  if endpoint.socket.state = .established then
    let (socket, sent) := socketCloseImpl link timer endpoint.socket
    (Function.update table id { endpoint with socket := socket, listening := false }, sent)
  else if id = legacySocketId then
    (Function.update table id
      { endpoint with
        socket := { socketRetxCancel endpoint.socket with state := .closed }, listening := false },
      [])
  else
    (tcpSocketMetaClear
      (reclaim id endpoint.acceptBacklog (tcpSocketRetxCancel table id)) id, [])

/-- `net_tcp_socket_close_id`, for the legacy socket `net_tcp_close`. -/
def netTcpSocketCloseId (link timer : ℤ) (table : Table) (id : ℤ) : ℤ × Table × List Sent :=
  match anyId table id with
  | none => (-1, table, [])
  | some id => (0, tcpSocketCloseImpl link timer table id)

def netTcpSocketBind (table : Table) (id : ℤ) (localPort : ℕ) : ℤ × Table :=
  if id ≤ 0 ∨ (maxSockets : ℤ) ≤ id then (-1, table)
  else if localPort = 0 then (-2, table)
  else
    match usedId table id with
    | none => (-1, table)
    | some id =>
      if (List.range maxSockets).any fun other ↦
        other != id && (other == legacySocketId || (table other).socket.inUse) &&
          (table other).listening && (table other).listenPort == localPort then (-3, table)
      else (0, Function.update table id { table id with listenPort := localPort })

/-- A listener starts over: its own connection is forgotten and its queues are emptied. -/
def Endpoint.listen (endpoint : Endpoint) : Endpoint :=
  { endpoint with
    listening := true
    socket := socketRxqClear (socketRetxCancel { endpoint.socket with state := .closed }) }

def netTcpSocketListen (table : Table) (id : ℤ) : ℤ × Table :=
  match usedId table id with
  | none => (-1, table)
  | some id =>
    if (table id).listenPort = 0 then (-2, table)
    else (0, Function.update table id { (table id).listen with acceptBacklog := [] })

def netTcpListen (table : Table) (localPort : ℕ) : ℤ × Table :=
  if localPort = 0 then (-1, table)
  else
    (0, Function.update table legacySocketId
      { (table legacySocketId).listen with listenPort := localPort })

/-! ### Connecting and sending -/

/-- The port of an active open: the one that is asked for, or one that the clock chooses. -/
def chosenPort (ticks localPort : ℕ) : ℕ :=
  if localPort = 0 then 40000 + ticks % 20000 else localPort

/-- What decides about an active open: what sending the SYN and starting the timer return, the
clock, and the addresses. -/
structure Opening where
  link : ℤ
  timer : ℤ
  ticks : ℕ
  localIp : ℕ
  localPort : ℕ
  dstIp : ℕ
  dstPort : ℕ

def Opening.socket (opening : Opening) : Socket × List Sent :=
  socketConnectImpl opening.link opening.timer opening.ticks opening.localIp
    (chosenPort opening.ticks opening.localPort) opening.dstIp opening.dstPort

/-- What sending the SYN returns. -/
def Opening.rc (opening : Opening) : ℤ :=
  (sendSegment opening.link opening.socket.1
    { seq := opening.ticks, ack := 0, flags := flagSyn, payload := [] }).1

/-- `tcp_socket_connect_impl` up to the wait for the handshake. -/
def connectStart (table : Table) (id : ℕ) (opening : Opening) : Table :=
  Function.update table id { Endpoint.cleared with socket := opening.socket.1 }

def tcpSocketConnectImpl (table : Table) (id : ℕ) (opening : Opening)
    (passes : List (List Arrival)) : ℤ × Table × List Sent :=
  if opening.dstPort = 0 then (-2, table, [])
  else
    let table := connectStart table id opening
    if opening.rc ≠ 0 then (opening.rc, table, opening.socket.2)
    else
      let (table, sent) := waitEstablished id passes table
      (if (table id).socket.state = .established then 0 else -5, table, opening.socket.2 ++ sent)

def netTcpConnect (table : Table) (opening : Opening) (passes : List (List Arrival)) :
    ℤ × Table × List Sent :=
  tcpSocketConnectImpl table legacySocketId opening passes

def netTcpSocketConnect (table : Table) (id : ℤ) (opening : Opening)
    (passes : List (List Arrival)) : ℤ × Table × List Sent :=
  match usedId table id with
  | none => (-1, table, [])
  | some id => tcpSocketConnectImpl table id opening passes

/-- `net_tcp_send` up to the wait for the handshake: unlike a connected socket the legacy socket is
not marked as used. -/
def sendStart (table : Table) (opening : Opening) : Table :=
  Function.update table legacySocketId
    { Endpoint.cleared with socket := { opening.socket.1 with inUse := false } }

/-- The payload that `net_tcp_send` sends after the handshake. -/
def sendPayload (link timer : ℤ) (socket : Socket) (payload : List UInt8) :
    ℤ × Socket × List Sent :=
  if payload = [] then (0, socket, [])
  else
    let (rc, sent) := sendSegment link socket
      { seq := socket.seq, ack := socket.ack, flags := flagPsh ||| flagAck, payload := payload }
    let socket := socketRetxArm timer socket (flagPsh ||| flagAck) socket.seq socket.ack payload
    if rc ≠ 0 then (rc, socket, sent)
    else (0, { socket with seq := u32 (socket.seq + payload.length) }, sent)

/-- The FIN that `net_tcp_send` sends at its end. -/
def sendFin (link timer : ℤ) (socket : Socket) : ℤ × Socket × List Sent :=
  let (rc, sent) := sendSegment link socket
    { seq := socket.seq, ack := socket.ack, flags := flagFin ||| flagAck, payload := [] }
  let socket := socketRetxArm timer socket (flagFin ||| flagAck) socket.seq socket.ack []
  if rc ≠ 0 then (rc, socket, sent)
  else (0, { socket with seq := u32 (socket.seq + 1), state := .finWait }, sent)

/-- What `net_tcp_send` does after the wait for the handshake. The payload and the FIN each have
what sending and starting a timer return for them. -/
def sendFinish (link timer finLink finTimer : ℤ) (table : Table) (payload : List UInt8) :
    ℤ × Table × List Sent :=
  let socket := (table legacySocketId).socket
  if socket.state ≠ .established then (-5, table, [])
  else
    let (rc, socket, sent) := sendPayload link timer socket payload
    if rc ≠ 0 then (rc, table.setSocket legacySocketId socket, sent)
    else
      let (rc, socket, finSent) := sendFin finLink finTimer socket
      (if rc ≠ 0 then rc else payload.length, table.setSocket legacySocketId socket,
        sent ++ finSent)

def netTcpSend (table : Table) (opening : Opening) (payload : List UInt8)
    (passes : List (List Arrival)) (link timer finLink finTimer : ℤ) : ℤ × Table × List Sent :=
  if opening.dstPort = 0 then (-2, table, [])
  else if maxPayload < payload.length then (-4, table, [])
  else
    let table := sendStart table opening
    if opening.rc ≠ 0 then (opening.rc, table, opening.socket.2)
    else
      let (table, sent) := waitEstablished legacySocketId passes table
      let (rc, table, later) := sendFinish link timer finLink finTimer table payload
      (rc, table, opening.socket.2 ++ (sent ++ later))

def tcpSocketSendImpl (link timer : ℤ) (table : Table) (id : ℕ) (payload : List UInt8) :
    ℤ × Table × List Sent :=
  let (rc, socket, sent) := socketSendImpl link timer (table id).socket payload
  (rc, table.setSocket id socket, sent)

def netTcpSendCurrent (link timer : ℤ) (table : Table) (payload : List UInt8) :
    ℤ × Table × List Sent :=
  tcpSocketSendImpl link timer table legacySocketId payload

def netTcpSocketSend (link timer : ℤ) (table : Table) (id : ℤ) (payload : List UInt8) :
    ℤ × Table × List Sent :=
  match usedId table id with
  | none => (-1, table, [])
  | some id => tcpSocketSendImpl link timer table id payload

/-! ### Accepting -/

/-- Take an entry out of the backlog of a listener. -/
def dropEntry (table : Table) (listener k : ℕ) : Table :=
  table.setBacklog listener ((table listener).acceptBacklog.eraseIdx k)

/-- One round of the loop of `net_tcp_socket_accept` without its poll pass: some steps through the
backlog of a listener from an entry on. Every step takes out an entry or goes to the next one, so
that as many steps suffice as there are entries. -/
def acceptScan (listener : ℕ) : ℕ → ℕ → Table → Option ℕ × Table
  | 0, _, table => (none, table)
  | steps + 1, k, table =>
    match (table listener).acceptBacklog[k]? with
    | none => (none, table)
    | some cand =>
      match if cand < maxSockets then (table cand).socket.state else .closed with
      | .established => (some cand, dropEntry table listener k)
      | .closed => acceptScan listener steps k
        (dropEntry (tcpSocketMetaClear table cand) listener k)
      | .synSent | .synReceived | .finWait => acceptScan listener steps (k + 1) table

/-- The scan of a whole backlog. -/
def acceptOnce (table : Table) (listener : ℕ) : Option ℕ × Table :=
  acceptScan listener (table listener).acceptBacklog.length 0 table

/-- The loop of `net_tcp_socket_accept`. -/
def acceptLoop (listener : ℕ) : List (List Arrival) → Table → ℤ × Table × List Sent
  | [], table => (-3, table, [])
  | arrivals :: passes, table =>
    match acceptOnce table listener with
    | (some cand, table) => (cand, table, [])
    | (none, table) =>
      let (table, sent) := netPoll table arrivals
      let (rc, table, later) := acceptLoop listener passes table
      (rc, table, sent ++ later)

def netTcpSocketAccept (table : Table) (id : ℤ) (passes : List (List Arrival)) :
    ℤ × Table × List Sent :=
  match usedId table id with
  | none => (-1, table, [])
  | some id => if (table id).listening then acceptLoop id passes table else (-1, table, [])

end EynOS.Network.Netstack
