import EynOS.Foundation.Run
import Mathlib.Data.Int.Notation

/-!
# The network card

`e1000.c`: `e1000_tx_send_frame` with `e1000_tx_init_once`, and `e1000_rx_poll_frame` with
`e1000_rx_init_once`. Driver and device share two rings of descriptors, each descriptor with a
buffer of its own. The device goes on between any two accesses of the driver; how far is up to
`progress`, which gives what the device does before each access.

Addresses of buffers count from the first byte of all buffers of a ring.
-/

namespace EynOS.Drivers

open Foundation

abbrev Frame := List UInt8

def E1000_TX_RING_COUNT : ℕ := 16

def E1000_TX_BUF_SIZE : ℕ := 2048

def E1000_RX_RING_COUNT : ℕ := 32

def E1000_RX_BUF_SIZE : ℕ := 2048

def E1000_TXD_CMD_EOP : UInt8 := 1

def E1000_TXD_CMD_IFCS : UInt8 := 2

def E1000_TXD_CMD_RS : UInt8 := 8

/-- DD, the bit of the status with which the device reports a descriptor as done. -/
def E1000_TXD_STAT_DD : UInt8 := 1

structure TxDesc where
  addr : ℕ
  length : ℕ
  cmd : UInt8
  status : UInt8

structure RxDesc where
  addr : ℕ
  length : ℕ
  status : UInt8

/-- The transmit ring and its buffers, the registers of the device, and what it has transmitted. -/
structure TxSide where
  bufs : ℕ → UInt8
  ring : ℕ → TxDesc
  tdh : ℕ
  tdt : ℕ
  enabled : Bool
  wire : List Frame

/-- The receive ring and its buffers, the registers of the device, and what it has stored. -/
structure RxSide where
  bufs : ℕ → UInt8
  ring : ℕ → RxDesc
  rdh : ℕ
  rdt : ℕ
  enabled : Bool
  stored : List Frame

/-! ### The device -/

/-- The bytes of a buffer from an address on. -/
def fetch (bufs : ℕ → UInt8) (addr length : ℕ) : Frame :=
  (List.range length).map fun i ↦ bufs (addr + i)

/-- The bytes of a frame are stored from an address on. -/
def deposit (bufs : ℕ → UInt8) (addr : ℕ) (frame : Frame) (place : ℕ) : UInt8 :=
  if addr ≤ place then frame.getD (place - addr) (bufs place) else bufs place

/-- The next descriptor in front of the tail is transmitted. -/
def TxSide.transmit (side : TxSide) : TxSide :=
  if side.enabled ∧ side.tdh ≠ side.tdt then
    let d := side.ring side.tdh
    { side with
      wire := side.wire ++ [fetch side.bufs d.addr d.length]
      ring := Function.update side.ring side.tdh { d with status := d.status ||| E1000_TXD_STAT_DD }
      tdh := (side.tdh + 1) % E1000_TX_RING_COUNT }
  else side

/-- A frame that arrives is stored in the next descriptor in front of the tail; without one, or if
it is longer than a buffer, it is dropped. -/
def RxSide.receive (frame : Frame) (side : RxSide) : RxSide :=
  if side.enabled ∧ side.rdh ≠ side.rdt ∧ frame.length ≤ E1000_RX_BUF_SIZE then
    let d := side.ring side.rdh
    { side with
      bufs := deposit side.bufs d.addr frame
      ring := Function.update side.ring side.rdh
        { d with length := frame.length, status := d.status ||| E1000_TXD_STAT_DD }
      rdh := (side.rdh + 1) % E1000_RX_RING_COUNT
      stored := side.stored ++ [frame] }
  else side

/-- What the device does. -/
inductive DeviceStep where
  | transmit
  | receive (frame : Frame)

/-- The card with the rings, the state of the driver and the number of accesses so far. -/
structure Nic where
  tx : TxSide
  rx : RxSide
  txReady : Bool
  txTail : ℕ
  rxReady : Bool
  rxCur : ℕ
  clock : ℕ

def Nic.device (nic : Nic) : DeviceStep → Nic
  | .transmit => { nic with tx := nic.tx.transmit }
  | .receive frame => { nic with rx := nic.rx.receive frame }

/-- The device goes on up to the next access of the driver. -/
def Nic.tick (progress : ℕ → List DeviceStep) (nic : Nic) : Nic :=
  (progress nic.clock).foldl Nic.device { nic with clock := nic.clock + 1 }

/-! ### Sending -/

/-- What `e1000_ctx_allow` and the probe and the allocations of an initialization come to: whether
the call is allowed, whether the initialization is, and whether the rest of it succeeds. -/
structure Granted where
  call : Bool
  init : Bool
  obtained : Bool

def Nic.txInitOnce (granted : Granted) (nic : Nic) : Option Nic :=
  if !granted.init then none
  else if nic.txReady then some nic
  else if !granted.obtained then none
  else
    some { nic with
      tx := { nic.tx with
        bufs := fun _ ↦ 0, ring := fun _ ↦ ⟨0, 0, 0, 0⟩, tdh := 0, tdt := 0, enabled := true }
      txTail := 0
      txReady := true }

def Nic.storeByte (place : ℕ) (byte : UInt8) (nic : Nic) : Nic :=
  { nic with tx := { nic.tx with bufs := Function.update nic.tx.bufs place byte } }

def Nic.writeTxDesc (index : ℕ) (d : TxDesc) (nic : Nic) : Nic :=
  { nic with tx := { nic.tx with ring := Function.update nic.tx.ring index d } }

def Nic.writeTdt (tail : ℕ) (nic : Nic) : Nic :=
  { nic with txTail := tail, tx := { nic.tx with tdt := tail } }

variable (progress : ℕ → List DeviceStep)

/-- Bytes are copied to the buffers of the transmit ring. -/
def copyFrame : ℕ → Frame → Nic → Nic
  | _, [], nic => nic
  | place, byte :: frame, nic =>
    copyFrame (place + 1) frame ((nic.tick progress).storeByte place byte)

/-- A descriptor of the transmit ring takes some values one after the other. -/
def describe (index : ℕ) : List TxDesc → Nic → Nic
  | [], nic => nic
  | d :: values, nic => describe index values ((nic.tick progress).writeTxDesc index d)

/-- The values that a descriptor takes while it is written, field by field. -/
def descriptorValues (addr length : ℕ) : List TxDesc :=
  let cmd := E1000_TXD_CMD_EOP ||| E1000_TXD_CMD_IFCS ||| E1000_TXD_CMD_RS
  [⟨0, 0, 0, 0⟩, ⟨addr, 0, 0, 0⟩, ⟨addr, length, 0, 0⟩, ⟨addr, length, cmd, 0⟩]

def advanceTail (index : ℕ) (nic : Nic) : Nic :=
  (nic.tick progress).writeTdt ((index + 1) % E1000_TX_RING_COUNT)

/-- The status is read until the device is done, a number of times at most. -/
def awaitDone (index : ℕ) : ℕ → Nic → Nic × ℤ
  | 0, nic => (nic, -3)
  | spins + 1, nic =>
    let nic := nic.tick progress
    if (nic.tx.ring index).status &&& E1000_TXD_STAT_DD ≠ 0 then (nic, 0)
    else awaitDone index spins nic

/-- A descriptor and its buffer are filled and given to the device. -/
def postFrame (frame : Frame) (nic : Nic) : Nic :=
  let index := nic.txTail % E1000_TX_RING_COUNT
  let nic := copyFrame progress (index * E1000_TX_BUF_SIZE) frame nic
  let nic := describe progress index
    (descriptorValues (index * E1000_TX_BUF_SIZE) frame.length) nic
  advanceTail progress index nic

/-- `e1000_tx_send_frame`; a frame that is not there is a null pointer. -/
def e1000SendFrame (granted : Granted) (frame : Option Frame) (nic : Nic) : Nic × ℤ :=
  if !granted.call then (nic, -1)
  else
    match frame with
    | none => (nic, -1)
    | some frame =>
      if frame.length = 0 ∨ E1000_TX_BUF_SIZE < frame.length then (nic, -1)
      else
        match nic.txInitOnce granted with
        | none => (nic, -2)
        | some nic =>
          awaitDone progress (nic.txTail % E1000_TX_RING_COUNT) 1000000
            (postFrame progress frame nic)

/-! ### Receiving -/

def Nic.rxInitOnce (granted : Granted) (nic : Nic) : Option Nic :=
  if !granted.init then none
  else if nic.rxReady then some nic
  else if !granted.obtained then none
  else
    some { nic with
      rx := { nic.rx with
        bufs := fun _ ↦ 0, ring := fun i ↦ ⟨i * E1000_RX_BUF_SIZE, 0, 0⟩, rdh := 0
        rdt := E1000_RX_RING_COUNT - 1, enabled := true }
      rxCur := 0
      rxReady := true }

def Nic.writeRxDesc (index : ℕ) (d : RxDesc) (nic : Nic) : Nic :=
  { nic with rx := { nic.rx with ring := Function.update nic.rx.ring index d } }

def Nic.writeRdt (index : ℕ) (nic : Nic) : Nic :=
  { nic with rx := { nic.rx with rdt := index }, rxCur := (index + 1) % E1000_RX_RING_COUNT }

/-- What a poll gives to its caller: the bytes in the buffer of the caller, the length that it
reports and the capacity of the buffer. -/
structure Received where
  bytes : Frame
  length : ℕ
  capacity : ℕ

/-- Bytes are copied from the buffers of the receive ring. -/
def copyOut : ℕ → ℕ → Nic → Frame × Nic
  | _, 0, nic => ([], nic)
  | place, count + 1, nic =>
    let nic := nic.tick progress
    let rest := copyOut (place + 1) count nic
    (nic.rx.bufs place :: rest.1, rest.2)

/-- A descriptor of the receive ring is given another value. -/
def restore (index : ℕ) (change : RxDesc → RxDesc) (nic : Nic) : Nic :=
  (nic.tick progress).writeRxDesc index (change ((nic.tick progress).rx.ring index))

/-- The descriptor is handed back to the device, and the next one is the current one. -/
def handBack (index : ℕ) (nic : Nic) : Nic := (nic.tick progress).writeRdt index

/-- What the poll does with a descriptor that is done. -/
def takeFrame (capacity index : ℕ) (nic : Nic) : Nic × Received :=
  let nic := nic.tick progress
  let len := (nic.rx.ring index).length
  let copied := copyOut progress (index * E1000_RX_BUF_SIZE) (min len capacity) nic
  let nic := restore progress index (fun d ↦ { d with status := 0 }) copied.2
  let nic := restore progress index (fun d ↦ { d with length := 0 }) nic
  (handBack progress index nic, ⟨copied.1, len, capacity⟩)

/-- The status is read until the descriptor is done, a number of times at most. -/
def rxSpin (capacity : ℕ) : ℕ → Nic → Nic × ℤ × Option Received
  | 0, nic => (nic, 0, none)
  | spins + 1, nic =>
    let nic := nic.tick progress
    let index := nic.rxCur % E1000_RX_RING_COUNT
    if (nic.rx.ring index).status &&& E1000_TXD_STAT_DD = 0 then rxSpin capacity spins nic
    else
      let taken := takeFrame progress capacity index nic
      (taken.1, 1, some taken.2)

/-- `e1000_rx_poll_frame`; `buffer` says whether both pointers are there. -/
def e1000RxPollFrame (granted : Granted) (buffer : Bool) (capacity : ℕ) (spinLimit : ℤ)
    (nic : Nic) :
    Nic × ℤ × Option Received :=
  if !granted.call then (nic, -1, none)
  else if !buffer ∨ capacity = 0 then (nic, -1, none)
  else
    let spinLimit := if spinLimit ≤ 0 then 1000000 else spinLimit
    match nic.rxInitOnce granted with
    | none => (nic, -2, none)
    | some nic => rxSpin progress capacity spinLimit.toNat nic

/-! ### Runs -/

/-- The card, the frames that were accepted and what the polls gave. -/
structure Session where
  nic : Nic
  accepted : List Frame
  returned : List Received

/-- What happens: a call, or time passes. -/
inductive NicAction where
  | send (granted : Granted) (frame : Option Frame)
  | poll (granted : Granted) (buffer : Bool) (capacity : ℕ) (spinLimit : ℤ)
  | idle

/-- A frame is accepted if the result of its send is not -1 or -2. -/
def Session.step (session : Session) : NicAction → Session
  | .send granted frame =>
    let sent := e1000SendFrame progress granted frame session.nic
    { session with
      nic := sent.1
      accepted := session.accepted ++
        if sent.2 = -1 ∨ sent.2 = -2 then [] else frame.toList }
  | .poll granted buffer capacity spinLimit =>
    let polled := e1000RxPollFrame progress granted buffer capacity spinLimit session.nic
    { session with
      nic := polled.1
      returned := session.returned ++ polled.2.2.toList }
  | .idle => { session with nic := session.nic.tick progress }

/-- The start: neither ring is set up. -/
def Session.start : Session where
  nic :=
    { tx := ⟨fun _ ↦ 0, fun _ ↦ ⟨0, 0, 0, 0⟩, 0, 0, false, []⟩
      rx := ⟨fun _ ↦ 0, fun _ ↦ ⟨0, 0, 0⟩, 0, 0, false, []⟩
      txReady := false
      txTail := 0
      rxReady := false
      rxCur := 0
      clock := 0 }
  accepted := []
  returned := []

/-- What was transmitted is a part of what was accepted, from the first frame on; each other frame
is as it was in its descriptor. -/
def Transmits (tx : TxSide) (accepted : List Frame) : Prop :=
  tx.wire <+: accepted ∧
    ∀ n frame, tx.wire.length ≤ n → accepted[n]? = some frame →
      let d := tx.ring (n % E1000_TX_RING_COUNT)
      fetch tx.bufs d.addr d.length = frame

/-- What was returned are frames that were stored, from the first one on, up to the capacities. -/
def Receives (rx : RxSide) (returned : List Received) : Prop :=
  returned.length ≤ rx.stored.length ∧
    ∀ (n : ℕ) (received : Received), returned[n]? = some received →
    ∃ frame, rx.stored[n]? = some frame ∧
      received = ⟨frame.take received.capacity, frame.length, received.capacity⟩

/-- Both rings are in order, and a poll that is granted finds a frame where one is stored that was
not returned. -/
def Session.Faithful (session : Session) : Prop :=
  Transmits session.nic.tx session.accepted ∧ Receives session.nic.rx session.returned ∧
    (session.returned.length < session.nic.rx.stored.length →
      ∀ capacity spinLimit, 0 < capacity →
        (e1000RxPollFrame progress ⟨true, true, true⟩ true capacity spinLimit session.nic).2.1 = 1)

/-- A send finds fewer frames that were accepted and not transmitted than the ring has
descriptors. -/
def Session.Roomy (session : Session) : NicAction → Prop
  | .send _ _ => session.accepted.length < session.nic.tx.wire.length + E1000_TX_RING_COUNT
  | .poll _ _ _ _ => True
  | .idle => True

end EynOS.Drivers
