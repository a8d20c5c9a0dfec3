import EynOS.Foundation.MachineWord
import EynOS.Foundation.Run
import Mathlib.Algebra.BigOperators.Group.List.Basic

/-!
# The mouse

`mouse.c`: the assembler of packets in `mouse_interrupt_handler` and `mouse_poll`, which share a
buffer and differ in the flag that the second one sets, and `mouse_read_event`. The packets of the
stream and what they mean are `Packet`; a run interleaves the two consumers of its bytes with reads.

`Assembled` ties the buffer and the bytes that are left to the packets of the stream, `Counted` the
state to what the packets since the last read mean. `faithful_of_smooth` is the law for runs in
which every packet that is completed is smooth and of the packets between two reads only the last
one changes the buttons.
-/

namespace EynOS.Drivers

open Foundation

/-! ### The device -/

/-- The kinds of mouse that `mouse_init` tells apart. -/
inductive Device where
  | standard
  | wheel
  | explorer

def Device.packetLen : Device → ℕ
  | .standard => 3
  | .wheel => 4
  | .explorer => 4

def Device.hasWheel : Device → Bool
  | .standard => false
  | .wheel => true
  | .explorer => true

def Device.hasFiveButtons : Device → Bool
  | .standard => false
  | .wheel => false
  | .explorer => true

/-- A packet of a device, synchronised and without an overflow. -/
structure Packet (device : Device) where
  status : UInt8
  dx : UInt8
  dy : UInt8
  fourth : UInt8
  sync : status &&& 0x08 ≠ 0
  noOverflow : status &&& 0xC0 = 0

def Packet.bytes {device : Device} (packet : Packet device) : List UInt8 :=
  match device with
  | .standard => [packet.status, packet.dx, packet.dy]
  | .wheel => [packet.status, packet.dx, packet.dy, packet.fourth]
  | .explorer => [packet.status, packet.dx, packet.dy, packet.fourth]

/-- Two's complement with nine bits, of which the sign is in the status byte. -/
def nineBits (sign low : UInt8) : ℤ := if sign = 0 then low.toNat else low.toNat - 256

def Packet.moveX {device : Device} (packet : Packet device) : ℤ :=
  nineBits (packet.status &&& 0x10) packet.dx

def Packet.moveY {device : Device} (packet : Packet device) : ℤ :=
  nineBits (packet.status &&& 0x20) packet.dy

/-- The steps of the wheel: the lower four bits of the fourth byte in two's complement. -/
def Packet.steps {device : Device} (packet : Packet device) : ℤ :=
  match device with
  | .standard => 0
  | .wheel | .explorer =>
    if packet.fourth.toNat % 16 < 8 then packet.fourth.toNat % 16 else packet.fourth.toNat % 16 - 16

def MOUSE_BUTTON_4 : UInt8 := 0x08

def MOUSE_BUTTON_5 : UInt8 := 0x10

def Packet.held {device : Device} (packet : Packet device) : UInt8 :=
  match device with
  | .standard | .wheel => packet.status &&& 0x07
  | .explorer =>
    (packet.status &&& 0x07) |||
      (if packet.fourth &&& 0x10 ≠ 0 then MOUSE_BUTTON_4 else 0) |||
      (if packet.fourth &&& 0x20 ≠ 0 then MOUSE_BUTTON_5 else 0)

/-! ### The driver -/

structure Bounds where
  minX : ℤ
  minY : ℤ
  maxX : ℤ
  maxY : ℤ

structure MouseState where
  x : ℤ
  y : ℤ
  deltaX : ℤ
  deltaY : ℤ
  wheelDelta : ℤ
  buttons : UInt8
  prevButtons : UInt8
  initialized : Bool

structure MouseEvent where
  x : ℤ
  y : ℤ
  deltaX : ℤ
  deltaY : ℤ
  wheelDelta : ℤ
  buttons : UInt8
  buttonChanges : UInt8

/-- The state, and the bytes of the packet buffer up to the packet index. -/
structure Mouse where
  state : MouseState
  packet : List UInt8

def mousePacketIsSync (b0 : UInt8) : Bool := b0 &&& 0x08 ≠ 0

def mousePacketHasOverflow (b0 : UInt8) : Bool := b0 &&& 0xC0 ≠ 0

def signExtend8 (v : UInt8) : ℤ := if v < 128 then v.toNat else v.toNat - 256

def wheelSteps (device : Device) (fourth : UInt8) : ℤ :=
  if device.hasWheel ∧ 4 ≤ device.packetLen then
    let z := fourth &&& 0x0F
    let z := if z &&& 0x08 ≠ 0 then z ||| 0xF0 else z
    signExtend8 z
  else 0

def packetButtons (device : Device) (status fourth : UInt8) : UInt8 :=
  let buttons := status &&& 0x07
  if device.hasFiveButtons ∧ 4 ≤ device.packetLen then
    let buttons := if fourth &&& 0x10 ≠ 0 then buttons ||| MOUSE_BUTTON_4 else buttons
    if fourth &&& 0x20 ≠ 0 then buttons ||| MOUSE_BUTTON_5 else buttons
  else buttons

/-- A coordinate is brought into its bounds. -/
def clampAxis (low high value : ℤ) : ℤ :=
  let value := if value < low then low else value
  if high < value then high else value

/-- What a complete packet does to the state. -/
def applyPacket (device : Device) (bounds : Bounds) (state : MouseState) (packet : List UInt8) :
    MouseState :=
  let status := packet.getD 0 0
  let fourth := packet.getD 3 0
  let dx := signExtend8 (packet.getD 1 0)
  let dy := signExtend8 (packet.getD 2 0)
  { state with
    prevButtons := state.buttons
    buttons := packetButtons device status fourth
    deltaX := i32 (state.deltaX + dx)
    deltaY := i32 (state.deltaY + dy)
    wheelDelta := i32 (state.wheelDelta + wheelSteps device fourth)
    x := clampAxis bounds.minX bounds.maxX (i32 (state.x + dx))
    y := clampAxis bounds.minY bounds.maxY (i32 (state.y - dy)) }

/-- A byte goes into the buffer unless a packet cannot begin with it; the last byte of a packet
applies it, `finish` first, unless the packet has an overflow. -/
def acceptByte (device : Device) (bounds : Bounds) (finish : MouseState → MouseState)
    (mouse : Mouse)
    (data : UInt8) : Mouse :=
  if mouse.packet = [] ∧ !mousePacketIsSync data then mouse
  else
    let packet := mouse.packet ++ [data]
    if packet.length = device.packetLen then
      if mousePacketHasOverflow (packet.getD 0 0) then { mouse with packet := [] }
      else { state := applyPacket device bounds (finish mouse.state) packet, packet := [] }
    else { mouse with packet := packet }

/-- The bytes of one run of the interrupt handler are drained; without initialization none is. -/
def mouseInterruptHandler (device : Device) (bounds : Bounds) (mouse : Mouse) (bytes : List UInt8) :
    Mouse :=
  if !mouse.state.initialized then mouse
  else (bytes.take 256).foldl (acceptByte device bounds id) mouse

/-- The bytes of one poll are drained; a complete packet stands for the initialization. -/
def mousePoll (device : Device) (bounds : Bounds) (mouse : Mouse) (bytes : List UInt8) : Mouse :=
  (bytes.take 256).foldl
    (acceptByte device bounds fun state ↦ { state with initialized := true }) mouse

def MouseState.event (state : MouseState) : MouseEvent where
  x := state.x
  y := state.y
  deltaX := state.deltaX
  deltaY := state.deltaY
  wheelDelta := state.wheelDelta
  buttons := state.buttons
  buttonChanges := state.buttons ^^^ state.prevButtons

/-- An event is read; the transition of the buttons and the deltas are consumed with it. -/
def mouseReadEvent (mouse : Mouse) : Option (MouseEvent × Mouse) :=
  let state := mouse.state
  if !state.initialized then none
  else
    some (state.event, { mouse with state := { state with
      prevButtons := state.buttons, deltaX := 0, deltaY := 0, wheelDelta := 0 } })

/-! ### Runs -/

/-- The driver, the bytes that the controller still has, how many were taken from it, and the events
that were read, each with the number of bytes taken before it. -/
structure World where
  mouse : Mouse
  pending : List UInt8
  taken : ℕ
  events : List (ℕ × MouseEvent)

/-- What happens: the handler or a poll finds some bytes at the controller, or an event is read. -/
inductive Action where
  | interrupt (available : ℕ)
  | poll (available : ℕ)
  | read

/-- The bytes that an action takes: a loop reads at most 256. -/
def World.drained (world : World) : Action → List UInt8
  | .interrupt available =>
    if world.mouse.state.initialized then (world.pending.take available).take 256 else []
  | .poll available => (world.pending.take available).take 256
  | .read => []

def World.step (device : Device) (bounds : Bounds) (world : World) (action : Action) : World :=
  match action with
  | .interrupt available =>
    { world with
      mouse := mouseInterruptHandler device bounds world.mouse (world.pending.take available)
      pending := world.pending.drop (world.drained action).length
      taken := world.taken + (world.drained action).length }
  | .poll available =>
    { world with
      mouse := mousePoll device bounds world.mouse (world.pending.take available)
      pending := world.pending.drop (world.drained action).length
      taken := world.taken + (world.drained action).length }
  | .read =>
    match mouseReadEvent world.mouse with
    | none => world
    | some (event, mouse) =>
      { world with mouse := mouse, events := world.events ++ [(world.taken, event)] }

/-- The start of a run: nothing is in the buffer and nothing has moved since the last read. -/
def World.start {device : Device} (x y : ℤ) (buttons : UInt8) (initialized : Bool)
    (stream : List (Packet device)) : World where
  mouse := ⟨⟨x, y, 0, 0, 0, buttons, buttons, initialized⟩, []⟩
  pending := stream.flatMap Packet.bytes
  taken := 0
  events := []

/-! ### What the packets mean -/

section

variable {device : Device}

def heldAfter (buttons : UInt8) (packets : List (Packet device)) : UInt8 :=
  (packets.getLast?.map Packet.held).getD buttons

/-- The position after some packets, each applied with clamping to the bounds. -/
def placeAfter (bounds : Bounds) (place : ℤ × ℤ) (packets : List (Packet device)) : ℤ × ℤ :=
  packets.foldl (fun place packet ↦
    (clampAxis bounds.minX bounds.maxX (place.1 + packet.moveX),
      clampAxis bounds.minY bounds.maxY (place.2 - packet.moveY))) place

/-- An event tells what the packets mean that were completed since an earlier read. -/
structure MouseEvent.Tells (bounds : Bounds) (place : ℤ × ℤ) (buttons : UInt8)
    (stream : List (Packet device)) (before after : ℕ) (event : MouseEvent) : Prop where
  place_eq : (event.x, event.y) = placeAfter bounds place (stream.take after)
  buttons_eq : event.buttons = heldAfter buttons (stream.take after)
  changes_eq : event.buttonChanges =
    heldAfter buttons (stream.take after) ^^^ heldAfter buttons (stream.take before)
  deltaX_eq : event.deltaX = (((stream.take after).drop before).map Packet.moveX).sum
  deltaY_eq : event.deltaY = (((stream.take after).drop before).map Packet.moveY).sum
  wheelDelta_eq : event.wheelDelta = (((stream.take after).drop before).map Packet.steps).sum

/-- Every event of a list tells what was completed since the one before, the last one when the given
number of packets was. -/
inductive Told (bounds : Bounds) (place : ℤ × ℤ) (buttons : UInt8) (stream : List (Packet device)) :
    List (ℕ × MouseEvent) → ℕ → Prop
  | none : Told bounds place buttons stream [] 0
  | read {events : List (ℕ × MouseEvent)} {before taken : ℕ} {event : MouseEvent}
    (hbefore : Told bounds place buttons stream events before)
    (hle : before ≤ taken / device.packetLen)
    (hevent : event.Tells bounds place buttons stream before (taken / device.packetLen)) :
    Told bounds place buttons stream (events ++ [(taken, event)]) (taken / device.packetLen)

/-- The position is that of the packets that were completed, and every event told what it should. -/
structure Faithful (bounds : Bounds) (place : ℤ × ℤ) (buttons : UInt8)
    (stream : List (Packet device)) (world : World) : Prop where
  place_eq : (world.mouse.state.x, world.mouse.state.y) =
    placeAfter bounds place (stream.take (world.taken / device.packetLen))
  told : ∃ last, Told bounds place buttons stream world.events last

/-- The byte completes no packet, or one whose movement fits in eight bits with the sign, so that no
sum leaves the range of an `int`. -/
def SmoothByte (device : Device) (mouse : Mouse) (data : UInt8) : Prop :=
  let packet := mouse.packet ++ [data]
  let dx := signExtend8 (packet.getD 1 0)
  let dy := signExtend8 (packet.getD 2 0)
  packet.length = device.packetLen →
    (packet.getD 0 0 &&& 0x10 = 0 ↔ packet.getD 1 0 < 128) ∧
    (packet.getD 0 0 &&& 0x20 = 0 ↔ packet.getD 2 0 < 128) ∧
    IsInt32 (mouse.state.deltaX + dx) ∧ IsInt32 (mouse.state.deltaY + dy) ∧
    IsInt32 (mouse.state.wheelDelta + wheelSteps device (packet.getD 3 0)) ∧
    IsInt32 (mouse.state.x + dx) ∧ IsInt32 (mouse.state.y - dy)

/-- How many packets had been completed at the last read. -/
def World.lastRead (device : Device) (world : World) : ℕ :=
  (world.events.getLast?.map fun event ↦ event.1 / device.packetLen).getD 0

/-- The packets of the stream between two numbers of completed ones. -/
def between (stream : List (Packet device)) (last completed : ℕ) : List (Packet device) :=
  (stream.take completed).drop last

/-- Every byte of a run is smooth, and of the packets completed since the last read all but the last
one leave the buttons as they were. -/
def Smooth (bounds : Bounds) (buttons : UInt8) (stream : List (Packet device)) (world : World)
    (action : Action) : Prop :=
  match action with
  | .interrupt _ => Allowed (SmoothByte device) (acceptByte device bounds id) world.mouse
      (world.drained action)
  | .poll _ => Allowed (SmoothByte device)
      (acceptByte device bounds fun state ↦ { state with initialized := true }) world.mouse
      (world.drained action)
  | .read =>
    let held := heldAfter buttons (stream.take (world.lastRead device))
    heldAfter held
      (between stream (world.lastRead device) (world.taken / device.packetLen)).dropLast = held

instance (mouse : Mouse) (data : UInt8) : Decidable (SmoothByte device mouse data) :=
  inferInstanceAs (Decidable (_ → _))

instance (bounds : Bounds) (buttons : UInt8) (stream : List (Packet device)) (world : World) :
    (action : Action) → Decidable (Smooth bounds buttons stream world action)
  | .interrupt _ => inferInstanceAs (Decidable (Allowed _ _ _ _))
  | .poll _ => inferInstanceAs (Decidable (Allowed _ _ _ _))
  | .read => inferInstanceAs (Decidable (_ = _))

end

variable {device : Device} {bounds : Bounds} {place : ℤ × ℤ} {buttons : UInt8}
  {stream : List (Packet device)} {mouse : Mouse} {world : World} {data : UInt8}
  {pending : List UInt8} {packet : Packet device} {finish : MouseState → MouseState}
  {completed last : ℕ}

/-! ### Decoding -/

theorem Packet.length_bytes (packet : Packet device) : packet.bytes.length = device.packetLen := by
  cases device <;> rfl

theorem Packet.getD_zero (packet : Packet device) : packet.bytes.getD 0 0 = packet.status := by
  cases device <;> rfl

theorem Packet.getD_one (packet : Packet device) : packet.bytes.getD 1 0 = packet.dx := by
  cases device <;> rfl

theorem Packet.getD_two (packet : Packet device) : packet.bytes.getD 2 0 = packet.dy := by
  cases device <;> rfl

/-- The lower four bits of a byte with their sign. -/
theorem signExtend8_nibble (value : UInt8) :
    signExtend8 (if (value &&& 0x0F) &&& 0x08 ≠ 0 then (value &&& 0x0F) ||| 0xF0
      else value &&& 0x0F) =
      if value.toNat % 16 < 8 then (value.toNat : ℤ) % 16 else (value.toNat : ℤ) % 16 - 16 := by
  have hall : ∀ index : Fin 256,
      signExtend8 (if (UInt8.ofFin index &&& 0x0F) &&& 0x08 ≠ 0 then
        (UInt8.ofFin index &&& 0x0F) ||| 0xF0 else UInt8.ofFin index &&& 0x0F) =
      if index.val % 16 < 8 then (index.val : ℤ) % 16 else (index.val : ℤ) % 16 - 16 := by
    decide +kernel
  exact hall value.toFin

theorem wheelSteps_bytes (packet : Packet device) :
    wheelSteps device (packet.bytes.getD 3 0) = packet.steps := by
  cases device with
  | standard => rfl
  | wheel => exact signExtend8_nibble packet.fourth
  | explorer => exact signExtend8_nibble packet.fourth

theorem packetButtons_bytes (packet : Packet device) :
    packetButtons device packet.status (packet.bytes.getD 3 0) = packet.held := by
  cases device with
  | standard => rfl
  | wheel => rfl
  | explorer =>
    have hfourth : packet.bytes.getD 3 0 = packet.fourth := rfl
    unfold packetButtons Packet.held
    rw [if_pos ⟨rfl, Nat.le_refl 4⟩, hfourth]
    by_cases hfour : packet.fourth &&& 0x10 = 0 <;> by_cases hfive : packet.fourth &&& 0x20 = 0 <;>
      simp [hfour, hfive]

theorem nineBits_eq {sign low : UInt8} (hfits : sign = 0 ↔ low < 128) :
    signExtend8 low = nineBits sign low := by
  unfold signExtend8 nineBits
  by_cases hsign : sign = 0
  · rw [if_pos hsign, if_pos (hfits.mp hsign)]
  · rw [if_neg hsign, if_neg fun hlow ↦ hsign (hfits.mpr hlow)]

/-! ### Assembling packets -/

/-- The buffer begins the next packet of the stream, and the bytes that are left go on with it. -/
structure Assembled (stream : List (Packet device)) (completed : ℕ) (mouse : Mouse)
    (pending : List UInt8) (taken : ℕ) : Prop where
  bytes : mouse.packet ++ pending = (stream.drop completed).flatMap Packet.bytes
  short : mouse.packet.length < device.packetLen
  taken_eq : taken = completed * device.packetLen + mouse.packet.length

theorem Assembled.completed_eq {taken : ℕ}
    (hassembled : Assembled stream completed mouse pending taken) :
    taken / device.packetLen = completed := by
  have hshort := hassembled.short
  rw [hassembled.taken_eq, Nat.mul_comm, Nat.mul_add_div (by omega), Nat.div_eq_of_lt hshort,
    Nat.add_zero]

/-- A byte of the stream goes into the buffer, or completes the next packet of the stream. -/
theorem acceptByte_cases {taken : ℕ}
    (hassembled : Assembled stream completed mouse (data :: pending) taken) :
    (acceptByte device bounds finish mouse data = { mouse with packet := mouse.packet ++ [data] } ∧
      (mouse.packet ++ [data]).length ≠ device.packetLen ∧
      Assembled stream completed { mouse with packet := mouse.packet ++ [data] } pending
        (taken + 1)) ∨
    ∃ packet : Packet device, stream[completed]? = some packet ∧
      mouse.packet ++ [data] = packet.bytes ∧
      acceptByte device bounds finish mouse data =
        ⟨applyPacket device bounds (finish mouse.state) packet.bytes, []⟩ ∧
      ∀ state, Assembled stream (completed + 1) ⟨state, []⟩ pending (taken + 1) := by
  obtain ⟨hbytes, hshort, htaken⟩ := hassembled
  obtain ⟨packet, rest, hdrop⟩ : ∃ packet rest, stream.drop completed = packet :: rest := by
    cases hdrop : stream.drop completed with
    | nil =>
      rw [hdrop] at hbytes
      exact absurd hbytes (by simp)
    | cons packet rest => exact ⟨packet, rest, rfl⟩
  have hnext : stream[completed]? = some packet := by
    rw [← List.head?_drop, hdrop]
    rfl
  have hlater : stream.drop (completed + 1) = rest := by
    rw [← List.drop_drop, hdrop]
    rfl
  rw [hdrop, List.flatMap_cons] at hbytes
  have hlength := packet.length_bytes
  -- the packet begins with the buffer and the byte
  obtain ⟨more, hpacket, hpending⟩ : ∃ more, packet.bytes = (mouse.packet ++ [data]) ++ more ∧
      pending = more ++ rest.flatMap Packet.bytes := by
    have hsplit : (mouse.packet ++ [data]) ++ pending =
        packet.bytes ++ rest.flatMap Packet.bytes := by
      rw [List.append_assoc]
      exact hbytes
    rcases List.append_eq_append_iff.mp hsplit with ⟨more, hpacket, hpending⟩ |
      ⟨more, hpacket, hpending⟩
    · exact ⟨more, hpacket, hpending⟩
    · have hsame := congrArg List.length hpacket
      simp only [List.length_append, List.length_singleton] at hsame
      have hmore : more = [] := List.length_eq_zero_iff.mp (by omega)
      subst hmore
      exact ⟨[], by rw [List.append_nil, hpacket, List.append_nil],
        by rw [List.nil_append, hpending, List.nil_append]⟩
  have hsync : ¬(mouse.packet = [] ∧ (!mousePacketIsSync data) = true) := by
    rintro ⟨hempty, hunsynced⟩
    have hfirst := packet.getD_zero
    rw [hpacket, hempty] at hfirst
    obtain rfl : data = packet.status := hfirst
    have := packet.sync
    simp [mousePacketIsSync, this] at hunsynced
  unfold acceptByte
  rw [if_neg hsync]
  dsimp only
  have hcount := congrArg List.length hpacket
  rw [List.length_append, hlength] at hcount
  by_cases hfull : (mouse.packet ++ [data]).length = device.packetLen
  · have hmore : more = [] := List.length_eq_zero_iff.mp (by omega)
    subst hmore
    rw [List.append_nil] at hpacket
    refine Or.inr ⟨packet, hnext, hpacket.symm, ?_, fun state ↦ ⟨?_, ?_, ?_⟩⟩
    · rw [if_pos hfull, ← hpacket, packet.getD_zero, mousePacketHasOverflow,
        decide_eq_false (not_not_intro packet.noOverflow)]
      rfl
    · rw [hlater, hpending]
      rfl
    · dsimp only
      rw [List.length_nil]
      omega
    · dsimp only
      rw [List.length_append, List.length_singleton] at hfull
      rw [Nat.succ_mul, List.length_nil]
      omega
  · refine Or.inl ⟨if_neg hfull, hfull, ?_, ?_, ?_⟩
    · rw [hdrop, List.flatMap_cons, hpacket, hpending, List.append_assoc (mouse.packet ++ [data])]
    · dsimp only
      omega
    · dsimp only
      rw [List.length_append, List.length_singleton]
      omega

/-! ### What the state counts -/

/-- The position and the buttons are those of the packets that were completed, the deltas those of
the packets since the last read, and `prev_buttons` the buttons before the last one of these. -/
structure Counted (bounds : Bounds) (place : ℤ × ℤ) (buttons : UInt8)
    (stream : List (Packet device)) (last completed : ℕ) (state : MouseState) : Prop where
  place_eq : (state.x, state.y) = placeAfter bounds place (stream.take completed)
  buttons_eq : state.buttons = heldAfter buttons (stream.take completed)
  prevButtons_eq : state.prevButtons =
    heldAfter (heldAfter buttons (stream.take last)) (between stream last completed).dropLast
  deltaX_eq : state.deltaX = ((between stream last completed).map Packet.moveX).sum
  deltaY_eq : state.deltaY = ((between stream last completed).map Packet.moveY).sum
  wheelDelta_eq : state.wheelDelta = ((between stream last completed).map Packet.steps).sum
  last_le : last ≤ completed

theorem heldAfter_append (earlier later : List (Packet device)) :
    heldAfter buttons (earlier ++ later) = heldAfter (heldAfter buttons earlier) later := by
  rcases List.eq_nil_or_concat' later with rfl | ⟨later, packet, rfl⟩
  · rw [List.append_nil]
    rfl
  · unfold heldAfter
    rw [← List.append_assoc, List.getLast?_concat, List.getLast?_concat]
    rfl

/-- The buttons after some packets, by way of those at the last read. -/
theorem heldAfter_between (hle : last ≤ completed) :
    heldAfter (heldAfter buttons (stream.take last)) (between stream last completed) =
      heldAfter buttons (stream.take completed) := by
  have hsplit := List.take_append_drop last (stream.take completed)
  rw [List.take_take, Nat.min_eq_left hle] at hsplit
  rw [← heldAfter_append, between, hsplit]

theorem between_self : between stream completed completed = [] :=
  List.drop_of_length_le (List.length_take_le _ _)

/-- A smooth packet is counted. -/
theorem Counted.complete {state : MouseState}
    (hcounted : Counted bounds place buttons stream last completed state)
    (hnext : stream[completed]? = some packet) (hbytes : mouse.packet ++ [data] = packet.bytes)
    (hstate : mouse.state = state) (hsmooth : SmoothByte device mouse data) (initialized : Bool) :
    Counted bounds place buttons stream last (completed + 1)
      (applyPacket device bounds { state with initialized := initialized } packet.bytes) := by
  subst hstate
  unfold SmoothByte at hsmooth
  dsimp only at hsmooth
  rw [hbytes, packet.getD_zero, packet.getD_one, packet.getD_two, wheelSteps_bytes] at hsmooth
  obtain ⟨hx, hy, hdeltaX, hdeltaY, hwheel, hright, hdown⟩ := hsmooth packet.length_bytes
  rw [nineBits_eq hx] at hdeltaX hright
  rw [nineBits_eq hy] at hdeltaY hdown
  have hlast := hcounted.last_le
  obtain ⟨hless, -⟩ := List.getElem?_eq_some_iff.mp hnext
  have htake : stream.take (completed + 1) = stream.take completed ++ [packet] := by
    rw [List.take_add_one, hnext]
    rfl
  have hdrop : between stream last (completed + 1) =
      between stream last completed ++ [packet] := by
    unfold between
    rw [htake, List.drop_append_of_le_length (by rw [List.length_take]; omega)]
  have hplace := hcounted.place_eq
  unfold applyPacket
  refine ⟨?_, ?_, ?_, ?_, ?_, ?_, by omega⟩
  · dsimp only
    rw [packet.getD_one, packet.getD_two, nineBits_eq hx, nineBits_eq hy, i32_of_isInt32 hright,
      i32_of_isInt32 hdown, htake, placeAfter, List.foldl_append]
    unfold placeAfter at hplace
    rw [← hplace]
    rfl
  · dsimp only
    rw [packet.getD_zero, packetButtons_bytes, htake, heldAfter, List.getLast?_concat]
    rfl
  -- the buttons before the packet are those after all the packets before it
  · dsimp only
    rw [hdrop, List.dropLast_concat, heldAfter_between hlast]
    exact hcounted.buttons_eq
  · dsimp only
    rw [packet.getD_one, nineBits_eq hx, i32_of_isInt32 hdeltaX, hcounted.deltaX_eq, hdrop,
      List.map_append, List.sum_append]
    exact congrArg _ (List.sum_singleton).symm
  · dsimp only
    rw [packet.getD_two, nineBits_eq hy, i32_of_isInt32 hdeltaY, hcounted.deltaY_eq, hdrop,
      List.map_append, List.sum_append]
    exact congrArg _ (List.sum_singleton).symm
  · dsimp only
    rw [wheelSteps_bytes, i32_of_isInt32 hwheel, hcounted.wheelDelta_eq, hdrop, List.map_append,
      List.sum_append]
    exact congrArg _ (List.sum_singleton).symm

/-! ### Steps -/

/-- The bytes of one run of a consumer, each smooth, keep the tie to the stream and the counts. -/
theorem drain {taken : ℕ} {bytes : List UInt8} {mark : Bool → Bool}
    (hassembled : Assembled stream completed mouse (bytes ++ pending) taken)
    (hcounted : Counted bounds place buttons stream last completed mouse.state)
    (hsmooth : Allowed (SmoothByte device)
      (acceptByte device bounds fun state ↦
        { state with initialized := mark state.initialized }) mouse
      bytes) :
    ∃ later,
      Assembled stream later (bytes.foldl (acceptByte device bounds fun state ↦
        { state with initialized := mark state.initialized }) mouse) pending
          (taken + bytes.length) ∧
      Counted bounds place buttons stream last later
        (bytes.foldl (acceptByte device bounds fun state ↦
        { state with initialized := mark state.initialized }) mouse).state := by
  induction bytes generalizing mouse completed taken with
  | nil => exact ⟨completed, hassembled, hcounted⟩
  | cons data bytes ih =>
    obtain ⟨hfirst, hrest⟩ := hsmooth
    rw [List.foldl_cons, List.length_cons, Nat.add_comm bytes.length, ← Nat.add_assoc]
    rcases acceptByte_cases hassembled with ⟨haccept, -, hnext⟩ |
      ⟨packet, hpacket, hbytes, haccept, hnext⟩
    · rw [haccept] at hrest ⊢
      exact ih hnext hcounted hrest
    · rw [haccept] at hrest ⊢
      exact ih (hnext _) (hcounted.complete hpacket hbytes rfl hfirst _) hrest

/-- What holds all along a run: the buffer is tied to the stream, the state counts, and every event
told what it should. -/
def Kept (bounds : Bounds) (place : ℤ × ℤ) (buttons : UInt8) (stream : List (Packet device))
    (world : World) : Prop :=
  ∃ completed last, Assembled stream completed world.mouse world.pending world.taken ∧
    Counted bounds place buttons stream last completed world.mouse.state ∧
    Told bounds place buttons stream world.events last

theorem Told.lastRead_eq (htold : Told bounds place buttons stream world.events last) :
    world.lastRead device = last := by
  unfold World.lastRead
  generalize world.events = events at htold
  cases htold with
  | none => rfl
  | read _ _ _ =>
    rw [List.getLast?_concat]
    rfl

/-- A drain whose bytes are smooth is a step that keeps everything. -/
theorem kept_drain {bytes : List UInt8} {mark : Bool → Bool} {next : World}
    (hkept : Kept bounds place buttons stream world)
    (hbytes : world.pending = bytes ++ next.pending)
    (hmouse : next.mouse = bytes.foldl (acceptByte device bounds fun state ↦
      { state with initialized := mark state.initialized }) world.mouse)
    (htaken : next.taken = world.taken + bytes.length) (hevents : next.events = world.events)
    (hsmooth : Allowed (SmoothByte device)
      (acceptByte device bounds fun state ↦ { state with initialized := mark state.initialized })
      world.mouse bytes) :
    Kept bounds place buttons stream next := by
  obtain ⟨completed, last, hassembled, hcounted, htold⟩ := hkept
  rw [hbytes] at hassembled
  obtain ⟨later, hafter, hcounted⟩ := drain hassembled hcounted hsmooth
  rw [← hmouse] at hafter hcounted
  rw [← htaken] at hafter
  exact ⟨later, last, hafter, hcounted, hevents ▸ htold⟩

/-- The bytes that a run takes are the first ones of those that are left. -/
theorem drained_append (pending : List UInt8) (available : ℕ) :
    pending = (pending.take available).take 256 ++
      pending.drop ((pending.take available).take 256).length := by
  rw [List.take_take, List.length_take]
  conv_lhs => rw [← List.take_append_drop (min 256 available) pending]
  congr 1
  rcases Nat.le_total (min 256 available) pending.length with hle | hge
  · rw [Nat.min_eq_left hle]
  · rw [Nat.min_eq_right hge, List.drop_of_length_le hge, List.drop_length]

/-- A smooth step keeps everything. -/
theorem kept_step {action : Action} (hkept : Kept bounds place buttons stream world)
    (hsmooth : Smooth bounds buttons stream world action) :
    Kept bounds place buttons stream (world.step device bounds action) := by
  cases action with
  | interrupt available =>
    have hsplit := drained_append world.pending available
    by_cases hinitialized : world.mouse.state.initialized = true
    · have hdrained : world.drained (.interrupt available) =
          (world.pending.take available).take 256 := if_pos hinitialized
      unfold Smooth at hsmooth
      dsimp only at hsmooth
      rw [hdrained] at hsmooth
      refine @kept_drain _ _ _ _ _ _
        ((world.pending.take available).take 256) id _ hkept ?_ ?_ ?_ rfl
        hsmooth
      · unfold World.step
        dsimp only
        rw [hdrained]
        exact hsplit
      · unfold World.step mouseInterruptHandler
        dsimp only
        rw [hinitialized]
        rfl
      · unfold World.step
        dsimp only
        rw [hdrained]
    · have hdrained : world.drained (.interrupt available) = [] := if_neg hinitialized
      have hsame : world.step device bounds (.interrupt available) = world := by
        unfold World.step mouseInterruptHandler
        dsimp only
        rw [hdrained, Bool.eq_false_of_not_eq_true hinitialized]
        rfl
      rw [hsame]
      exact hkept
  | poll available =>
    exact @kept_drain _ _ _ _ _ _ ((world.pending.take available).take 256) (fun _ ↦ true) _ hkept
      (drained_append world.pending available) rfl rfl rfl hsmooth
  | read =>
    by_cases hinitialized : world.mouse.state.initialized = true
    · obtain ⟨completed, last, hassembled, hcounted, htold⟩ := hkept
      have hcompleted := hassembled.completed_eq
      have hlast := hcounted.last_le
      unfold World.step mouseReadEvent
      dsimp only
      rw [hinitialized]
      refine ⟨completed, completed,
        ⟨hassembled.bytes, hassembled.short, hassembled.taken_eq⟩, ?_, ?_⟩
      · refine ⟨hcounted.place_eq, hcounted.buttons_eq, ?_, ?_, ?_, ?_, Nat.le_refl _⟩ <;>
          rw [between_self]
        · exact hcounted.buttons_eq
        · rfl
        · rfl
        · rfl
      · have hprevious : world.mouse.state.prevButtons = heldAfter buttons (stream.take last) := by
          unfold Smooth at hsmooth
          dsimp only at hsmooth
          rw [htold.lastRead_eq, hcompleted] at hsmooth
          rw [hcounted.prevButtons_eq, hsmooth]
        have hevent : world.mouse.state.event.Tells bounds place buttons stream last
            (world.taken / device.packetLen) := by
          rw [hcompleted]
          refine ⟨hcounted.place_eq, hcounted.buttons_eq, ?_, hcounted.deltaX_eq,
            hcounted.deltaY_eq,
            hcounted.wheelDelta_eq⟩
          rw [← hcounted.buttons_eq, ← hprevious]
          rfl
        have hread := Told.read htold (by omega) hevent
        rw [hcompleted] at hread
        exact hread
    · have hsame : world.step device bounds .read = world := by
        unfold World.step mouseReadEvent
        dsimp only
        rw [Bool.eq_false_of_not_eq_true hinitialized]
        rfl
      rw [hsame]
      exact hkept

/-! ### The law -/

theorem kept_start (x y : ℤ) (initialized : Bool) :
    Kept bounds (x, y) buttons stream (World.start x y buttons initialized stream) := by
  refine ⟨0, 0, ⟨rfl, ?_, ?_⟩, ⟨rfl, rfl, rfl, rfl, rfl, rfl, Nat.le_refl 0⟩, .none⟩
  · cases device <;> exact Nat.succ_pos _
  · rw [Nat.zero_mul]
    rfl

theorem Kept.faithful (hkept : Kept bounds place buttons stream world) :
    Faithful bounds place buttons stream world := by
  obtain ⟨completed, last, hassembled, hcounted, htold⟩ := hkept
  exact ⟨hassembled.completed_eq ▸ hcounted.place_eq, last, htold⟩

/-- In every run whose steps are smooth the position and the events are those of the packets. -/
theorem faithful_of_smooth (bounds : Bounds) (x y : ℤ) (buttons : UInt8) (initialized : Bool)
    (stream : List (Packet device)) {actions : List Action}
    (hrun : Run (Guarded (Smooth bounds buttons stream) (Moves (World.step device bounds)))
      (World.start x y buttons initialized stream) actions world) :
    Faithful bounds (x, y) buttons stream world :=
  (hrun.guarded_invariant (fun _ _ _ hkept hsmooth hmoves ↦ hmoves ▸ kept_step hkept hsmooth)
    (kept_start x y initialized)).faithful

/-- A press that moves is drained in parts by the handler and a poll and read; a movement with the
button held and the release are drained at once and read. -/
theorem faithful_of_smooth_press :
    let press : Packet .standard := ⟨0x09, 3, 2, 0, by decide, by decide⟩
    let move : Packet .standard := ⟨0x19, 0xFB, 0, 0, by decide, by decide⟩
    let release : Packet .standard := ⟨0x08, 0, 0, 0, by decide, by decide⟩
    let bounds : Bounds := ⟨0, 0, 639, 479⟩
    Faithful bounds (320, 240) 0 [press, move, release]
      ([.interrupt 2, .read, .poll 1, .read, .interrupt 6, .read].foldl
        (World.step .standard bounds)
        (World.start 320 240 0 true [press, move, release])) := by
  exact faithful_of_smooth ⟨0, 0, 639, 479⟩ 320 240 0 true _ (Run.of_allowed (by decide))

/-- What the last event of a list tells. -/
theorem Told.tells {events : List (ℕ × MouseEvent)} {taken : ℕ} {event : MouseEvent}
    (htold : Told bounds place buttons stream (events ++ [(taken, event)]) last) :
    ∃ before, Told bounds place buttons stream events before ∧
      event.Tells bounds place buttons stream before (taken / device.packetLen) := by
  generalize hall : events ++ [(taken, event)] = all at htold
  cases htold with
  | none => exact absurd hall (by simp)
  | read hbefore _ hevent =>
    obtain ⟨rfl, hlast⟩ := List.append_inj' hall rfl
    obtain ⟨rfl, rfl⟩ := Prod.mk.inj (List.singleton_inj.mp hlast)
    exact ⟨_, hbefore, hevent⟩

theorem Told.eq_zero (htold : Told bounds place buttons stream [] last) : last = 0 := by
  generalize hall : ([] : List (ℕ × MouseEvent)) = all at htold
  cases htold with
  | none => rfl
  | read _ _ _ => exact absurd hall (by simp)

/-- A press is followed by a movement before the event is read: the transition is lost. -/
theorem mouseReadEvent_loses_press :
    let press : Packet .standard := ⟨0x09, 0, 0, 0, by decide, by decide⟩
    let move : Packet .standard := ⟨0x09, 1, 0, 0, by decide, by decide⟩
    let bounds : Bounds := ⟨0, 0, 639, 479⟩
    let world := [.interrupt 6, .read].foldl (World.step .standard bounds)
      (World.start 320 240 0 true [press, move])
    world.events.map (fun event ↦ event.2.buttonChanges) = [0] ∧
      ¬Faithful bounds (320, 240) 0 [press, move] world := by
  refine ⟨by decide, fun hfaithful ↦ ?_⟩
  obtain ⟨last, htold⟩ := hfaithful.told
  obtain ⟨before, hbefore, hevent⟩ :=
    Told.tells (show Told _ _ _ _ ([] ++ [(6, _)]) last from htold)
  obtain rfl := hbefore.eq_zero
  exact absurd hevent.changes_eq (by decide)

end EynOS.Drivers
