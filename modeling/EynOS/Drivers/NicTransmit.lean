import EynOS.Drivers.Nic

/-!
# The transmit ring

`TxSound` says where the registers are and that each frame which was accepted and not transmitted is
in its descriptor. A step of the device keeps it and leaves the descriptor at the tail alone, so
that the driver fills this one undisturbed as long as it is not one that the device still has to
come to.
-/

namespace EynOS.Drivers

open Foundation

/-! ### Frames in buffers -/

section Frames

variable {bufs : ℕ → UInt8} {addr : ℕ} {frame : Frame}

@[simp] theorem length_fetch (bufs : ℕ → UInt8) (addr length : ℕ) :
    (fetch bufs addr length).length = length := by
  rw [fetch, List.length_map, List.length_range]

theorem fetch_eq_iff : fetch bufs addr frame.length = frame ↔
    ∀ i (hi : i < frame.length), bufs (addr + i) = frame[i] := by
  constructor
  · intro heq i hi
    have hvalue : (fetch bufs addr frame.length)[i]? = some frame[i] := by
      rw [heq]
      exact List.getElem?_eq_getElem hi
    rw [fetch, List.getElem?_map, List.getElem?_range hi] at hvalue
    exact Option.some.inj hvalue
  · intro hbytes
    refine List.ext_getElem (length_fetch _ _ _) fun i _ hi ↦ ?_
    rw [← hbytes i hi]
    simp only [fetch, List.getElem_map, List.getElem_range]

theorem fetch_congr {other : ℕ → UInt8} {length : ℕ}
    (hsame : ∀ i < length, other (addr + i) = bufs (addr + i)) :
    fetch other addr length = fetch bufs addr length :=
  List.map_congr_left fun i hi ↦ hsame i (List.mem_range.mp hi)

end Frames

/-! ### The invariant -/

/-- A descriptor and its buffer hold a frame. -/
structure TxSide.Holds (side : TxSide) (index : ℕ) (frame : Frame) : Prop where
  addr : (side.ring index).addr = index * 2048
  length : (side.ring index).length = frame.length
  short : frame.length ≤ 2048
  bytes : fetch side.bufs (index * 2048) frame.length = frame

/-- The registers count the frames, of which those that are not transmitted are in the ring. -/
structure TxSound (side : TxSide) (accepted : List Frame) : Prop where
  wire : side.wire <+: accepted
  few : accepted.length ≤ side.wire.length + 16
  tdh : side.tdh = side.wire.length % 16
  tdt : side.tdt = accepted.length % 16
  holds : ∀ n frame, side.wire.length ≤ n → accepted[n]? = some frame → side.Holds (n % 16) frame

variable {side other : TxSide} {accepted : List Frame} {nic : Nic} {index : ℕ} {frame : Frame}

/-- A frame stays where it is if its descriptor keeps its address and its length, and the bytes
stay. -/
theorem TxSide.Holds.of_same (hholds : side.Holds index frame)
    (haddr : (other.ring index).addr = (side.ring index).addr)
    (hlength : (other.ring index).length = (side.ring index).length)
    (hbufs : ∀ i < 2048, other.bufs (index * 2048 + i) = side.bufs (index * 2048 + i)) :
    other.Holds index frame where
  addr := haddr.trans hholds.addr
  length := hlength.trans hholds.length
  short := hholds.short
  bytes := (fetch_congr fun i hi ↦ hbufs i (by have := hholds.short; omega)).trans hholds.bytes

theorem TxSound.wire_le (hsound : TxSound side accepted) : side.wire.length ≤ accepted.length :=
  hsound.wire.length_le

/-- The device transmits the next frame that is waiting, and writes no buffer and not to the
descriptor at the tail. -/
theorem TxSound.transmit (hsound : TxSound side accepted) :
    TxSound side.transmit accepted ∧ side.transmit.bufs = side.bufs ∧
      side.transmit.tdt = side.tdt ∧ side.transmit.ring side.tdt = side.ring side.tdt ∧
      side.wire.length ≤ side.transmit.wire.length := by
  have hle := hsound.wire_le
  have hfew := hsound.few
  unfold TxSide.transmit
  split_ifs with hgoes
  swap
  · exact ⟨hsound, rfl, rfl, rfl, Nat.le_refl _⟩
  have hne := hgoes.2
  rw [hsound.tdh, hsound.tdt] at hne
  have hmore : side.wire.length < accepted.length := by
    by_contra hnot
    exact hne (by rw [Nat.le_antisymm hle (Nat.le_of_not_lt hnot)])
  have hfirst := hsound.holds side.wire.length _ (Nat.le_refl _) (List.getElem?_eq_getElem hmore)
  have hframe : fetch side.bufs (side.ring side.tdh).addr (side.ring side.tdh).length =
      accepted[side.wire.length] := by
    rw [hsound.tdh, hfirst.addr, hfirst.length]
    exact hfirst.bytes
  have hlength : ∀ frame : Frame, (side.wire ++ [frame]).length = side.wire.length + 1 := by
    intro frame
    rw [List.length_append, List.length_singleton]
  refine ⟨⟨?_, ?_, ?_, hsound.tdt, ?_⟩, rfl, rfl, ?_, ?_⟩
  · dsimp only
    rw [hframe, List.prefix_iff_eq_take, hlength, List.take_add_one,
      List.getElem?_eq_getElem hmore]
    exact congrArg (· ++ [accepted[side.wire.length]])
      (List.prefix_iff_eq_take.mp hsound.wire)
  · dsimp only
    rw [hlength]
    omega
  · dsimp only
    rw [hlength, hsound.tdh]
    change (side.wire.length % 16 + 1) % 16 = _
    omega
  · intro n frame hn hframe
    dsimp only at hn
    rw [hlength] at hn
    refine (hsound.holds n frame (by omega) hframe).of_same ?_ ?_ fun i _ ↦ rfl
    all_goals
      dsimp only
      by_cases hsame : n % 16 = side.tdh
      · rw [hsame, Function.update_self]
      · rw [Function.update_of_ne hsame]
  · exact Function.update_of_ne (Ne.symm hgoes.2) _ _
  · dsimp only
    rw [hlength]
    omega

/-! ### What the device does meanwhile -/

/-- The transmit ring as the driver finds it again: the buffers, the tail and the descriptor there
are the same. -/
structure TxUndisturbed (before after : Nic) : Prop where
  bufs : after.tx.bufs = before.tx.bufs
  tdt : after.tx.tdt = before.tx.tdt
  slot : after.tx.ring before.tx.tdt = before.tx.ring before.tx.tdt
  wire_le : before.tx.wire.length ≤ after.tx.wire.length
  txReady : after.txReady = before.txReady
  txTail : after.txTail = before.txTail

theorem TxUndisturbed.trans {first second third : Nic} (hfirst : TxUndisturbed first second)
    (hsecond : TxUndisturbed second third) : TxUndisturbed first third where
  bufs := hsecond.bufs.trans hfirst.bufs
  tdt := hsecond.tdt.trans hfirst.tdt
  slot := by
    have hslot := hsecond.slot
    rw [hfirst.tdt] at hslot
    exact hslot.trans hfirst.slot
  wire_le := Nat.le_trans hfirst.wire_le hsecond.wire_le
  txReady := hsecond.txReady.trans hfirst.txReady
  txTail := hsecond.txTail.trans hfirst.txTail

variable (progress : ℕ → List DeviceStep)

theorem TxSound.foldl_device (steps : List DeviceStep) (hsound : TxSound nic.tx accepted) :
    TxSound (steps.foldl Nic.device nic).tx accepted ∧
      TxUndisturbed nic (steps.foldl Nic.device nic) := by
  induction steps generalizing nic with
  | nil => exact ⟨hsound, ⟨rfl, rfl, rfl, Nat.le_refl _, rfl, rfl⟩⟩
  | cons step steps ih =>
    obtain ⟨hnext, hundisturbed⟩ : TxSound (nic.device step).tx accepted ∧
        TxUndisturbed nic (nic.device step) := by
      cases step with
      | transmit =>
        obtain ⟨hnext, hbufs, htdt, hslot, hle⟩ := hsound.transmit
        exact ⟨hnext, hbufs, htdt, hslot, hle, rfl, rfl⟩
      | receive frame => exact ⟨hsound, rfl, rfl, rfl, Nat.le_refl _, rfl, rfl⟩
    obtain ⟨hlast, hrest⟩ := ih hnext
    exact ⟨hlast, hundisturbed.trans hrest⟩

theorem TxSound.tick (hsound : TxSound nic.tx accepted) :
    TxSound (nic.tick progress).tx accepted ∧ TxUndisturbed nic (nic.tick progress) := by
  obtain ⟨hnext, hundisturbed⟩ :=
    @TxSound.foldl_device accepted { nic with clock := nic.clock + 1 } (progress nic.clock) hsound
  exact ⟨hnext, hundisturbed.bufs, hundisturbed.tdt, hundisturbed.slot, hundisturbed.wire_le,
    hundisturbed.txReady, hundisturbed.txTail⟩

/-! ### A descriptor is filled -/

/-- A change to the descriptor at the tail and its buffer, where it is not waiting for the
device. -/
theorem TxSound.change (hsound : TxSound side accepted)
    (hroom : accepted.length < side.wire.length + 16) (bufs : ℕ → UInt8) (d : TxDesc)
    (hbufs : ∀ index < 16, index ≠ accepted.length % 16 → ∀ i < 2048,
      bufs (index * 2048 + i) = side.bufs (index * 2048 + i)) :
    TxSound { side with bufs := bufs, ring := Function.update side.ring (accepted.length % 16) d }
      accepted where
  wire := hsound.wire
  few := hsound.few
  tdh := hsound.tdh
  tdt := hsound.tdt
  holds := by
    intro n frame hn hframe
    dsimp only at hn
    have hlast := (List.getElem?_eq_some_iff.mp hframe).1
    have hother : n % 16 ≠ accepted.length % 16 := by omega
    refine (hsound.holds n frame hn hframe).of_same ?_ ?_ ?_
    · dsimp only
      rw [Function.update_of_ne hother]
    · dsimp only
      rw [Function.update_of_ne hother]
    · exact hbufs _ (Nat.mod_lt _ (by decide)) hother

/-- The frame in the descriptor at the tail is accepted when the tail moves. -/
theorem TxSound.accept (hsound : TxSound side accepted)
    (hroom : accepted.length < side.wire.length + 16)
    (hholds : side.Holds (accepted.length % 16) frame) :
    TxSound { side with tdt := (accepted.length % 16 + 1) % 16 } (accepted ++ [frame]) where
  wire := hsound.wire.trans (List.prefix_append _ _)
  few := by
    rw [List.length_append, List.length_singleton]
    exact hroom
  tdh := hsound.tdh
  tdt := by
    dsimp only
    rw [List.length_append, List.length_singleton]
    omega
  holds := by
    intro n other hn hother
    dsimp only at hn
    rcases Nat.lt_trichotomy n accepted.length with hless | heq | hmore
    · rw [List.getElem?_append_left hless] at hother
      exact (hsound.holds n other hn hother).of_same rfl rfl fun _ _ ↦ rfl
    · subst heq
      rw [List.getElem?_append_right (Nat.le_refl _), Nat.sub_self,
        List.getElem?_cons_zero] at hother
      rw [← Option.some.inj hother]
      exact hholds.of_same rfl rfl fun _ _ ↦ rfl
    · rw [List.getElem?_append_right (by omega), List.getElem?_eq_none] at hother
      · cases hother
      · rw [List.length_singleton]
        omega

/-- What is the same while the descriptor at the tail is filled. -/
structure Filling (accepted : List Frame) (before after : Nic) : Prop where
  sound : TxSound after.tx accepted
  room : accepted.length < after.tx.wire.length + 16
  txReady : after.txReady = before.txReady
  txTail : after.txTail = before.txTail

/-- Bytes of a frame come to their places in the buffer at the tail. -/
theorem copyFrame_fills {place : ℕ} (hsound : TxSound nic.tx accepted)
    (hroom : accepted.length < nic.tx.wire.length + 16)
    (hlow : accepted.length % 16 * 2048 ≤ place)
    (hhigh : place + frame.length ≤ accepted.length % 16 * 2048 + 2048) :
    Filling accepted nic (copyFrame progress place frame nic) ∧
      (∀ i (hi : i < frame.length),
        (copyFrame progress place frame nic).tx.bufs (place + i) = frame[i]) ∧
      ∀ other < place, (copyFrame progress place frame nic).tx.bufs other = nic.tx.bufs other := by
  induction frame generalizing nic place with
  | nil => exact ⟨⟨hsound, hroom, rfl, rfl⟩, fun i hi ↦ absurd hi (Nat.not_lt_zero i),
    fun _ _ ↦ rfl⟩
  | cons byte frame ih =>
    rw [List.length_cons] at hhigh
    obtain ⟨hticked, hundisturbed⟩ := hsound.tick progress
    have hwire := hundisturbed.wire_le
    rw [copyFrame]
    generalize nic.tick progress = ticked at hticked hundisturbed hwire
    have hchanged := hticked.change (by omega) (Function.update ticked.tx.bufs place byte)
      (ticked.tx.ring (accepted.length % 16)) fun index hindex hne i hi ↦
        Function.update_of_ne (by omega) _ _
    rw [Function.update_eq_self] at hchanged
    obtain ⟨hfilling, hbytes, hbefore⟩ := @ih (ticked.storeByte place byte) (place + 1) hchanged
      (show _ < ticked.tx.wire.length + 16 by omega) (by omega) (by omega)
    refine ⟨⟨hfilling.sound, hfilling.room, hfilling.txReady.trans hundisturbed.txReady,
      hfilling.txTail.trans hundisturbed.txTail⟩, fun i hi ↦ ?_, fun other hother ↦ ?_⟩
    · cases i with
      | zero =>
        change (copyFrame progress (place + 1) frame (ticked.storeByte place byte)).tx.bufs
          place = byte
        rw [hbefore place (Nat.lt_succ_self place)]
        exact Function.update_self _ _ _
      | succ i =>
        rw [List.length_cons] at hi
        rw [show place + (i + 1) = place + 1 + i by omega, hbytes i (by omega)]
        rfl
    · rw [hbefore other (by omega), ← hundisturbed.bufs]
      exact Function.update_of_ne (by omega) _ _

/-- The descriptor at the tail ends with the last of its values, and the buffers stay. -/
theorem describe_fills (values : List TxDesc) (hsound : TxSound nic.tx accepted)
    (hroom : accepted.length < nic.tx.wire.length + 16) :
    Filling accepted nic (describe progress (accepted.length % 16) values nic) ∧
      (describe progress (accepted.length % 16) values nic).tx.bufs = nic.tx.bufs ∧
      (describe progress (accepted.length % 16) values nic).tx.ring (accepted.length % 16) =
        (values.getLast?).getD (nic.tx.ring (accepted.length % 16)) := by
  induction values generalizing nic with
  | nil => exact ⟨⟨hsound, hroom, rfl, rfl⟩, rfl, rfl⟩
  | cons d values ih =>
    obtain ⟨hticked, hundisturbed⟩ := hsound.tick progress
    have hwire := hundisturbed.wire_le
    rw [describe]
    generalize nic.tick progress = ticked at hticked hundisturbed hwire
    have hchanged := hticked.change (by omega) ticked.tx.bufs d fun _ _ _ _ _ ↦ rfl
    obtain ⟨hfilling, hbufs, hvalue⟩ := @ih (ticked.writeTxDesc (accepted.length % 16) d) hchanged
      (show _ < ticked.tx.wire.length + 16 by omega)
    refine ⟨⟨hfilling.sound, hfilling.room, hfilling.txReady.trans hundisturbed.txReady,
      hfilling.txTail.trans hundisturbed.txTail⟩, hbufs.trans hundisturbed.bufs, ?_⟩
    rw [hvalue, show (ticked.writeTxDesc (accepted.length % 16) d).tx.ring
      (accepted.length % 16) = d
      from Function.update_self _ _ _]
    cases values with
    | nil => rfl
    | cons next values => rw [List.getLast?_cons_cons, List.getLast?_cons]; rfl

theorem postFrame_accepts (hsound : TxSound nic.tx accepted)
    (hroom : accepted.length < nic.tx.wire.length + 16) (htail : nic.txTail = accepted.length % 16)
    (hshort : frame.length ≤ 2048) :
    TxSound (postFrame progress frame nic).tx (accepted ++ [frame]) ∧
      (postFrame progress frame nic).txTail = (accepted ++ [frame]).length % 16 ∧
      (postFrame progress frame nic).txReady = nic.txReady := by
  have hindex : nic.txTail % E1000_TX_RING_COUNT = accepted.length % 16 := by
    rw [htail]
    exact Nat.mod_mod _ _
  unfold postFrame
  dsimp only
  rw [hindex]
  obtain ⟨hcopied, hbytes, -⟩ := @copyFrame_fills accepted nic frame progress
    (accepted.length % 16 * E1000_TX_BUF_SIZE) hsound hroom (Nat.le_refl _)
    (Nat.add_le_add_left hshort _)
  generalize copyFrame progress (accepted.length % 16 * E1000_TX_BUF_SIZE) frame nic = copied
    at hcopied hbytes
  obtain ⟨hdescribed, hbufs, hvalue⟩ := describe_fills progress
    (descriptorValues (accepted.length % 16 * E1000_TX_BUF_SIZE) frame.length) hcopied.sound
    hcopied.room
  generalize describe progress (accepted.length % 16)
    (descriptorValues (accepted.length % 16 * E1000_TX_BUF_SIZE) frame.length) copied = described
    at hdescribed hbufs hvalue
  obtain ⟨hticked, hundisturbed⟩ := hdescribed.sound.tick progress
  have hslot := hundisturbed.slot
  rw [hdescribed.sound.tdt, hvalue] at hslot
  have hroom := Nat.lt_of_lt_of_le hdescribed.room (Nat.add_le_add_right hundisturbed.wire_le 16)
  unfold advanceTail
  generalize described.tick progress = ticked at hticked hundisturbed hslot hroom
  have hholds : ticked.tx.Holds (accepted.length % 16) frame := by
    refine ⟨?_, ?_, hshort, fetch_eq_iff.mpr fun i hi ↦ ?_⟩
    · rw [hslot]
      rfl
    · rw [hslot]
      rfl
    · rw [hundisturbed.bufs, hbufs]
      exact hbytes i hi
  refine ⟨hticked.accept hroom hholds, ?_, ?_⟩
  · change (accepted.length % 16 + 1) % 16 = _
    rw [List.length_append, List.length_singleton]
    omega
  · exact hundisturbed.txReady.trans (hdescribed.txReady.trans hcopied.txReady)

/-- Waiting leaves the ring to the device; its result is never -1 or -2. -/
theorem awaitDone_keeps (index spins : ℕ) (hsound : TxSound nic.tx accepted) :
    TxSound (awaitDone progress index spins nic).1.tx accepted ∧
      TxUndisturbed nic (awaitDone progress index spins nic).1 ∧
      (awaitDone progress index spins nic).2 ≠ -1 ∧
      (awaitDone progress index spins nic).2 ≠ -2 := by
  induction spins generalizing nic with
  | zero =>
    exact ⟨hsound, ⟨rfl, rfl, rfl, Nat.le_refl _, rfl, rfl⟩, show (-3 : ℤ) ≠ -1 by decide,
      show (-3 : ℤ) ≠ -2 by decide⟩
  | succ spins ih =>
    obtain ⟨hticked, hundisturbed⟩ := hsound.tick progress
    rw [awaitDone]
    by_cases hdone :
        ((nic.tick progress).tx.ring index).status &&& E1000_TXD_STAT_DD ≠ 0
    · rw [if_pos hdone]
      exact ⟨hticked, hundisturbed, show (0 : ℤ) ≠ -1 by decide, show (0 : ℤ) ≠ -2 by decide⟩
    · rw [if_neg hdone]
      obtain ⟨hlast, hlater, hresult⟩ := ih hticked
      exact ⟨hlast, hundisturbed.trans hlater, hresult⟩

/-! ### The calls -/

/-- The transmit ring with what the driver knows of it. -/
structure TxReady (nic : Nic) (accepted : List Frame) : Prop where
  sound : TxSound nic.tx accepted
  tail : nic.txReady → nic.txTail = accepted.length % 16
  fresh : ¬nic.txReady → accepted = []

/-- A ring that was set up is empty, and one that had been stays. -/
theorem TxReady.txInitOnce {granted : Granted} {next : Nic} (hready : TxReady nic accepted)
    (hnext : nic.txInitOnce granted = some next) :
    TxReady next accepted ∧ next.txReady ∧ next.tx.wire = nic.tx.wire := by
  unfold Nic.txInitOnce at hnext
  split_ifs at hnext with hinit hdone hobtained
  · obtain rfl := Option.some.inj hnext
    exact ⟨hready, hdone, rfl⟩
  · obtain rfl := Option.some.inj hnext
    obtain rfl := hready.fresh hdone
    have hwire : nic.tx.wire = [] := List.prefix_nil.mp hready.sound.wire
    refine ⟨⟨⟨hready.sound.wire, hready.sound.few, ?_, rfl, ?_⟩, fun _ ↦ rfl, fun hnot ↦
      absurd rfl hnot⟩,
      rfl, rfl⟩
    · dsimp only
      rw [hwire]
      rfl
    · intro n frame _ hframe
      cases hframe

/-- What a send comes to: it is refused, or its frame is posted. -/
theorem e1000SendFrame_cases (granted : Granted) (frame : Option Frame) (nic : Nic) :
    e1000SendFrame progress granted frame nic = (nic, -1) ∨
      e1000SendFrame progress granted frame nic = (nic, -2) ∨
      ∃ sent next, frame = some sent ∧ sent.length ≤ 2048 ∧ nic.txInitOnce granted = some next ∧
        e1000SendFrame progress granted frame nic =
          awaitDone progress (next.txTail % E1000_TX_RING_COUNT) 1000000
            (postFrame progress sent next) := by
  unfold e1000SendFrame
  by_cases hcall : !granted.call
  · rw [if_pos hcall]
    exact Or.inl rfl
  rw [if_neg hcall]
  cases frame with
  | none => exact Or.inl rfl
  | some sent =>
    dsimp only
    by_cases hlength : sent.length = 0 ∨ E1000_TX_BUF_SIZE < sent.length
    · rw [if_pos hlength]
      exact Or.inl rfl
    rw [if_neg hlength]
    cases hinit : nic.txInitOnce granted with
    | none => exact Or.inr (Or.inl rfl)
    | some next =>
      exact Or.inr (Or.inr ⟨sent, next, rfl, Nat.le_of_not_lt (not_or.mp hlength).2, rfl, rfl⟩)

/-- A send with room in the ring accepts its frame or leaves the ring as it was. -/
theorem TxReady.e1000SendFrame (hready : TxReady nic accepted) (granted : Granted)
    (frame : Option Frame) (hroom : accepted.length < nic.tx.wire.length + E1000_TX_RING_COUNT) :
    TxReady (e1000SendFrame progress granted frame nic).1
      (accepted ++ if (e1000SendFrame progress granted frame nic).2 = -1 ∨
        (e1000SendFrame progress granted frame nic).2 = -2 then [] else frame.toList) := by
  have hcases := e1000SendFrame_cases progress granted frame nic
  generalize Drivers.e1000SendFrame progress granted frame nic = result at hcases
  rcases hcases with rfl | rfl | ⟨sent, next, rfl, hshort, hinit, rfl⟩
  · rw [if_pos (Or.inl rfl), List.append_nil]
    exact hready
  · rw [if_pos (Or.inr rfl), List.append_nil]
    exact hready
  · obtain ⟨hset, hdone, hwire⟩ := hready.txInitOnce hinit
    rw [← hwire] at hroom
    obtain ⟨hposted, htail, hkept⟩ :=
      postFrame_accepts progress hset.sound hroom (hset.tail hdone) hshort
    obtain ⟨hlast, hundisturbed, hone, htwo⟩ := awaitDone_keeps progress
      (next.txTail % E1000_TX_RING_COUNT) 1000000 hposted
    rw [if_neg (not_or.mpr ⟨hone, htwo⟩)]
    refine ⟨hlast, fun _ ↦ hundisturbed.txTail.trans htail, fun hnot ↦ absurd ?_ hnot⟩
    rw [hundisturbed.txReady, hkept]
    exact hdone

theorem TxReady.tick (hready : TxReady nic accepted) : TxReady (nic.tick progress) accepted := by
  obtain ⟨hsound, hundisturbed⟩ := hready.sound.tick progress
  refine ⟨hsound, fun hdone ↦ ?_, fun hnot ↦ ?_⟩
  · rw [hundisturbed.txReady] at hdone
    exact hundisturbed.txTail.trans (hready.tail hdone)
  · rw [hundisturbed.txReady] at hnot
    exact hready.fresh hnot

theorem TxReady.transmits (hready : TxReady nic accepted) : Transmits nic.tx accepted := by
  refine ⟨hready.sound.wire, fun n frame hn hframe ↦ ?_⟩
  have hholds := hready.sound.holds n frame hn hframe
  dsimp only
  change fetch nic.tx.bufs (nic.tx.ring (n % 16)).addr (nic.tx.ring (n % 16)).length = frame
  rw [hholds.addr, hholds.length]
  exact hholds.bytes

end EynOS.Drivers
