import EynOS.Drivers.NicTransmit

/-!
# The receive ring

`RxSound` counts the frames that were read and the descriptors that were given back, which differ by
one while a descriptor is handed back. The device stores in front of the tail only, so that the
descriptor that is read stays as it is.
-/

namespace EynOS.Drivers

open Foundation

/-- A descriptor is done and its buffer holds a frame. -/
structure RxSide.Holds (side : RxSide) (index : ℕ) (frame : Frame) : Prop where
  done : (side.ring index).status &&& E1000_TXD_STAT_DD ≠ 0
  length : (side.ring index).length = frame.length
  short : frame.length ≤ 2048
  bytes : fetch side.bufs (index * 2048) frame.length = frame

/-- The registers count the frames that were stored and the descriptors that were given back; each
frame that was not read is in its descriptor, and the other descriptors are not done. -/
structure RxSound (side : RxSide) (read given : ℕ) : Prop where
  given_le : given ≤ read
  read_le : read ≤ side.stored.length
  few : side.stored.length ≤ given + 31
  rdh : side.rdh = side.stored.length % 32
  rdt : side.rdt = (given + 31) % 32
  addr : ∀ index < 32, (side.ring index).addr = index * 2048
  holds : ∀ n frame, read ≤ n → side.stored[n]? = some frame → side.Holds (n % 32) frame
  clear : ∀ n, side.stored.length ≤ n → n < read + 32 →
    (side.ring (n % 32)).status &&& E1000_TXD_STAT_DD = 0

variable {side other : RxSide} {read given : ℕ} {nic : Nic} {index : ℕ} {frame : Frame}

/-- A frame stays where it is if its descriptor and the bytes of its buffer do. -/
theorem RxSide.Holds.of_same (hholds : side.Holds index frame)
    (hring : other.ring index = side.ring index)
    (hbufs : ∀ i < 2048, other.bufs (index * 2048 + i) = side.bufs (index * 2048 + i)) :
    other.Holds index frame where
  done := by
    rw [hring]
    exact hholds.done
  length := by
    rw [hring]
    exact hholds.length
  short := hholds.short
  bytes := (fetch_congr fun i hi ↦ hbufs i (by have := hholds.short; omega)).trans hholds.bytes

/-! ### The device -/

theorem done_of_or (status : UInt8) : (status ||| E1000_TXD_STAT_DD) &&& E1000_TXD_STAT_DD ≠ 0 := by
  have hbits : ∀ x : BitVec 8, (x ||| 1) &&& 1 ≠ 0 := by decide
  exact fun heq ↦ hbits status.toBitVec (congrArg UInt8.toBitVec heq)

theorem deposit_inside (bufs : ℕ → UInt8) (addr : ℕ) {i : ℕ} (hi : i < frame.length) :
    deposit bufs addr frame (addr + i) = frame[i] := by
  rw [deposit, if_pos (Nat.le_add_right _ _), Nat.add_sub_cancel_left,
    List.getD_eq_getElem?_getD, List.getElem?_eq_getElem hi, Option.getD_some]

theorem deposit_outside (bufs : ℕ → UInt8) {addr place : ℕ}
    (hplace : place < addr ∨ addr + frame.length ≤ place) :
    deposit bufs addr frame place = bufs place := by
  unfold deposit
  split_ifs with hbehind
  · rw [List.getD_eq_getElem?_getD, List.getElem?_eq_none (by omega), Option.getD_none]
  · rfl

/-- What the driver finds of the receive ring after the device went on: the descriptor that it may
read is the same, with its buffer, if there is one. -/
structure RxUndisturbed (given : ℕ) (before after : RxSide) : Prop where
  stored : before.stored <+: after.stored
  ring : given < before.stored.length → after.ring (given % 32) = before.ring (given % 32)
  bufs : given < before.stored.length → ∀ i < 2048,
    after.bufs (given % 32 * 2048 + i) = before.bufs (given % 32 * 2048 + i)

theorem RxUndisturbed.refl (given : ℕ) (side : RxSide) : RxUndisturbed given side side :=
  ⟨List.prefix_refl _, fun _ ↦ rfl, fun _ _ _ ↦ rfl⟩

theorem RxUndisturbed.trans {first second third : RxSide}
    (hfirst : RxUndisturbed given first second)
    (hsecond : RxUndisturbed given second third) : RxUndisturbed given first third where
  stored := hfirst.stored.trans hsecond.stored
  ring := fun hgiven ↦ (hsecond.ring (Nat.lt_of_lt_of_le hgiven hfirst.stored.length_le)).trans
    (hfirst.ring hgiven)
  bufs := fun hgiven i hi ↦
    (hsecond.bufs (Nat.lt_of_lt_of_le hgiven hfirst.stored.length_le) i hi).trans
      (hfirst.bufs hgiven i hi)

/-- A frame that arrives comes behind the others. -/
theorem RxSound.receive (hsound : RxSound side read given) (frame : Frame) :
    RxSound (side.receive frame) read given ∧ RxUndisturbed given side (side.receive frame) := by
  have hgiven := hsound.given_le
  have hread := hsound.read_le
  have hfew := hsound.few
  unfold RxSide.receive
  split_ifs with hgoes
  swap
  · exact ⟨hsound, .refl given side⟩
  obtain ⟨-, hne, hshort⟩ := hgoes
  rw [hsound.rdh, hsound.rdt] at hne
  have hless : side.stored.length < given + 31 := by omega
  have haddr : (side.ring side.rdh).addr = side.stored.length % 32 * 2048 := by
    rw [hsound.rdh, hsound.addr _ (Nat.mod_lt _ (by decide))]
  have hlength : (side.stored ++ [frame]).length = side.stored.length + 1 := by
    rw [List.length_append, List.length_singleton]
  have hbufs : ∀ index < 32, index ≠ side.stored.length % 32 → ∀ i < 2048,
      deposit side.bufs (side.ring side.rdh).addr frame (index * 2048 + i) =
        side.bufs (index * 2048 + i) := by
    intro index hindex hother i hi
    have hframe : frame.length ≤ 2048 := hshort
    refine deposit_outside _ ?_
    rw [haddr]
    omega
  refine ⟨⟨hgiven, ?_, ?_, ?_, hsound.rdt, ?_, ?_, ?_⟩, List.prefix_append _ _, fun hmore ↦ ?_,
    fun hmore ↦ ?_⟩
  · dsimp only
    omega
  · dsimp only
    omega
  · dsimp only
    rw [hlength, hsound.rdh]
    change (side.stored.length % 32 + 1) % 32 = _
    omega
  · intro index hindex
    dsimp only
    by_cases hsame : index = side.rdh
    · rw [hsame, Function.update_self]
      rw [hsame] at hindex
      exact hsound.addr _ hindex
    · rw [Function.update_of_ne hsame]
      exact hsound.addr _ hindex
  · intro n later hn hlater
    dsimp only at hlater
    have hbound := (List.getElem?_eq_some_iff.mp hlater).1
    rw [hlength] at hbound
    rcases Nat.lt_or_eq_of_le (Nat.le_of_lt_succ hbound) with hold | rfl
    · rw [List.getElem?_append_left hold] at hlater
      have hother : n % 32 ≠ side.stored.length % 32 := by omega
      refine (hsound.holds n later hn hlater).of_same ?_ (hbufs _ (Nat.mod_lt _ (by decide)) hother)
      dsimp only
      rw [hsound.rdh]
      exact Function.update_of_ne hother _ _
    · rw [List.getElem?_append_right (Nat.le_refl _), Nat.sub_self,
        List.getElem?_cons_zero] at hlater
      obtain rfl := Option.some.inj hlater
      rw [← hsound.rdh] at haddr
      rw [← hsound.rdh]
      refine ⟨?_, ?_, hshort, fetch_eq_iff.mpr fun i hi ↦ ?_⟩
      · dsimp only
        rw [Function.update_self]
        exact done_of_or _
      · dsimp only
        rw [Function.update_self]
      · dsimp only
        rw [← haddr]
        exact deposit_inside _ _ hi
  · intro n hlow hhigh
    dsimp only at hlow ⊢
    rw [hlength] at hlow
    rw [hsound.rdh, Function.update_of_ne (by omega)]
    exact hsound.clear n (by omega) hhigh
  · dsimp only
    rw [hsound.rdh]
    exact Function.update_of_ne (by omega) _ _
  · exact hbufs _ (Nat.mod_lt _ (by decide)) (by omega)

variable (progress : ℕ → List DeviceStep)

theorem RxSound.foldl_device (steps : List DeviceStep) (hsound : RxSound nic.rx read given) :
    RxSound (steps.foldl Nic.device nic).rx read given ∧
      RxUndisturbed given nic.rx (steps.foldl Nic.device nic).rx := by
  induction steps generalizing nic with
  | nil => exact ⟨hsound, .refl given nic.rx⟩
  | cons step steps ih =>
    obtain ⟨hnext, hundisturbed⟩ : RxSound (nic.device step).rx read given ∧
        RxUndisturbed given nic.rx (nic.device step).rx := by
      cases step with
      | transmit => exact ⟨hsound, .refl given nic.rx⟩
      | receive frame => exact hsound.receive frame
    obtain ⟨hlast, hrest⟩ := ih hnext
    exact ⟨hlast, hundisturbed.trans hrest⟩

theorem RxSound.tick (hsound : RxSound nic.rx read given) :
    RxSound (nic.tick progress).rx read given ∧
      RxUndisturbed given nic.rx (nic.tick progress).rx :=
  @RxSound.foldl_device read given { nic with clock := nic.clock + 1 } (progress nic.clock) hsound

/-- The device does not touch the state of the driver. -/
theorem tick_rxDriver (nic : Nic) :
    (nic.tick progress).rxReady = nic.rxReady ∧ (nic.tick progress).rxCur = nic.rxCur := by
  have hfold : ∀ (steps : List DeviceStep) (nic : Nic),
      (steps.foldl Nic.device nic).rxReady = nic.rxReady ∧
        (steps.foldl Nic.device nic).rxCur = nic.rxCur := by
    intro steps
    induction steps with
    | nil => exact fun _ ↦ ⟨rfl, rfl⟩
    | cons step steps ih =>
      intro nic
      obtain ⟨hready, hcur⟩ := ih (nic.device step)
      cases step with
      | transmit => exact ⟨hready, hcur⟩
      | receive frame => exact ⟨hready, hcur⟩
  exact hfold (progress nic.clock) { nic with clock := nic.clock + 1 }

/-! ### A frame is taken -/

/-- The driver with the ring, where the current descriptor is the next one to give back. -/
structure RxAt (nic : Nic) (read given : ℕ) : Prop where
  sound : RxSound nic.rx read given
  ready : nic.rxReady
  cur : nic.rxCur = given % 32

theorem RxAt.tick (hat : RxAt nic read given) :
    RxAt (nic.tick progress) read given ∧ RxUndisturbed given nic.rx (nic.tick progress).rx := by
  obtain ⟨hsound, hundisturbed⟩ := hat.sound.tick progress
  obtain ⟨hready, hcur⟩ := tick_rxDriver progress nic
  exact ⟨⟨hsound, hready.trans hat.ready, hcur.trans hat.cur⟩, hundisturbed⟩

/-- What is copied is what was in the buffer at the beginning. -/
theorem copyOut_reads {place count : ℕ} (hat : RxAt nic read given)
    (hmore : given < nic.rx.stored.length) (hlow : given % 32 * 2048 ≤ place)
    (hhigh : place + count ≤ given % 32 * 2048 + 2048) :
    (copyOut progress place count nic).1 = fetch nic.rx.bufs place count ∧
      RxAt (copyOut progress place count nic).2 read given ∧
      RxUndisturbed given nic.rx (copyOut progress place count nic).2.rx := by
  induction count generalizing nic place with
  | zero => exact ⟨rfl, hat, .refl given nic.rx⟩
  | succ count ih =>
    obtain ⟨hticked, hundisturbed⟩ := hat.tick progress
    obtain ⟨hbytes, hlast, hlater⟩ := @ih (nic.tick progress) (place + 1) hticked
      (Nat.lt_of_lt_of_le hmore hundisturbed.stored.length_le) (by omega) (by omega)
    have hsame : ∀ i < count + 1,
        (nic.tick progress).rx.bufs (place + i) = nic.rx.bufs (place + i) := by
      intro i hi
      have hbyte := hundisturbed.bufs hmore (place + i - given % 32 * 2048) (by omega)
      rwa [show given % 32 * 2048 + (place + i - given % 32 * 2048) = place + i by omega] at hbyte
    refine ⟨?_, hlast, hundisturbed.trans hlater⟩
    change (nic.tick progress).rx.bufs place :: (copyOut progress (place + 1) count _).1 = _
    rw [hbytes, ← fetch_congr hsame, fetch, fetch, List.range_succ_eq_map, List.map_cons,
      List.map_map]
    refine congrArg _ (List.map_congr_left fun i _ ↦ ?_)
    change _ = (nic.tick progress).rx.bufs (place + (i + 1))
    rw [show place + 1 + i = place + (i + 1) by omega]

/-- The descriptor that was read is not done any more. -/
theorem RxAt.clearStatus (hat : RxAt nic given given) (hmore : given < nic.rx.stored.length) :
    RxAt (restore progress (given % 32) (fun d ↦ { d with status := 0 }) nic)
      (given + 1) given := by
  obtain ⟨hticked, hundisturbed⟩ := hat.tick progress
  have hmore := Nat.lt_of_lt_of_le hmore hundisturbed.stored.length_le
  unfold restore
  generalize nic.tick progress = ticked at hticked hmore
  have hsound := hticked.sound
  have hfew := hsound.few
  refine ⟨⟨Nat.le_succ _, hmore, hfew, hsound.rdh, hsound.rdt, ?_, ?_, ?_⟩, hticked.ready,
    hticked.cur⟩
  · intro index hindex
    unfold Nic.writeRxDesc
    dsimp only
    by_cases hsame : index = given % 32
    · rw [hsame, Function.update_self]
      exact hsound.addr _ (Nat.mod_lt _ (by decide))
    · rw [Function.update_of_ne hsame]
      exact hsound.addr _ hindex
  · intro n frame hn hframe
    have hbound := (List.getElem?_eq_some_iff.mp hframe).1
    change n < ticked.rx.stored.length at hbound
    refine (hsound.holds n frame (by omega) hframe).of_same ?_ fun _ _ ↦ rfl
    exact Function.update_of_ne (by omega) _ _
  · intro n hlow hhigh
    change ticked.rx.stored.length ≤ n at hlow
    by_cases hsame : n % 32 = given % 32
    · rw [hsame]
      change (Function.update ticked.rx.ring (given % 32) _ (given % 32)).status &&& _ = 0
      rw [Function.update_self]
      change (0 : UInt8) &&& E1000_TXD_STAT_DD = 0
      decide
    · change (Function.update ticked.rx.ring (given % 32) _ (n % 32)).status &&& _ = 0
      rw [Function.update_of_ne hsame]
      exact hsound.clear n hlow (by omega)

/-- The length of the descriptor that was read does not matter. -/
theorem RxAt.clearLength (hat : RxAt nic (given + 1) given) :
    RxAt (restore progress (given % 32) (fun d ↦ { d with length := 0 }) nic)
      (given + 1) given := by
  obtain ⟨hticked, -⟩ := hat.tick progress
  unfold restore
  generalize nic.tick progress = ticked at hticked
  have hsound := hticked.sound
  have hfew := hsound.few
  have hring : ∀ index, ((ticked.writeRxDesc (given % 32)
      { ticked.rx.ring (given % 32) with length := 0 }).rx.ring index).addr =
        (ticked.rx.ring index).addr ∧
      ((ticked.writeRxDesc (given % 32)
        { ticked.rx.ring (given % 32) with length := 0 }).rx.ring index).status =
        (ticked.rx.ring index).status := by
    intro index
    unfold Nic.writeRxDesc
    dsimp only
    by_cases hsame : index = given % 32
    · rw [hsame, Function.update_self]
      exact ⟨rfl, rfl⟩
    · rw [Function.update_of_ne hsame]
      exact ⟨rfl, rfl⟩
  refine ⟨⟨Nat.le_succ _, hsound.read_le, hfew, hsound.rdh, hsound.rdt, ?_, ?_, ?_⟩, hticked.ready,
    hticked.cur⟩
  · intro index hindex
    rw [(hring index).1]
    exact hsound.addr _ hindex
  · intro n frame hn hframe
    have hbound := (List.getElem?_eq_some_iff.mp hframe).1
    change n < ticked.rx.stored.length at hbound
    refine (hsound.holds n frame hn hframe).of_same ?_ fun _ _ ↦ rfl
    exact Function.update_of_ne (by omega) _ _
  · intro n hlow hhigh
    rw [(hring _).2]
    exact hsound.clear n hlow hhigh

/-- The tail moves to the descriptor, and the next one is the current one. -/
theorem RxAt.handBack (hat : RxAt nic (given + 1) given) :
    RxAt (handBack progress (given % 32) nic) (given + 1) (given + 1) := by
  obtain ⟨hticked, -⟩ := hat.tick progress
  unfold Drivers.handBack
  generalize nic.tick progress = ticked at hticked
  have hsound := hticked.sound
  have hfew := hsound.few
  refine ⟨⟨Nat.le_refl _, hsound.read_le, ?_, hsound.rdh, ?_, hsound.addr, ?_, hsound.clear⟩,
    hticked.ready, ?_⟩
  · change ticked.rx.stored.length ≤ given + 1 + 31
    omega
  · change given % 32 = (given + 1 + 31) % 32
    omega
  · intro n frame hn hframe
    exact (hsound.holds n frame hn hframe).of_same rfl fun _ _ ↦ rfl
  · change (given % 32 + 1) % 32 = (given + 1) % 32
    omega

/-- A descriptor that is done gives the next frame that was not read. -/
theorem RxAt.takeFrame {capacity : ℕ} (hat : RxAt nic given given)
    (hframe : nic.rx.stored[given]? = some frame) :
    RxAt (takeFrame progress capacity (given % 32) nic).1 (given + 1) (given + 1) ∧
      (takeFrame progress capacity (given % 32) nic).2 =
        ⟨frame.take capacity, frame.length, capacity⟩ ∧
      nic.rx.stored <+: (takeFrame progress capacity (given % 32) nic).1.rx.stored := by
  have hmore := (List.getElem?_eq_some_iff.mp hframe).1
  obtain ⟨hticked, hundisturbed⟩ := hat.tick progress
  have hlater := Nat.lt_of_lt_of_le hmore hundisturbed.stored.length_le
  have hholds : (nic.tick progress).rx.Holds (given % 32) frame :=
    (hat.sound.holds given frame (Nat.le_refl _) hframe).of_same (hundisturbed.ring hmore)
      (hundisturbed.bufs hmore)
  have hshort := hholds.short
  unfold Drivers.takeFrame
  dsimp only
  rw [hholds.length]
  obtain ⟨hbytes, hcopied, hkept⟩ := @copyOut_reads given given (nic.tick progress) progress
    (given % 32 * E1000_RX_BUF_SIZE) (min frame.length capacity) hticked hlater (Nat.le_refl _)
    (by change given % 32 * 2048 + _ ≤ _; omega)
  have hbehind := Nat.lt_of_lt_of_le hlater hkept.stored.length_le
  have hcleared := hcopied.clearStatus progress hbehind
  have hstored : ∀ (change : RxDesc → RxDesc) (nic : Nic), RxAt nic given given ∨
      RxAt nic (given + 1) given →
      nic.rx.stored <+: (restore progress (given % 32) change nic).rx.stored := by
    rintro change nic (hat | hat)
    · exact (hat.tick progress).2.stored
    · exact (hat.tick progress).2.stored
  have hlast := hcleared.clearLength progress
  refine ⟨hlast.handBack progress, ?_, ?_⟩
  · rw [hbytes]
    refine congrArg (fun bytes ↦ (⟨bytes, frame.length, capacity⟩ : Received)) ?_
    rw [← hholds.bytes, fetch, fetch, List.length_map, List.length_range, ← List.map_take,
      List.take_range, Nat.min_comm]
    rfl
  · exact (hundisturbed.stored.trans hkept.stored).trans
      (((hstored _ _ (Or.inl hcopied)).trans (hstored _ _ (Or.inr hcleared))).trans
        (hlast.tick progress).2.stored)

/-- Each descriptor that a poll finds done is that of the next frame, and it is found if it is
done. -/
theorem rxSpin_takes (capacity spins : ℕ) (hat : RxAt nic given given) :
    ((rxSpin progress capacity spins nic).2 = (0, none) ∧
        (given < nic.rx.stored.length → spins = 0) ∧
        RxAt (rxSpin progress capacity spins nic).1 given given ∧
        nic.rx.stored <+: (rxSpin progress capacity spins nic).1.rx.stored) ∨
      ∃ frame, (rxSpin progress capacity spins nic).2 =
          (1, some ⟨frame.take capacity, frame.length, capacity⟩) ∧
        (rxSpin progress capacity spins nic).1.rx.stored[given]? = some frame ∧
        RxAt (rxSpin progress capacity spins nic).1 (given + 1) (given + 1) ∧
        nic.rx.stored <+: (rxSpin progress capacity spins nic).1.rx.stored := by
  induction spins generalizing nic with
  | zero => exact Or.inl ⟨rfl, fun _ ↦ rfl, hat, List.prefix_refl _⟩
  | succ spins ih =>
    obtain ⟨hticked, hundisturbed⟩ := hat.tick progress
    have hindex : (nic.tick progress).rxCur % E1000_RX_RING_COUNT = given % 32 := by
      rw [hticked.cur]
      exact Nat.mod_mod _ _
    rw [rxSpin]
    dsimp only
    rw [hindex]
    by_cases hdone :
        ((nic.tick progress).rx.ring (given % 32)).status &&& E1000_TXD_STAT_DD = 0
    · rw [if_pos hdone]
      have hnone : ¬given < (nic.tick progress).rx.stored.length := by
        intro hmore
        exact (hticked.sound.holds given _ (Nat.le_refl _) (List.getElem?_eq_getElem hmore)).done
          hdone
      have hbefore : ¬given < nic.rx.stored.length := fun hmore ↦
        hnone (Nat.lt_of_lt_of_le hmore hundisturbed.stored.length_le)
      rcases ih hticked with ⟨hresult, -, hlast, hstored⟩ | ⟨frame, hresult, hframe, hlast, hstored⟩
      · exact Or.inl ⟨hresult, fun hmore ↦ absurd hmore hbefore, hlast,
          hundisturbed.stored.trans hstored⟩
      · exact Or.inr ⟨frame, hresult, hframe, hlast, hundisturbed.stored.trans hstored⟩
    · rw [if_neg hdone]
      have hmore : given < (nic.tick progress).rx.stored.length := by
        by_contra hnot
        exact hdone (hticked.sound.clear given (Nat.le_of_not_lt hnot) (by omega))
      have hframe := List.getElem?_eq_getElem hmore
      obtain ⟨hlast, hreceived, hstored⟩ :=
        @RxAt.takeFrame given _ _ progress capacity hticked hframe
      refine Or.inr ⟨(nic.tick progress).rx.stored[given], ?_, ?_, hlast,
        hundisturbed.stored.trans hstored⟩
      · dsimp only
        rw [hreceived]
      · obtain ⟨later, hlater⟩ := hstored
        change (takeFrame progress capacity (given % 32) (nic.tick progress)).1.rx.stored[given]? =
          _
        rw [← hlater, List.getElem?_append_left hmore]
        exact hframe

end EynOS.Drivers
