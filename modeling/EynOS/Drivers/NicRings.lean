import EynOS.Drivers.NicReceive

/-!
# Both rings over runs

A send does not touch the receive ring and a poll does not touch the transmit ring. `rings_faithful`
is the law for every run whose sends find room in the transmit ring.
-/

namespace EynOS.Drivers

open Foundation

variable {nic : Nic} {accepted : List Frame} {returned : List Received}
  (progress : ℕ → List DeviceStep)

/-! ### The receive ring between calls -/

/-- The receive ring with what the driver knows of it, and what it gave. -/
structure RxReady (nic : Nic) (returned : List Received) : Prop where
  receives : Receives nic.rx returned
  current : nic.rxReady → RxAt nic returned.length returned.length
  fresh : ¬nic.rxReady → nic.rx.enabled = false ∧ nic.rx.stored = [] ∧ returned = []

/-- What was returned stays right when more is stored. -/
theorem Receives.of_prefix {side other : RxSide} (hreceives : Receives side returned)
    (hstored : side.stored <+: other.stored) : Receives other returned := by
  refine ⟨Nat.le_trans hreceives.1 hstored.length_le, fun n received hreceived ↦ ?_⟩
  obtain ⟨frame, hframe, heq⟩ := hreceives.2 n received hreceived
  obtain ⟨later, hlater⟩ := hstored
  refine ⟨frame, ?_, heq⟩
  rw [← hlater, List.getElem?_append_left (List.getElem?_eq_some_iff.mp hframe).1]
  exact hframe

/-- A ring that is not enabled stays as it is. -/
theorem tick_disabled (nic : Nic) (hdisabled : nic.rx.enabled = false) :
    (nic.tick progress).rx = nic.rx := by
  have hfold : ∀ (steps : List DeviceStep) (nic : Nic), nic.rx.enabled = false →
      (steps.foldl Nic.device nic).rx = nic.rx := by
    intro steps
    induction steps with
    | nil => exact fun _ _ ↦ rfl
    | cons step steps ih =>
      intro nic hdisabled
      have hsame : (nic.device step).rx = nic.rx := by
        cases step with
        | transmit => rfl
        | receive frame =>
          change nic.rx.receive frame = nic.rx
          rw [RxSide.receive, if_neg (by simp [hdisabled])]
      exact (ih (nic.device step) (by rw [hsame]; exact hdisabled)).trans hsame
  exact hfold (progress nic.clock) { nic with clock := nic.clock + 1 } hdisabled

theorem RxReady.tick (hready : RxReady nic returned) : RxReady (nic.tick progress) returned := by
  obtain ⟨hsame, -⟩ := tick_rxDriver progress nic
  by_cases hset : nic.rxReady
  · obtain ⟨hat, hundisturbed⟩ := (hready.current hset).tick progress
    exact ⟨hready.receives.of_prefix hundisturbed.stored, fun _ ↦ hat,
      fun hnot ↦ absurd hat.ready hnot⟩
  · obtain ⟨hdisabled, hstored, hreturned⟩ := hready.fresh hset
    have hrx := tick_disabled progress nic hdisabled
    refine ⟨?_, fun hset' ↦ absurd (hsame ▸ hset') hset, fun _ ↦ ?_⟩
    · rw [hrx]
      exact hready.receives
    · rw [hrx]
      exact ⟨hdisabled, hstored, hreturned⟩

/-- An initialization that is granted is made; a ring that was set up is empty. -/
theorem RxReady.rxInitOnce (hready : RxReady nic returned) (granted : Granted) :
    (nic.rxInitOnce granted = none →
        ¬(granted = ⟨true, true, true⟩ ∧ returned.length < nic.rx.stored.length)) ∧
      ∀ next, nic.rxInitOnce granted = some next →
        RxReady next returned ∧ next.rxReady ∧ next.rx.stored = nic.rx.stored := by
  unfold Nic.rxInitOnce
  by_cases hinit : !granted.init
  · rw [if_pos hinit]
    refine ⟨?_, fun next hnext ↦ by cases hnext⟩
    rintro - ⟨rfl, -⟩
    cases hinit
  rw [if_neg hinit]
  by_cases hset : nic.rxReady
  · rw [if_pos hset]
    refine ⟨fun hnot ↦ (by cases hnot), fun next hnext ↦ ?_⟩
    obtain rfl := Option.some.inj hnext
    exact ⟨hready, hset, rfl⟩
  rw [if_neg hset]
  obtain ⟨-, hstored, hreturned⟩ := hready.fresh hset
  by_cases hobtained : !granted.obtained
  · rw [if_pos hobtained]
    refine ⟨?_, fun next hnext ↦ by cases hnext⟩
    rintro - ⟨rfl, -⟩
    cases hobtained
  · rw [if_neg hobtained]
    refine ⟨fun hnot ↦ (by cases hnot), fun next hnext ↦ ?_⟩
    obtain rfl := Option.some.inj hnext
    refine ⟨⟨hready.receives, fun _ ↦ ?_, fun hnot ↦ absurd rfl hnot⟩, rfl, rfl⟩
    subst hreturned
    refine ⟨⟨Nat.le_refl _, Nat.zero_le _, ?_, ?_, rfl, fun index _ ↦ rfl, ?_, ?_⟩, rfl, rfl⟩
    · dsimp only
      rw [hstored]
      exact Nat.zero_le _
    · dsimp only
      rw [hstored]
      rfl
    · intro n frame _ hframe
      dsimp only at hframe
      rw [hstored] at hframe
      cases hframe
    · intro n _ _
      change (0 : UInt8) &&& E1000_TXD_STAT_DD = 0
      decide

/-- A poll gives the next frame that was stored, or nothing; it gives one that is there. -/
theorem RxReady.poll (hready : RxReady nic returned) (granted : Granted) (buffer : Bool)
    (capacity : ℕ) (spinLimit : ℤ) :
    RxReady (e1000RxPollFrame progress granted buffer capacity spinLimit nic).1
      (returned ++ (e1000RxPollFrame progress granted buffer capacity spinLimit nic).2.2.toList) ∧
    (granted = ⟨true, true, true⟩ → buffer = true → 0 < capacity →
      returned.length < nic.rx.stored.length →
      (e1000RxPollFrame progress granted buffer capacity spinLimit nic).2.1 = 1) := by
  have hrefused : RxReady nic (returned ++ (none : Option Received).toList) := by
    rw [Option.toList_none, List.append_nil]
    exact hready
  unfold e1000RxPollFrame
  by_cases hcall : !granted.call
  · rw [if_pos hcall]
    refine ⟨hrefused, ?_⟩
    rintro rfl
    cases hcall
  rw [if_neg hcall]
  by_cases hbuffer : !buffer ∨ capacity = 0
  · rw [if_pos hbuffer]
    refine ⟨hrefused, ?_⟩
    rintro - rfl hpositive -
    rcases hbuffer with hnot | hzero
    · cases hnot
    · omega
  rw [if_neg hbuffer]
  dsimp only
  have hspins : (if spinLimit ≤ 0 then 1000000 else spinLimit).toNat ≠ 0 := by
    split_ifs <;> omega
  generalize (if spinLimit ≤ 0 then 1000000 else spinLimit).toNat = spins at hspins
  obtain ⟨hnone, hsome⟩ := hready.rxInitOnce granted
  cases hinit : nic.rxInitOnce granted with
  | none =>
    refine ⟨hrefused, fun hgranted _ _ hmore ↦ ?_⟩
    exact absurd ⟨hgranted, hmore⟩ (hnone hinit)
  | some next =>
    obtain ⟨hnext, hset, hstored⟩ := hsome next hinit
    dsimp only
    rcases rxSpin_takes progress capacity spins (hnext.current hset) with
      ⟨hresult, hempty, hlast, hgrown⟩ | ⟨frame, hresult, hframe, hlast, hgrown⟩
    · rw [hresult]
      refine ⟨?_, fun _ _ _ hmore ↦ ?_⟩
      · rw [Option.toList_none, List.append_nil]
        exact ⟨hnext.receives.of_prefix hgrown, fun _ ↦ hlast, fun hnot ↦ absurd hlast.ready hnot⟩
      · rw [← hstored] at hmore
        exact absurd (hempty hmore) hspins
    · rw [hresult]
      refine ⟨?_, fun _ _ _ _ ↦ rfl⟩
      have hlength :
        (returned ++ [(⟨frame.take capacity, frame.length, capacity⟩ : Received)]).length =
          returned.length + 1 := by
        rw [List.length_append, List.length_singleton]
      rw [Option.toList_some]
      refine ⟨⟨?_, fun n received hreceived ↦ ?_⟩, fun _ ↦ ?_, fun hnot ↦ absurd hlast.ready hnot⟩
      · rw [hlength]
        exact hlast.sound.read_le
      · rcases Nat.lt_trichotomy n returned.length with hless | rfl | hmore
        · rw [List.getElem?_append_left hless] at hreceived
          exact (hnext.receives.of_prefix hgrown).2 n received hreceived
        · rw [List.getElem?_append_right (Nat.le_refl _), Nat.sub_self, List.getElem?_cons_zero]
            at hreceived
          obtain rfl := Option.some.inj hreceived
          exact ⟨frame, hframe, rfl⟩
        · rw [List.getElem?_eq_none (by omega)] at hreceived
          cases hreceived
      · rw [hlength]
        exact hlast

/-! ### The other ring -/

section Frame

variable {capacity count index place spins : ℕ} {change : RxDesc → RxDesc}

section

variable (hready : TxReady nic accepted)

include hready

theorem TxReady.copyOut :
    TxReady (copyOut progress place count nic).2 accepted := by
  induction count generalizing nic place with
  | zero => exact hready
  | succ count ih => exact ih (hready.tick progress)

theorem TxReady.restore :
    TxReady (restore progress index change nic) accepted :=
  have hticked := hready.tick progress
  ⟨hticked.sound, hticked.tail, hticked.fresh⟩

theorem TxReady.handBack :
    TxReady (handBack progress index nic) accepted :=
  have hticked := hready.tick progress
  ⟨hticked.sound, hticked.tail, hticked.fresh⟩

theorem TxReady.rxSpin :
    TxReady (rxSpin progress capacity spins nic).1 accepted := by
  induction spins generalizing nic with
  | zero => exact hready
  | succ spins ih =>
    have hticked := hready.tick progress
    rw [Drivers.rxSpin]
    dsimp only
    split_ifs
    · exact ih hticked
    · exact ((((hticked.tick progress).copyOut progress).restore progress).restore
        progress).handBack
        progress

/-- A poll leaves the transmit ring to the device. -/
theorem TxReady.poll (granted : Granted) (buffer : Bool)
    (capacity : ℕ) (spinLimit : ℤ) :
    TxReady (e1000RxPollFrame progress granted buffer capacity spinLimit nic).1 accepted := by
  unfold e1000RxPollFrame Nic.rxInitOnce
  dsimp only
  generalize (if spinLimit ≤ 0 then 1000000 else spinLimit).toNat = spins
  split_ifs
  · exact hready
  · exact hready
  · exact hready
  · exact hready.rxSpin progress
  · exact hready
  · exact TxReady.rxSpin progress ⟨hready.sound, hready.tail, hready.fresh⟩

end

section

variable (hready : RxReady nic returned)

include hready

theorem RxReady.of_tx {next : Nic} (hrx : next.rx = nic.rx)
    (hset : next.rxReady = nic.rxReady) (hcur : next.rxCur = nic.rxCur) :
    RxReady next returned := by
  refine ⟨by rw [hrx]; exact hready.receives, fun hnext ↦ ?_, fun hnot ↦ ?_⟩
  · rw [hset] at hnext
    have hat := hready.current hnext
    exact ⟨by rw [hrx]; exact hat.sound, hset.trans hat.ready, hcur.trans hat.cur⟩
  · rw [hset] at hnot
    rw [hrx]
    exact hready.fresh hnot

theorem RxReady.copyFrame {frame : Frame} :
    RxReady (copyFrame progress place frame nic) returned := by
  induction frame generalizing nic place with
  | nil => exact hready
  | cons byte frame ih => exact ih ((hready.tick progress).of_tx rfl rfl rfl)

theorem RxReady.describe {values : List TxDesc} :
    RxReady (describe progress index values nic) returned := by
  induction values generalizing nic with
  | nil => exact hready
  | cons d values ih => exact ih ((hready.tick progress).of_tx rfl rfl rfl)

theorem RxReady.awaitDone :
    RxReady (awaitDone progress index spins nic).1 returned := by
  induction spins generalizing nic with
  | zero => exact hready
  | succ spins ih =>
    rw [Drivers.awaitDone]
    split_ifs
    · exact hready.tick progress
    · exact ih (hready.tick progress)

/-- A send leaves the receive ring to the device. -/
theorem RxReady.send (granted : Granted) (frame : Option Frame) :
    RxReady (e1000SendFrame progress granted frame nic).1 returned := by
  have hcases := e1000SendFrame_cases progress granted frame nic
  generalize e1000SendFrame progress granted frame nic = result at hcases
  rcases hcases with rfl | rfl | ⟨sent, next, rfl, -, hinit, rfl⟩
  · exact hready
  · exact hready
  · have hnext : RxReady next returned := by
      unfold Nic.txInitOnce at hinit
      split_ifs at hinit
      · obtain rfl := Option.some.inj hinit
        exact hready
      · obtain rfl := Option.some.inj hinit
        exact hready.of_tx rfl rfl rfl
    exact RxReady.awaitDone progress ((((hnext.copyFrame progress).describe progress).tick
      progress).of_tx rfl rfl rfl)

end

end Frame

/-! ### Runs -/

/-- Both rings between calls. -/
structure Session.Sound (session : Session) : Prop where
  tx : TxReady session.nic session.accepted
  rx : RxReady session.nic session.returned

theorem sound_start : Session.start.Sound where
  tx := by
    refine ⟨⟨List.prefix_refl _, Nat.zero_le _, rfl, rfl, ?_⟩, fun hnot ↦ (by cases hnot),
      fun _ ↦ rfl⟩
    intro n frame _ hframe
    cases hframe
  rx := by
    refine ⟨⟨Nat.le_refl _, ?_⟩, fun hnot ↦ (by cases hnot), fun _ ↦ ⟨rfl, rfl, rfl⟩⟩
    intro n received hreceived
    cases hreceived

/-- An action keeps both rings in order, a send where it finds room. -/
theorem sound_step {session : Session} {action : NicAction} (hsound : session.Sound)
    (hroomy : session.Roomy action) : (session.step progress action).Sound := by
  cases action with
  | send granted frame =>
    exact ⟨hsound.tx.e1000SendFrame progress granted frame hroomy,
      hsound.rx.send progress granted frame⟩
  | poll granted buffer capacity spinLimit =>
    exact ⟨hsound.tx.poll progress granted buffer capacity spinLimit,
      (hsound.rx.poll progress granted buffer capacity spinLimit).1⟩
  | idle => exact ⟨hsound.tx.tick progress, hsound.rx.tick progress⟩

/-- In every run whose sends find fewer frames in the transmit ring than it has descriptors, the
frames that were accepted are transmitted at most once, unmodified and in order, those that were not
stay in their descriptors, and the polls return exactly what was stored, in order. -/
theorem rings_faithful {actions : List NicAction} {session : Session}
    (hrun :
      Run (Guarded Session.Roomy (Moves (Session.step progress))) Session.start actions session) :
    session.Faithful progress := by
  have hsound : session.Sound := by
    refine hrun.guarded_invariant (fun before label after hbefore hroomy hstep ↦ ?_) sound_start
    rw [← hstep]
    exact sound_step progress hbefore hroomy
  refine ⟨hsound.tx.transmits, hsound.rx.receives, fun hmore capacity spinLimit hcapacity ↦ ?_⟩
  exact (hsound.rx.poll progress _ _ capacity spinLimit).2 rfl rfl hcapacity hmore

/-- A device that transmits at every third access, and at which frames arrive. -/
def busy (clock : ℕ) : List DeviceStep :=
  if clock % 3 = 2 then [.transmit]
  else if clock % 10 = 4 then [.receive [UInt8.ofNat clock, 7]]
  else []

/-- Frames of several lengths are sent between polls, the first of which finds nothing. -/
def busyActions : List NicAction :=
  [.poll ⟨true, true, true⟩ true 2048 2, .send ⟨true, true, true⟩ (some [1, 2]), .idle,
    .idle, .idle,
    .poll ⟨true, true, true⟩ true 1 5, .send ⟨true, true, true⟩ (some [3]),
    .poll ⟨true, true, true⟩ true 2048 50, .send ⟨true, true, true⟩ (some [4, 5, 6])]

instance (session : Session) : (action : NicAction) → Decidable (session.Roomy action)
  | .send _ _ => inferInstanceAs (Decidable (_ < _))
  | .poll _ _ _ _ | .idle => isTrue trivial

/-- The three frames are transmitted in order, and two of the three that arrived are returned. -/
theorem rings_faithful_one :
    let session := busyActions.foldl (Session.step busy) Session.start
    session.nic.tx.wire = [[1, 2], [3], [4, 5, 6]] ∧
      session.nic.rx.stored = [[4, 7], [24, 7], [34, 7]] ∧
        session.returned.length = 2 ∧ Receives session.nic.rx session.returned := by
  intro session
  have hallowed : Allowed Session.Roomy (Session.step busy) Session.start busyActions := by
    decide +kernel
  have hfaithful := rings_faithful busy (Run.of_allowed hallowed)
  have haccepted : session.accepted = [[1, 2], [3], [4, 5, 6]] := by decide +kernel
  have hlength : session.nic.tx.wire.length = 3 := by decide +kernel
  refine ⟨?_, by decide +kernel, by decide +kernel, hfaithful.2.1⟩
  exact (hfaithful.1.1.eq_of_length (by rw [hlength]; decide +kernel)).trans haccepted

/-! ### A ring that runs full -/

/-- What a send of one byte leaves behind while the device stands still. -/
def posted (byte : UInt8) (nic : Nic) : Nic :=
  let index := nic.txTail % E1000_TX_RING_COUNT
  { nic with
    tx := { nic.tx with
      bufs := Function.update nic.tx.bufs (index * E1000_TX_BUF_SIZE) byte
      ring := Function.update nic.tx.ring index ⟨index * E1000_TX_BUF_SIZE, 1, 11, 0⟩
      tdt := (index + 1) % E1000_TX_RING_COUNT }
    txTail := (index + 1) % E1000_TX_RING_COUNT
    clock := nic.clock + 6 + 1000000 }

/-- Without the device a descriptor that is not done stays so. -/
theorem awaitDone_still {index spins : ℕ}
    (hundone : (nic.tx.ring index).status &&& E1000_TXD_STAT_DD = 0) :
    awaitDone (fun _ ↦ []) index spins nic = ({ nic with clock := nic.clock + spins }, -3) := by
  induction spins generalizing nic with
  | zero => rfl
  | succ spins ih =>
    have hticked : ¬((nic.tick fun _ ↦ []).tx.ring index).status &&& E1000_TXD_STAT_DD ≠ 0 :=
      not_not.mpr hundone
    rw [awaitDone, if_neg hticked, @ih (nic.tick fun _ ↦ []) hundone]
    refine congrArg (·, -3) ?_
    change ({ nic with clock := nic.clock + 1 + spins } : Nic) = _
    rw [Nat.add_assoc, Nat.add_comm 1 spins]

/-- A send of one byte on a ring that is set up, or that is set up by it. -/
theorem e1000SendFrame_still {next : Nic} (byte : UInt8)
    (hinit : nic.txInitOnce ⟨true, true, true⟩ = some next) :
    e1000SendFrame (fun _ ↦ []) ⟨true, true, true⟩ (some [byte]) nic = (posted byte next, -3) := by
  have hposted : postFrame (fun _ ↦ []) [byte] next =
      { posted byte next with clock := next.clock + 6 } := by
    unfold posted
    dsimp only
    have hidem : ∀ (first second : TxDesc) (index : ℕ), Function.update next.tx.ring index second =
        Function.update (Function.update next.tx.ring index first) index second :=
      fun first second index ↦ (Function.update_idem first second next.tx.ring).symm
    rw [hidem ⟨_, 1, 0, 0⟩, hidem ⟨_, 0, 0, 0⟩, hidem ⟨0, 0, 0, 0⟩]
    rfl
  have hundone : ((postFrame (fun _ ↦ []) [byte] next).tx.ring
      (next.txTail % E1000_TX_RING_COUNT)).status &&& E1000_TXD_STAT_DD = 0 := by
    rw [hposted]
    change (Function.update next.tx.ring (next.txTail % 16) _ (next.txTail % 16)).status &&& _ = 0
    rw [Function.update_self]
    change (0 : UInt8) &&& E1000_TXD_STAT_DD = 0
    decide
  have hlength : ¬([byte].length = 0 ∨ E1000_TX_BUF_SIZE < [byte].length) := by
    rw [List.length_singleton]
    decide
  unfold e1000SendFrame
  dsimp only
  rw [if_neg (by decide), if_neg hlength, hinit]
  dsimp only
  rw [awaitDone_still hundone, hposted]
  rfl

/-- Sends of one byte on a ring that is set up. -/
theorem foldl_still (bytes : List UInt8) (session : Session) (hset : session.nic.txReady) :
    (bytes.map fun byte ↦ NicAction.send ⟨true, true, true⟩ (some [byte])).foldl
        (Session.step fun _ ↦ []) session =
      bytes.foldl (fun session byte ↦ { session with
        nic := posted byte session.nic, accepted := session.accepted ++ [[byte]] }) session := by
  induction bytes generalizing session with
  | nil => rfl
  | cons byte bytes ih =>
    have hinit : session.nic.txInitOnce ⟨true, true, true⟩ = some session.nic := by
      unfold Nic.txInitOnce
      rw [if_neg (by decide), if_pos hset]
    have hstep : session.step (fun _ ↦ []) (.send ⟨true, true, true⟩ (some [byte])) =
        { session with
          nic := posted byte session.nic, accepted := session.accepted ++ [[byte]] } := by
      unfold Session.step
      dsimp only
      rw [e1000SendFrame_still byte hinit]
      rfl
    rw [List.map_cons, List.foldl_cons, List.foldl_cons, hstep]
    exact ih _ hset

/-- The seventeenth frame that is sent while the device stands still takes the descriptor of the
first. -/
theorem seventeenth_frame_overwrites :
    ¬(((0 :: List.replicate 16 1).map fun byte ↦
        NicAction.send ⟨true, true, true⟩ (some [byte])).foldl (Session.step fun _ ↦ [])
          Session.start).Faithful fun _ ↦ [] := by
  intro hfaithful
  have hheld := hfaithful.1.2 0 [0]
  have hfirst : Session.start.step (fun _ ↦ []) (.send ⟨true, true, true⟩ (some [0])) =
      { Session.start with
        nic := posted 0 { Session.start.nic with
          tx := ⟨fun _ ↦ 0, fun _ ↦ ⟨0, 0, 0, 0⟩, 0, 0, true, []⟩, txTail := 0, txReady := true }
        accepted := [[0]] } := by
    unfold Session.step
    dsimp only
    rw [e1000SendFrame_still 0 rfl]
    rfl
  rw [List.map_cons, List.foldl_cons, hfirst, foldl_still _ _ rfl] at hheld
  exact absurd (hheld (by decide) (by decide)) (by decide)

end EynOS.Drivers
