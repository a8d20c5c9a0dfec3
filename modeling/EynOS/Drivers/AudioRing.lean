import EynOS.Foundation.Run
import Mathlib.Data.Int.Notation
import Mathlib.Logic.Function.Iterate

/-!
# The ring of audio buffers

`ac97.c`: `ac97_hw_in_flight`, `ac97_queue_buffer`, `ac97_ensure_running` and the calls over them.
The controller plays on between any two accesses of the driver to its registers; how many slots is
up to `progress`.

`Sound` counts the chunks that were accepted and those that were played. `ring_faithful` is the law
for every run in which no chunk comes to a stopped ring that is full and no controller is restarted
that has played all chunks (`Ac97.Safe`). Left out are resumptions without a chunk that waits
(`Ac97.Waits`): behind them there is silence only (`Ac97.Settled.resume_silent`), and the law counts
chunks.
-/

namespace EynOS.Drivers

open Foundation

/-- The bytes of a buffer. -/
abbrev Chunk := List UInt8

def AC97_BDL_COUNT : ℕ := 32

def AC97_DMA_BUF_SIZE : ℕ := 4096

/-! ### The controller -/

/-- The run bit, whether the last valid slot was played to its end, the registers CIV and LVI, the
buffers of the slots, and what was played. -/
structure Controller where
  run : Bool
  halted : Bool
  civ : ℕ
  lvi : ℕ
  buffers : ℕ → Chunk
  played : List Chunk

def Controller.dch (ctrl : Controller) : Bool := !ctrl.run || ctrl.halted

/-- The current slot is played to its end; the controller halts behind the last valid one. -/
def Controller.playSlot (ctrl : Controller) : Controller :=
  if ctrl.dch then ctrl
  else
    { ctrl with
      played := ctrl.played ++ [ctrl.buffers ctrl.civ]
      halted := ctrl.civ = ctrl.lvi
      civ := if ctrl.civ = ctrl.lvi then ctrl.civ else (ctrl.civ + 1) % AC97_BDL_COUNT }

/-- LVI is written; if it is advanced, a controller that has halted continues with the next slot. -/
def Controller.writeLvi (slot : ℕ) (ctrl : Controller) : Controller :=
  if ctrl.run ∧ ctrl.halted ∧ slot ≠ ctrl.civ then
    { ctrl with lvi := slot, halted := false, civ := (ctrl.civ + 1) % AC97_BDL_COUNT }
  else { ctrl with lvi := slot }

/-- The run bit is set; a controller that has halted is restarted with the next slot. -/
def Controller.start (ctrl : Controller) : Controller :=
  { ctrl with
    run := true
    halted := false
    civ := if ctrl.halted then (ctrl.civ + 1) % AC97_BDL_COUNT else ctrl.civ }

/-! ### The driver -/

/-- The controller, the state of the driver, the number of register accesses so far, the chunks that
were accepted, and how many there were at the last stop. -/
structure Ac97 where
  ctrl : Controller
  initialised : Bool
  playing : Bool
  writeIdx : UInt32
  clock : ℕ
  accepted : List Chunk
  silenced : ℕ

variable (progress : ℕ → ℕ)

/-- The controller plays on up to the next access. -/
def Ac97.tick (ring : Ac97) : Ac97 :=
  { ring with
    ctrl := Controller.playSlot^[progress ring.clock] ring.ctrl
    clock := ring.clock + 1 }

/-- SR, CIV and LVI are read one after the other. -/
def ac97HwInFlight (ring : Ac97) : Ac97 × ℕ :=
  let ring := ring.tick progress
  if ring.ctrl.dch then (ring, 0)
  else
    let ring := ring.tick progress
    let civ := ring.ctrl.civ
    let ring := ring.tick progress
    (ring, (ring.ctrl.lvi + 32 - civ) % 32 + 1)

/-- Data that fills a buffer, with zeros behind it. -/
def padded (data : List UInt8) : Chunk :=
  data.take AC97_DMA_BUF_SIZE ++ List.replicate (AC97_DMA_BUF_SIZE - data.length) 0

/-- A chunk is copied to the buffer of a slot. -/
def Ac97.store (slot : ℕ) (chunk : Chunk) (ring : Ac97) : Ac97 :=
  { ring with
    ctrl := { ring.ctrl with buffers := Function.update ring.ctrl.buffers slot chunk }
    writeIdx := ring.writeIdx + 1
    accepted := ring.accepted ++ [chunk] }

def Ac97.writeLvi (slot : ℕ) (ring : Ac97) : Ac97 := { ring with ctrl := ring.ctrl.writeLvi slot }

/-- `ac97_queue_buffer`; a null pointer is no data. -/
def ac97QueueBuffer (data : List UInt8) (ring : Ac97) : Ac97 × ℤ :=
  if !ring.initialised then (ring, -1)
  else if data.length = 0 then (ring, -1)
  else
    let probed := ac97HwInFlight progress ring
    if AC97_BDL_COUNT - 1 ≤ probed.2 then (probed.1, -1)
    else
      let slot := probed.1.writeIdx.toNat % AC97_BDL_COUNT
      (((probed.1.store slot (padded data)).tick progress).writeLvi slot, 0)

/-- The status is cleared and the run bit is set if the controller has halted. -/
def ac97EnsureRunning (ring : Ac97) : Ac97 :=
  let ring := ring.tick progress
  if ring.ctrl.dch then
    let ring := (ring.tick progress).tick progress
    { ring with ctrl := ring.ctrl.start, playing := true }
  else { ring with playing := true }

def ac97Write (data : List UInt8) (ring : Ac97) : Ac97 × ℤ :=
  let queued := ac97QueueBuffer progress data ring
  if queued.2 = 0 then (ac97EnsureRunning progress queued.1, 0) else queued

/-- Chunks are queued while there is data and room, at most some; the number of them is counted. -/
def bulkLoop : ℕ → List UInt8 → Ac97 → Ac97 × ℕ
  | 0, _, ring => (ring, 0)
  | turns + 1, data, ring =>
    if data = [] then (ring, 0)
    else
      let queued := ac97QueueBuffer progress (data.take AC97_DMA_BUF_SIZE) ring
      if queued.2 < 0 then (queued.1, 0)
      else
        let rest := bulkLoop turns (data.drop AC97_DMA_BUF_SIZE) queued.1
        (rest.1, rest.2 + 1)

def ac97WriteBulk (data : List UInt8) (ring : Ac97) : Ac97 × ℤ :=
  if !ring.initialised then (ring, -1)
  else if data.length = 0 then (ring, -1)
  else
    let queued := bulkLoop progress data.length data ring
    if 0 < queued.2 then (ac97EnsureRunning progress queued.1, queued.2) else (queued.1, 0)

/-- The run bit is cleared and all buffers are silenced. -/
def ac97Stop (ring : Ac97) : Ac97 :=
  if !ring.initialised then ring
  else
    let ring := ring.tick progress
    { ring with
      ctrl := { ring.ctrl with run := false, buffers := fun _ ↦ padded [] }
      playing := false
      silenced := ring.accepted.length }

def ac97Resume (ring : Ac97) : Ac97 :=
  if !ring.initialised || ring.playing then ring else ac97EnsureRunning progress ring

/-! ### Runs -/

/-- A call, or time passes. -/
inductive AudioCall where
  | write (data : List UInt8)
  | writeBulk (data : List UInt8)
  | stop
  | resume
  | idle

def Ac97.step (ring : Ac97) : AudioCall → Ac97
  | .write data => (ac97Write progress data ring).1
  | .writeBulk data => (ac97WriteBulk progress data ring).1
  | .stop => ac97Stop progress ring
  | .resume => ac97Resume progress ring
  | .idle => ring.tick progress

/-- The ring behind `ac97_init`, or without it. -/
def Ac97.boot (initialised : Bool) : Ac97 where
  ctrl := ⟨false, false, 0, 0, fun _ ↦ padded [], []⟩
  initialised := initialised
  playing := false
  writeIdx := 0
  clock := 0
  accepted := []
  silenced := 0

/-- The number of chunks that were accepted and not yet played to their end. -/
def Ac97.waiting (ring : Ac97) : ℕ := ring.accepted.length - ring.ctrl.played.length

/-- Each chunk that waits is in its slot, or silence since a stop; without a stop the chunks are
played once each and in order, and those that wait are played next. -/
def Ac97.Faithful (ring : Ac97) : Prop :=
  (∀ n chunk, ring.ctrl.played.length ≤ n → ring.accepted[n]? = some chunk →
    ring.ctrl.buffers (n % AC97_BDL_COUNT) = if n < ring.silenced then padded [] else chunk) ∧
  (ring.silenced = 0 → ring.ctrl.played <+: ring.accepted ∧
    (Controller.playSlot^[ring.waiting] ring.ctrl).played = ring.accepted)

def chunks (data : List UInt8) : ℕ := (data.length + 4095) / 4096

/-- Where the run bit is clear, the chunks of a call fit beside those that wait; where it is set,
the controller is not at the end of all chunks again when the status is read after they were
queued. -/
def Ac97.Safe (ring : Ac97) : AudioCall → Prop
  | .write data => ring.initialised →
    (ring.ctrl.run = false → data.length ≠ 0 → ring.waiting < AC97_BDL_COUNT) ∧
    (ring.ctrl.run = true → (ac97QueueBuffer progress data ring).2 = 0 →
      ((ac97QueueBuffer progress data ring).1.tick progress).ctrl.halted = false)
  | .writeBulk data => ring.initialised →
    (ring.ctrl.run = false → ring.waiting + chunks data ≤ AC97_BDL_COUNT) ∧
    (ring.ctrl.run = true → 0 < (bulkLoop progress data.length data ring).2 →
      ((bulkLoop progress data.length data ring).1.tick progress).ctrl.halted = false)
  | .stop => True
  | .resume => True
  | .idle => True

def Ac97.Waits (ring : Ac97) : AudioCall → Prop
  | .resume => ring.initialised → ring.playing = false → 0 < ring.waiting
  | _ => True

variable {ctrl : Controller} {ring : Ac97} {data : List UInt8} {chunk : Chunk}

/-! ### The invariant -/

/-- The registers count the chunks that were accepted and played, of which those that wait are in
their slots. -/
structure Tracks (ctrl : Controller) (accepted : List Chunk) (silenced : ℕ) : Prop where
  played_le : ctrl.played.length ≤ accepted.length
  few : accepted.length ≤ ctrl.played.length + 32
  lvi : 0 < accepted.length → ctrl.lvi = (accepted.length + 31) % 32
  halted : ctrl.halted = true → 0 < ctrl.played.length ∧ ctrl.civ = (ctrl.played.length + 31) % 32 ∧
    (ctrl.run = true → accepted.length = ctrl.played.length)
  going : ctrl.halted = false → ctrl.civ = ctrl.played.length % 32 ∧
    (ctrl.run = true → ctrl.played.length < accepted.length)
  held : ∀ n chunk, ctrl.played.length ≤ n → accepted[n]? = some chunk →
    ctrl.buffers (n % 32) = if n < silenced then padded [] else chunk
  plays : silenced = 0 → ctrl.played <+: accepted

variable {accepted : List Chunk} {silenced : ℕ}

theorem playSlot_of_dch (hdch : ctrl.dch = true) : ctrl.playSlot = ctrl := by
  rw [Controller.playSlot, if_pos hdch]

theorem dch_eq_false_iff : ctrl.dch = false ↔ ctrl.run = true ∧ ctrl.halted = false := by
  simp [Controller.dch]

/-- The controller plays the next chunk that waits. -/
theorem Tracks.playSlot (htracks : Tracks ctrl accepted silenced) (hdch : ctrl.dch = false) :
    Tracks ctrl.playSlot accepted silenced ∧
      ctrl.playSlot.played.length = ctrl.played.length + 1 := by
  obtain ⟨hrun, hgoes⟩ := dch_eq_false_iff.mp hdch
  obtain ⟨hciv, hmore⟩ := htracks.going hgoes
  have hless := hmore hrun
  have hlvi := htracks.lvi (by omega)
  have hfew := htracks.few
  have hlength : (ctrl.played ++ [ctrl.buffers ctrl.civ]).length = ctrl.played.length + 1 := by
    rw [List.length_append, List.length_singleton]
  have hlast : ctrl.civ = ctrl.lvi ↔ accepted.length = ctrl.played.length + 1 := by omega
  unfold Controller.playSlot
  rw [if_neg (by rw [hdch]; decide)]
  refine ⟨⟨?_, ?_, fun _ ↦ hlvi, fun hhalted ↦ ?_, fun hgoing ↦ ?_, ?_, fun hzero ↦ ?_⟩,
    hlength⟩
  · dsimp only
    omega
  · dsimp only
    omega
  · dsimp only at hhalted ⊢
    rw [decide_eq_true_eq] at hhalted
    rw [if_pos hhalted, hlength]
    have := hlast.mp hhalted
    refine ⟨by omega, by omega, fun _ ↦ this⟩
  · dsimp only at hgoing ⊢
    rw [decide_eq_false_iff_not] at hgoing
    rw [if_neg hgoing, hlength]
    have hnot : accepted.length ≠ ctrl.played.length + 1 := fun heq ↦ hgoing (hlast.mpr heq)
    refine ⟨?_, fun _ ↦ by omega⟩
    change (ctrl.civ + 1) % 32 = _
    omega
  · intro n chunk hn hchunk
    dsimp only at hn
    exact htracks.held n chunk (by omega) hchunk
  · dsimp only
    have hheld := htracks.held _ _ (Nat.le_refl _) (List.getElem?_eq_getElem hless)
    rw [← hciv, if_neg (by omega)] at hheld
    rw [hheld, List.prefix_iff_eq_take, List.length_append, List.length_singleton,
      List.take_add_one, List.getElem?_eq_getElem hless]
    exact congrArg (· ++ [accepted[ctrl.played.length]])
      (List.prefix_iff_eq_take.mp (htracks.plays hzero))

/-- What the controller leaves as it is. -/
structure PlaysOn (before after : Controller) : Prop where
  run : after.run = before.run
  lvi : after.lvi = before.lvi
  buffers : after.buffers = before.buffers
  played_le : before.played.length ≤ after.played.length
  stopped : before.dch = true → after = before

theorem PlaysOn.trans {first second third : Controller} (hfirst : PlaysOn first second)
    (hsecond : PlaysOn second third) : PlaysOn first third where
  run := hsecond.run.trans hfirst.run
  lvi := hsecond.lvi.trans hfirst.lvi
  buffers := hsecond.buffers.trans hfirst.buffers
  played_le := Nat.le_trans hfirst.played_le hsecond.played_le
  stopped := by
    intro hdch
    have hsame := hfirst.stopped hdch
    subst hsame
    exact hsecond.stopped hdch

theorem Tracks.iterate (count : ℕ) (htracks : Tracks ctrl accepted silenced) :
    Tracks (Controller.playSlot^[count] ctrl) accepted silenced ∧
      PlaysOn ctrl (Controller.playSlot^[count] ctrl) := by
  induction count generalizing ctrl with
  | zero => exact ⟨htracks, rfl, rfl, rfl, Nat.le_refl _, fun _ ↦ rfl⟩
  | succ count ih =>
    rw [Function.iterate_succ_apply]
    cases hdch : ctrl.dch with
    | true =>
      rw [playSlot_of_dch hdch]
      exact ih htracks
    | false =>
      obtain ⟨hnext, hlength⟩ := htracks.playSlot hdch
      obtain ⟨hlast, hplays⟩ := ih hnext
      have hstep : PlaysOn ctrl ctrl.playSlot := by
        have hne : ¬ctrl.dch = true := by
          rw [hdch]
          decide
        refine ⟨?_, ?_, ?_, by omega, fun htrue ↦ absurd htrue hne⟩
        all_goals
          unfold Controller.playSlot
          rw [if_neg hne]
      exact ⟨hlast, hstep.trans hplays⟩

/-- A controller that goes on plays all chunks that wait. -/
theorem Tracks.plays_all (htracks : Tracks ctrl accepted silenced) (hzero : silenced = 0)
    (hrun : ctrl.run = true) {count : ℕ} (hcount : count = accepted.length - ctrl.played.length) :
    (Controller.playSlot^[count] ctrl).played = accepted := by
  induction count generalizing ctrl with
  | zero =>
    have := htracks.played_le
    exact (htracks.plays hzero).eq_of_length (by omega)
  | succ count ih =>
    have hgoes : ctrl.halted = false := by
      cases hhalted : ctrl.halted with
      | false => rfl
      | true =>
        have := (htracks.halted hhalted).2.2 hrun
        omega
    obtain ⟨hnext, hlength⟩ := htracks.playSlot (dch_eq_false_iff.mpr ⟨hrun, hgoes⟩)
    rw [Function.iterate_succ_apply]
    refine ih hnext ?_ (by omega)
    unfold Controller.playSlot
    rw [if_neg (by rw [dch_eq_false_iff.mpr ⟨hrun, hgoes⟩]; decide)]
    exact hrun

/-! ### A chunk comes to its slot -/

/-- The slot behind the chunks that wait is free. -/
theorem Tracks.store (htracks : Tracks ctrl accepted silenced)
    (hroom : accepted.length < ctrl.played.length + 32) (chunk : Chunk) :
    Tracks { ctrl with buffers := Function.update ctrl.buffers (accepted.length % 32) chunk }
      accepted silenced where
  played_le := htracks.played_le
  few := htracks.few
  lvi := htracks.lvi
  halted := htracks.halted
  going := htracks.going
  held := by
    intro n other hn hother
    have hlast := (List.getElem?_eq_some_iff.mp hother).1
    dsimp only at hn ⊢
    rw [Function.update_of_ne (by omega)]
    exact htracks.held n other hn hother
  plays := htracks.plays

/-- The chunk in the slot behind those that wait is the next one when LVI is advanced to it. -/
theorem Tracks.writeLvi (htracks : Tracks ctrl accepted silenced)
    (hroom : accepted.length < ctrl.played.length + 32) (hsilenced : silenced ≤ accepted.length)
    (hchunk : ctrl.buffers (accepted.length % 32) = chunk) :
    Tracks (ctrl.writeLvi (accepted.length % 32)) (accepted ++ [chunk]) silenced := by
  have hle := htracks.played_le
  have hlength : (accepted ++ [chunk]).length = accepted.length + 1 := by
    rw [List.length_append, List.length_singleton]
  have hheld : ∀ n other, ctrl.played.length ≤ n → (accepted ++ [chunk])[n]? = some other →
      ctrl.buffers (n % 32) = if n < silenced then padded [] else other := by
    intro n other hn hother
    rcases Nat.lt_trichotomy n accepted.length with hless | rfl | hmore
    · rw [List.getElem?_append_left hless] at hother
      exact htracks.held n other hn hother
    · rw [List.getElem?_append_right (Nat.le_refl _), Nat.sub_self,
        List.getElem?_cons_zero] at hother
      rw [if_neg (by omega), hchunk]
      exact Option.some.inj hother
    · rw [List.getElem?_eq_none (by omega)] at hother
      cases hother
  have hplays : silenced = 0 → ctrl.played <+: accepted ++ [chunk] := fun hzero ↦
    (htracks.plays hzero).trans (List.prefix_append _ _)
  unfold Controller.writeLvi
  split_ifs with hgoes
  · obtain ⟨hrun, hhalted, -⟩ := hgoes
    obtain ⟨-, hciv, hall⟩ := htracks.halted hhalted
    have hall := hall hrun
    refine ⟨?_, ?_, fun _ ↦ ?_, fun hnot ↦ (by cases hnot), fun _ ↦ ⟨?_, fun _ ↦ ?_⟩, hheld, hplays⟩
    · dsimp only
      omega
    · dsimp only
      omega
    · dsimp only
      omega
    · change (ctrl.civ + 1) % 32 = ctrl.played.length % 32
      omega
    · dsimp only
      omega
  · refine ⟨?_, ?_, fun _ ↦ ?_, fun hhalted ↦ ?_, fun hgoing ↦ ?_, hheld, hplays⟩
    · dsimp only
      omega
    · dsimp only
      omega
    · dsimp only
      omega
    · obtain ⟨hpositive, hciv, hall⟩ := htracks.halted hhalted
      refine ⟨hpositive, hciv, fun hrun ↦ absurd ⟨hrun, hhalted, ?_⟩ hgoes⟩
      have := hall hrun
      omega
    · obtain ⟨hciv, -⟩ := htracks.going hgoing
      refine ⟨hciv, fun _ ↦ ?_⟩
      dsimp only
      omega

/-- A start with a chunk that waits goes on with the next one. -/
theorem Tracks.start (htracks : Tracks ctrl accepted silenced)
    (hmore : ctrl.played.length < accepted.length) : Tracks ctrl.start accepted silenced where
  played_le := htracks.played_le
  few := htracks.few
  lvi := htracks.lvi
  halted := fun hnot ↦ by cases hnot
  going := by
    refine fun _ ↦ ⟨?_, fun _ ↦ hmore⟩
    unfold Controller.start
    dsimp only
    cases hhalted : ctrl.halted with
    | true =>
      rw [if_pos rfl]
      obtain ⟨hpositive, hciv, -⟩ := htracks.halted hhalted
      change (ctrl.civ + 1) % 32 = _
      omega
    | false =>
      rw [if_neg (by decide)]
      exact (htracks.going hhalted).1
  held := htracks.held
  plays := htracks.plays

/-! ### The driver -/

/-- The controller is where the driver counts it to be. -/
structure Ac97.Sound (ring : Ac97) : Prop where
  tracks : Tracks ring.ctrl ring.accepted ring.silenced
  index : ring.writeIdx.toNat % 32 = ring.accepted.length % 32
  silenced_le : ring.silenced ≤ ring.accepted.length

/-- Only the controller has gone on. -/
structure Later (before after : Ac97) : Prop where
  ctrl : PlaysOn before.ctrl after.ctrl
  initialised : after.initialised = before.initialised
  playing : after.playing = before.playing
  writeIdx : after.writeIdx = before.writeIdx
  accepted : after.accepted = before.accepted
  silenced : after.silenced = before.silenced

theorem Later.trans {first second third : Ac97} (hfirst : Later first second)
    (hsecond : Later second third) : Later first third where
  ctrl := hfirst.ctrl.trans hsecond.ctrl
  initialised := hsecond.initialised.trans hfirst.initialised
  playing := hsecond.playing.trans hfirst.playing
  writeIdx := hsecond.writeIdx.trans hfirst.writeIdx
  accepted := hsecond.accepted.trans hfirst.accepted
  silenced := hsecond.silenced.trans hfirst.silenced

theorem Later.refl (ring : Ac97) : Later ring ring :=
  ⟨⟨rfl, rfl, rfl, Nat.le_refl _, fun _ ↦ rfl⟩, rfl, rfl, rfl, rfl, rfl⟩

theorem Ac97.Sound.tick (hsound : ring.Sound) :
    (ring.tick progress).Sound ∧ Later ring (ring.tick progress) := by
  obtain ⟨htracks, hplays⟩ := hsound.tracks.iterate (progress ring.clock)
  exact ⟨⟨htracks, hsound.index, hsound.silenced_le⟩, hplays, rfl, rfl, rfl, rfl, rfl⟩

theorem Later.stopped {after : Ac97} (hlater : Later ring after) (hrun : ring.ctrl.run = false) :
    after.ctrl = ring.ctrl := hlater.ctrl.stopped (by rw [Controller.dch, hrun]; rfl)

/-- The count of the slots in flight is not below the number of chunks that wait when it is used. -/
theorem ac97HwInFlight_bounds (hsound : ring.Sound)
    (hroom : ring.ctrl.run = false → ring.waiting < 32) :
    (ac97HwInFlight progress ring).1.Sound ∧ Later ring (ac97HwInFlight progress ring).1 ∧
      (¬31 ≤ (ac97HwInFlight progress ring).2 → (ac97HwInFlight progress ring).1.waiting < 32) := by
  obtain ⟨hone, hfirst⟩ := hsound.tick progress
  unfold ac97HwInFlight
  dsimp only
  cases hdch : (ring.tick progress).ctrl.dch with
  | true =>
    rw [if_pos rfl]
    refine ⟨hone, hfirst, fun _ ↦ ?_⟩
    dsimp only
    cases hrun : ring.ctrl.run with
    | false =>
      have hsame := hfirst.stopped hrun
      unfold Ac97.waiting
      rw [hsame, hfirst.accepted]
      exact hroom hrun
    | true =>
      have hhalted : (ring.tick progress).ctrl.halted = true := by
        rw [Controller.dch, hfirst.ctrl.run, hrun] at hdch
        exact hdch
      have hall := (hone.tracks.halted hhalted).2.2 (hfirst.ctrl.run.trans hrun)
      unfold Ac97.waiting
      omega
  | false =>
    rw [if_neg (by decide)]
    obtain ⟨htwo, hsecond⟩ := hone.tick progress
    obtain ⟨hthree, hthird⟩ := htwo.tick progress
    refine ⟨hthree, hfirst.trans (hsecond.trans hthird), fun hfew ↦ ?_⟩
    obtain ⟨hrun, hgoes⟩ := dch_eq_false_iff.mp hdch
    have hmore := (hone.tracks.going hgoes).2 hrun
    dsimp only at hfew ⊢
    unfold Ac97.waiting
    have hlvi := hthree.tracks.lvi (by rw [hthird.accepted, hsecond.accepted]; omega)
    rw [hlvi] at hfew
    have hplayed := hthird.ctrl.played_le
    have haccepted := hthird.accepted
    rw [haccepted] at hfew ⊢
    have htracks := htwo.tracks
    have hle := htracks.played_le
    have hbound := htracks.few
    cases hhalted : ((ring.tick progress).tick progress).ctrl.halted with
    | true =>
      have hall := (htracks.halted hhalted).2.2 (hsecond.ctrl.run.trans hrun)
      omega
    | false =>
      have hciv := (htracks.going hhalted).1
      rw [hciv] at hfew
      omega

/-- What a call that queues chunks leaves as it was, with what it has accepted. -/
structure Queued (before after : Ac97) (more : List Chunk) : Prop where
  run : after.ctrl.run = before.ctrl.run
  initialised : after.initialised = before.initialised
  playing : after.playing = before.playing
  accepted : after.accepted = before.accepted ++ more
  silenced : after.silenced = before.silenced
  played : before.ctrl.run = false → after.ctrl.played = before.ctrl.played
  buffers : more = [] → after.ctrl.buffers = before.ctrl.buffers

theorem Later.queued {after : Ac97} (hlater : Later ring after) : Queued ring after [] where
  run := hlater.ctrl.run
  initialised := hlater.initialised
  playing := hlater.playing
  accepted := by rw [hlater.accepted, List.append_nil]
  silenced := hlater.silenced
  played := fun hrun ↦ congrArg Controller.played (hlater.stopped hrun)
  buffers := fun _ ↦ hlater.ctrl.buffers

theorem Queued.trans {first second third : Ac97} {more later : List Chunk}
    (hfirst : Queued first second more) (hsecond : Queued second third later) :
    Queued first third (more ++ later) where
  run := hsecond.run.trans hfirst.run
  initialised := hsecond.initialised.trans hfirst.initialised
  playing := hsecond.playing.trans hfirst.playing
  accepted := by rw [hsecond.accepted, hfirst.accepted, List.append_assoc]
  silenced := hsecond.silenced.trans hfirst.silenced
  played := fun hrun ↦ (hsecond.played (hfirst.run.trans hrun)).trans (hfirst.played hrun)
  buffers := fun hnone ↦ (hsecond.buffers (List.append_eq_nil_iff.mp hnone).2).trans
    (hfirst.buffers (List.append_eq_nil_iff.mp hnone).1)

theorem writeLvi_run (slot : ℕ) (ctrl : Controller) :
    (ctrl.writeLvi slot).run = ctrl.run ∧ (ctrl.writeLvi slot).played = ctrl.played := by
  unfold Controller.writeLvi
  split_ifs <;> exact ⟨rfl, rfl⟩

/-- A chunk is refused, or it is the next one. -/
theorem ac97QueueBuffer_cases (hsound : ring.Sound)
    (hroom : ring.ctrl.run = false → data.length ≠ 0 → ring.waiting < 32) :
    (ac97QueueBuffer progress data ring).1.Sound ∧
      ((ac97QueueBuffer progress data ring).2 = -1 ∧
          Queued ring (ac97QueueBuffer progress data ring).1 [] ∨
        (ac97QueueBuffer progress data ring).2 = 0 ∧
          Queued ring (ac97QueueBuffer progress data ring).1 [padded data]) := by
  unfold ac97QueueBuffer
  by_cases hinit : !ring.initialised
  · rw [if_pos hinit]
    exact ⟨hsound, Or.inl ⟨rfl, (Later.refl ring).queued⟩⟩
  rw [if_neg hinit]
  by_cases hempty : data.length = 0
  · rw [if_pos hempty]
    exact ⟨hsound, Or.inl ⟨rfl, (Later.refl ring).queued⟩⟩
  rw [if_neg hempty]
  obtain ⟨hprobed, hlater, hfree⟩ :=
    ac97HwInFlight_bounds progress hsound fun hrun ↦ hroom hrun hempty
  generalize ac97HwInFlight progress ring = probed at hprobed hlater hfree
  dsimp only
  by_cases hfull : AC97_BDL_COUNT - 1 ≤ probed.2
  · rw [if_pos hfull]
    exact ⟨hprobed, Or.inl ⟨rfl, hlater.queued⟩⟩
  rw [if_neg hfull]
  have hwaiting : probed.1.accepted.length < probed.1.ctrl.played.length + 32 := by
    have := hfree hfull
    unfold Ac97.waiting at this
    omega
  have hslot : probed.1.writeIdx.toNat % AC97_BDL_COUNT = probed.1.accepted.length % 32 :=
    hprobed.index
  rw [hslot]
  obtain ⟨htracks, hplays⟩ := (hprobed.tracks.store hwaiting (padded data)).iterate
    (progress probed.1.clock)
  have hchunk := (congrFun hplays.buffers (probed.1.accepted.length % 32)).trans
    (Function.update_self _ _ _)
  have hroom' := Nat.lt_of_lt_of_le hwaiting (Nat.add_le_add_right hplays.played_le 32)
  have hnext := htracks.writeLvi hroom' hprobed.silenced_le hchunk
  have hkept := writeLvi_run (probed.1.accepted.length % 32)
    (Controller.playSlot^[progress probed.1.clock]
      { probed.1.ctrl with
        buffers := Function.update probed.1.ctrl.buffers (probed.1.accepted.length % 32)
          (padded data) })
  refine ⟨⟨hnext, ?_, ?_⟩, Or.inr ⟨rfl, ?_, hlater.initialised, hlater.playing, ?_, hlater.silenced,
    fun hrun ↦ ?_, fun hnone ↦ absurd hnone (List.cons_ne_nil _ _)⟩⟩
  · have hindex := hprobed.index
    change (probed.1.writeIdx + 1).toNat % 32 = (probed.1.accepted ++ [padded data]).length % 32
    rw [UInt32.toNat_add, List.length_append, List.length_singleton]
    change (probed.1.writeIdx.toNat + 1) % 4294967296 % 32 = _
    omega
  · change probed.1.silenced ≤ (probed.1.accepted ++ [padded data]).length
    rw [List.length_append]
    exact Nat.le_add_right_of_le hprobed.silenced_le
  · exact hkept.1.trans (hplays.run.trans hlater.ctrl.run)
  · change probed.1.accepted ++ [padded data] = _
    rw [hlater.accepted]
  · have hstopped : ({ probed.1.ctrl with
        buffers := Function.update probed.1.ctrl.buffers (probed.1.accepted.length % 32)
          (padded data) } : Controller).dch = true := by
      unfold Controller.dch
      dsimp only
      rw [hlater.ctrl.run, hrun]
      rfl
    refine hkept.2.trans ?_
    rw [hplays.stopped hstopped]
    change probed.1.ctrl.played = ring.ctrl.played
    rw [hlater.stopped hrun]

/-- The controller runs behind `ac97_ensure_running`. -/
theorem ac97EnsureRunning_sound (hsound : ring.Sound)
    (hmore : ring.ctrl.run = false → ring.ctrl.played.length < ring.accepted.length)
    (hgoes : ring.ctrl.run = true → (ring.tick progress).ctrl.halted = false) :
    (ac97EnsureRunning progress ring).Sound ∧ (ac97EnsureRunning progress ring).ctrl.run = true ∧
      (ac97EnsureRunning progress ring).playing = true ∧
      (ac97EnsureRunning progress ring).accepted = ring.accepted ∧
      (ac97EnsureRunning progress ring).silenced = ring.silenced := by
  obtain ⟨hone, hfirst⟩ := hsound.tick progress
  unfold ac97EnsureRunning
  dsimp only
  cases hdch : (ring.tick progress).ctrl.dch with
  | false =>
    rw [if_neg (by decide)]
    exact ⟨⟨hone.tracks, hone.index, hone.silenced_le⟩, (dch_eq_false_iff.mp hdch).1, rfl,
      hfirst.accepted, hfirst.silenced⟩
  | true =>
    rw [if_pos rfl]
    have hrun : ring.ctrl.run = false := by
      cases hrun : ring.ctrl.run with
      | false => rfl
      | true =>
        rw [dch_eq_false_iff.mpr ⟨hfirst.ctrl.run.trans hrun, hgoes hrun⟩] at hdch
        cases hdch
    obtain ⟨htwo, hsecond⟩ := hone.tick progress
    obtain ⟨hthree, hthird⟩ := htwo.tick progress
    have hlater := hfirst.trans (hsecond.trans hthird)
    refine ⟨⟨hthree.tracks.start ?_, hthree.index, hthree.silenced_le⟩, rfl, rfl, hlater.accepted,
      hlater.silenced⟩
    rw [hlater.stopped hrun, hlater.accepted]
    exact hmore hrun

/-! ### The calls -/

/-- Between calls the driver knows whether the controller runs, without a stop since the last chunk
was accepted it does, and a controller that does not run has silence in all slots. -/
structure Ac97.Settled (ring : Ac97) : Prop where
  sound : ring.Sound
  playing : ring.playing = ring.ctrl.run
  stopped : ring.ctrl.run = false → ring.accepted.length = ring.silenced
  silent : ring.ctrl.run = false → ring.ctrl.buffers = fun _ ↦ padded []

theorem Ac97.Settled.of_later {after : Ac97} (hsettled : ring.Settled) (hlater : Later ring after)
    (hsound : after.Sound) : after.Settled where
  sound := hsound
  playing := hlater.playing.trans (hsettled.playing.trans hlater.ctrl.run.symm)
  stopped := by
    rw [hlater.ctrl.run, hlater.accepted, hlater.silenced]
    exact hsettled.stopped
  silent := by
    rw [hlater.ctrl.run, hlater.ctrl.buffers]
    exact hsettled.silent

theorem settled_of_running (hsound : ring.Sound) (hplaying : ring.playing = true)
    (hrun : ring.ctrl.run = true) : ring.Settled where
  sound := hsound
  playing := hplaying.trans hrun.symm
  stopped := fun hnot ↦ by rw [hrun] at hnot; cases hnot
  silent := fun hnot ↦ by rw [hrun] at hnot; cases hnot

/-- The run bit is set behind the chunks that were queued. -/
theorem settled_of_queued {more : List Chunk} {queued : Ac97} (hsound : queued.Sound)
    (hqueued : Queued ring queued more) (hmore : more ≠ [])
    (hgoes : ring.ctrl.run = true → (queued.tick progress).ctrl.halted = false)
    (hbefore : ring.Sound) : (ac97EnsureRunning progress queued).Settled := by
  have hlength := List.length_pos_iff.mpr hmore
  obtain ⟨hlast, hrun, hplaying, -, -⟩ := ac97EnsureRunning_sound progress hsound
    (fun hrun ↦ by
      rw [hqueued.run] at hrun
      rw [hqueued.played hrun, hqueued.accepted, List.length_append]
      have := hbefore.tracks.played_le
      omega)
    (fun hrun ↦ hgoes (hqueued.run.symm.trans hrun))
  exact settled_of_running hlast hplaying hrun

theorem settled_of_refused {queued : Ac97} (hsettled : ring.Settled) (hsound : queued.Sound)
    (hqueued : Queued ring queued []) : queued.Settled where
  sound := hsound
  playing := hqueued.playing.trans (hsettled.playing.trans hqueued.run.symm)
  stopped := by
    rw [hqueued.run, hqueued.accepted, hqueued.silenced, List.append_nil]
    exact hsettled.stopped
  silent := by
    rw [hqueued.run, hqueued.buffers rfl]
    exact hsettled.silent

/-- Chunks are queued one after the other, where those of a stopped ring all fit. -/
theorem bulkLoop_queues {turns : ℕ} (hsound : ring.Sound) (hinit : ring.initialised = true)
    (hroom : ring.ctrl.run = false → ring.waiting + chunks data ≤ 32) :
    (bulkLoop progress turns data ring).1.Sound ∧
      ∃ more, Queued ring (bulkLoop progress turns data ring).1 more ∧
      more.length = (bulkLoop progress turns data ring).2 := by
  induction turns generalizing data ring with
  | zero => exact ⟨hsound, [], (Later.refl ring).queued, rfl⟩
  | succ turns ih =>
    rw [bulkLoop]
    by_cases hempty : data = []
    · rw [if_pos hempty]
      exact ⟨hsound, [], (Later.refl ring).queued, rfl⟩
    rw [if_neg hempty]
    have hpositive := List.length_pos_iff.mpr hempty
    have hdrop : (data.drop AC97_DMA_BUF_SIZE).length = data.length - 4096 := List.length_drop
    have hfits : ring.ctrl.run = false → (data.take AC97_DMA_BUF_SIZE).length ≠ 0 →
        ring.waiting < 32 := by
      intro hrun _
      have := hroom hrun
      unfold chunks at this
      omega
    obtain ⟨hfirst, hcases⟩ := ac97QueueBuffer_cases progress hsound hfits
    generalize ac97QueueBuffer progress (data.take AC97_DMA_BUF_SIZE) ring = queued at hfirst hcases
    rcases hcases with ⟨hcode, hqueued⟩ | ⟨hcode, hqueued⟩
    · rw [if_pos (by omega)]
      exact ⟨hfirst, [], hqueued, rfl⟩
    · dsimp only
      rw [if_neg (by omega)]
      obtain ⟨hlast, more, hmore, hlength⟩ := @ih queued.1 (data.drop AC97_DMA_BUF_SIZE) hfirst
        (hqueued.initialised.trans hinit) fun hrun ↦ by
          rw [hqueued.run] at hrun
          have hbefore := hroom hrun
          have hle := hsound.tracks.played_le
          unfold Ac97.waiting chunks at hbefore ⊢
          rw [hqueued.accepted, hqueued.played hrun, List.length_append,
            List.length_singleton, hdrop]
          omega
      refine ⟨hlast, _, hqueued.trans hmore, ?_⟩
      rw [List.length_append, List.length_singleton, hlength]
      exact Nat.add_comm 1 _

/-- A call keeps the ring in order where it is safe. -/
theorem settled_step {call : AudioCall} (hsettled : ring.Settled) (hsafe : ring.Safe progress call)
    (hwaits : ring.Waits call) : (ring.step progress call).Settled := by
  have hsound := hsettled.sound
  cases call with
  | write data =>
    change (ac97Write progress data ring).1.Settled
    unfold ac97Write
    dsimp only
    by_cases hinit : ring.initialised = true
    swap
    · have hrefused : ac97QueueBuffer progress data ring = (ring, -1) := by
        unfold ac97QueueBuffer
        rw [if_pos (by simp [hinit])]
      rw [hrefused, if_neg (show ¬(-1 : ℤ) = 0 by decide)]
      exact hsettled
    obtain ⟨hroom, hgoes⟩ := hsafe hinit
    obtain ⟨hqueued, ⟨hcode, hsame⟩ | ⟨hcode, hmore⟩⟩ :=
      ac97QueueBuffer_cases progress hsound hroom
    · rw [if_neg (by omega)]
      exact settled_of_refused hsettled hqueued hsame
    · rw [if_pos hcode]
      exact settled_of_queued progress hqueued hmore (List.cons_ne_nil _ _)
        (fun hrun ↦ hgoes hrun hcode) hsound
  | writeBulk data =>
    change (ac97WriteBulk progress data ring).1.Settled
    unfold ac97WriteBulk
    by_cases hinit : !ring.initialised
    · rw [if_pos hinit]
      exact hsettled
    rw [if_neg hinit]
    by_cases hempty : data.length = 0
    · rw [if_pos hempty]
      exact hsettled
    rw [if_neg hempty]
    have hset : ring.initialised = true := by simpa using hinit
    obtain ⟨hroom, hgoes⟩ := hsafe hset
    obtain ⟨hqueued, more, hmore, hlength⟩ :=
      @bulkLoop_queues progress ring data data.length hsound hset hroom
    dsimp only
    by_cases hcount : 0 < (bulkLoop progress data.length data ring).2
    · rw [if_pos hcount]
      refine settled_of_queued progress hqueued hmore ?_ (fun hrun ↦ hgoes hrun hcount) hsound
      exact List.length_pos_iff.mp (by omega)
    · rw [if_neg hcount]
      obtain rfl := List.length_eq_zero_iff.mp (show more.length = 0 by omega)
      exact settled_of_refused hsettled hqueued hmore
  | stop =>
    change (ac97Stop progress ring).Settled
    unfold ac97Stop
    split_ifs
    · exact hsettled
    obtain ⟨hone, hfirst⟩ := hsound.tick progress
    have htracks := hone.tracks
    refine ⟨⟨⟨htracks.played_le, htracks.few, htracks.lvi, fun hhalted ↦ ?_, fun hgoing ↦
      ?_, ?_, ?_⟩,
      hone.index, Nat.le_refl _⟩, rfl, fun _ ↦ rfl, fun _ ↦ rfl⟩
    · obtain ⟨hpositive, hciv, -⟩ := htracks.halted hhalted
      exact ⟨hpositive, hciv, fun hnot ↦ by cases hnot⟩
    · exact ⟨(htracks.going hgoing).1, fun hnot ↦ by cases hnot⟩
    · intro n chunk _ hchunk
      exact (if_pos (List.getElem?_eq_some_iff.mp hchunk).1).symm
    · intro hzero
      dsimp only at hzero ⊢
      have hle := htracks.played_le
      rw [List.length_eq_zero_iff.mp (show (ring.tick progress).ctrl.played.length = 0 by omega)]
      exact List.nil_prefix
  | resume =>
    change (ac97Resume progress ring).Settled
    unfold ac97Resume
    by_cases hskip : !ring.initialised || ring.playing
    · rw [if_pos hskip]
      exact hsettled
    rw [if_neg hskip]
    obtain ⟨hset, hidle⟩ : ring.initialised = true ∧ ring.playing = false := by simpa using hskip
    have hwaiting := hwaits hset hidle
    unfold Ac97.waiting at hwaiting
    have hrun : ring.ctrl.run = false := hsettled.playing.symm.trans hidle
    obtain ⟨hlast, hran, hplaying, -, -⟩ := ac97EnsureRunning_sound progress hsound
      (fun _ ↦ by omega) (fun hnot ↦ by rw [hrun] at hnot; cases hnot)
    exact settled_of_running hlast hplaying hran
  | idle =>
    obtain ⟨hone, hfirst⟩ := hsound.tick progress
    exact hsettled.of_later hfirst hone

theorem Ac97.Settled.faithful (hsettled : ring.Settled) : ring.Faithful := by
  have htracks := hsettled.sound.tracks
  refine ⟨htracks.held, fun hzero ↦ ⟨htracks.plays hzero, ?_⟩⟩
  cases hrun : ring.ctrl.run with
  | true => exact htracks.plays_all hzero hrun rfl
  | false =>
    have hempty := hsettled.stopped hrun
    rw [hzero] at hempty
    have hle := htracks.played_le
    have hwaiting : ring.waiting = 0 := by
      unfold Ac97.waiting
      omega
    rw [hwaiting, List.length_eq_zero_iff.mp hempty]
    exact List.length_eq_zero_iff.mp (show ring.ctrl.played.length = 0 by omega)

/-- Behind a resumption without a chunk that waits there is silence only. -/
theorem Ac97.Settled.resume_silent (hsettled : ring.Settled) (hidle : ring.playing = false) :
    (ac97Resume progress ring).ctrl.buffers = fun _ ↦ padded [] := by
  have hsilent := hsettled.silent (hsettled.playing.symm.trans hidle)
  obtain ⟨hone, hfirst⟩ := hsettled.sound.tick progress
  obtain ⟨htwo, hsecond⟩ := hone.tick progress
  obtain ⟨-, hthird⟩ := htwo.tick progress
  have hbuffers := (hfirst.trans (hsecond.trans hthird)).ctrl.buffers
  unfold ac97Resume ac97EnsureRunning
  split_ifs
  · exact hsilent
  · dsimp only
    split_ifs
    · exact hbuffers.trans hsilent
    · exact hfirst.ctrl.buffers.trans hsilent

theorem settled_boot (initialised : Bool) : (Ac97.boot initialised).Settled where
  sound := by
    refine ⟨⟨Nat.le_refl _, Nat.zero_le _, fun hnot ↦ ?_, fun hnot ↦ (by cases hnot), fun _ ↦
      ⟨rfl, ?_⟩,
      ?_, fun _ ↦ List.prefix_refl _⟩, rfl, Nat.le_refl _⟩
    · exact absurd hnot (Nat.lt_irrefl 0)
    · intro hnot
      cases hnot
    · intro n chunk _ hchunk
      cases hchunk
  playing := rfl
  stopped := fun _ ↦ rfl
  silent := fun _ ↦ rfl

/-- In every run whose calls are safe, and whose resumptions find a chunk that waits, no chunk that
waits is overwritten, and without a stop the chunks are played once each and in order. -/
theorem ring_faithful (initialised : Bool) {calls : List AudioCall} {ring : Ac97}
    (hrun : Run (Guarded (fun ring call ↦ ring.Safe progress call ∧ ring.Waits call)
      (Moves (Ac97.step progress))) (Ac97.boot initialised) calls ring) : ring.Faithful := by
  have hsettled : ring.Settled := by
    refine hrun.guarded_invariant (fun before call after hbefore hguard hstep ↦ ?_)
      (settled_boot initialised)
    rw [← hstep]
    exact settled_step progress hbefore hguard.1 hguard.2
  exact hsettled.faithful

/-- Chunks are written while others are played; the controller halts behind the third one and goes
on with the fourth. -/
def severalCalls : List AudioCall :=
  [.write [1], .write [2], .idle, .idle, .write [3], .idle, .idle, .idle, .idle, .idle,
    .idle, .idle,
    .idle, .write [4], .idle, .idle, .write [5], .idle]

/-- The controller plays a slot at every fifth access. -/
def everyFifth (clock : ℕ) : ℕ := if clock % 5 = 4 then 1 else 0

instance (ring : Ac97) : (call : AudioCall) → Decidable (ring.Safe progress call)
  | .write _ | .writeBulk _ => inferInstanceAs (Decidable (_ → _ ∧ _))
  | .stop | .resume | .idle => isTrue trivial

instance (ring : Ac97) : (call : AudioCall) → Decidable (ring.Waits call)
  | .resume => inferInstanceAs (Decidable (_ → _ → _))
  | .write _ | .writeBulk _ | .stop | .idle => isTrue trivial

/-- The four chunks that were played by then are the first four, and the fifth one is next. -/
theorem ring_faithful_one :
    let ring := severalCalls.foldl (Ac97.step everyFifth) (Ac97.boot true)
    ring.ctrl.played = [[1], [2], [3], [4]].map padded ∧
      ring.ctrl.playSlot.played = [[1], [2], [3], [4], [5]].map padded := by
  intro ring
  have hallowed : Allowed (fun ring call ↦ ring.Safe everyFifth call ∧ ring.Waits call)
      (Ac97.step everyFifth) (Ac97.boot true) severalCalls := by
    decide +kernel
  obtain ⟨hfirst, hnext⟩ := (ring_faithful everyFifth true (Run.of_allowed hallowed)).2 rfl
  have haccepted : ring.accepted = [[1], [2], [3], [4], [5]].map padded := rfl
  have hwaiting : ring.waiting = 1 := by decide +kernel
  have hplayed : ring.ctrl.played.length = 4 := by decide +kernel
  refine ⟨?_, ?_⟩
  · rw [List.prefix_iff_eq_take.mp hfirst]
    change ring.accepted.take ring.ctrl.played.length = _
    rw [hplayed, haccepted]
    rfl
  · change (Controller.playSlot^[ring.waiting] ring.ctrl).played = ring.accepted at hnext
    rwa [hwaiting, haccepted] at hnext

/-! ### A stopped ring takes everything -/

/-- A stopped ring accepts whatever comes, a controller that stands still being where it was. -/
theorem ac97QueueBuffer_stopped (hinit : ring.initialised = true) (hrun : ring.ctrl.run = false)
    (hdata : data.length ≠ 0) :
    (ac97QueueBuffer (fun _ ↦ 0) data ring).2 = 0 ∧
      (ac97QueueBuffer (fun _ ↦ 0) data ring).1.initialised = true ∧
      (ac97QueueBuffer (fun _ ↦ 0) data ring).1.ctrl.run = false ∧
      (ac97QueueBuffer (fun _ ↦ 0) data ring).1.ctrl.played = ring.ctrl.played ∧
      (ac97QueueBuffer (fun _ ↦ 0) data ring).1.silenced = ring.silenced ∧
      (ac97QueueBuffer (fun _ ↦ 0) data ring).1.accepted = ring.accepted ++ [padded data] := by
  have hprobed : ac97HwInFlight (fun _ ↦ 0) ring = (ring.tick fun _ ↦ 0, 0) := by
    unfold ac97HwInFlight
    dsimp only
    refine if_pos ?_
    change (!ring.ctrl.run || ring.ctrl.halted) = true
    rw [hrun]
    rfl
  unfold ac97QueueBuffer
  rw [if_neg (by rw [hinit]; decide), if_neg hdata, hprobed]
  dsimp only
  rw [if_neg (by decide)]
  exact ⟨rfl, hinit, (writeLvi_run _ _).1.trans hrun, (writeLvi_run _ _).2, rfl, rfl⟩

theorem bulkLoop_stopped (count : ℕ) {turns : ℕ} (hturns : count < turns)
    (hinit : ring.initialised = true) (hrun : ring.ctrl.run = false) :
    0 < (bulkLoop (fun _ ↦ 0) turns (List.replicate (count * AC97_DMA_BUF_SIZE) 0 ++ [1]) ring).2 ∧
      (bulkLoop (fun _ ↦ 0) turns
        (List.replicate (count * AC97_DMA_BUF_SIZE) 0 ++ [1]) ring).1.ctrl.played =
        ring.ctrl.played ∧
      (bulkLoop (fun _ ↦ 0) turns
        (List.replicate (count * AC97_DMA_BUF_SIZE) 0 ++ [1]) ring).1.silenced =
        ring.silenced ∧
      (bulkLoop (fun _ ↦ 0) turns
        (List.replicate (count * AC97_DMA_BUF_SIZE) 0 ++ [1]) ring).1.accepted =
        ring.accepted ++ (List.replicate count (padded []) ++ [padded [1]]) := by
  induction count generalizing turns ring with
  | zero =>
    obtain ⟨turns, rfl⟩ := Nat.exists_eq_succ_of_ne_zero (show turns ≠ 0 by omega)
    obtain ⟨hcode, hset, hstill, hplayed, hsilenced, haccepted⟩ :=
      @ac97QueueBuffer_stopped ring [1] hinit hrun (by decide)
    have hrest : ∀ ring : Ac97, bulkLoop (fun _ ↦ 0) turns [] ring = (ring, 0) := by
      intro ring
      cases turns <;> rfl
    have hloop :
      bulkLoop (fun _ ↦ 0) (turns + 1) (List.replicate (0 * AC97_DMA_BUF_SIZE) 0 ++ [1]) ring =
        ((ac97QueueBuffer (fun _ ↦ 0) [1] ring).1, 1) := by
      change bulkLoop (fun _ ↦ 0) (turns + 1) [1] ring = _
      have htake : List.take AC97_DMA_BUF_SIZE [(1 : UInt8)] = [1] :=
        List.take_of_length_le (by decide)
      have hdrop : List.drop AC97_DMA_BUF_SIZE [(1 : UInt8)] = [] :=
        List.drop_of_length_le (by decide)
      rw [bulkLoop, if_neg (List.cons_ne_nil _ _), htake, hdrop]
      dsimp only
      rw [if_neg (by omega), hrest]
    rw [hloop]
    exact ⟨Nat.one_pos, hplayed, hsilenced, haccepted⟩
  | succ count ih =>
    obtain ⟨turns, rfl⟩ := Nat.exists_eq_succ_of_ne_zero (show turns ≠ 0 by omega)
    obtain ⟨hcode, hset, hstill, hplayed, hsilenced, haccepted⟩ :=
      @ac97QueueBuffer_stopped ring (List.replicate AC97_DMA_BUF_SIZE 0) hinit hrun (by
        rw [List.length_replicate]
        decide)
    have hdata : List.replicate ((count + 1) * AC97_DMA_BUF_SIZE) (0 : UInt8) ++ [1] =
        List.replicate AC97_DMA_BUF_SIZE 0 ++
          (List.replicate (count * AC97_DMA_BUF_SIZE) 0 ++ [1]) := by
      rw [← List.append_assoc, List.replicate_append_replicate,
        show (count + 1) * AC97_DMA_BUF_SIZE = AC97_DMA_BUF_SIZE + count * AC97_DMA_BUF_SIZE from
          (Nat.succ_mul _ _).trans (Nat.add_comm _ _)]
    have hchunk : padded (List.replicate AC97_DMA_BUF_SIZE 0) = padded [] := by
      unfold padded
      rw [List.length_replicate, List.take_replicate, Nat.min_self, Nat.sub_self,
        List.replicate_zero,
        List.append_nil, List.take_nil, List.nil_append, List.length_nil, Nat.sub_zero]
    have hlength : (List.replicate AC97_DMA_BUF_SIZE (0 : UInt8)).length = AC97_DMA_BUF_SIZE :=
      List.length_replicate
    have hloop : bulkLoop (fun _ ↦ 0) (turns + 1)
      (List.replicate ((count + 1) * AC97_DMA_BUF_SIZE) 0 ++ [1]) ring =
        ((bulkLoop (fun _ ↦ 0) turns (List.replicate (count * AC97_DMA_BUF_SIZE) 0 ++ [1])
            (ac97QueueBuffer (fun _ ↦ 0) (List.replicate AC97_DMA_BUF_SIZE 0) ring).1).1,
          (bulkLoop (fun _ ↦ 0) turns (List.replicate (count * AC97_DMA_BUF_SIZE) 0 ++ [1])
            (ac97QueueBuffer (fun _ ↦ 0) (List.replicate AC97_DMA_BUF_SIZE 0) ring).1).2 + 1) := by
      have htake := @List.take_left _ (List.replicate AC97_DMA_BUF_SIZE (0 : UInt8))
        (List.replicate (count * AC97_DMA_BUF_SIZE) 0 ++ [1])
      have hdrop := @List.drop_left _ (List.replicate AC97_DMA_BUF_SIZE (0 : UInt8))
        (List.replicate (count * AC97_DMA_BUF_SIZE) 0 ++ [1])
      rw [hlength] at htake hdrop
      rw [hdata, bulkLoop, if_neg (List.append_ne_nil_of_right_ne_nil _
        (List.append_ne_nil_of_right_ne_nil _ (List.cons_ne_nil _ _))), htake, hdrop]
      dsimp only
      rw [if_neg (by omega)]
    obtain ⟨hcount, hbulk, hzero, hall⟩ := ih (Nat.lt_of_succ_lt_succ hturns) hset hstill
    rw [hloop]
    refine ⟨Nat.succ_pos _, hbulk.trans hplayed, hzero.trans hsilenced, ?_⟩
    dsimp only
    rw [hall, haccepted, hchunk, List.append_assoc, List.replicate_succ]
    rfl

theorem step_writeBulk {data : Chunk} {progress : ℕ → ℕ} (hinit : ring.initialised = true)
    (hdata : data.length ≠ 0) (hcount : 0 < (bulkLoop progress data.length data ring).2) :
    ring.step progress (.writeBulk data) =
      ac97EnsureRunning progress (bulkLoop progress data.length data ring).1 := by
  change (ac97WriteBulk progress data ring).1 = _
  unfold ac97WriteBulk
  rw [if_neg (by rw [hinit]; decide), if_neg hdata]
  dsimp only
  rw [if_pos hcount]

/-- Thirty-three chunks that are written at once to a fresh ring come to thirty-two slots. -/
theorem bulk_overwrites : ¬((Ac97.boot true).step (fun _ ↦ 0)
    (.writeBulk (List.replicate (32 * AC97_DMA_BUF_SIZE) 0 ++ [1]))).Faithful := by
  intro hfaithful
  have hlength : (List.replicate (32 * AC97_DMA_BUF_SIZE) (0 : UInt8) ++ [1]).length =
      32 * AC97_DMA_BUF_SIZE + 1 := by
    rw [List.length_append, List.length_replicate, List.length_singleton]
  obtain ⟨hcount, hplayed, hsilenced, haccepted⟩ :=
    @bulkLoop_stopped (Ac97.boot true) 32 (32 * AC97_DMA_BUF_SIZE + 1) (by decide) rfl rfl
  have hkept : ∀ ring : Ac97, (ac97EnsureRunning (fun _ ↦ 0) ring).accepted = ring.accepted ∧
      (ac97EnsureRunning (fun _ ↦ 0) ring).ctrl.played = ring.ctrl.played ∧
      (ac97EnsureRunning (fun _ ↦ 0) ring).silenced = ring.silenced := by
    intro ring
    unfold ac97EnsureRunning
    dsimp only
    split_ifs <;> exact ⟨rfl, rfl, rfl⟩
  have hring : (Ac97.boot true).step (fun _ ↦ 0)
      (.writeBulk (List.replicate (32 * AC97_DMA_BUF_SIZE) 0 ++ [1])) =
        ac97EnsureRunning (fun _ ↦ 0) (bulkLoop (fun _ ↦ 0) (32 * AC97_DMA_BUF_SIZE + 1)
          (List.replicate (32 * AC97_DMA_BUF_SIZE) 0 ++ [1]) (Ac97.boot true)).1 := by
    have hstep := @step_writeBulk (Ac97.boot true)
      (List.replicate (32 * AC97_DMA_BUF_SIZE) 0 ++ [1]) (fun _ ↦ 0) rfl
    rw [hlength] at hstep
    exact hstep (Nat.succ_ne_zero _) hcount
  rw [hring] at hfaithful
  obtain ⟨hall, hnone, hzero⟩ := hkept (bulkLoop (fun _ ↦ 0) (32 * AC97_DMA_BUF_SIZE + 1)
    (List.replicate (32 * AC97_DMA_BUF_SIZE) 0 ++ [1]) (Ac97.boot true)).1
  have hheld := hfaithful.1
  rw [hall, haccepted, hnone, hplayed, hzero, hsilenced,
    show (Ac97.boot true).silenced = 0 from rfl]
    at hheld
  have hget : ∀ silent last : Chunk,
      ((Ac97.boot true).accepted ++ (List.replicate 32 silent ++ [last]))[0]? = some silent ∧
        ((Ac97.boot true).accepted ++ (List.replicate 32 silent ++ [last]))[32]? = some last :=
    fun _ _ ↦ ⟨rfl, rfl⟩
  have hfirst := hheld 0 (padded []) (Nat.le_refl _) (hget _ _).1
  have hlast := hheld 32 (padded [1]) (Nat.zero_le _) (hget _ _).2
  rw [if_neg (Nat.not_lt_zero _)] at hfirst hlast
  rw [show 32 % AC97_BDL_COUNT = 0 % AC97_BDL_COUNT from rfl, hfirst] at hlast
  have hsame : padded [] = padded [1] := hlast
  unfold padded at hsame
  rw [List.take_nil, List.nil_append] at hsame
  have hone : (1 : UInt8) ∈ List.replicate (AC97_DMA_BUF_SIZE - List.length ([] : Chunk)) 0 := by
    rw [hsame, List.take_of_length_le (by decide)]
    exact List.mem_append_left _ (List.mem_singleton_self _)
  exact absurd (List.eq_of_mem_replicate hone) (by decide)

end EynOS.Drivers
