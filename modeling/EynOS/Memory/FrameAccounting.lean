import EynOS.Foundation.RunScan
import EynOS.Memory.Vmm
import Mathlib.Order.Interval.Finset.Nat

/-!
# The accounts of the frame allocator

Besides `frame_alloc` and `frame_free` the frame allocator has `frame_alloc_contiguous`,
`vmm_reserve_phys_range` and, while the system boots, `early_alloc`, and it starts with
`frame_alloc_init`. They share a bitmap, the number of free frames and a hint where to search.

`Sound` is what every call keeps: the number of free frames is the number of clear bits, and the
first 256 frames are never free. `Accounted` says what the allocator owes its callers in a state:
that the number is right, that `frame_alloc` succeeds exactly if it is positive, with a frame that
was free, and that `frame_alloc_contiguous` succeeds exactly if there is a long enough run of free
frames. `frame_alloc` looks at whole words of the bitmap only and leaves out the frames behind the
last one, so `Accounted` holds exactly where not all free frames are there (`Findable`):
`accounted_iff` says so for every state that calls lead to.
-/

namespace EynOS.Memory.FrameAccounting

open Foundation Foundation.Noted Vmm

/-! ### The allocator -/

def MAX_FRAMES : ℕ := 32768

def PAGE_SIZE : UInt32 := 4096

def PAGE_MASK : UInt32 := 0xFFFFF000

/-- `frame_set`, with one free frame less. -/
def setBusy (state : State) (frame : ℕ) : State :=
  { state with
    bitmap := Function.update state.bitmap frame true
    freeFrames := u32 (state.freeFrames + 0xFFFFFFFF) }

def detectedFrames (totalRamBytes : UInt32) : ℕ :=
  if MAX_FRAMES < totalRamBytes.toNat / 4096 then MAX_FRAMES else totalRamBytes.toNat / 4096

def kernelEndFrame (kernelEnd : UInt32) : ℕ := kernelEnd.toNat / 4096 + 1

/-- The frames that `frame_alloc_init` sets, in its order. -/
def initiallyBusy (totalRamBytes kernelEnd : UInt32) : List ℕ :=
  List.range 256 ++
    (List.range' 256 (kernelEndFrame kernelEnd + 1 - 256)).filter
      (· < detectedFrames totalRamBytes)

/-- All frames are free. -/
def allClear (state : State) (totalRamBytes : UInt32) : State :=
  { state with
    totalFrames := detectedFrames totalRamBytes
    bitmap := fun _ ↦ false
    freeFrames := detectedFrames totalRamBytes
    searchHint := 0 }

/-- Start searching at a word of the bitmap. -/
def setHint (state : State) (hint : ℕ) : State := { state with searchHint := hint }

def frameAllocInit (state : State) (totalRamBytes kernelEnd : UInt32) : State :=
  setHint ((initiallyBusy totalRamBytes kernelEnd).foldl setBusy (allClear state totalRamBytes))
    (kernelEndFrame kernelEnd / 32)

/-- The body of the loop of `vmm_reserve_phys_range`. -/
def reserveFrame (state : State) (frame : ℕ) : State :=
  if state.bitmap frame then state
  else
    { state with
      bitmap := Function.update state.bitmap frame true
      freeFrames := if state.freeFrames = 0 then 0 else state.freeFrames - 1 }

/-- The loop of `vmm_reserve_phys_range`, which ends behind the memory. -/
def reserveFrames (state : State) : List ℕ → State
  | [] => state
  | frame :: frames =>
    if state.totalFrames ≤ frame then state else reserveFrames (reserveFrame state frame) frames

/-- `vmm_reserve_phys_range`. -/
def reservePhysRange (state : State) (physStart physEnd : UInt32) : State :=
  if physEnd ≤ physStart then state
  else
    let first := (physStart &&& PAGE_MASK).toNat / 4096
    let last := ((physEnd + PAGE_SIZE - 1) &&& PAGE_MASK).toNat / 4096
    reserveFrames state (List.range' first (last - first))

/-- The first frame of the run that `frame_alloc_contiguous` finds. -/
def findRun (state : State) (count : ℕ) : Option ℕ :=
  scanRun (!state.bitmap ·) count (state.totalFrames - 256) 256 0 0

/-- `frame_alloc_contiguous`: the first frame, or 0. -/
def frameAllocContiguous (state : State) (count : ℕ) : ℕ × State :=
  if count = 0 ∨ state.freeFrames < count then (0, state)
  else
    match findRun state count with
    | none => (0, state)
    | some runStart => (runStart, (List.range' runStart count).foldl setBusy state)

/-- The body of the loop of `early_alloc`. -/
def markEarly (state : State) (frame : ℕ) : State :=
  if frame < state.totalFrames then
    if state.bitmap frame then state else setBusy state frame
  else state

/-- The memory manager with `early_heap_ptr`. -/
structure Allocator where
  vmm : State
  earlyHeapPtr : UInt32

def earlyAlloc (allocator : Allocator) (size alignment : UInt32) : UInt32 × Allocator :=
  let ptr := (allocator.earlyHeapPtr + alignment - 1) &&& ~~~(alignment - 1)
  let startFrame := ptr.toNat / 4096
  let endFrame := (ptr + size - 1).toNat / 4096
  (ptr,
    { vmm := (List.range' startFrame (endFrame + 1 - startFrame)).foldl markEarly allocator.vmm
      earlyHeapPtr := ptr + size })

/-- A call of the frame allocator. -/
inductive Call where
  | frameAlloc
  | frameFree (physAddr : UInt32)
  | frameAllocContiguous (count : ℕ)
  | reservePhysRange (physStart physEnd : UInt32)
  | earlyAlloc (size alignment : UInt32)

/-- What a call does. -/
def step (allocator : Allocator) : Call → Allocator
  | .frameAlloc => { allocator with vmm := (frameAlloc allocator.vmm).2.2 }
  | .frameFree physAddr =>
    { allocator with vmm := allocator.vmm.frameFree (physAddr.toNat / 4096) }
  | .frameAllocContiguous count =>
    { allocator with vmm := (frameAllocContiguous allocator.vmm count).2 }
  | .reservePhysRange physStart physEnd =>
    { allocator with vmm := reservePhysRange allocator.vmm physStart physEnd }
  | .earlyAlloc size alignment => (earlyAlloc allocator size alignment).2

/-! ### What the allocator owes its callers -/

/-- A frame of the memory that is free. -/
def Clear (state : State) (frame : ℕ) : Prop :=
  frame < state.totalFrames ∧ state.bitmap frame = false

def clearFrames (state : State) : Finset ℕ :=
  (Finset.range state.totalFrames).filter fun frame ↦ state.bitmap frame = false

/-- A run of free frames, from a first one to a last one. -/
def HasRun (state : State) (count : ℕ) : Prop :=
  ∃ first last, 256 ≤ first ∧ first ≤ last ∧ last < state.totalFrames ∧ last - first + 1 = count ∧
    ∀ frame, first ≤ frame → frame ≤ last → Clear state frame

/-- The accounts of the allocator are right. -/
structure Accounted (state : State) : Prop where
  counted : state.freeFrames = (clearFrames state).card
  granting : (frameAlloc state).2.1 ≠ 0 ↔ 0 < state.freeFrames
  granted : (frameAlloc state).2.1 ≠ 0 →
    256 ≤ (frameAlloc state).2.1 ∧ Clear state (frameAlloc state).2.1
  contiguous : ∀ count, (frameAllocContiguous state count).1 ≠ 0 ↔ HasRun state count

/-- If a frame is free, then one in a whole word of the bitmap is. -/
def Findable (state : State) : Prop :=
  (∃ frame, Clear state frame) →
    ∃ frame < 32 * (state.totalFrames / 32), state.bitmap frame = false

/-- The number of free frames is right. -/
structure Counted (state : State) : Prop where
  counted : state.freeFrames = (clearFrames state).card
  small : state.totalFrames ≤ MAX_FRAMES

/-- What every call keeps. -/
structure Sound (state : State) : Prop extends Counted state where
  low : ∀ frame < 256, state.bitmap frame = true
  large : 256 < state.totalFrames
  still : state.clockCount = 0

variable {state after : State} {frame count found : ℕ} {frames : List ℕ}

/-! ### The free frames -/

theorem mem_clearFrames : frame ∈ clearFrames state ↔ Clear state frame := by
  unfold clearFrames Clear
  rw [Finset.mem_filter, Finset.mem_range]

theorem card_clearFrames_le (state : State) : (clearFrames state).card ≤ state.totalFrames :=
  (Finset.card_filter_le _ _).trans_eq (Finset.card_range _)

theorem clearFrames_set (hbitmap : after.bitmap = Function.update state.bitmap frame true)
    (htotal : after.totalFrames = state.totalFrames) :
    clearFrames after = (clearFrames state).erase frame := by
  ext other
  rw [Finset.mem_erase, mem_clearFrames, mem_clearFrames]
  unfold Clear
  rw [hbitmap, htotal]
  by_cases hother : other = frame
  · simp [hother]
  · simp [hother]

/-- A frame in use is given back. -/
theorem clearFrames_clear (hbitmap : after.bitmap = Function.update state.bitmap frame false)
    (htotal : after.totalFrames = state.totalFrames) (hframe : frame < state.totalFrames) :
    clearFrames after = insert frame (clearFrames state) := by
  ext other
  rw [Finset.mem_insert, mem_clearFrames, mem_clearFrames]
  unfold Clear
  rw [hbitmap, htotal]
  by_cases hother : other = frame
  · simp [hother, hframe]
  · simp [hother]

theorem Counted.freeFrames_pos (hcounted : Counted state) :
    0 < state.freeFrames ↔ ∃ frame, Clear state frame := by
  rw [hcounted.counted, Finset.card_pos]
  exact exists_congr fun _ ↦ mem_clearFrames

/-- A free frame is taken, and the number goes down by one. -/
theorem Counted.taken (hcounted : Counted state) (hclear : Clear state frame)
    (hbitmap : after.bitmap = Function.update state.bitmap frame true)
    (hfree : after.freeFrames = state.freeFrames - 1)
    (htotal : after.totalFrames = state.totalFrames) : Counted after where
  counted := by
    rw [clearFrames_set hbitmap htotal, Finset.card_erase_of_mem (mem_clearFrames.mpr hclear),
      hfree, hcounted.counted]
  small := htotal ▸ hcounted.small

/-- A frame in use is given back, and the number goes up by one. -/
theorem Counted.given (hcounted : Counted state) (hlt : frame < state.totalFrames)
    (hbusy : state.bitmap frame = true)
    (hbitmap : after.bitmap = Function.update state.bitmap frame false)
    (hfree : after.freeFrames = state.freeFrames + 1)
    (htotal : after.totalFrames = state.totalFrames) : Counted after where
  counted := by
    have hnot : frame ∉ clearFrames state := fun hmem ↦ by
      rw [(mem_clearFrames.mp hmem).2] at hbusy
      exact Bool.noConfusion hbusy
    rw [clearFrames_clear hbitmap htotal hlt, Finset.card_insert_of_notMem hnot, hfree,
      hcounted.counted]
  small := htotal ▸ hcounted.small

/-- `frame_set` of a free frame; the number does not wrap. -/
theorem Counted.setBusy (hcounted : Counted state) (hclear : Clear state frame) :
    Counted (setBusy state frame) := by
  refine hcounted.taken hclear rfl ?_ rfl
  have hpos : 0 < state.freeFrames := hcounted.freeFrames_pos.mpr ⟨frame, hclear⟩
  have hle : state.freeFrames ≤ 32768 := by
    rw [hcounted.counted]
    exact (card_clearFrames_le state).trans hcounted.small
  change (state.freeFrames + 0xFFFFFFFF) % 4294967296 = state.freeFrames - 1
  omega

/-- Other frames stay as they are. -/
theorem clear_setBusy {other : ℕ} (hclear : Clear state other) (hother : other ≠ frame) :
    Clear (setBusy state frame) other := by
  refine ⟨hclear.1, ?_⟩
  change Function.update state.bitmap frame true other = false
  rw [Function.update_of_ne hother]
  exact hclear.2

theorem Counted.setHint (hcounted : Counted state) (hint : ℕ) : Counted (setHint state hint) :=
  ⟨hcounted.counted, hcounted.small⟩

/-- A list of free frames is taken. -/
theorem Counted.foldl_setBusy (hcounted : Counted state) (hnodup : frames.Nodup)
    (hclear : ∀ frame ∈ frames, Clear state frame) :
    Counted (frames.foldl FrameAccounting.setBusy state) := by
  induction frames generalizing state with
  | nil => exact hcounted
  | cons frame frames ih =>
    obtain ⟨hnot, hnodup⟩ := List.nodup_cons.mp hnodup
    refine ih (hcounted.setBusy (hclear frame List.mem_cons_self)) hnodup fun other hother ↦ ?_
    refine clear_setBusy (hclear other (List.mem_cons_of_mem frame hother)) ?_
    exact fun heq ↦ hnot (heq ▸ hother)

/-- Which frames are in use when a list of them has been taken. -/
theorem foldl_setBusy_bitmap (frames : List ℕ) (state : State) (frame : ℕ) :
    (frames.foldl setBusy state).bitmap frame = true ↔
      frame ∈ frames ∨ state.bitmap frame = true := by
  induction frames generalizing state with
  | nil => simp
  | cons first frames ih =>
    rw [List.foldl_cons, ih, List.mem_cons, or_assoc, or_left_comm]
    refine or_congr_right ?_
    by_cases hframe : frame = first
    · simp [hframe, setBusy]
    · simp [hframe, setBusy]

/-- Taking frames leaves the memory and the clock as they are. -/
theorem foldl_setBusy_same (frames : List ℕ) (state : State) :
    (frames.foldl setBusy state).totalFrames = state.totalFrames ∧
      (frames.foldl setBusy state).clockCount = state.clockCount := by
  induction frames generalizing state with
  | nil => exact ⟨rfl, rfl⟩
  | cons first frames ih => exact ih (setBusy state first)

/-! ### The start -/

theorem mem_initiallyBusy {totalRamBytes kernelEnd : UInt32} :
    frame ∈ initiallyBusy totalRamBytes kernelEnd ↔
      frame < 256 ∨ 256 ≤ frame ∧ frame ≤ kernelEndFrame kernelEnd ∧
        frame < detectedFrames totalRamBytes := by
  unfold initiallyBusy
  rw [List.mem_append, List.mem_range, List.mem_filter, List.mem_range'_1, decide_eq_true_eq,
    and_assoc]
  refine or_congr_right (and_congr_right fun hle ↦ and_congr_left fun _ ↦ ?_)
  omega

/-- The frames in use at the start are different ones. -/
theorem nodup_initiallyBusy (totalRamBytes kernelEnd : UInt32) :
    (initiallyBusy totalRamBytes kernelEnd).Nodup := by
  refine List.Nodup.append List.nodup_range ((List.nodup_range' ..).filter _) ?_
  intro frame hlow hhigh
  have hlt := List.mem_range.mp hlow
  have hle := (List.mem_range'_1.mp (List.mem_filter.mp hhigh).1).1
  exact absurd hlt (Nat.not_lt_of_le hle)

/-- The memory and the clock at the start. -/
theorem frameAllocInit_same (state : State) (totalRamBytes kernelEnd : UInt32) :
    (frameAllocInit state totalRamBytes kernelEnd).totalFrames = detectedFrames totalRamBytes ∧
      (frameAllocInit state totalRamBytes kernelEnd).clockCount = state.clockCount := by
  unfold frameAllocInit setHint
  rw [(foldl_setBusy_same ..).1, (foldl_setBusy_same ..).2]
  exact ⟨rfl, rfl⟩

theorem frameAllocInit_bitmap (state : State) (totalRamBytes kernelEnd : UInt32) (frame : ℕ) :
    (frameAllocInit state totalRamBytes kernelEnd).bitmap frame = true ↔
      frame ∈ initiallyBusy totalRamBytes kernelEnd := by
  unfold frameAllocInit setHint
  rw [foldl_setBusy_bitmap]
  simp [allClear]

theorem detectedFrames_le (totalRamBytes : UInt32) : detectedFrames totalRamBytes ≤ MAX_FRAMES := by
  unfold detectedFrames
  split
  · exact Nat.le_refl _
  · exact Nat.le_of_not_lt ‹_›

/-- All frames are counted before the first one is taken. -/
theorem counted_allClear (state : State) (totalRamBytes : UInt32) :
    Counted (allClear state totalRamBytes) := by
  refine ⟨?_, detectedFrames_le totalRamBytes⟩
  have hall : clearFrames (allClear state totalRamBytes) =
      Finset.range (detectedFrames totalRamBytes) := Finset.filter_true_of_mem fun _ _ ↦ rfl
  rw [hall, Finset.card_range]
  rfl

/-- The allocator starts soundly. -/
theorem sound_frameAllocInit (hstill : state.clockCount = 0) {totalRamBytes : UInt32}
    (hlarge : 256 < detectedFrames totalRamBytes) (kernelEnd : UInt32) :
    Sound (frameAllocInit state totalRamBytes kernelEnd) where
  toCounted := by
    refine ((counted_allClear state totalRamBytes).foldl_setBusy (nodup_initiallyBusy ..)
      fun frame hframe ↦ ⟨?_, rfl⟩).setHint _
    rcases mem_initiallyBusy.mp hframe with hlow | ⟨-, -, hlt⟩
    · exact hlow.trans hlarge
    · exact hlt
  low frame hframe := (frameAllocInit_bitmap ..).mpr (mem_initiallyBusy.mpr (.inl hframe))
  large := by
    rw [(frameAllocInit_same ..).1]
    exact hlarge
  still := by
    rw [(frameAllocInit_same ..).2]
    exact hstill

/-! ### Single frames -/

section

variable (hsound : Sound state)

include hsound

/-- A free frame is none of the first 256. -/
theorem Sound.le (hclear : Clear state frame) : 256 ≤ frame := by
  by_contra hlow
  have hbusy := hsound.low frame (Nat.lt_of_not_le hlow)
  rw [hclear.2] at hbusy
  exact Bool.noConfusion hbusy

/-- Taking a free frame is sound. -/
theorem Sound.taken (hclear : Clear state frame)
    (hcounted : Counted after)
    (hbitmap : after.bitmap = Function.update state.bitmap frame true)
    (htotal : after.totalFrames = state.totalFrames)
    (hclock : after.clockCount = state.clockCount) : Sound after where
  toCounted := hcounted
  low other hother := by
    rw [hbitmap, Function.update_of_ne (hother.trans_le (hsound.le hclear)).ne]
    exact hsound.low other hother
  large := htotal ▸ hsound.large
  still := hclock.trans hsound.still

theorem Sound.frameFree (frame : ℕ) : Sound (state.frameFree frame) := by
  unfold State.frameFree
  split
  · exact hsound
  · next hframe =>
    obtain ⟨hlow, hlt⟩ := not_or.mp hframe
    have hlt := Nat.lt_of_not_le hlt
    split
    · next hbusy =>
      refine ⟨hsound.given hlt hbusy rfl rfl rfl, fun other hother ↦ ?_, hsound.large,
        hsound.still⟩
      change Function.update state.bitmap frame false other = true
      rw [Function.update_of_ne (hother.trans_le (Nat.le_of_not_lt hlow)).ne]
      exact hsound.low other hother
    · exact hsound

/-- The body of the loop of `vmm_reserve_phys_range`. -/
theorem Sound.reserveFrame (hlt : frame < state.totalFrames) :
    Sound (reserveFrame state frame) := by
  unfold FrameAccounting.reserveFrame
  split
  · exact hsound
  · next hbusy =>
    have hclear : Clear state frame := ⟨hlt, Bool.eq_false_of_not_eq_true hbusy⟩
    refine hsound.taken hclear (hsound.toCounted.taken hclear rfl ?_ rfl) rfl rfl rfl
    have hpos : state.freeFrames ≠ 0 := (hsound.freeFrames_pos.mpr ⟨frame, hclear⟩).ne'
    exact if_neg hpos

/-- The loop of `vmm_reserve_phys_range`. -/
theorem Sound.reserveFrames (frames : List ℕ) :
    Sound (reserveFrames state frames) := by
  induction frames generalizing state with
  | nil => exact hsound
  | cons frame frames ih =>
    unfold FrameAccounting.reserveFrames
    split
    · exact hsound
    · next hlt => exact ih (hsound.reserveFrame (Nat.lt_of_not_le hlt))

/-- `vmm_reserve_phys_range`. -/
theorem Sound.reservePhysRange (physStart physEnd : UInt32) :
    Sound (reservePhysRange state physStart physEnd) := by
  unfold FrameAccounting.reservePhysRange
  split
  · exact hsound
  · exact hsound.reserveFrames _

/-- The body of the loop of `early_alloc`. -/
theorem Sound.markEarly (frame : ℕ) : Sound (markEarly state frame) := by
  unfold FrameAccounting.markEarly
  split
  · next hlt =>
    split
    · exact hsound
    · next hbusy =>
      have hclear : Clear state frame := ⟨hlt, Bool.eq_false_of_not_eq_true hbusy⟩
      exact hsound.taken hclear (hsound.setBusy hclear) rfl rfl rfl
  · exact hsound

end

theorem Sound.earlyAlloc {allocator : Allocator} (hsound : Sound allocator.vmm)
    (size alignment : UInt32) : Sound (earlyAlloc allocator size alignment).2.vmm := by
  unfold FrameAccounting.earlyAlloc
  exact List.foldlRecOn _ _ hsound fun _ hbefore frame _ ↦ hbefore.markEarly frame

/-! ### Runs of frames -/

/-- The run that `frame_alloc_contiguous` finds is free. -/
theorem clear_of_findRun (hsound : Sound state) (hcount : 0 < count)
    (hfound : findRun state count = some found) :
    256 ≤ found ∧ ∀ frame, found ≤ frame → frame < found + count → Clear state frame := by
  obtain ⟨hfirst, hend, hrun⟩ := scanRun_eq_some (.start hcount 256 0) hfound
  refine ⟨hfirst, fun frame hle hlt ↦ ⟨?_, by simpa using hrun frame hle hlt⟩⟩
  have hlarge := hsound.large
  omega

theorem le_freeFrames (hsound : Sound state) (hrun : HasRun state count) :
    0 < count ∧ count ≤ state.freeFrames := by
  obtain ⟨first, last, -, hle, -, rfl, hclear⟩ := hrun
  refine ⟨Nat.succ_pos _, ?_⟩
  have hsubset : Finset.Icc first last ⊆ clearFrames state := fun frame hframe ↦ by
    obtain ⟨hfirst, hlast⟩ := Finset.mem_Icc.mp hframe
    exact mem_clearFrames.mpr (hclear frame hfirst hlast)
  have hcard := Finset.card_le_card hsubset
  rw [Nat.card_Icc, ← hsound.counted] at hcard
  omega

/-- `frame_alloc_contiguous` succeeds exactly if there is a run. -/
theorem frameAllocContiguous_ne_zero (hsound : Sound state) (count : ℕ) :
    (frameAllocContiguous state count).1 ≠ 0 ↔ HasRun state count := by
  unfold frameAllocContiguous
  constructor
  · intro hne
    split at hne
    · exact absurd rfl hne
    · next hcount =>
      have hpos : 0 < count := Nat.pos_of_ne_zero (not_or.mp hcount).1
      cases hfound : findRun state count with
      | none =>
        rw [hfound] at hne
        exact absurd rfl hne
      | some found =>
        obtain ⟨hle, hclear⟩ := clear_of_findRun hsound hpos hfound
        refine ⟨found, found + count - 1, hle, by omega, ?_, by omega, fun frame hfirst hlast ↦ ?_⟩
        · exact (hclear (found + count - 1) (by omega) (by omega)).1
        · exact hclear frame hfirst (by omega)
  · intro hrun
    obtain ⟨hpos, hfree⟩ := le_freeFrames hsound hrun
    rw [if_neg (not_or.mpr ⟨hpos.ne', Nat.not_lt_of_le hfree⟩)]
    cases hfound : findRun state count with
    | none =>
      obtain ⟨first, last, hfirst, hle, hlast, hlength, hclear⟩ := hrun
      refine absurd (fun frame hframe hlt ↦ ?_)
        (scanRun_eq_none (.start hpos 256 0) hfound hfirst (by omega) (by omega))
      simpa using (hclear frame hframe (by omega)).2
    | some found => exact (Nat.zero_lt_of_lt (clear_of_findRun hsound hpos hfound).1).ne'

theorem Sound.frameAllocContiguous (hsound : Sound state) (count : ℕ) :
    Sound (frameAllocContiguous state count).2 := by
  unfold FrameAccounting.frameAllocContiguous
  split
  · exact hsound
  · next hcount =>
    have hpos : 0 < count := Nat.pos_of_ne_zero (not_or.mp hcount).1
    cases hfound : findRun state count with
    | none => exact hsound
    | some found =>
      obtain ⟨hle, hclear⟩ := clear_of_findRun hsound hpos hfound
      refine ⟨hsound.foldl_setBusy List.nodup_range' fun frame hframe ↦ ?_, fun frame hframe ↦ ?_,
        ?_, ?_⟩
      · obtain ⟨hfirst, hlast⟩ := List.mem_range'_1.mp hframe
        exact hclear frame hfirst hlast
      · exact (foldl_setBusy_bitmap ..).mpr (.inr (hsound.low frame hframe))
      · exact hsound.large.trans_eq (foldl_setBusy_same ..).1.symm
      · exact (foldl_setBusy_same ..).2.trans hsound.still

/-! ### `frame_alloc` -/

/-- `frame_alloc` looks at the whole words of the bitmap. -/
theorem mem_searchOrder (hwords : 0 < state.totalFrames / 32) :
    frame ∈ state.searchOrder ↔ frame < 32 * (state.totalFrames / 32) := by
  unfold State.searchOrder
  generalize state.totalFrames / 32 = words at hwords ⊢
  simp only [List.mem_flatMap, List.mem_map, List.mem_range]
  constructor
  · rintro ⟨i, -, bit, hbit, rfl⟩
    have hmod : (state.searchHint + i) % words < words := Nat.mod_lt _ hwords
    omega
  · intro hframe
    refine ⟨(frame / 32 + (words - state.searchHint % words)) % words, Nat.mod_lt _ hwords,
      frame % 32, Nat.mod_lt _ (by decide), ?_⟩
    have hhint : state.searchHint % words < words := Nat.mod_lt _ hwords
    have hword : (state.searchHint + (frame / 32 + (words - state.searchHint % words)) % words) %
        words = frame / 32 := by
      rw [Nat.add_mod_mod, ← Nat.mod_add_mod]
      have hsum : state.searchHint % words + (frame / 32 + (words - state.searchHint % words)) =
          frame / 32 + words := by omega
      rw [hsum, Nat.add_mod_right, Nat.mod_eq_of_lt (by omega)]
    rw [hword]
    omega

/-- Without free frames and without pages in the clock there is nothing to get. -/
theorem frameAlloc_full (hstill : state.clockCount = 0) (hfull : state.freeFrames = 0) :
    (frameAlloc state).2 = (0, state) := by
  unfold frameAlloc
  rw [look_bind, if_pos hfull]
  unfold clockEvictPage
  rw [look_bind, if_pos hstill]
  rfl

theorem frameAlloc_none (hfree : state.freeFrames ≠ 0) (hnone : state.findFree = none) :
    (frameAlloc state).2 = (0, state) := by
  unfold frameAlloc
  rw [look_bind, if_neg hfree, hnone]
  rfl

theorem frameAlloc_some (hfree : state.freeFrames ≠ 0) (hfound : state.findFree = some found) :
    (frameAlloc state).2 = (found, (state.takeFrame found).hold found) := by
  unfold frameAlloc
  rw [look_bind, if_neg hfree, hfound]
  rfl

theorem clear_of_findFree (hfound : state.findFree = some found) : Clear state found := by
  have hkind := List.find?_some hfound
  simp only [Bool.and_eq_true, Bool.not_eq_true', decide_eq_true_eq] at hkind
  exact ⟨hkind.2, hkind.1⟩

/-- A frame is found exactly if one in a whole word of the bitmap is free. -/
theorem findFree_ne_none (hlarge : 256 < state.totalFrames) :
    state.findFree ≠ none ↔
      ∃ frame < 32 * (state.totalFrames / 32), state.bitmap frame = false := by
  have hwords : 0 < state.totalFrames / 32 := by omega
  unfold State.findFree
  rw [Ne, List.find?_eq_none, not_forall]
  constructor
  · rintro ⟨frame, hframe⟩
    obtain ⟨hmem, hkind⟩ := Classical.not_imp.mp hframe
    refine ⟨frame, (mem_searchOrder hwords).mp hmem, ?_⟩
    rw [Classical.not_not, Bool.and_eq_true] at hkind
    exact Bool.not_eq_true' _ |>.mp hkind.1
  · rintro ⟨frame, hframe, hclear⟩
    refine ⟨frame, fun hall ↦ hall ((mem_searchOrder hwords).mpr hframe) ?_⟩
    have hlt : frame < state.totalFrames := hframe.trans_le (Nat.mul_div_le state.totalFrames 32)
    simp [hclear, hlt]

theorem Sound.frameAlloc (hsound : Sound state) : Sound (frameAlloc state).2.2 := by
  by_cases hfull : state.freeFrames = 0
  · rw [frameAlloc_full hsound.still hfull]
    exact hsound
  · cases hfound : state.findFree with
    | none =>
      rw [frameAlloc_none hfull hfound]
      exact hsound
    | some found =>
      rw [frameAlloc_some hfull hfound]
      have hclear := clear_of_findFree hfound
      exact hsound.taken hclear (hsound.toCounted.taken hclear rfl rfl rfl) rfl rfl rfl

/-- `frame_alloc` returns only frames that were free. -/
theorem granted (hsound : Sound state) (hne : (frameAlloc state).2.1 ≠ 0) :
    256 ≤ (frameAlloc state).2.1 ∧ Clear state (frameAlloc state).2.1 := by
  by_cases hfull : state.freeFrames = 0
  · rw [frameAlloc_full hsound.still hfull] at hne
    exact absurd rfl hne
  · cases hfound : state.findFree with
    | none =>
      rw [frameAlloc_none hfull hfound] at hne
      exact absurd rfl hne
    | some found =>
      rw [frameAlloc_some hfull hfound]
      have hclear := clear_of_findFree hfound
      exact ⟨hsound.le hclear, hclear⟩

/-- `frame_alloc` succeeds exactly if a frame in a whole word of the bitmap is free. -/
theorem frameAlloc_ne_zero (hsound : Sound state) : (frameAlloc state).2.1 ≠ 0 ↔
    ∃ frame < 32 * (state.totalFrames / 32), state.bitmap frame = false := by
  rw [← findFree_ne_none hsound.large]
  by_cases hfull : state.freeFrames = 0
  · rw [frameAlloc_full hsound.still hfull]
    refine iff_of_false (fun hne ↦ hne rfl) fun hsome ↦ ?_
    obtain ⟨found, hfound⟩ := Option.ne_none_iff_exists'.mp hsome
    have hpos := hsound.freeFrames_pos.mpr ⟨found, clear_of_findFree hfound⟩
    exact hpos.ne' hfull
  · cases hfound : state.findFree with
    | none =>
      rw [frameAlloc_none hfull hfound]
      simp
    | some found =>
      rw [frameAlloc_some hfull hfound]
      have hle := hsound.le (clear_of_findFree hfound)
      simp only [ne_eq, reduceCtorEq, not_false_eq_true, iff_true]
      omega

/-! ### Whole runs -/

/-- The accounts are right exactly where the free frames are not all behind the whole words. -/
theorem accounted_iff_findable (hsound : Sound state) : Accounted state ↔ Findable state := by
  unfold Findable
  rw [← hsound.freeFrames_pos, ← frameAlloc_ne_zero hsound]
  constructor
  · intro haccounted hpos
    exact haccounted.granting.mpr hpos
  · intro hfindable
    refine ⟨hsound.counted, ⟨fun hne ↦ ?_, hfindable⟩, granted hsound,
      frameAllocContiguous_ne_zero hsound⟩
    exact hsound.freeFrames_pos.mpr ⟨_, (granted hsound hne).2⟩

theorem Sound.step {allocator : Allocator} (hsound : Sound allocator.vmm) (call : Call) :
    Sound (step allocator call).vmm := by
  cases call with
  | frameAlloc => exact hsound.frameAlloc
  | frameFree physAddr => exact hsound.frameFree _
  | frameAllocContiguous count => exact hsound.frameAllocContiguous count
  | reservePhysRange physStart physEnd => exact hsound.reservePhysRange physStart physEnd
  | earlyAlloc size alignment => exact hsound.earlyAlloc size alignment

/-- The allocator after `frame_alloc_init` and some calls. -/
def afterCalls (state : State) (totalRamBytes kernelEnd earlyHeapPtr : UInt32)
    (calls : List Call) : Allocator :=
  calls.foldl step
    { vmm := frameAllocInit state totalRamBytes kernelEnd, earlyHeapPtr := earlyHeapPtr }

theorem sound_afterCalls (hstill : state.clockCount = 0) {totalRamBytes : UInt32}
    (hlarge : 256 < detectedFrames totalRamBytes) (kernelEnd earlyHeapPtr : UInt32)
    (calls : List Call) :
    Sound (afterCalls state totalRamBytes kernelEnd earlyHeapPtr calls).vmm :=
  List.foldlRecOn calls step (motive := fun allocator : Allocator ↦ Sound allocator.vmm)
    (sound_frameAllocInit hstill hlarge kernelEnd) fun _ hbefore call _ ↦ hbefore.step call

/-- With no page in the clock, the accounts of the allocator are right after a sequence of calls
exactly if no frame is free or one in a whole word of the bitmap is. -/
theorem accounted_iff (state : State) (hstill : state.clockCount = 0)
    (totalRamBytes kernelEnd earlyHeapPtr : UInt32) (hlarge : 256 < detectedFrames totalRamBytes)
    (calls : List Call) :
    Accounted (afterCalls state totalRamBytes kernelEnd earlyHeapPtr calls).vmm ↔
      Findable (afterCalls state totalRamBytes kernelEnd earlyHeapPtr calls).vmm :=
  accounted_iff_findable (sound_afterCalls hstill hlarge kernelEnd earlyHeapPtr calls)

/-- The static data before `vmm_init`. -/
def staticData : State :=
  { totalFrames := 0
    bitmap := fun _ ↦ false
    freeFrames := 0
    searchHint := 0
    memory := fun _ _ ↦ zeroEntry
    spaces := fun _ ↦ none
    swapBitmap := fun _ ↦ false
    swapFreeSlots := 0
    clock := fun _ ↦ noClockEntry
    clockHand := 0
    clockCount := 0
    swapIo := []
    held := [] }

/-- With 384 frames of memory, the accounts are right after a frame has been allocated, another one
has been given back and two in a row have been reserved. -/
theorem accounted_after_calls :
    Accounted (afterCalls staticData 0x180000 0x15E000 0x160000
      [.frameAlloc, .frameFree 0x150000, .reservePhysRange 0x161000 0x163000]).vmm := by
  refine (accounted_iff staticData rfl 0x180000 0x15E000 0x160000 (by decide) _).mpr fun _ ↦ ?_
  exact ⟨383, by decide +kernel, by decide +kernel⟩

/-- With 353 frames of memory and a kernel that takes all but the last of them, that one is free but
`frame_alloc` does not find it: it looks at eleven words of 32 frames. -/
theorem not_accounted : ¬Accounted (afterCalls staticData 0x161000 0x15E000 0x160000 []).vmm := by
  have hsound : Sound (afterCalls staticData 0x161000 0x15E000 0x160000 []).vmm :=
    sound_afterCalls rfl (by decide) 0x15E000 0x160000 []
  rw [accounted_iff_findable hsound]
  intro hfindable
  have hbusy (frame : ℕ) : frame < 352 →
      (afterCalls staticData 0x161000 0x15E000 0x160000 []).vmm.bitmap frame = true := by
    intro hframe
    have hlast : kernelEndFrame 0x15E000 = 351 := by decide
    have htotal : detectedFrames 0x161000 = 353 := by decide
    refine (frameAllocInit_bitmap ..).mpr (mem_initiallyBusy.mpr ?_)
    omega
  obtain ⟨frame, hframe, hclear⟩ := hfindable ⟨352, by decide +kernel, by decide +kernel⟩
  have htotal : (afterCalls staticData 0x161000 0x15E000 0x160000 []).vmm.totalFrames = 353 := by
    decide +kernel
  rw [htotal] at hframe
  rw [hbusy frame hframe] at hclear
  exact Bool.noConfusion hclear

end EynOS.Memory.FrameAccounting
