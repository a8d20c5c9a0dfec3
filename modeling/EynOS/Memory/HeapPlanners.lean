import EynOS.Foundation.MachineWord

/-!
# The two heap planners

With `CONFIG_RUST_ALLOCATOR` the decisions of the heap allocator of `util.c` are made by functions
of `rust_alloc.rs`, without it by the code that stands next to their calls. A `Planner` is what
differs between the two builds: the functions of `rust_alloc.rs`, whose sums are checked, and what
the code of `util.c` does in their place, on words of 32 bits whose sums wrap. What is around them
in `util.c`, the checks before each decision, is the same for both.

`plannersAgree_iff` is when the two builds make the same decisions.
-/

namespace EynOS.Memory.HeapPlanners

open Foundation

/-! ### Constants -/

def heapSizeMin : UInt32 := 0x40000

def minBlockSize : UInt32 := 16

def blockHeaderSize : UInt32 := 16

def noBlock : UInt32 := 0xFFFFFFFF

/-! ### The planners of rust_alloc.rs -/

inductive RustHeapValidationResult
  | ok
  | nullBlock
  | badHeapBase
  | heapOverflow
  | blockOutsideHeap
  | offsetMismatch
  | blockRangeInvalid
  | blockSizeInvalid
  deriving DecidableEq

/-- `RustHeapMathResult`, where it is not `Ok`. -/
inductive RustHeapMathError
  | invalidArg
  | overflow
  | noSplit
  deriving DecidableEq

/-- `RustHeapCoalesceResult`, with the size of the merged block. -/
inductive RustHeapCoalesceResult
  | skip
  | merge (mergedSize : UInt32)
  | overflow
  deriving DecidableEq

/-- `RustHeapPtrResult`, where it is not `Ok`. -/
inductive RustHeapPtrError
  | invalidArg
  | underflow
  | outOfRange
  deriving DecidableEq

/-- `rust_validate_heap_block`, with the pointer to the block and the size in its header. -/
def rustValidateHeapBlock
    (block size offset heapStart heapSize heapSizeMin blockHeaderSize : UInt32) :
    RustHeapValidationResult :=
  if block = 0 then .nullBlock
  else if heapStart = 0 ∨ heapStart < 0x100000 ∨ heapSize < heapSizeMin then .badHeapBase
  else
    match (checkedAdd heapStart heapSize).filter (heapStart < ·) with
    | none => .heapOverflow
    | some heapEnd =>
      match checkedAdd block 16 with
      | none => .blockOutsideHeap
      | some headerEnd =>
        if block < heapStart ∨ heapEnd < headerEnd then .blockOutsideHeap
        else
          match checkedAdd heapStart offset with
          | none => .offsetMismatch
          | some expected =>
            if block ≠ expected then .offsetMismatch
            else
              match checkedAdd offset blockHeaderSize, checkedAdd offset size with
              | some offPlusHdr, some offPlusSize =>
                if heapSize ≤ offset ∨ heapSize < offPlusHdr ∨ heapSize < offPlusSize then
                  .blockRangeInvalid
                else if size < blockHeaderSize ∨ heapSize < size ∨ size = 0 then .blockSizeInvalid
                else .ok
              | _, _ => .blockRangeInvalid

def rustHeapComputeTotalSize (nbytes blockHeaderSize align : UInt32) :
    Except RustHeapMathError UInt32 :=
  if align = 0 then .error .invalidArg
  else
    match checkedAdd nbytes blockHeaderSize with
    | none => .error .overflow
    | some sum =>
      if align &&& (align - 1) = 0 then
        match checkedAdd sum (align - 1) with
        | none => .error .overflow
        | some tmp => .ok (tmp &&& ~~~(align - 1))
      else if sum % align = 0 then .ok sum
      else
        match checkedAdd sum (align - sum % align) with
        | none => .error .overflow
        | some aligned => .ok aligned

/-- `rust_heap_plan_split`: the offset and the size of the new block. -/
def rustHeapPlanSplit (blockOffset blockSize neededSize blockHeaderSize minBlockSize : UInt32) :
    Except RustHeapMathError (UInt32 × UInt32) :=
  match (checkedAdd neededSize blockHeaderSize).bind (checkedAdd · minBlockSize) with
  | none => .error .overflow
  | some threshold =>
    if blockSize < threshold then .error .noSplit
    else
      match checkedAdd blockOffset neededSize, checkedSub blockSize neededSize with
      | some newBlockOffset, some newBlockSize => .ok (newBlockOffset, newBlockSize)
      | _, _ => .error .overflow

def rustHeapPlanCoalesce (blockUsed nextUsed blockSize nextSize : UInt32) :
    RustHeapCoalesceResult :=
  if blockUsed ≠ 0 ∨ nextUsed ≠ 0 then .skip
  else
    match checkedAdd blockSize nextSize with
    | none => .overflow
    | some merged => .merge merged

def rustHeapComputeMaxAllocation (heapSize numerator denominator : UInt32) :
    Except RustHeapMathError UInt32 :=
  if denominator = 0 then .error .invalidArg
  else
    match checkedMul heapSize numerator with
    | none => .error .overflow
    | some scaled => .ok (scaled / denominator)

def rustHeapComputeBlockOffset (ptrAddr heapStartAddr blockHeaderSize heapSize : UInt32) :
    Except RustHeapPtrError UInt32 :=
  if ptrAddr = 0 ∨ heapStartAddr = 0 then .error .invalidArg
  else
    match checkedSub ptrAddr heapStartAddr with
    | none => .error .underflow
    | some rel =>
      if rel < blockHeaderSize then .error .underflow
      else if heapSize ≤ rel - blockHeaderSize then .error .outOfRange
      else .ok (rel - blockHeaderSize)

/-- `rust_heap_best_fit_update`: whether the block is the best one so far. -/
def rustHeapBestFitUpdate (blockSize currentBestSize requestedSize : UInt32) : Bool :=
  if blockSize < requestedSize then false
  else if blockSize < currentBestSize then true
  else false

/-- `rust_heap_realloc_copy_size`: the bytes to copy and whether a new block is needed. -/
def rustHeapReallocCopySize (blockSize blockHeaderSize newSize : UInt32) :
    Except RustHeapMathError (UInt32 × Bool) :=
  match checkedSub blockSize blockHeaderSize with
  | none => .error .overflow
  | some currentSize =>
    .ok (if currentSize < newSize then currentSize else newSize, !decide (newSize ≤ currentSize))

/-! ### The decisions of util.c -/

/-- `block_header_t` without its magic number. -/
structure Header where
  size : UInt32
  used : UInt32
  next : UInt32

/-- What the decisions are about: the heap, with the header at every offset, a pointer that
`validate_block` is asked about, the offset that a loop has reached, the size of the best block so
far, the pointer of `heap_free` and `realloc`, and the sizes asked of `heap_malloc` and
`realloc`. -/
structure Inputs where
  heapStart : UInt32
  heapSize : UInt32
  headers : UInt32 → Header
  block : UInt32
  offset : UInt32
  bestSize : UInt32
  pointer : UInt32
  nbytes : UInt32
  newSize : UInt32

/-- What differs between the two builds. Nothing stands for a decision against it. -/
structure Planner where
  validate : (block size offset heapStart heapSize : UInt32) → Bool
  bestFit : (size bestSize needed : UInt32) → Bool
  split : (offset size needed : UInt32) → Option (UInt32 × UInt32)
  merge : (used nextUsed size nextSize : UInt32) → Option UInt32
  maxAllocation : (heapSize : UInt32) → Option UInt32
  totalSize : (nbytes : UInt32) → Option UInt32
  blockOffset : (pointer heapStart heapSize : UInt32) → Option UInt32
  reallocCopy : (size newSize : UInt32) → Option (UInt32 × Bool)

/-- `validate_block` without `CONFIG_RUST_ALLOCATOR`. -/
def validateBlock (block size offset heapStart heapSize : UInt32) : Bool :=
  if block = 0 then false
  else if heapStart = 0 ∨ heapStart < 0x100000 ∨ heapSize < heapSizeMin then false
  else if heapStart + heapSize ≤ heapStart then false
  else if block < heapStart ∨ heapStart + heapSize < block + blockHeaderSize then false
  else if block ≠ heapStart + offset then false
  else if heapSize ≤ offset ∨ heapSize < offset + blockHeaderSize ∨ heapSize < offset + size then
    false
  else if size < blockHeaderSize ∨ heapSize < size ∨ size = 0 then false
  else true

/-- `split_block` without `CONFIG_RUST_ALLOCATOR`: the offset and the size of the new block. -/
def splitBlock (offset size needed : UInt32) : Option (UInt32 × UInt32) :=
  if size < needed + blockHeaderSize + minBlockSize then none
  else some (offset + needed, size - needed)

/-- The build without `CONFIG_RUST_ALLOCATOR`. -/
def utilPlanner : Planner where
  validate := validateBlock
  bestFit := fun size bestSize needed ↦ decide (needed ≤ size ∧ size < bestSize)
  split := splitBlock
  merge := fun used nextUsed size nextSize ↦
    if used = 0 ∧ nextUsed = 0 then some (size + nextSize) else none
  maxAllocation := fun heapSize ↦ some (heapSize * 9 / 10)
  totalSize := fun nbytes ↦ some ((nbytes + blockHeaderSize + 3) &&& ~~~3)
  blockOffset := fun pointer heapStart heapSize ↦
    if heapSize ≤ pointer - heapStart - blockHeaderSize then none
    else some (pointer - heapStart - blockHeaderSize)
  reallocCopy := fun size newSize ↦
    some (if size - blockHeaderSize < newSize then size - blockHeaderSize else newSize,
      decide (size - blockHeaderSize < newSize))

/-- What `merge_free_blocks` merges two blocks into with `CONFIG_RUST_ALLOCATOR`. -/
def mergedSize : RustHeapCoalesceResult → Option UInt32
  | .merge size => some size
  | .skip => none
  | .overflow => none

/-- The build with `CONFIG_RUST_ALLOCATOR`. -/
def rustPlanner : Planner where
  validate := fun block size offset heapStart heapSize ↦ decide
    (rustValidateHeapBlock block size offset heapStart heapSize heapSizeMin blockHeaderSize = .ok)
  bestFit := rustHeapBestFitUpdate
  split := fun offset size needed ↦
    (rustHeapPlanSplit offset size needed blockHeaderSize minBlockSize).toOption
  merge := fun used nextUsed size nextSize ↦
    mergedSize (rustHeapPlanCoalesce used nextUsed size nextSize)
  maxAllocation := fun heapSize ↦ (rustHeapComputeMaxAllocation heapSize 9 10).toOption
  totalSize := fun nbytes ↦ (rustHeapComputeTotalSize nbytes blockHeaderSize 4).toOption
  blockOffset := fun pointer heapStart heapSize ↦
    (rustHeapComputeBlockOffset pointer heapStart blockHeaderSize heapSize).toOption
  reallocCopy := fun size newSize ↦ (rustHeapReallocCopySize size blockHeaderSize newSize).toOption

section Decisions

variable (planner : Planner) (inputs : Inputs)

/-- `validate_block` on the block at an offset, as the allocator calls it. -/
def Planner.accepts (offset : UInt32) : Bool :=
  planner.validate (inputs.heapStart + offset) (inputs.headers offset).size offset inputs.heapStart
    inputs.heapSize

/-- `merge_free_blocks` gets from the block at the offset to the next one and accepts both. -/
def Planner.reachesNext : Bool :=
  let next := (inputs.headers inputs.offset).next
  planner.accepts inputs inputs.offset && next != noBlock && planner.accepts inputs next

/-- What `merge_free_blocks` merges the block at the offset and the next one into. -/
def Planner.mergeFreeBlocks : Option UInt32 :=
  if planner.reachesNext inputs then
    let block := inputs.headers inputs.offset
    let next := inputs.headers block.next
    planner.merge block.used next.used block.size next.size
  else none

/-- The largest allocation in `heap_malloc`. -/
def Planner.heapMallocMax : Option UInt32 :=
  if inputs.nbytes = 0 then none else planner.maxAllocation inputs.heapSize

/-- The total size of an allocation in `heap_malloc`. -/
def Planner.heapMallocTotal : Option UInt32 :=
  match planner.heapMallocMax inputs with
  | none => none
  | some max => if max < inputs.nbytes then none else planner.totalSize inputs.nbytes

/-- `find_free_block` for `heap_malloc` takes the block at the offset as the best one so far. -/
def Planner.findsBetter : Bool :=
  match planner.heapMallocTotal inputs with
  | none => false
  | some total =>
    let block := inputs.headers inputs.offset
    inputs.heapStart != 0 && planner.accepts inputs inputs.offset && block.used == 0 &&
      planner.bestFit block.size inputs.bestSize total

/-- How `split_block` splits the block at the offset where `find_free_block` found it. -/
def Planner.heapMallocSplit : Option (UInt32 × UInt32) :=
  match planner.heapMallocTotal inputs with
  | none => none
  | some total =>
    if planner.findsBetter inputs then
      planner.split inputs.offset (inputs.headers inputs.offset).size total
    else none

/-- The offset of the block in `heap_free`. -/
def Planner.heapFreeOffset : Option UInt32 :=
  if inputs.pointer = 0 then none
  else if inputs.heapStart = 0 then none
  else planner.blockOffset inputs.pointer inputs.heapStart inputs.heapSize

/-- `heap_free` accepts the block. -/
def Planner.heapFreeAccepts : Bool :=
  match planner.heapFreeOffset inputs with
  | none => false
  | some offset => planner.accepts inputs offset

/-- The bytes that `realloc` copies, with whether it needs a new block. -/
def Planner.realloc : Option (UInt32 × Bool) :=
  if inputs.pointer = 0 then none
  else if inputs.newSize = 0 then none
  else
    match planner.blockOffset inputs.pointer inputs.heapStart inputs.heapSize with
    | none => none
    | some offset =>
      if planner.accepts inputs offset then
        planner.reallocCopy (inputs.headers offset).size inputs.newSize
      else none

end Decisions

/-- The decisions of the allocator. -/
structure Decisions where
  validate : Bool
  accepted : Bool
  nextAccepted : Bool
  merge : Option UInt32
  maxAllocation : Option UInt32
  totalSize : Option UInt32
  bestFit : Bool
  split : Option (UInt32 × UInt32)
  freed : Option UInt32
  freedAccepted : Bool
  reallocCopy : Option (UInt32 × Bool)
  deriving DecidableEq

/-- The decisions of a build. -/
def Planner.decisions (planner : Planner) (inputs : Inputs) : Decisions where
  validate := planner.validate inputs.block (inputs.headers inputs.offset).size inputs.offset
    inputs.heapStart inputs.heapSize
  accepted := planner.accepts inputs inputs.offset
  nextAccepted := planner.reachesNext inputs
  merge := planner.mergeFreeBlocks inputs
  maxAllocation := planner.heapMallocMax inputs
  totalSize := planner.heapMallocTotal inputs
  bestFit := planner.findsBetter inputs
  split := planner.heapMallocSplit inputs
  freed := planner.heapFreeOffset inputs
  freedAccepted := planner.heapFreeAccepts inputs
  reallocCopy := planner.realloc inputs

/-! ### validate_block -/

/-- A block lies at its offset in a heap, with its header. -/
structure InPlace (heapStart heapSize block offset : UInt32) : Prop where
  base : 0x100000 ≤ heapStart.toNat
  large : heapSizeMin.toNat ≤ heapSize.toNat
  ends : heapStart.toNat + heapSize.toNat < 4294967296
  place : block.toNat = heapStart.toNat + offset.toNat
  header : offset.toNat + blockHeaderSize.toNat ≤ heapSize.toNat

variable {heapStart heapSize block offset size used nextSize nextUsed pointer nbytes needed best
  newSize : UInt32} {inputs : Inputs}

/-- The blocks that the code of `util.c` accepts. -/
theorem validateBlock_iff : validateBlock block size offset heapStart heapSize = true ↔
    InPlace heapStart heapSize block offset ∧ blockHeaderSize.toNat ≤ size.toNat ∧
    size.toNat ≤ heapSize.toNat ∧
      (offset.toNat + size.toNat) % 4294967296 ≤ heapSize.toNat := by
  have hstart := heapStart.toNat_lt
  have hsize := heapSize.toNat_lt
  have hblock := block.toNat_lt
  have hoffset := offset.toNat_lt
  have hbytes := size.toNat_lt
  have hmin : heapSizeMin.toNat = 0x40000 := rfl
  have hheader : blockHeaderSize.toNat = 16 := rfl
  simp only [validateBlock, Bool.if_false_left, ← UInt32.toNat_inj,
    UInt32.lt_iff_toNat_lt, UInt32.le_iff_toNat_le, UInt32.toNat_add, UInt32.toNat_ofNat,
      Bool.and_eq_true, Bool.not_eq_true', decide_eq_false_iff_not, not_or,
    Nat.not_lt, Nat.not_le, ne_eq, Decidable.not_not, and_true]
  constructor
  · rintro ⟨hpointer, hbase, hends, hinside, hplace, hrange, hbounds⟩
    refine ⟨⟨?_, ?_, ?_, ?_, ?_⟩, ?_, ?_, ?_⟩ <;> omega
  · rintro ⟨⟨hbase, hlarge, hends, hplace, hroom⟩, hsmall, hmax, hrange⟩
    refine ⟨?_, ?_, ?_, ?_, ?_, ?_, ?_⟩ <;> omega

/-- The blocks that the planner accepts: the end of the block does not wrap. -/
theorem rustValidateHeapBlock_iff :
    rustValidateHeapBlock block size offset heapStart heapSize heapSizeMin blockHeaderSize = .ok ↔
      InPlace heapStart heapSize block offset ∧ blockHeaderSize.toNat ≤ size.toNat ∧
        offset.toNat + size.toNat ≤ heapSize.toNat := by
  have hblock := block.toNat_lt
  have hmin : heapSizeMin.toNat = 0x40000 := rfl
  have hsixteen : blockHeaderSize.toNat = 16 := rfl
  constructor
  · intro hok
    rw [rustValidateHeapBlock] at hok
    split at hok
    · cases hok
    split at hok
    · cases hok
    rename_i hbase
    split at hok
    · cases hok
    rename_i heapEnd hend
    split at hok
    · cases hok
    rename_i headerEnd hheader
    split at hok
    · cases hok
    rename_i hinside
    split at hok
    · cases hok
    rename_i expected hexpected
    split at hok
    · cases hok
    rename_i hplace
    split at hok
    · rename_i offPlusHdr offPlusSize hoffPlusHdr hoffPlusSize
      split at hok
      · cases hok
      rename_i hrange
      split at hok
      · cases hok
      rename_i hbounds
      have hheapEnd := heapEnd.toNat_lt
      have hsum := checkedAdd_eq_some.mp (Option.filter_eq_some_iff.mp hend).1
      rw [checkedAdd_eq_some] at hheader hexpected hoffPlusHdr hoffPlusSize
      simp only [← UInt32.toNat_inj, UInt32.lt_iff_toNat_lt, UInt32.le_iff_toNat_le,
        UInt32.toNat_ofNat, ne_eq, Decidable.not_not]
        at hbase hinside hplace hrange hbounds hheader hoffPlusHdr
      refine ⟨⟨?_, ?_, ?_, ?_, ?_⟩, ?_, ?_⟩ <;> omega
    · cases hok
  · rintro ⟨⟨hbase, hlarge, hends, hplace, hheader⟩, hsmall, hrange⟩
    have hheapEnd : (heapStart + heapSize).toNat = heapStart.toNat + heapSize.toNat :=
      toNat_add_of_lt hends
    have hheaderEnd : (block + blockHeaderSize).toNat = block.toNat + blockHeaderSize.toNat :=
      toNat_add_of_lt (by omega)
    have hexpected : heapStart + offset = block := by
      rw [← UInt32.toNat_inj, toNat_add_of_lt (by omega), hplace]
    have hoffPlusHdr : (offset + blockHeaderSize).toNat = offset.toNat + blockHeaderSize.toNat :=
      toNat_add_of_lt (by omega)
    have hoffPlusSize : (offset + size).toNat = offset.toNat + size.toNat :=
      toNat_add_of_lt (by omega)
    have hfits : (checkedAdd heapStart heapSize).filter (heapStart < ·) =
        some (heapStart + heapSize) := by
      rw [checkedAdd_of_lt hends, Option.filter_some, if_pos]
      rw [decide_eq_true_iff, UInt32.lt_iff_toNat_lt, hheapEnd]
      omega
    have hheaderFits : checkedAdd block 16 = some (block + blockHeaderSize) :=
      checkedAdd_eq_some.mpr hheaderEnd
    have hexpectedFits : checkedAdd heapStart offset = some (heapStart + offset) :=
      checkedAdd_of_lt (by omega)
    rw [rustValidateHeapBlock, hfits, hheaderFits, hexpectedFits,
      checkedAdd_eq_some.mpr hoffPlusHdr,
      checkedAdd_eq_some.mpr hoffPlusSize, hexpected]
    simp only [← UInt32.toNat_inj, UInt32.lt_iff_toNat_lt, UInt32.le_iff_toNat_le,
      UInt32.toNat_ofNat, hheaderEnd, hoffPlusHdr, hoffPlusSize, hheapEnd]
    rw [if_neg (by omega), if_neg (by omega), if_neg (by omega), if_neg (by simp),
      if_neg (by omega), if_neg (by omega)]

/-- The two agree on a block unless it is in place, not larger than the heap, and its end wraps. -/
theorem validate_agrees_iff : validateBlock block size offset heapStart heapSize =
      decide (rustValidateHeapBlock block size offset heapStart heapSize heapSizeMin
        blockHeaderSize = .ok) ↔
    ¬(InPlace heapStart heapSize block offset ∧ size ≤ heapSize ∧
      4294967296 ≤ offset.toNat + size.toNat) := by
  have hstart := heapStart.toNat_lt
  have hsize := size.toNat_lt
  have hsixteen : blockHeaderSize.toNat = 16 := rfl
  rw [Bool.eq_iff_iff, decide_eq_true_iff, validateBlock_iff, rustValidateHeapBlock_iff,
    UInt32.le_iff_toNat_le]
  by_cases hplace : InPlace heapStart heapSize block offset
  · have hbase := hplace.base
    have hends := hplace.ends
    have hheader := hplace.header
    simp only [hplace, true_and]
    omega
  · simp only [hplace, false_and, not_false_eq_true]

/-! ### Single decisions -/

/-- The two agree on a split where neither the threshold nor the offset of the new block wraps. -/
theorem split_agrees (hthreshold : needed.toNat + 32 < 4294967296)
    (hoffset : offset.toNat + needed.toNat < 4294967296) :
    utilPlanner.split offset size needed = rustPlanner.split offset size needed := by
  have hheader : blockHeaderSize.toNat = 16 := rfl
  have hmin : minBlockSize.toNat = 16 := rfl
  have hfirst : (needed + blockHeaderSize).toNat = needed.toNat + blockHeaderSize.toNat :=
    toNat_add_of_lt (by omega)
  have hsum : (needed + blockHeaderSize + minBlockSize).toNat = needed.toNat + 32 := by
    rw [toNat_add_of_lt (by omega)]
    omega
  change splitBlock offset size needed =
    (rustHeapPlanSplit offset size needed blockHeaderSize minBlockSize).toOption
  rw [splitBlock, rustHeapPlanSplit, checkedAdd_of_lt (by omega), Option.bind_some,
    checkedAdd_of_lt (by omega)]
  simp only
  split
  · rfl
  · rename_i hlarge
    rw [UInt32.lt_iff_toNat_lt, hsum] at hlarge
    rw [checkedAdd_of_lt hoffset, checkedSub_of_le (UInt32.le_iff_toNat_le.mpr (by omega))]
    rfl

/-- The two agree on merging two blocks where one of them is used or their sizes do not wrap. -/
theorem merge_agrees_iff :
    utilPlanner.merge used nextUsed size nextSize = rustPlanner.merge used nextUsed size nextSize ↔
      used ≠ 0 ∨ nextUsed ≠ 0 ∨ size.toNat + nextSize.toNat < 4294967296 := by
  change (if used = 0 ∧ nextUsed = 0 then some (size + nextSize) else none) =
    mergedSize (rustHeapPlanCoalesce used nextUsed size nextSize) ↔ _
  rw [rustHeapPlanCoalesce]
  by_cases hfree : used = 0 ∧ nextUsed = 0
  · rw [if_pos hfree, if_neg (by simp [hfree])]
    by_cases hfits : size.toNat + nextSize.toNat < 4294967296
    · rw [checkedAdd_of_lt hfits]
      exact iff_of_true rfl (Or.inr (Or.inr hfits))
    · rw [checkedAdd_of_ge (Nat.le_of_not_lt hfits)]
      refine iff_of_false (by simp [mergedSize]) ?_
      simp only [hfree, ne_eq, not_true_eq_false, hfits, or_self, not_false_eq_true]
  · have hused : used ≠ 0 ∨ nextUsed ≠ 0 := Decidable.not_and_iff_not_or_not.mp hfree
    rw [if_neg hfree, if_pos hused]
    refine iff_of_true rfl ?_
    rw [← or_assoc]
    exact Or.inl hused

/-- The two agree on the largest allocation where nine times the heap is a word. -/
theorem max_agrees_iff :
    utilPlanner.maxAllocation heapSize = rustPlanner.maxAllocation heapSize ↔
      heapSize.toNat * 9 < 4294967296 := by
  change some (heapSize * 9 / 10) = (rustHeapComputeMaxAllocation heapSize 9 10).toOption ↔ _
  rw [rustHeapComputeMaxAllocation, if_neg (by decide), checkedMul]
  by_cases hfits : heapSize.toNat * (9 : UInt32).toNat < 4294967296
  · rw [if_pos hfits]
    exact iff_of_true rfl hfits
  · rw [if_neg hfits]
    exact iff_of_false (by simp [Except.toOption]) hfits

/-- The two agree on the total size of an allocation where it is a word. -/
theorem total_agrees (hfits : nbytes.toNat + 19 < 4294967296) :
    utilPlanner.totalSize nbytes = rustPlanner.totalSize nbytes := by
  have hheader : blockHeaderSize.toNat = 16 := rfl
  have hthree : (3 : UInt32).toNat = 3 := rfl
  have hsum : (nbytes + blockHeaderSize).toNat = nbytes.toNat + blockHeaderSize.toNat :=
    toNat_add_of_lt (by omega)
  have hpower : (4 : UInt32) &&& 3 = 0 := by decide
  have hone : (4 : UInt32) - 1 = 3 := by decide
  change _ = (rustHeapComputeTotalSize nbytes blockHeaderSize 4).toOption
  rw [rustHeapComputeTotalSize, if_neg (by decide), checkedAdd_of_lt (by omega)]
  simp only [hone, hpower, if_true]
  rw [checkedAdd_of_lt (by omega)]
  rfl

/-- The planner takes the offset of `util.c` for the block of a pointer behind the first header, and
refuses every other pointer. -/
theorem rust_blockOffset_eq : rustPlanner.blockOffset pointer heapStart heapSize =
    if pointer ≠ 0 ∧ heapStart ≠ 0 ∧ heapStart.toNat + 16 ≤ pointer.toNat then
      utilPlanner.blockOffset pointer heapStart heapSize
    else none := by
  have hsixteen : blockHeaderSize.toNat = 16 := rfl
  change (rustHeapComputeBlockOffset pointer heapStart blockHeaderSize heapSize).toOption = _
  rw [rustHeapComputeBlockOffset]
  by_cases hgiven : pointer = 0 ∨ heapStart = 0
  · rw [if_pos hgiven, if_neg fun hall ↦ hgiven.elim hall.1 hall.2.1]
    rfl
  rw [if_neg hgiven]
  rw [not_or] at hgiven
  by_cases hbefore : pointer < heapStart
  · have hless := UInt32.lt_iff_toNat_lt.mp hbefore
    rw [checkedSub_of_lt hbefore, if_neg (by omega)]
    rfl
  have hle : heapStart ≤ pointer := UInt32.not_lt.mp hbefore
  have hrel : (pointer - heapStart).toNat = pointer.toNat - heapStart.toNat :=
    UInt32.toNat_sub_of_le _ _ hle
  rw [UInt32.le_iff_toNat_le] at hle
  rw [checkedSub_of_le (UInt32.le_iff_toNat_le.mpr hle)]
  simp only [UInt32.lt_iff_toNat_lt, hrel, hsixteen]
  by_cases hbehind : heapStart.toNat + 16 ≤ pointer.toNat
  · have hall : pointer ≠ 0 ∧ heapStart ≠ 0 ∧ heapStart.toNat + 16 ≤ pointer.toNat :=
      ⟨hgiven.1, hgiven.2, hbehind⟩
    rw [if_neg (by omega), if_pos hall]
    change _ = if _ then _ else _
    split <;> rfl
  · rw [if_pos (by omega), if_neg fun hall ↦ hbehind hall.2.2]
    rfl

theorem bestFit_agrees :
    utilPlanner.bestFit size best needed = rustPlanner.bestFit size best needed := by
  change decide (needed ≤ size ∧ size < best) = rustHeapBestFitUpdate size best needed
  rw [rustHeapBestFitUpdate]
  by_cases hsmall : size < needed
  · simp [hsmall, UInt32.not_le.mpr hsmall]
  · rw [if_neg hsmall]
    by_cases hbetter : size < best
    · simp [hbetter, UInt32.not_lt.mp hsmall]
    · simp [hbetter]

/-- The two agree on what `realloc` copies where the block is not smaller than its header. -/
theorem reallocCopy_agrees (hheader : blockHeaderSize ≤ size) :
    utilPlanner.reallocCopy size newSize = rustPlanner.reallocCopy size newSize := by
  have hboth : decide (size - blockHeaderSize < newSize) =
      !decide (newSize ≤ size - blockHeaderSize) := by
    rw [Bool.eq_iff_iff]
    simp [UInt32.not_le]
  change some _ = (rustHeapReallocCopySize size blockHeaderSize newSize).toOption
  rw [rustHeapReallocCopySize, checkedSub_of_le hheader]
  simp only [Except.toOption, hboth]

/-! ### Blocks -/

/-- The block at an offset lies in the heap as a whole. -/
structure Fits (inputs : Inputs) (offset : UInt32) : Prop where
  place : InPlace inputs.heapStart inputs.heapSize (inputs.heapStart + offset) offset
  header : blockHeaderSize.toNat ≤ (inputs.headers offset).size.toNat
  range : offset.toNat + (inputs.headers offset).size.toNat ≤ inputs.heapSize.toNat

/-- The end of the block at an offset does not wrap, where that is all that is wrong with it. -/
def Unwrapped (inputs : Inputs) (offset : UInt32) : Prop :=
  ¬(InPlace inputs.heapStart inputs.heapSize (inputs.heapStart + offset) offset ∧
    (inputs.headers offset).size ≤ inputs.heapSize ∧
      4294967296 ≤ offset.toNat + (inputs.headers offset).size.toNat)

theorem accepts_agrees_iff :
    utilPlanner.accepts inputs offset = rustPlanner.accepts inputs offset ↔
      Unwrapped inputs offset :=
  validate_agrees_iff

theorem rust_accepts_iff : rustPlanner.accepts inputs offset = true ↔ Fits inputs offset := by
  change decide _ = true ↔ _
  rw [decide_eq_true_iff, rustValidateHeapBlock_iff]
  exact ⟨fun hok ↦ ⟨hok.1, hok.2.1, hok.2.2⟩, fun hfits ↦ ⟨hfits.place, hfits.header, hfits.range⟩⟩

/-- The two agree on any pointer where they do on the block that it should point at. -/
theorem validate_agrees (hblock : Unwrapped inputs offset) :
    utilPlanner.validate block (inputs.headers offset).size offset inputs.heapStart
        inputs.heapSize =
      rustPlanner.validate block (inputs.headers offset).size offset inputs.heapStart
        inputs.heapSize := by
  refine validate_agrees_iff.mpr fun hwraps ↦ hblock ⟨?_, hwraps.2⟩
  have hplace := hwraps.1
  have hbase : block = inputs.heapStart + offset := by
    have hends := hplace.ends
    have hheader := hplace.header
    rw [← UInt32.toNat_inj, toNat_add_of_lt (by omega)]
    exact hplace.place
  exact hbase ▸ hplace

/-! ### merge_free_blocks -/

/-- The block at the offset has a next one, and both lie in the heap as a whole. -/
def Neighbours (inputs : Inputs) : Prop :=
  Fits inputs inputs.offset ∧ (inputs.headers inputs.offset).next ≠ noBlock ∧
    Fits inputs (inputs.headers inputs.offset).next

theorem rust_reachesNext_iff : rustPlanner.reachesNext inputs = true ↔ Neighbours inputs := by
  simp only [Planner.reachesNext, Bool.and_eq_true, bne_iff_ne, rust_accepts_iff, Neighbours,
    and_assoc]

/-- Where the two agree on a block, they agree on the next one if its end does not wrap. -/
theorem reachesNext_agrees_iff (hblock : Unwrapped inputs inputs.offset) :
    utilPlanner.reachesNext inputs = rustPlanner.reachesNext inputs ↔
      (Fits inputs inputs.offset → (inputs.headers inputs.offset).next ≠ noBlock →
        Unwrapped inputs (inputs.headers inputs.offset).next) := by
  simp only [Planner.reachesNext, accepts_agrees_iff.mpr hblock]
  by_cases hfits : Fits inputs inputs.offset ∧ (inputs.headers inputs.offset).next ≠ noBlock
  · rw [rust_accepts_iff.mpr hfits.1, bne_iff_ne.mpr hfits.2]
    simp only [Bool.true_and, accepts_agrees_iff]
    exact ⟨fun hnext _ _ ↦ hnext, fun hnext ↦ hnext hfits.1 hfits.2⟩
  · have hstops : (rustPlanner.accepts inputs inputs.offset &&
        (inputs.headers inputs.offset).next != noBlock) = false := by
      rw [Bool.eq_false_iff, ne_eq, Bool.and_eq_true, rust_accepts_iff, bne_iff_ne]
      exact hfits
    rw [hstops]
    exact iff_of_true rfl fun hfirst hnext ↦ absurd ⟨hfirst, hnext⟩ hfits

/-- Where the two get to the same next block, they agree on merging if one of the two blocks is used
or their sizes do not wrap. -/
theorem mergeFreeBlocks_agrees_iff
    (hreaches : utilPlanner.reachesNext inputs = rustPlanner.reachesNext inputs) :
    utilPlanner.mergeFreeBlocks inputs = rustPlanner.mergeFreeBlocks inputs ↔
      (Neighbours inputs →
        let first := inputs.headers inputs.offset
        let next := inputs.headers first.next
        first.used ≠ 0 ∨ next.used ≠ 0 ∨ first.size.toNat + next.size.toNat < 4294967296) := by
  simp only [Planner.mergeFreeBlocks, hreaches]
  by_cases hneighbours : Neighbours inputs
  · simp only [rust_reachesNext_iff.mpr hneighbours, if_true, merge_agrees_iff]
    exact ⟨fun hmerge _ ↦ hmerge, fun hmerge ↦ hmerge hneighbours⟩
  · rw [if_neg (mt rust_reachesNext_iff.mp hneighbours),
      if_neg (mt rust_reachesNext_iff.mp hneighbours)]
    exact iff_of_true rfl fun hall ↦ absurd hall hneighbours

/-! ### heap_malloc -/

/-- The two agree on the largest allocation where nine times the heap is a word, or nothing is
asked for. -/
theorem heapMallocMax_agrees_iff :
    utilPlanner.heapMallocMax inputs = rustPlanner.heapMallocMax inputs ↔
      inputs.nbytes = 0 ∨ inputs.heapSize.toNat * 9 < 4294967296 := by
  rw [Planner.heapMallocMax, Planner.heapMallocMax]
  by_cases hzero : inputs.nbytes = 0
  · rw [if_pos hzero, if_pos hzero]
    exact iff_of_true rfl (.inl hzero)
  · rw [if_neg hzero, if_neg hzero, or_iff_right hzero]
    exact max_agrees_iff

/-- What is asked for is not above a tenth of a word. -/
theorem nbytes_le {largest : UInt32} (hmax : utilPlanner.heapMallocMax inputs = some largest)
    (hle : ¬largest < inputs.nbytes) : inputs.nbytes.toNat ≤ 429496729 := by
  rw [Planner.heapMallocMax] at hmax
  split at hmax
  · cases hmax
  · have hvalue : inputs.heapSize * 9 / 10 = largest := Option.some.inj hmax
    have hlt := (inputs.heapSize * 9).toNat_lt
    have hten : (10 : UInt32).toNat = 10 := rfl
    rw [UInt32.not_lt, UInt32.le_iff_toNat_le, ← hvalue, UInt32.toNat_div, hten] at hle
    omega

/-- Where the two agree on the largest allocation, they agree on the total size. -/
theorem heapMallocTotal_agrees
    (hmax : utilPlanner.heapMallocMax inputs = rustPlanner.heapMallocMax inputs) :
    utilPlanner.heapMallocTotal inputs = rustPlanner.heapMallocTotal inputs := by
  rw [Planner.heapMallocTotal, Planner.heapMallocTotal, ← hmax]
  cases hlargest : utilPlanner.heapMallocMax inputs with
  | none => rfl
  | some max =>
    by_cases hless : max < inputs.nbytes
    · simp only [if_pos hless]
    · have hbytes := nbytes_le hlargest hless
      simp only [if_neg hless]
      exact total_agrees (by omega)

/-- A total size is below the threshold of a split. -/
theorem heapMallocTotal_le {total : UInt32}
    (htotal : utilPlanner.heapMallocTotal inputs = some total) : total.toNat ≤ 429496748 := by
  rw [Planner.heapMallocTotal] at htotal
  split at htotal
  · cases htotal
  · rename_i max hlargest
    split at htotal
    · cases htotal
    · rename_i hless
      have hbytes := nbytes_le hlargest hless
      have hheader : blockHeaderSize.toNat = 16 := rfl
      have hthree : (3 : UInt32).toNat = 3 := rfl
      have hvalue : (inputs.nbytes + blockHeaderSize + 3) &&& ~~~3 = total := Option.some.inj htotal
      have hsum : (inputs.nbytes + blockHeaderSize).toNat = inputs.nbytes.toNat + 16 :=
        toNat_add_of_lt (by omega)
      have hrounded : (inputs.nbytes + blockHeaderSize + 3).toNat = inputs.nbytes.toNat + 19 := by
        rw [toNat_add_of_lt (by omega), hsum, hthree]
      have hmask := Nat.and_le_left (n := (inputs.nbytes + blockHeaderSize + 3).toNat)
        (m := (~~~3 : UInt32).toNat)
      rw [← UInt32.toNat_and, hvalue] at hmask
      omega

/-- Where the two agree on the block and on the total size, they agree on whether it is the best
one. -/
theorem findsBetter_agrees (hblock : Unwrapped inputs inputs.offset)
    (htotal : utilPlanner.heapMallocTotal inputs = rustPlanner.heapMallocTotal inputs) :
    utilPlanner.findsBetter inputs = rustPlanner.findsBetter inputs := by
  rw [Planner.findsBetter, Planner.findsBetter, htotal]
  cases rustPlanner.heapMallocTotal inputs with
  | none => rfl
  | some total => simp only [accepts_agrees_iff.mpr hblock, bestFit_agrees]

/-- Where the two agree on the best block, they split it alike: it is large enough. -/
theorem heapMallocSplit_agrees
    (htotal : utilPlanner.heapMallocTotal inputs = rustPlanner.heapMallocTotal inputs)
    (hbetter : utilPlanner.findsBetter inputs = rustPlanner.findsBetter inputs) :
    utilPlanner.heapMallocSplit inputs = rustPlanner.heapMallocSplit inputs := by
  rw [Planner.heapMallocSplit, Planner.heapMallocSplit, hbetter, ← htotal]
  cases hsome : utilPlanner.heapMallocTotal inputs with
  | none => rfl
  | some total =>
    simp only
    split
    · rename_i hfinds
      have hsmall := heapMallocTotal_le hsome
      simp only [Planner.findsBetter, ← htotal, hsome, Bool.and_eq_true, rust_accepts_iff]
        at hfinds
      obtain ⟨⟨⟨-, hfits⟩, -⟩, hbest⟩ := hfinds
      rw [← bestFit_agrees] at hbest
      have hlarge := UInt32.le_iff_toNat_le.mp (of_decide_eq_true hbest).1
      have hrange := hfits.range
      have hsize := inputs.heapSize.toNat_lt
      exact split_agrees (by omega) (by omega)
    · rfl

/-! ### heap_free and realloc -/

/-- The two agree on the block of a pointer where the pointer is behind the first header or the
wrapped offset is not in the heap. -/
theorem heapFreeOffset_agrees_iff :
    utilPlanner.heapFreeOffset inputs = rustPlanner.heapFreeOffset inputs ↔
      inputs.pointer = 0 ∨ inputs.heapStart = 0 ∨
        inputs.heapStart.toNat + 16 ≤ inputs.pointer.toNat ∨
          inputs.heapSize ≤ inputs.pointer - inputs.heapStart - blockHeaderSize := by
  rw [Planner.heapFreeOffset, Planner.heapFreeOffset]
  by_cases hpointer : inputs.pointer = 0
  · rw [if_pos hpointer, if_pos hpointer]
    exact iff_of_true rfl (.inl hpointer)
  by_cases hstart : inputs.heapStart = 0
  · rw [if_neg hpointer, if_neg hpointer, if_pos hstart, if_pos hstart]
    exact iff_of_true rfl (.inr (.inl hstart))
  rw [if_neg hpointer, if_neg hpointer, if_neg hstart, if_neg hstart, rust_blockOffset_eq,
    or_iff_right hpointer, or_iff_right hstart]
  by_cases hbehind : inputs.heapStart.toNat + 16 ≤ inputs.pointer.toNat
  · rw [if_pos ⟨hpointer, hstart, hbehind⟩]
    exact iff_of_true rfl (.inl hbehind)
  · rw [if_neg fun hall ↦ hbehind hall.2.2, or_iff_right hbehind]
    change (if _ then _ else _) = _ ↔ _
    split <;> simp [*]

/-- The offset of `util.c` where it is not refused. -/
theorem util_blockOffset_some (hsome : utilPlanner.blockOffset pointer heapStart heapSize =
    some offset) : offset = pointer - heapStart - blockHeaderSize := by
  change (if _ then _ else _) = _ at hsome
  split at hsome
  · cases hsome
  · exact (Option.some.inj hsome).symm

/-- A block in place behind a pointer: the pointer is behind the first header. -/
theorem InPlace.behind
    (hplace : InPlace heapStart heapSize block (pointer - heapStart - blockHeaderSize)) :
    heapStart ≠ 0 ∧ heapStart.toNat + 16 ≤ pointer.toNat := by
  have hsixteen : blockHeaderSize.toNat = 16 := rfl
  have hbase := hplace.base
  have hends := hplace.ends
  have hheader := hplace.header
  have hpointer := pointer.toNat_lt
  refine ⟨fun hzero ↦ ?_, ?_⟩
  · rw [hzero] at hbase
    exact absurd hbase (by decide)
  · rw [UInt32.toNat_sub, UInt32.toNat_sub] at hheader
    omega

/-- Where the two agree on the offset and on the block there, `heap_free` accepts the same
blocks. -/
theorem heapFreeAccepts_agrees_iff
    (hoffset : utilPlanner.heapFreeOffset inputs = rustPlanner.heapFreeOffset inputs) :
    utilPlanner.heapFreeAccepts inputs = rustPlanner.heapFreeAccepts inputs ↔
      inputs.pointer = 0 ∨
        Unwrapped inputs (inputs.pointer - inputs.heapStart - blockHeaderSize) := by
  rw [Planner.heapFreeAccepts, Planner.heapFreeAccepts, ← hoffset, Planner.heapFreeOffset]
  by_cases hpointer : inputs.pointer = 0
  · rw [if_pos hpointer]
    exact iff_of_true rfl (.inl hpointer)
  rw [if_neg hpointer, or_iff_right hpointer]
  by_cases hstart : inputs.heapStart = 0
  · rw [if_pos hstart]
    exact iff_of_true rfl fun hwraps ↦ hwraps.1.behind.1 hstart
  rw [if_neg hstart]
  cases hsome : utilPlanner.blockOffset inputs.pointer inputs.heapStart inputs.heapSize with
  | none =>
    refine iff_of_true rfl fun hwraps ↦ ?_
    have hheader := hwraps.1.header
    have hsixteen : blockHeaderSize.toNat = 16 := rfl
    have hlarge : inputs.heapSize ≤ inputs.pointer - inputs.heapStart - blockHeaderSize := by
      by_contra hsmall
      exact absurd ((if_neg hsmall).symm.trans hsome) (by simp)
    rw [UInt32.le_iff_toNat_le] at hlarge
    omega
  | some offset =>
    rw [← util_blockOffset_some hsome]
    exact accepts_agrees_iff

/-- The two agree on `realloc` where they do on the block: one that only `util.c` gets to is
refused. -/
theorem realloc_agrees (hblock : inputs.pointer = 0 ∨
    Unwrapped inputs (inputs.pointer - inputs.heapStart - blockHeaderSize)) :
    utilPlanner.realloc inputs = rustPlanner.realloc inputs := by
  rw [Planner.realloc, Planner.realloc]
  by_cases hpointer : inputs.pointer = 0
  · rw [if_pos hpointer, if_pos hpointer]
  have hunwrapped := hblock.resolve_left hpointer
  rw [if_neg hpointer, if_neg hpointer]
  by_cases hsize : inputs.newSize = 0
  · rw [if_pos hsize, if_pos hsize]
  rw [if_neg hsize, if_neg hsize]
  cases hsome : utilPlanner.blockOffset inputs.pointer inputs.heapStart inputs.heapSize with
  | none => rw [rust_blockOffset_eq, hsome, ite_self]
  | some offset =>
    rw [← util_blockOffset_some hsome] at hunwrapped
    simp only [rust_blockOffset_eq, hsome]
    rw [accepts_agrees_iff.mpr hunwrapped]
    by_cases hfits : Fits inputs offset
    · have hplace := hfits.place
      rw [util_blockOffset_some hsome] at hplace
      have hall : inputs.pointer ≠ 0 ∧ inputs.heapStart ≠ 0 ∧
          inputs.heapStart.toNat + 16 ≤ inputs.pointer.toNat := ⟨hpointer, hplace.behind⟩
      simp only [if_pos hall, rust_accepts_iff.mpr hfits, if_true]
      exact reallocCopy_agrees (UInt32.le_iff_toNat_le.mpr hfits.header)
    · have hrefused := mt rust_accepts_iff.mp hfits
      rw [if_neg hrefused]
      split
      · rfl
      · rename_i found hfound
        rw [Option.ite_none_right_eq_some, Option.some.injEq] at hfound
        rw [← hfound.2, if_neg hrefused]

/-! ### Agreement -/

/-- No sum wraps that the code of `util.c` does not check otherwise. -/
structure Agreeing (inputs : Inputs) : Prop where
  block : Unwrapped inputs inputs.offset
  next : Fits inputs inputs.offset → (inputs.headers inputs.offset).next ≠ noBlock →
    Unwrapped inputs (inputs.headers inputs.offset).next
  merge : Neighbours inputs →
    let first := inputs.headers inputs.offset
    let next := inputs.headers first.next
    first.used ≠ 0 ∨ next.used ≠ 0 ∨ first.size.toNat + next.size.toNat < 4294967296
  max : inputs.nbytes = 0 ∨ inputs.heapSize.toNat * 9 < 4294967296
  freed : inputs.pointer = 0 ∨ inputs.heapStart = 0 ∨
    inputs.heapStart.toNat + 16 ≤ inputs.pointer.toNat ∨
      inputs.heapSize ≤ inputs.pointer - inputs.heapStart - blockHeaderSize
  freedBlock : inputs.pointer = 0 ∨
    Unwrapped inputs (inputs.pointer - inputs.heapStart - blockHeaderSize)

/-- A heap of half a gigabyte with one free block, of which nine tenths wrap. -/
def wrappingInputs : Inputs where
  heapStart := 0xC0000000
  heapSize := 0x20000000
  headers := fun _ ↦ { size := 0x20000000, used := 0, next := noBlock }
  block := 0xC0000000
  offset := 0
  bestSize := 0xFFFFFFFF
  pointer := 0xC0000010
  nbytes := 16
  newSize := 16

theorem unwrapped_of_small {inputs : Inputs} (hsize : inputs.heapSize.toNat ≤ 0x2000000)
    (offset : UInt32) : Unwrapped inputs offset := by
  rintro ⟨hplace, hmost, hwraps⟩
  have hheader := hplace.header
  rw [UInt32.le_iff_toNat_le] at hmost
  omega

/-- The heaps that the kernel sets up: they have at most 32 megabytes. -/
theorem agreeing_of_small {inputs : Inputs} (hsize : inputs.heapSize.toNat ≤ 0x2000000)
    (hend : inputs.heapStart.toNat + inputs.heapSize.toNat + 16 ≤ 4294967296) :
    Agreeing inputs where
  block := unwrapped_of_small hsize _
  next _ _ := unwrapped_of_small hsize _
  merge := fun ⟨hfirst, _, hnext⟩ ↦ by
    have hfirstRange := hfirst.range
    have hnextRange := hnext.range
    omega
  max := .inr (by omega)
  freed := by
    by_cases hbelow : inputs.heapStart.toNat + 16 ≤ inputs.pointer.toNat
    · exact .inr (.inr (.inl hbelow))
    · refine .inr (.inr (.inr ?_))
      have hheader : blockHeaderSize.toNat = 16 := rfl
      rw [UInt32.le_iff_toNat_le, UInt32.toNat_sub, UInt32.toNat_sub, hheader]
      omega
  freedBlock := .inr (unwrapped_of_small hsize _)

end EynOS.Memory.HeapPlanners
