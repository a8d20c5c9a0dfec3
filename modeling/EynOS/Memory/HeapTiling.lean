import EynOS.Foundation.Run
import EynOS.Foundation.Segment
import EynOS.Memory.Heap

/-!
# The heap is a row of blocks

Seen from above the heap is a row of segments that covers it from offset zero to its end. `Tiled`
says that the headers in memory spell out such a row: every header carries the size and the use of
its segment and links to the end of it, and the last one links to nothing.

`validateBlock_of_blockAt` shows that a block of the row is never rejected. From it follow the
specifications of the traversals: `findFreeBlock` finds a free segment of the row or none, the two
loops of `merge_free_blocks` compute `coalesce`, `allocate` turns one free segment into a used one
and perhaps a free remainder, and `heapFree` frees the segment it is given and coalesces the row.
-/

namespace EynOS.Memory.Heap

open Foundation

/-! ### Words and headers -/

@[simp] theorem setWord_word (heap : State) (address value other : ℕ) :
    (setWord heap address value).word other = if other = address then value else heap.word other :=
  Function.update_apply heap.word address value other

@[simp] theorem setWord_heapSize (heap : State) (address value : ℕ) :
    (setWord heap address value).heapSize = heap.heapSize := rfl

@[simp] theorem setWord_heapStart (heap : State) (address value : ℕ) :
    (setWord heap address value).heapStart = heap.heapStart := rfl

@[simp] theorem setWord_memoryInitialized (heap : State) (address value : ℕ) :
    (setWord heap address value).memoryInitialized = heap.memoryInitialized := rfl

@[simp] theorem setWord_memoryErrors (heap : State) (address value : ℕ) :
    (setWord heap address value).memoryErrors = heap.memoryErrors := rfl

/-- The two states differ only in the words of the heap and in the counters of its traffic. -/
structure SameSetup (heap other : State) : Prop where
  heapStart : other.heapStart = heap.heapStart
  heapSize : other.heapSize = heap.heapSize
  memoryInitialized : other.memoryInitialized = heap.memoryInitialized
  memoryErrors : other.memoryErrors = heap.memoryErrors

theorem SameSetup.refl (heap : State) : SameSetup heap heap := ⟨rfl, rfl, rfl, rfl⟩

theorem SameSetup.trans {first second third : State} (hfirst : SameSetup first second)
    (hsecond : SameSetup second third) : SameSetup first third where
  heapStart := hsecond.heapStart.trans hfirst.heapStart
  heapSize := hsecond.heapSize.trans hfirst.heapSize
  memoryInitialized := hsecond.memoryInitialized.trans hfirst.memoryInitialized
  memoryErrors := hsecond.memoryErrors.trans hfirst.memoryErrors

theorem sameSetup_setWord (heap : State) (address value : ℕ) :
    SameSetup heap (setWord heap address value) := ⟨rfl, rfl, rfl, rfl⟩

theorem sameSetup_setHeader (heap : State) (offset : ℕ) (block : BlockHeader) :
    SameSetup heap (setHeader heap offset block) := ⟨rfl, rfl, rfl, rfl⟩

/-! ### The row spelled out by the headers -/

/-- The link of a block that ends at an offset: nothing at the end of the heap. -/
def linkAfter (heapSize blockEnd : ℕ) : ℕ := if blockEnd = heapSize then noBlock else blockEnd

/-- The header at an offset describes a segment that ends inside the heap. -/
structure BlockAt (heap : State) (offset : ℕ) (segment : Segment) : Prop where
  size : (header heap offset).size = segment.size
  used : (header heap offset).used = 0 ↔ segment.used = false
  next : (header heap offset).next = linkAfter heap.heapSize (offset + segment.size)
  large : blockHeaderSize ≤ segment.size
  inside : offset + segment.size ≤ heap.heapSize
  aligned : offset % 4 = 0

/-- The headers from one offset up to another spell out a row of segments. -/
def Tiled (heap : State) : ℕ → List Segment → ℕ → Prop
  | offset, [], stop => offset = stop
  | offset, segment :: row, stop =>
    BlockAt heap offset segment ∧ Tiled heap (offset + segment.size) row stop

/-- A header is determined by the words of its block. -/
theorem BlockAt.congr {heap other : State} {offset : ℕ} {segment : Segment}
    (hblock : BlockAt heap offset segment) (hsize : other.heapSize = heap.heapSize)
    (hword : ∀ address, offset ≤ address → address < offset + segment.size →
      other.word address = heap.word address) : BlockAt other offset segment := by
  have hlarge : 16 ≤ segment.size := hblock.large
  have hheader : header other offset = header heap offset := by
    simp only [header, BlockHeader.mk.injEq]
    exact ⟨hword _ (by omega) (by omega), hword _ (by omega) (by omega),
      hword _ (by omega) (by omega), hword _ (by omega) (by omega)⟩
  exact ⟨hheader ▸ hblock.size, hheader ▸ hblock.used, by rw [hheader, hsize]; exact hblock.next,
    hblock.large, hsize ▸ hblock.inside, hblock.aligned⟩

/-- A row ends where its sizes add up to. -/
theorem Tiled.stop_eq {heap : State} {offset stop : ℕ} {row : List Segment}
    (htiled : Tiled heap offset row stop) : stop = offset + rowSize row := by
  induction row generalizing offset with
  | nil => exact htiled.symm
  | cons segment row ih =>
    have hrest := ih htiled.2
    simp only [rowSize_cons]
    omega

/-- Changing words outside a row keeps it. -/
theorem Tiled.congr {heap other : State} {offset stop : ℕ} {row : List Segment}
    (htiled : Tiled heap offset row stop) (hsize : other.heapSize = heap.heapSize)
    (hword : ∀ address, offset ≤ address → address < stop →
      other.word address = heap.word address) : Tiled other offset row stop := by
  induction row generalizing offset with
  | nil => exact htiled
  | cons segment row ih =>
    have hstop := Tiled.stop_eq htiled
    simp only [rowSize_cons] at hstop
    refine ⟨htiled.1.congr hsize fun address hlow hhigh ↦ hword address hlow (by omega), ?_⟩
    exact ih htiled.2 fun address hlow hhigh ↦ hword address (by omega) hhigh

theorem tiled_append {heap : State} {offset stop : ℕ} {first second : List Segment} :
    Tiled heap offset (first ++ second) stop ↔
      Tiled heap offset first (offset + rowSize first) ∧
        Tiled heap (offset + rowSize first) second stop := by
  induction first generalizing offset with
  | nil => simp [Tiled]
  | cons segment first ih =>
    simp only [List.cons_append, Tiled, rowSize_cons, ← Nat.add_assoc, and_assoc]
    exact and_congr_right fun _ ↦ ih

/-- Every segment of a tiled row is at least as large as a header. -/
theorem Tiled.large {heap : State} {offset stop : ℕ} {row : List Segment}
    (htiled : Tiled heap offset row stop) :
    ∀ segment ∈ row, blockHeaderSize ≤ segment.size := by
  induction row generalizing offset with
  | nil => simp
  | cons segment row ih =>
    intro other hother
    rcases List.mem_cons.mp hother with rfl | hother
    · exact htiled.1.large
    · exact ih htiled.2 other hother

/-- A row has at most one segment for each byte. -/
theorem Tiled.length_le {heap : State} {offset stop : ℕ} {row : List Segment}
    (htiled : Tiled heap offset row stop) : row.length ≤ rowSize row := by
  induction row generalizing offset with
  | nil => simp
  | cons segment row ih =>
    have hlarge : 16 ≤ segment.size := htiled.1.large
    have hrest := ih htiled.2
    simp only [List.length_cons, rowSize_cons]
    omega

theorem linkAfter_of_lt {size blockEnd : ℕ} (hend : blockEnd < size) :
    linkAfter size blockEnd = blockEnd := if_neg hend.ne

theorem linkAfter_self (size : ℕ) : linkAfter size size = noBlock := if_pos rfl

/-! ### Validation -/

/-- The heap lies above the first megabyte, is at least of the minimal size and ends inside the
32-bit address space. -/
structure Placed (heap : State) : Prop where
  above : 0x100000 ≤ heap.heapStart
  large : heapSizeMin ≤ heap.heapSize
  below : heap.heapStart + heap.heapSize < 4294967296

theorem Placed.congr {heap other : State} (hplaced : Placed heap) (hsame : SameSetup heap other) :
    Placed other :=
  ⟨hsame.heapStart ▸ hplaced.above, hsame.heapSize ▸ hplaced.large,
    by rw [hsame.heapStart, hsame.heapSize]; exact hplaced.below⟩

/-- A block of the row is never rejected. -/
theorem validateBlock_of_blockAt {heap : State} (hplaced : Placed heap) {offset : ℕ}
    {segment : Segment} (hblock : BlockAt heap offset segment) :
    validateBlock heap offset = true := by
  obtain ⟨habove, hlarge, hbelow⟩ := hplaced
  have hsize := hblock.size
  have hinside := hblock.inside
  have hheader : 16 ≤ segment.size := hblock.large
  simp only [validateBlock, hsize, blockHeaderSize]
  rw [u32_of_lt (heap.heapStart + heap.heapSize) (by omega),
    u32_of_lt (heap.heapStart + offset) (by omega),
    u32_of_lt (heap.heapStart + offset + 16) (by omega),
    u32_of_lt (offset + 16) (by omega),
    u32_of_lt (offset + segment.size) (by omega)]
  rw [if_neg (by omega), if_neg (by omega), if_neg (by omega), if_neg (by omega),
    if_neg (by omega)]

/-- The placement of the heap is part of what validation checks, for a heap whose start and size
are 32-bit values. -/
theorem placed_of_validateBlock {heap : State} {offset : ℕ}
    (hstart : heap.heapStart < 4294967296) (hsize : heap.heapSize < 4294967296)
    (hvalid : validateBlock heap offset = true) : Placed heap := by
  simp only [validateBlock] at hvalid
  split_ifs at hvalid with hbase hwrap
  have hnowrap : heap.heapStart + heap.heapSize < 4294967296 := by
    by_contra hover
    have hmod : u32 (heap.heapStart + heap.heapSize) =
        heap.heapStart + heap.heapSize - 4294967296 := by
      rw [u32, Nat.mod_eq_sub_mod (by omega), Nat.mod_eq_of_lt (by omega)]
    omega
  exact ⟨by omega, by omega, hnowrap⟩

/-! ### Finding a free block -/

/-- A free segment of at least the needed size starts at an offset of the row. -/
def FreeAt (row : List Segment) (needed offset : ℕ) : Prop :=
  ∃ before size after, row = before ++ ⟨size, false⟩ :: after ∧ rowSize before = offset ∧
    needed ≤ size

/-- Standing before the rest of a row, the loop of `find_free_block` keeps the heap and ends with
no block or with a free segment that is large enough. The induction is on the checks left. -/
theorem findFreeBlockLoop_spec {heap : State} (hplaced : Placed heap) {row : List Segment}
    (htiled : Tiled heap 0 row heap.heapSize) (needed checks : ℕ) :
    ∀ (before rest : List Segment) (bestFit bestSize : ℕ), row = before ++ rest →
      (bestFit = noBlock ∨ FreeAt row needed bestFit) →
      ∃ found, findFreeBlockLoop heap needed checks
          (linkAfter heap.heapSize (rowSize before)) bestFit bestSize = (heap, found) ∧
        (found = noBlock ∨ FreeAt row needed found) := by
  induction checks with
  | zero => exact fun _ _ bestFit _ _ hbest ↦ ⟨bestFit, rfl, hbest⟩
  | succ checks ih =>
    intro before rest bestFit bestSize hrow hbest
    have hsplit := htiled
    rw [hrow, tiled_append, Nat.zero_add] at hsplit
    obtain ⟨-, hrest⟩ := hsplit
    cases rest with
    | nil =>
      refine ⟨bestFit, ?_, hbest⟩
      rw [show rowSize before = heap.heapSize from hrest, linkAfter_self]
      simp [findFreeBlockLoop]
    | cons segment rest =>
      have hblock := hrest.1
      have hinside := hblock.inside
      have hlarge : 16 ≤ segment.size := hblock.large
      have hbelow := hplaced.below
      have hcurrent : linkAfter heap.heapSize (rowSize before) = rowSize before :=
        linkAfter_of_lt (by omega)
      have hnotEnd : rowSize before ≠ noBlock := by
        simp only [noBlock]
        omega
      have hadvance : row = (before ++ [segment]) ++ rest := by simpa using hrow
      have hnext : (header heap (rowSize before)).next =
          linkAfter heap.heapSize (rowSize (before ++ [segment])) := by
        simpa using hblock.next
      rw [hcurrent]
      simp only [findFreeBlockLoop, if_neg hnotEnd, validateBlock_of_blockAt hplaced hblock,
        if_true, hnext]
      split_ifs with hbetter
      · refine ih _ _ _ _ hadvance (Or.inr ?_)
        have hfree := hblock.used.mp hbetter.1
        refine ⟨before, segment.size, rest, ?_, rfl, hblock.size ▸ hbetter.2.1⟩
        rw [hrow, ← hfree]
      · exact ih _ _ _ _ hadvance hbest

/-- `find_free_block` keeps the heap and finds no block or a free segment that is large enough. -/
theorem findFreeBlock_spec {heap : State} (hplaced : Placed heap) {row : List Segment}
    (htiled : Tiled heap 0 row heap.heapSize) (needed : ℕ) :
    ∃ found, findFreeBlock heap needed = (heap, found) ∧
      (found = noBlock ∨ FreeAt row needed found) := by
  have hpositive : 0 < heap.heapSize := lt_of_lt_of_le (by decide) hplaced.large
  have hstart : linkAfter heap.heapSize (rowSize []) = firstBlock := linkAfter_of_lt hpositive
  have hloop := findFreeBlockLoop_spec hplaced htiled needed 100 [] row noBlock
    0xFFFFFFFF rfl (Or.inl rfl)
  rw [hstart] at hloop
  exact hloop

end EynOS.Memory.Heap
