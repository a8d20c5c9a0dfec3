import EynOS.Memory.HeapTiling

/-!
# What allocating and freeing do to the row of blocks

`allocate_spec` and `heapFree_spec` are the specifications of the two operations of the heap over
the row of segments that its headers spell out. A successful allocation turns one free segment into
a used one that holds the request, leaving every other used segment where it is; freeing a used
segment removes it from the used segments, coalesces the row and always returns. Neither counts an
error.
-/

namespace EynOS.Memory.Heap

open Foundation

/-- Rewriting the words of a stretch of the row so that they spell out another stretch of the same
size leaves the segments before and after it in place. -/
theorem Tiled.replace {heap other : State} {before after : List Segment}
    (old middle : List Segment) (htiled : Tiled heap 0 (before ++ (old ++ after)) heap.heapSize)
    (hsize : other.heapSize = heap.heapSize)
    (hword : ∀ address, address < rowSize before ∨ rowSize before + rowSize old ≤ address →
      other.word address = heap.word address)
    (hmiddle : Tiled other (rowSize before) middle (rowSize before + rowSize old)) :
    Tiled other 0 (before ++ (middle ++ after)) other.heapSize := by
  rw [tiled_append, Nat.zero_add, tiled_append] at htiled ⊢
  obtain ⟨hbefore, -, hafter⟩ := htiled
  have hrowSize : rowSize middle = rowSize old := by
    have hstop := hmiddle.stop_eq
    omega
  rw [hrowSize, hsize]
  refine ⟨hbefore.congr hsize fun address _ hhigh ↦ hword address (Or.inl hhigh), hmiddle, ?_⟩
  exact hafter.congr hsize fun address hlow _ ↦ hword address (Or.inr hlow)

/-- The segment at a place of the row is described by the header there. -/
theorem Tiled.blockAt {heap : State} {before after : List Segment} {segment : Segment}
    (htiled : Tiled heap 0 (before ++ segment :: after) heap.heapSize) :
    BlockAt heap (rowSize before) segment := by
  rw [tiled_append, Nat.zero_add] at htiled
  exact htiled.2.1

/-! ### Allocating -/

/-- What an allocation at an offset of a row leaves: a row in which one used segment that holds the
request has appeared at that offset. -/
structure Allocated (heap other : State) (row newRow : List Segment) (nbytes offset : ℕ) :
    Prop where
  setup : SameSetup heap other
  tiled : Tiled other 0 newRow other.heapSize
  noFreePair : NoFreePair newRow
  blocks : ∃ left right blockSize, usedBlocks 0 row = left ++ right ∧
    usedBlocks 0 newRow = left ++ (offset, blockSize) :: right ∧
      nbytes + blockHeaderSize ≤ blockSize

/-- Marking a free segment used and cutting it down to a size it has room for. -/
theorem splitBlock_spec {heap : State} {before after : List Segment} {size : ℕ}
    (needed : ℕ) (hbelow : heap.heapSize < 4294967296)
    (htiled : Tiled heap 0 (before ++ ⟨size, true⟩ :: after) heap.heapSize)
    (hneeded : needed ≤ size) (hheader : blockHeaderSize ≤ needed) (haligned : needed % 4 = 0)
    (hwrap : needed + blockHeaderSize + minBlockSize < 4294967296) :
    SameSetup heap (splitBlock heap (rowSize before) needed) ∧
      ∃ kept tail, Tiled (splitBlock heap (rowSize before) needed) 0
          (before ++ ⟨kept, true⟩ :: (tail ++ after))
          (splitBlock heap (rowSize before) needed).heapSize ∧
        needed ≤ kept ∧ kept + rowSize tail = size ∧
          (tail = [] ∨ ∃ rest, tail = [⟨rest, false⟩]) ∧
            (needed + blockHeaderSize + minBlockSize ≤ size → kept = needed) := by
  have hblock := htiled.blockAt
  have hsize : (header heap (rowSize before)).size = size := hblock.size
  have hinside : rowSize before + size ≤ heap.heapSize := hblock.inside
  have hoffset := hblock.aligned
  simp only [blockHeaderSize, minBlockSize] at hheader hwrap
  simp only [splitBlock, hsize, blockHeaderSize, minBlockSize]
  rw [u32_of_lt (needed + 16) (by omega),
    u32_of_lt (needed + 16 + 16) (by omega)]
  split_ifs with hsmall
  · refine ⟨SameSetup.refl heap, size, [], by simpa using htiled, hneeded, by simp, Or.inl rfl,
      fun hroom ↦ ?_⟩
    omega
  · rw [u32_of_lt (rowSize before + needed) (by omega)]
    set tailed := setHeader heap (rowSize before + needed)
      ⟨size - needed, 0, (header heap (rowSize before)).next, magicNumber⟩ with htailed
    set split := setWord (setWord tailed (rowSize before) needed) (rowSize before + 8)
      (rowSize before + needed) with hsplit
    have hsame : SameSetup heap split := ((sameSetup_setHeader heap _ _).trans
      (sameSetup_setWord tailed _ _)).trans (sameSetup_setWord _ _ _)
    refine ⟨hsame, needed, [⟨size - needed, false⟩], ?_, le_refl _, ?_, Or.inr ⟨_, rfl⟩,
      fun _ ↦ rfl⟩
    swap
    · simp only [rowSize_cons, rowSize_nil]
      omega
    refine Tiled.replace [⟨size, true⟩] [⟨needed, true⟩, ⟨size - needed, false⟩] htiled
      hsame.heapSize ?_ ?_
    · intro address haddress
      simp only [rowSize_cons, rowSize_nil, Nat.add_zero] at haddress
      simp only [hsplit, htailed, setHeader, setWord_word]
      rw [if_neg (by omega), if_neg (by omega), if_neg (by omega), if_neg (by omega),
        if_neg (by omega), if_neg (by omega)]
    · have hnext : (header heap (rowSize before)).next =
          linkAfter heap.heapSize (rowSize before + size) := hblock.next
      have hused : heap.word (rowSize before + 4) ≠ 0 := fun hzero ↦ by
        simpa using hblock.used.mp hzero
      refine ⟨⟨?_, ?_, ?_, hheader, ?_, hoffset⟩, ⟨?_, ?_, ?_, ?_, ?_, ?_⟩, ?_⟩
      · simp only [header, hsplit, setWord_word]
        rw [if_neg (by omega), if_pos trivial]
      · simp only [header, hsplit, htailed, setHeader, setWord_word]
        rw [if_neg (by omega), if_neg (by omega), if_neg (by omega), if_neg (by omega),
          if_neg (by omega), if_neg (by omega)]
        simpa using hused
      · simp only [header, hsplit, htailed, setHeader, setWord_heapSize, setWord_word,
          if_true]
        rw [linkAfter_of_lt (by omega)]
      · rw [hsame.heapSize]
        dsimp only
        omega
      · simp only [header, hsplit, htailed, setHeader, setWord_word]
        rw [if_neg (by omega), if_neg (by omega), if_neg (by omega), if_neg (by omega),
          if_neg (by omega), if_pos trivial]
      · simp only [header, hsplit, htailed, setHeader, setWord_word]
        rw [if_neg (by omega), if_neg (by omega), if_neg (by omega), if_neg (by omega),
          if_pos trivial]
        simp
      · simp only [header, hsplit, htailed, setHeader, setWord_word, setWord_heapSize] at hnext ⊢
        rw [if_neg (by omega), if_neg (by omega), if_neg (by omega), if_pos trivial, hnext]
        congr 1
        omega
      · simp only [blockHeaderSize]
        omega
      · rw [hsame.heapSize]
        dsimp only
        omega
      · dsimp only
        omega
      · simp only [Tiled, rowSize_cons, rowSize_nil]
        omega

/-- An allocation that finds a free segment with room for the request uses it, cut down where the
remainder can hold a block. -/
theorem allocate_found {heap : State} (hplaced : Placed heap) {before after : List Segment}
    {size nbytes : ℕ} (htiled : Tiled heap 0 (before ++ ⟨size, false⟩ :: after) heap.heapSize)
    (hzero : nbytes ≠ 0) (hlarge : ¬u32 (heap.heapSize * 9) / 10 < nbytes)
    (hfind : findFreeBlock heap ((nbytes + 19) / 4 * 4) = (heap, rowSize before))
    (hfits : (nbytes + 19) / 4 * 4 ≤ size) :
    ∃ other kept tail,
      allocate heap nbytes = (other, heap.heapStart + rowSize before + blockHeaderSize) ∧
        SameSetup heap other ∧
        Tiled other 0 (before ++ ⟨kept, true⟩ :: (tail ++ after)) other.heapSize ∧
        nbytes + blockHeaderSize ≤ kept ∧ kept + rowSize tail = size ∧
        (tail = [] ∨ ∃ rest, tail = [⟨rest, false⟩]) ∧
        ((nbytes + 19) / 4 * 4 + blockHeaderSize + minBlockSize ≤ size →
          kept = (nbytes + 19) / 4 * 4) := by
  have hbelow := hplaced.below
  have habove := hplaced.above
  have hbound : u32 (heap.heapSize * 9) / 10 ≤ 4294967295 / 10 :=
    Nat.div_le_div_right (Nat.le_of_lt_succ (u32_lt _))
  have htotal : u32 (nbytes + blockHeaderSize + 3) / 4 * 4 = (nbytes + 19) / 4 * 4 := by
    simp only [blockHeaderSize]
    rw [u32_of_lt _ (by omega)]
  unfold allocate
  rw [if_neg hzero, if_neg hlarge, if_neg (by omega), htotal, hfind]
  dsimp only
  have hblock := htiled.blockAt
  have hinside : rowSize before + size ≤ heap.heapSize := hblock.inside
  have hsize : 16 ≤ size := hblock.large
  have hfoundBlock : rowSize before ≠ noBlock := by
    simp only [noBlock]
    omega
  -- the segment is marked used before it is cut down
  set marked := setWord (setWord heap (rowSize before + 4) 1) (rowSize before + 12) magicNumber
    with hmarking
  have hmarked : Tiled marked 0 (before ++ ([⟨size, true⟩] ++ after)) heap.heapSize := by
    refine Tiled.replace [⟨size, false⟩] [⟨size, true⟩] htiled rfl ?_ ?_
    · intro address haddress
      simp only [rowSize_cons, rowSize_nil] at haddress
      simp only [hmarking, setWord_word]
      rw [if_neg (by omega), if_neg (by omega)]
    · refine ⟨⟨?_, ?_, ?_, hsize, hinside, hblock.aligned⟩, by simp [Tiled]⟩
      · simpa [hmarking, header] using hblock.size
      · simp [hmarking, header]
      · simpa [hmarking, header] using hblock.next
  obtain ⟨hsetup, kept, tail, hkept, hneeded, htailSize, htail, hexact⟩ :=
    splitBlock_spec ((nbytes + 19) / 4 * 4)
      (by simp only [hmarking, setWord_heapSize]; omega) hmarked hfits
      (by simp only [blockHeaderSize]; omega) (by omega)
      (by simp only [blockHeaderSize, minBlockSize]; omega)
  have hstart : (splitBlock marked (rowSize before) ((nbytes + 19) / 4 * 4)).heapStart =
      heap.heapStart := hsetup.heapStart
  set split := splitBlock marked (rowSize before) ((nbytes + 19) / 4 * 4)
  refine ⟨{ split with allocationCount := u32 (split.allocationCount + 1) }, kept, tail, ?_, ?_,
    hkept.congr rfl fun _ _ _ ↦ rfl, by simp only [blockHeaderSize]; omega, htailSize, htail,
    hexact⟩
  · rw [if_neg hfoundBlock, hstart,
      u32_of_lt (heap.heapStart + rowSize before + blockHeaderSize)
        (by simp only [blockHeaderSize]; omega)]
  · exact ⟨hsetup.heapStart, hsetup.heapSize, hsetup.memoryInitialized, hsetup.memoryErrors⟩

/-- An allocation from a well-placed heap gives nothing and keeps the heap, or a pointer behind the
header of a segment that was free and now holds the request. -/
theorem allocate_spec {heap : State} (hplaced : Placed heap) {row : List Segment}
    (htiled : Tiled heap 0 row heap.heapSize) (hrow : NoFreePair row) (nbytes : ℕ) :
    allocate heap nbytes = (heap, 0) ∨
      ∃ other newRow offset, allocate heap nbytes =
          (other, heap.heapStart + offset + blockHeaderSize) ∧
        Allocated heap other row newRow nbytes offset := by
  have habove := hplaced.above
  by_cases hzero : nbytes = 0
  · exact Or.inl (if_pos hzero)
  by_cases hlarge : u32 (heap.heapSize * 9) / 10 < nbytes
  · exact Or.inl (by rw [allocate, if_neg hzero, if_pos hlarge])
  have hbound : u32 (heap.heapSize * 9) / 10 ≤ 4294967295 / 10 :=
    Nat.div_le_div_right (Nat.le_of_lt_succ (u32_lt _))
  have htotal : u32 (nbytes + blockHeaderSize + 3) / 4 * 4 = (nbytes + 19) / 4 * 4 := by
    simp only [blockHeaderSize]
    rw [u32_of_lt _ (by omega)]
  obtain ⟨found, hfind, hfound⟩ := findFreeBlock_spec hplaced htiled ((nbytes + 19) / 4 * 4)
  rcases hfound with rfl | ⟨before, size, after, rfl, rfl, hfits⟩
  · left
    unfold allocate
    rw [if_neg hzero, if_neg hlarge, if_neg (by omega), htotal, hfind]
    simp
  · right
    obtain ⟨other, kept, tail, hallocate, hsetup, hkept, hneeded, htailSize, htail, -⟩ :=
      allocate_found hplaced htiled hzero hlarge hfind hfits
    refine ⟨other, before ++ ⟨kept, true⟩ :: (tail ++ after), rowSize before, hallocate, hsetup,
      hkept, hrow.occupy htail, usedBlocks 0 before, usedBlocks (rowSize before + size) after, kept,
      ?_, ?_, hneeded⟩
    · simp [usedBlocks_append, usedBlocks]
    · have htailBlocks : usedBlocks (rowSize before + kept) tail = [] := by
        rcases htail with rfl | ⟨rest, rfl⟩ <;> simp [usedBlocks]
      simp only [usedBlocks_append, usedBlocks, Nat.zero_add, if_true, htailBlocks,
        List.nil_append]
      rw [show rowSize before + kept + rowSize tail = rowSize before + size by omega]

/-! ### Coalescing and freeing -/

/-- The inner loop of `merge_free_blocks` at a segment absorbs the free segments after it. The
induction is on the row after the segment. -/
theorem mergeInto_spec {heap : State} (hplaced : Placed heap) {before rest : List Segment}
    {segment : Segment} (htiled : Tiled heap 0 (before ++ segment :: rest) heap.heapSize)
    {steps : ℕ} (hsteps : rest.length < steps) :
    ∃ other, mergeInto steps heap (rowSize before) = some (other, true) ∧ SameSetup heap other ∧
      Tiled other 0 (before ++ (absorb segment rest).1 :: (absorb segment rest).2)
        other.heapSize := by
  induction rest generalizing heap segment steps with
  | nil =>
    obtain ⟨steps, rfl⟩ := Nat.exists_eq_add_of_lt hsteps
    have hblock := htiled.blockAt
    have hend : rowSize before + segment.size = heap.heapSize := by
      have hstop := htiled.stop_eq
      simp only [rowSize_append, rowSize_cons, rowSize_nil] at hstop
      omega
    have hnext : (header heap (rowSize before)).next = noBlock := by
      rw [hblock.next, hend, linkAfter_self]
    refine ⟨heap, ?_, SameSetup.refl heap, htiled⟩
    simp [mergeInto, hnext]
  | cons next rest ih =>
    obtain ⟨steps, rfl⟩ : ∃ more, steps = more + 1 := ⟨steps - 1, by omega⟩
    have hblock := htiled.blockAt
    have hsecond : BlockAt heap (rowSize before + segment.size) next := by
      have hshift : Tiled heap 0 ((before ++ [segment]) ++ next :: rest) heap.heapSize := by
        simpa using htiled
      simpa using hshift.blockAt
    have hinside := hsecond.inside
    have hlarge : 16 ≤ next.size := hsecond.large
    have hlargeFirst : 16 ≤ segment.size := hblock.large
    have hbelow := hplaced.below
    have hlink : (header heap (rowSize before)).next = rowSize before + segment.size := by
      rw [hblock.next, linkAfter_of_lt (by omega)]
    have hnotEnd : rowSize before + segment.size ≠ noBlock := by
      simp only [noBlock]
      omega
    simp only [mergeInto, hlink, if_neg hnotEnd, validateBlock_of_blockAt hplaced hsecond, if_true,
      hblock.used, hsecond.used]
    by_cases hfree : segment.used = false ∧ next.used = false
    · have habsorb : absorb segment (next :: rest) =
          absorb ⟨segment.size + next.size, false⟩ rest := by
        simp [absorb, hfree.1, hfree.2]
      rw [if_pos hfree, hblock.size, hsecond.size, u32_of_lt _ (by omega), hsecond.next, habsorb]
      set joined := setWord (setWord heap (rowSize before) (segment.size + next.size))
        (rowSize before + 8) (linkAfter heap.heapSize (rowSize before + segment.size + next.size))
        with hjoined
      have hsame : SameSetup heap joined := ⟨rfl, rfl, rfl, rfl⟩
      have htiledJoined : Tiled joined 0
          (before ++ ([⟨segment.size + next.size, false⟩] ++ rest)) joined.heapSize := by
        refine Tiled.replace [segment, next] [⟨segment.size + next.size, false⟩] htiled rfl ?_ ?_
        · intro address haddress
          simp only [rowSize_cons, rowSize_nil] at haddress
          simp only [hjoined, setWord_word]
          rw [if_neg (by omega), if_neg (by omega)]
        · refine ⟨⟨?_, ?_, ?_, ?_, ?_, hblock.aligned⟩, by simp [Tiled]⟩
          · simp [hjoined, header]
          · simpa [hjoined, header, hfree.1] using hblock.used
          · simp [hjoined, header, Nat.add_assoc]
          · simp only [blockHeaderSize]
            omega
          · simp only [hjoined, setWord_heapSize]
            omega
      obtain ⟨other, hmerge, hsetup, hother⟩ := ih (hplaced.congr hsame) htiledJoined
        (show rest.length < steps by simpa using hsteps)
      exact ⟨other, hmerge, hsame.trans hsetup, hother⟩
    · refine ⟨heap, by rw [if_neg hfree], SameSetup.refl heap, ?_⟩
      have hkeep : absorb segment (next :: rest) = (segment, next :: rest) := by
        have hcondition : (!segment.used && !next.used) = false := by
          simpa [Bool.and_eq_true] using hfree
        simp [absorb, hcondition]
      rw [hkeep]
      exact htiled

/-- The outer loop of `merge_free_blocks`, standing before the rest of a row, coalesces that rest.
The induction is on the steps left, of which every turn of the loop uses one and the segments of
the rest bound the turns. -/
theorem mergeFreeBlocksLoop_spec (steps : ℕ) :
    ∀ {heap : State} {before rest : List Segment}, Placed heap →
      Tiled heap 0 (before ++ rest) heap.heapSize → rest.length < steps →
      ∃ other, mergeFreeBlocksLoop steps heap (linkAfter heap.heapSize (rowSize before)) =
          some other ∧ SameSetup heap other ∧
        Tiled other 0 (before ++ coalesceRow rest) other.heapSize := by
  induction steps with
  | zero => exact fun _ _ hsteps ↦ absurd hsteps (Nat.not_lt_zero _)
  | succ steps ih =>
    intro heap before rest hplaced htiled hsteps
    cases rest with
    | nil =>
      have hend : rowSize before = heap.heapSize := by
        have hstop := htiled.stop_eq
        simp only [List.append_nil] at hstop
        omega
      refine ⟨heap, ?_, SameSetup.refl heap, htiled⟩
      rw [hend, linkAfter_self]
      simp [mergeFreeBlocksLoop]
    | cons segment rest =>
      have hblock := htiled.blockAt
      have hinside := hblock.inside
      have hlarge : 16 ≤ segment.size := hblock.large
      have hbelow := hplaced.below
      have hnotEnd : rowSize before ≠ noBlock := by
        simp only [noBlock]
        omega
      have hrestLength : rest.length < heap.heapSize := by
        have hstop := htiled.stop_eq
        have hlength := htiled.length_le
        simp only [List.length_append, List.length_cons] at hlength
        omega
      obtain ⟨merged, hmerge, hsetup, hmerged⟩ := mergeInto_spec hplaced htiled hrestLength
      have hmergedRow : Tiled merged 0
          ((before ++ [(absorb segment rest).1]) ++ (absorb segment rest).2) merged.heapSize := by
        simpa using hmerged
      have hlink : (header merged (rowSize before)).next =
          linkAfter merged.heapSize (rowSize (before ++ [(absorb segment rest).1])) := by
        simpa using hmerged.blockAt.next
      obtain ⟨other, hloop, hother, htiledOther⟩ := ih (hplaced.congr hsetup) hmergedRow
        (lt_of_le_of_lt (length_absorb_le segment rest) (by simpa using hsteps))
      refine ⟨other, ?_, hsetup.trans hother, ?_⟩
      · rw [linkAfter_of_lt (by omega), mergeFreeBlocksLoop, if_neg hnotEnd,
          validateBlock_of_blockAt hplaced hblock, if_pos rfl, hmerge]
        dsimp only
        rw [hlink]
        exact hloop
      · rw [coalesceRow, coalesce_eq_absorb]
        simpa using htiledOther

/-- What freeing the used segment at an offset of a row leaves: a row without it. -/
structure Freed (heap other : State) (row newRow : List Segment) (offset : ℕ) : Prop where
  setup : SameSetup heap other
  tiled : Tiled other 0 newRow other.heapSize
  noFreePair : NoFreePair newRow
  blocks : ∃ left right blockSize, usedBlocks 0 row = left ++ (offset, blockSize) :: right ∧
    usedBlocks 0 newRow = left ++ right

/-- Freeing the pointer behind the header of a used segment returns, and removes that segment from
the used segments of the row. -/
theorem heapFree_spec {heap : State} (hplaced : Placed heap)
    (hinitialized : heap.memoryInitialized = true) {row : List Segment}
    (htiled : Tiled heap 0 row heap.heapSize) {block : ℕ × ℕ}
    (hblock : block ∈ usedBlocks 0 row) :
    ∃ other newRow, heapFree heap (heap.heapStart + block.1 + blockHeaderSize) = some other ∧
      Freed heap other row newRow block.1 := by
  obtain ⟨before, after, hsplit, hoffset⟩ := exists_split_of_mem_usedBlocks hblock
  rw [Nat.zero_add] at hoffset
  subst hsplit
  have hbelow := hplaced.below
  have habove := hplaced.above
  have hat := htiled.blockAt
  have hinside : rowSize before + block.2 ≤ heap.heapSize := hat.inside
  have hlarge : 16 ≤ block.2 := hat.large
  have hcleared : Tiled (setWord heap (rowSize before + 4) 0) 0
      (before ++ ([⟨block.2, false⟩] ++ after)) heap.heapSize := by
    refine Tiled.replace [⟨block.2, true⟩] [⟨block.2, false⟩] htiled rfl ?_ ?_
    · intro address haddress
      simp only [rowSize_cons, rowSize_nil] at haddress
      simp only [setWord_word]
      rw [if_neg (by omega)]
    · refine ⟨⟨?_, ?_, ?_, hat.large, hat.inside, hat.aligned⟩, by simp [Tiled]⟩
      · simpa [header] using hat.size
      · simp [header]
      · simpa [header] using hat.next
  have hlength : (before ++ ([(⟨block.2, false⟩ : Segment)] ++ after)).length < heap.heapSize := by
    have hstop := htiled.stop_eq
    have hbeforeLength : before.length ≤ rowSize before := by
      rw [tiled_append] at htiled
      exact htiled.1.length_le
    have hafterLength : after.length ≤ rowSize after := by
      rw [tiled_append] at htiled
      exact htiled.2.2.length_le
    simp only [rowSize_append, rowSize_cons] at hstop
    simp only [List.length_append, List.length_cons, List.length_nil]
    omega
  have hsame := sameSetup_setWord heap (rowSize before + 4) 0
  obtain ⟨other, hmerge, hsetup, hother⟩ := mergeFreeBlocksLoop_spec heap.heapSize
    (hplaced.congr hsame) (show Tiled _ 0 ([] ++ _) _ from hcleared) hlength
  have hfirst : linkAfter heap.heapSize (rowSize []) = firstBlock :=
    linkAfter_of_lt (by simp only [rowSize_nil]; omega)
  simp only [setWord_heapSize, hfirst] at hmerge
  have hpointer : u32 (heap.heapStart + rowSize before + 16 + 2 * 4294967296 - heap.heapStart - 16)
      = rowSize before := by
    rw [u32, show heap.heapStart + rowSize before + 16 + 2 * 4294967296 - heap.heapStart - 16 =
      rowSize before + 2 * 4294967296 by omega]
    omega
  have husedWord : (header heap (rowSize before)).used ≠ 0 := fun hzero ↦ by
    simpa using hat.used.mp hzero
  refine ⟨{ other with freeCount := u32 (other.freeCount + 1) },
    coalesceRow (before ++ ⟨block.2, false⟩ :: after), ?_, ?_⟩
  · rw [hoffset]
    simp only [heapFree, blockHeaderSize, hinitialized, hpointer]
    rw [if_neg (by omega), if_neg (by simp), if_neg (by omega), if_neg (by omega),
      validateBlock_of_blockAt hplaced hat, if_pos rfl, if_neg husedWord]
    simp only [mergeFreeBlocks, setWord_heapSize, hmerge, Option.map_some]
  · have hused : usedBlocks 0 (coalesceRow (before ++ ⟨block.2, false⟩ :: after)) =
        usedBlocks 0 (before ++ ⟨block.2, false⟩ :: after) := by
      cases before <;> exact usedBlocks_coalesce _ _ _
    refine ⟨⟨hsetup.heapStart, hsetup.heapSize, hsetup.memoryInitialized, hsetup.memoryErrors⟩,
      ?_, ?_, usedBlocks 0 before, usedBlocks (rowSize before + block.2) after, block.2, ?_, ?_⟩
    · exact hother.congr rfl fun _ _ _ ↦ rfl
    · cases before <;> exact noFreePair_coalesce _ _
    · simp [usedBlocks_append, usedBlocks, hoffset]
    · rw [hused]
      simp [usedBlocks_append, usedBlocks]

end EynOS.Memory.Heap
