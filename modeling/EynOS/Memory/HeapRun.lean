import EynOS.Memory.HeapOperations

/-!
# Every history of the heap keeps its invariant

A history of the heap is a sequence of calls of `heap_malloc`, calls of `heap_free` on pointers
that were returned and not freed since, and stores of the holders into the memory they were given.
`Sound` is the invariant in terms of the row of segments: the headers spell out a row without two
free neighbours whose used segments are exactly those of the live allocations. `Sound.step` shows
that one event keeps it and `heap_invariant` reads it back in terms of the headers in memory.

The heap is set up by the first `heap_malloc`, or by a later one when there is too little memory;
`initMemoryManager_spec` is the specification of the set-up.
-/

namespace EynOS.Memory.Heap

open Foundation

/-! ### Histories -/

/-- The heap with the allocations that are live: the pointer and the size requested. -/
structure Traffic where
  heap : State
  live : List (ℕ × ℕ)

/-- What happens to the heap: an allocation, a deallocation, or a store of a word by the holder of
an allocation. -/
inductive Event
  | malloc (machine : Machine) (nbytes : ℕ)
  | free (pointer : ℕ)
  | store (allocation : ℕ × ℕ) (index value : ℕ)

/-- One event. Only live pointers are freed, and holders store inside what they asked for. -/
def step (traffic : Traffic) : Event → Option Traffic
  | .malloc machine nbytes =>
    (heapMalloc traffic.heap machine nbytes).map fun outcome ↦
      { heap := outcome.1
        live := if outcome.2 = 0 then traffic.live else (outcome.2, nbytes) :: traffic.live }
  | .free pointer =>
    if traffic.live.any fun allocation ↦ allocation.1 = pointer then
      (heapFree traffic.heap pointer).map fun heap ↦
        { heap := heap
          live := traffic.live.eraseP fun allocation ↦ allocation.1 = pointer }
    else none
  | .store allocation index value =>
    if allocation ∈ traffic.live ∧ 4 * index < allocation.2 then
      some { traffic with
        heap := setWord traffic.heap (allocation.1 - traffic.heap.heapStart + 4 * index) value }
    else none

/-! ### Setting the heap up -/

theorem calculateOptimalHeapSize_lt (availableRam : ℕ) :
    calculateOptimalHeapSize availableRam < 4294967296 := by
  simp only [calculateOptimalHeapSize, heapSizeMin]
  split_ifs <;> omega

theorem clampHeapSize_lt {size : ℕ} (hsize : size < 4294967296) (freeFrames : ℕ) :
    clampHeapSize size freeFrames < 4294967296 := by
  unfold clampHeapSize
  split
  · exact hsize
  · extract_lets freeBytes heapCap capped aligned bounded
    have hbounded : bounded ≤ heapSizeMax := by
      simp only [bounded]
      split_ifs <;> omega
    split_ifs
    · decide
    · exact lt_of_le_of_lt hbounded (by decide)

theorem allocate_of_not_valid {heap : State} (hinvalid : validateBlock heap firstBlock = false)
    (nbytes : ℕ) :
    ∃ other, allocate heap nbytes = (other, 0) ∧ other.heapStart = heap.heapStart := by
  have hfind (size : ℕ) : findFreeBlock heap size = (countError heap, noBlock) := by
    rw [findFreeBlock, findFreeBlockLoop, if_neg (by decide), hinvalid]
    rfl
  simp only [allocate, hfind, if_true]
  split_ifs
  · exact ⟨heap, rfl, rfl⟩
  · exact ⟨heap, rfl, rfl⟩
  · exact ⟨heap, rfl, rfl⟩
  · exact ⟨countError heap, rfl, rfl⟩

/-- A heap whose only block is free and covers all of it is tiled by one free segment. -/
theorem tiled_fresh {heap : State} (hplaced : Placed heap)
    (hheader : header heap firstBlock = ⟨heap.heapSize, 0, noBlock, magicNumber⟩) :
    Tiled heap 0 [⟨heap.heapSize, false⟩] heap.heapSize := by
  have hlarge : 0x40000 ≤ heap.heapSize := hplaced.large
  simp only [firstBlock] at hheader
  refine ⟨⟨by rw [hheader], by simp [hheader], ?_, ?_, by simp, by omega⟩, by simp [Tiled]⟩
  · simp [hheader, linkAfter]
  · simp only [blockHeaderSize]
    omega

/-- The set-up returns. It leaves a heap that is not initialized, or a well-placed one whose headers
spell out a row of free segments without two neighbours. -/
theorem initMemoryManager_spec {heap : State} (machine : Machine)
    (hinitialized : heap.memoryInitialized = false) (hstart : heap.heapStart < 4294967296) :
    ∃ other, initMemoryManager heap machine = some other ∧ other.heapStart < 4294967296 ∧
      (other.memoryInitialized = true → Placed other ∧ ∃ row,
        Tiled other 0 row other.heapSize ∧ NoFreePair row ∧ usedBlocks 0 row = []) := by
  unfold initMemoryManager
  dsimp only
  set physStart := if heap.heapPhysStart = 0 then
      if machine.bootAllocEnd ≠ 0 then machine.bootAllocEnd
      else alignUpPage (u32 (machine.kernelEnd + 0x10000))
    else heap.heapPhysStart
  set start := if heap.heapStart = 0 then u32 (kernelBase + physStart) else heap.heapStart
    with hstartAt
  set size := clampHeapSize (calculateOptimalHeapSize machine.availableRam) machine.freeFrames
    with hsizeIs
  have hstartLt : start < 4294967296 := by
    rw [hstartAt]
    split_ifs
    · exact u32_lt _
    · exact hstart
  have hsizeLt : size < 4294967296 := clampHeapSize_lt (calculateOptimalHeapSize_lt _) _
  by_cases hlow : physStart < 0x100000
  · refine ⟨_, if_pos hlow, hstartLt, fun htrue ↦ ?_⟩
    simp [hinitialized] at htrue
  rw [if_neg hlow]
  set fresh := setHeader _ firstBlock ⟨size, 0, noBlock, magicNumber⟩ with hfresh
  have hfreshStart : fresh.heapStart = start := rfl
  have hfreshSize : fresh.heapSize = size := rfl
  have hfreshInitialized : fresh.memoryInitialized = true := rfl
  by_cases hplaced : Placed fresh
  · have hheader : header fresh firstBlock = ⟨fresh.heapSize, 0, noBlock, magicNumber⟩ := by
      simp [header, hfresh, setHeader, firstBlock]
    have htiled := tiled_fresh hplaced hheader
    rcases allocate_spec hplaced htiled (by simp [NoFreePair]) 16 with hfail | hsuccess
    · rw [hfail]
      exact ⟨_, if_pos rfl, hstartLt, fun htrue ↦ absurd htrue (by simp)⟩
    · obtain ⟨tested, row, offset, hallocate, hallocated⟩ := hsuccess
      obtain ⟨left, right, blockSize, hbefore, hafter, -⟩ := hallocated.blocks
      have hempty : left = [] ∧ right = [] := by
        simpa [usedBlocks] using hbefore.symm
      have hblock : (offset, blockSize) ∈ usedBlocks 0 row := by simp [hafter]
      obtain ⟨other, newRow, hfree, hfreed⟩ := heapFree_spec
        (hplaced.congr hallocated.setup) hallocated.setup.memoryInitialized
        hallocated.tiled hblock
      have hsetup := hallocated.setup.trans hfreed.setup
      have hpointer : fresh.heapStart + offset + blockHeaderSize ≠ 0 := by
        simp [blockHeaderSize]
      rw [hallocated.setup.heapStart] at hfree
      rw [hallocate]
      dsimp only
      rw [if_neg hpointer]
      refine ⟨other, hfree, ?_, fun _ ↦ ⟨hplaced.congr hsetup, newRow, hfreed.tiled,
        hfreed.noFreePair, ?_⟩⟩
      · rw [hsetup.heapStart, hfreshStart]
        exact hstartLt
      · obtain ⟨left', right', blockSize', hbefore', hafter'⟩ := hfreed.blocks
        rw [hafter, hempty.1, hempty.2] at hbefore'
        have hlength := congrArg List.length hbefore'
        simp only [List.nil_append, List.length_cons, List.length_nil,
          List.length_append] at hlength
        rw [hafter', List.append_eq_nil_iff]
        exact ⟨List.eq_nil_of_length_eq_zero (by omega), List.eq_nil_of_length_eq_zero (by omega)⟩
  · have hinvalid : validateBlock fresh firstBlock = false := by
      by_contra hvalid
      exact hplaced (placed_of_validateBlock (by omega) (by omega)
        (Bool.not_eq_false _ ▸ hvalid))
    obtain ⟨tested, hallocate, htested⟩ := allocate_of_not_valid hinvalid 16
    rw [hallocate]
    refine ⟨_, if_pos rfl, ?_, fun htrue ↦ absurd htrue (by simp)⟩
    simp only [htested, hfreshStart]
    exact hstartLt

/-! ### The invariant over the row -/

/-- A live allocation fits the used segment it was given. -/
def Fits (heapStart : ℕ) (allocation block : ℕ × ℕ) : Prop :=
  allocation.1 = heapStart + block.1 + blockHeaderSize ∧
    allocation.2 + blockHeaderSize ≤ block.2

/-- The used segments of a row are, in some order, those of the live allocations. -/
def Matches (heapStart : ℕ) (live : List (ℕ × ℕ)) (row : List Segment) : Prop :=
  ∃ blocks, List.Forall₂ (Fits heapStart) live blocks ∧ blocks.Perm (usedBlocks 0 row)

/-- The invariant of the histories: before the set-up nothing is live, and after it the headers
spell out a row without free neighbours whose used segments are those of the live allocations. -/
structure Sound (traffic : Traffic) : Prop where
  start : traffic.heap.heapStart < 4294967296
  blank : traffic.heap.memoryInitialized = false → traffic.live = []
  tiled : traffic.heap.memoryInitialized = true → Placed traffic.heap ∧ ∃ row,
    Tiled traffic.heap 0 row traffic.heap.heapSize ∧ NoFreePair row ∧
      Matches traffic.heap.heapStart traffic.live row

/-- Lists that match element by element split alike. -/
theorem forall₂_split {α β : Type*} {related : α → β → Prop} {before after : List α} {middle : α}
    {others : List β} (hrelated : List.Forall₂ related (before ++ middle :: after) others) :
    ∃ first other second, others = first ++ other :: second ∧
      List.Forall₂ related before first ∧ related middle other ∧
        List.Forall₂ related after second := by
  induction before generalizing others with
  | nil =>
    obtain ⟨other, second, hmiddle, hafter, rfl⟩ := List.forall₂_cons_left_iff.mp hrelated
    exact ⟨[], other, second, rfl, .nil, hmiddle, hafter⟩
  | cons entry before ih =>
    obtain ⟨head, rest, hhead, hrest, rfl⟩ := List.forall₂_cons_left_iff.mp hrelated
    obtain ⟨first, other, second, rfl, hbefore, hmiddle, hafter⟩ := ih hrest
    exact ⟨head :: first, other, second, rfl, .cons hhead hbefore, hmiddle, hafter⟩

/-- A live allocation has its segment in the row. -/
theorem Matches.exists_block {heapStart : ℕ} {live : List (ℕ × ℕ)} {row : List Segment}
    (hmatches : Matches heapStart live row) {allocation : ℕ × ℕ} (hlive : allocation ∈ live) :
    ∃ block ∈ usedBlocks 0 row, Fits heapStart allocation block := by
  obtain ⟨blocks, hfits, hperm⟩ := hmatches
  obtain ⟨before, after, rfl⟩ := List.append_of_mem hlive
  obtain ⟨first, block, second, rfl, -, hblock, -⟩ := forall₂_split hfits
  exact ⟨block, hperm.subset (by simp), hblock⟩

/-- A new used segment matches a new live allocation that it fits. -/
theorem Matches.occupy {heapStart : ℕ} {live : List (ℕ × ℕ)} {row newRow : List Segment}
    (hmatches : Matches heapStart live row) {left right : List (ℕ × ℕ)} {allocation block : ℕ × ℕ}
    (hrow : usedBlocks 0 row = left ++ right) (hnew : usedBlocks 0 newRow = left ++ block :: right)
    (hfits : Fits heapStart allocation block) :
    Matches heapStart (allocation :: live) newRow := by
  obtain ⟨blocks, hlive, hperm⟩ := hmatches
  refine ⟨block :: blocks, .cons hfits hlive, ?_⟩
  rw [hnew]
  exact ((hrow ▸ hperm).cons block).trans List.perm_middle.symm

/-- Taking a live allocation and its segment away leaves the others matched. -/
theorem Matches.release {heapStart : ℕ} {before after : List (ℕ × ℕ)} {row newRow : List Segment}
    {allocation : ℕ × ℕ} (hmatches : Matches heapStart (before ++ allocation :: after) row)
    (hsizes : ∀ segment ∈ row, 0 < segment.size) {left right : List (ℕ × ℕ)} {block : ℕ × ℕ}
    (hrow : usedBlocks 0 row = left ++ block :: right) (hnew : usedBlocks 0 newRow = left ++ right)
    (hfits : allocation.1 = heapStart + block.1 + blockHeaderSize) :
    Matches heapStart (before ++ after) newRow := by
  obtain ⟨blocks, hlive, hperm⟩ := hmatches
  obtain ⟨first, other, second, rfl, hbefore, hother, hafter⟩ := forall₂_split hlive
  have hsame : other = block := by
    refine usedBlocks_eq_of_offset hsizes (hperm.subset (by simp)) (by simp [hrow]) ?_
    have hoffset := hother.1
    omega
  refine ⟨first ++ second, List.rel_append hbefore hafter, ?_⟩
  rw [hrow, hsame] at hperm
  rw [hnew]
  exact List.Perm.cons_inv (List.perm_middle.symm.trans (hperm.trans List.perm_middle))

/-- Storing a word into a used segment behind its header keeps the row. -/
theorem Tiled.store {heap : State} {row : List Segment}
    (htiled : Tiled heap 0 row heap.heapSize) {block : ℕ × ℕ} (hblock : block ∈ usedBlocks 0 row)
    {address : ℕ} (hlow : block.1 + blockHeaderSize ≤ address)
    (hhigh : address < block.1 + block.2) (value : ℕ) :
    Tiled (setWord heap address value) 0 row heap.heapSize := by
  obtain ⟨before, after, rfl, hoffset⟩ := exists_split_of_mem_usedBlocks hblock
  simp only [blockHeaderSize] at hlow
  have hat := htiled.blockAt
  refine Tiled.replace [⟨block.2, true⟩] [⟨block.2, true⟩] htiled rfl ?_ ?_
  · intro other hother
    simp only [rowSize_cons, rowSize_nil] at hother
    simp only [setWord_word]
    rw [if_neg (by omega)]
  · refine ⟨⟨?_, ?_, ?_, hat.large, hat.inside, hat.aligned⟩, by simp [Tiled]⟩
    · simp only [header, setWord_word]
      rw [if_neg (by omega)]
      exact hat.size
    · simp only [header, setWord_word]
      rw [if_neg (by omega)]
      exact hat.used
    · simp only [header, setWord_word, setWord_heapSize]
      rw [if_neg (by omega)]
      exact hat.next

/-! ### One event -/

/-- The heap with which `heap_malloc` searches for a block: set up now, where it was not. -/
def readyHeap (heap : State) (machine : Machine) : Option State :=
  if heap.memoryInitialized then some heap
  else if machine.bootAllocEnd = 0 then some heap
  else initMemoryManager heap machine

/-- That heap keeps the invariant, set up or not. -/
theorem readyHeap_spec {traffic : Traffic} (hsound : Sound traffic) (machine : Machine) :
    ∃ heap, readyHeap traffic.heap machine = some heap ∧ Sound { traffic with heap := heap } := by
  unfold readyHeap
  by_cases hinitialized : traffic.heap.memoryInitialized = true
  · exact ⟨traffic.heap, if_pos hinitialized, hsound⟩
  · rw [if_neg hinitialized]
    rw [Bool.not_eq_true] at hinitialized
    by_cases hboot : machine.bootAllocEnd = 0
    · exact ⟨traffic.heap, if_pos hboot, hsound⟩
    · obtain ⟨heap, hinit, hstart, hready⟩ :=
        initMemoryManager_spec machine hinitialized hsound.start
      have hnothing := hsound.blank hinitialized
      refine ⟨heap, by rw [if_neg hboot, hinit], hstart, fun _ ↦ hnothing, fun htrue ↦ ?_⟩
      obtain ⟨hplaced, row, htiled, hrow, hused⟩ := hready htrue
      refine ⟨hplaced, row, htiled, hrow, [], ?_, ?_⟩
      · rw [hnothing]
        exact .nil
      · rw [hused]

/-- `heap_malloc` sets the heap up, where it is not, and allocates from it. -/
theorem heapMalloc_eq (heap : State) (machine : Machine) (nbytes : ℕ) :
    heapMalloc heap machine nbytes = (readyHeap heap machine).map fun heap ↦
      if heap.memoryInitialized then allocate heap nbytes else (heap, 0) := rfl

/-- The heap with which `heap_malloc` searches for a block, set up or not. -/
theorem heapMalloc_spec {traffic : Traffic} (hsound : Sound traffic) (machine : Machine)
    (nbytes : ℕ) :
    ∃ heap, heapMalloc traffic.heap machine nbytes =
        some (if heap.memoryInitialized then allocate heap nbytes else (heap, 0)) ∧
      Sound { traffic with heap := heap } := by
  obtain ⟨heap, hready, hsame⟩ := readyHeap_spec hsound machine
  exact ⟨heap, by rw [heapMalloc_eq, hready, Option.map_some], hsame⟩

/-- An allocation keeps the invariant. -/
theorem Sound.malloc {traffic next : Traffic} (hsound : Sound traffic) {machine : Machine}
    {nbytes : ℕ} (hstep : step traffic (.malloc machine nbytes) = some next) : Sound next := by
  obtain ⟨heap, hmalloc, hready⟩ := heapMalloc_spec hsound machine nbytes
  simp only [step, hmalloc, Option.map_some, Option.some.injEq] at hstep
  by_cases hinitialized : heap.memoryInitialized = true
  · simp only [hinitialized, if_true] at hstep
    obtain ⟨hplaced, row, htiled, hrow, hmatches⟩ := hready.tiled hinitialized
    rcases allocate_spec hplaced htiled hrow nbytes with hfail | hsuccess
    · rw [← hstep, hfail]
      simpa using hready
    · obtain ⟨other, newRow, offset, hallocate, hallocated⟩ := hsuccess
      obtain ⟨left, right, blockSize, hbefore, hafter, hlarge⟩ := hallocated.blocks
      have hpointer : heap.heapStart + offset + blockHeaderSize ≠ 0 := by
        simp [blockHeaderSize]
      have hsetup := hallocated.setup
      rw [← hstep, hallocate]
      simp only [if_neg hpointer]
      refine ⟨hsetup.heapStart ▸ hready.start, fun hfalse ↦ ?_, fun _ ↦
        ⟨hplaced.congr hsetup, newRow, hallocated.tiled, hallocated.noFreePair, ?_⟩⟩
      · rw [hsetup.memoryInitialized, hinitialized] at hfalse
        exact absurd hfalse (by decide)
      · rw [hsetup.heapStart]
        exact hmatches.occupy hbefore hafter ⟨rfl, hlarge⟩
  · simp only [hinitialized] at hstep
    rw [← hstep]
    simpa using hready

/-- Freeing a live pointer returns. -/
theorem heapFree_isSome {traffic : Traffic} (hsound : Sound traffic) {allocation : ℕ × ℕ}
    (hlive : allocation ∈ traffic.live) : (heapFree traffic.heap allocation.1).isSome = true := by
  have hinitialized : traffic.heap.memoryInitialized = true := by
    by_contra hfalse
    rw [Bool.not_eq_true] at hfalse
    simp [hsound.blank hfalse] at hlive
  obtain ⟨hplaced, row, htiled, -, hmatches⟩ := hsound.tiled hinitialized
  obtain ⟨block, hblock, hfits⟩ := hmatches.exists_block hlive
  obtain ⟨other, newRow, hfree, -⟩ := heapFree_spec hplaced hinitialized htiled hblock
  rw [hfits.1, hfree]
  rfl

/-- Freeing a live pointer keeps the invariant. -/
theorem Sound.free {traffic next : Traffic} (hsound : Sound traffic) {pointer : ℕ}
    (hstep : step traffic (.free pointer) = some next) : Sound next := by
  simp only [step] at hstep
  split_ifs at hstep with hany
  obtain ⟨allocation, hlive, hpointer⟩ := List.any_eq_true.mp hany
  obtain ⟨heap, hfree, rfl⟩ := Option.map_eq_some_iff.mp hstep
  obtain ⟨found, before, after, -, hfound, hsplit, herase⟩ :=
    List.exists_of_eraseP (p := fun allocation ↦ decide (allocation.1 = pointer)) hlive hpointer
  simp only [decide_eq_true_eq] at hfound
  have hinitialized : traffic.heap.memoryInitialized = true := by
    by_contra hfalse
    rw [Bool.not_eq_true] at hfalse
    simp [hsound.blank hfalse] at hlive
  obtain ⟨hplaced, row, htiled, hrow, hmatches⟩ := hsound.tiled hinitialized
  obtain ⟨block, hblock, hfits⟩ := hmatches.exists_block (hsplit ▸ List.mem_append_cons_self)
  obtain ⟨other, newRow, hreturns, hfreed⟩ := heapFree_spec hplaced hinitialized htiled hblock
  rw [← hfits.1, hfound, hfree, Option.some.injEq] at hreturns
  subst hreturns
  obtain ⟨left, right, blockSize, hbefore, hafter⟩ := hfreed.blocks
  have hsizes : ∀ segment ∈ row, 0 < segment.size := fun segment hsegment ↦
    lt_of_lt_of_le (by decide) (htiled.large segment hsegment)
  have hsetup := hfreed.setup
  refine ⟨hsetup.heapStart ▸ hsound.start, fun hfalse ↦ ?_, fun _ ↦
    ⟨hplaced.congr hsetup, newRow, hfreed.tiled, hfreed.noFreePair, ?_⟩⟩
  · rw [hsetup.memoryInitialized, hinitialized] at hfalse
    exact absurd hfalse (by decide)
  · dsimp only
    rw [hsetup.heapStart, herase]
    rw [hsplit] at hmatches
    exact hmatches.release hsizes hbefore hafter hfits.1

/-- A store of a holder keeps the invariant. -/
theorem Sound.store {traffic next : Traffic} (hsound : Sound traffic) {allocation : ℕ × ℕ}
    {index value : ℕ} (hstep : step traffic (.store allocation index value) = some next) :
    Sound next := by
  simp only [step] at hstep
  split_ifs at hstep with hinside
  rw [Option.some.injEq] at hstep
  subst hstep
  refine ⟨hsound.start, hsound.blank, fun hinitialized ↦ ?_⟩
  obtain ⟨hplaced, row, htiled, hrow, hmatches⟩ := hsound.tiled hinitialized
  obtain ⟨block, hblock, hfits⟩ := hmatches.exists_block hinside.1
  refine ⟨hplaced.congr (sameSetup_setWord _ _ _), row, ?_, hrow, hmatches⟩
  have hpointer := hfits.1
  have hlarge := hfits.2
  simp only [blockHeaderSize] at hpointer hlarge
  refine htiled.store hblock ?_ ?_ value
  · simp only [blockHeaderSize]
    omega
  · omega

/-- Every event keeps the invariant. -/
theorem Sound.step {traffic next : Traffic} {event : Event} (hsound : Sound traffic)
    (hstep : step traffic event = some next) : Sound next := by
  cases event with
  | malloc machine nbytes => exact hsound.malloc hstep
  | free pointer => exact hsound.free hstep
  | store allocation index value => exact hsound.store hstep

theorem sound_boot (word : ℕ → ℕ) : Sound ⟨boot word, []⟩ :=
  ⟨Nat.zero_lt_succ _, fun _ ↦ rfl, fun hinitialized ↦ absurd hinitialized Bool.false_ne_true⟩

/-! ### The invariant over the headers in memory -/

/-- The offsets reached from a first one through the links, up to the one that links to nothing. -/
def Reached (heap : State) : ℕ → List ℕ → Prop
  | current, [] => current = noBlock
  | current, offset :: offsets =>
    current ≠ noBlock ∧ offset = current ∧ Reached heap (header heap current).next offsets

def payloadEnd (heap : State) (pointer : ℕ) : ℕ :=
  pointer - blockHeaderSize +
    (header heap (pointer - heap.heapStart - blockHeaderSize)).size

/-- The blocks reached from offset zero tile the heap, no two neighbours are free, and the live
allocations own disjoint payloads inside the heap that are as long as requested. -/
structure Invariant (traffic : Traffic) (offsets : List ℕ) : Prop where
  reached : Reached traffic.heap 0 offsets
  next : ∀ offset ∈ offsets, (header traffic.heap offset).next =
    if offset + (header traffic.heap offset).size = traffic.heap.heapSize then noBlock
    else offset + (header traffic.heap offset).size
  covered : (offsets.map fun offset ↦ (header traffic.heap offset).size).sum = traffic.heap.heapSize
  increasing : offsets.Pairwise fun first second ↦ first < second
  large : ∀ offset ∈ offsets, blockHeaderSize ≤ (header traffic.heap offset).size
  valid : ∀ offset ∈ offsets, validateBlock traffic.heap offset = true
  noFreePair : offsets.IsChain fun first second ↦
    (header traffic.heap first).used ≠ 0 ∨ (header traffic.heap second).used ≠ 0
  owned : ∀ allocation ∈ traffic.live, ∃ offset ∈ offsets,
    allocation.1 = traffic.heap.heapStart + offset + blockHeaderSize ∧
      (header traffic.heap offset).used ≠ 0
  inside : ∀ allocation ∈ traffic.live, traffic.heap.heapStart ≤ allocation.1 ∧
    allocation.1 + allocation.2 ≤ payloadEnd traffic.heap allocation.1 ∧
      payloadEnd traffic.heap allocation.1 ≤ traffic.heap.heapStart + traffic.heap.heapSize
  disjoint : traffic.live.Pairwise fun first second ↦
    payloadEnd traffic.heap first.1 ≤ second.1 ∨ payloadEnd traffic.heap second.1 ≤ first.1

/-- The blocks that the headers link are those of the row. -/
theorem Tiled.reached {heap : State} (hbelow : heap.heapSize < noBlock) {offset : ℕ}
    {row : List Segment} (htiled : Tiled heap offset row heap.heapSize) :
    Reached heap (linkAfter heap.heapSize offset) (blockOffsets offset row) := by
  induction row generalizing offset with
  | nil =>
    rw [show offset = heap.heapSize from htiled, linkAfter_self]
    rfl
  | cons segment row ih =>
    have hinside := htiled.1.inside
    have hlarge : 16 ≤ segment.size := htiled.1.large
    rw [linkAfter_of_lt (by omega)]
    refine ⟨by omega, rfl, ?_⟩
    rw [htiled.1.next]
    exact ih htiled.2

/-- A block that the row starts at an offset has its header there. -/
theorem Tiled.exists_blockAt {heap : State} {base stop : ℕ} {row : List Segment}
    (htiled : Tiled heap base row stop) {offset : ℕ} (hoffset : offset ∈ blockOffsets base row) :
    ∃ segment, BlockAt heap offset segment := by
  induction row generalizing base with
  | nil => simp [blockOffsets] at hoffset
  | cons segment row ih =>
    rcases List.mem_cons.mp hoffset with rfl | hrest
    · exact ⟨segment, htiled.1⟩
    · exact ih htiled.2 hrest

theorem Tiled.map_size {heap : State} {base stop : ℕ} {row : List Segment}
    (htiled : Tiled heap base row stop) :
    (blockOffsets base row).map (fun offset ↦ (header heap offset).size) =
      row.map Segment.size := by
  induction row generalizing base with
  | nil => rfl
  | cons segment row ih =>
    simp only [blockOffsets, List.map_cons, htiled.1.size]
    rw [ih htiled.2]

/-- A row without free neighbours has headers without free neighbours. -/
theorem Tiled.noFreePair {heap : State} {base stop : ℕ} {row : List Segment}
    (htiled : Tiled heap base row stop) (hrow : NoFreePair row) :
    (blockOffsets base row).IsChain fun first second ↦
      (header heap first).used ≠ 0 ∨ (header heap second).used ≠ 0 := by
  induction row generalizing base with
  | nil => simp [blockOffsets]
  | cons segment row ih =>
    obtain ⟨hhead, hrest⟩ := List.isChain_cons.mp hrow
    refine List.isChain_cons.mpr ⟨fun offset hoffset ↦ ?_, ih htiled.2 hrest⟩
    cases row with
    | nil => simp [blockOffsets] at hoffset
    | cons next row =>
      simp only [blockOffsets, List.head?_cons, Option.mem_def, Option.some.injEq] at hoffset
      subst hoffset
      rw [Ne, Ne, htiled.1.used, htiled.2.1.used]
      simpa using hhead next rfl

/-- A used segment of the row is a block that the headers describe. -/
theorem Tiled.blockAt_of_mem {heap : State} {row : List Segment}
    (htiled : Tiled heap 0 row heap.heapSize) {block : ℕ × ℕ} (hblock : block ∈ usedBlocks 0 row) :
    block.1 ∈ blockOffsets 0 row ∧ BlockAt heap block.1 ⟨block.2, true⟩ := by
  obtain ⟨before, after, rfl, hoffset⟩ := exists_split_of_mem_usedBlocks hblock
  rw [Nat.zero_add] at hoffset
  refine ⟨?_, hoffset ▸ htiled.blockAt⟩
  rw [hoffset, blockOffsets_append]
  simp [blockOffsets]

/-- Whatever holds between the segments of two live allocations holds between the allocations. -/
theorem Matches.pairwise {heapStart : ℕ} {live : List (ℕ × ℕ)} {row : List Segment}
    (hmatches : Matches heapStart live row) :
    live.Pairwise fun first second ↦ ∃ block ∈ usedBlocks 0 row, ∃ other ∈ usedBlocks 0 row,
      Fits heapStart first block ∧ Fits heapStart second other ∧
        (block.1 + block.2 ≤ other.1 ∨ other.1 + other.2 ≤ block.1) := by
  obtain ⟨blocks, hlive, hperm⟩ := hmatches
  have hblocks : blocks.Pairwise fun block other ↦
      block.1 + block.2 ≤ other.1 ∨ other.1 + other.2 ≤ block.1 :=
    (hperm.pairwise_iff fun hdisjoint ↦ hdisjoint.symm).mpr
      ((pairwise_usedBlocks 0 row).imp Or.inl)
  have hmem : ∀ block ∈ blocks, block ∈ usedBlocks 0 row := fun block hblock ↦
    hperm.subset hblock
  clear hperm
  induction hlive with
  | nil => exact .nil
  | @cons allocation block live blocks hfits hlive ih =>
    obtain ⟨hhead, hrest⟩ := List.pairwise_cons.mp hblocks
    refine List.pairwise_cons.mpr ⟨fun second hsecond ↦ ?_,
      ih hrest fun other hother ↦ hmem other (List.mem_cons_of_mem block hother)⟩
    obtain ⟨before, after, rfl⟩ := List.append_of_mem hsecond
    obtain ⟨first, other, later, rfl, -, hother, -⟩ := forall₂_split hlive
    exact ⟨block, hmem block List.mem_cons_self, other, hmem other (by simp), hfits, hother,
      hhead other (by simp)⟩

/-- The invariant of the row, read off the headers. -/
theorem Sound.invariant {traffic : Traffic} (hsound : Sound traffic)
    (hinitialized : traffic.heap.memoryInitialized = true) :
    ∃ offsets, Invariant traffic offsets := by
  obtain ⟨hplaced, row, htiled, hrow, hmatches⟩ := hsound.tiled hinitialized
  have hlarge : 0x40000 ≤ traffic.heap.heapSize := hplaced.large
  have habove := hplaced.above
  have hbelow := hplaced.below
  have hend {block : ℕ × ℕ} {allocation : ℕ × ℕ} (hblock : block ∈ usedBlocks 0 row)
      (hfits : Fits traffic.heap.heapStart allocation block) :
      payloadEnd traffic.heap allocation.1 = traffic.heap.heapStart + block.1 + block.2 := by
    have hat := (htiled.blockAt_of_mem hblock).2
    have hpointer := hfits.1
    rw [payloadEnd, show allocation.1 - traffic.heap.heapStart - blockHeaderSize = block.1 by omega,
      hat.size]
    dsimp only
    omega
  refine ⟨blockOffsets 0 row, ?_, ?_, ?_, ?_, ?_, ?_, htiled.noFreePair hrow, ?_, ?_, ?_⟩
  · have hreached := htiled.reached (by simp only [noBlock]; omega)
    rwa [linkAfter_of_lt (by omega)] at hreached
  · intro offset hoffset
    obtain ⟨segment, hat⟩ := htiled.exists_blockAt hoffset
    rw [hat.size]
    exact hat.next
  · rw [htiled.map_size]
    have hstop := htiled.stop_eq
    rw [Nat.zero_add] at hstop
    exact hstop.symm
  · exact pairwise_blockOffsets 0 fun segment hsegment ↦
      lt_of_lt_of_le (by decide) (htiled.large segment hsegment)
  · intro offset hoffset
    obtain ⟨segment, hat⟩ := htiled.exists_blockAt hoffset
    rw [hat.size]
    exact hat.large
  · intro offset hoffset
    obtain ⟨segment, hat⟩ := htiled.exists_blockAt hoffset
    exact validateBlock_of_blockAt hplaced hat
  · intro allocation hlive
    obtain ⟨block, hblock, hfits⟩ := hmatches.exists_block hlive
    obtain ⟨hoffset, hat⟩ := htiled.blockAt_of_mem hblock
    refine ⟨block.1, hoffset, hfits.1, ?_⟩
    rw [Ne, hat.used]
    simp
  · intro allocation hlive
    obtain ⟨block, hblock, hfits⟩ := hmatches.exists_block hlive
    have hinside := (htiled.blockAt_of_mem hblock).2.inside
    have hpointer := hfits.1
    have hsize := hfits.2
    rw [hend hblock hfits]
    dsimp only at hinside
    omega
  · refine hmatches.pairwise.imp ?_
    rintro first second ⟨block, hblock, other, hother, hfirst, hsecond, hdisjoint⟩
    rw [hend hblock hfirst, hend hother hsecond]
    have hpointer := hfirst.1
    have hpointer' := hsecond.1
    omega

/-- In every history of the heap the blocks tile it, no two neighbours are free and the live
allocations own disjoint payloads as long as requested; every further call returns. -/
theorem heap_invariant {word : ℕ → ℕ} {events : List Event} {traffic : Traffic}
    (hrun : Run (Fires step) ⟨boot word, []⟩ events traffic) :
    (traffic.heap.memoryInitialized = false → traffic.live = []) ∧
      (traffic.heap.memoryInitialized = true → ∃ offsets, Invariant traffic offsets) ∧
      (∀ machine nbytes, (heapMalloc traffic.heap machine nbytes).isSome = true) ∧
      ∀ allocation ∈ traffic.live, (heapFree traffic.heap allocation.1).isSome = true := by
  have hsound : Sound traffic :=
    hrun.invariant (fun _ _ _ hbefore hlast ↦ hbefore.step hlast) (sound_boot word)
  refine ⟨hsound.blank, hsound.invariant, fun machine nbytes ↦ ?_,
    fun allocation hlive ↦ heapFree_isSome hsound hlive⟩
  obtain ⟨heap, hmalloc, -⟩ := heapMalloc_spec hsound machine nbytes
  rw [hmalloc]
  rfl

/-- A machine with one megabyte of memory, whose boot-time allocations end at four megabytes. -/
def smallMachine : Machine where
  availableRam := 0x100000
  freeFrames := 0
  bootAllocEnd := 0x400000
  kernelEnd := 0

/-- A history that allocates twice, stores, frees the first block and allocates from it again. -/
theorem heap_invariant_reuse :
    ∃ traffic, Run (Fires step) ⟨boot fun _ ↦ 0, []⟩
        [.malloc smallMachine 100, .malloc smallMachine 50, .store (0xC0400010, 100) 24 7,
          .free 0xC0400010, .malloc smallMachine 20] traffic ∧
      traffic.live = [(0xC0400010, 20), (0xC0400084, 50)] ∧
        ∃ offsets, Invariant traffic offsets := by
  have hhistory : (runLabels step ⟨boot fun _ ↦ 0, []⟩
      [.malloc smallMachine 100, .malloc smallMachine 50, .store (0xC0400010, 100) 24 7,
        .free 0xC0400010, .malloc smallMachine 20]).map
        (fun traffic ↦ (traffic.live, traffic.heap.memoryInitialized)) =
      some ([(0xC0400010, 20), (0xC0400084, 50)], true) := by
    decide +kernel
  obtain ⟨traffic, htraffic, hlive⟩ := Option.map_eq_some_iff.mp hhistory
  have hrun := Run.of_runLabels htraffic
  exact ⟨traffic, hrun, congrArg Prod.fst hlive,
    (heap_invariant hrun).2.1 (congrArg Prod.snd hlive)⟩

end EynOS.Memory.Heap
