import EynOS.Foundation.FirstLeast
import EynOS.Memory.HeapRun

/-!
# The block that an allocation takes

`find_free_block` looks for the smallest free block that is large enough and stops after a hundred
blocks. `bestFit_iff` is when `heap_malloc` returns a block just where one is large enough, and the
smallest of these: where it is among the first hundred of the list, or there is none.
`not_bestFit` allocates a hundred small blocks, and the next allocation fails with most of the heap
free.
-/

namespace EynOS.Memory.Heap

open Foundation

/-! ### The smallest block -/

/-- The bytes of a block with room for a request: `total_size`. -/
def totalSize (nbytes : ℕ) : ℕ := u32 (nbytes + blockHeaderSize + 3) / 4 * 4

def blockSize (heap : State) (offset : ℕ) : ℕ := (header heap offset).size

/-- A free block that is large enough. -/
def Suits (heap : State) (needed offset : ℕ) : Prop :=
  (header heap offset).used = 0 ∧ needed ≤ blockSize heap offset

instance (heap : State) (needed offset : ℕ) : Decidable (Suits heap needed offset) :=
  inferInstanceAs (Decidable (_ ∧ _))

/-- The first of the smallest free blocks of a list that are large enough, at its place. -/
def BestFit (heap : State) (needed : ℕ) (offsets : List ℕ) (index offset : ℕ) : Prop :=
  FirstLeast (Suits heap needed) (blockSize heap) offsets index offset

/-- `heap_malloc` returns a block just where one of the list is large enough, and then the best
one. -/
def TakesBestFit (heap : State) (machine : Machine) (ready : State) (nbytes : ℕ)
    (offsets : List ℕ) : Prop :=
  ∃ after pointer, heapMalloc heap machine nbytes = some (after, pointer) ∧
    (pointer ≠ 0 ↔ ∃ offset ∈ offsets, Suits ready (totalSize nbytes) offset) ∧
      (pointer ≠ 0 → ∃ index offset, BestFit ready (totalSize nbytes) offsets index offset ∧
        pointer = ready.heapStart + offset + blockHeaderSize)

/-- The best block of the list, where there is one, is among the first hundred. -/
def WithinScan (heap : State) (needed : ℕ) (offsets : List ℕ) : Prop :=
  ∀ index offset, BestFit heap needed offsets index offset → index < 100

section Scan

variable {heap : State} {needed current bestFit bestSize found offset : ℕ}
  {seen rest offsets : List ℕ} {best : Option (ℕ × ℕ)}

/-- The variables of the loop hold the best block so far. -/
def HoldsBest (seen : List ℕ) (bestFit bestSize : ℕ) : Option (ℕ × ℕ) → Prop
  | none => bestFit = noBlock ∧ bestSize = 0xFFFFFFFF
  | some (index, size) => seen[index]? = some bestFit ∧ bestSize = size

theorem HoldsBest.append (hholds : HoldsBest seen bestFit bestSize best) (offset : ℕ) :
    HoldsBest (seen ++ [offset]) bestFit bestSize best := by
  cases best with
  | none => exact hholds
  | some best =>
    obtain ⟨hplace, hsize⟩ := hholds
    refine ⟨?_, hsize⟩
    rw [List.getElem?_append_left (List.getElem?_eq_some_iff.mp hplace).1]
    exact hplace

theorem HoldsBest.less_iff (hholds : HoldsBest seen bestFit bestSize best)
    (hsmall : blockSize heap offset < 0xFFFFFFFF) :
    blockSize heap offset < bestSize ↔ ∀ found ∈ best, blockSize heap offset < found.2 := by
  cases best with
  | none => simpa [hholds.2] using hsmall
  | some best => simp [hholds.2]

/-- One block of the loop. -/
theorem HoldsBest.next (hholds : HoldsBest seen bestFit bestSize best)
    (hbest : BestSoFar (Suits heap needed) (blockSize heap) seen best)
    (hsmall : blockSize heap offset < 0xFFFFFFFF) :
    ∃ after, BestSoFar (Suits heap needed) (blockSize heap) (seen ++ [offset]) after ∧
      HoldsBest (seen ++ [offset])
        (if Suits heap needed offset ∧ blockSize heap offset < bestSize then offset else bestFit)
        (if Suits heap needed offset ∧ blockSize heap offset < bestSize then blockSize heap offset
          else bestSize) after := by
  by_cases hsuits : Suits heap needed offset
  · by_cases hless : blockSize heap offset < bestSize
    · rw [if_pos ⟨hsuits, hless⟩, if_pos ⟨hsuits, hless⟩]
      exact ⟨_, hbest.improve hsuits ((hholds.less_iff hsmall).mp hless), by simp, rfl⟩
    · rw [if_neg fun hboth ↦ hless hboth.2, if_neg fun hboth ↦ hless hboth.2]
      refine ⟨best, ?_, hholds.append offset⟩
      cases best with
      | none => exact absurd ((hholds.less_iff hsmall).mpr (by simp)) hless
      | some best =>
        exact hbest.keep fun hlt ↦ hless ((hholds.less_iff hsmall).mpr (by simpa using hlt))
  · rw [if_neg fun hboth ↦ hsuits hboth.1, if_neg fun hboth ↦ hsuits hboth.1]
    exact ⟨best, hbest.skip hsuits, hholds.append offset⟩

/-- The loop of `find_free_block` ends with the best of the blocks that it checks. The induction is
on the checks left. -/
theorem findFreeBlockLoop_best (checks : ℕ) :
    ∀ (seen rest : List ℕ) (current bestFit bestSize : ℕ) (best : Option (ℕ × ℕ)),
      Reached heap current rest →
        (∀ offset ∈ rest, validateBlock heap offset = true ∧ blockSize heap offset < 0xFFFFFFFF) →
          BestSoFar (Suits heap needed) (blockSize heap) seen best →
            HoldsBest seen bestFit bestSize best →
              ∃ found size after,
                findFreeBlockLoop heap needed checks current bestFit bestSize = (heap, found) ∧
                  BestSoFar (Suits heap needed) (blockSize heap) (seen ++ rest.take checks) after ∧
                    HoldsBest (seen ++ rest.take checks) found size after := by
  induction checks with
  | zero =>
    intro seen rest current bestFit bestSize best _ _ hbest hholds
    rw [List.take_zero, List.append_nil]
    exact ⟨bestFit, bestSize, best, rfl, hbest, hholds⟩
  | succ checks ih =>
    intro seen rest current bestFit bestSize best hreached hvalid hbest hholds
    cases rest with
    | nil =>
      have hend : current = noBlock := hreached
      rw [List.take_nil, List.append_nil, findFreeBlockLoop, if_pos hend]
      exact ⟨bestFit, bestSize, best, rfl, hbest, hholds⟩
    | cons offset rest =>
      obtain ⟨hsome, rfl, hnext⟩ := hreached
      obtain ⟨hfirst, hsmall⟩ := hvalid offset List.mem_cons_self
      obtain ⟨after, hafter, hvars⟩ := hholds.next hbest hsmall
      have hrest := ih (seen ++ [offset]) rest _ _ _ after hnext
        (fun other hother ↦ hvalid other (List.mem_cons_of_mem _ hother)) hafter hvars
      rw [List.append_assoc, List.singleton_append, ← List.take_succ_cons] at hrest
      obtain ⟨found, size, last, hloop, hlast, hheld⟩ := hrest
      refine ⟨found, size, last, ?_, hlast, hheld⟩
      rw [← hloop, findFreeBlockLoop, if_neg hsome, if_pos hfirst]
      by_cases hboth : Suits heap needed offset ∧ blockSize heap offset < bestSize
      · rw [if_pos hboth, if_pos hboth]
        exact if_pos ⟨hboth.1.1, hboth.1.2, hboth.2⟩
      · rw [if_neg hboth, if_neg hboth]
        exact if_neg fun hall ↦ hboth ⟨⟨hall.1, hall.2.1⟩, hall.2.2⟩

/-- `find_free_block` finds the best of the first hundred blocks. -/
theorem findFreeBlock_best (hreached : Reached heap firstBlock offsets)
    (hvalid : ∀ offset ∈ offsets,
      validateBlock heap offset = true ∧ blockSize heap offset < 0xFFFFFFFF) (needed : ℕ) :
    (findFreeBlock heap needed = (heap, noBlock) ∧
        ∀ offset ∈ offsets.take 100, ¬Suits heap needed offset) ∨
      ∃ index found, findFreeBlock heap needed = (heap, found) ∧
        BestFit heap needed (offsets.take 100) index found := by
  obtain ⟨found, size, best, hloop, hbest, hheld⟩ := findFreeBlockLoop_best 100
    [] offsets firstBlock noBlock 0xFFFFFFFF none hreached hvalid bestSoFar_nil ⟨rfl, rfl⟩
  rw [List.nil_append] at hbest hheld
  cases best with
  | none => exact Or.inl ⟨hheld.1 ▸ hloop, hbest⟩
  | some best =>
    obtain ⟨offset, hleast, -⟩ := hbest
    obtain rfl := Option.some.inj (hleast.place.symm.trans hheld.1)
    exact Or.inr ⟨best.1, offset, hloop, hleast⟩

/-- The blocks that are reached from one are determined. -/
theorem Reached.unique {others : List ℕ} (hoffsets : Reached heap current offsets)
    (hothers : Reached heap current others) : offsets = others := by
  induction offsets generalizing current others with
  | nil =>
    cases others with
    | nil => rfl
    | cons other others => exact absurd hoffsets hothers.1
  | cons offset offsets ih =>
    obtain ⟨hsome, rfl, hnext⟩ := hoffsets
    cases others with
    | nil => exact absurd hothers hsome
    | cons other others =>
      obtain ⟨-, rfl, hrest⟩ := hothers
      rw [ih hnext hrest]

/-- A place of the row and the offset in the same place. -/
theorem Tiled.getElem?_blockOffsets {base stop : ℕ} {row : List Segment}
    (htiled : Tiled heap base row stop) {index : ℕ}
    (hoffset : (blockOffsets base row)[index]? = some offset) :
    ∃ segment, row[index]? = some segment ∧ BlockAt heap offset segment := by
  induction row generalizing base index with
  | nil => simp [blockOffsets] at hoffset
  | cons segment row ih =>
    cases index with
    | zero =>
      rw [blockOffsets, List.getElem?_cons_zero, Option.some.injEq] at hoffset
      exact ⟨segment, rfl, hoffset ▸ htiled.1⟩
    | succ index =>
      rw [blockOffsets, List.getElem?_cons_succ] at hoffset
      exact ih htiled.2 hoffset

end Scan

/-! ### Allocations -/

section Allocations

variable {heap ready : State} {machine : Machine} {nbytes found offset index : ℕ}
  {offsets : List ℕ} {row : List Segment}

@[simp] theorem splitBlock_heapStart (heap : State) (blockOffset needed : ℕ) :
    (splitBlock heap blockOffset needed).heapStart = heap.heapStart := by
  simp only [splitBlock]
  split_ifs
  · rfl
  · rw [setWord_heapStart, setWord_heapStart]
    exact (sameSetup_setHeader heap _ _).heapStart

theorem allocate_pointer (hstart : heap.heapStart ≠ 0) (hsome : 0 < nbytes)
    (hlarge : nbytes ≤ u32 (heap.heapSize * 9) / 10)
    (hfind : findFreeBlock heap (totalSize nbytes) = (heap, found)) :
    (allocate heap nbytes).2 =
      if found = noBlock then 0 else u32 (heap.heapStart + found + blockHeaderSize) := by
  rw [totalSize] at hfind
  unfold allocate
  rw [if_neg (by omega), if_neg (by omega), if_neg hstart, hfind]
  dsimp only
  split_ifs
  · rfl
  · simp

/-- The blocks of a set-up heap are valid and start where it covers them. -/
theorem valid_of_tiled (hplaced : Placed heap) (htiled : Tiled heap 0 row heap.heapSize)
    (hoffset : offset ∈ blockOffsets 0 row) :
    validateBlock heap offset = true ∧ blockSize heap offset < 0xFFFFFFFF ∧
      offset + 16 ≤ heap.heapSize := by
  obtain ⟨segment, hat⟩ := htiled.exists_blockAt hoffset
  have hinside := hat.inside
  have hlarge : 16 ≤ segment.size := hat.large
  have hbelow := hplaced.below
  have habove := hplaced.above
  refine ⟨validateBlock_of_blockAt hplaced hat, ?_, by omega⟩
  rw [blockSize, hat.size]
  omega

/-- The list of the blocks of a set-up heap. -/
theorem reached_of_tiled (hplaced : Placed heap) (htiled : Tiled heap 0 row heap.heapSize) :
    Reached heap firstBlock (blockOffsets 0 row) := by
  have hbelow := hplaced.below
  have habove := hplaced.above
  have hlarge : 0x40000 ≤ heap.heapSize := hplaced.large
  have hreached := htiled.reached (by simp only [noBlock]; omega)
  rwa [linkAfter_of_lt (by omega)] at hreached

/-- An allocation from a set-up heap takes the best block just where it is within the scan. -/
theorem takesBestFit_iff (hready : readyHeap heap machine = some ready)
    (hinitialized : ready.memoryInitialized = true) (hplaced : Placed ready)
    (htiled : Tiled ready 0 row ready.heapSize) (hsome : 0 < nbytes)
    (hlarge : nbytes ≤ u32 (ready.heapSize * 9) / 10) :
    TakesBestFit heap machine ready nbytes (blockOffsets 0 row) ↔
      WithinScan ready (totalSize nbytes) (blockOffsets 0 row) := by
  have hbelow := hplaced.below
  have habove := hplaced.above
  have hmalloc : heapMalloc heap machine nbytes = some (allocate ready nbytes) := by
    rw [heapMalloc_eq, hready, Option.map_some, if_pos hinitialized]
  have hpointer {found : ℕ} (hfind : findFreeBlock ready (totalSize nbytes) = (ready, found)) :=
    allocate_pointer (by omega) hsome hlarge hfind
  have hvalid (offset : ℕ) (hoffset : offset ∈ blockOffsets 0 row) :=
    valid_of_tiled hplaced htiled hoffset
  rcases findFreeBlock_best (reached_of_tiled hplaced htiled)
    (fun offset hoffset ↦ ⟨(hvalid offset hoffset).1, (hvalid offset hoffset).2.1⟩)
    (totalSize nbytes) with ⟨hfind, hnone⟩ | ⟨place, found, hfind, hbest⟩
  · -- no block of the first hundred is large enough
    have hnull : (allocate ready nbytes).2 = 0 := by rw [hpointer hfind, if_pos rfl]
    have hlate (index offset : ℕ)
        (hfit : BestFit ready (totalSize nbytes) (blockOffsets 0 row) index offset) :
        ¬index < 100 := by
      intro hindex
      have hearly := FirstLeast.take hfit hindex
      exact hnone offset (List.mem_of_getElem? hearly.place) hearly.ofKind
    constructor
    · rintro ⟨after, pointer, hresult, hiff, -⟩ index offset hfit
      have heq := congrArg Prod.snd (Option.some.inj (hmalloc.symm.trans hresult))
      have hzero : pointer = 0 := heq.symm.trans hnull
      exact absurd hzero (hiff.mpr ⟨offset, List.mem_of_getElem? hfit.place, hfit.ofKind⟩)
    · intro hscan
      refine ⟨_, _, hmalloc, ?_, fun hnonzero ↦ absurd hnull hnonzero⟩
      refine ⟨fun hnonzero ↦ absurd hnull hnonzero, ?_⟩
      rintro ⟨offset, hoffset, hsuits⟩
      obtain ⟨index, other, hfit⟩ := exists_firstLeast hoffset hsuits (blockSize ready)
      exact absurd (hscan index other hfit) (hlate index other hfit)
  · have hmem : found ∈ blockOffsets 0 row :=
      List.mem_of_mem_take (List.mem_of_getElem? hbest.place)
    obtain ⟨-, -, hinside⟩ := hvalid found hmem
    have hblock : found ≠ noBlock := by
      simp only [noBlock]
      omega
    have hsum : u32 (ready.heapStart + found + blockHeaderSize) =
        ready.heapStart + found + blockHeaderSize :=
      u32_of_lt _ (by simp only [blockHeaderSize]; omega)
    have hreturned : (allocate ready nbytes).2 = ready.heapStart + found + blockHeaderSize := by
      rw [hpointer hfind, if_neg hblock, hsum]
    have hnonzero : (allocate ready nbytes).2 ≠ 0 := by
      rw [hreturned]
      omega
    constructor
    · rintro ⟨after, pointer, hresult, -, htaken⟩ index offset hfit
      have heq : (allocate ready nbytes).2 = pointer :=
        congrArg Prod.snd (Option.some.inj (hmalloc.symm.trans hresult))
      obtain ⟨index', offset', hfit', hpointerEq⟩ := htaken (heq ▸ hnonzero)
      obtain ⟨rfl, rfl⟩ := FirstLeast.unique hfit hfit'
      have hsame : offset = found := by
        have hall := (hreturned.symm.trans heq).trans hpointerEq
        omega
      subst hsame
      -- the block that is found is not repeated later in the list
      by_contra hlate
      have hplace := hbest.place
      have hearly : place < 100 := by
        have hlength := FirstLeast.lt_length hbest
        rw [List.length_take] at hlength
        omega
      rw [List.getElem?_take_of_lt hearly] at hplace
      exact absurd (hfit.first place (by omega) offset hplace hbest.ofKind) (lt_irrefl _)
    · intro hscan
      obtain ⟨index, offset, hfit⟩ := exists_firstLeast hmem hbest.ofKind (blockSize ready)
      obtain ⟨-, rfl⟩ := FirstLeast.unique (FirstLeast.take hfit (hscan index offset hfit)) hbest
      exact ⟨_, _, hmalloc, ⟨fun _ ↦ ⟨offset, hmem, hbest.ofKind⟩, fun _ ↦ hnonzero⟩,
        fun _ ↦ ⟨index, offset, hfit, hreturned⟩⟩

end Allocations

/-! ### Runs -/

/-- After every history of the heap, an allocation of at most nine tenths of it returns a block just
where a free one is large enough, and the first of the smallest of these, if and only if that one,
where there is one, is among the first hundred of the list. -/
theorem bestFit_iff {word : ℕ → ℕ} {events : List Event} {traffic : Traffic} {machine : Machine}
    {ready : State} {nbytes : ℕ} {offsets : List ℕ}
    (hrun : Run (Fires step) ⟨boot word, []⟩ events traffic)
    (hready : readyHeap traffic.heap machine = some ready)
    (hinitialized : ready.memoryInitialized = true)
    (hoffsets : Reached ready firstBlock offsets) (hsome : 0 < nbytes)
    (hlarge : nbytes ≤ u32 (ready.heapSize * 9) / 10) :
    TakesBestFit traffic.heap machine ready nbytes offsets ↔
      WithinScan ready (totalSize nbytes) offsets := by
  have hsound : Sound traffic :=
    hrun.invariant (fun _ _ _ hbefore hlast ↦ hbefore.step hlast) (sound_boot word)
  obtain ⟨other, hother, hreadySound⟩ := readyHeap_spec hsound machine
  obtain rfl := Option.some.inj (hother.symm.trans hready)
  obtain ⟨hplaced, row, htiled, -, -⟩ := hreadySound.tiled hinitialized
  obtain rfl := hoffsets.unique (reached_of_tiled hplaced htiled)
  exact takesBestFit_iff hready hinitialized hplaced htiled hsome hlarge

/-! ### A heap with many small blocks -/

section Crowded

/-- A row of small used segments with one free segment behind them. -/
def crowded (count size : ℕ) : List Segment := List.replicate count ⟨32, true⟩ ++ [⟨size, false⟩]

variable {heap : State} {count size : ℕ}

theorem rowSize_replicate (count : ℕ) :
    rowSize (List.replicate count ⟨32, true⟩) = 32 * count := by
  induction count with
  | zero => rfl
  | succ count ih =>
    rw [List.replicate_succ, rowSize_cons, ih]
    dsimp only
    omega

/-- The free segment of such a row is the last one. -/
theorem crowded_eq_append {before after : List Segment} {other : ℕ}
    (hrow : crowded count size = before ++ ⟨other, false⟩ :: after) :
    before = List.replicate count ⟨32, true⟩ ∧ other = size ∧ after = [] := by
  have hplace : (crowded count size)[before.length]? = some ⟨other, false⟩ := by
    rw [hrow]
    simp
  have hlength : before.length = count := by
    rcases lt_trichotomy before.length count with hlt | heq | hgt
    · rw [crowded, List.getElem?_append_left (by simpa using hlt)] at hplace
      have hused := List.eq_of_mem_replicate (List.mem_of_getElem? hplace)
      simp at hused
    · exact heq
    · have hbound := (List.getElem?_eq_some_iff.mp hplace).1
      simp only [crowded, List.length_append, List.length_replicate,
        List.length_singleton] at hbound
      omega
  obtain ⟨hbefore, hrest⟩ := List.append_inj hrow (by simp [hlength])
  simp only [List.cons.injEq, Segment.mk.injEq, and_true] at hrest
  exact ⟨hbefore.symm, hrest.1.symm, hrest.2.symm⟩

theorem length_blockOffsets (base : ℕ) (row : List Segment) :
    (blockOffsets base row).length = row.length := by
  induction row generalizing base with
  | nil => rfl
  | cons segment row ih => rw [blockOffsets, List.length_cons, List.length_cons, ih]

/-- The free segment of such a row has room for a small block, and is at the last place. -/
theorem suits_crowded (htiled : Tiled heap 0 (crowded count size) heap.heapSize)
    (hsize : 32 ≤ size) :
    (blockOffsets 0 (crowded count size))[count]? = some (32 * count) ∧
      Suits heap 32 (32 * count) := by
  have hlast : BlockAt heap (32 * count) ⟨size, false⟩ := by
    have hat := Tiled.blockAt htiled
    rwa [rowSize_replicate] at hat
  refine ⟨?_, hlast.used.mpr rfl, ?_⟩
  · rw [crowded, blockOffsets_append, Nat.zero_add, rowSize_replicate,
      List.getElem?_append_right (by rw [length_blockOffsets, List.length_replicate]),
      length_blockOffsets, List.length_replicate, Nat.sub_self]
    rfl
  · rw [blockSize, hlast.size]
    exact hsize

/-- A small allocation is taken from the free segment, while it is within the scan. -/
theorem allocate_crowded (hplaced : Placed heap)
    (htiled : Tiled heap 0 (crowded count size) heap.heapSize) (hcount : count < 100)
    (hsize : 64 ≤ size) (hlarge : 16 ≤ u32 (heap.heapSize * 9) / 10) :
    ∃ other pointer, allocate heap 16 = (other, pointer) ∧ SameSetup heap other ∧
      Tiled other 0 (crowded (count + 1) (size - 32)) other.heapSize := by
  have hbelow := hplaced.below
  have habove := hplaced.above
  have hvalid (offset : ℕ) (hoffset : offset ∈ blockOffsets 0 (crowded count size)) :=
    valid_of_tiled hplaced htiled hoffset
  obtain ⟨hplaceLast, hsuits⟩ := suits_crowded htiled (by omega)
  have hfind : findFreeBlock heap 32 = (heap, rowSize (List.replicate count ⟨32, true⟩)) := by
    obtain ⟨found, hfound, hcases⟩ := findFreeBlock_spec hplaced htiled 32
    rw [hfound]
    rcases hcases with rfl | ⟨before, other, after, hrow, rfl, -⟩
    · -- the free segment is among the first hundred
      exfalso
      rcases findFreeBlock_best (reached_of_tiled hplaced htiled)
        (fun offset hoffset ↦ ⟨(hvalid offset hoffset).1, (hvalid offset hoffset).2.1⟩) 32 with
        ⟨-, hnone⟩ | ⟨place, found, hother, hbest⟩
      · rw [← List.getElem?_take_of_lt hcount] at hplaceLast
        exact hnone (32 * count) (List.mem_of_getElem? hplaceLast) hsuits
      · have hinside :=
          (hvalid found (List.mem_of_mem_take (List.mem_of_getElem? hbest.place))).2.2
        have hsame := congrArg Prod.snd (hfound.symm.trans hother)
        simp only [noBlock] at hsame
        omega
    · rw [(crowded_eq_append hrow).1]
  obtain ⟨other, kept, tail, hallocate, hsetup, hkept, -, htailSize, htail, hexact⟩ :=
    allocate_found hplaced htiled (by decide : 16 ≠ 0) (by omega) hfind (by omega)
  refine ⟨other, _, hallocate, hsetup, ?_⟩
  obtain rfl : kept = 32 := hexact (by simp only [blockHeaderSize, minBlockSize]; omega)
  rcases htail with rfl | ⟨rest, rfl⟩
  · rw [rowSize_nil] at htailSize
    omega
  · rw [rowSize_cons, rowSize_nil] at htailSize
    dsimp only at htailSize
    obtain rfl : rest = size - 32 := by omega
    rw [crowded, List.replicate_succ', List.append_assoc]
    exact hkept

/-- A row of free segments without two neighbours is one segment. -/
theorem eq_singleton_of_free {row : List Segment} (hpositive : 0 < rowSize row)
    (hrow : NoFreePair row) (hfree : usedBlocks 0 row = []) :
    row = [⟨rowSize row, false⟩] := by
  have hall (segment : Segment) (hsegment : segment ∈ row) : segment.used = false := by
    by_contra hused
    rw [Bool.not_eq_false] at hused
    obtain ⟨before, after, rfl⟩ := List.append_of_mem hsegment
    rw [usedBlocks_append, usedBlocks, if_pos hused] at hfree
    simp at hfree
  cases row with
  | nil => simp at hpositive
  | cons first row =>
    cases row with
    | nil =>
      obtain ⟨size, used⟩ := first
      simpa using hall _ List.mem_cons_self
    | cons second row =>
      rcases (List.isChain_cons_cons.mp hrow).1 with hfirst | hsecond
      · exact absurd ((hall first List.mem_cons_self).symm.trans hfirst) Bool.false_ne_true
      · have hmem : second ∈ first :: second :: row := List.mem_cons_of_mem _ List.mem_cons_self
        exact absurd ((hall second hmem).symm.trans hsecond) Bool.false_ne_true

/-- The heap of a machine with one megabyte of memory is set up with one free block of half of
it. -/
theorem exists_ready :
    ∃ ready, readyHeap (boot fun _ ↦ 0) smallMachine = some ready ∧
      ready.memoryInitialized = true ∧ ready.heapSize = 0x80000 ∧ Placed ready ∧
        Tiled ready 0 (crowded 0 0x80000) ready.heapSize := by
  obtain ⟨ready, hready, hsound⟩ := readyHeap_spec (sound_boot fun _ ↦ 0) smallMachine
  have hfacts : (readyHeap (boot fun _ ↦ 0) smallMachine).map
      (fun heap ↦ (heap.memoryInitialized, heap.heapSize)) = some (true, 0x80000) := by
    decide +kernel
  have hpair : (ready.memoryInitialized, ready.heapSize) = (true, 0x80000) := by
    have hready' : readyHeap (boot fun _ ↦ 0) smallMachine = some ready := hready
    rw [hready', Option.map_some] at hfacts
    exact Option.some.inj hfacts
  obtain ⟨hinitialized, hheapSize⟩ := Prod.mk.inj hpair
  obtain ⟨hplaced, row, htiled, hrow, blocks, hlive, hperm⟩ := hsound.tiled hinitialized
  have hstop := htiled.stop_eq
  have hused : usedBlocks 0 row = [] := by
    obtain rfl := List.forall₂_nil_left_iff.mp hlive
    exact List.nil_perm.mp hperm
  have hsize : rowSize row = 0x80000 := by
    dsimp only at hstop hheapSize
    omega
  have hsingle := eq_singleton_of_free (by omega) hrow hused
  rw [hsize] at hsingle
  refine ⟨ready, hready, hinitialized, hheapSize, hplaced, ?_⟩
  rw [hsingle] at htiled
  exact htiled

/-- A history after which as many small blocks as are scanned are used in front of the free one. -/
theorem exists_crowded (hcount : count ≤ 100) :
    ∃ events traffic, Run (Fires step) ⟨boot fun _ ↦ 0, []⟩ events traffic ∧
      traffic.heap.memoryInitialized = true ∧ traffic.heap.heapSize = 0x80000 ∧
        Placed traffic.heap ∧
          Tiled traffic.heap 0 (crowded count (0x80000 - 32 * count)) traffic.heap.heapSize := by
  induction count with
  | zero =>
    obtain ⟨ready, hready, hinitialized, hheapSize, hplaced, htiled⟩ := exists_ready
    refine ⟨[.malloc smallMachine 0], ⟨ready, []⟩, .snoc .refl ?_, hinitialized, hheapSize,
      hplaced, htiled⟩
    rw [Fires, step, heapMalloc_eq]
    dsimp only
    rw [hready, Option.map_some, if_pos hinitialized, allocate, if_pos rfl]
    rfl
  | succ count ih =>
    obtain ⟨events, traffic, hrun, hinitialized, hheapSize, hplaced, htiled⟩ := ih (by omega)
    obtain ⟨other, pointer, hallocate, hsetup, hafter⟩ :=
      allocate_crowded hplaced htiled (by omega) (by omega) (by rw [hheapSize]; decide)
    refine ⟨events ++ [.malloc smallMachine 16],
      ⟨other, if pointer = 0 then traffic.live else (pointer, 16) :: traffic.live⟩,
      .snoc hrun ?_, hsetup.memoryInitialized.trans hinitialized,
      hsetup.heapSize.trans hheapSize, hplaced.congr hsetup, ?_⟩
    · rw [Fires, step, heapMalloc_eq, readyHeap, if_pos hinitialized, Option.map_some,
        if_pos hinitialized, hallocate]
      rfl
    · rwa [show 0x80000 - 32 * (count + 1) = 0x80000 - 32 * count - 32 by omega]

end Crowded

/-- Four allocations, of which the first and the third are freed. -/
def freedEvents : List Event :=
  [.malloc smallMachine 100, .malloc smallMachine 50, .malloc smallMachine 40,
    .malloc smallMachine 30, .free 0xC0400010, .free 0xC04000C8]

/-- With three free blocks an allocation takes the smallest one, which is not the first. -/
theorem bestFit_first :
    ∃ traffic, Run (Fires step) ⟨boot fun _ ↦ 0, []⟩ freedEvents traffic ∧
      ([0, 116, 184, 240, 288].map fun offset ↦
        ((header traffic.heap offset).used, blockSize traffic.heap offset)) =
          [(0, 116), (1, 68), (0, 56), (1, 48), (0, 0x80000 - 288)] ∧
        TakesBestFit traffic.heap smallMachine traffic.heap 20 [0, 116, 184, 240, 288] := by
  have hhistory : (runLabels step ⟨boot fun _ ↦ 0, []⟩ freedEvents).map
      (fun traffic ↦ ((traffic.heap.memoryInitialized, traffic.heap.heapSize),
        [0, 116, 184, 240, 288].map fun offset ↦ (header traffic.heap offset).next,
        [0, 116, 184, 240, 288].map fun offset ↦
          ((header traffic.heap offset).used, blockSize traffic.heap offset))) =
      some ((true, 0x80000), [116, 184, 240, 288, noBlock],
        [(0, 116), (1, 68), (0, 56), (1, 48), (0, 0x80000 - 288)]) := by
    decide +kernel
  obtain ⟨traffic, htraffic, hfacts⟩ := Option.map_eq_some_iff.mp hhistory
  have hrun := Run.of_runLabels htraffic
  simp only [Prod.mk.injEq, List.map_cons, List.map_nil, List.cons.injEq, and_true] at hfacts
  obtain ⟨⟨hinitialized, hheapSize⟩, ⟨hfirst, hsecond, hthird, hfourth, hlast⟩, hblocks⟩ := hfacts
  have hreached : Reached traffic.heap firstBlock [0, 116, 184, 240, 288] := by
    simp only [Reached, firstBlock, hfirst, hsecond, hthird, hfourth, hlast]
    decide
  refine ⟨traffic, hrun, by simpa using hblocks, (bestFit_iff hrun (if_pos hinitialized)
    hinitialized hreached (by decide) (by rw [hheapSize]; decide)).mpr ?_⟩
  intro index offset hfit
  exact (FirstLeast.lt_length hfit).trans (by decide)

/-- After a hundred small allocations the next one fails, though a free block is large enough. -/
theorem not_bestFit :
    ¬∀ (word : ℕ → ℕ) (events : List Event) (traffic : Traffic) (machine : Machine) (ready : State)
      (nbytes : ℕ) (offsets : List ℕ), Run (Fires step) ⟨boot word, []⟩ events traffic →
        readyHeap traffic.heap machine = some ready → ready.memoryInitialized = true →
          Reached ready firstBlock offsets → 0 < nbytes →
            nbytes ≤ u32 (ready.heapSize * 9) / 10 →
              TakesBestFit traffic.heap machine ready nbytes offsets := by
  intro hclaim
  obtain ⟨events, traffic, hrun, hinitialized, hheapSize, hplaced, htiled⟩ :=
    exists_crowded (le_refl 100)
  have hready : readyHeap traffic.heap smallMachine = some traffic.heap := if_pos hinitialized
  have hlarge : 16 ≤ u32 (traffic.heap.heapSize * 9) / 10 := by
    rw [hheapSize]
    decide
  have hscan := (takesBestFit_iff hready hinitialized hplaced htiled (by decide) hlarge).mp
    (hclaim _ events traffic smallMachine traffic.heap 16 _ hrun hready hinitialized
      (reached_of_tiled hplaced htiled) (by decide) hlarge)
  obtain ⟨hplace, hsuits⟩ := suits_crowded htiled (by decide)
  obtain ⟨index, offset, hfit⟩ :=
    exists_firstLeast (List.mem_of_getElem? hplace) hsuits (blockSize traffic.heap)
  obtain ⟨segment, hsegment, hat⟩ := htiled.getElem?_blockOffsets hfit.place
  rw [crowded, List.getElem?_append_left (by simpa using hscan index offset hfit)] at hsegment
  obtain rfl := List.eq_of_mem_replicate (List.mem_of_getElem? hsegment)
  exact absurd (hat.used.mp hfit.ofKind.1) (by decide)

end EynOS.Memory.Heap
