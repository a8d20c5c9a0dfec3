import EynOS.Foundation.Run
import EynOS.Storage.BlockCacheSteps
import EynOS.Storage.Eynfs
import EynOS.Storage.Fields

/-!
# The block allocator

`eynfs_alloc_block` takes a block from a cache of candidates, which a scan of the bitmap fills, and
sets its bit; `eynfs_free_block` clears a bit. `alloc_spec` and `free_spec` say what a call does to
the drive and to the candidates, on any drive and whichever accesses fail: the candidates are
distinct blocks of the file system whose bits are clear (`Reserved`).

A block number is returned as an `int`, and one from `2 ^ 31` on is taken for the error code.
`allocates_iff` says that the allocator is right on a file system exactly if it has at most `2 ^ 31`
blocks.
-/

namespace EynOS.Storage

open Foundation Interaction

/-! ### Bits -/

theorem testBit_setBit (byte : UInt8) {bit : ℕ} (hbit : bit < 8) (other : ℕ) :
    (byte ||| ((1 : UInt8) <<< UInt8.ofNat bit)).toNat.testBit other =
      (decide (other = bit) || byte.toNat.testBit other) := by
  have hmask : ∀ bit < 8, ((1 : UInt8) <<< UInt8.ofNat bit).toNat = 2 ^ bit := by decide
  rw [UInt8.toNat_or, Nat.testBit_or, hmask bit hbit, Nat.testBit_two_pow, Bool.or_comm]
  simp [eq_comm]

theorem testBit_clearBit (byte : UInt8) {bit other : ℕ} (hbit : bit < 8) (hother : other < 8) :
    (byte &&& ~~~((1 : UInt8) <<< UInt8.ofNat bit)).toNat.testBit other =
      (!decide (other = bit) && byte.toNat.testBit other) := by
  have hmask : ∀ bit < 8, ∀ other < 8,
      (~~~((1 : UInt8) <<< UInt8.ofNat bit)).toNat.testBit other = !decide (other = bit) := by
    decide
  rw [UInt8.toNat_and, Nat.testBit_and, hmask bit hbit other hother, Bool.and_comm]

theorem bitmapBit_setBitmapBit (bitmap : Sector) (index : ℕ) {other : ℕ}
    (hother : other < bitsPerBlock) (used : Bool) :
    bitmapBit (setBitmapBit bitmap index used) other =
      if other = index then used else bitmapBit bitmap other := by
  have hbit (number : ℕ) : number % 8 < 8 := Nat.mod_lt number (by decide)
  have hbyte {number : ℕ} (hnumber : number < bitsPerBlock) : number / 8 < EYNFS_BLOCK_SIZE :=
    Nat.div_lt_of_lt_mul hnumber
  rw [bitmapBit, setBitmapBit, byteAt_copyInto _ _ (hbyte hother)]
  by_cases hsame : other / 8 = index / 8
  · have heq : other = index ↔ other % 8 = index % 8 := by omega
    rw [if_pos ⟨hsame.ge, by omega⟩, bitmapBit, hsame]
    cases used with
    | true =>
      rw [if_pos rfl, testBit_setBit _ (hbit index)]
      by_cases hbits : other = index <;> simp [heq, hbits]
    | false =>
      rw [if_neg Bool.false_ne_true, testBit_clearBit _ (hbit index) (hbit other)]
      by_cases hbits : other = index <;> simp [heq, hbits]
  · rw [if_neg (by omega), if_neg fun heq ↦ hsame (by rw [heq]), bitmapBit]

def bitmapLba (sb : Superblock) (block : ℕ) : UInt32 :=
  blockToLba (sb.freeBlockMap + UInt32.ofNat (block / bitsPerBlock))

/-- The bit of a block is set. -/
def used (sb : Superblock) (sectors : UInt32 → Sector) (block : ℕ) : Bool :=
  bitmapBit (sectors (bitmapLba sb block)) (block % bitsPerBlock)

def markBlock (sb : Superblock) (sectors : UInt32 → Sector) (block : ℕ) (value : Bool) :
    UInt32 → Sector :=
  Function.update sectors (bitmapLba sb block)
    (setBitmapBit (sectors (bitmapLba sb block)) (block % bitsPerBlock) value)

/-- The bits of two blocks are in one sector where the blocks are close. -/
theorem bitmapLba_inj (sb : Superblock) {block other : ℕ} (hblock : block < 4294967296)
    (hother : other < 4294967296) :
    bitmapLba sb block = bitmapLba sb other ↔ block / bitsPerBlock = other / bitsPerBlock := by
  have hsmall {number : ℕ} (hnumber : number < 4294967296) :
      number / bitsPerBlock < 4294967296 :=
    Nat.lt_of_le_of_lt (Nat.div_le_self _ _) hnumber
  refine ⟨fun heq ↦ ?_, fun heq ↦ by rw [bitmapLba, bitmapLba, heq]⟩
  have hwords := (UInt32.add_right_inj _).mp (blockToLba_inj.mp heq)
  rw [← UInt32.toNat_ofNat_of_lt' (hsmall hblock), hwords,
    UInt32.toNat_ofNat_of_lt' (hsmall hother)]

/-- Only the bit of the block changes. -/
theorem used_markBlock (sb : Superblock) (sectors : UInt32 → Sector) {block other : ℕ}
    (hblock : block < 4294967296) (hother : other < 4294967296) (value : Bool) :
    used sb (markBlock sb sectors block value) other =
      if other = block then value else used sb sectors other := by
  unfold used markBlock
  by_cases hsame : other / bitsPerBlock = block / bitsPerBlock
  · have heq : other = block ↔ other % bitsPerBlock = block % bitsPerBlock := by
      refine ⟨fun heq ↦ by rw [heq], fun hmod ↦ ?_⟩
      rw [← Nat.div_add_mod other bitsPerBlock, hsame, hmod, Nat.div_add_mod]
    rw [(bitmapLba_inj sb hother hblock).mpr hsame, Function.update_self,
      bitmapBit_setBitmapBit _ _ (Nat.mod_lt _ (by decide))]
    simp only [heq]
  · rw [Function.update_of_ne fun heq ↦ hsame ((bitmapLba_inj sb hother hblock).mp heq),
      if_neg fun heq ↦ hsame (by rw [heq])]

/-! ### Accesses to the drive -/

/-- A request whose access to the drive succeeds, where it makes one itself. -/
def Succeeds (drive : ℕ) (state : State) : Request → Prop
  | .readSector lba => (state.disk drive).failing lba = false
  | .writeSector lba _ => (state.disk drive).failing lba = false
  | _ => True

/-- Two states with the same bytes on a drive and the same block cache. -/
structure SameSectors (drive : ℕ) (state after : State) : Prop where
  sectors : (after.disk drive).sectors = (state.disk drive).sectors
  fails : (after.disk drive).fails = (state.disk drive).fails
  cache : after.blockCache = state.blockCache

section Accesses

variable {drive : ℕ} {state middle after : State} {block lba : UInt32} {data : Sector}

theorem SameSectors.refl (state : State) : SameSectors drive state state := ⟨rfl, rfl, rfl⟩

theorem SameSectors.trans (hfirst : SameSectors drive state middle)
    (hsecond : SameSectors drive middle after) : SameSectors drive state after :=
  ⟨hsecond.sectors.trans hfirst.sectors, hsecond.fails.trans hfirst.fails,
    hsecond.cache.trans hfirst.cache⟩

theorem sameSectors_count (lba : UInt32) :
    SameSectors drive state (state.setDisk drive ((state.disk drive).count lba)) :=
  ⟨by simp [Disk.count], by simp [Disk.count], rfl⟩

theorem sameSectors_write (hfails : (state.disk drive).failing lba = true) :
    SameSectors drive state (state.setDisk drive ((state.disk drive).write lba data).2) := by
  rw [Disk.write, if_pos hfails]
  exact sameSectors_count lba

theorem sectors_write (data : Sector) (hsucceeds : (state.disk drive).failing lba = false) :
    ((state.setDisk drive ((state.disk drive).write lba data).2).disk drive).sectors =
        Function.update (state.disk drive).sectors lba data ∧
      ((state.setDisk drive ((state.disk drive).write lba data).2).disk drive).fails =
        (state.disk drive).fails := by
  rw [Disk.write, hsucceeds, if_neg Bool.false_ne_true]
  exact ⟨by simp, by simp [Disk.count]⟩

theorem fails_write (state : State) (lba : UInt32) (data : Sector) :
    ((state.setDisk drive ((state.disk drive).write lba data).2).disk drive).fails =
      (state.disk drive).fails := by
  cases hfails : (state.disk drive).failing lba with
  | true => exact (sameSectors_write hfails).fails
  | false => exact (sectors_write data hfails).2

theorem run_readBlock : run (answer drive) (readBlock block) state =
    (if (state.disk drive).failing (blockToLba block) then .error (.error (-1))
      else .ok ((state.disk drive).sectors (blockToLba block)),
      state.setDisk drive ((state.disk drive).count (blockToLba block))) := by
  rw [readBlock, run_bind, run_request]
  simp only [answer, ataReadSector, Disk.read]
  split <;> rfl

theorem run_writeBlockRaw : run (answer drive) (writeBlockRaw block data) state =
    (if (state.disk drive).failing (blockToLba block) then .error (.error (-1)) else .ok (),
      state.setDisk drive ((state.disk drive).write (blockToLba block) data).2) := by
  rw [writeBlockRaw, run_bind, run_request]
  simp only [answer, ataWriteSector, Disk.write]
  split <;> rfl

/-- A call whose failure the caller looks at. -/
theorem run_attempt {Result Owner : Type} {handler : Handler Request Request.Answer Owner}
    {owner : Owner} (program : Program Result) :
    run handler (attempt program) owner =
      match run handler program owner with
      | (.ok result, after) => (.ok (some result), after)
      | (.error (.error _), after) => (.ok none, after)
      | (.error .endless, after) => (.error .endless, after) := by
  rw [attempt, run_recover, run_bind]
  generalize run handler program owner = first
  obtain ⟨(_ | _) | _, _⟩ := first <;> rfl

theorem fails_cacheClean :
    ((cacheClean drive block data state).disk drive).fails = (state.disk drive).fails := by
  rcases cacheClean_cases drive block data state with ⟨-, heq⟩ | ⟨index, needed, victim, -, heq⟩
  · rw [heq]
  · rw [heq]
    change ((writeBack drive needed victim state).disk drive).fails = _
    unfold writeBack
    split
    · exact fails_write _ _ _
    · rfl

/-- Which accesses of a drive fail is never changed. -/
theorem fails_answer (request : Request) (state : State) :
    ((answer drive request state).2.disk drive).fails = (state.disk drive).fails := by
  cases request with
  | readSector lba => exact (sameSectors_count lba).fails
  | writeSector lba data => exact fails_write state lba data
  | getBlock block =>
    simp only [answer, cacheGetBlock, ataReadSector, Disk.read]
    split
    · rfl
    · split <;> rename_i heq <;> obtain ⟨-, rfl⟩ := Prod.mk.inj heq
      · exact (sameSectors_count _).fails
      · exact fails_cacheClean.trans (sameSectors_count _).fails
  | writeBlock block data =>
    simp only [answer, cacheWriteBlock, ataWriteSector]
    split
    · rfl
    · split <;> rename_i heq <;> obtain ⟨-, rfl⟩ := Prod.mk.inj heq
      · exact fails_write state _ data
      · exact fails_cacheClean.trans (fails_write state _ data)
  | flush =>
    change (((state.blockCache.filter CacheEntry.unsaved).foldl (flushEntry drive) state).disk
      drive).fails = _
    induction state.blockCache.filter CacheEntry.unsaved generalizing state with
    | nil => rfl
    | cons entry entries ih => exact (ih _).trans (fails_write state _ entry.data)
  | takeFree =>
    rcases takeFreeBlock_cases state with ⟨-, _, _, -, htake⟩ | ⟨-, htake⟩ <;>
      simp only [answer, htake]
  | invalidateBlock | reset | keepFree | dropFree => rfl

/-- Looking at a failure makes no access. -/
theorem throughout_attempt {Result : Type} {property : State → Request → Prop}
    (program : Program Result) :
    Throughout (answer drive) property (attempt program) state ↔
      Throughout (answer drive) property program state := by
  rw [attempt, throughout_recover, throughout_bind]
  refine ⟨fun hparts ↦ hparts.1.1, fun hprogram ↦ ⟨⟨hprogram, fun _ _ _ ↦ trivial⟩, ?_⟩⟩
  intro failure _ _
  cases failure <;> exact trivial

/-- A read whose accesses succeed returns the sector. -/
theorem throughout_readBlock :
    Throughout (answer drive) (Succeeds drive) (readBlock block) state ↔
      (state.disk drive).failing (blockToLba block) = false := by
  rw [readBlock, throughout_bind]
  refine ⟨fun hparts ↦ hparts.1.1, fun hsucceeds ↦ ⟨⟨hsucceeds, trivial⟩, fun answer _ _ ↦ ?_⟩⟩
  cases answer <;> exact trivial

theorem throughout_writeBlockRaw :
    Throughout (answer drive) (Succeeds drive) (writeBlockRaw block data) state ↔
      (state.disk drive).failing (blockToLba block) = false := by
  rw [writeBlockRaw, throughout_bind]
  refine ⟨fun hparts ↦ hparts.1.1, fun hsucceeds ↦ ⟨⟨hsucceeds, trivial⟩, fun answer _ _ ↦ ?_⟩⟩
  cases answer <;> exact trivial

end Accesses

/-! ### The scan of the bitmap -/

/-- What a scan of the bitmap up to a bound has found: distinct blocks of the file system that are
not used, and all of them where there is still space for more. -/
structure Candidates (sb : Superblock) (sectors : UInt32 → Sector) (bound : ℕ)
    (found : List UInt32) : Prop where
  nodup : found.Nodup
  free : ∀ block ∈ found, block.toNat < bound ∧ block.toNat < sb.totalBlocks.toNat ∧
    used sb sectors block.toNat = false
  complete : found.length < EYNFS_FREE_BLOCK_CACHE_SIZE → ∀ block < bound,
    block < sb.totalBlocks.toNat → used sb sectors block = false → UInt32.ofNat block ∈ found

section Scan

variable {sb : Superblock} {sectors : UInt32 → Sector} {bound index : ℕ} {found : List UInt32}
  {drive : ℕ} {state : State}

theorem candidates_nil : Candidates sb sectors 0 [] :=
  ⟨List.nodup_nil, fun _ hmem ↦ absurd hmem List.not_mem_nil, fun _ _ hless ↦
    absurd hless (by simp)⟩

/-- The scan of one more bit. -/
theorem Candidates.next (hfound : Candidates sb sectors bound found) :
    Candidates sb sectors (bound + 1)
      (if found.length < EYNFS_FREE_BLOCK_CACHE_SIZE ∧ used sb sectors bound = false ∧
          bound < sb.totalBlocks.toNat then UInt32.ofNat bound :: found else found) := by
  split
  · rename_i hadded
    obtain ⟨hspace, hclear, hinside⟩ := hadded
    have hvalue : (UInt32.ofNat bound).toNat = bound :=
      UInt32.toNat_ofNat_of_lt' (hinside.trans sb.totalBlocks.toNat_lt)
    refine ⟨List.nodup_cons.mpr ⟨fun hmem ↦ ?_, hfound.nodup⟩, fun block hblock ↦ ?_,
      fun _ block hblock hsize hfree ↦ ?_⟩
    · have hless := (hfound.free _ hmem).1
      rw [hvalue] at hless
      exact absurd hless (Nat.lt_irrefl bound)
    · rcases List.mem_cons.mp hblock with rfl | hold
      · rw [hvalue]
        exact ⟨Nat.lt_succ_self bound, hinside, hclear⟩
      · obtain ⟨hless, hrest⟩ := hfound.free block hold
        exact ⟨Nat.lt_succ_of_lt hless, hrest⟩
    · rcases Nat.lt_succ_iff_lt_or_eq.mp hblock with hless | rfl
      · exact List.mem_cons_of_mem _ (hfound.complete hspace block hless hsize hfree)
      · exact List.mem_cons_self
  · rename_i hskipped
    refine ⟨hfound.nodup, fun block hblock ↦ ?_, fun hspace block hblock hsize hfree ↦ ?_⟩
    · obtain ⟨hless, hrest⟩ := hfound.free block hblock
      exact ⟨Nat.lt_succ_of_lt hless, hrest⟩
    · rcases Nat.lt_succ_iff_lt_or_eq.mp hblock with hless | rfl
      · exact hfound.complete hspace block hless hsize hfree
      · exact absurd ⟨hspace, hfree, hsize⟩ hskipped

/-- The scan of one sector of the bitmap. -/
theorem Candidates.collectFree (hfound : Candidates sb sectors (index * bitsPerBlock) found) :
    Candidates sb sectors ((index + 1) * bitsPerBlock)
      (collectFree sb (sectors (blockToLba (sb.freeBlockMap + UInt32.ofNat index)))
        (index * bitsPerBlock) found) := by
  have hscan : ∀ count ≤ bitsPerBlock, Candidates sb sectors (index * bitsPerBlock + count)
      ((List.range count).foldl
        (fun found bit ↦
          if found.length < EYNFS_FREE_BLOCK_CACHE_SIZE ∧
              bitmapBit (sectors (blockToLba (sb.freeBlockMap + UInt32.ofNat index))) bit = false ∧
                index * bitsPerBlock + bit < sb.totalBlocks.toNat then
            UInt32.ofNat (index * bitsPerBlock + bit) :: found
          else found)
        found) := by
    intro count hcount
    induction count with
    | zero =>
      rw [Nat.add_zero]
      exact hfound
    | succ count ih =>
      have hdiv : (index * bitsPerBlock + count) / bitsPerBlock = index := by
        rw [Nat.mul_comm, Nat.mul_add_div (by decide), Nat.div_eq_of_lt hcount, Nat.add_zero]
      have hmod : (index * bitsPerBlock + count) % bitsPerBlock = count := by
        rw [Nat.mul_comm, Nat.mul_add_mod, Nat.mod_eq_of_lt hcount]
      have hnext := (ih (Nat.le_of_succ_le hcount)).next
      rw [used, bitmapLba, hdiv, hmod] at hnext
      rw [List.range_succ, List.foldl_append, ← Nat.add_assoc]
      exact hnext
  rw [Nat.succ_mul]
  exact hscan bitsPerBlock le_rfl

/-- A full list is found whatever is scanned more. -/
theorem Candidates.mono {more : ℕ} (hfound : Candidates sb sectors bound found)
    (hfull : ¬found.length < EYNFS_FREE_BLOCK_CACHE_SIZE) (hle : bound ≤ more) :
    Candidates sb sectors more found where
  nodup := hfound.nodup
  free block hblock :=
    have hfree := hfound.free block hblock
    ⟨hfree.1.trans_le hle, hfree.2⟩
  complete hspace := absurd hspace hfull

/-- A scan of sectors of the bitmap finds the candidates in them. One that fails keeps what it has
found. -/
theorem refillLoop_spec (count : ℕ)
    (hfound : Candidates sb (state.disk drive).sectors (index * bitsPerBlock) found) :
    ∃ after, SameSectors drive state after ∧
      after.freeBlockCacheValid = state.freeBlockCacheValid ∧
        ((∃ blocks, run (answer drive) (refillLoop sb count index found) state =
              (.ok blocks, after) ∧
            Candidates sb (state.disk drive).sectors ((index + count) * bitsPerBlock) blocks) ∨
          (run (answer drive) (refillLoop sb count index found) state =
              (.error (.error (-1)), after) ∧
            ¬Throughout (answer drive) (Succeeds drive) (refillLoop sb count index found) state ∧
              ∃ bound, Candidates sb (state.disk drive).sectors bound after.freeBlockCache)) := by
  induction count generalizing index found state with
  | zero => exact ⟨state, ⟨rfl, rfl, rfl⟩, rfl, Or.inl ⟨found, rfl, hfound⟩⟩
  | succ count ih =>
    rw [refillLoop]
    by_cases hspace : found.length < EYNFS_FREE_BLOCK_CACHE_SIZE
    · simp only [if_pos hspace, run_bind, run_attempt, run_readBlock, throughout_bind,
        throughout_attempt, throughout_readBlock]
      cases hfails : (state.disk drive).failing
          (blockToLba (sb.freeBlockMap + UInt32.ofNat index)) with
      | true =>
        refine ⟨keepFreeBlocks drive found false (state.setDisk drive ((state.disk drive).count _)),
          ?_, ?_, Or.inr ⟨rfl, fun hparts ↦ absurd hparts.1 (by simp), _, hfound⟩⟩
        · exact ⟨(sameSectors_count _).sectors, (sameSectors_count _).fails, rfl⟩
        · simp [keepFreeBlocks, State.setDisk]
      | false =>
        have hcounted : SameSectors drive state (state.setDisk drive
            ((state.disk drive).count (blockToLba (sb.freeBlockMap + UInt32.ofNat index)))) :=
          sameSectors_count _
        have hnext := hfound.collectFree
        rw [← hcounted.sectors] at hnext
        obtain ⟨after, hsame, hvalid, hruns⟩ := ih hnext
        refine ⟨after, hcounted.trans hsame, hvalid, ?_⟩
        rw [hcounted.sectors, Nat.add_assoc, Nat.add_comm 1 count] at hruns
        rcases hruns with ⟨blocks, hrun, hblocks⟩ | ⟨hrun, hfailing, hkept⟩
        · exact Or.inl ⟨blocks, hrun, hblocks⟩
        · exact Or.inr ⟨hrun, fun hparts ↦ hfailing (hparts.2 _ _ rfl), hkept⟩
    · rw [if_neg hspace]
      refine ⟨state, ⟨rfl, rfl, rfl⟩, rfl, Or.inl ⟨found, rfl, hfound.mono hspace ?_⟩⟩
      exact Nat.mul_le_mul_right _ (Nat.le_add_right _ _)

end Scan

/-! ### Allocating and freeing -/

/-- The candidates of the allocator, where they are valid: distinct blocks of the file system that
are not used. -/
def Reserved (sb : Superblock) (drive : ℕ) (state : State) : Prop :=
  state.freeBlockCacheValid = true → state.freeBlockCache.Nodup ∧
    ∀ block ∈ state.freeBlockCache, block.toNat < sb.totalBlocks.toNat ∧
      used sb (state.disk drive).sectors block.toNat = false

section Calls

variable {sb : Superblock} {drive : ℕ} {state : State} {block : UInt32} {value : Bool}

theorem bitmapBlockCount_spec (htotal : sb.totalBlocks.toNat ≤ 2147483648) :
    sb.totalBlocks.toNat ≤ bitmapBlockCount sb * bitsPerBlock := by
  rw [bitmapBlockCount, bitsPerBlock, EYNFS_BLOCK_SIZE, u32_of_lt (_ + 7) (by omega),
    u32_of_lt _ (by omega)]
  omega

/-- `eynfs_alloc_block_optimized` takes a candidate, and what stays are candidates. It finds none
only where an access fails or every block in the bitmap is used. -/
theorem allocBlockOptimized_spec (hreserved : Reserved sb drive state) :
    ∃ after, SameSectors drive state after ∧ Reserved sb drive after ∧
      ((∃ block, run (answer drive) (allocBlockOptimized sb) state = (.ok block, after) ∧
          block.toNat < sb.totalBlocks.toNat ∧
            used sb (state.disk drive).sectors block.toNat = false ∧
              (after.freeBlockCacheValid = true → block ∉ after.freeBlockCache)) ∨
        (run (answer drive) (allocBlockOptimized sb) state = (.error (.error (-1)), after) ∧
          (Throughout (answer drive) (Succeeds drive) (allocBlockOptimized sb) state →
            ∀ block < sb.totalBlocks.toNat, block < bitmapBlockCount sb * bitsPerBlock →
              used sb (state.disk drive).sectors block = true))) := by
  rcases takeFreeBlock_cases state with ⟨hvalid, block, blocks, hcache, htake⟩ | ⟨hempty, htake⟩
  · obtain ⟨hnodup, hfree⟩ := hreserved hvalid
    rw [hcache] at hnodup hfree
    obtain ⟨hfresh, hrest⟩ := List.nodup_cons.mp hnodup
    refine ⟨{ state with freeBlockCache := blocks }, ⟨rfl, rfl, rfl⟩,
      fun _ ↦ ⟨hrest, fun other hother ↦ hfree other (List.mem_cons_of_mem _ hother)⟩,
      Or.inl ⟨block, ?_, (hfree block List.mem_cons_self).1, (hfree block List.mem_cons_self).2,
        fun _ ↦ hfresh⟩⟩
    rw [allocBlockOptimized, run_bind, takeFree, run_request]
    simp only [answer, htake]
    rfl
  · generalize hemptied : { state with freeBlockCache := [] } = emptied at htake
    have hstart : Candidates sb (emptied.disk drive).sectors (0 * bitsPerBlock) [] := by
      rw [Nat.zero_mul]
      exact candidates_nil
    obtain ⟨after, hscanned, -, hruns⟩ := refillLoop_spec (bitmapBlockCount sb) hstart
    have hsame : SameSectors drive state emptied := hemptied ▸ ⟨rfl, rfl, rfl⟩
    rw [hsame.sectors] at hruns
    rcases hruns with ⟨blocks, hrefill, hblocks⟩ | ⟨hrefill, hfails, bound, hkept⟩
    · rw [Nat.zero_add] at hblocks
      cases blocks with
      | nil =>
        refine ⟨keepFreeBlocks drive [] true after,
          hsame.trans (hscanned.trans ⟨rfl, rfl, rfl⟩),
          fun _ ↦ ⟨List.nodup_nil, fun _ hmem ↦ absurd hmem List.not_mem_nil⟩,
          Or.inr ⟨?_, fun _ block hinside hbound ↦ ?_⟩⟩
        · rw [allocBlockOptimized, run_bind, takeFree, run_request]
          simp only [answer, htake, run_bind, hrefill]
          rfl
        · by_contra hclear
          exact absurd (hblocks.complete (by decide) block hbound hinside
            (Bool.eq_false_iff.mpr hclear)) List.not_mem_nil
      | cons block blocks =>
        obtain ⟨hfresh, hrest⟩ := List.nodup_cons.mp hblocks.nodup
        refine ⟨{ keepFreeBlocks drive (block :: blocks) true after with freeBlockCache := blocks },
          hsame.trans (hscanned.trans ⟨rfl, rfl, rfl⟩), fun _ ↦ ⟨hrest, fun other hother ↦ ?_⟩,
          Or.inl ⟨block, ?_, (hblocks.free block List.mem_cons_self).2.1,
            (hblocks.free block List.mem_cons_self).2.2, fun _ ↦ hfresh⟩⟩
        · change _ ∧ used sb (after.disk drive).sectors other.toNat = false
          rw [hscanned.sectors, hsame.sectors]
          exact (hblocks.free other (List.mem_cons_of_mem _ hother)).2
        · have hvalid : (keepFreeBlocks drive (block :: blocks) true after).freeBlockCacheValid =
              true := by simp [keepFreeBlocks]
          have htaken : takeFreeBlock (keepFreeBlocks drive (block :: blocks) true after) =
              (some block,
                { keepFreeBlocks drive (block :: blocks) true after with
                  freeBlockCache := blocks }) := by
            rcases takeFreeBlock_cases (keepFreeBlocks drive (block :: blocks) true after) with
              ⟨-, _, _, hcache, htaken⟩ | ⟨hnone, -⟩
            · obtain ⟨rfl, rfl⟩ := List.cons.inj hcache
              exact htaken
            · exact absurd (hnone hvalid) (List.cons_ne_nil block blocks)
          rw [allocBlockOptimized, run_bind, takeFree, run_request]
          simp only [answer, htake, run_bind, hrefill, keepFree, run_request, List.isEmpty_cons,
            if_neg Bool.false_ne_true, htaken]
          rfl
    · refine ⟨after, hsame.trans hscanned, fun _ ↦ ⟨hkept.nodup, fun block hblock ↦ ?_⟩,
        Or.inr ⟨?_, fun hparts ↦ absurd ?_ hfails⟩⟩
      · rw [hscanned.sectors, hsame.sectors]
        exact (hkept.free block hblock).2
      · rw [allocBlockOptimized, run_bind, takeFree, run_request]
        simp only [answer, htake, run_bind, hrefill]
      · have hrest := ((throughout_bind _).mp hparts).2 none emptied (by
          rw [takeFree, run_request]
          simp only [answer, htake])
        exact ((throughout_bind _).mp hrest).1

/-- `eynfs_bitmap_set_used` changes the bit of a block, or fails and changes no byte. -/
theorem bitmapSetUsed_spec (sb : Superblock) (drive : ℕ) (state : State) (block : UInt32)
    (value : Bool) :
    ∃ after, after.freeBlockCache = state.freeBlockCache ∧
      after.freeBlockCacheValid = state.freeBlockCacheValid ∧
        ((run (answer drive) (bitmapSetUsed sb block value) state = (.ok (), after) ∧
            block.toNat < sb.totalBlocks.toNat ∧ after.blockCache = state.blockCache ∧
              (after.disk drive).fails = (state.disk drive).fails ∧
                (after.disk drive).sectors =
                  markBlock sb (state.disk drive).sectors block.toNat value) ∨
          (run (answer drive) (bitmapSetUsed sb block value) state =
              (.error (.error (-1)), after) ∧ SameSectors drive state after ∧
            (Throughout (answer drive) (Succeeds drive) (bitmapSetUsed sb block value) state →
              block.toNat < sb.totalBlocks.toNat →
                bitmapBlockCount sb * bitsPerBlock ≤ block.toNat))) := by
  rw [bitmapSetUsed]
  split
  · rename_i hlarge
    exact ⟨state, rfl, rfl, Or.inr ⟨rfl, .refl state, fun _ hless ↦
      absurd (UInt32.le_iff_toNat_le.mp hlarge) (Nat.not_le.mpr hless)⟩⟩
  · rename_i hinside
    have hinside := Nat.lt_of_not_le fun hle ↦ hinside (UInt32.le_iff_toNat_le.mpr hle)
    split
    · rename_i hcount
      exact ⟨state, rfl, rfl, Or.inr ⟨rfl, .refl state, fun _ _ ↦
        (Nat.le_div_iff_mul_le (by decide)).mp hcount⟩⟩
    · simp only [run_bind, run_readBlock, throughout_bind, throughout_readBlock,
        throughout_writeBlockRaw, run_writeBlockRaw]
      generalize hlba : blockToLba
        (sb.freeBlockMap + UInt32.ofNat (block.toNat / bitsPerBlock)) = lba
      have hcounted : SameSectors drive state
          (state.setDisk drive ((state.disk drive).count lba)) := sameSectors_count lba
      cases hread : (state.disk drive).failing lba with
      | true =>
        exact ⟨state.setDisk drive ((state.disk drive).count lba), rfl, rfl,
          Or.inr ⟨rfl, hcounted, fun hparts ↦ absurd hparts.1 (by simp)⟩⟩
      | false =>
        have hkept : (state.setDisk drive ((state.disk drive).count lba)).freeBlockCache =
            state.freeBlockCache := rfl
        have hvalid : (state.setDisk drive ((state.disk drive).count lba)).freeBlockCacheValid =
            state.freeBlockCacheValid := rfl
        generalize state.setDisk drive ((state.disk drive).count lba) = middle
          at hcounted hkept hvalid ⊢
        refine ⟨middle.setDisk drive ((middle.disk drive).write lba (setBitmapBit
          ((state.disk drive).sectors lba) (block.toNat % bitsPerBlock) value)).2, hkept,
            hvalid, ?_⟩
        cases hwrite : (middle.disk drive).failing lba with
        | true =>
          refine Or.inr ⟨?_, hcounted.trans (sameSectors_write hwrite), fun hparts ↦ ?_⟩
          · simp only [if_neg Bool.false_ne_true, hwrite, if_true]
          · have hsecond := hparts.2 _ middle rfl
            exact absurd (hwrite.symm.trans hsecond) (by simp)
        | false =>
          obtain ⟨hsectors, hfails⟩ := sectors_write (setBitmapBit ((state.disk drive).sectors lba)
            (block.toNat % bitsPerBlock) value) hwrite
          refine Or.inl ⟨?_, hinside, hcounted.cache, hfails.trans hcounted.fails, ?_⟩
          · simp only [if_neg Bool.false_ne_true, hwrite]
          · rw [hsectors, hcounted.sectors, markBlock, bitmapLba, hlba]

/-- `eynfs_alloc_block` marks a block that was not used and returns it. It fails without a change
of the drive, and where no access fails only if every block is used. -/
theorem alloc_spec (hreserved : Reserved sb drive state) :
    ∃ after, Reserved sb drive after ∧ after.blockCache = state.blockCache ∧
      (after.disk drive).fails = (state.disk drive).fails ∧
        ((∃ block, run (answer drive) (allocBlock sb) state = (.ok block, after) ∧
            block.toNat < sb.totalBlocks.toNat ∧ block.toNat < 2147483648 ∧
              used sb (state.disk drive).sectors block.toNat = false ∧
                (after.disk drive).sectors =
                  markBlock sb (state.disk drive).sectors block.toNat true) ∨
          (run (answer drive) (allocBlock sb) state = (.error (.error (-1)), after) ∧
            (after.disk drive).sectors = (state.disk drive).sectors ∧
              (Throughout (answer drive) (Succeeds drive) (allocBlock sb) state →
                sb.totalBlocks.toNat ≤ 2147483648 → ∀ block < sb.totalBlocks.toNat,
                  used sb (state.disk drive).sectors block = true))) := by
  obtain ⟨middle, hsame, hkept, hruns⟩ := allocBlockOptimized_spec hreserved
  rw [allocBlock, run_bind, throughout_bind]
  rcases hruns with ⟨block, hrun, hinside, hclear, hfresh⟩ | ⟨hrun, hspent⟩
  · simp only [hrun]
    by_cases hlarge : 2147483648 ≤ block.toNat
    · refine ⟨middle, hkept, hsame.cache, hsame.fails, Or.inr ⟨?_, hsame.sectors, ?_⟩⟩
      · rw [if_pos hlarge]
        rfl
      · exact fun _ htotal ↦ absurd (hlarge.trans_lt hinside) (Nat.not_lt.mpr htotal)
    · rw [if_neg hlarge]
      obtain ⟨marked, hblocks, hvalid, hmarks⟩ := bitmapSetUsed_spec sb drive middle block true
      rw [run_bind, run_attempt]
      rcases hmarks with ⟨hmark, -, hcache, hfails, hsectors⟩ | ⟨hmark, hunchanged, hfailing⟩
      · rw [hsame.sectors] at hsectors
        refine ⟨marked, fun htrue ↦ ?_, hcache.trans hsame.cache, hfails.trans hsame.fails,
          Or.inl ⟨block, ?_, hinside, Nat.lt_of_not_le hlarge, hclear, hsectors⟩⟩
        · rw [hvalid] at htrue
          rw [hblocks, hsectors]
          refine ⟨(hkept htrue).1, fun other hother ↦ ?_⟩
          obtain ⟨hless, hfree⟩ := (hkept htrue).2 other hother
          have hne : other.toNat ≠ block.toNat :=
            fun heq ↦ hfresh htrue (UInt32.toNat_inj.mp heq ▸ hother)
          rw [used_markBlock sb _ block.toNat_lt other.toNat_lt, if_neg hne, ← hsame.sectors]
          exact ⟨hless, hfree⟩
        · rw [hmark]
          rfl
      · refine ⟨dropFreeBlocks marked, fun hfalse ↦ absurd hfalse Bool.false_ne_true,
          hunchanged.cache.trans hsame.cache, hunchanged.fails.trans hsame.fails,
          Or.inr ⟨?_, hunchanged.sectors.trans hsame.sectors, fun hparts htotal ↦ ?_⟩⟩
        · rw [hmark]
          rfl
        · have hrest := hparts.2 _ _ rfl
          rw [if_neg hlarge, throughout_bind, throughout_attempt] at hrest
          have hbeyond := hfailing hrest.1 hinside
          have hspace := bitmapBlockCount_spec htotal
          omega
  · refine ⟨middle, hkept, hsame.cache, hsame.fails, Or.inr ⟨?_, hsame.sectors, ?_⟩⟩
    · rw [hrun]
    · intro hparts htotal block hless
      exact hspent hparts.1 block hless (hless.trans_le (bitmapBlockCount_spec htotal))

/-- `eynfs_free_block` clears the bit of a block, or fails and changes no byte. -/
theorem free_spec (hreserved : Reserved sb drive state) (block : UInt32) :
    ∃ after, Reserved sb drive after ∧ after.blockCache = state.blockCache ∧
      (after.disk drive).fails = (state.disk drive).fails ∧
        ((run (answer drive) (freeBlock sb block) state = (.ok (), after) ∧
            block.toNat < sb.totalBlocks.toNat ∧
              (after.disk drive).sectors =
                markBlock sb (state.disk drive).sectors block.toNat false) ∨
          (run (answer drive) (freeBlock sb block) state = (.error (.error (-1)), after) ∧
            (after.disk drive).sectors = (state.disk drive).sectors)) := by
  rw [freeBlock]
  split
  · exact ⟨state, hreserved, rfl, rfl, Or.inr ⟨rfl, rfl⟩⟩
  · obtain ⟨after, hblocks, hvalid, hmarks⟩ := bitmapSetUsed_spec sb drive state block false
    rw [run_bind]
    rcases hmarks with ⟨hmark, hinside, hcache, hfails, hsectors⟩ | ⟨hmark, hsame, -⟩
    · refine ⟨dropFreeBlocks after, fun hfalse ↦ absurd hfalse Bool.false_ne_true, hcache, hfails,
        Or.inl ⟨?_, hinside, hsectors⟩⟩
      rw [hmark]
      rfl
    · refine ⟨after, fun htrue ↦ ?_, hsame.cache, hsame.fails, Or.inr ⟨?_, hsame.sectors⟩⟩
      · rw [hblocks, hsame.sectors]
        exact hreserved (hvalid ▸ htrue)
      · rw [hmark]

end Calls

/-! ### Runs -/

/-- A call of `eynfs_alloc_block` or of `eynfs_free_block`. -/
inductive BlockCall
  | alloc
  | free (block : UInt32)

/-- The file system and the blocks that were returned and not freed since. -/
structure Books where
  state : State
  held : List UInt32

def Books.step (drive : ℕ) (sb : Superblock) (books : Books) : BlockCall → Books
  | .alloc =>
    match run (answer drive) (allocBlock sb) books.state with
    | (.ok block, after) => { state := after, held := block :: books.held }
    | (.error _, after) => { books with state := after }
  | .free block =>
    match run (answer drive) (freeBlock sb block) books.state with
    | (.ok _, after) => { state := after, held := books.held.filter (· ≠ block) }
    | (.error _, after) => { books with state := after }

/-- What the next call of `eynfs_alloc_block` promises: a block that it returns is in the file
system, was not used, is used now and is not held; and where it returns none though no access
fails, every block is used. -/
structure Allocates (drive : ℕ) (sb : Superblock) (books : Books) : Prop where
  fresh : ∀ block after, run (answer drive) (allocBlock sb) books.state = (.ok block, after) →
    block.toNat < sb.totalBlocks.toNat ∧
      used sb (books.state.disk drive).sectors block.toNat = false ∧
        used sb (after.disk drive).sectors block.toNat = true ∧ block ∉ books.held
  spent : ∀ stop after, run (answer drive) (allocBlock sb) books.state = (.error stop, after) →
    Throughout (answer drive) (Succeeds drive) (allocBlock sb) books.state →
      ∀ block < sb.totalBlocks.toNat, used sb (books.state.disk drive).sectors block = true

/-- The allocator is right in every run: it starts with no candidates, on any drive. -/
def AlwaysAllocates (sb : Superblock) : Prop :=
  ∀ (drive : ℕ) (start : State) (calls : List BlockCall) (books : Books),
    start.freeBlockCacheValid = false →
      Run (Moves (Books.step drive sb)) { state := start, held := [] } calls books →
        Allocates drive sb books

/-- The candidates are not used, and the blocks that are held are. -/
structure Balanced (drive : ℕ) (sb : Superblock) (books : Books) : Prop where
  reserved : Reserved sb drive books.state
  held : ∀ block ∈ books.held, used sb (books.state.disk drive).sectors block.toNat = true

section Books

variable {drive : ℕ} {sb : Superblock} {books : Books}

/-- A call keeps the books balanced. -/
theorem Balanced.step (hbalanced : Balanced drive sb books) (call : BlockCall) :
    Balanced drive sb (books.step drive sb call) := by
  cases call with
  | alloc =>
    obtain ⟨after, hreserved, -, -, hruns⟩ := alloc_spec hbalanced.reserved
    rcases hruns with ⟨block, hrun, -, -, -, hsectors⟩ | ⟨hrun, hsectors, -⟩
    · simp only [Books.step, hrun]
      refine ⟨hreserved, fun other hother ↦ ?_⟩
      rw [hsectors, used_markBlock sb _ block.toNat_lt other.toNat_lt]
      split
      · rfl
      · rename_i hne
        rcases List.mem_cons.mp hother with rfl | hheld
        · exact absurd rfl hne
        · exact hbalanced.held other hheld
    · simp only [Books.step, hrun]
      exact ⟨hreserved, fun other hother ↦ hsectors ▸ hbalanced.held other hother⟩
  | free block =>
    obtain ⟨after, hreserved, -, -, hruns⟩ := free_spec hbalanced.reserved block
    rcases hruns with ⟨hrun, -, hsectors⟩ | ⟨hrun, hsectors⟩
    · simp only [Books.step, hrun]
      refine ⟨hreserved, fun other hother ↦ ?_⟩
      obtain ⟨hheld, hne⟩ := List.mem_filter.mp hother
      rw [hsectors, used_markBlock sb _ block.toNat_lt other.toNat_lt, if_neg]
      · exact hbalanced.held other hheld
      · exact fun heq ↦ of_decide_eq_true hne (UInt32.toNat_inj.mp heq)
    · simp only [Books.step, hrun]
      exact ⟨hreserved, fun other hother ↦ hsectors ▸ hbalanced.held other hother⟩

/-- From balanced books on, a file system of at most `2 ^ 31` blocks is allocated from. -/
theorem Balanced.allocates (hbalanced : Balanced drive sb books)
    (htotal : sb.totalBlocks.toNat ≤ 2147483648) : Allocates drive sb books := by
  obtain ⟨after, -, -, -, hruns⟩ := alloc_spec hbalanced.reserved
  constructor
  · intro block other hrun
    rcases hruns with ⟨found, hfound, hinside, -, hclear, hsectors⟩ | ⟨hfails, -⟩
    · obtain ⟨heq, rfl⟩ := Prod.mk.inj (hrun.symm.trans hfound)
      obtain rfl := Except.ok.inj heq
      refine ⟨hinside, hclear, ?_, fun hheld ↦ ?_⟩
      · rw [hsectors, used_markBlock sb _ block.toNat_lt block.toNat_lt, if_pos rfl]
      · exact absurd (hbalanced.held block hheld) (by rw [hclear]; exact Bool.false_ne_true)
    · exact absurd (hrun.symm.trans hfails) (by simp)
  · intro stop other hrun hsucceeds
    rcases hruns with ⟨found, hfound, -⟩ | ⟨-, -, hspent⟩
    · exact absurd (hrun.symm.trans hfound) (by simp)
    · exact hspent hsucceeds htotal

end Books

/-- A drive on which the last block of a file system is the only one that is not used. -/
def nearlyFullDrive (sb : Superblock) : Disk where
  sectors := markBlock sb (fun _ _ ↦ 255) (sb.totalBlocks.toNat - 1) false
  fails _ _ := false
  accesses _ := 0
  written _ := []

/-- No access fails on a drive whose accesses succeed. -/
theorem throughout_succeeds {Result : Type} {drive : ℕ} (program : Program Result) {state : State}
    (hfails : ∀ lba count, (state.disk drive).fails lba count = false) :
    Throughout (answer drive) (Succeeds drive) program state := by
  have hsucceeds (state : State) (request : Request)
      (hfails : ∀ lba count, (state.disk drive).fails lba count = false) :
      Succeeds drive state request := by
    cases request with
    | readSector lba => exact hfails lba _
    | writeSector lba data => exact hfails lba _
    | getBlock | writeBlock | flush | invalidateBlock | reset | takeFree | keepFree
    | dropFree => exact trivial
  induction program generalizing state with
  | done result => exact trivial
  | fail failure => exact trivial
  | ask request next ih =>
    exact ⟨hsucceeds state request hfails, ih _ (fails_answer request state ▸ hfails)⟩

/-- Where the last block has a number that is no `int`, it is never returned. -/
theorem not_alwaysAllocates {sb : Superblock} (htotal : 2147483648 < sb.totalBlocks.toNat) :
    ¬AlwaysAllocates sb := by
  intro hclaim
  have hlast : sb.totalBlocks.toNat - 1 < 4294967296 :=
    (Nat.sub_le _ _).trans_lt sb.totalBlocks.toNat_lt
  have hused {block : ℕ} (hblock : block < 4294967296) :
      used sb (nearlyFullDrive sb).sectors block = !decide (block = sb.totalBlocks.toNat - 1) := by
    have hones : ∀ bit < 8, (255 : UInt8).toNat.testBit bit = true := by decide
    have hfull (index : ℕ) (hindex : index < bitsPerBlock) :
        bitmapBit (fun _ ↦ 255) index = true := by
      have hbyte : index / 8 < EYNFS_BLOCK_SIZE := Nat.div_lt_of_lt_mul hindex
      rw [bitmapBit, byteAt, dif_pos hbyte]
      exact hones _ (Nat.mod_lt _ (by decide))
    rw [nearlyFullDrive, used_markBlock sb _ hlast hblock, used, hfull _ (Nat.mod_lt _ (by decide))]
    split <;> simp_all
  obtain ⟨hfresh, hspent⟩ := hclaim 0 (.boot (fun _ ↦ nearlyFullDrive sb) 0) [] _ rfl .refl
  have hreserved : Reserved sb 0 (.boot (fun _ ↦ nearlyFullDrive sb) 0) :=
    fun hfalse ↦ absurd hfalse Bool.false_ne_true
  obtain ⟨after, -, -, -, hruns⟩ := alloc_spec hreserved
  rcases hruns with ⟨block, hrun, hinside, hsmall, hclear, -⟩ | ⟨hrun, -⟩
  · have heq : block.toNat = sb.totalBlocks.toNat - 1 := by
      have hfree := (hused block.toNat_lt).symm.trans hclear
      simpa using hfree
    omega
  · have hfull := hspent _ _ hrun (throughout_succeeds _ fun _ _ ↦ rfl) (sb.totalBlocks.toNat - 1)
      (by omega)
    exact absurd ((hused hlast).symm.trans hfull) (by simp)

/-- The allocator is right exactly on the file systems whose block numbers are all returned as
such. -/
theorem allocates_iff (sb : Superblock) :
    AlwaysAllocates sb ↔ sb.totalBlocks.toNat ≤ 2147483648 := by
  constructor
  · intro hclaim
    exact Nat.le_of_not_lt fun hlarge ↦ not_alwaysAllocates hlarge hclaim
  · intro htotal drive start calls books hinvalid hrun
    have hstep (before : Books) (call : BlockCall) (after : Books)
        (hbalanced : Balanced drive sb before)
        (hmoves : Moves (Books.step drive sb) before call after) :
        Balanced drive sb after := hmoves ▸ hbalanced.step call
    have hstart : Balanced drive sb { state := start, held := [] } :=
      ⟨fun hvalid ↦ absurd (hinvalid.symm.trans hvalid) Bool.false_ne_true,
        fun _ hmem ↦ absurd hmem List.not_mem_nil⟩
    exact (hrun.invariant hstep hstart).allocates htotal

/-- One block more than there are numbers for. -/
def hugeSuperblock : Superblock where
  magic := EYNFS_MAGIC
  blockSize := UInt32.ofNat EYNFS_BLOCK_SIZE
  totalBlocks := 2147483649
  rootDirBlock := 1
  freeBlockMap := 2

/-- With only the last block of that file system free, the allocator finds none. -/
theorem not_allocates : ¬∀ sb, AlwaysAllocates sb :=
  fun hclaim ↦ not_alwaysAllocates (by decide) (hclaim hugeSuperblock)

end EynOS.Storage
