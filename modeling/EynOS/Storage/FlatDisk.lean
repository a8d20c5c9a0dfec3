import EynOS.Storage.Allocator
import EynOS.Storage.CacheCoherence

/-!
# A drive without a cache

What an operation of EYNFS does to the bytes of a drive is easier said of a drive without a cache,
on which every read of a block returns what was last written and no access fails: `Flat`. A program
that makes no use of the block cache ends alike on both (`SameBytes.run_eq`), and so does one whose
accesses keep the cache and the drive together (`Follows.run_flat`).

`flat_allocBlock` and `flat_freeBlock` are what the allocator does to the bytes.
-/

namespace EynOS.Storage

open Foundation Interaction

/-! ### The drive -/

/-- The sectors of a drive and the candidates of the allocator. -/
structure Flat where
  sectors : UInt32 → Sector
  freeBlockCache : List UInt32
  freeBlockCacheValid : Bool

def Flat.block (flat : Flat) (block : UInt32) : Sector := flat.sectors (blockToLba block)

/-- A drive with a sector written. -/
def Flat.write (flat : Flat) (lba : UInt32) (data : Sector) : Flat :=
  { flat with sectors := Function.update flat.sectors lba data }

def Flat.takeFree (flat : Flat) : Option UInt32 × Flat :=
  match flat.freeBlockCacheValid, flat.freeBlockCache with
  | true, block :: blocks => (some block, { flat with freeBlockCache := blocks })
  | _, _ => (none, { flat with freeBlockCache := [] })

/-- Perform a request on a drive without a cache. -/
def answerFlat : Handler Request Request.Answer Flat
  | .readSector lba, flat => (some (flat.sectors lba), flat)
  | .writeSector lba data, flat => (true, flat.write lba data)
  | .getBlock block, flat => (some (flat.block block), flat)
  | .writeBlock block data, flat => (true, flat.write (blockToLba block) data)
  | .flush, flat => ((), flat)
  | .invalidateBlock _, flat => ((), flat)
  | .reset, flat => ((), { flat with freeBlockCache := [], freeBlockCacheValid := false })
  | .takeFree, flat => flat.takeFree
  | .keepFree blocks complete, flat =>
    ((), { flat with
      freeBlockCache := blocks
      freeBlockCacheValid := flat.freeBlockCacheValid || complete && !blocks.isEmpty })
  | .dropFree, flat => ((), { flat with freeBlockCache := [], freeBlockCacheValid := false })

/-- The candidates of a drive and of the caches are the same. -/
structure SameCandidates (state : State) (flat : Flat) : Prop where
  cache : state.freeBlockCache = flat.freeBlockCache
  valid : state.freeBlockCacheValid = flat.freeBlockCacheValid

/-- The bytes of a drive, whatever is in the cache. -/
structure SameBytes (drive : ℕ) (state : State) (flat : Flat) : Prop
    extends SameCandidates state flat where
  sectors : (state.disk drive).sectors = flat.sectors
  succeeds : ∀ lba count, (state.disk drive).fails lba count = false

/-- The bytes of a drive together with its cache. -/
structure Follows (drive : ℕ) (state : State) (flat : Flat) : Prop
    extends SameCandidates state flat where
  coherent : Coherent drive state flat.sectors

/-- The bytes of a drive. -/
def State.flat (drive : ℕ) (state : State) : Flat where
  sectors := (state.disk drive).sectors
  freeBlockCache := state.freeBlockCache
  freeBlockCacheValid := state.freeBlockCacheValid

/-- A request past the block cache. -/
def IsRaw : Request → Prop
  | .readSector _ => True
  | .writeSector _ _ => True
  | .takeFree => True
  | .keepFree _ _ => True
  | .dropFree => True
  | _ => False

section Relations

variable {Result : Type} {drive : ℕ} {state : State} {flat : Flat} {program : Program Result}

theorem sameBytes_flat (hsucceeds : ∀ lba count, (state.disk drive).fails lba count = false) :
    SameBytes drive state (state.flat drive) :=
  ⟨⟨rfl, rfl⟩, rfl, hsucceeds⟩

theorem SameBytes.flat_eq (hbytes : SameBytes drive state flat) : state.flat drive = flat := by
  rw [State.flat, hbytes.sectors, hbytes.cache, hbytes.valid]

section

variable (hsame : SameCandidates state flat)

include hsame

theorem SameCandidates.takeFree :
    (takeFreeBlock state).1 = flat.takeFree.1 ∧
      SameCandidates (takeFreeBlock state).2 flat.takeFree.2 ∧
        (takeFreeBlock state).2.disk = state.disk ∧
          (takeFreeBlock state).2.blockCache = state.blockCache ∧
            flat.takeFree.2.sectors = flat.sectors := by
  obtain ⟨hcache, hvalid⟩ := hsame
  simp only [takeFreeBlock, Flat.takeFree, hcache, hvalid]
  cases flat.freeBlockCacheValid <;> cases flat.freeBlockCache <;>
    exact ⟨rfl, ⟨rfl, rfl⟩, rfl, rfl, rfl⟩

theorem SameCandidates.cacheClean (block : UInt32)
    (data : Sector) : SameCandidates (cacheClean drive block data state) flat := by
  rcases cacheClean_cases drive block data state with ⟨-, heq⟩ | ⟨index, needed, victim, -, heq⟩
  · rwa [heq]
  · rw [heq, writeBack_eq]
    exact ⟨hsame.cache, hsame.valid⟩

/-- Reading a block through the cache. -/
theorem SameCandidates.getBlock (block : UInt32) :
    SameCandidates (cacheGetBlock drive block state).2 flat := by
  unfold cacheGetBlock
  split
  · exact ⟨hsame.cache, hsame.valid⟩
  · split <;> rename_i hread <;> obtain ⟨-, rfl⟩ := Prod.mk.inj hread
    · exact ⟨hsame.cache, hsame.valid⟩
    · refine SameCandidates.cacheClean ?_ block _
      exact ⟨hsame.cache, hsame.valid⟩

theorem SameCandidates.writeBlock (block : UInt32)
    (data : Sector) : SameCandidates (cacheWriteBlock drive block data state).2 flat := by
  unfold cacheWriteBlock
  split
  · exact ⟨hsame.cache, hsame.valid⟩
  · split <;> rename_i hwrite <;> obtain ⟨-, rfl⟩ := Prod.mk.inj hwrite
    · exact ⟨hsame.cache, hsame.valid⟩
    · refine SameCandidates.cacheClean ?_ block data
      exact ⟨hsame.cache, hsame.valid⟩

theorem SameCandidates.flush :
    SameCandidates (cacheFlush drive state) flat := by
  have hloop (entries : List CacheEntry) (state : State) (hsame : SameCandidates state flat) :
      SameCandidates (entries.foldl (flushEntry drive) state) flat := by
    induction entries generalizing state with
    | nil => exact hsame
    | cons entry entries ih => exact ih _ ⟨hsame.cache, hsame.valid⟩
  obtain ⟨hcache, hvalid⟩ := hloop (state.blockCache.filter CacheEntry.unsaved) state hsame
  exact ⟨hcache, hvalid⟩

end

/-- A request past the cache is answered alike. -/
theorem SameBytes.step (hbytes : SameBytes drive state flat) {request : Request}
    (hraw : IsRaw request) :
    (answer drive request state).1 = (answerFlat request flat).1 ∧
      SameBytes drive (answer drive request state).2 (answerFlat request flat).2 := by
  have hsame := hbytes.toSameCandidates
  obtain ⟨⟨hcache, hvalid⟩, hsectors, hsucceeds⟩ := hbytes
  cases request with
  | readSector lba =>
    simp only [answer, answerFlat, ataReadSector, Disk.read_eq hsucceeds, hsectors]
    refine ⟨trivial, ⟨hcache, hvalid⟩, ?_, ?_⟩
    · simpa [Disk.count] using hsectors
    · simpa [Disk.count] using hsucceeds
  | writeSector lba data =>
    obtain ⟨hwritten, hafter, hfails⟩ := Disk.write_eq hsucceeds lba data
    simp only [answer, answerFlat, ataWriteSector, hwritten]
    refine ⟨trivial, ⟨hcache, hvalid⟩, ?_, ?_⟩
    · rw [State.disk_setDisk, hafter, hsectors]
      rfl
    · rw [State.disk_setDisk, hfails]
      exact hsucceeds
  | takeFree =>
    obtain ⟨htaken, hkept, hdisk, -, hflat⟩ := hsame.takeFree
    refine ⟨htaken, hkept, ?_, ?_⟩
    · change ((takeFreeBlock state).2.disk drive).sectors = flat.takeFree.2.sectors
      rw [hdisk, hflat, hsectors]
    · change ∀ lba count, ((takeFreeBlock state).2.disk drive).fails lba count = false
      rwa [hdisk]
  | keepFree blocks complete =>
    refine ⟨rfl, ⟨rfl, ?_⟩, hsectors, hsucceeds⟩
    simp only [answer, answerFlat, keepFreeBlocks, hvalid]
  | dropFree => exact ⟨rfl, ⟨rfl, rfl⟩, hsectors, hsucceeds⟩
  | getBlock | writeBlock | flush | invalidateBlock | reset => exact hraw.elim

theorem SameBytes.run_eq (hbytes : SameBytes drive state flat) (honly : Only IsRaw program) :
    (run (answer drive) program state).1 = (run answerFlat program flat).1 ∧
      SameBytes drive (run (answer drive) program state).2 (run answerFlat program flat).2 :=
  honly.related (fun _ _ _ hbytes hraw ↦ hbytes.step hraw) hbytes

/-- A request that keeps the cache and the drive together is answered alike. -/
theorem Follows.step (hfollows : Follows drive state flat) {request : Request}
    (hcoheres : Coheres drive state request) :
    (answer drive request state).1 = (answerFlat request flat).1 ∧
      Follows drive (answer drive request state).2 (answerFlat request flat).2 := by
  have hsame := hfollows.toSameCandidates
  obtain ⟨⟨hcache, hvalid⟩, hcoherent⟩ := hfollows
  have hcurrent : Current drive ⟨state, flat.sectors, []⟩ := ⟨hcoherent, by simp⟩
  obtain ⟨hafter, hreadings⟩ := hcurrent.answers hcoheres
  cases request with
  | readSector lba => exact ⟨hreadings _ List.mem_cons_self, ⟨hcache, hvalid⟩, hafter⟩
  | writeSector lba data =>
    exact ⟨(Disk.write_eq hcoherent.succeeds lba data).1, ⟨hcache, hvalid⟩, hafter⟩
  | getBlock block =>
    exact ⟨hreadings _ List.mem_cons_self, hsame.getBlock block, hafter⟩
  | writeBlock block data =>
    have hkept : SameCandidates (cacheWriteBlock drive block data state).2 flat :=
      hsame.writeBlock block data
    refine ⟨?_, ⟨hkept.cache, hkept.valid⟩, hafter⟩
    change (cacheWriteBlock drive block data state).1 = true
    unfold cacheWriteBlock
    split
    · rfl
    · have hwritten := (Disk.write_eq hcoherent.succeeds (blockToLba block) data).1
      simp only [ataWriteSector, hwritten]
  | flush => exact ⟨rfl, hsame.flush, hafter⟩
  | invalidateBlock block => exact ⟨rfl, ⟨hcache, hvalid⟩, hafter⟩
  | reset => exact ⟨rfl, ⟨rfl, rfl⟩, hafter⟩
  | takeFree =>
    obtain ⟨htaken, hkept, -, -, hflat⟩ := hsame.takeFree
    refine ⟨htaken, hkept, ?_⟩
    change Coherent drive (takeFreeBlock state).2 flat.takeFree.2.sectors
    rw [hflat]
    exact hafter
  | keepFree blocks complete =>
    refine ⟨rfl, ⟨rfl, ?_⟩, hafter⟩
    simp only [answer, answerFlat, keepFreeBlocks, hvalid]
  | dropFree => exact ⟨rfl, ⟨rfl, rfl⟩, hafter⟩

/-- A program whose accesses keep the cache and the drive together. -/
theorem Follows.run_flat (hfollows : Follows drive state flat)
    (hcoheres : Throughout (answer drive) (Coheres drive) program state) :
    (run (answer drive) program state).1 = (run answerFlat program flat).1 ∧
      Follows drive (run (answer drive) program state).2 (run answerFlat program flat).2 :=
  hcoheres.related (fun _ _ _ hfollows hcoheres ↦ hfollows.step hcoheres) hfollows

/-- A block is changed in the cache, flushed, and read past the cache. -/
theorem Follows.run_flat_flushed :
    let program := writeBlock 3 (setNext zeroBlock 9) >>= fun _ ↦ flush >>= fun _ ↦ readBlock 3
    (run (answer 0) program (.boot (fun _ ↦ blankDrive) 16)).1 =
      (run answerFlat program ⟨blankDrive.sectors, [], false⟩).1 :=
  (Follows.run_flat ⟨⟨rfl, rfl⟩, coherentOn_all.mp (coherentOn_unused rfl fun _ _ ↦ rfl)⟩
    (by decide +kernel)).1

end Relations

/-! ### Accesses -/

section Accesses

variable {Result : Type} {flat : Flat} {block lba : UInt32} {data : Sector}

@[simp] theorem Flat.block_write (flat : Flat) (block : UInt32) (data : Sector) :
    (flat.write (blockToLba block) data).block block = data :=
  Function.update_self _ _ _

theorem Flat.block_write_of_ne {other : UInt32} (hother : other ≠ block) :
    (flat.write (blockToLba block) data).block other = flat.block other :=
  Function.update_of_ne (fun heq ↦ hother (blockToLba_inj.mp heq)) _ _

@[simp] theorem run_flat_readBlock :
    run answerFlat (readBlock block) flat = (.ok (flat.block block), flat) := rfl

theorem run_attempt_ok {World : Type} {handler : Handler Request Request.Answer World}
    {world after : World} {program : Program Result} {result : Result}
    (hrun : run handler program world = (.ok result, after)) :
    run handler (attempt program) world = (.ok (some result), after) := by
  rw [run_attempt, hrun]

theorem run_attempt_error {World : Type} {handler : Handler Request Request.Answer World}
    {world after : World} {program : Program Result} {code : ℤ}
    (hrun : run handler program world = (.error (.error code), after)) :
    run handler (attempt program) world = (.ok none, after) := by
  rw [run_attempt, hrun]

theorem raw_readBlock (block : UInt32) : Only IsRaw (readBlock block) :=
  ⟨trivial, fun answer ↦ by cases answer <;> exact trivial⟩

theorem raw_writeBlockRaw (block : UInt32) (data : Sector) :
    Only IsRaw (writeBlockRaw block data) :=
  ⟨trivial, fun answer ↦ by cases answer <;> exact trivial⟩

theorem raw_attempt {program : Program Result} (hraw : Only IsRaw program) :
    Only IsRaw (attempt program) :=
  Only.recover (hraw.bind fun _ ↦ trivial) fun failure ↦ by cases failure <;> exact trivial

theorem raw_bitmapSetUsed (sb : Superblock) (block : UInt32) (used : Bool) :
    Only IsRaw (bitmapSetUsed sb block used) := by
  rw [bitmapSetUsed]
  split
  · exact trivial
  · split
    · exact trivial
    · exact (raw_readBlock _).bind fun _ ↦ raw_writeBlockRaw _ _

theorem raw_freeBlock (sb : Superblock) (block : UInt32) : Only IsRaw (freeBlock sb block) := by
  rw [freeBlock]
  split
  · exact trivial
  · exact (raw_bitmapSetUsed _ _ _).bind fun _ ↦ ⟨trivial, fun _ ↦ trivial⟩

theorem raw_refillLoop (sb : Superblock) (count index : ℕ) (found : List UInt32) :
    Only IsRaw (refillLoop sb count index found) := by
  induction count generalizing index found with
  | zero => exact trivial
  | succ count ih =>
    rw [refillLoop]
    split
    · refine (raw_attempt (raw_readBlock _)).bind fun bitmap ↦ ?_
      cases bitmap with
      | none => exact ⟨trivial, fun _ ↦ trivial⟩
      | some bitmap => exact ih _ _
    · exact trivial

/-- `eynfs_alloc_block` makes no use of the cache. -/
theorem raw_allocBlock (sb : Superblock) : Only IsRaw (allocBlock sb) := by
  have hchoose : Only IsRaw (allocBlockOptimized sb) := by
    refine ⟨trivial, fun cached ↦ ?_⟩
    cases cached with
    | some block => exact trivial
    | none =>
      refine (raw_refillLoop _ _ _ _).bind fun found ↦ ⟨trivial, fun _ ↦ ?_⟩
      cases found with
      | nil => exact trivial
      | cons block blocks => exact ⟨trivial, fun taken ↦ by cases taken <;> exact trivial⟩
  refine hchoose.bind fun block ↦ ?_
  split
  · exact trivial
  · refine (raw_attempt (raw_bitmapSetUsed _ _ _)).bind fun marked ↦ ?_
    cases marked with
    | none => exact ⟨trivial, fun _ ↦ trivial⟩
    | some _ => exact trivial

end Accesses

/-! ### The allocator -/

/-- The bit of a block is set. -/
def Flat.used (sb : Superblock) (flat : Flat) (block : ℕ) : Bool :=
  Storage.used sb flat.sectors block

/-- The candidates, where they are valid, are distinct blocks of the file system that are not
used. -/
def Flat.Reserved (sb : Superblock) (flat : Flat) : Prop :=
  flat.freeBlockCacheValid = true → flat.freeBlockCache.Nodup ∧
    ∀ block ∈ flat.freeBlockCache, block.toNat < sb.totalBlocks.toNat ∧
      flat.used sb block.toNat = false

/-- A drive with no cached blocks. -/
def Flat.state (flat : Flat) : State where
  disk _ := { sectors := flat.sectors, fails := fun _ _ ↦ false, accesses := fun _ ↦ 0
              written := fun _ ↦ [] }
  blockCache := []
  useClock := 0
  freeBlockCache := flat.freeBlockCache
  freeBlockCacheValid := flat.freeBlockCacheValid
  freeDrive := 0

section Allocator

variable {sb : Superblock} {drive : ℕ} {state : State} {flat : Flat} {block : UInt32}

theorem SameBytes.reserved_iff (hbytes : SameBytes drive state flat) :
    flat.Reserved sb ↔ Reserved sb drive state := by
  rw [Flat.Reserved, Reserved, hbytes.cache, hbytes.valid, hbytes.sectors]
  rfl

theorem sameBytes_state (flat : Flat) : SameBytes 0 flat.state flat :=
  ⟨⟨rfl, rfl⟩, rfl, fun _ _ ↦ rfl⟩

/-- `eynfs_alloc_block` marks a block that was not used and returns it, or it fails and changes no
byte. -/
theorem flat_allocBlock (hreserved : flat.Reserved sb) :
    ∃ after, after.Reserved sb ∧
      ((∃ block, run answerFlat (allocBlock sb) flat = (.ok block, after) ∧
          block.toNat < sb.totalBlocks.toNat ∧ flat.used sb block.toNat = false ∧
            after.sectors = markBlock sb flat.sectors block.toNat true) ∨
        (run answerFlat (allocBlock sb) flat = (.error (.error (-1)), after) ∧
          after.sectors = flat.sectors)) := by
  have hbytes := sameBytes_state flat
  obtain ⟨hresult, hrest⟩ := hbytes.run_eq (raw_allocBlock sb)
  obtain ⟨final, hfinal, -, -, hruns⟩ := alloc_spec (hbytes.reserved_iff.mp hreserved)
  generalize run answerFlat (allocBlock sb) flat = flatEnd at hresult hrest ⊢
  obtain ⟨outcome, after⟩ := flatEnd
  refine ⟨after, ?_⟩
  rcases hruns with ⟨block, hrun, hinside, -, hclear, hsectors⟩ | ⟨hrun, hsectors, -⟩
  all_goals
    rw [hrun] at hresult hrest
    refine ⟨hrest.reserved_iff.mpr hfinal, ?_⟩
    rw [hrest.sectors] at hsectors
  · exact Or.inl ⟨block, Prod.ext hresult.symm rfl, hinside, hclear, hsectors⟩
  · exact Or.inr ⟨Prod.ext hresult.symm rfl, hsectors⟩

/-- `eynfs_free_block` clears the bit of a block, or it fails and changes no byte. -/
theorem flat_freeBlock (hreserved : flat.Reserved sb) (block : UInt32) :
    ∃ after, after.Reserved sb ∧
      ((run answerFlat (freeBlock sb block) flat = (.ok (), after) ∧
          block.toNat < sb.totalBlocks.toNat ∧
            after.sectors = markBlock sb flat.sectors block.toNat false) ∨
        (run answerFlat (freeBlock sb block) flat = (.error (.error (-1)), after) ∧
          after.sectors = flat.sectors)) := by
  have hbytes := sameBytes_state flat
  obtain ⟨hresult, hrest⟩ := hbytes.run_eq (raw_freeBlock sb block)
  obtain ⟨final, hfinal, -, -, hruns⟩ := free_spec (hbytes.reserved_iff.mp hreserved) block
  generalize run answerFlat (freeBlock sb block) flat = flatEnd at hresult hrest ⊢
  obtain ⟨outcome, after⟩ := flatEnd
  refine ⟨after, ?_⟩
  rcases hruns with ⟨hrun, hinside, hsectors⟩ | ⟨hrun, hsectors⟩
  all_goals
    rw [hrun] at hresult hrest
    refine ⟨hrest.reserved_iff.mpr hfinal, ?_⟩
    rw [hrest.sectors] at hsectors
  · exact Or.inl ⟨Prod.ext hresult.symm rfl, hinside, hsectors⟩
  · exact Or.inr ⟨Prod.ext hresult.symm rfl, hsectors⟩

end Allocator

end EynOS.Storage
