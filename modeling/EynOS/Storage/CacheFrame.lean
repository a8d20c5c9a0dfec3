import EynOS.Storage.Volume

/-!
# What the cache leaves alone

The block cache writes a block back whenever it needs the space, so an operation on one file may
change the sector of another. It does not where no copy of the other block has to be written back:
`Clear` blocks stay as they are through writes and invalidations of others (`Steady.writeBlock`,
`Steady.invalidateBlock`), and so does a volume (`Steady.volume`, `Steady.kept`).

`run_raw` is what a program past the cache does to a drive that has one.
-/

namespace EynOS.Storage

open Foundation Interaction

/-! ### Blocks that are not written back -/

/-- No copy of some blocks has to be written back. -/
def Clear (still : UInt32 → Prop) (state : State) : Prop :=
  ∀ entry ∈ state.blockCache, entry.unsaved = true → ¬still entry.blockNum

/-- Two states between which some blocks of a drive stay, and no copy of them came to have newer
bytes. -/
structure Steady (still : UInt32 → Prop) (drive : ℕ) (state after : State) : Prop where
  sectors : ∀ block, still block → (after.flat drive).block block = (state.flat drive).block block
  clear : Clear still after
  cache : after.freeBlockCache = state.freeBlockCache
  valid : after.freeBlockCacheValid = state.freeBlockCacheValid
  fails : (after.disk drive).fails = (state.disk drive).fails

section Steady

variable {still : UInt32 → Prop} {drive : ℕ} {state middle after : State} {block : UInt32}
  {data : Sector}

theorem Steady.refl (hclear : Clear still state) : Steady still drive state state :=
  ⟨fun _ _ ↦ rfl, hclear, rfl, rfl, rfl⟩

theorem Steady.trans (hfirst : Steady still drive state middle)
    (hsecond : Steady still drive middle after) : Steady still drive state after :=
  ⟨fun block hblock ↦ (hsecond.sectors block hblock).trans (hfirst.sectors block hblock),
    hsecond.clear, hsecond.cache.trans hfirst.cache, hsecond.valid.trans hfirst.valid,
    hsecond.fails.trans hfirst.fails⟩

/-- A cache that was never used. -/
theorem clear_unused {capacity : ℕ} (hcache : state.blockCache = List.replicate capacity .unused) :
    Clear still state := by
  intro entry hentry hunsaved
  rw [hcache] at hentry
  rw [List.eq_of_mem_replicate hentry] at hunsaved
  exact absurd hunsaved Bool.false_ne_true

theorem steady_cache {entries : List CacheEntry} {clock : ℕ}
    (hclear : Clear still { state with blockCache := entries, useClock := clock }) :
    Steady still drive state { state with blockCache := entries, useClock := clock } :=
  ⟨fun _ _ ↦ rfl, hclear, rfl, rfl, rfl⟩

section

variable (hclear : Clear still state)

include hclear

theorem steady_count (lba : UInt32) :
    Steady still drive state (state.setDisk drive ((state.disk drive).count lba)) := by
  refine ⟨fun block _ ↦ ?_, hclear, rfl, rfl, (sameSectors_count lba).fails⟩
  exact congrFun (sameSectors_count lba).sectors _

/-- A write of another block, where it fails or not. -/
theorem steady_write (hblock : ¬still block) (data : Sector) :
    Steady still drive state
      (state.setDisk drive ((state.disk drive).write (blockToLba block) data).2) := by
  refine ⟨fun other hother ↦ ?_, hclear, rfl, rfl, fails_write _ _ _⟩
  have hne : blockToLba other ≠ blockToLba block :=
    fun heq ↦ hblock (blockToLba_inj.mp heq ▸ hother)
  cases hfails : (state.disk drive).failing (blockToLba block) with
  | true => exact congrFun (sameSectors_write hfails).sectors _
  | false =>
    change ((state.setDisk drive _).disk drive).sectors (blockToLba other) = _
    rw [(sectors_write data hfails).1, Function.update_of_ne hne]
    rfl

/-- Storing a copy that is saved or of another block. -/
theorem clear_set {index : ℕ} {new : CacheEntry} {clock : ℕ}
    (hnew : new.unsaved = true → ¬still new.blockNum) :
    Clear still { state with blockCache := state.blockCache.set index new, useClock := clock } := by
  intro entry hentry hunsaved
  rcases List.mem_or_eq_of_mem_set hentry with hmem | rfl
  · exact hclear entry hmem hunsaved
  · exact hnew hunsaved

/-- Caching a block as clean writes back a victim of other blocks. -/
theorem steady_cacheClean (block : UInt32) (data : Sector) :
    Steady still drive state (cacheClean drive block data state) := by
  rcases cacheClean_cases drive block data state with
    ⟨-, heq⟩ | ⟨index, needed, victim, hvictim, heq⟩
  · rw [heq]
    exact .refl hclear
  · have hback : Steady still drive state (writeBack drive needed victim state) := by
      cases needed with
      | false => exact .refl hclear
      | true =>
        have hplace := List.mem_of_getElem? hvictim.place
        refine steady_write hclear (hclear victim hplace (CacheEntry.unsaved_iff.mpr ?_)) _
        rcases hvictim.oldest with ⟨-, hclean⟩ | ⟨hdirty, hvalid, -⟩
        · exact absurd hclean (by simp)
        · exact ⟨hvalid victim hplace, hdirty⟩
    have hsame : (writeBack drive needed victim state).blockCache = state.blockCache := by
      rw [writeBack_eq]
      rfl
    rw [heq, ← hsame]
    refine hback.trans (steady_cache (clear_set hback.clear fun hunsaved ↦ ?_))
    exact absurd (CacheEntry.unsaved_iff.mp hunsaved).2 (by simp)

/-- `eynfs_cache_get_block`. -/
theorem steady_cacheGetBlock (block : UInt32) :
    Steady still drive state (cacheGetBlock drive block state).2 := by
  unfold cacheGetBlock
  split
  · rename_i index entry hfound
    refine steady_cache (clear_set hclear fun hunsaved ↦ ?_)
    exact hclear entry (List.mem_of_getElem? (cachedAt_spec hfound).1) hunsaved
  · have hcounted : Steady still drive state _ := steady_count hclear (blockToLba block)
    split <;> rename_i hread <;> obtain ⟨-, rfl⟩ := Prod.mk.inj hread
    · exact hcounted
    · exact hcounted.trans (steady_cacheClean hcounted.clear block _)

/-- `eynfs_cache_write_block` of another block. -/
theorem steady_cacheWriteBlock (hblock : ¬still block)
    (data : Sector) : Steady still drive state (cacheWriteBlock drive block data state).2 := by
  unfold cacheWriteBlock
  split
  · rename_i index entry hfound
    refine steady_cache (clear_set hclear fun _ ↦ ?_)
    rw [(cachedAt_spec hfound).2.2]
    exact hblock
  · split <;> rename_i hwrite <;> obtain ⟨-, rfl⟩ := Prod.mk.inj hwrite
    · exact steady_write hclear hblock data
    · have hwritten : Steady still drive state _ := steady_write hclear hblock data
      exact hwritten.trans (steady_cacheClean hwritten.clear block data)

/-- `eynfs_cache_invalidate_block`. -/
theorem steady_cacheInvalidateBlock (block : UInt32) :
    Steady still drive state (cacheInvalidateBlock block state) := by
  refine ⟨fun _ _ ↦ rfl, fun entry hentry hunsaved ↦ ?_, rfl, rfl, rfl⟩
  obtain ⟨former, hformer, rfl⟩ := List.mem_map.mp hentry
  split at hunsaved
  · exact absurd (CacheEntry.unsaved_iff.mp hunsaved).1 (by simp)
  · rename_i hother
    rw [if_neg hother]
    exact hclear former hformer hunsaved

end

end Steady

/-! ### Programs on a drive with a cache -/

section Programs

variable {Result : Type} {drive : ℕ} {state after : State} {block : UInt32} {data : Sector}

/-- A program past the cache does to a drive what it does to its bytes, and leaves the cache. -/
theorem run_raw {program : Program Result} {outcome : Except Stop Result}
    (hsucceeds : ∀ lba count, (state.disk drive).fails lba count = false)
    (hraw : Only IsRaw program) (hrun : run (answer drive) program state = (outcome, after)) :
    run answerFlat program (state.flat drive) = (outcome, after.flat drive) ∧
      after.blockCache = state.blockCache ∧
        ∀ lba count, (after.disk drive).fails lba count = false := by
  obtain ⟨hresult, hbytes⟩ := (sameBytes_flat hsucceeds).run_eq hraw
  have hstep (middle : State) (request : Request)
      (hcache : middle.blockCache = state.blockCache) (hrequest : IsRaw request) :
      True ∧ (answer drive request middle).2.blockCache = state.blockCache := by
    refine ⟨trivial, ?_⟩
    cases request with
    | readSector | writeSector | keepFree | dropFree => exact hcache
    | takeFree =>
      refine Eq.trans ?_ hcache
      rcases takeFreeBlock_cases middle with ⟨-, _, _, -, htaken⟩ | ⟨-, htaken⟩ <;>
        simp only [answer, htaken]
    | getBlock | writeBlock | flush | invalidateBlock | reset => exact hrequest.elim
  have hcache := (hraw.throughout.derive hstep rfl).2
  rw [hrun] at hresult hbytes hcache
  exact ⟨Prod.ext hresult.symm hbytes.flat_eq.symm, hcache, hbytes.succeeds⟩

/-- A write through the cache that succeeds. -/
theorem run_writeBlock_ok
    (hrun : run (answer drive) (writeBlock block data) state = (.ok (), after)) :
    after = (cacheWriteBlock drive block data state).2 := by
  obtain ⟨written, middle, hasked, hrest⟩ := run_bind_eq_ok.mp hrun
  obtain rfl : (cacheWriteBlock drive block data state).2 = middle := congrArg Prod.snd hasked
  cases written with
  | true => exact (congrArg Prod.snd hrest).symm
  | false => exact absurd (congrArg Prod.fst hrest) (by simp [failure])

@[simp] theorem run_invalidateBlock : run (answer drive) (invalidateBlock block) state =
    (.ok (), cacheInvalidateBlock block state) := rfl

end Programs

end EynOS.Storage
