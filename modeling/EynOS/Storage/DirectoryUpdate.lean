import EynOS.Storage.CacheFrame
import EynOS.Storage.DirectoryTable

/-!
# The directory after a file is written

`eynfs_write_file` writes the blocks of a file and then rewrites the table of its directory with one
entry changed. Writing the blocks leaves the directory alone (`Undisturbed`), where no copy of its
blocks has to be written back and the blocks of the file before are not among them. The table is
read through a buffer of 78 entries: `onlySlot_iff` says that the other entries stay exactly where
the directory has at most eight blocks, or nine with nothing behind the first 78 slots.
-/

namespace EynOS.Storage

open Foundation Interaction

/-! ### The blocks of the file -/

/-- The blocks of a directory, the superblock and the bitmap. -/
def Still (sb : Superblock) (dir : List UInt32) (block : UInt32) : Prop :=
  block ∈ dir ∨ block = 0 ∨ ¬NoBitmap sb block

/-- A volume and a directory in it, no copy of whose blocks has to be written back. -/
structure Writable (sb : Superblock) (drive : ℕ) (dir : List UInt32) (state : State) : Prop where
  succeeds : ∀ lba count, (state.disk drive).fails lba count = false
  volume : Volume sb (state.flat drive)
  kept : ∀ block ∈ dir, Kept sb (state.flat drive) block
  clear : Clear (Still sb dir) state

/-- The blocks of a directory are as they were. -/
structure Undisturbed (sb : Superblock) (drive : ℕ) (dir : List UInt32) (state after : State) :
    Prop where
  writable : Writable sb drive dir after
  same : ∀ block ∈ dir, (after.flat drive).block block = (state.flat drive).block block

section Data

variable {sb : Superblock} {drive : ℕ} {dir old : List UInt32} {state middle after : State}
  {block previous first : UInt32} {rounds : ℕ} {data : List UInt8}

theorem Undisturbed.refl (hwritable : Writable sb drive dir state) :
    Undisturbed sb drive dir state state :=
  ⟨hwritable, fun _ _ ↦ rfl⟩

theorem Undisturbed.trans (hfirst : Undisturbed sb drive dir state middle)
    (hsecond : Undisturbed sb drive dir middle after) : Undisturbed sb drive dir state after :=
  ⟨hsecond.writable, fun block hblock ↦
    (hsecond.same block hblock).trans (hfirst.same block hblock)⟩

section

variable (hwritable : Writable sb drive dir state)

include hwritable

/-- A change of other blocks. -/
theorem Writable.steady
    (hsteady : Steady (Still sb dir) drive state after) : Undisturbed sb drive dir state after where
  writable :=
    { succeeds := hsteady.fails ▸ hwritable.succeeds
      volume := hwritable.volume.congr (hsteady.sectors 0 (Or.inr (Or.inl rfl)))
        (fun block hblock ↦ hsteady.sectors block (Or.inr (Or.inr hblock))) hsteady.cache
        hsteady.valid
      kept := fun block hblock ↦ (hwritable.kept block hblock).congr
        fun other hother ↦ hsteady.sectors other (Or.inr (Or.inr hother))
      clear := hsteady.clear }
  same block hblock := hsteady.sectors block (Or.inl hblock)

/-- A change of bits past the cache. -/
theorem Writable.remarked {spared : UInt32 → Prop}
    (hremarked : Remarked sb spared (state.flat drive) (after.flat drive))
    (hspared : ∀ block ∈ dir, spared block) (hcache : after.blockCache = state.blockCache)
    (hsucceeds : ∀ lba count, (after.disk drive).fails lba count = false) :
    Undisturbed sb drive dir state after where
  writable :=
    { succeeds := hsucceeds
      volume := hremarked.volume
      kept := fun block hblock ↦ hremarked.kept block (hspared block hblock)
        (hwritable.kept block hblock)
      clear := fun entry hentry ↦ hwritable.clear entry (hcache ▸ hentry) }
  same block hblock := hremarked.same block (hwritable.kept block hblock).noBitmap

/-- A program past the cache that changes no byte. -/
theorem Writable.reads {Result : Type} {program : Program Result} {result found : Result}
    (hraw : Only IsRaw program)
    (hreads : run answerFlat program (state.flat drive) = (.ok result, state.flat drive))
    (hrun : run (answer drive) program state = (.ok found, after)) :
    found = result ∧ after.flat drive = state.flat drive ∧
      Undisturbed sb drive dir state after := by
  obtain ⟨hflat, hcache, hsucceeds⟩ := run_raw hwritable.succeeds hraw hrun
  obtain ⟨hresult, hsame⟩ := Prod.mk.inj (hreads.symm.trans hflat)
  refine ⟨(Except.ok.inj hresult).symm, hsame.symm, hwritable.remarked ?_ (fun _ _ ↦ trivial)
    hcache hsucceeds⟩
  rw [← hsame]
  exact ⟨hwritable.volume, fun _ _ ↦ rfl, fun _ (_ : True) hkept ↦ hkept⟩

/-- Freeing a block that is not in the directory, whether it fails or not. -/
theorem Writable.free {freed : Option Unit}
    (hkept : Kept sb (state.flat drive) block) (hblock : block ∉ dir)
    (hrun : run (answer drive) (attempt (freeBlock sb block)) state = (.ok freed, after)) :
    Remarked sb (· ≠ block) (state.flat drive) (after.flat drive) ∧
      Undisturbed sb drive dir state after := by
  obtain ⟨hflat, hcache, hsucceeds⟩ :=
    run_raw hwritable.succeeds (raw_attempt (raw_freeBlock _ _)) hrun
  obtain ⟨flatAfter, hremarked, hfree⟩ := hwritable.volume.free hkept.nonzero hkept.noBitmap
  have hsame : flatAfter = after.flat drive := by
    rcases hfree with hfree | hfree
    · exact congrArg Prod.snd ((run_attempt_ok hfree).symm.trans hflat)
    · exact congrArg Prod.snd ((run_attempt_error hfree).symm.trans hflat)
  rw [hsame] at hremarked
  exact ⟨hremarked, hwritable.remarked hremarked (fun _ hother heq ↦ hblock (heq ▸ hother)) hcache
    hsucceeds⟩

/-- Freeing the blocks of the file before, which are not in the directory. -/
theorem Writable.freeOldLoop (hlinks : Links (state.flat drive) block old 0)
    (hold : ∀ block ∈ old, Kept sb (state.flat drive) block ∧ block ∉ dir)
    (hrun : run (answer drive) (freeOldLoop sb rounds block) state = (.ok (), after)) :
    Undisturbed sb drive dir state after := by
  induction rounds generalizing state block old with
  | zero => exact absurd (congrArg Prod.fst hrun) (by simp [Storage.freeOldLoop])
  | succ rounds ih =>
    rw [Storage.freeOldLoop] at hrun
    split at hrun
    · obtain rfl := congrArg Prod.snd hrun
      exact .refl hwritable
    · rename_i hblock
      cases old with
      | nil => exact absurd hlinks hblock
      | cons block old =>
        have hnodup := (List.nodup_cons.mp hlinks.nodup).1
        obtain ⟨rfl, -, hrest⟩ := hlinks
        obtain ⟨hfirst, hothers⟩ := List.forall_mem_cons.mp hold
        obtain ⟨sector, read, hread, hrun⟩ := run_bind_eq_ok.mp hrun
        obtain ⟨rfl, hflat, hquiet⟩ := hwritable.reads (raw_attempt (raw_readBlock block))
          (run_attempt_ok run_flat_readBlock) hread
        -- dropping the copies of the block changes no byte
        have hdropped := hquiet.writable.steady
          (steady_cacheInvalidateBlock hquiet.writable.clear block)
        replace hrun := (run_bind_ok run_invalidateBlock).symm.trans hrun
        obtain ⟨freed, cleared, hfree, hrun⟩ := run_bind_eq_ok.mp hrun
        have hdroppedFlat : (cacheInvalidateBlock block read).flat drive = state.flat drive := hflat
        obtain ⟨hremarked, hfreed⟩ :=
          hdropped.writable.free (hdroppedFlat ▸ hfirst.1) hfirst.2 hfree
        rw [hdroppedFlat] at hremarked
        refine hquiet.trans (hdropped.trans (hfreed.trans (ih hfreed.writable
          (hrest.congr fun other hother ↦ ?_) (fun other hother ↦ ⟨?_, (hothers other hother).2⟩)
          hrun)))
        · exact hremarked.same other (hothers other hother).1.noBitmap
        · exact hremarked.kept other (fun heq ↦ hnodup (heq ▸ hother)) (hothers other hother).1

/-- Allocating a block: it is not in the directory. -/
theorem Writable.alloc {new : UInt32}
    (hrun : run (answer drive) (allocBlock sb) state = (.ok new, after)) :
    ¬Still sb dir new ∧ Undisturbed sb drive dir state after := by
  obtain ⟨hflat, hcache, hsucceeds⟩ := run_raw hwritable.succeeds (raw_allocBlock sb) hrun
  obtain ⟨flatAfter, hremarked, ⟨block, halloc, hkept, hfresh⟩ | hfails⟩ := hwritable.volume.alloc
  · obtain ⟨hnew, hsame⟩ := Prod.mk.inj (halloc.symm.trans hflat)
    obtain rfl := Except.ok.inj hnew
    rw [hsame] at hremarked
    refine ⟨?_, hwritable.remarked hremarked (fun _ _ ↦ trivial) hcache hsucceeds⟩
    rintro (hmem | hzero | hbitmap)
    · exact hfresh (hwritable.kept block hmem)
    · exact hkept.nonzero hzero
    · exact hbitmap hkept.noBitmap
  · exact absurd (congrArg Prod.fst (hfails.symm.trans hflat)) (by simp)

theorem Writable.writeBlock {sector : Sector}
    (hblock : ¬Still sb dir block)
    (hrun : run (answer drive) (writeBlock block sector) state = (.ok (), after)) :
    Undisturbed sb drive dir state after := by
  rw [run_writeBlock_ok hrun]
  exact hwritable.steady (steady_cacheWriteBlock hwritable.clear hblock sector)

/-- Writing the blocks of a file, which are no blocks of the directory. -/
theorem Writable.writeDataLoop {result : UInt32}
    (hprevious : previous = 0 ∨ ¬Still sb dir previous)
    (hrun : run (answer drive) (writeDataLoop sb rounds data previous first) state =
      (.ok result, after)) :
    Undisturbed sb drive dir state after := by
  induction rounds generalizing state data previous first with
  | zero =>
    obtain rfl := congrArg Prod.snd hrun
    exact .refl hwritable
  | succ rounds ih =>
    rw [Storage.writeDataLoop] at hrun
    split at hrun
    · obtain rfl := congrArg Prod.snd hrun
      exact .refl hwritable
    · obtain ⟨new, allocated, halloc, hrun⟩ := run_bind_eq_ok.mp hrun
      obtain ⟨hnew, hquiet⟩ := hwritable.alloc halloc
      have hdropped := hquiet.writable.steady
        (steady_cacheInvalidateBlock hquiet.writable.clear new)
      replace hrun := (run_bind_ok run_invalidateBlock).symm.trans hrun
      refine hquiet.trans (hdropped.trans ?_)
      -- what comes after the block before is linked
      have hrest (middle : State) (hmiddle : Writable sb drive dir middle)
          (hrun : run (answer drive) (Storage.writeBlock new
              (setData zeroBlock 0 (data.take dataPerBlock)) >>= fun _ ↦
            Storage.writeDataLoop sb rounds (data.drop dataPerBlock) new
              (if first = 0 then new else first)) middle = (.ok result, after)) :
          Undisturbed sb drive dir middle after := by
        obtain ⟨⟨⟩, written, hwrite, hrun⟩ := run_bind_eq_ok.mp hrun
        have hwritten := hmiddle.writeBlock hnew hwrite
        exact hwritten.trans (ih hwritten.writable (Or.inr hnew) hrun)
      by_cases hlinked : previous ≠ 0
      · simp only [if_pos hlinked] at hrun
        obtain ⟨sector, read, hread, hrun⟩ := run_bind_eq_ok.mp hrun
        obtain ⟨-, -, hread⟩ :=
          hdropped.writable.reads (raw_readBlock previous) run_flat_readBlock hread
        obtain ⟨⟨⟩, linked, hlink, hrun⟩ := run_bind_eq_ok.mp hrun
        have hlink := hread.writable.writeBlock (hprevious.resolve_left hlinked) hlink
        exact hread.trans (hlink.trans (hrest linked hlink.writable hrun))
      · simp only [if_neg hlinked] at hrun
        exact hrest _ hdropped.writable hrun

end

end Data

/-! ### The table of the directory -/

/-- The entries that `eynfs_write_file` reads of a directory. -/
def slotsRead (blocks : List UInt32) : ℕ :=
  min (entriesPerBlock * (blocks.take 32).length) maxTableEntries

section Table

variable {flat : Flat} {first : UInt32} {blocks : List UInt32} {index : ℕ} {entry : DirEntry}

/-- The slots of the first 32 blocks are counted. -/
theorem run_flat_countDirEntriesLoop (hlinks : Links flat first blocks 0) (rounds total : ℕ) :
    run answerFlat (countDirEntriesLoop rounds first total) flat =
      (.ok (total + entriesPerBlock * (blocks.take rounds).length), flat) := by
  induction rounds generalizing first blocks total with
  | zero => rfl
  | succ rounds ih =>
    rw [countDirEntriesLoop]
    cases blocks with
    | nil =>
      obtain rfl : first = 0 := hlinks
      rw [if_pos rfl]
      rfl
    | cons block blocks =>
      obtain ⟨rfl, hfirst, hrest⟩ := hlinks
      rw [if_neg hfirst, run_bind_ok run_flat_readBlock, ih hrest, List.take_succ_cons,
        List.length_cons, Nat.mul_succ, Nat.add_assoc, Nat.add_comm entriesPerBlock]

theorem slotsRead_le (flat : Flat) (blocks : List UInt32) :
    slotsRead blocks ≤ (table flat blocks).length := by
  rw [slotsRead, length_table]
  refine (Nat.min_le_left _ _).trans (Nat.mul_le_mul_left _ ?_)
  rw [List.length_take]
  exact Nat.min_le_right _ _

/-- The end of `eynfs_write_file` fills the first blocks of the directory with the entries that it
has read, one of them changed. -/
theorem flat_updateDirectory (hlinks : Links flat first blocks 0) (hblocks : blocks ≠ []) :
    ∃ after, run answerFlat (updateDirectory true first index entry) flat = (.ok (), after) ∧
      Filled after (blocks.take (blocksFor (slotsRead blocks)))
        ((((table flat blocks).take (slotsRead blocks)).map DirEntry.terminate).set
          (min index (slotsRead blocks - 1)) entry) 0 := by
  have hsome : (blocks.take 32).length ≠ 0 := by
    rw [List.length_take]
    have hlength := List.length_pos_of_ne_nil hblocks
    omega
  have hcount : entriesPerBlock * (blocks.take 32).length ≠ 0 :=
    Nat.mul_ne_zero (by decide) hsome
  have hlength : (((table flat blocks).take (slotsRead blocks)).map DirEntry.terminate).length =
      slotsRead blocks := by
    rw [List.length_map, List.length_take, Nat.min_eq_left (slotsRead_le flat blocks)]
  have hread : slotsRead blocks ≠ 0 := by
    rw [slotsRead, maxTableEntries, dirEntrySize]
    omega
  generalize hentries : (((table flat blocks).take (slotsRead blocks)).map
    DirEntry.terminate).set (min index (slotsRead blocks - 1)) entry = entries
  have hsize : entries.length = slotsRead blocks := by
    rw [← hentries, List.length_set, hlength]
  have hfits : entries.length ≤ entriesPerBlock * (blocks.take 32).length :=
    hsize.trans_le (Nat.min_le_left _ _)
  obtain ⟨after, hrun, hfilled, -⟩ := flat_writeDirTable_fits hlinks
    (List.ne_nil_of_length_pos (Nat.pos_of_ne_zero (hsize ▸ hread))) hfits
  rw [hsize] at hfilled
  refine ⟨after, ?_, hfilled⟩
  refine (run_bind_ok (run_flat_countDirEntriesLoop hlinks 32 0)).trans ?_
  rw [Nat.zero_add, if_neg (not_or.mpr ⟨hcount, Bool.noConfusion⟩)]
  refine (run_bind_ok (run_flat_readDirTableLoop hlinks le_rfl)).trans ?_
  rw [← slotsRead, hlength, hentries]
  exact hrun

theorem raw_countDirEntriesLoop (rounds : ℕ) (block : UInt32) (total : ℕ) :
    Only IsRaw (countDirEntriesLoop rounds block total) := by
  induction rounds generalizing block total with
  | zero => exact trivial
  | succ rounds ih =>
    rw [countDirEntriesLoop]
    split
    · exact trivial
    · exact (raw_readBlock _).bind fun _ ↦ ih _ _

/-- The end of `eynfs_write_file` makes no use of the cache. -/
theorem raw_updateDirectory (haveMemory : Bool) (parent : UInt32) (index : ℕ) (entry : DirEntry) :
    Only IsRaw (updateDirectory haveMemory parent index entry) := by
  refine (raw_countDirEntriesLoop _ _ _).bind fun count ↦ ?_
  split
  · exact trivial
  · exact (raw_readDirTableLoop _ _ _).bind fun entries ↦ raw_writeDirTable _ _

end Table

/-! ### One slot -/

/-- A directory has the blocks it had, and its table has another entry in one slot only. -/
def OnlySlot (before after : Flat) (first : UInt32) (blocks : List UInt32) (index : ℕ)
    (entry : DirEntry) : Prop :=
  Links after first blocks 0 ∧
    List.Forall₂ SameEntry ((table before blocks).set index entry) (table after blocks)

section OneSlot

variable {sb : Superblock} {drive rounds index : ℕ} {haveMemory : Bool} {state after : State}
  {entry updated : DirEntry} {data : List UInt8} {parent : UInt32} {blocks old : List UInt32}

/-- The table that `eynfs_write_file` leaves. -/
theorem writeFile_filled (hwritable : Writable sb drive blocks state)
    (hlinks : Links (state.flat drive) parent blocks 0) (hblocks : blocks ≠ [])
    (hold : Links (state.flat drive) entry.firstBlock old 0)
    (hapart : ∀ block ∈ old, Kept sb (state.flat drive) block ∧ block ∉ blocks)
    (hrun : run (answer drive) (writeFile rounds haveMemory sb entry data parent index) state =
      (.ok updated, after)) :
    updated.type = EYNFS_TYPE_FILE ∧
      Filled (after.flat drive) (blocks.take (blocksFor (slotsRead blocks)))
        ((((table (state.flat drive) blocks).take (slotsRead blocks)).map DirEntry.terminate).set
          (min index (slotsRead blocks - 1)) updated) 0 := by
  rw [writeFile] at hrun
  split at hrun
  · exact absurd (congrArg Prod.fst hrun) (by simp [failure])
  · rename_i htype
    obtain ⟨⟨⟩, freed, hfree, hrun⟩ := run_bind_eq_ok.mp hrun
    have hfreed := hwritable.freeOldLoop hold hapart hfree
    obtain ⟨first, written, hwrite, hrun⟩ := run_bind_eq_ok.mp hrun
    have hquiet := hfreed.trans (hfreed.writable.writeDataLoop (Or.inl rfl) hwrite)
    obtain ⟨⟨⟩, changed, hupdate, hrun⟩ := run_bind_eq_ok.mp hrun
    obtain ⟨hresult, rfl⟩ := Prod.mk.inj hrun
    obtain rfl := Except.ok.inj hresult
    have hmemory : haveMemory = true := by
      by_contra hfalse
      obtain ⟨count, counted, -, hrest⟩ := run_bind_eq_ok.mp hupdate
      rw [if_pos (Or.inr (Bool.eq_false_of_not_eq_true hfalse))] at hrest
      exact absurd (congrArg Prod.fst hrest) (by simp [failure])
    subst hmemory
    obtain ⟨hflat, -, -⟩ := run_raw hquiet.writable.succeeds (raw_updateDirectory _ _ _ _) hupdate
    obtain ⟨flatAfter, hruns, hfilled⟩ := flat_updateDirectory
      (hlinks.congr hquiet.same) hblocks
    rw [hruns] at hflat
    obtain rfl := (Prod.mk.inj hflat).2
    rw [table_congr hquiet.same] at hfilled
    exact ⟨(type_setContents _ _ _).trans (not_not.mp htype), hfilled⟩

/-- The entries with one changed, slot by slot. -/
theorem getD_set (entries : List DirEntry) {slot : ℕ} (hindex : index < entries.length)
    (entry : DirEntry) :
    (entries.set index entry).getD slot emptyEntry =
      if slot = index then entry else entries.getD slot emptyEntry := by
  rw [List.getD_eq_getElem?_getD, List.getD_eq_getElem?_getD, List.getElem?_set]
  by_cases hslot : index = slot
  · rw [if_pos hslot, if_pos hslot.symm, if_pos (hslot ▸ hindex)]
    rfl
  · rw [if_neg hslot, if_neg fun heq ↦ hslot heq.symm]

/-- The entries that are written back, slot by slot. -/
theorem getD_rewritten (entries : List DirEntry) {count slot : ℕ} (hcount : count ≤ entries.length)
    (hsome : 0 < count) (entry : DirEntry) :
    (((entries.take count).map DirEntry.terminate).set (min index (count - 1)) entry).getD slot
        emptyEntry =
      if slot = min index (count - 1) then entry
      else if slot < count then (entries.getD slot emptyEntry).terminate else emptyEntry := by
  have hlength : ((entries.take count).map DirEntry.terminate).length = count := by
    rw [List.length_map, List.length_take, Nat.min_eq_left hcount]
  rw [getD_set _ (by omega)]
  refine if_congr Iff.rfl rfl ?_
  split
  · rename_i hslot
    have hinside : slot < ((entries.take count).map DirEntry.terminate).length := by
      rwa [hlength]
    rw [List.getD_eq_getElem _ _ hinside, List.getElem_map, List.getElem_take,
      List.getD_eq_getElem _ _ (hslot.trans_le hcount)]
  · rename_i hslot
    rw [List.getD_eq_default _ _ (by omega)]

theorem not_sameEntry_emptyEntry (hfile : updated.type = EYNFS_TYPE_FILE) :
    ¬SameEntry updated emptyEntry := by
  intro hsame
  have hbyte := hsame.2 32 (by decide) (by decide)
  exact absurd (hfile.symm.trans hbyte) (by decide)

/-- Where the directory has at most nine blocks, the slots that were read stay up to the one that is
changed, and those behind them become free. -/
theorem onlySlot_iff_of_le (hfew : blocks.length ≤ 9)
    (hlinks : Links (state.flat drive) parent blocks 0)
    (hended : ∀ entry ∈ table (state.flat drive) blocks, entry.Terminated)
    (hindex : index < entriesPerBlock * blocks.length) (hfile : updated.type = EYNFS_TYPE_FILE)
    (hfilled : Filled (after.flat drive) (blocks.take (blocksFor (slotsRead blocks)))
      ((((table (state.flat drive) blocks).take (slotsRead blocks)).map DirEntry.terminate).set
        (min index (slotsRead blocks - 1)) updated) 0) :
    OnlySlot (state.flat drive) (after.flat drive) parent blocks index updated ↔
      index < slotsRead blocks ∧ ∀ slot, slotsRead blocks ≤ slot →
        slot < entriesPerBlock * blocks.length →
          SameEntry ((table (state.flat drive) blocks).getD slot emptyEntry) emptyEntry := by
  have hslots : entriesPerBlock = 9 := rfl
  have hread : slotsRead blocks = min (entriesPerBlock * blocks.length) 78 := by
    rw [slotsRead, List.take_of_length_le (hfew.trans (by decide))]
    rfl
  have hall : blocks.take (blocksFor (slotsRead blocks)) = blocks := by
    refine List.take_of_length_le ?_
    rw [hread, blocksFor, hslots]
    omega
  rw [hall] at hfilled
  have hafter := hfilled.links hlinks.nonzero
  have hhead : blocks.headD 0 = parent := by
    cases blocks with
    | nil => exact absurd hindex (Nat.not_lt_zero index)
    | cons block blocks => exact hlinks.1
  rw [hhead] at hafter
  have hlength := length_table (state.flat drive) blocks
  have hsome : 0 < slotsRead blocks := by omega
  have hslot (slot : ℕ) (hslot : slot < entriesPerBlock * blocks.length) :
      (table (after.flat drive) blocks).getD slot emptyEntry =
        if slot = min index (slotsRead blocks - 1) then updated
        else if slot < slotsRead blocks then
          ((table (state.flat drive) blocks).getD slot emptyEntry).terminate
        else emptyEntry := by
    rw [hfilled.table, getD_padded hslot, getD_rewritten _ (slotsRead_le _ _) hsome]
  rw [OnlySlot, and_iff_right hafter, forall₂_sameEntry_iff, List.length_set, length_table,
    length_table, and_iff_right rfl]
  constructor
  · intro hsame
    have hinside : index < slotsRead blocks := by
      by_contra houtside
      have hat := hsame index hindex
      rw [getD_set _ (by omega), if_pos rfl, hslot index hindex, if_neg (by omega),
        if_neg houtside] at hat
      exact not_sameEntry_emptyEntry hfile hat
    refine ⟨hinside, fun slot hbehind hsize ↦ ?_⟩
    have hat := hsame slot hsize
    rwa [getD_set _ (by omega), if_neg (by omega), hslot slot hsize, if_neg (by omega),
      if_neg (by omega)] at hat
  · rintro ⟨hinside, hfree⟩ slot hsize
    rw [getD_set _ (by omega), hslot slot hsize, Nat.min_eq_left (by omega)]
    split
    · exact .refl updated
    · split
      · refine sameEntry_terminate (hended _ ?_)
        rw [List.getD_eq_getElem _ _ (by omega)]
        exact List.getElem_mem _
      · exact hfree slot (by omega) hsize

/-- Where the directory has more than nine blocks, those behind the ninth are dropped. -/
theorem not_onlySlot_of_lt (hmany : 9 < blocks.length)
    (hlinks : Links (state.flat drive) parent blocks 0)
    {entries : List DirEntry}
    (hfilled : Filled (after.flat drive) (blocks.take (blocksFor (slotsRead blocks))) entries 0) :
    ¬OnlySlot (state.flat drive) (after.flat drive) parent blocks index updated := by
  have hslots : entriesPerBlock = 9 := rfl
  have hread : slotsRead blocks = 78 := by
    rw [slotsRead, List.length_take, maxTableEntries, dirEntrySize, hslots]
    omega
  rw [hread, show blocksFor 78 = 9 from rfl] at hfilled
  rintro ⟨hafter, -⟩
  have hfirst := hfilled.links fun block hblock ↦
    hlinks.nonzero block (List.mem_of_mem_take hblock)
  have hhead : (blocks.take 9).headD 0 = parent := by
    cases blocks with
    | nil => exact absurd hmany (by simp)
    | cons block blocks => exact hlinks.1
  rw [hhead] at hfirst
  have hlength := congrArg List.length (hafter.unique hfirst)
  rw [List.length_take] at hlength
  omega

/-- When `eynfs_write_file` has written a file, only the slot of its entry has changed in the table
of the directory and no block of it is dropped, exactly if the directory has at most eight blocks,
or nine with nothing in the last three slots and the entry not there. -/
theorem onlySlot_iff (hwritable : Writable sb drive blocks state)
    (hlinks : Links (state.flat drive) parent blocks 0)
    (hended : ∀ entry ∈ table (state.flat drive) blocks, entry.Terminated)
    (hindex : index < entriesPerBlock * blocks.length)
    (hold : Links (state.flat drive) entry.firstBlock old 0)
    (hapart : ∀ block ∈ old, Kept sb (state.flat drive) block ∧ block ∉ blocks)
    (hrun : run (answer drive) (writeFile rounds haveMemory sb entry data parent index) state =
      (.ok updated, after)) :
    OnlySlot (state.flat drive) (after.flat drive) parent blocks index updated ↔
      blocks.length ≤ 8 ∨ blocks.length = 9 ∧ index < 78 ∧ ∀ slot, 78 ≤ slot → slot < 81 →
        SameEntry ((table (state.flat drive) blocks).getD slot emptyEntry) emptyEntry := by
  have hslots : entriesPerBlock = 9 := rfl
  have hblocks : blocks ≠ [] := by
    rintro rfl
    exact absurd hindex (Nat.not_lt_zero index)
  obtain ⟨hfile, hfilled⟩ := writeFile_filled hwritable hlinks hblocks hold hapart hrun
  by_cases hfew : blocks.length ≤ 9
  · have hread : slotsRead blocks = min (9 * blocks.length) 78 := by
      rw [slotsRead, List.take_of_length_le (hfew.trans (by decide))]
      rfl
    rw [onlySlot_iff_of_le hfew hlinks hended hindex hfile hfilled, hread, hslots]
    rw [hslots] at hindex
    rcases Nat.lt_or_eq_of_le hfew with hless | heq
    · refine ⟨fun _ ↦ Or.inl (Nat.le_of_lt_succ hless), fun _ ↦ ⟨?_, fun slot hbehind hsize ↦ ?_⟩⟩
      · omega
      · omega
    · rw [heq]
      constructor
      · exact fun hlast ↦ Or.inr ⟨rfl, hlast⟩
      · rintro (hless | ⟨-, hlast⟩)
        · exact absurd hless (by decide)
        · exact hlast
  · refine iff_of_false (not_onlySlot_of_lt (Nat.lt_of_not_le hfew) hlinks hfilled) ?_
    omega

end OneSlot

/-! ### A small and a long directory -/

/-- A file named `a` without contents. -/
def smallFile : DirEntry := newEntry [97] EYNFS_TYPE_FILE 0

theorem terminated_of_all {flat : Flat} {blocks : List UInt32}
    (hall : (table flat blocks).all (fun entry ↦ decide entry.Terminated) = true) :
    ∀ entry ∈ table flat blocks, entry.Terminated :=
  fun entry hentry ↦ of_decide_eq_true (List.all_eq_true.mp hall entry hentry)

/-- The root directory of a drive that was formatted can be written to. -/
theorem writable_fresh : Writable freshSuperblock 0 [3] freshState where
  succeeds _ _ := rfl
  volume := volume_fresh
  kept := List.forall_mem_singleton.mpr kept_fresh
  clear := clear_unused rfl

/-- Two bytes are written to a file there, and no other slot changes. -/
theorem onlySlot_fresh :
    ∃ updated after, run (answer 0) (writeFile 1 true freshSuperblock smallFile [104, 105] 3 0)
        freshState = (.ok updated, after) ∧
      OnlySlot (freshState.flat 0) (after.flat 0) 3 [3] 0 updated := by
  have hok : (run (answer 0) (writeFile 1 true freshSuperblock smallFile [104, 105] 3 0)
      freshState).1.isOk = true := by decide +kernel
  rcases hrun : run (answer 0) (writeFile 1 true freshSuperblock smallFile [104, 105] 3 0)
    freshState with ⟨_ | updated, after⟩
  · rw [hrun] at hok
    exact absurd hok Bool.false_ne_true
  · have hold : Links (freshState.flat 0) smallFile.firstBlock [] 0 := by decide +kernel
    refine ⟨updated, after, rfl, (onlySlot_iff writable_fresh links_fresh
      (terminated_of_all (by decide +kernel)) (by decide) hold ?_ hrun).mpr (Or.inl (by decide))⟩
    exact fun _ hmem ↦ absurd hmem List.not_mem_nil

/-- The sectors of a drive whose root directory has ten blocks. -/
def longSectors (lba : UInt32) : Sector :=
  if lba = blockToLba 1 then copyInto zeroBlock 0 2 fun _ ↦ 255
  else if blockToLba 3 ≤ lba ∧ lba < blockToLba 12 then setNext zeroBlock (lba - blockToLba 0 + 1)
  else freshSectors lba

/-- A drive with those sectors and one candidate of the allocator. -/
def longState : State :=
  { freshState with
    disk := fun _ ↦ { freshDrive with sectors := longSectors }
    freeBlockCache := [20] }

def longBlocks : List UInt32 := [3, 4, 5, 6, 7, 8, 9, 10, 11, 12]

/-- The long directory can be written to. -/
theorem writable_long : Writable freshSuperblock 0 longBlocks longState where
  succeeds _ _ := rfl
  volume :=
    { superblock := by decide +kernel
      zero := by decide +kernel
      bitmap := fun block hblock ↦ by
        rw [bitmapBlock_fresh hblock]
        decide +kernel
      reserved := fun _ ↦ by
        have hfree : (20 : UInt32).toNat < freshSuperblock.totalBlocks.toNat ∧
            (longState.flat 0).used freshSuperblock (20 : UInt32).toNat = false := by
          decide +kernel
        exact ⟨List.nodup_singleton 20, List.forall_mem_singleton.mpr hfree⟩
      inside := by decide }
  kept := by
    have hall : longBlocks.all (fun block ↦ decide (1 < block.toNat ∧ block.toNat < 64 ∧
        (longState.flat 0).used freshSuperblock block.toNat = true)) = true := by decide +kernel
    intro block hblock
    obtain ⟨hreal, hbound, hused⟩ := of_decide_eq_true (List.all_eq_true.mp hall block hblock)
    exact kept_of_used hreal hbound hused
  clear := clear_unused rfl

/-- Writing an empty file there drops its last block. -/
theorem not_onlySlot :
    ¬∀ (sb : Superblock) (drive rounds index : ℕ) (haveMemory : Bool) (state after : State)
      (entry updated : DirEntry) (data : List UInt8) (parent : UInt32) (blocks old : List UInt32),
      Writable sb drive blocks state → Links (state.flat drive) parent blocks 0 →
        (∀ entry ∈ table (state.flat drive) blocks, entry.Terminated) →
          index < entriesPerBlock * blocks.length →
            Links (state.flat drive) entry.firstBlock old 0 →
              (∀ block ∈ old, Kept sb (state.flat drive) block ∧ block ∉ blocks) →
                run (answer drive) (writeFile rounds haveMemory sb entry data parent index) state =
                    (.ok updated, after) →
                  OnlySlot (state.flat drive) (after.flat drive) parent blocks index updated := by
  intro hclaim
  have hlinks : Links (longState.flat 0) 3 longBlocks 0 := by decide +kernel
  have hold : Links (longState.flat 0) smallFile.firstBlock [] 0 := by decide +kernel
  have hapart : ∀ block ∈ ([] : List UInt32),
      Kept freshSuperblock (longState.flat 0) block ∧ block ∉ longBlocks :=
    fun _ hmem ↦ absurd hmem List.not_mem_nil
  have hok : (run (answer 0) (writeFile 1 true freshSuperblock smallFile [] 3 0)
      longState).1.isOk = true := by decide +kernel
  rcases hrun : run (answer 0) (writeFile 1 true freshSuperblock smallFile [] 3 0) longState with
    ⟨_ | updated, after⟩
  · rw [hrun] at hok
    exact absurd hok Bool.false_ne_true
  · obtain ⟨-, hfilled⟩ :=
      writeFile_filled writable_long hlinks (List.cons_ne_nil _ _) hold hapart hrun
    refine not_onlySlot_of_lt (by decide) hlinks hfilled
      (hclaim _ _ _ _ _ _ _ _ _ _ _ _ _ writable_long hlinks ?_ (by decide) hold hapart hrun)
    exact terminated_of_all (by decide +kernel)

end EynOS.Storage
