import EynOS.Storage.Volume

/-!
# The table of a directory

`eynfs_read_dir_table` reads the entries of a chain of blocks and `eynfs_write_dir_table` writes a
list of entries over one, appending blocks where there are more entries than slots. The second loop
of the writer writes every appended block over the one that the first loop allocated:
`roundTrips_iff` says that the entries are read back exactly where at most one block is appended.
-/

namespace EynOS.Storage

open Foundation Interaction

/-! ### Reading -/

/-- The entries in some blocks of a directory. -/
def table (flat : Flat) (blocks : List UInt32) : List DirEntry :=
  blocks.flatMap fun block ↦ entriesOf (flat.block block)

section Reading

variable {flat after : Flat} {first last : UInt32} {blocks others : List UInt32}

theorem length_entriesOf (sector : Sector) : (entriesOf sector).length = entriesPerBlock := by
  rw [entriesOf, List.length_map, List.length_range]

theorem table_cons (flat : Flat) (block : UInt32) (blocks : List UInt32) :
    table flat (block :: blocks) = entriesOf (flat.block block) ++ table flat blocks :=
  List.flatMap_cons

theorem table_append (flat : Flat) (blocks others : List UInt32) :
    table flat (blocks ++ others) = table flat blocks ++ table flat others :=
  List.flatMap_append

/-- A block has nine slots. -/
theorem length_table (flat : Flat) (blocks : List UInt32) :
    (table flat blocks).length = entriesPerBlock * blocks.length := by
  induction blocks with
  | nil => rfl
  | cons block blocks ih =>
    rw [table_cons, List.length_append, ih, length_entriesOf, List.length_cons, Nat.mul_succ,
      Nat.add_comm]

theorem table_congr (hsame : ∀ block ∈ blocks, after.block block = flat.block block) :
    table after blocks = table flat blocks := by
  induction blocks with
  | nil => rfl
  | cons block blocks ih =>
    obtain ⟨hblock, hrest⟩ := List.forall_mem_cons.mp hsame
    rw [table_cons, table_cons, hblock, ih hrest]

/-- `eynfs_read_dir_table` reads the first entries of the table. -/
theorem run_flat_readDirTableLoop {rounds wanted : ℕ} (hlinks : Links flat first blocks 0)
    (hrounds : wanted ≤ rounds) :
    run answerFlat (readDirTableLoop rounds wanted first) flat =
      (.ok (((table flat blocks).take wanted).map DirEntry.terminate), flat) := by
  induction rounds generalizing wanted first blocks with
  | zero =>
    obtain rfl : wanted = 0 := Nat.le_zero.mp hrounds
    rfl
  | succ rounds ih =>
    rw [readDirTableLoop]
    cases blocks with
    | nil =>
      obtain rfl : first = 0 := hlinks
      rw [if_pos (Or.inl rfl), table, List.flatMap_nil, List.take_nil]
      rfl
    | cons block blocks =>
      obtain ⟨rfl, hfirst, hrest⟩ := hlinks
      split
      · rename_i hend
        rw [hend.resolve_left hfirst]
        rfl
      · rename_i hwanted
        have hless : wanted - entriesPerBlock ≤ rounds := by
          have hslots : entriesPerBlock = 9 := rfl
          omega
        rw [run_bind_ok run_flat_readBlock, run_bind_ok (ih hrest hless), run_pure, table_cons,
          List.take_append, length_entriesOf, List.map_append]

/-- The blocks that `eynfs_write_dir_table` writes over are the first 32 ones. -/
theorem run_flat_originalBlocks (hlinks : Links flat first blocks 0) (rounds : ℕ) :
    run answerFlat (originalBlocks rounds first) flat = (.ok (blocks.take rounds), flat) := by
  induction rounds generalizing first blocks with
  | zero => rfl
  | succ rounds ih =>
    rw [originalBlocks]
    cases blocks with
    | nil =>
      obtain rfl : first = 0 := hlinks
      rw [if_pos rfl]
      rfl
    | cons block blocks =>
      obtain ⟨rfl, hfirst, hrest⟩ := hlinks
      rw [if_neg hfirst, run_bind_ok (run_attempt_ok run_flat_readBlock)]
      exact run_bind_ok (ih hrest)

end Reading

/-! ### Writing -/

/-- Some blocks have the entries of a list one after another, and each one links to the next. -/
def Filled (flat : Flat) : List UInt32 → List DirEntry → UInt32 → Prop
  | [], _, _ => True
  | block :: blocks, entries, last =>
    flat.block block = dirBlock entries (blocks.headD last) ∧
      Filled flat blocks (entries.drop entriesPerBlock) last

section Writing

variable {flat after : Flat} {block last : UInt32} {blocks others : List UInt32}
  {entries : List DirEntry} {sb : Superblock}

theorem Filled.congr (hfilled : Filled flat blocks entries last)
    (hsame : ∀ block ∈ blocks, after.block block = flat.block block) :
    Filled after blocks entries last := by
  induction blocks generalizing entries with
  | nil => exact trivial
  | cons block blocks ih =>
    obtain ⟨hblock, hother⟩ := List.forall_mem_cons.mp hsame
    exact ⟨hblock.trans hfilled.1, ih hfilled.2 hother⟩

theorem Filled.links (hfilled : Filled flat blocks entries last)
    (hnonzero : ∀ block ∈ blocks, block ≠ 0) : Links flat (blocks.headD last) blocks last := by
  induction blocks generalizing entries with
  | nil => exact rfl
  | cons block blocks ih =>
    obtain ⟨hfirst, hother⟩ := List.forall_mem_cons.mp hnonzero
    refine ⟨rfl, hfirst, ?_⟩
    change Links flat (nextBlock (flat.block block)) blocks last
    rw [hfilled.1, nextBlock_dirBlock]
    exact ih hfilled.2 hother

/-- The table in filled blocks: the entries, and free slots behind them. -/
theorem Filled.table (hfilled : Filled flat blocks entries last) :
    table flat blocks = padded (entriesPerBlock * blocks.length) entries := by
  induction blocks generalizing entries with
  | nil => rfl
  | cons block blocks ih =>
    rw [table_cons, hfilled.1, entriesOf_dirBlock, ih hfilled.2, List.length_cons, Nat.mul_succ,
      Nat.add_comm, padded_add]

/-- The first loop where the entries that are left fit one block. -/
theorem writeOriginalBlocks_last (hentries : entries ≠ [])
    (hlast : entries.drop entriesPerBlock = []) :
    writeOriginalBlocks sb (block :: blocks) entries =
      writeDirBlock block entries 0 >>= fun _ ↦ pure ([], 0) := by
  cases blocks <;> rw [writeOriginalBlocks, if_neg hentries, if_pos hlast]

/-- The first loop where there are more entries and a further block. -/
theorem writeOriginalBlocks_next {next : UInt32} (hmore : entries.drop entriesPerBlock ≠ []) :
    writeOriginalBlocks sb (block :: next :: blocks) entries =
      writeDirBlock block entries next >>= fun _ ↦
        writeOriginalBlocks sb (next :: blocks) (entries.drop entriesPerBlock) := by
  have hentries : entries ≠ [] := fun hnil ↦ hmore (by rw [hnil, List.drop_nil])
  rw [writeOriginalBlocks, if_neg hentries, if_neg hmore]

theorem writeOriginalBlocks_append (hmore : entries.drop entriesPerBlock ≠ []) :
    writeOriginalBlocks sb [block] entries =
      allocUnchecked sb >>= fun next ↦ writeDirBlock block entries next >>= fun _ ↦
        pure (entries.drop entriesPerBlock, next) := by
  have hentries : entries ≠ [] := fun hnil ↦ hmore (by rw [hnil, List.drop_nil])
  rw [writeOriginalBlocks, if_neg hentries, if_neg hmore]

theorem run_flat_writeDirBlock (block last : UInt32) (entries : List DirEntry) :
    run answerFlat (writeDirBlock block entries last) flat =
      (.ok (), flat.write (blockToLba block) (dirBlock entries last)) := rfl

def blocksFor (count : ℕ) : ℕ := (count + (entriesPerBlock - 1)) / entriesPerBlock

theorem blocksFor_eq_one {count : ℕ} (hsome : 0 < count) (hfits : count ≤ entriesPerBlock) :
    blocksFor count = 1 := by
  have hslots : entriesPerBlock = 9 := rfl
  rw [blocksFor, hslots]
  omega

theorem le_blocksFor (count : ℕ) : count ≤ entriesPerBlock * blocksFor count := by
  have hslots : entriesPerBlock = 9 := rfl
  rw [blocksFor, hslots]
  omega

theorem blocksFor_pos {count : ℕ} (hsome : 0 < count) : 0 < blocksFor count := by
  have hslots : entriesPerBlock = 9 := rfl
  rw [blocksFor, hslots]
  omega

theorem blocksFor_sub {count : ℕ} (hmore : entriesPerBlock < count) :
    blocksFor count = blocksFor (count - entriesPerBlock) + 1 := by
  have hslots : entriesPerBlock = 9 := rfl
  rw [blocksFor, blocksFor, hslots]
  omega

/-- The first loop of `eynfs_write_dir_table`, where the entries fit the blocks. -/
theorem flat_writeOriginalBlocks_fits (sb : Superblock) (flat : Flat) (hnodup : blocks.Nodup)
    (hentries : entries ≠ [])
    (hfits : entries.length ≤ entriesPerBlock * blocks.length) :
    ∃ after, run answerFlat (writeOriginalBlocks sb blocks entries) flat = (.ok ([], 0), after) ∧
      Filled after (blocks.take (blocksFor entries.length)) entries 0 ∧
        ∀ other ∉ blocks.take (blocksFor entries.length), after.block other = flat.block other := by
  induction blocks generalizing entries flat with
  | nil =>
    rw [List.length_nil, Nat.mul_zero] at hfits
    exact absurd (List.eq_nil_of_length_eq_zero (Nat.le_zero.mp hfits)) hentries
  | cons block blocks ih =>
    obtain ⟨hblock, hrest⟩ := List.nodup_cons.mp hnodup
    by_cases hlast : entries.drop entriesPerBlock = []
    · have hshort : entries.length ≤ entriesPerBlock := List.drop_eq_nil_iff.mp hlast
      rw [writeOriginalBlocks_last hentries hlast,
        blocksFor_eq_one (List.length_pos_of_ne_nil hentries) hshort]
      refine ⟨_, rfl, ⟨Flat.block_write _ _ _, trivial⟩, fun other hother ↦ ?_⟩
      exact Flat.block_write_of_ne (List.ne_of_not_mem_cons hother)
    · have hlong : entriesPerBlock < entries.length :=
        Nat.lt_of_not_le fun hshort ↦ hlast (List.drop_eq_nil_iff.mpr hshort)
      rw [List.length_cons, Nat.mul_succ] at hfits
      cases blocks with
      | nil =>
        rw [List.length_nil] at hfits
        omega
      | cons next blocks =>
        have hleft : (entries.drop entriesPerBlock).length ≤
            entriesPerBlock * (next :: blocks).length := by
          rw [List.length_drop]
          omega
        obtain ⟨after, hrun, hfilled, hsame⟩ :=
          ih (flat.write (blockToLba block) (dirBlock entries next)) hrest hlast hleft
        rw [List.length_drop] at hfilled hsame
        rw [writeOriginalBlocks_next hlast, run_bind_ok (run_flat_writeDirBlock _ _ _),
          blocksFor_sub hlong, List.take_succ_cons]
        refine ⟨after, hrun, ⟨?_, hfilled⟩, fun other hother ↦ ?_⟩
        · obtain ⟨count, hcount⟩ := Nat.exists_eq_succ_of_ne_zero
            (blocksFor_pos (Nat.sub_pos_of_lt hlong)).ne'
          rw [hsame block fun hmem ↦ hblock (List.mem_of_mem_take hmem), Flat.block_write, hcount]
          rfl
        · obtain ⟨hne, hmem⟩ := not_or.mp (List.mem_cons.not.mp hother)
          rw [hsame other hmem, Flat.block_write_of_ne hne]

/-- The block that is allocated is no block of a file or a directory, also where it is the error
code. -/
theorem Volume.allocUnchecked (hvolume : Volume sb flat) :
    ∃ block after, run answerFlat (allocUnchecked sb) flat = (.ok block, after) ∧
      Remarked sb (fun _ ↦ True) flat after ∧ block ≠ 0 ∧ NoBitmap sb block ∧
        ¬Kept sb flat block := by
  obtain ⟨after, hremarked, ⟨block, hrun, hkept, hfresh⟩ | hrun⟩ := hvolume.alloc
  · exact ⟨block, after, run_bind_ok (run_attempt_ok hrun), hremarked, hkept.nonzero,
      hkept.noBitmap, hfresh⟩
  · have hlarge : ¬(0xFFFFFFFF : UInt32).toNat < sb.totalBlocks.toNat :=
      Nat.not_lt.mpr (Nat.le_of_lt_succ sb.totalBlocks.toNat_lt)
    refine ⟨0xFFFFFFFF, after, run_bind_ok (run_attempt_error hrun), hremarked, by decide,
      fun number hnumber heq ↦ ?_, fun hkept ↦ hlarge hkept.inside⟩
    exact hlarge (heq ▸ (hvolume.bitmap number hnumber).1)

/-- The first loop of `eynfs_write_dir_table`, where there are more entries than the blocks have
slots. -/
theorem flat_writeOriginalBlocks_appends (hvolume : Volume sb flat) (hnodup : blocks.Nodup)
    (hkept : ∀ block ∈ blocks, Kept sb flat block) (hblocks : blocks ≠ [])
    (hmore : entriesPerBlock * blocks.length < entries.length) :
    ∃ allocated after, run answerFlat (writeOriginalBlocks sb blocks entries) flat =
        (.ok (entries.drop (entriesPerBlock * blocks.length), allocated), after) ∧
      Volume sb after ∧ ¬Kept sb flat allocated ∧ allocated ≠ 0 ∧ NoBitmap sb allocated ∧
        Filled after blocks entries allocated ∧
          ∀ other ∉ blocks, NoBitmap sb other → after.block other = flat.block other := by
  induction blocks generalizing entries flat with
  | nil => exact absurd rfl hblocks
  | cons block blocks ih =>
    obtain ⟨hblock, hrest⟩ := List.nodup_cons.mp hnodup
    obtain ⟨hfirst, hothers⟩ := List.forall_mem_cons.mp hkept
    rw [List.length_cons, Nat.mul_succ] at hmore
    have hlong : entries.drop entriesPerBlock ≠ [] := by
      rw [Ne, List.drop_eq_nil_iff]
      omega
    cases blocks with
    | nil =>
      obtain ⟨allocated, after, hrun, hremarked, hzero, hbitmap, hfresh⟩ := hvolume.allocUnchecked
      rw [writeOriginalBlocks_append hlong, run_bind_ok hrun,
        run_bind_ok (run_flat_writeDirBlock _ _ _)]
      refine ⟨allocated, _, rfl, hremarked.volume.write hfirst.nonzero hfirst.noBitmap _, hfresh,
        hzero, hbitmap, ⟨Flat.block_write _ _ _, trivial⟩, fun other hother hnoBitmap ↦ ?_⟩
      rw [Flat.block_write_of_ne (List.ne_of_not_mem_cons hother), hremarked.same _ hnoBitmap]
    | cons next blocks =>
      have hleft : entriesPerBlock * (next :: blocks).length <
          (entries.drop entriesPerBlock).length := by
        rw [List.length_drop]
        omega
      obtain ⟨allocated, after, hrun, hafter, hfresh, hzero, hbitmap, hfilled, hsame⟩ :=
        ih (hvolume.write hfirst.nonzero hfirst.noBitmap (dirBlock entries next)) hrest
          (fun other hother ↦ (hothers other hother).write hfirst.noBitmap) (List.cons_ne_nil _ _)
          hleft
      rw [List.drop_drop, Nat.add_comm, ← Nat.mul_succ] at hrun
      rw [writeOriginalBlocks_next hlong, run_bind_ok (run_flat_writeDirBlock _ _ _)]
      have hhere : after.block block = dirBlock entries next := by
        rw [hsame block hblock hfirst.noBitmap, Flat.block_write]
      refine ⟨allocated, after, hrun, hafter, fun hkept ↦ hfresh (hkept.write hfirst.noBitmap),
        hzero, hbitmap, ⟨hhere, hfilled⟩, fun other hother hnoBitmap ↦ ?_⟩
      obtain ⟨hne, hnotMem⟩ := not_or.mp (List.mem_cons.not.mp hother)
      rw [hsame other hnotMem hnoBitmap, Flat.block_write_of_ne hne]

/-- A round of the second loop of `eynfs_write_dir_table`. -/
theorem writeNewBlocks_succ (sb : Superblock) (allocated : UInt32) (rounds : ℕ)
    (hentries : entries ≠ []) :
    writeNewBlocks sb allocated (rounds + 1) entries =
      (if allocated = 0 then allocUnchecked sb else pure allocated) >>= fun block ↦
        (if entries.drop entriesPerBlock = [] then pure 0 else allocUnchecked sb) >>= fun next ↦
          writeDirBlock block entries next >>= fun _ ↦
            writeNewBlocks sb allocated rounds (entries.drop entriesPerBlock) := by
  rw [writeNewBlocks, if_neg hentries]
  by_cases hallocated : allocated = 0 <;> by_cases hlast : entries.drop entriesPerBlock = [] <;>
    simp only [hallocated, hlast, if_true, if_false]

/-- The second loop of `eynfs_write_dir_table` leaves in the allocated block what it writes last,
which is all where it fits one block. -/
theorem flat_writeNewBlocks {allocated : UInt32} {rounds : ℕ} (hvolume : Volume sb flat)
    (hzero : allocated ≠ 0) (hallocated : NoBitmap sb allocated) (hentries : entries ≠ [])
    (hrounds : entries.length ≤ rounds) :
    ∃ after rest, run answerFlat (writeNewBlocks sb allocated rounds entries) flat =
        (.ok (), after) ∧ after.block allocated = dirBlock rest 0 ∧
      (entries.length ≤ entriesPerBlock → rest = entries) ∧
        ∀ other ≠ allocated, NoBitmap sb other → after.block other = flat.block other := by
  induction rounds generalizing entries flat with
  | zero =>
    exact absurd (List.eq_nil_of_length_eq_zero (Nat.le_zero.mp hrounds)) hentries
  | succ rounds ih =>
    rw [writeNewBlocks_succ sb allocated rounds hentries, if_neg hzero,
      run_bind_ok (run_pure allocated)]
    by_cases hlast : entries.drop entriesPerBlock = []
    · rw [if_pos hlast, run_bind_ok (run_pure 0), run_bind_ok (run_flat_writeDirBlock _ _ _), hlast]
      refine ⟨flat.write (blockToLba allocated) (dirBlock entries 0), entries, ?_,
        Flat.block_write _ _ _, fun _ ↦ rfl, fun other hother _ ↦ Flat.block_write_of_ne hother⟩
      cases rounds <;> rfl
    · obtain ⟨next, middle, hrun, hremarked, -⟩ := hvolume.allocUnchecked
      have hlong : entriesPerBlock < entries.length :=
        Nat.lt_of_not_le fun hshort ↦ hlast (List.drop_eq_nil_iff.mpr hshort)
      have hslots : entriesPerBlock = 9 := rfl
      rw [if_neg hlast, run_bind_ok hrun, run_bind_ok (run_flat_writeDirBlock _ _ _)]
      obtain ⟨after, rest, hafter, hhere, -, hsame⟩ :=
        ih (hremarked.volume.write hzero hallocated (dirBlock entries next)) hlast
          (by rw [List.length_drop]; omega)
      refine ⟨after, rest, hafter, hhere, fun hshort ↦ absurd hlong (Nat.not_lt.mpr hshort),
        fun other hother hnoBitmap ↦ ?_⟩
      rw [hsame other hother hnoBitmap, Flat.block_write_of_ne hother,
        hremarked.same other hnoBitmap]

/-- Entries that fit the blocks of a directory are written over the first of them. -/
theorem flat_writeDirTable_fits {first : UInt32} (hlinks : Links flat first blocks 0)
    (hentries : entries ≠ []) (hfits : entries.length ≤ entriesPerBlock * (blocks.take 32).length) :
    ∃ after, run answerFlat (writeDirTable first entries) flat = (.ok (), after) ∧
      Filled after (blocks.take (blocksFor entries.length)) entries 0 ∧
        ∀ other ∉ blocks.take (blocksFor entries.length), after.block other = flat.block other := by
  obtain ⟨after, hrun, hfilled, hsame⟩ := flat_writeOriginalBlocks_fits
    (superblockOf (flat.block 0)) flat
    (hlinks.nodup.sublist (List.take_sublist 32 _)) hentries hfits
  have hfew : blocksFor entries.length ≤ 32 := by
    have hslots : entriesPerBlock = 9 := rfl
    rw [List.length_take, hslots] at hfits
    rw [blocksFor, hslots]
    omega
  rw [List.take_take, Nat.min_eq_left hfew] at hfilled hsame
  rw [writeDirTable, if_neg hentries]
  refine ⟨after, ?_, hfilled, hsame⟩
  refine (run_bind_ok (run_bind_ok run_flat_readBlock)).trans ?_
  refine (run_bind_ok (run_flat_originalBlocks hlinks 32)).trans ?_
  exact (run_bind_ok hrun).trans rfl

/-- Where there are more entries, the blocks of the directory are filled, and one more block has
what is written last. -/
theorem flat_writeDirTable_appends {first : UInt32} (hvolume : Volume sb flat)
    (hlinks : Links flat first blocks 0) (hkept : ∀ block ∈ blocks, Kept sb flat block)
    (hblocks : blocks ≠ []) (hshort : blocks.length ≤ 32)
    (hmore : entriesPerBlock * blocks.length < entries.length) :
    ∃ allocated rest after, run answerFlat (writeDirTable first entries) flat = (.ok (), after) ∧
      Links after first (blocks ++ [allocated]) 0 ∧ Filled after blocks entries allocated ∧
        after.block allocated = dirBlock rest 0 ∧
          (entries.length ≤ entriesPerBlock * (blocks.length + 1) →
            rest = entries.drop (entriesPerBlock * blocks.length)) := by
  obtain ⟨allocated, middle, hfirst, hmiddle, hfresh, hzero, hbitmap, hfilled, -⟩ :=
    flat_writeOriginalBlocks_appends hvolume hlinks.nodup hkept hblocks hmore
  have hleft : entries.drop (entriesPerBlock * blocks.length) ≠ [] := by
    rw [Ne, List.drop_eq_nil_iff]
    omega
  obtain ⟨after, rest, hsecond, hhere, hfits, hsame⟩ :=
    flat_writeNewBlocks hmiddle hzero hbitmap hleft le_rfl
  have hfilled : Filled after blocks entries allocated :=
    hfilled.congr fun block hblock ↦ hsame block
      (fun heq ↦ hfresh (heq ▸ hkept block hblock)) (hkept block hblock).noBitmap
  have hlinked := hfilled.links fun block hblock ↦ (hkept block hblock).nonzero
  have hentries : entries ≠ [] := fun hnil ↦ hleft (by rw [hnil, List.drop_nil])
  refine ⟨allocated, rest, after, ?_, ?_, hfilled, hhere, fun hone ↦ hfits ?_⟩
  · rw [writeDirTable, if_neg hentries]
    refine (run_bind_ok (run_bind_ok run_flat_readBlock)).trans ?_
    refine (run_bind_ok (run_flat_originalBlocks hlinks 32)).trans ?_
    rw [List.take_of_length_le hshort]
    change run answerFlat (writeOriginalBlocks (superblockOf (flat.block 0)) blocks entries >>= _)
      flat = _
    rw [hvolume.superblock]
    exact (run_bind_ok hfirst).trans hsecond
  · obtain ⟨block, blocks, rfl⟩ := List.exists_cons_of_ne_nil hblocks
    obtain rfl : block = first := hlinks.1
    refine links_append.mpr ⟨allocated, hlinked, rfl, hzero, ?_⟩
    rw [hhere, nextBlock_dirBlock]
    exact rfl
  · rw [Nat.mul_succ] at hone
    rw [List.length_drop]
    omega

end Writing

/-! ### Programs past the cache -/

section Raw

theorem raw_readDirTableLoop (rounds wanted : ℕ) (block : UInt32) :
    Only IsRaw (readDirTableLoop rounds wanted block) := by
  induction rounds generalizing wanted block with
  | zero => exact trivial
  | succ rounds ih =>
    rw [readDirTableLoop]
    split
    · exact trivial
    · exact (raw_readBlock _).bind fun _ ↦ (ih _ _).bind fun _ ↦ trivial

theorem raw_originalBlocks (rounds : ℕ) (block : UInt32) :
    Only IsRaw (originalBlocks rounds block) := by
  induction rounds generalizing block with
  | zero => exact trivial
  | succ rounds ih =>
    rw [originalBlocks]
    split
    · exact trivial
    · refine (raw_attempt (raw_readBlock _)).bind fun sector ↦ ?_
      cases sector with
      | none => exact trivial
      | some sector => exact (ih _).bind fun _ ↦ trivial

theorem raw_allocUnchecked (sb : Superblock) : Only IsRaw (allocUnchecked sb) :=
  (raw_attempt (raw_allocBlock sb)).bind fun _ ↦ trivial

theorem raw_writeOriginalBlocks (sb : Superblock) (blocks : List UInt32) (entries : List DirEntry) :
    Only IsRaw (writeOriginalBlocks sb blocks entries) := by
  induction blocks generalizing entries with
  | nil => exact trivial
  | cons block blocks ih =>
    by_cases hentries : entries = []
    · rw [hentries]
      cases blocks <;> exact trivial
    · by_cases hlast : entries.drop entriesPerBlock = []
      · rw [writeOriginalBlocks_last hentries hlast]
        exact (raw_writeBlockRaw _ _).bind fun _ ↦ trivial
      · cases blocks with
        | nil =>
          rw [writeOriginalBlocks_append hlast]
          exact (raw_allocUnchecked sb).bind fun _ ↦ (raw_writeBlockRaw _ _).bind fun _ ↦ trivial
        | cons next blocks =>
          rw [writeOriginalBlocks_next hlast]
          exact (raw_writeBlockRaw _ _).bind fun _ ↦ ih _

theorem raw_writeNewBlocks (sb : Superblock) (allocated : UInt32) (rounds : ℕ)
    (entries : List DirEntry) : Only IsRaw (writeNewBlocks sb allocated rounds entries) := by
  induction rounds generalizing entries with
  | zero => exact trivial
  | succ rounds ih =>
    by_cases hentries : entries = []
    · rw [writeNewBlocks, if_pos hentries]
      exact trivial
    · rw [writeNewBlocks_succ sb allocated rounds hentries]
      refine Only.bind ?_ fun block ↦ Only.bind ?_ fun next ↦
        (raw_writeBlockRaw _ _).bind fun _ ↦ ih _
      · split
        · exact raw_allocUnchecked sb
        · exact trivial
      · split
        · exact trivial
        · exact raw_allocUnchecked sb

/-- `eynfs_write_dir_table` makes no use of the cache. -/
theorem raw_writeDirTable (block : UInt32) (entries : List DirEntry) :
    Only IsRaw (writeDirTable block entries) := by
  rw [writeDirTable]
  split
  · exact trivial
  · have hread : Only IsRaw readSuperblock := (raw_readBlock _).bind fun _ ↦ trivial
    exact hread.bind fun sb ↦
      (raw_originalBlocks _ _).bind fun blocks ↦
        (raw_writeOriginalBlocks _ _ _).bind fun _ ↦ raw_writeNewBlocks _ _ _ _

end Raw

/-! ### Writing and reading back -/

/-- Where `eynfs_write_dir_table` writes all entries of a list, `eynfs_read_dir_table` reads the
same entries. -/
def RoundTrips (drive : ℕ) (state : State) (first : UInt32) (entries : List DirEntry) : Prop :=
  ∀ after, run (answer drive) (writeDirTable first entries) state = (.ok (), after) →
    ∃ found, (run (answer drive) (readDirTable first entries.length) after).1 = .ok found ∧
      List.Forall₂ SameEntry entries found

section RoundTrip

variable {drive : ℕ} {state : State} {sb : Superblock} {first : UInt32} {blocks : List UInt32}
  {entries : List DirEntry}

/-- What is written on a drive is what is written on one without a cache. -/
theorem roundTrips_iff_flat {after : Flat}
    (hsucceeds : ∀ lba count, (state.disk drive).fails lba count = false)
    (hwrite : run answerFlat (writeDirTable first entries) (state.flat drive) = (.ok (), after))
    (hlinks : Links after first blocks 0) :
    RoundTrips drive state first entries ↔
      List.Forall₂ SameEntry entries (((table after blocks).take entries.length).map
        DirEntry.terminate) := by
  obtain ⟨hresult, hbytes⟩ := (sameBytes_flat hsucceeds).run_eq (raw_writeDirTable first entries)
  rw [hwrite] at hresult hbytes
  generalize hend : run (answer drive) (writeDirTable first entries) state = stateEnd
    at hresult hbytes
  obtain ⟨_, final⟩ := stateEnd
  obtain rfl := hresult
  have hread : (run (answer drive) (readDirTable first entries.length) final).1 =
      .ok (((table after blocks).take entries.length).map DirEntry.terminate) := by
    refine (hbytes.run_eq (raw_readDirTableLoop _ _ _)).1.trans ?_
    exact congrArg Prod.fst (run_flat_readDirTableLoop hlinks le_rfl)
  constructor
  · intro htrips
    obtain ⟨found, hfound, hsame⟩ := htrips final hend
    obtain rfl := Except.ok.inj (hread.symm.trans hfound)
    exact hsame
  · intro hsame other hother
    obtain rfl := (Prod.mk.inj (hend.symm.trans hother)).2
    exact ⟨_, hread, hsame⟩

/-- Entries whose names are ended are the same after their names are ended. -/
theorem forall₂_terminate (hended : ∀ entry ∈ entries, entry.Terminated) :
    List.Forall₂ SameEntry entries (entries.map DirEntry.terminate) := by
  induction entries with
  | nil => exact .nil
  | cons entry entries ih =>
    obtain ⟨hentry, hrest⟩ := List.forall_mem_cons.mp hended
    exact .cons (sameEntry_terminate hentry) (ih hrest)

/-- Entries that need at most one more block than the directory has are read back. -/
theorem roundTrips_of_le (hsucceeds : ∀ lba count, (state.disk drive).fails lba count = false)
    (hvolume : Volume sb (state.flat drive)) (hlinks : Links (state.flat drive) first blocks 0)
    (hkept : ∀ block ∈ blocks, Kept sb (state.flat drive) block) (hblocks : blocks ≠ [])
    (hshort : blocks.length ≤ 32) (hentries : entries ≠ [])
    (hended : ∀ entry ∈ entries, entry.Terminated)
    (hfew : entries.length ≤ entriesPerBlock * (blocks.length + 1)) :
    RoundTrips drive state first entries := by
  by_cases hfits : entries.length ≤ entriesPerBlock * blocks.length
  · obtain ⟨after, hrun, hfilled, -⟩ := flat_writeDirTable_fits hlinks hentries
      (by rwa [List.take_of_length_le hshort])
    have hafter := hfilled.links fun block hblock ↦
      (hkept block (List.mem_of_mem_take hblock)).nonzero
    have hfirst : (blocks.take (blocksFor entries.length)).headD 0 = first := by
      obtain ⟨block, blocks, rfl⟩ := List.exists_cons_of_ne_nil hblocks
      obtain ⟨count, hcount⟩ := Nat.exists_eq_succ_of_ne_zero
        (blocksFor_pos (List.length_pos_of_ne_nil hentries)).ne'
      rw [hcount]
      exact hlinks.1
    rw [hfirst] at hafter
    have hsize : entries.length ≤
        entriesPerBlock * (blocks.take (blocksFor entries.length)).length := by
      rw [List.length_take]
      rcases Nat.le_total (blocksFor entries.length) blocks.length with hle | hle
      · rw [Nat.min_eq_left hle]
        exact le_blocksFor _
      · rwa [Nat.min_eq_right hle]
    rw [roundTrips_iff_flat hsucceeds hrun hafter, hfilled.table, take_padded hsize]
    exact forall₂_terminate hended
  · obtain ⟨allocated, rest, after, hrun, hafter, hfilled, hhere, hrest⟩ :=
      flat_writeDirTable_appends hvolume hlinks hkept hblocks hshort (Nat.lt_of_not_le hfits)
    rw [roundTrips_iff_flat hsucceeds hrun hafter, table_append, hfilled.table, table_cons, hhere,
      entriesOf_dirBlock, hrest hfew, table, List.flatMap_nil, List.append_nil, ← padded_add,
      take_padded (by rwa [Nat.mul_succ] at hfew)]
    exact forall₂_terminate hended

/-- Where more blocks are needed, fewer entries are read than were written. -/
theorem not_roundTrips_of_lt (hsucceeds : ∀ lba count, (state.disk drive).fails lba count = false)
    (hvolume : Volume sb (state.flat drive)) (hlinks : Links (state.flat drive) first blocks 0)
    (hkept : ∀ block ∈ blocks, Kept sb (state.flat drive) block) (hblocks : blocks ≠ [])
    (hshort : blocks.length ≤ 32) (hmany : entriesPerBlock * (blocks.length + 1) < entries.length) :
    ¬RoundTrips drive state first entries := by
  have hmore : entriesPerBlock * blocks.length < entries.length :=
    (Nat.mul_le_mul_left _ (Nat.le_succ _)).trans_lt hmany
  obtain ⟨allocated, rest, after, hrun, hafter, -⟩ :=
    flat_writeDirTable_appends hvolume hlinks hkept hblocks hshort hmore
  rw [roundTrips_iff_flat hsucceeds hrun hafter]
  intro hsame
  have hlength := hsame.length_eq
  rw [List.length_map, List.length_take, length_table, List.length_append, List.length_singleton]
    at hlength
  omega

/-- A list of entries is read back as it was written over a directory of at most 32 blocks exactly
if it needs at most one block more than the directory has. -/
theorem roundTrips_iff (hsucceeds : ∀ lba count, (state.disk drive).fails lba count = false)
    (hvolume : Volume sb (state.flat drive)) (hlinks : Links (state.flat drive) first blocks 0)
    (hkept : ∀ block ∈ blocks, Kept sb (state.flat drive) block) (hblocks : blocks ≠ [])
    (hshort : blocks.length ≤ 32) (hentries : entries ≠ [])
    (hended : ∀ entry ∈ entries, entry.Terminated) :
    RoundTrips drive state first entries ↔
      entries.length ≤ entriesPerBlock * (blocks.length + 1) := by
  refine ⟨fun htrips ↦ Nat.le_of_not_lt fun hmany ↦ ?_,
    roundTrips_of_le hsucceeds hvolume hlinks hkept hblocks hshort hentries hended⟩
  exact not_roundTrips_of_lt hsucceeds hvolume hlinks hkept hblocks hshort hmany htrips

end RoundTrip

/-! ### A small directory -/

def manyFiles (count : ℕ) : List DirEntry := List.replicate count (newEntry [97] EYNFS_TYPE_FILE 0)

theorem terminated_manyFiles (count : ℕ) : ∀ entry ∈ manyFiles count, entry.Terminated := by
  intro entry hentry
  rw [List.eq_of_mem_replicate hentry]
  exact terminated_of_last (by decide +kernel)

/-- The root directory of a drive that was formatted is one block. -/
theorem links_fresh : Links (freshState.flat 0) 3 [3] 0 := by decide +kernel

/-- Eighteen entries are read back from it. -/
theorem roundTrips_fresh : RoundTrips 0 freshState 3 (manyFiles 18) := by
  have hkept : ∀ block ∈ [(3 : UInt32)], Kept freshSuperblock (freshState.flat 0) block :=
    List.forall_mem_singleton.mpr kept_fresh
  exact (roundTrips_iff (fun _ _ ↦ rfl) volume_fresh links_fresh hkept (List.cons_ne_nil _ _)
    (by decide) (List.cons_ne_nil _ _) (terminated_manyFiles 18)).mpr (by decide)

def freeBlocks (sb : Superblock) (flat : Flat) : ℕ :=
  ((List.range sb.totalBlocks.toNat).filter fun block ↦ !flat.used sb block).length

/-- Nineteen entries need two blocks more and are not read back, though there are 60 free ones. -/
theorem not_roundTrips :
    ¬∀ (drive : ℕ) (state : State) (sb : Superblock) (first : UInt32) (blocks : List UInt32)
      (entries : List DirEntry), (∀ lba count, (state.disk drive).fails lba count = false) →
        Volume sb (state.flat drive) → Links (state.flat drive) first blocks 0 →
          (∀ block ∈ blocks, Kept sb (state.flat drive) block) → blocks ≠ [] →
            blocks.length ≤ 32 → entries ≠ [] → (∀ entry ∈ entries, entry.Terminated) →
              blocksFor entries.length ≤ blocks.length + freeBlocks sb (state.flat drive) →
                RoundTrips drive state first entries := by
  intro hclaim
  have hkept : ∀ block ∈ [(3 : UInt32)], Kept freshSuperblock (freshState.flat 0) block :=
    List.forall_mem_singleton.mpr kept_fresh
  have hfree : blocksFor (manyFiles 19).length ≤
      1 + freeBlocks freshSuperblock (freshState.flat 0) := by decide +kernel
  have htrips := hclaim 0 freshState freshSuperblock 3 [3] (manyFiles 19) (fun _ _ ↦ rfl)
    volume_fresh links_fresh hkept (List.cons_ne_nil _ _) (by decide) (List.cons_ne_nil _ _)
    (terminated_manyFiles 19) hfree
  exact not_roundTrips_of_lt (fun _ _ ↦ rfl) volume_fresh links_fresh hkept
    (List.cons_ne_nil _ _) (by decide) (by decide) htrips

end EynOS.Storage
