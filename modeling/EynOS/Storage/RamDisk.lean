import EynOS.Foundation.Loop
import EynOS.Storage.PathWalk

/-!
# The RAM disk's reader of EYNFS

The functions of `vfs.c` that look up a path and read a file in a module that the boot loader left
in memory. They do not go through the driver's caches: a sector is there or it is not, so a function
is a value that says what it returns.

`vfs_ramdisk_find_in_dir` follows the blocks of a directory without a bound. It follows at most
`rounds` of them here and ends as `Stop.endless` where there are more; `findInDir_eq` is its loop.
The loops of a read come nearer to their end with every block and are followed to it.

Not modelled: how the module and the partition in it are found, the checks for null pointers, and
what lies behind a sector when a name goes on to the sector's end.
-/

namespace EynOS.Storage

open Foundation

/-- `vfs_ramdisk_ctx_t`, with the sectors of the module in the place of `base`. -/
structure RamDisk where
  base : UInt32 → Sector
  sectors : UInt32
  partStartLba : UInt32
  sb : Superblock

namespace RamDisk

/-- `vfs_ramdisk_read_sector_raw`. -/
def readSectorRaw (rd : RamDisk) (lba : UInt32) : Except Stop Sector :=
  if rd.sectors ≤ lba then .error (.error (-1)) else .ok (rd.base lba)

/-- `vfs_ramdisk_fs_block_to_lba`. -/
def fsBlockToLba (rd : RamDisk) (fsBlock : UInt32) : UInt32 := rd.partStartLba + fsBlock

/-! ### Directories -/

/-- The C string that starts at the name of an entry and does not end with the entry. -/
def stringAt (sector : Sector) (slot : ℕ) : List UInt8 :=
  cString ((List.range (EYNFS_BLOCK_SIZE - (4 + dirEntrySize * slot))).map fun index ↦
    byteAt sector (4 + dirEntrySize * slot + index))

/-- The slot of a directory block whose name is the one that is looked for. -/
def slotNamed (name : List UInt8) (sector : Sector) : Option ℕ :=
  (List.range entriesPerBlock).find? fun slot ↦
    !(entryAt sector slot).isFree && stringAt sector slot == name

/-- `vfs_ramdisk_find_in_dir`. -/
def findInDir (rd : RamDisk) (name : List UInt8) : ℕ → UInt32 → Except Stop DirEntry
  | 0, _ => .error .endless
  | rounds + 1, current =>
    if current = 0 then .error (.error (-1))
    else do
      let sec ← rd.readSectorRaw (rd.fsBlockToLba current)
      match slotNamed name sec with
      | some slot => pure (entryAt sec slot)
      | none => rd.findInDir name rounds (nextBlock sec)

/-! ### Paths -/

/-- The loop of `vfs_ramdisk_traverse`, with the tokens that are left. -/
def traverseLoop (rd : RamDisk) (rounds : ℕ) : List (List UInt8) → UInt32 → Except Stop DirEntry
  | [], _ => .error (.error (-1))
  | tok :: toks, currentDir => do
    let ent ← rd.findInDir tok rounds currentDir
    if toks = [] then pure ent
    else if ent.type ≠ EYNFS_TYPE_DIR then .error (.error (-1))
    else rd.traverseLoop rounds toks ent.firstBlock

/-- `vfs_ramdisk_traverse`. -/
def traverse (rd : RamDisk) (rounds : ℕ) (path : List UInt8) : Except Stop DirEntry :=
  if (cString path).head? ≠ some slash then .error (.error (-1))
  else if cString path = [slash] then pure (rootEntry rd.sb)
  else rd.traverseLoop rounds (components (((cString path).take 255).drop 1)) rd.sb.rootDirBlock

/-! ### Files -/

def readFileBlock (rd : RamDisk) (current : UInt32) : Except Stop Sector :=
  if rd.sb.totalBlocks ≤ current then .error (.error (-1))
  else rd.readSectorRaw (rd.fsBlockToLba current)

/-- The loop of `vfs_ramdisk_read_file_at_internal` over the blocks before the offset. -/
def skipLoop (rd : RamDisk) : ℕ → UInt32 → ℕ → Except Stop (UInt32 × ℕ)
  | 0, current, skip => pure (current, skip)
  | count + 1, current, skip =>
    if current = 0 ∨ skip < dataPerBlock then pure (current, skip)
    else do
      let sec ← rd.readFileBlock current
      rd.skipLoop count (nextBlock sec) (skip - dataPerBlock)

/-- The loop of `vfs_ramdisk_read_file_at_internal` over the blocks that are copied: the bytes that
it puts in the buffer, where `left` bytes are still wanted. -/
def copyLoop (rd : RamDisk) : ℕ → UInt32 → ℕ → ℕ → Except Stop (List UInt8)
  | 0, _, _, _ => pure []
  | count + 1, current, skip, left =>
    if current = 0 ∨ left = 0 then pure []
    else do
      let sec ← rd.readFileBlock current
      let avail := dataPerBlock - skip
      let take := if left < avail then left else avail
      let rest ← rd.copyLoop count (nextBlock sec) 0 (left - take)
      pure (dataOf sec skip take ++ rest)

/-- `vfs_ramdisk_read_file_at_internal`: the bytes that it puts in the buffer. -/
def readFileAtInternal (rd : RamDisk) (ent : DirEntry) (bufsize : Int32) (offset : UInt32) :
    Except Stop (List UInt8) :=
  if bufsize ≤ 0 then .error (.error (-1))
  else if ent.type ≠ EYNFS_TYPE_FILE then .error (.error (-1))
  else if ent.size ≤ offset then pure []
  else do
    let remainFile := ent.size - offset
    let want := if remainFile < bufsize.toUInt32 then remainFile else bufsize.toUInt32
    let (current, skip) ← rd.skipLoop (offset.toNat / dataPerBlock) ent.firstBlock offset.toNat
    rd.copyLoop (want.toNat + 1) current skip want.toNat

/-- `vfs_ramdisk_traverse` and `vfs_ramdisk_read_file_at_internal`. -/
def readPath (rd : RamDisk) (rounds : ℕ) (path : List UInt8) (bufsize : Int32) (offset : UInt32) :
    Except Stop (List UInt8) := do
  let ent ← rd.traverse rounds path
  rd.readFileAtInternal ent bufsize offset

/-- Without space in the buffer, or from what is no file, nothing is read. -/
theorem readFileAtInternal_fails {rd : RamDisk} {ent : DirEntry} {bufsize : Int32} {offset : UInt32}
    (hfails : ¬0 < bufsize ∨ ent.type ≠ EYNFS_TYPE_FILE) :
    rd.readFileAtInternal ent bufsize offset = .error (.error (-1)) := by
  rw [readFileAtInternal]
  rcases hfails with hspace | htype
  · rw [if_pos (Int32.not_lt.mp hspace)]
  · rw [if_pos htype, ite_self]

/-! ### The search as a loop -/

/-- What `vfs_ramdisk_find_in_dir` does with one block. -/
def lookBlock (rd : RamDisk) (name : List UInt8) (current : UInt32) :
    Except Stop DirEntry ⊕ UInt32 :=
  if current = 0 then .inl (.error (.error (-1)))
  else
    match rd.readSectorRaw (rd.fsBlockToLba current) with
    | .error stop => .inl (.error stop)
    | .ok sec =>
      match slotNamed name sec with
      | some slot => .inl (.ok (entryAt sec slot))
      | none => .inr (nextBlock sec)

variable {rd : RamDisk} {name : List UInt8} {names : List (List UInt8)} {dir : UInt32}
  {rounds : ℕ} {entry : DirEntry}

/-- `vfs_ramdisk_find_in_dir` is a loop over blocks. -/
theorem findInDir_eq : rd.findInDir name rounds dir =
    (turns (rd.lookBlock name) rounds dir).getD (.error .endless) := by
  induction rounds generalizing dir with
  | zero => rfl
  | succ rounds ih =>
    rw [findInDir, turns, lookBlock]
    by_cases hzero : dir = 0
    · simp only [if_pos hzero, Option.getD_some]
    · simp only [if_neg hzero]
      cases rd.readSectorRaw (rd.fsBlockToLba dir) with
      | error stop => rfl
      | ok sec =>
        simp only [bind, Except.bind]
        cases slotNamed name sec with
        | some slot => rfl
        | none => exact ih

theorem findInDir_of_exits {count : ℕ} {result : Except Stop DirEntry}
    (hexits : Exits (rd.lookBlock name) count dir result) (hrounds : count < rounds) :
    rd.findInDir name rounds dir = result := by
  rw [findInDir_eq, turns_eq_some.mpr ⟨count, hrounds, hexits⟩, Option.getD_some]

/-- The entries that the loop of `vfs_ramdisk_traverse` ends with. -/
theorem traverseLoop_eq_ok : rd.traverseLoop rounds names dir = .ok entry ↔
    Leads (fun name dir entry ↦ rd.findInDir name rounds dir = .ok entry) names dir entry := by
  induction names generalizing dir with
  | nil =>
    refine ⟨fun hloop ↦ by simp [traverseLoop] at hloop, fun hleads ↦ ?_⟩
    cases hleads
  | cons name names ih =>
    rw [traverseLoop]
    cases hfind : rd.findInDir name rounds dir with
    | error stop =>
      refine ⟨fun hloop ↦ by simp [bind, Except.bind] at hloop, fun hleads ↦ ?_⟩
      cases hleads with
      | last hholds => exact absurd (hholds.symm.trans hfind) (by simp)
      | next hholds _ _ _ => exact absurd (hholds.symm.trans hfind) (by simp)
    | ok first =>
      simp only [bind, Except.bind]
      by_cases hnames : names = []
      · simp only [hnames, if_true, leads_singleton, hfind]
        rfl
      · simp only [if_neg hnames, leads_cons hnames, hfind, Except.ok.injEq]
        by_cases htype : first.type = EYNFS_TYPE_DIR
        · rw [if_neg (not_not.mpr htype), ih]
          constructor
          · exact fun hrest ↦ ⟨first, rfl, htype, hrest⟩
          · rintro ⟨_, rfl, -, hrest⟩
            exact hrest
        · rw [if_pos htype]
          refine ⟨fun hloop ↦ by simp at hloop, ?_⟩
          rintro ⟨_, rfl, hdir, -⟩
          exact absurd hdir htype

end RamDisk

end EynOS.Storage
