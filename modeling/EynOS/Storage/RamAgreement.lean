import EynOS.Storage.BootAgreement
import EynOS.Storage.RamDisk

/-!
# The RAM disk's reader and the driver's

`RamAgrees` says that the two readers of EYNFS in the kernel, the one of a module in memory and the
one of a drive, look up the same entry and read the same bytes, or both fail.

`ramAgrees_iff` is when that is so on a well-formed image: what the path leads to must be among the
blocks of a directory that the driver searches, and a buffer without space must not be used for a
file, which only the reader of the RAM disk refuses. It is about paths that name something and the
root directory as it is written; for a path of several slashes `eynfs_traverse_path` returns an
entry that is never assigned, and `named_of_ramAgrees` says that the readers then never agree.
`not_ramAgrees` reads a file into a buffer without space.
-/

namespace EynOS.Storage

open Foundation Interaction

/-! ### The same image -/

/-- A RAM disk has an image. -/
structure SameImage (rd : RamDisk) (image : Image) : Prop where
  sb : rd.sb = superblockOf (image 0)
  blocks : ∀ block, block < (superblockOf (image 0)).totalBlocks →
    rd.readSectorRaw (rd.fsBlockToLba block) = .ok (image block)

variable {rd : RamDisk} {drive rounds : ℕ} {image : Image} {name path : List UInt8}
  {names : List (List UInt8)} {entry : DirEntry} {block dir : UInt32} {state : State}
  {bufsize : Int32} {offset : UInt32}

/-! ### Names -/

/-- The characters of a string that ends before more characters. -/
theorem cString_append {first second : List UInt8} (hends : (0 : UInt8) ∈ first) :
    cString (first ++ second) = cString first := by
  induction first with
  | nil => exact absurd hends List.not_mem_nil
  | cons char first ih =>
    rw [List.cons_append, cString_cons, cString_cons]
    by_cases hchar : char = 0
    · rw [if_pos hchar, if_pos hchar]
    · rw [if_neg hchar, if_neg hchar,
        ih ((List.mem_cons.mp hends).resolve_left (Ne.symm hchar))]

/-- A name that is ended in its field is the string that starts there. -/
theorem stringAt_eq_name {sector : Sector} {slot : ℕ} (hslot : slot < entriesPerBlock)
    (hnamed : byteAt (entryAt sector slot) (EYNFS_NAME_MAX - 1) = 0) :
    RamDisk.stringAt sector slot = (entryAt sector slot).name := by
  have hbytes (index : ℕ) (hindex : index < EYNFS_NAME_MAX) :
      byteAt sector (4 + dirEntrySize * slot + index) = byteAt (entryAt sector slot) index :=
    (byteAt_entryAt sector slot (Nat.lt_trans hindex (by decide))).symm
  have hroom : EYNFS_NAME_MAX ≤ EYNFS_BLOCK_SIZE - (4 + dirEntrySize * slot) := by
    have hless : slot < 9 := hslot
    simp only [EYNFS_NAME_MAX, EYNFS_BLOCK_SIZE, dirEntrySize]
    omega
  have hfield : ((List.range EYNFS_NAME_MAX).map fun index ↦
      byteAt sector (4 + dirEntrySize * slot + index)) =
        (List.range EYNFS_NAME_MAX).map (byteAt (entryAt sector slot)) :=
    List.map_congr_left fun index hindex ↦ hbytes index (List.mem_range.mp hindex)
  obtain ⟨more, hmore⟩ := Nat.exists_eq_add_of_le hroom
  rw [RamDisk.stringAt, DirEntry.name, hmore, List.range_add, List.map_append, hfield]
  refine cString_append ?_
  rw [← hnamed]
  exact List.mem_map_of_mem (List.mem_range.mpr (by decide))

/-! ### Lookups -/

def RamDisk.reported : Option DirEntry → Except Stop DirEntry
  | some entry => .ok entry
  | none => .error (.error (-1))

/-- Where names are ended in their fields, the entry that the RAM disk's reader takes is the one
that the driver takes. -/
theorem slotNamed_eq {sector : Sector} (hname : (0 : UInt8) ∉ name)
    (hnamed : ∀ entry ∈ entriesOf sector, entry.isFree = false →
      byteAt entry (EYNFS_NAME_MAX - 1) = 0) :
    (RamDisk.slotNamed name sector).map (entryAt sector) =
      (entriesOf sector).find? fun entry ↦ !entry.isFree && entry.hasName name := by
  rw [RamDisk.slotNamed, entriesOf, List.find?_map]
  refine congrArg (Option.map (entryAt sector)) (List.find?_congr fun slot hslot ↦ ?_)
  cases hfree : (entryAt sector slot).isFree with
  | true => simp [hfree]
  | false =>
    have hended := hnamed (entryAt sector slot) (List.mem_map_of_mem hslot) hfree
    have hequal : (RamDisk.stringAt sector slot == name) = (entryAt sector slot).hasName name := by
      rw [Bool.eq_iff_iff, beq_iff_eq, hasName_iff hname hended,
        stringAt_eq_name (List.mem_range.mp hslot) hended]
    simp [hfree, hequal]

/-- On a block of a directory the reader of the RAM disk does what the driver does. -/
theorem ram_lookBlock (hwell : WellFormed image) (hsame : SameImage rd image)
    (hname : (0 : UInt8) ∉ name) (hdir : Directory image dir)
    (hblock : block = 0 ∨ InChain image dir block) :
    rd.lookBlock name block = (lookBlock image name block).map RamDisk.reported id := by
  rw [RamDisk.lookBlock, lookBlock]
  by_cases hzero : block = 0
  · rw [if_pos hzero, if_pos hzero]
    rfl
  · have hchain := hblock.resolve_left hzero
    have hread := hsame.blocks block (hwell.inside dir block hdir hchain)
    have hfind : (RamDisk.slotNamed name (image block)).map (entryAt (image block)) =
        (entriesOf (image block)).find? fun entry ↦ !entry.isFree && entry.hasName name :=
      slotNamed_eq hname fun entry hentry hfree ↦
        hwell.named dir entry hdir ⟨block, hchain, hentry, hfree⟩
    rw [if_neg hzero, if_neg hzero, hread, ← hfind]
    simp only
    cases RamDisk.slotNamed name (image block) <;> rfl

/-- In a directory of a well-formed image the search of the RAM disk's reader ends, and finds what
is there. -/
theorem ram_findInDir (hwell : WellFormed image) (hsame : SameImage rd image)
    (hname : (0 : UInt8) ∉ name) (hdir : Directory image dir) :
    ∃ enough found, (∀ rounds, enough ≤ rounds →
        rd.findInDir name rounds dir = RamDisk.reported found) ∧
      ∀ entry, found = some entry ↔ Holds image name dir entry := by
  obtain ⟨blocks, found, hexits⟩ : ∃ blocks found, Exits (lookBlock image name) blocks dir found :=
    exists_search hwell hdir
  have hram : Exits (rd.lookBlock name) blocks dir (RamDisk.reported found) :=
    hexits.carry (fun block hblock ↦ ram_lookBlock hwell hsame hname hdir hblock)
      (fun block next hblock hbody ↦ chain_next hblock hbody) chain_start
  refine ⟨blocks + 1, found, fun rounds hrounds ↦ RamDisk.findInDir_of_exits hram hrounds,
    fun entry ↦ ⟨?_, ?_⟩⟩
  · rintro rfl
    exact ⟨blocks, hexits⟩
  · rintro ⟨turns, hturns⟩
    exact (hexits.unique hturns).2

/-! ### Paths -/

/-- Followed for long enough, the loop of `vfs_ramdisk_traverse` ends with what the names lead
to. -/
theorem ram_traverseLoop (hwell : WellFormed image) (hsame : SameImage rd image)
    (hnames : ∀ name ∈ names, (0 : UInt8) ∉ name) (hdir : Directory image dir) :
    ∃ enough, ∀ rounds, enough ≤ rounds → ∀ entry,
      rd.traverseLoop rounds names dir = .ok entry ↔ Leads (Holds image) names dir entry := by
  induction names generalizing dir with
  | nil =>
    refine ⟨0, fun rounds _ entry ↦ ⟨fun hloop ↦ by simp [RamDisk.traverseLoop] at hloop, ?_⟩⟩
    intro hleads
    cases hleads
  | cons name names ih =>
    have hlater (name : List UInt8) (hname : name ∈ names) : (0 : UInt8) ∉ name :=
      hnames name (List.mem_cons_of_mem _ hname)
    obtain ⟨first, found, hfind, hfound⟩ :=
      ram_findInDir hwell hsame (hnames name List.mem_cons_self) hdir
    have hholds (rounds : ℕ) (hrounds : first ≤ rounds) (entry : DirEntry) :
        rd.findInDir name rounds dir = .ok entry ↔ Holds image name dir entry := by
      rw [hfind rounds hrounds, ← hfound]
      cases found <;> simp [RamDisk.reported]
    by_cases hlast : names = []
    · refine ⟨first, fun rounds hrounds entry ↦ ?_⟩
      rw [RamDisk.traverseLoop_eq_ok, hlast, leads_singleton, leads_singleton,
        hholds rounds hrounds]
    · cases found with
      | none =>
        have habsent (entry : DirEntry) : ¬Holds image name dir entry := fun hthere ↦
          absurd ((hfound entry).mpr hthere) (by simp)
        refine ⟨first, fun rounds hrounds entry ↦ ?_⟩
        rw [RamDisk.traverseLoop_eq_ok, leads_cons hlast, leads_cons hlast]
        simp only [hholds rounds hrounds, habsent, false_and, exists_false]
      | some sub =>
        by_cases htype : sub.type = EYNFS_TYPE_DIR
        · obtain ⟨rest, hrest⟩ :=
            ih hlater (hdir.found ((hfound sub).mp rfl) htype)
          refine ⟨max first rest, fun rounds hrounds entry ↦ ?_⟩
          have hfirst := Nat.le_trans (Nat.le_max_left first rest) hrounds
          have hnext := hrest rounds (Nat.le_trans (Nat.le_max_right first rest) hrounds) entry
          rw [RamDisk.traverseLoop_eq_ok] at hnext ⊢
          rw [leads_cons hlast, leads_cons hlast]
          simp only [hholds rounds hfirst, ← hfound, Option.some.injEq]
          constructor
          · rintro ⟨_, rfl, -, hleads⟩
            exact ⟨sub, rfl, htype, hnext.mp hleads⟩
          · rintro ⟨_, rfl, -, hleads⟩
            exact ⟨sub, rfl, htype, hnext.mpr hleads⟩
        · refine ⟨first, fun rounds hrounds entry ↦ ?_⟩
          rw [RamDisk.traverseLoop_eq_ok, leads_cons hlast, leads_cons hlast]
          simp only [hholds rounds hrounds, ← hfound, Option.some.injEq]
          constructor
          · rintro ⟨_, rfl, hdir, -⟩
            exact absurd hdir htype
          · rintro ⟨_, rfl, hdir, -⟩
            exact absurd hdir htype

/-- A path that starts with a slash. -/
theorem components_drop (habsolute : path.head? = some slash) :
    components (path.drop 1) = components path := by
  cases path with
  | nil => simp at habsolute
  | cons char path =>
    obtain rfl : char = slash := by simpa using habsolute
    rw [components_slash]
    rfl

/-- A path that the driver can look up: it names something or is the root directory. -/
def Named (path : List UInt8) : Prop := cString path = [slash] ∨ components (cString path) ≠ []

/-- Followed for long enough, `vfs_ramdisk_traverse` finds what the path leads to, where the path
names something or is the root directory. -/
theorem ram_traverse (hwell : WellFormed image) (hsame : SameImage rd image)
    (habsolute : (cString path).head? = some slash) (hfits : (cString path).length < 256) :
    ∃ enough, ∀ rounds, enough ≤ rounds → ∀ entry,
      rd.traverse rounds path = .ok entry ↔
        Named path ∧ Target (Holds image) (superblockOf (image 0)) path entry := by
  have hshort : (cString path).take 255 = cString path :=
    List.take_of_length_le (Nat.le_of_lt_succ hfits)
  have hroot : Directory image (superblockOf (image 0)).rootDirBlock := .root
  obtain ⟨enough, hloop⟩ : ∃ enough, ∀ rounds, enough ≤ rounds → ∀ entry,
      rd.traverseLoop rounds (components (cString path)) (superblockOf (image 0)).rootDirBlock =
        .ok entry ↔ Leads (Holds image) (components (cString path))
          (superblockOf (image 0)).rootDirBlock entry :=
    ram_traverseLoop hwell hsame (fun _ ↦ zero_not_mem_component) hroot
  refine ⟨enough, fun rounds hrounds entry ↦ ?_⟩
  rw [RamDisk.traverse, if_neg (not_not.mpr habsolute), hshort, components_drop habsolute, hsame.sb,
    Target, Named]
  by_cases hslash : cString path = [slash]
  · have hnone : components [slash] = [] := by decide
    simp only [hslash, hnone, if_true, true_or, true_and]
    exact ⟨fun hok ↦ (Except.ok.inj hok).symm, fun hentry ↦ congrArg Except.ok hentry.symm⟩
  · rw [if_neg hslash, hloop rounds hrounds]
    by_cases hnone : components (cString path) = []
    · simp only [hslash, hnone, ne_eq, not_true_eq_false, or_self, false_and, iff_false]
      intro hleads
      cases hleads
    · simp only [hnone, ne_eq, not_false_eq_true, or_true, true_and, if_false]

/-! ### Files -/

/-- The reader of the RAM disk seeks where the driver does. -/
theorem ram_skipLoop {count skip : ℕ}
    (hreadable : ∀ blocks < count, (link image)^[blocks] block = 0 ∨
      rd.readFileBlock ((link image)^[blocks] block) = .ok (image ((link image)^[blocks] block))) :
    rd.skipLoop count block skip = .ok (seek image count block skip) := by
  induction count generalizing block skip with
  | zero => rfl
  | succ count ih =>
    rw [RamDisk.skipLoop, seek]
    split
    · rfl
    · rename_i hgoes
      rw [not_or] at hgoes
      have hread := (hreadable 0 (Nat.succ_pos count)).resolve_left hgoes.1
      have hlink : link image block = nextBlock (image block) := by rw [link, if_neg hgoes.1]
      rw [Function.iterate_zero, id_eq] at hread
      rw [hread]
      refine ih fun blocks hblocks ↦ ?_
      have hlater := hreadable (blocks + 1) (Nat.succ_lt_succ hblocks)
      rwa [Function.iterate_succ_apply, hlink] at hlater

/-- The reader of the RAM disk copies the bytes that the driver reads. -/
theorem ram_copyLoop {count skip left : ℕ}
    (hreadable : ∀ blocks, dataPerBlock * blocks < skip + left →
      (link image)^[blocks] block = 0 ∨
        rd.readFileBlock ((link image)^[blocks] block) =
          .ok (image ((link image)^[blocks] block))) :
    rd.copyLoop count block skip left = .ok (dataFrom image count block skip left) := by
  induction count generalizing block skip left with
  | zero => rfl
  | succ count ih =>
    rw [RamDisk.copyLoop, dataFrom]
    split
    · rfl
    · rename_i hgoes
      rw [not_or] at hgoes
      have hlink : link image block = nextBlock (image block) := by rw [link, if_neg hgoes.1]
      have hread : rd.readFileBlock block = .ok (image block) :=
        (hreadable 0 (by omega)).resolve_left hgoes.1
      have htake : (if left < dataPerBlock - skip then left else dataPerBlock - skip) =
          min (dataPerBlock - skip) left := by split <;> omega
      have hrest : rd.copyLoop count (nextBlock (image block)) 0
          (left - min (dataPerBlock - skip) left) =
            .ok (dataFrom image count (nextBlock (image block)) 0
              (left - min (dataPerBlock - skip) left)) := by
        refine ih fun blocks hblocks ↦ ?_
        have hlater := hreadable (blocks + 1) (by rw [Nat.mul_succ]; omega)
        rwa [Function.iterate_succ_apply, hlink] at hlater
      simp only [hread, Bind.bind, Except.bind, htake, hrest]
      rfl

/-- The reader of the RAM disk reads the bytes that the driver reads. -/
theorem ram_readFile (hbufsize : 0 < bufsize) (htype : entry.type = EYNFS_TYPE_FILE)
    (hreadable : ∀ blocks, dataPerBlock * blocks < entry.size.toNat →
      (link image)^[blocks] entry.firstBlock = 0 ∨
        rd.readFileBlock ((link image)^[blocks] entry.firstBlock) =
          .ok (image ((link image)^[blocks] entry.firstBlock))) :
    rd.readFileAtInternal entry bufsize offset =
      .ok (fileBytes image entry bufsize.toUInt32.toNat offset.toNat) := by
  rw [RamDisk.readFileAtInternal, fileBytes, if_neg (Int32.not_le.mpr hbufsize),
    if_neg (not_not.mpr htype)]
  by_cases hpast : entry.size ≤ offset
  · rw [if_pos hpast, if_pos (UInt32.le_iff_toNat_le.mp hpast)]
    rfl
  · have hinside : offset.toNat < entry.size.toNat :=
      Nat.lt_of_not_le fun hle ↦ hpast (UInt32.le_iff_toNat_le.mpr hle)
    have hremain : (entry.size - offset).toNat = entry.size.toNat - offset.toNat :=
      UInt32.toNat_sub_of_le _ _ (UInt32.le_iff_toNat_le.mpr (Nat.le_of_lt hinside))
    have hwant : (if entry.size - offset < bufsize.toUInt32 then entry.size - offset
        else bufsize.toUInt32).toNat =
          min bufsize.toUInt32.toNat (entry.size.toNat - offset.toNat) := by
      split
      · rename_i hless
        rw [UInt32.lt_iff_toNat_lt, hremain] at hless
        rw [hremain]
        omega
      · rename_i hless
        rw [UInt32.lt_iff_toNat_lt, hremain] at hless
        omega
    rw [if_neg hpast, if_neg (Nat.not_le_of_lt hinside)]
    simp only [hwant]
    obtain ⟨blocks, hseek, hblocks, hskip⟩ :=
      seek_spec image (offset.toNat / dataPerBlock) offset.toNat entry.firstBlock
    have hskipped : rd.skipLoop (offset.toNat / dataPerBlock) entry.firstBlock offset.toNat =
        .ok (seek image (offset.toNat / dataPerBlock) entry.firstBlock offset.toNat) := by
      refine ram_skipLoop fun count hcount ↦ hreadable count ?_
      have hless := Nat.mul_lt_mul_of_pos_left hcount (by decide : 0 < dataPerBlock)
      have hwhole := Nat.mul_div_le offset.toNat dataPerBlock
      omega
    rw [hskipped, hseek]
    refine ram_copyLoop fun count hcount ↦ ?_
    rw [← Function.iterate_add_apply]
    refine hreadable _ ?_
    rw [Nat.mul_add]
    omega

/-- The blocks of a file that a path of a well-formed image leads to can be read. -/
theorem ram_readable (hwell : WellFormed image) (hsame : SameImage rd image)
    (htarget : Target (Holds image) (superblockOf (image 0)) path entry)
    (htype : entry.type = EYNFS_TYPE_FILE) (blocks : ℕ)
    (hblocks : dataPerBlock * blocks < entry.size.toNat) :
    (link image)^[blocks] entry.firstBlock = 0 ∨
      rd.readFileBlock ((link image)^[blocks] entry.firstBlock) =
        .ok (image ((link image)^[blocks] entry.firstBlock)) := by
  rw [Target] at htarget
  split at htarget
  · -- the root directory is no file
    rw [htarget, rootEntry_type] at htype
    exact absurd htype (by decide)
  · obtain ⟨name, parent, hparent, hholds⟩ := htarget.exists_holds Directory.next
      (fun _ ↦ zero_not_mem_component) Directory.root
    refine (hwell.backed parent entry hparent hholds.lists.1 htype blocks hblocks).imp_right ?_
    intro hinside
    rw [RamDisk.readFileBlock, hsame.sb, if_neg (UInt32.not_le.mpr hinside)]
    exact hsame.blocks _ hinside

/-! ### Agreement -/

/-- Followed for long enough, the RAM disk's reader finds the entry that the driver finds, or
neither finds one, and it reads the bytes that the driver reads, or both fail, whatever an entry
that is never assigned holds. A buffer size is what a C `int` holds, and the driver takes it as
unsigned. -/
def RamAgrees (rd : RamDisk) (drive : ℕ) (state : State) (path : List UInt8) (bufsize : Int32)
    (offset : UInt32) : Prop :=
  ∀ unassigned, ∃ enough, ∀ rounds, enough ≤ rounds →
    (rd.traverse rounds path).toOption =
        (run (answer drive) (lookUpPath path unassigned) state).1.toOption ∧
      (rd.readPath rounds path bufsize offset).toOption =
        (run (answer drive)
          (readPath path unassigned offset.toNat bufsize.toUInt32.toNat) state).1.toOption

section

variable (hcoherent : Coherent drive state (state.disk drive).sectors)

include hcoherent

/-- Where the readers agree on a path that the driver can look up, they find what the path leads to,
and so does a search of only some blocks. -/
theorem exists_found_of_ramAgrees (hwell : WellFormed (imageOf (state.disk drive).sectors))
    (hsame : SameImage rd (imageOf (state.disk drive).sectors))
    (habsolute : (cString path).head? = some slash) (hfits : (cString path).length < 256)
    (hnamed : Named path) (hagrees : RamAgrees rd drive state path bufsize offset) :
    ∃ rounds found, (rd.traverse rounds path).toOption = found ∧
      (rd.readPath rounds path bufsize offset).toOption =
        (found.filter fun entry ↦ entry.type == EYNFS_TYPE_FILE).map (fun entry ↦
          fileBytes (imageOf (state.disk drive).sectors) entry bufsize.toUInt32.toNat
            offset.toNat) ∧
      ∀ entry,
        (found = some entry ↔ Target (Holds (imageOf (state.disk drive).sectors))
          (superblockOf (imageOf (state.disk drive).sectors 0)) path entry) ∧
        (found = some entry ↔ Target (HoldsWithin maxBlocks (imageOf (state.disk drive).sectors))
          (superblockOf (imageOf (state.disk drive).sectors 0)) path entry) := by
  obtain ⟨most, hfinds⟩ := ram_traverse hwell hsame habsolute hfits
  obtain ⟨enough, henough⟩ := hagrees emptyEntry
  obtain ⟨hlookUp, hread⟩ := henough (max enough most) (Nat.le_max_left _ _)
  obtain ⟨found, hfound, hdriver, hbytes⟩ : ∃ found : Option DirEntry, _ ∧ _ ∧
      (run (answer drive) (readPath path emptyEntry offset.toNat bufsize.toUInt32.toNat)
        state).1.toOption = _ :=
    run_kernel hcoherent ⟨habsolute, Nat.le_of_lt_succ hfits, hnamed⟩ emptyEntry
  rw [hdriver] at hlookUp
  rw [hbytes] at hread
  refine ⟨max enough most, found, hlookUp, hread, fun entry ↦ ⟨?_, hfound entry⟩⟩
  have hfind := hfinds (max enough most) (Nat.le_max_right _ _) entry
  rw [and_iff_right hnamed] at hfind
  rw [← hlookUp, ← hfind]
  cases rd.traverse (max enough most) path <;> simp [Except.toOption]

/-- Where the readers agree, there is space in the buffer or no file to read: only the driver reads
a file into a buffer without space. -/
theorem space_of_ramAgrees (hwell : WellFormed (imageOf (state.disk drive).sectors))
    (hsame : SameImage rd (imageOf (state.disk drive).sectors))
    (habsolute : (cString path).head? = some slash) (hfits : (cString path).length < 256)
    (hnamed : Named path) (hagrees : RamAgrees rd drive state path bufsize offset)
    (hentry : Target (Holds (imageOf (state.disk drive).sectors))
      (superblockOf (imageOf (state.disk drive).sectors 0)) path entry)
    (htype : entry.type = EYNFS_TYPE_FILE) : 0 < bufsize := by
  by_contra hspace
  obtain ⟨rounds, found, hlookUp, hread, hfound⟩ :=
    exists_found_of_ramAgrees hcoherent hwell hsame habsolute hfits hnamed hagrees
  rw [(hfound entry).1.mpr hentry] at hlookUp hread
  rw [Option.filter_some, if_pos (beq_iff_eq.mpr htype)] at hread
  cases hram : rd.traverse rounds path with
  | error stop => simp [hram, Except.toOption] at hlookUp
  | ok first =>
    rw [RamDisk.readPath, hram] at hread
    simp only [Bind.bind, Except.bind] at hread
    rw [RamDisk.readFileAtInternal_fails (Or.inl hspace)] at hread
    simp [Except.toOption] at hread

/-- The readers agree on a path of a well-formed image that the driver can look up, where what it
leads to is among the blocks of a directory that the driver searches and there is space in the
buffer or no file to read. -/
theorem ramAgrees_of_near (hwell : WellFormed (imageOf (state.disk drive).sectors))
    (hsame : SameImage rd (imageOf (state.disk drive).sectors))
    (habsolute : (cString path).head? = some slash) (hfits : (cString path).length < 256)
    (hnamed : Named path) (hnear : Near (imageOf (state.disk drive).sectors) path)
    (hspace : ∀ entry, Target (Holds (imageOf (state.disk drive).sectors))
      (superblockOf (imageOf (state.disk drive).sectors 0)) path entry →
        entry.type = EYNFS_TYPE_FILE → 0 < bufsize) :
    RamAgrees rd drive state path bufsize offset := by
  intro unassigned
  obtain ⟨enough, hfinds⟩ := ram_traverse hwell hsame habsolute hfits
  obtain ⟨found, hfound, hdriver, hbytes⟩ : ∃ found : Option DirEntry, _ ∧ _ ∧
      (run (answer drive) (readPath path unassigned offset.toNat bufsize.toUInt32.toNat)
        state).1.toOption = _ :=
    run_kernel hcoherent ⟨habsolute, Nat.le_of_lt_succ hfits, hnamed⟩ unassigned
  refine ⟨enough, fun rounds hrounds ↦ ?_⟩
  rw [hdriver, hbytes]
  have hboth (entry : DirEntry) : rd.traverse rounds path = .ok entry ↔ found = some entry := by
    rw [hfinds rounds hrounds, hfound, target_within_iff hnear, and_iff_right hnamed]
  cases hram : rd.traverse rounds path with
  | error stop =>
    have hnone : found = none := by
      cases found with
      | none => rfl
      | some entry => exact absurd ((hboth entry).mpr rfl) (by simp [hram])
    rw [hnone, RamDisk.readPath, hram]
    exact ⟨rfl, rfl⟩
  | ok entry =>
    obtain rfl := (hboth entry).mp hram
    have htarget := ((hfinds rounds hrounds entry).mp hram).2
    refine ⟨rfl, ?_⟩
    rw [RamDisk.readPath, hram, Option.filter_some]
    simp only [Bind.bind, Except.bind]
    by_cases htype : entry.type = EYNFS_TYPE_FILE
    · rw [if_pos (beq_iff_eq.mpr htype), ram_readFile (hspace entry htarget htype) htype
        (ram_readable hwell hsame htarget htype)]
      rfl
    · rw [RamDisk.readFileAtInternal_fails (Or.inr htype), if_neg (by simpa using htype)]
      rfl

end

/-- The readers agree on a path of a well-formed image that the driver can look up just where what
it leads to is among the blocks of a directory that the driver searches and there is space in the
buffer or no file to read. -/
theorem ramAgrees_iff (hcoherent : Coherent drive state (state.disk drive).sectors)
    (hwell : WellFormed (imageOf (state.disk drive).sectors))
    (hsame : SameImage rd (imageOf (state.disk drive).sectors))
    (habsolute : (cString path).head? = some slash) (hfits : (cString path).length < 256)
    (hnamed : Named path) :
    RamAgrees rd drive state path bufsize offset ↔
      Near (imageOf (state.disk drive).sectors) path ∧
        ∀ entry, Target (Holds (imageOf (state.disk drive).sectors))
          (superblockOf (imageOf (state.disk drive).sectors 0)) path entry →
            entry.type = EYNFS_TYPE_FILE → 0 < bufsize := by
  constructor
  · intro hagrees
    refine ⟨fun entry hleads ↦ ?_, fun entry hentry htype ↦
      space_of_ramAgrees hcoherent hwell hsame habsolute hfits hnamed hagrees hentry htype⟩
    obtain ⟨-, found, -, -, hfound⟩ :=
      exists_found_of_ramAgrees hcoherent hwell hsame habsolute hfits hnamed hagrees
    have hcomponents : components (cString path) ≠ [] := by
      intro hnone
      rw [hnone] at hleads
      cases hleads
    have htarget := hfound entry
    rw [Target, Target, if_neg hcomponents, if_neg hcomponents] at htarget
    exact htarget.2.mp (htarget.1.mpr hleads)
  · rintro ⟨hnear, hspace⟩
    exact ramAgrees_of_near hcoherent hwell hsame habsolute hfits hnamed hnear hspace

/-! ### A small RAM disk -/

def smallRamDisk : RamDisk where
  base := fun lba ↦ smallSectors (blockToLba lba)
  sectors := 8
  partStartLba := 0
  sb := superblockOf (imageOf smallSectors 0)

/-- The module has the image of the drive. -/
theorem smallRamDisk_same : SameImage smallRamDisk (imageOf smallSectors) where
  sb := rfl
  blocks := by
    intro block hblock
    have htotal : (superblockOf (imageOf smallSectors 0)).totalBlocks = 8 := by decide +kernel
    rw [htotal] at hblock
    rw [RamDisk.fsBlockToLba, RamDisk.readSectorRaw, smallRamDisk, UInt32.zero_add,
      if_neg (UInt32.not_le.mpr hblock)]
    rfl

theorem small_named : Named [47, 97] := by
  have hcomponents : components (cString [47, 97]) = [[97]] := by decide
  exact Or.inr (by rw [hcomponents]; exact List.cons_ne_nil _ _)

/-- The two readers find the file and read its first two bytes. -/
theorem ramAgrees_small :
    RamAgrees smallRamDisk 0 (.boot (fun _ ↦ smallDrive) 16) [47, 97] 2 0 :=
  (ramAgrees_iff small_coherent small_wellFormed smallRamDisk_same (by decide) (by decide)
    small_named).mpr ⟨small_near, fun _ _ _ ↦ by decide⟩

/-- The path of the file leads to a file. -/
theorem small_target : ∃ entry, Target (Holds (imageOf smallSectors))
    (superblockOf (imageOf smallSectors 0)) [47, 97] entry ∧ entry.type = EYNFS_TYPE_FILE := by
  have hcomponents : components (cString [47, 97]) = [[97]] := by decide
  have hroot : (superblockOf (imageOf smallSectors 0)).rootDirBlock = 2 := by decide +kernel
  obtain ⟨found, hfound⟩ :
      ∃ found, lookBlock (imageOf smallSectors) [97] 2 = .inl (some found) := by
    have hsome : ((lookBlock (imageOf smallSectors) [97] 2).getLeft?.bind id).isSome = true := by
      decide +kernel
    cases hlook : lookBlock (imageOf smallSectors) [97] 2 with
    | inl found =>
      cases found with
      | none => simp [hlook] at hsome
      | some found => exact ⟨found, rfl⟩
    | inr next => simp [hlook] at hsome
  have hholds : Holds (imageOf smallSectors) [97] 2 found := ⟨0, .leave hfound⟩
  refine ⟨found, ?_, (small_lists hholds.lists.1).1⟩
  rw [Target, hcomponents, hroot, if_neg (List.cons_ne_nil _ _)]
  exact .last hholds

/-- Into a buffer without space only the driver reads the file. -/
theorem not_ramAgrees :
    ¬∀ (rd : RamDisk) (drive : ℕ) (state : State) (path : List UInt8) (bufsize : Int32)
      (offset : UInt32), Coherent drive state (state.disk drive).sectors →
        WellFormed (imageOf (state.disk drive).sectors) →
          SameImage rd (imageOf (state.disk drive).sectors) → (cString path).head? = some slash →
            (cString path).length < 256 → RamAgrees rd drive state path bufsize offset := by
  intro hclaim
  obtain ⟨entry, hentry, htype⟩ := small_target
  have hspace : (0 : Int32) < 0 :=
    space_of_ramAgrees small_coherent small_wellFormed smallRamDisk_same (by decide) (by decide)
      small_named
      (hclaim smallRamDisk 0 (.boot (fun _ ↦ smallDrive) 16) [47, 97] 0 0 small_coherent
        small_wellFormed smallRamDisk_same (by decide) (by decide)) hentry htype
  exact absurd hspace (by decide)

end EynOS.Storage
