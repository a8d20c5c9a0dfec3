import EynOS.Storage.Fields
import EynOS.Storage.GrubWalk
import EynOS.Storage.ImageReading
import Mathlib.Data.List.Find

/-!
# The boot loader's reader and the kernel's

`ReadsAlike` is what one expects of the GRUB module on one path of one disk: that it finds and
delivers what `eynfs_traverse_path` and `eynfs_read_file` do where the disk has a well-formed image,
that it writes only inside its buffers, and that it comes back.

`reads_alike_iff` is when that is so: only where no superblock can be read, since
`eynfs_load_superblock` reads a sector into the 36 bytes of a superblock. The theorem says besides
that nothing else is written outside a buffer, when the module comes back, and when it agrees with
the kernel. `not_reads_alike` looks a name up in a directory whose chain is a cycle.
-/

namespace EynOS.Storage

open Foundation Interaction

/-! ### The kernel's side -/

/-- `eynfs_traverse_path` on the file system of a drive. -/
def lookUpPath (path : List UInt8) (unassigned : DirEntry) : Program DirEntry := do
  let sb ← readSuperblock
  let (entry, _, _) ← traversePath sb path unassigned
  pure entry

/-- `eynfs_traverse_path` and `eynfs_read_file`. -/
def readPath (path : List UInt8) (unassigned : DirEntry) (offset len : ℕ) :
    Program (List UInt8) := do
  let sb ← readSuperblock
  let (entry, _, _) ← traversePath sb path unassigned
  readFile entry len offset

/-! ### The same partition -/

/-- A disk of the boot loader has the image of a drive, at its start or, where no superblock is at
its start, at the legacy place. -/
structure SamePartition (device : Grub.Device) (base : ℕ) (image : Image) : Prop where
  place : base = 0 ∨ base = Grub.EYNFS_LEGACY_SUPERBLOCK_LBA ∧
    (device 0).filter Grub.isSuperblock = none
  blocks : ∀ block, block < (superblockOf (image 0)).totalBlocks →
    device (base + block.toNat) = some (image block)

variable {device : Grub.Device} {base drive rounds offset len : ℕ} {image : Image}
  {mount : Grub.Mount} {name path buf : List UInt8} {names : List (List UInt8)}
  {entry : DirEntry} {block dir : UInt32} {state : State} {latest : UInt32 → Sector}

/-- The module finds the superblock. -/
theorem SamePartition.mountOf (hsame : SamePartition device base image)
    (hwell : WellFormed image) :
    Grub.mountOf device = .ok { sb := superblockOf (image 0), sbLba := base } := by
  have hblock := hsame.blocks 0 hwell.nonempty
  have hsuperblock : Grub.isSuperblock (image 0) = true := by
    rw [Grub.isSuperblock, hwell.magic, hwell.blockSize]
    rfl
  rw [UInt32.toNat_zero, Nat.add_zero] at hblock
  rcases hsame.place with rfl | ⟨rfl, hstart⟩
  · rw [Grub.mountOf, hblock, Option.filter_some, if_pos hsuperblock]
  · rw [Grub.mountOf, hstart]
    simp only [hblock, hsuperblock, if_true]

/-! ### Names -/

/-- The characters of a string up to its first zero. -/
theorem cString_cons (char : UInt8) (rest : List UInt8) :
    cString (char :: rest) = if char = 0 then [] else char :: cString rest := by
  rw [cString, List.takeWhile_cons]
  by_cases hchar : char = 0
  · simp [hchar]
  · rw [if_pos (decide_eq_true hchar), if_neg hchar]
    rfl

theorem zero_not_mem_cString : (0 : UInt8) ∉ cString path := by
  intro hzero
  simpa using List.mem_takeWhile_imp hzero

/-- `eynfs_name_eq` compares the whole of both names. -/
theorem Grub.nameEq_iff (raw : List UInt8) (hname : (0 : UInt8) ∉ name) :
    Grub.nameEq raw name = true ↔ cString raw = name := by
  induction raw generalizing name with
  | nil =>
    rw [Grub.nameEq, List.isEmpty_iff]
    exact eq_comm
  | cons char raw ih =>
    rw [cString_cons]
    cases name with
    | nil =>
      rw [Grub.nameEq, beq_iff_eq]
      by_cases hchar : char = 0
      · simp [hchar]
      · simp [hchar]
    | cons expected name =>
      have hlater : (0 : UInt8) ∉ name := fun hzero ↦ hname (List.mem_cons_of_mem _ hzero)
      have hfirst : expected ≠ 0 := by
        rintro rfl
        exact hname List.mem_cons_self
      simp only [Grub.nameEq, Bool.and_eq_true, bne_iff_ne, beq_iff_eq, ih hlater]
      by_cases hchar : char = 0
      · simp [hchar]
      · simp only [ne_eq, hchar, not_false_eq_true, true_and, if_false, List.cons.injEq]
        rw [eq_comm (a := expected)]

/-- A name that is ended in its field is shorter than the field. -/
theorem length_name_lt (hnamed : byteAt entry (EYNFS_NAME_MAX - 1) = 0) :
    entry.name.length < EYNFS_NAME_MAX := by
  by_contra hlong
  have hwhole : entry.name = (List.range EYNFS_NAME_MAX).map (byteAt entry) := by
    refine (List.takeWhile_prefix _).eq_of_length_le ?_
    rw [List.length_map, List.length_range]
    exact Nat.le_of_not_lt hlong
  have hnonzero := List.takeWhile_eq_self_iff.mp hwhole (byteAt entry (EYNFS_NAME_MAX - 1))
    (List.mem_map_of_mem (List.mem_range.mpr (by decide)))
  simp [hnamed] at hnonzero

/-- The names that an entry has for the kernel, where its name is ended in its field. -/
theorem hasName_iff (hname : (0 : UInt8) ∉ name)
    (hnamed : byteAt entry (EYNFS_NAME_MAX - 1) = 0) :
    entry.hasName name = true ↔ entry.name = name := by
  have hlength := length_name_lt hnamed
  rw [DirEntry.hasName, beq_iff_eq, cString_eq_self hname]
  constructor
  · intro htake
    rw [htake, List.length_take] at hlength
    have hshort : name.length ≤ EYNFS_NAME_MAX := by omega
    rw [htake, List.take_of_length_le hshort]
  · intro hequal
    rw [← hequal, List.take_of_length_le (Nat.le_of_lt hlength)]

/-- Where a name is ended in its field, the module and the kernel agree whether it is the one that
is looked up. -/
theorem nameEq_eq_hasName (hname : (0 : UInt8) ∉ name)
    (hnamed : byteAt entry (EYNFS_NAME_MAX - 1) = 0) :
    Grub.nameEq (Grub.rawName entry) name = entry.hasName name := by
  rw [Bool.eq_iff_iff, Grub.nameEq_iff _ hname, hasName_iff hname hnamed]
  rfl

/-! ### Lookups -/

def Grub.reported : Option DirEntry → Except Grub.Failure DirEntry
  | some entry => .ok entry
  | none => .error (.error .fileNotFound "entry not found")

/-- On a block of a directory the module does what the kernel does. -/
theorem boot_lookBlock (hwell : WellFormed image) (hsame : SamePartition device base image)
    (hname : (0 : UInt8) ∉ name) (hdir : Directory image dir)
    (hblock : block = 0 ∨ InChain image dir block) :
    Grub.lookBlock device { sb := superblockOf (image 0), sbLba := base } name block =
      (lookBlock image name block).map Grub.reported id := by
  rw [Grub.lookBlock, lookBlock]
  by_cases hzero : block = 0
  · rw [if_pos hzero, if_pos hzero]
    rfl
  · have hchain := hblock.resolve_left hzero
    have hread := hsame.blocks block (hwell.inside dir block hdir hchain)
    have hfind : Grub.entryNamed name (image block) = (entriesOf (image block)).find?
        fun entry ↦ !entry.isFree && entry.hasName name := by
      rw [Grub.entryNamed]
      refine List.find?_congr fun entry hentry ↦ ?_
      cases hfree : entry.isFree with
      | true => rfl
      | false =>
        rw [nameEq_eq_hasName hname (hwell.named dir entry hdir ⟨block, hchain, hentry, hfree⟩)]
    rw [if_neg hzero, if_neg hzero, Grub.Mount.blockToLba, hread]
    simp only [hfind]
    cases (entriesOf (image block)).find? fun entry ↦ !entry.isFree && entry.hasName name <;> rfl

/-- A search in a directory of a well-formed image ends. -/
theorem exists_search (hwell : WellFormed image) (hdir : Directory image dir) :
    ∃ blocks found, Exits (lookBlock image name) blocks dir found := by
  obtain ⟨count, hcount⟩ := hwell.ends dir hdir
  exact ends_lookBlock hcount

theorem chain_start : dir = 0 ∨ InChain image dir dir := by
  by_cases hzero : dir = 0
  · exact Or.inl hzero
  · exact Or.inr ⟨hzero, 0, rfl⟩

/-- The chain of a directory is not left by a search. -/
theorem chain_next {next : UInt32} (hblock : block = 0 ∨ InChain image dir block)
    (hbody : lookBlock image name block = .inr next) : next = 0 ∨ InChain image dir next := by
  obtain ⟨hzero, hlink⟩ := lookBlock_eq_inr hbody
  obtain ⟨-, count, hcount⟩ := hblock.resolve_left hzero
  by_cases hend : next = 0
  · exact Or.inl hend
  · refine Or.inr ⟨hend, count + 1, ?_⟩
    rw [Function.iterate_succ_apply', hcount, hlink]

/-- In a directory of a well-formed image the module's search and the kernel's without its bound end
after the same blocks. -/
theorem boot_search (hwell : WellFormed image) (hsame : SamePartition device base image)
    (hname : (0 : UInt8) ∉ name) (hdir : Directory image dir) :
    ∃ blocks found, Exits (lookBlock image name) blocks dir found ∧
      Exits (Grub.lookBlock device { sb := superblockOf (image 0), sbLba := base } name) blocks dir
        (Grub.reported found) := by
  obtain ⟨blocks, found, hexits⟩ : ∃ blocks found, Exits (lookBlock image name) blocks dir found :=
    exists_search hwell hdir
  refine ⟨blocks, found, hexits, hexits.carry (fun block hblock ↦ ?_)
    (fun block next hblock hbody ↦ chain_next hblock hbody) chain_start⟩
  exact boot_lookBlock hwell hsame hname hdir hblock

/-- In a directory of a well-formed image the module finds what is there. -/
theorem boot_holds_iff (hwell : WellFormed image) (hsame : SamePartition device base image)
    (hname : (0 : UInt8) ∉ name) (hdir : Directory image dir) :
    Grub.Holds device { sb := superblockOf (image 0), sbLba := base } name dir entry ↔
      Holds image name dir entry := by
  obtain ⟨blocks, found, hexits, hboot⟩ := boot_search hwell hsame hname hdir
  constructor
  · rintro ⟨turns, hturns⟩
    have hresult := (hboot.unique hturns).2
    cases found with
    | none => simp [Grub.reported] at hresult
    | some first =>
      obtain rfl : first = entry := Except.ok.inj hresult
      exact ⟨blocks, hexits⟩
  · rintro ⟨turns, hturns⟩
    obtain rfl := (hexits.unique hturns).2
    exact ⟨blocks, hboot⟩

/-! ### Paths -/

/-- The names of a path that lead somewhere in a well-formed image do not fill their field. -/
theorem length_of_holds (hwell : WellFormed image) (hdir : Directory image dir)
    (hname : (0 : UInt8) ∉ name) (hholds : Holds image name dir entry) :
    name.length < EYNFS_NAME_MAX := by
  obtain ⟨hlists, hhas⟩ := hholds.lists
  have hnamed := hwell.named dir entry hdir hlists
  rw [← (hasName_iff hname hnamed).mp hhas]
  exact length_name_lt hnamed

theorem zero_not_mem_component (hname : name ∈ components (cString path)) : (0 : UInt8) ∉ name :=
  fun hzero ↦ zero_not_mem_cString (mem_of_mem_component hname hzero)

theorem zero_not_mem_piece {limit : ℕ} (hname : name ∈ pieces limit (cString path)) :
    (0 : UInt8) ∉ name :=
  fun hzero ↦ (mem_of_mem_piecesFrom hname hzero).elim List.not_mem_nil zero_not_mem_cString

theorem Directory.next (name : List UInt8) (dir : UInt32) (entry : DirEntry)
    (_ : (0 : UInt8) ∉ name) (hdir : Directory image dir) (hholds : Holds image name dir entry)
    (htype : entry.type = EYNFS_TYPE_DIR) : Directory image entry.firstBlock :=
  hdir.found hholds htype

theorem boot_leads_iff (hwell : WellFormed image) (hsame : SamePartition device base image)
    (hnames : ∀ name ∈ names, (0 : UInt8) ∉ name) (hdir : Directory image dir) :
    Leads (Grub.Holds device { sb := superblockOf (image 0), sbLba := base }) names dir entry ↔
      Leads (Holds image) names dir entry := by
  constructor
  · refine Leads.within (fun name dir entry hname hdir hholds ↦ ?_)
      (fun name dir entry hname hdir hholds ↦ ?_) hnames hdir
    · exact (boot_holds_iff hwell hsame hname hdir).mp hholds
    · exact hdir.found ((boot_holds_iff hwell hsame hname hdir).mp hholds)
  · refine Leads.within (fun name dir entry hname hdir hholds ↦ ?_) Directory.next hnames hdir
    exact (boot_holds_iff hwell hsame hname hdir).mpr hholds

/-- The pieces of a path lead where its components do. -/
theorem leads_pieces_iff (hwell : WellFormed image) :
    Leads (Holds image) (pieces Grub.compSize (cString path))
        (superblockOf (image 0)).rootDirBlock entry ↔
      Leads (Holds image) (components (cString path)) (superblockOf (image 0)).rootDirBlock
        entry := by
  have hshort (name : List UInt8) (dir : UInt32) (entry : DirEntry) (hname : (0 : UInt8) ∉ name)
      (hdir : Directory image dir) (hholds : Holds image name dir entry) :
      name.length < EYNFS_NAME_MAX :=
    length_of_holds hwell hdir hname hholds
  constructor
  · intro hleads
    have hlengths := hleads.forall_names hshort Directory.next (fun _ ↦ zero_not_mem_piece) .root
    have hpieces : pieces Grub.compSize (cString path) = components (cString path) := by
      refine piecesFrom_eq_of_pieces List.not_mem_nil fun name hname ↦ ?_
      exact Nat.lt_of_le_of_lt (hlengths name hname) (by decide)
    exact hpieces ▸ hleads
  · intro hleads
    have hlengths :=
      hleads.forall_names hshort Directory.next (fun _ ↦ zero_not_mem_component) .root
    have hpieces : pieces Grub.compSize (cString path) = components (cString path) := by
      refine piecesFrom_eq_of_components List.not_mem_nil fun name hname ↦ ?_
      exact Nat.lt_trans (hlengths name hname) (by decide)
    exact hpieces ▸ hleads

/-- The module comes back from every path of a well-formed image. -/
theorem boot_searchable (hwell : WellFormed image) (hsame : SamePartition device base image) :
    Grub.Searchable device path := by
  intro mount hmount
  obtain rfl := Except.ok.inj ((hsame.mountOf hwell).symm.trans hmount)
  have hends (name : List UInt8) (dir : UInt32) (hname : (0 : UInt8) ∉ name)
      (hdir : Directory image dir) :
      ¬Grub.Endless device { sb := superblockOf (image 0), sbLba := base } name dir := by
    intro hendless
    obtain ⟨blocks, found, -, hboot⟩ := boot_search hwell hsame hname hdir
    exact hendless ⟨blocks, _, hboot⟩
  have hkeep (name : List UInt8) (dir : UInt32) (entry : DirEntry) (hname : (0 : UInt8) ∉ name)
      (hdir : Directory image dir)
      (hholds : Grub.Holds device { sb := superblockOf (image 0), sbLba := base } name dir entry) :
      entry.type = EYNFS_TYPE_DIR → Directory image entry.firstBlock :=
    hdir.found ((boot_holds_iff hwell hsame hname hdir).mp hholds)
  exact not_stalls hends hkeep (fun _ ↦ zero_not_mem_piece) Directory.root

/-! ### Files -/

/-- A block can be read on the boot loader's disk, or the chain is at its end. -/
def Readable (device : Grub.Device) (base : ℕ) (image : Image) (block : UInt32) : Prop :=
  block = 0 ∨ device (base + block.toNat) = some (image block)

/-- Seeking follows the chain and leaves what is left of the offset. -/
theorem seek_spec (image : Image) (count skip : ℕ) (block : UInt32) :
    ∃ blocks, seek image count block skip =
      ((link image)^[blocks] block, skip - dataPerBlock * blocks) ∧ blocks ≤ count ∧
        dataPerBlock * blocks ≤ skip := by
  induction count generalizing block skip with
  | zero => exact ⟨0, rfl, Nat.le_refl _, Nat.zero_le _⟩
  | succ count ih =>
    rw [seek]
    split
    · exact ⟨0, rfl, Nat.zero_le _, Nat.zero_le _⟩
    · rename_i hgoes
      rw [not_or, Nat.not_lt] at hgoes
      obtain ⟨blocks, hseek, hblocks, hskip⟩ := ih (skip - dataPerBlock) (nextBlock (image block))
      have hlink : link image block = nextBlock (image block) := by rw [link, if_neg hgoes.1]
      refine ⟨blocks + 1, ?_, Nat.succ_le_succ hblocks, ?_⟩
      · rw [hseek, Function.iterate_succ_apply, hlink, Nat.mul_succ, Nat.sub_sub, Nat.add_comm]
      · rw [Nat.mul_succ]
        exact Nat.add_le_of_le_sub hgoes.2 hskip

/-- The module seeks where the kernel does. -/
theorem run_skipLoop {count start : ℕ} (hbase : mount.sbLba = base)
    (hreadable : ∀ blocks < count, Readable device base image ((link image)^[blocks] block)) :
    run (Grub.answer device) (Grub.skipLoop mount count block start) buf =
      (.ok (seek image count block start), buf) := by
  induction count generalizing block start with
  | zero => rfl
  | succ count ih =>
    rw [Grub.skipLoop, seek]
    split
    · rfl
    · rename_i hgoes
      rw [not_or] at hgoes
      have hread := (hreadable 0 (Nat.succ_pos count)).resolve_left hgoes.1
      have hlink : link image block = nextBlock (image block) := by rw [link, if_neg hgoes.1]
      rw [run_bind, Grub.run_readSector, Grub.Mount.blockToLba, hbase]
      simp only [Function.iterate_zero, id_eq] at hread
      simp only [hread]
      refine ih fun blocks hblocks ↦ ?_
      have hlater := hreadable (blocks + 1) (Nat.succ_lt_succ hblocks)
      rwa [Function.iterate_succ_apply, hlink] at hlater

/-- Two copies, the second one behind the first, are one copy. -/
theorem splice_splice {first second : List UInt8} (hroom : offset ≤ buf.length) :
    Grub.splice (offset + first.length) second (Grub.splice offset first buf) =
      Grub.splice offset (first ++ second) buf := by
  have hstart : (buf.take offset ++ first).length = offset + first.length := by
    rw [List.length_append, List.length_take, Nat.min_eq_left hroom]
  rw [Grub.splice, Grub.splice, Grub.splice, ← hstart, List.take_left, hstart, List.length_append,
    ← Nat.add_assoc, List.append_assoc (buf.take offset) first second]
  congr 1
  rw [← List.drop_drop, ← hstart, List.drop_left, hstart, List.drop_drop]

theorem length_splice_ge {data : List UInt8} (hroom : offset ≤ buf.length) :
    offset + data.length ≤ (Grub.splice offset data buf).length := by
  rw [Grub.splice, List.length_append, List.length_append, List.length_take,
    Nat.min_eq_left hroom]
  exact Nat.le_add_right _ _

theorem splice_nil : Grub.splice offset [] buf = buf := by
  rw [Grub.splice, List.append_nil, List.length_nil, Nat.add_zero, List.take_append_drop]

/-- The module copies the bytes that the kernel reads. -/
theorem run_copyLoop {count start remaining copied : ℕ} (hbase : mount.sbLba = base)
    (hroom : copied ≤ buf.length)
    (hreadable : ∀ blocks, dataPerBlock * blocks < start + remaining →
      Readable device base image ((link image)^[blocks] block)) :
    run (Grub.answer device) (Grub.copyLoop mount count block start remaining copied) buf =
      (.ok (copied + (dataFrom image count block start remaining).length),
        Grub.splice copied (dataFrom image count block start remaining) buf) := by
  induction count generalizing block start remaining copied buf with
  | zero =>
    rw [dataFrom, splice_nil]
    rfl
  | succ count ih =>
    rw [Grub.copyLoop, dataFrom]
    split
    · rw [splice_nil]
      rfl
    · rename_i hgoes
      rw [not_or] at hgoes
      have hlink : link image block = nextBlock (image block) := by rw [link, if_neg hgoes.1]
      have hread : device (base + block.toNat) = some (image block) :=
        (hreadable 0 (by omega)).resolve_left hgoes.1
      have htake : (if remaining < dataPerBlock - start then remaining else dataPerBlock - start) =
          min (dataPerBlock - start) remaining := by split <;> omega
      generalize hchunk : min (dataPerBlock - start) remaining = chunk at htake
      have hdata : (dataOf (image block) start chunk).length = chunk := by
        rw [dataOf, List.length_map, List.length_range]
      rw [run_bind, Grub.run_readSector, Grub.Mount.blockToLba, hbase]
      simp only [hread, htake, run_bind, Grub.copy, run_request, Grub.answer]
      have hnext : copied + (dataOf (image block) start chunk).length ≤
          (Grub.splice copied (dataOf (image block) start chunk) buf).length :=
        length_splice_ge hroom
      rw [hdata] at hnext
      rw [ih hnext, List.length_append, hdata, Nat.add_assoc]
      · congr 1
        rw [← splice_splice hroom, hdata]
      · intro blocks hblocks
        have hlater := hreadable (blocks + 1) (by rw [Nat.mul_succ]; omega)
        rwa [Function.iterate_succ_apply, hlink] at hlater

theorem take_splice_zero (data : List UInt8) :
    (Grub.splice 0 data buf).take data.length = data := by
  rw [Grub.splice, List.take_zero, List.nil_append, List.take_left]

/-- The module reads the bytes that the kernel reads. -/
theorem run_read {file : Grub.File} (hbase : file.mount.sbLba = base)
    (hfirst : file.fileFirstBlock = entry.firstBlock) (hsize : file.size = entry.size)
    (hreadable : ∀ blocks, dataPerBlock * blocks < entry.size.toNat →
      Readable device base image ((link image)^[blocks] entry.firstBlock)) :
    run (Grub.answer device) (Grub.read file offset len) buf =
      (.ok (fileBytes image entry len offset).length,
        Grub.splice 0 (fileBytes image entry len offset) buf) := by
  rw [Grub.read, fileBytes, hsize, hfirst]
  split
  · rw [splice_nil]
    rfl
  · rename_i hinside
    have hlen : (if entry.size.toNat - offset < len then entry.size.toNat - offset else len) =
        min len (entry.size.toNat - offset) := by split <;> omega
    obtain ⟨blocks, hseek, hblocks, hskip⟩ :=
      seek_spec image (offset / dataPerBlock) offset entry.firstBlock
    have hskipped : run (Grub.answer device)
        (Grub.skipLoop file.mount (offset / dataPerBlock) entry.firstBlock offset) buf =
          (.ok (seek image (offset / dataPerBlock) entry.firstBlock offset), buf) := by
      refine run_skipLoop hbase fun count hcount ↦ hreadable count ?_
      have hless := Nat.mul_lt_mul_of_pos_left hcount (by decide : 0 < dataPerBlock)
      have hwhole := Nat.mul_div_le offset dataPerBlock
      omega
    rw [run_bind, hskipped, hseek]
    simp only [hlen]
    rw [run_copyLoop hbase (Nat.zero_le _), Nat.zero_add]
    intro count hcount
    rw [← Function.iterate_add_apply]
    refine hreadable _ ?_
    rw [Nat.mul_add]
    omega

/-! ### Agreement -/

def delivered (outcome : Except Grub.Failure ℕ × List UInt8) : Option (List UInt8) :=
  outcome.1.toOption.map fun count ↦ outcome.2.take count

/-- Followed for long enough, the module finds the entry that the kernel finds, or neither finds
one, and it delivers the bytes that the kernel reads, or both fail, whatever an entry that is never
assigned holds. -/
def Agrees (device : Grub.Device) (drive : ℕ) (state : State) (path : List UInt8)
    (offset len : ℕ) (buf : List UInt8) : Prop :=
  ∀ unassigned, ∃ enough, ∀ rounds, enough ≤ rounds →
    (run (Grub.answer device) (Grub.lookUp rounds path) buf).1.toOption =
        (run (answer drive) (lookUpPath path unassigned) state).1.toOption ∧
      delivered (run (Grub.answer device) (Grub.readPath rounds path offset len) buf) =
        (run (answer drive) (readPath path unassigned offset len) state).1.toOption

/-- A path that the kernel takes as a whole: it is absolute, fits in the buffer of
`eynfs_traverse_path`, and names something or is the root directory. -/
structure Whole (path : List UInt8) : Prop where
  absolute : (cString path).head? = some slash
  fits : (cString path).length ≤ 255
  names : cString path = [slash] ∨ components (cString path) ≠ []

/-- What a path leads to is not behind the blocks of a directory that the kernel searches. -/
def Near (image : Image) (path : List UInt8) : Prop :=
  ∀ entry,
    Leads (Holds image) (components (cString path)) (superblockOf (image 0)).rootDirBlock entry →
      Leads (HoldsWithin maxBlocks image) (components (cString path))
        (superblockOf (image 0)).rootDirBlock entry

/-- `eynfs_read_superblock` reads the first block of the image. -/
theorem answers_readSuperblock (hcoherent : Coherent drive state (state.disk drive).sectors) :
    (run (answer drive) readSuperblock state).1 =
        .ok (superblockOf (imageOf (state.disk drive).sectors 0)) ∧
      Coherent drive (run (answer drive) readSuperblock state).2 (state.disk drive).sectors := by
  rw [readSuperblock, run_bind, readBlock, run_bind, run_request]
  simp only [answer, ataReadSector, Disk.read_eq hcoherent.succeeds, orFail, run_pure]
  refine ⟨rfl, hcoherent.congr ?_ ?_ rfl⟩
  · simp [State.setDisk, Disk.count]
  · simp [State.setDisk, Disk.count]

theorem run_superblock {Result : Type} {continuation : Superblock → Program Result}
    {outcome : Except Stop Result} (hcoherent : Coherent drive state (state.disk drive).sectors)
    (hrest : Answers drive (state.disk drive).sectors
      (continuation (superblockOf (imageOf (state.disk drive).sectors 0))) outcome) :
    (run (answer drive) (readSuperblock >>= continuation) state).1 = outcome := by
  obtain ⟨hsuperblock, hafter⟩ := answers_readSuperblock hcoherent
  rw [run_bind]
  generalize run (answer drive) readSuperblock state = first at hsuperblock hafter
  obtain ⟨_, after⟩ := first
  obtain rfl := hsuperblock
  exact (hrest after hafter).1

/-- A path has no pieces just where it has no components. -/
theorem pieces_eq_nil_iff {limit : ℕ} : pieces limit path = [] ↔ components path = [] := by
  constructor
  · intro hnil
    have hequal : pieces limit path = components path :=
      piecesFrom_eq_of_pieces List.not_mem_nil (by
        intro name hname
        rw [← pieces, hnil] at hname
        exact absurd hname List.not_mem_nil)
    rw [← hequal, hnil]
  · intro hnil
    have hequal : pieces limit path = components path :=
      piecesFrom_eq_of_components List.not_mem_nil (by
        intro name hname
        rw [List.nil_append, hnil] at hname
        exact absurd hname List.not_mem_nil)
    rw [hequal, hnil]

/-- What a path leads to by some lookup. -/
def Target (holds : List UInt8 → UInt32 → DirEntry → Prop) (sb : Superblock)
    (path : List UInt8) (entry : DirEntry) : Prop :=
  if components (cString path) = [] then entry = rootEntry sb
  else Leads holds (components (cString path)) sb.rootDirBlock entry

/-- `eynfs_traverse_path` finds what the path leads to, before the bound on its searches. -/
theorem answers_traversePath (hwhole : Whole path) (sb : Superblock) (unassigned : DirEntry) :
    ∃ outcome, Answers drive latest (traversePath sb path unassigned) outcome ∧
      ∀ entry, (∃ place, outcome = .ok (entry, place)) ↔
        Target (HoldsWithin maxBlocks (imageOf latest)) sb path entry := by
  rw [traversePath, if_neg (not_not.mpr hwhole.absolute), List.take_of_length_le hwhole.fits]
  by_cases hroot : cString path = [slash]
  · rw [if_pos hroot]
    refine ⟨_, answers_pure, fun entry ↦ ?_⟩
    have hnone : components [slash] = [] := by decide
    rw [Target, hroot, if_pos hnone]
    simp [eq_comm]
  · have hnames := hwhole.names.resolve_left hroot
    rw [if_neg hroot]
    simp only [Target, if_neg hnames]
    refine answers_traverseLoop hnames (fun name hname ↦ ?_) _
    rw [cString_eq_self (zero_not_mem_component hname)]
    exact ne_nil_of_mem_component hname

/-- What the kernel looks up and reads on a drive whose caches hold what the drive does: the entry
that the path leads to and the bytes of that file, or nothing. -/
theorem run_kernel (hcoherent : Coherent drive state (state.disk drive).sectors)
    (hwhole : Whole path) (unassigned : DirEntry) :
    ∃ found : Option DirEntry,
      (∀ entry, found = some entry ↔
        Target (HoldsWithin maxBlocks (imageOf (state.disk drive).sectors))
          (superblockOf (imageOf (state.disk drive).sectors 0)) path entry) ∧
      (run (answer drive) (lookUpPath path unassigned) state).1.toOption = found ∧
      (run (answer drive) (readPath path unassigned offset len) state).1.toOption =
        (found.filter fun entry ↦ entry.type == EYNFS_TYPE_FILE).map fun entry ↦
          fileBytes (imageOf (state.disk drive).sectors) entry len offset := by
  obtain ⟨outcome, hanswers, hfound⟩ : ∃ outcome,
      Answers drive (state.disk drive).sectors
        (traversePath (superblockOf (imageOf (state.disk drive).sectors 0)) path unassigned)
        outcome ∧
        ∀ entry, (∃ place, outcome = .ok (entry, place)) ↔
          Target (HoldsWithin maxBlocks (imageOf (state.disk drive).sectors))
            (superblockOf (imageOf (state.disk drive).sectors 0)) path entry :=
    answers_traversePath hwhole _ unassigned
  cases outcome with
  | error failure =>
    refine ⟨none, fun entry ↦ ?_, ?_, ?_⟩
    · rw [← hfound]
      simp
    · rw [lookUpPath, run_superblock hcoherent hanswers.bind_error]
      rfl
    · rw [readPath, run_superblock hcoherent hanswers.bind_error]
      rfl
  | ok place =>
    obtain ⟨entry, parent, index⟩ := place
    refine ⟨some entry, fun other ↦ ?_, ?_, ?_⟩
    · rw [← hfound]
      simp
    · have hpure : Answers drive (state.disk drive).sectors (pure entry) (.ok entry) :=
        answers_pure
      rw [lookUpPath, run_superblock hcoherent (hanswers.bind hpure)]
      rfl
    · by_cases htype : entry.type = EYNFS_TYPE_FILE
      · rw [readPath, run_superblock hcoherent (hanswers.bind (answers_readFile htype len offset)),
          Option.filter_some, if_pos (beq_iff_eq.mpr htype)]
        rfl
      · have hfails : Answers drive (state.disk drive).sectors (readFile entry len offset)
            (.error (.error (-1))) := by
          rw [readFile, if_pos htype]
          exact answers_fail
        rw [readPath, run_superblock hcoherent (hanswers.bind hfails), Option.filter_some,
          if_neg (by simpa using htype)]
        rfl

/-- What the module finds on a well-formed image, followed for long enough: the entry that the path
leads to. -/
theorem boot_lookedUp (hwell : WellFormed image) (hsame : SamePartition device base image) :
    ∃ enough, ∀ rounds, enough ≤ rounds → ∀ entry,
      Grub.lookedUp device rounds path { sb := superblockOf (image 0), sbLba := base } =
        .ok entry ↔ Target (Holds image) (superblockOf (image 0)) path entry := by
  have hsearchable : Grub.Searchable device path := boot_searchable hwell hsame
  obtain ⟨enough, henough⟩ := Grub.exists_rounds (hsearchable _ (hsame.mountOf hwell))
  refine ⟨enough, fun rounds hrounds entry ↦ ?_⟩
  rw [Grub.lookedUp, Target]
  by_cases hnone : components (cString path) = []
  · rw [if_pos (pieces_eq_nil_iff.mpr hnone), if_pos hnone]
    simp [eq_comm]
  · rw [if_neg (fun hnil ↦ hnone (pieces_eq_nil_iff.mp hnil)), if_neg hnone,
      Grub.walk_eq_ok_iff (henough rounds hrounds),
      boot_leads_iff hwell hsame (fun _ ↦ zero_not_mem_piece) Directory.root,
      leads_pieces_iff hwell]

theorem rootEntry_type (sb : Superblock) : (rootEntry sb).type = EYNFS_TYPE_DIR := by
  simp [rootEntry, DirEntry.setContents, setWord, copyInto, byteAt, DirEntry.type, dirEntrySize]

/-- Where nothing is behind the blocks that are searched, a bound on the search does not matter. -/
theorem target_within_iff (hnear : Near image path) :
    Target (HoldsWithin maxBlocks image) (superblockOf (image 0)) path entry ↔
      Target (Holds image) (superblockOf (image 0)) path entry := by
  rw [Target, Target]
  split
  · rfl
  · refine ⟨Leads.mono fun name dir entry hwithin ↦ ?_, hnear entry⟩
    obtain ⟨count, -, hexits⟩ := hwithin
    exact ⟨count, hexits⟩

/-- The blocks of a file that a path of a well-formed image leads to can be read. -/
theorem readable_of_target (hwell : WellFormed image) (hsame : SamePartition device base image)
    (htarget : Target (Holds image) (superblockOf (image 0)) path entry)
    (htype : entry.type = EYNFS_TYPE_FILE) (blocks : ℕ)
    (hblocks : dataPerBlock * blocks < entry.size.toNat) :
    Readable device base image ((link image)^[blocks] entry.firstBlock) := by
  rw [Target] at htarget
  split at htarget
  · -- the root directory is no file
    rw [htarget, rootEntry_type] at htype
    exact absurd htype (by decide)
  · obtain ⟨name, parent, hparent, hholds⟩ := htarget.exists_holds Directory.next
      (fun _ ↦ zero_not_mem_component) Directory.root
    refine (hwell.backed parent entry hparent hholds.lists.1 htype blocks hblocks).imp_right ?_
    exact hsame.blocks _

/-- The module and the kernel agree on a path of a well-formed image that the kernel takes as a
whole, where what it leads to is among the blocks that the kernel searches. -/
theorem agrees_of_wellFormed (hcoherent : Coherent drive state (state.disk drive).sectors)
    (hwell : WellFormed (imageOf (state.disk drive).sectors))
    (hsame : SamePartition device base (imageOf (state.disk drive).sectors)) (hwhole : Whole path)
    (hnear : Near (imageOf (state.disk drive).sectors) path) :
    Agrees device drive state path offset len buf := by
  intro unassigned
  obtain ⟨found, hfound, hlookUp, hreadPath⟩ : ∃ found : Option DirEntry, _ ∧ _ ∧
      (run (answer drive) (readPath path unassigned offset len) state).1.toOption = _ :=
    run_kernel hcoherent hwhole unassigned
  generalize imageOf (state.disk drive).sectors = image at *
  obtain ⟨enough, hboot⟩ : ∃ enough, ∀ rounds, enough ≤ rounds → ∀ entry,
      Grub.lookedUp device rounds path { sb := superblockOf (image 0), sbLba := base } =
        .ok entry ↔ Target (Holds image) (superblockOf (image 0)) path entry :=
    boot_lookedUp hwell hsame
  refine ⟨enough, fun rounds hrounds ↦ ?_⟩
  have hsameEntry (entry : DirEntry) : Grub.lookedUp device rounds path
      { sb := superblockOf (image 0), sbLba := base } = .ok entry ↔ found = some entry := by
    rw [hboot rounds hrounds, hfound, target_within_iff hnear]
  rw [hlookUp, hreadPath, Grub.run_lookUp, Grub.readPath, run_bind, Grub.run_openFile,
    hsame.mountOf hwell]
  simp only [Except.bind]
  cases hlooked : Grub.lookedUp device rounds path
      { sb := superblockOf (image 0), sbLba := base } with
  | error failure =>
    have hnone : found = none := by
      cases found with
      | none => rfl
      | some entry => exact absurd ((hsameEntry entry).mpr rfl) (by simp [hlooked])
    rw [hnone]
    exact ⟨rfl, rfl⟩
  | ok entry =>
    obtain rfl := (hsameEntry entry).mp hlooked
    refine ⟨rfl, ?_⟩
    simp only [Grub.opened, Option.filter_some, beq_iff_eq]
    by_cases htype : entry.type = EYNFS_TYPE_FILE
    · have htarget := (hboot rounds hrounds entry).mp hlooked
      simp only [htype, ne_eq, not_true_eq_false, if_false, if_true]
      rw [run_read rfl rfl rfl (readable_of_target hwell hsame htarget htype)]
      simp only [delivered, Except.toOption, Option.map_some, take_splice_zero]
    · simp only [htype, ne_eq, not_false_eq_true, if_true, if_false]
      rfl

/-! ### What is expected of the module -/

/-- What one expects of the module on one path of one disk: it agrees with the kernel where the disk
has a well-formed image, writes only inside its buffers and comes back. -/
structure ReadsAlike (device : Grub.Device) (drive : ℕ) (state : State) (path : List UInt8)
    (offset len : ℕ) (buf : List UInt8) : Prop where
  agrees : ∀ base, Coherent drive state (state.disk drive).sectors →
    WellFormed (imageOf (state.disk drive).sectors) →
      SamePartition device base (imageOf (state.disk drive).sectors) →
        (cString path).head? = some slash → Agrees device drive state path offset len buf
  inside : ∀ rounds, Throughout (Grub.answer device) (Grub.Inside device len)
    (Grub.readPath rounds path offset len) buf
  ends : ∃ rounds,
    (run (Grub.answer device) (Grub.readPath rounds path offset len) buf).1 ≠ .error .endless

/-- The module does what is expected of it only where neither place of a superblock can be read.
Elsewhere it writes past the superblock of `struct eynfs_data`, and nowhere else past a buffer; it
comes back just where no directory on its way has an endless chain without the name; and on a
well-formed image it agrees with the kernel on the paths that the kernel takes as a whole and whose
target is among the blocks that the kernel searches. -/
theorem reads_alike_iff (device : Grub.Device) (drive : ℕ) (state : State) (path : List UInt8)
    (offset len : ℕ) (buf : List UInt8) :
    (ReadsAlike device drive state path offset len buf ↔
      device 0 = none ∧ device Grub.EYNFS_LEGACY_SUPERBLOCK_LBA = none) ∧
    (∀ mount rounds file,
      Throughout (Grub.answer device) (Grub.Inside device len)
          (Grub.traversePath mount rounds path) buf ∧
        Throughout (Grub.answer device) (Grub.Inside device len) (Grub.read file offset len)
          buf) ∧
    ((∃ rounds, (run (Grub.answer device) (Grub.readPath rounds path offset len) buf).1 ≠
        .error .endless) ↔ Grub.Searchable device path) ∧
    (∀ base, Coherent drive state (state.disk drive).sectors →
      WellFormed (imageOf (state.disk drive).sectors) →
        SamePartition device base (imageOf (state.disk drive).sectors) → Whole path →
          Near (imageOf (state.disk drive).sectors) path →
            Agrees device drive state path offset len buf) := by
  refine ⟨⟨fun halike ↦ ?_, fun hnone ↦ ?_⟩, ?_, Grub.readPath_ends_iff, ?_⟩
  · exact Grub.throughout_readPath.mp (halike.inside 0)
  · refine ⟨fun base _ hwell hsame _ ↦ ?_, fun rounds ↦ Grub.throughout_readPath.mpr hnone, ?_⟩
    · -- a disk with a superblock has one that can be read
      have hblock := hsame.blocks 0 hwell.nonempty
      rw [UInt32.toNat_zero, Nat.add_zero] at hblock
      rcases hsame.place with rfl | ⟨rfl, -⟩
      · exact absurd (hnone.1.symm.trans hblock) (by simp)
      · exact absurd (hnone.2.symm.trans hblock) (by simp)
    · refine Grub.readPath_ends_iff.mpr fun mount hmount ↦ ?_
      rw [Grub.mountOf, hnone.1, hnone.2] at hmount
      simp at hmount
  · exact fun mount rounds file ↦ ⟨Grub.throughout_traversePath, Grub.throughout_read⟩
  · exact fun base hcoherent hwell hsame hwhole hnear ↦
      agrees_of_wellFormed hcoherent hwell hsame hwhole hnear

/-! ### A small image -/

/-- A superblock of eight blocks with its root directory in the third. -/
def smallSuperblock : Sector :=
  setWord (setWord (setWord (setWord (setWord zeroBlock 0 EYNFS_MAGIC) 8
    (UInt32.ofNat EYNFS_BLOCK_SIZE)) 12 8) 16 2) 20 1

/-- A file of three bytes named `a`. -/
def smallEntry : DirEntry := (newEntry [97] EYNFS_TYPE_FILE 3).setContents 3 3

def smallSectors (lba : UInt32) : Sector :=
  if lba = blockToLba 0 then smallSuperblock
  else if lba = blockToLba 2 then setEntry zeroBlock 0 smallEntry
  else if lba = blockToLba 3 then setData zeroBlock 0 [104, 105, 33]
  else zeroBlock

def smallDrive : Disk where
  sectors := smallSectors
  fails := fun _ _ ↦ false
  accesses := fun _ ↦ 0
  written := fun _ ↦ []

/-- The partition of that drive for the boot loader. -/
def smallDevice : Grub.Device :=
  fun lba ↦ if lba < 8 then some (smallSectors (UInt32.ofNat (2048 + lba))) else none

/-- After a block without a link nothing comes. -/
theorem link_iterate {count : ℕ} (hend : link image block = 0) :
    (link image)^[count + 1] block = 0 := by
  induction count with
  | zero => exact hend
  | succ count ih =>
    rw [Function.iterate_succ_apply', ih]
    rfl

theorem inChain_single (hend : link image dir = 0) (hchain : InChain image dir block) :
    block = dir := by
  obtain ⟨hblock, count, hcount⟩ := hchain
  cases count with
  | zero => exact hcount.symm
  | succ count => exact absurd (hcount.symm.trans (link_iterate hend)) hblock

/-- The numbers of the small image that the walks ask for. -/
theorem small_numbers :
    (superblockOf (imageOf smallSectors 0)).totalBlocks = 8 ∧
      (superblockOf (imageOf smallSectors 0)).rootDirBlock = 2 ∧
      link (imageOf smallSectors) 2 = 0 ∧ link (imageOf smallSectors) 3 = 0 := by
  decide +kernel

theorem small_lists (hlists : Lists (imageOf smallSectors) 2 entry) :
    entry.type = EYNFS_TYPE_FILE ∧ entry.size = 3 ∧ entry.firstBlock = 3 ∧
      byteAt entry (EYNFS_NAME_MAX - 1) = 0 := by
  have hentries : (entriesOf (imageOf smallSectors 2)).all (fun entry ↦ entry.isFree ||
      entry.type == EYNFS_TYPE_FILE && entry.size == 3 && entry.firstBlock == 3 &&
        byteAt entry (EYNFS_NAME_MAX - 1) == 0) = true := by
    decide +kernel
  obtain ⟨block, hchain, hentry, hfree⟩ := hlists
  rw [inChain_single small_numbers.2.2.1 hchain] at hentry
  simpa [hfree, and_assoc] using List.all_eq_true.mp hentries entry hentry

theorem small_directory (hdir : Directory (imageOf smallSectors) dir) : dir = 2 := by
  induction hdir with
  | root => exact small_numbers.2.1
  | sub _ hlists htype ih =>
    rw [ih] at hlists
    exact absurd ((small_lists hlists).1.symm.trans htype) (by decide)

/-- The small image is well-formed. -/
theorem small_wellFormed : WellFormed (imageOf smallSectors) := by
  obtain ⟨htotal, -, hlink, hend⟩ := small_numbers
  constructor
  · decide +kernel
  · decide +kernel
  · rw [htotal]
    decide
  · intro dir hdir
    rw [small_directory hdir]
    exact ⟨1, hlink⟩
  · intro dir block hdir hchain
    rw [small_directory hdir] at hchain
    rw [htotal, inChain_single hlink hchain]
    decide
  · intro dir entry hdir hentry
    rw [small_directory hdir] at hentry
    exact (small_lists hentry).2.2.2
  · intro dir entry hdir hentry _ count _
    rw [small_directory hdir] at hentry
    rw [(small_lists hentry).2.2.1, htotal]
    cases count with
    | zero => exact Or.inr (by decide)
    | succ count => exact Or.inl (link_iterate hend)

/-- The boot loader's partition has the image of the drive. -/
theorem small_partition : SamePartition smallDevice 0 (imageOf smallSectors) where
  place := Or.inl rfl
  blocks := by
    intro block hblock
    rw [small_numbers.1] at hblock
    have hinside : block.toNat < 8 := hblock
    have hlba : UInt32.ofNat (2048 + block.toNat) = blockToLba block := by
      rw [UInt32.ofNat_add, UInt32.ofNat_toNat]
      rfl
    rw [Nat.zero_add, smallDevice, if_pos hinside, hlba]
    rfl

/-- The caches of a machine that has just been started hold what its small drive does. -/
theorem small_coherent : Coherent 0 (.boot (fun _ ↦ smallDrive) 16) smallSectors :=
  (current_start 0 16 fun _ _ ↦ rfl).coherent

/-- The file is in the first block of the root directory. -/
theorem small_near : Near (imageOf smallSectors) [47, 97] := by
  have hcomponents : components (cString [47, 97]) = [[97]] := by decide
  obtain ⟨found, hfound⟩ : ∃ found, lookBlock (imageOf smallSectors) [97] 2 = .inl found := by
    have hsome : (lookBlock (imageOf smallSectors) [97] 2).isLeft = true := by decide +kernel
    exact Sum.isLeft_iff.mp hsome
  intro entry hleads
  rw [hcomponents, small_numbers.2.1, leads_singleton] at hleads ⊢
  obtain ⟨count, hexits⟩ := hleads
  obtain ⟨rfl, -⟩ := (exits_of_leave hfound).mp hexits
  exact ⟨0, by decide, hexits⟩

/-- The module and the kernel find the file and read its last two bytes. -/
theorem reads_alike_small :
    Agrees smallDevice 0 (.boot (fun _ ↦ smallDrive) 16) [47, 97] 1 2 [0, 0] := by
  have hcomponents : components (cString [47, 97]) = [[97]] := by decide
  have hwhole : Whole [47, 97] :=
    ⟨by decide, by decide, Or.inr (by rw [hcomponents]; exact List.cons_ne_nil _ _)⟩
  exact (reads_alike_iff smallDevice 0 (.boot (fun _ ↦ smallDrive) 16) [47, 97] 1 2
    [0, 0]).2.2.2 0 small_coherent small_wellFormed small_partition hwhole small_near

/-! ### A directory that is a cycle -/

/-- A disk whose root directory is empty and goes on with itself. -/
def cyclicDevice : Grub.Device :=
  fun lba ↦ some (if lba = 0 then smallSuperblock else setNext zeroBlock 2)

/-- The module does not come back from a lookup there, and has written past its superblock. -/
theorem not_reads_alike :
    ¬∀ (device : Grub.Device) (drive : ℕ) (state : State) (path : List UInt8) (offset len : ℕ)
      (buf : List UInt8), ReadsAlike device drive state path offset len buf := by
  intro hclaim
  have halike := hclaim cyclicDevice 0 (.boot (fun _ ↦ smallDrive) 16) [47, 97] 0 1 [0]
  refine Grub.readPath_ends_iff.mp halike.ends
    { sb := superblockOf smallSuperblock, sbLba := 0 } ?_ ?_
  · have hsuperblock : Grub.isSuperblock smallSuperblock = true := by decide +kernel
    rw [Grub.mountOf, cyclicDevice, if_pos rfl, Option.filter_some, if_pos hsuperblock]
  · have hpieces : pieces Grub.compSize (cString [47, 97]) = [[97]] := by decide
    have hroot : (superblockOf smallSuperblock).rootDirBlock = 2 := small_numbers.2.1
    have hnamed : (Grub.entryNamed [97] (setNext zeroBlock 2)).isNone = true := by decide +kernel
    have hnext : nextBlock (setNext zeroBlock 2) = 2 := by decide +kernel
    rw [hpieces]
    refine .here ?_
    change Grub.Endless cyclicDevice _ [97] (superblockOf smallSuperblock).rootDirBlock
    rw [hroot]
    refine not_ends_of_turn_self ?_
    have hread : cyclicDevice (Grub.Mount.blockToLba
        { sb := superblockOf smallSuperblock, sbLba := 0 } 2) = some (setNext zeroBlock 2) := rfl
    rw [Grub.lookBlock, if_neg (by decide), hread]
    simp only [Option.isNone_iff_eq_none.mp hnamed, hnext]

end EynOS.Storage
