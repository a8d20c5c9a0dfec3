import EynOS.Foundation.Loop
import EynOS.Storage.CacheCoherence
import EynOS.Storage.PathWalk

/-!
# What EYNFS reads of an image

An image is what the blocks of a file system hold. Above a coherent cache the functions of `eynfs.c`
that only read end in a way that the image decides: `Answers` says so of a program, and the theorems
below of `eynfs_find_in_dir`, `eynfs_traverse_path` and `eynfs_read_file`. A directory is searched
for at most `maxBlocks` blocks.

`WellFormed` is what a reader may expect of an image: the chains of the directories end and stay in
the file system, so do the chains of the files as far as their size goes, and names are ended.
-/

namespace EynOS.Storage

open Foundation Interaction

/-! ### Images -/

/-- What the blocks of a file system hold. -/
abbrev Image : Type := UInt32 → Sector

def imageOf (sectors : UInt32 → Sector) : Image := fun block ↦ sectors (blockToLba block)

/-- `max_blocks` of `eynfs_find_in_dir`. -/
def maxBlocks : ℕ := 4096

def lookBlock (image : Image) (name : List UInt8) (block : UInt32) : Option DirEntry ⊕ UInt32 :=
  if block = 0 then .inl none
  else
    match (entriesOf (image block)).find? fun entry ↦ !entry.isFree && entry.hasName name with
    | some entry => .inl (some entry)
    | none => .inr (nextBlock (image block))

/-- A name is in a directory, before a number of blocks. -/
def HoldsWithin (bound : ℕ) (image : Image) (name : List UInt8) (dir : UInt32)
    (entry : DirEntry) : Prop :=
  ∃ count < bound, Exits (lookBlock image name) count dir (some entry)

/-- A name is in a directory. -/
def Holds (image : Image) (name : List UInt8) (dir : UInt32) (entry : DirEntry) : Prop :=
  ∃ count, Exits (lookBlock image name) count dir (some entry)

/-- Where the data of a file is looked for from an offset on. -/
def seek (image : Image) : ℕ → UInt32 → ℕ → UInt32 × ℕ
  | 0, block, skip => (block, skip)
  | count + 1, block, skip =>
    if block = 0 ∨ skip < dataPerBlock then (block, skip)
    else seek image count (nextBlock (image block)) (skip - dataPerBlock)

/-- The data of a chain from a position in its first block on. -/
def dataFrom (image : Image) : ℕ → UInt32 → ℕ → ℕ → List UInt8
  | 0, _, _, _ => []
  | count + 1, block, position, left =>
    if block = 0 ∨ left = 0 then []
    else
      dataOf (image block) position (min (dataPerBlock - position) left) ++
        dataFrom image count (nextBlock (image block)) 0
          (left - min (dataPerBlock - position) left)

/-- The bytes of a file from an offset on, where at most `count` are asked for. -/
def fileBytes (image : Image) (entry : DirEntry) (count offset : ℕ) : List UInt8 :=
  if entry.size.toNat ≤ offset then []
  else
    dataFrom image (min count (entry.size.toNat - offset) + 1)
      (seek image (offset / dataPerBlock) entry.firstBlock offset).1
      (seek image (offset / dataPerBlock) entry.firstBlock offset).2
      (min count (entry.size.toNat - offset))

/-! ### Programs that only read -/

/-- Above every coherent cache a program ends in one way, and the cache stays coherent. -/
def Answers {Result : Type} (drive : ℕ) (latest : UInt32 → Sector) (program : Program Result)
    (outcome : Except Stop Result) : Prop :=
  ∀ state, Coherent drive state latest → (run (answer drive) program state).1 = outcome ∧
    Coherent drive (run (answer drive) program state).2 latest

section Answers

variable {Result Next : Type} {drive : ℕ} {latest : UInt32 → Sector} {program : Program Result}
  {continuation : Result → Program Next} {outcome : Except Stop Next} {result : Result}
  {failure : Stop} {name path : List UInt8} {names : List (List UInt8)} {entry : DirEntry}
  {block dir : UInt32}

theorem answers_pure : Answers drive latest (pure result) (.ok result) :=
  fun _ hcoherent ↦ ⟨rfl, hcoherent⟩

theorem answers_fail : Answers drive latest (.fail failure : Program Result) (.error failure) :=
  fun _ hcoherent ↦ ⟨rfl, hcoherent⟩

/-- A sequence whose first part ends with a result. -/
theorem Answers.bind (hprogram : Answers drive latest program (.ok result))
    (hrest : Answers drive latest (continuation result) outcome) :
    Answers drive latest (program >>= continuation) outcome := by
  intro state hcoherent
  obtain ⟨hresult, hafter⟩ := hprogram state hcoherent
  rw [run_bind]
  generalize run (answer drive) program state = first at hresult hafter ⊢
  obtain ⟨_, after⟩ := first
  obtain rfl := hresult
  exact hrest after hafter

/-- A sequence whose first part fails. -/
theorem Answers.bind_error (hprogram : Answers drive latest program (.error failure)) :
    Answers drive latest (program >>= continuation) (.error failure) := by
  intro state hcoherent
  obtain ⟨hresult, hafter⟩ := hprogram state hcoherent
  rw [run_bind]
  generalize run (answer drive) program state = first at hresult hafter ⊢
  obtain ⟨_, after⟩ := first
  obtain rfl := hresult
  exact ⟨rfl, hafter⟩

/-- `eynfs_cache_get_block` reads the image. -/
theorem answers_getBlock : Answers drive latest (getBlock block) (.ok (imageOf latest block)) := by
  intro state hcoherent
  obtain ⟨hread, hafter⟩ := hcoherent.getBlock block
  rw [getBlock, run_bind, run_request]
  simp only [answer, hread]
  exact ⟨rfl, hafter⟩

/-! ### Directories and paths -/

theorem find_slot (image : Image) :
    ((List.range entriesPerBlock).find? fun slot ↦ !(entryAt (image block) slot).isFree &&
        (entryAt (image block) slot).hasName name).map (entryAt (image block)) =
      (entriesOf (image block)).find? fun entry ↦ !entry.isFree && entry.hasName name := by
  rw [entriesOf, List.find?_map]
  rfl

/-- The loop of `eynfs_find_in_dir`. -/
theorem answers_findInDirLoop (bound base : ℕ) : ∃ outcome,
    Answers drive latest (findInDirLoop name bound block base) outcome ∧
      ∀ entry, (∃ index, outcome = .ok (entry, index)) ↔
        HoldsWithin bound (imageOf latest) name block entry := by
  simp only [HoldsWithin, ← turns_eq_some]
  induction bound generalizing block base with
  | zero => exact ⟨_, answers_fail, fun entry ↦ by simp [turns]⟩
  | succ bound ih =>
    simp only [findInDirLoop, turns, lookBlock, ← find_slot]
    by_cases hzero : block = 0
    · refine ⟨.error (.error (-1)), ?_, fun entry ↦ by simp [hzero]⟩
      rw [if_pos hzero]
      exact answers_fail
    · simp only [if_neg hzero]
      cases hslot : (List.range entriesPerBlock).find? fun slot ↦
          !(entryAt (imageOf latest block) slot).isFree &&
            (entryAt (imageOf latest block) slot).hasName name with
      | none =>
        obtain ⟨outcome, hanswers, hfound⟩ := ih (base + entriesPerBlock)
        refine ⟨outcome, answers_getBlock.bind ?_, hfound⟩
        rw [hslot]
        exact hanswers
      | some slot =>
        refine ⟨.ok (entryAt (imageOf latest block) slot, base + slot),
          answers_getBlock.bind ?_, fun entry ↦ by simp⟩
        rw [hslot]
        exact answers_pure

/-- `eynfs_find_in_dir` of a name. -/
theorem answers_findInDir (hname : cString name ≠ []) : ∃ outcome,
    Answers drive latest (findInDir dir name) outcome ∧
      ∀ entry, (∃ index, outcome = .ok (entry, index)) ↔
        HoldsWithin maxBlocks (imageOf latest) name dir entry := by
  rw [findInDir, if_neg hname]
  exact answers_findInDirLoop maxBlocks 0

/-- The loop of `eynfs_traverse_path` finds what the names lead to. -/
theorem answers_traverseLoop (hnames : names ≠ []) (hstrings : ∀ name ∈ names, cString name ≠ [])
    (last : DirEntry × UInt32 × ℕ) : ∃ outcome,
    Answers drive latest (traverseLoop names dir last) outcome ∧
      ∀ entry, (∃ place, outcome = .ok (entry, place)) ↔
        Leads (HoldsWithin maxBlocks (imageOf latest)) names dir entry := by
  induction names generalizing dir last with
  | nil => exact absurd rfl hnames
  | cons name names ih =>
    obtain ⟨outcome, hanswers, hfound⟩ : ∃ outcome,
        Answers drive latest (findInDir dir name) outcome ∧
          ∀ entry, (∃ index, outcome = .ok (entry, index)) ↔
            HoldsWithin maxBlocks (imageOf latest) name dir entry :=
      answers_findInDir (hstrings name List.mem_cons_self)
    cases outcome with
    | error failure =>
      have habsent (entry : DirEntry) : ¬HoldsWithin maxBlocks (imageOf latest) name dir entry :=
        fun hholds ↦ by simpa using (hfound entry).mpr hholds
      refine ⟨.error failure, hanswers.bind_error, fun entry ↦ ?_⟩
      simp only [reduceCtorEq, exists_false, false_iff]
      intro hleads
      cases hleads with
      | last hholds => exact habsent _ hholds
      | next hholds _ _ _ => exact habsent _ hholds
    | ok found =>
      obtain ⟨first, index⟩ := found
      have hfirst (entry : DirEntry) :
          HoldsWithin maxBlocks (imageOf latest) name dir entry ↔ entry = first := by
        rw [← hfound]
        simp [eq_comm]
      by_cases hlast : names = []
      · refine ⟨.ok (first, dir, index), hanswers.bind ?_, fun entry ↦ ?_⟩
        · simp only [hlast, ne_eq, not_true_eq_false, false_and, if_false, traverseLoop]
          exact answers_pure
        · rw [hlast, leads_singleton, hfirst]
          simp [eq_comm]
      · have hnext (entry : DirEntry) :
            Leads (HoldsWithin maxBlocks (imageOf latest)) (name :: names) dir entry ↔
              first.type = EYNFS_TYPE_DIR ∧
                Leads (HoldsWithin maxBlocks (imageOf latest)) names first.firstBlock entry := by
          simp only [leads_cons hlast, hfirst]
          exact ⟨fun ⟨_, heq, hrest⟩ ↦ heq ▸ hrest, fun hrest ↦ ⟨first, rfl, hrest⟩⟩
        by_cases htype : first.type = EYNFS_TYPE_DIR
        · obtain ⟨outcome, hrest, hleads⟩ := ih hlast
            (fun name hname ↦ hstrings name (List.mem_cons_of_mem _ hname)) (first, dir, index)
          refine ⟨outcome, hanswers.bind ?_, fun entry ↦ ?_⟩
          · simp only [htype, ne_eq, not_true_eq_false, and_false, if_false]
            exact hrest
          · rw [hnext, hleads]
            exact ⟨fun hrest ↦ ⟨htype, hrest⟩, fun hrest ↦ hrest.2⟩
        · refine ⟨.error (.error (-1)), hanswers.bind ?_, fun entry ↦ ?_⟩
          · simp only [ne_eq, hlast, not_false_eq_true, htype, and_self, if_true]
            exact answers_fail
          · rw [hnext]
            simp [htype]

/-! ### Files -/

/-- The loop of `eynfs_read_file` over the blocks before the offset. -/
theorem answers_skipLoop (count skip : ℕ) : Answers drive latest (skipLoop count block skip)
    (.ok (seek (imageOf latest) count block skip)) := by
  induction count generalizing block skip with
  | zero => exact answers_pure
  | succ count ih =>
    rw [skipLoop, seek]
    split
    · exact answers_pure
    · exact answers_getBlock.bind (ih _)

/-- The reads of `eynfs_read_file`. -/
theorem answers_readLoop (count position left : ℕ) :
    Answers drive latest (readLoop count block position left)
      (.ok (dataFrom (imageOf latest) count block position left)) := by
  induction count generalizing block position left with
  | zero => exact answers_pure
  | succ count ih =>
    rw [readLoop, dataFrom]
    split
    · exact answers_pure
    · exact answers_getBlock.bind ((ih _ _).bind answers_pure)

/-- `eynfs_read_file` of a file. -/
theorem answers_readFile (htype : entry.type = EYNFS_TYPE_FILE) (count offset : ℕ) :
    Answers drive latest (readFile entry count offset)
      (.ok (fileBytes (imageOf latest) entry count offset)) := by
  rw [readFile, fileBytes, if_neg (not_not.mpr htype)]
  split
  · exact answers_pure
  · exact (answers_skipLoop _ _).bind (answers_readLoop _ _ _)

end Answers

/-! ### Well-formed images -/

/-- The block after one of a chain. Nothing comes after the end. -/
def link (image : Image) (block : UInt32) : UInt32 :=
  if block = 0 then 0 else nextBlock (image block)

def InChain (image : Image) (first block : UInt32) : Prop :=
  block ≠ 0 ∧ ∃ count, (link image)^[count] first = block

/-- A directory has an entry. -/
def Lists (image : Image) (dir : UInt32) (entry : DirEntry) : Prop :=
  ∃ block, InChain image dir block ∧ entry ∈ entriesOf (image block) ∧ entry.isFree = false

/-- The chain of a directory that the root directory leads to. -/
inductive Directory (image : Image) : UInt32 → Prop
  | root : Directory image (superblockOf (image 0)).rootDirBlock
  | sub {dir : UInt32} {entry : DirEntry} (hdir : Directory image dir)
    (hlists : Lists image dir entry) (htype : entry.type = EYNFS_TYPE_DIR) :
    Directory image entry.firstBlock

/-- The blocks of a file system and what a reader may expect of them: a superblock, chains of
directories that end and stay in the file system, names that are ended in their field, and chains of
files that stay in the file system as far as the size of the file goes. -/
structure WellFormed (image : Image) : Prop where
  magic : (superblockOf (image 0)).magic = EYNFS_MAGIC
  blockSize : (superblockOf (image 0)).blockSize = UInt32.ofNat EYNFS_BLOCK_SIZE
  nonempty : 0 < (superblockOf (image 0)).totalBlocks
  ends : ∀ dir, Directory image dir → ∃ count, (link image)^[count] dir = 0
  inside : ∀ dir block, Directory image dir → InChain image dir block →
    block < (superblockOf (image 0)).totalBlocks
  named : ∀ dir entry, Directory image dir → Lists image dir entry →
    byteAt entry (EYNFS_NAME_MAX - 1) = 0
  backed : ∀ dir entry, Directory image dir → Lists image dir entry →
    entry.type = EYNFS_TYPE_FILE → ∀ count, dataPerBlock * count < entry.size.toNat →
      (link image)^[count] entry.firstBlock = 0 ∨
        (link image)^[count] entry.firstBlock < (superblockOf (image 0)).totalBlocks

section WellFormed

variable {image : Image} {name : List UInt8} {entry : DirEntry} {dir block next : UInt32}

/-- A search goes on with the next block of the chain. -/
theorem lookBlock_eq_inr (hbody : lookBlock image name block = .inr next) :
    block ≠ 0 ∧ link image block = next := by
  unfold lookBlock at hbody
  split at hbody
  · simp at hbody
  · rename_i hblock
    split at hbody
    · simp at hbody
    · refine ⟨hblock, ?_⟩
      rw [link, if_neg hblock]
      simpa using hbody

/-- What a lookup finds is listed in the directory under the name. -/
theorem Holds.lists (hholds : Holds image name dir entry) :
    Lists image dir entry ∧ entry.hasName name = true := by
  obtain ⟨count, hexits⟩ := hholds
  generalize hresult : some entry = result at hexits
  induction hexits with
  | @leave block result hbody =>
    rw [← hresult] at hbody
    unfold lookBlock at hbody
    split at hbody
    · simp at hbody
    · rename_i hblock
      split at hbody
      · rename_i found hfind
        obtain rfl : found = entry := by simpa using hbody
        have hmatches := List.find?_some hfind
        rw [Bool.and_eq_true, Bool.not_eq_true'] at hmatches
        exact ⟨⟨block, ⟨hblock, 0, rfl⟩, List.mem_of_find?_eq_some hfind, hmatches.1⟩, hmatches.2⟩
      · simp at hbody
  | @turn count block next result hbody _ ih =>
    obtain ⟨⟨found, ⟨hfound, turns, hturns⟩, hlists⟩, hname⟩ := ih hresult
    refine ⟨⟨found, ⟨hfound, turns + 1, ?_⟩, hlists⟩, hname⟩
    rw [Function.iterate_succ_apply, (lookBlock_eq_inr hbody).2, hturns]

/-- A lookup in a chain that ends comes back. -/
theorem ends_lookBlock {count : ℕ} (hends : (link image)^[count] dir = 0) :
    Ends (lookBlock image name) dir := by
  induction count generalizing dir with
  | zero =>
    refine ⟨0, none, .leave ?_⟩
    rw [lookBlock, if_pos]
    exact hends
  | succ count ih =>
    rw [Function.iterate_succ_apply] at hends
    cases hbody : lookBlock image name dir with
    | inl result => exact ⟨0, result, .leave hbody⟩
    | inr next =>
      obtain ⟨more, result, hexits⟩ := ih ((lookBlock_eq_inr hbody).2 ▸ hends)
      exact ⟨more + 1, result, .turn hbody hexits⟩

theorem Directory.found (hdir : Directory image dir) (hholds : Holds image name dir entry)
    (htype : entry.type = EYNFS_TYPE_DIR) : Directory image entry.firstBlock :=
  hdir.sub hholds.lists.1 htype

end WellFormed

end EynOS.Storage
