import EynOS.Foundation.Writing
import EynOS.Storage.DirectoryUpdate

/-!
# Writing into a file in place

`eynfs_zero_copy_write` reads each block of a file that the data goes into, puts the data over its
bytes and writes it back, through the cache. `written_in_place`: what is read of the file afterwards
is what was read of it before, with the data in its place, and nothing else is changed.

`Settles` is how a program on a chain is taken apart: above every cache that is coherent on some
blocks it ends with a result, and the cache is coherent on them with some bytes.

Not modelled: the check of the capability to write.
-/

namespace EynOS.Storage

open Foundation Interaction

/-! ### The function -/

/-- The writes of `eynfs_zero_copy_write`, from a position in the first block on: how many bytes are
written. -/
def writeLoop : ℕ → UInt32 → ℕ → List UInt8 → Program ℕ
  | 0, _, _, _ => pure 0
  | rounds + 1, block, position, data =>
    if block = 0 ∨ data = [] then pure 0
    else do
      let sector ← getBlock block
      let chunk := min (dataPerBlock - position) data.length
      writeBlock block (setData sector position (data.take chunk))
      let rest ← writeLoop rounds (nextBlock sector) 0 (data.drop chunk)
      pure (chunk + rest)

/-- `eynfs_zero_copy_write`: how many bytes are written, as an `int`. -/
def zeroCopyWrite (entry : DirEntry) (data : List UInt8) (offset : ℕ) : Program Int32 :=
  if entry.type ≠ EYNFS_TYPE_FILE then failure
  else if entry.size.toNat < offset then failure
  else if entry.size.toNat - offset < data.length then failure
  else do
    let (block, position) ← skipLoop (offset / dataPerBlock) entry.firstBlock offset
    let written ← writeLoop (data.length + 1) block position data
    pure (Int32.ofNat written)

/-! ### Programs above a coherent cache -/

/-- Above every cache that is coherent on the tracked blocks and has no newer copies of the still
ones, a program ends with a result; the cache is coherent on the tracked blocks with the bytes of
another drive, and the still blocks stay. -/
def Settles {Result : Type} (tracked still : UInt32 → Prop) (drive : ℕ) (program : Program Result)
    (flat : Flat) (result : Result) (newFlat : Flat) : Prop :=
  ∀ state, CoherentOn tracked drive state flat.sectors → Clear still state →
    ∃ after, run (answer drive) program state = (.ok result, after) ∧
      CoherentOn tracked drive after newFlat.sectors ∧ Steady still drive state after

section Settles

variable {Result Next : Type} {tracked still : UInt32 → Prop} {drive : ℕ}
  {flat middle newFlat : Flat} {program : Program Result} {continuation : Result → Program Next}
  {result : Result} {next : Next} {block : UInt32}

theorem settles_pure : Settles tracked still drive (pure result) flat result flat :=
  fun state hcoherent hclear ↦ ⟨state, rfl, hcoherent, .refl hclear⟩

/-- A sequence. -/
theorem Settles.bind (hprogram : Settles tracked still drive program flat result middle)
    (hrest : Settles tracked still drive (continuation result) middle next newFlat) :
    Settles tracked still drive (program >>= continuation) flat next newFlat := by
  intro state hcoherent hclear
  obtain ⟨between, hrun, hbetween, hsteady⟩ := hprogram state hcoherent hclear
  obtain ⟨after, hlater, hafter, hthen⟩ := hrest between hbetween hsteady.clear
  exact ⟨after, (run_bind_ok hrun).trans hlater, hafter, hsteady.trans hthen⟩

/-- `eynfs_cache_get_block` of a tracked block. -/
theorem settles_getBlock (hblock : tracked block) :
    Settles tracked still drive (getBlock block) flat (flat.block block) flat := by
  intro state hcoherent hclear
  refine ⟨_, ?_, hcoherent.read block, steady_cacheGetBlock hclear block⟩
  rw [getBlock, run_bind, run_request]
  simp only [answer, hcoherent.getBlock hblock]
  rfl

/-- `eynfs_cache_write_block` of a block that is not still. -/
theorem settles_writeBlock (hstill : ¬still block) (data : Sector) :
    Settles tracked still drive (writeBlock block data) flat ()
      (flat.write (blockToLba block) data) := by
  intro state hcoherent hclear
  have hwritten : (cacheWriteBlock drive block data state).1 = true := by
    unfold cacheWriteBlock
    split
    · rfl
    · have hsucceeds := (Disk.write_eq hcoherent.succeeds (blockToLba block) data).1
      simp only [ataWriteSector, hsucceeds]
  refine ⟨_, ?_, hcoherent.writeBlock (fun _ hother _ ↦ hother) data,
    steady_cacheWriteBlock hclear hstill data⟩
  rw [writeBlock, run_bind, run_request]
  simp only [answer, hwritten]
  rfl

end Settles

/-! ### The data of a chain -/

def chainData (flat : Flat) (blocks : List UInt32) : List UInt8 :=
  blocks.flatMap fun block ↦ dataOf (flat.block block) 0 dataPerBlock

section Chain

variable {tracked still : UInt32 → Prop} {drive : ℕ} {flat other : Flat} {first last : UInt32}
  {blocks : List UInt32} {position left skip : ℕ} {sector : Sector} {data : List UInt8}

@[simp] theorem length_dataOf (sector : Sector) (position count : ℕ) :
    (dataOf sector position count).length = count := by
  rw [dataOf, List.length_map, List.length_range]

theorem chainData_cons (flat : Flat) (block : UInt32) (blocks : List UInt32) :
    chainData flat (block :: blocks) =
      dataOf (flat.block block) 0 dataPerBlock ++ chainData flat blocks :=
  List.flatMap_cons

theorem length_chainData (flat : Flat) (blocks : List UInt32) :
    (chainData flat blocks).length = dataPerBlock * blocks.length := by
  induction blocks with
  | nil => rfl
  | cons block blocks ih =>
    rw [chainData_cons, List.length_append, ih, length_dataOf, List.length_cons, Nat.mul_succ,
      Nat.add_comm]

theorem chainData_congr (hsame : ∀ block ∈ blocks, other.block block = flat.block block) :
    chainData other blocks = chainData flat blocks :=
  List.flatMap_congr fun block hblock ↦ by rw [hsame block hblock]

/-- Some bytes of a block. -/
theorem dataOf_eq (sector : Sector) {position count : ℕ}
    (hinside : position + count ≤ dataPerBlock) :
    dataOf sector position count =
      ((dataOf sector 0 dataPerBlock).drop position).take count := by
  refine List.ext_getElem? fun index ↦ ?_
  rcases Nat.lt_or_ge index count with hindex | hindex
  · rw [List.getElem?_take_of_lt hindex, List.getElem?_drop, dataOf, dataOf, List.getElem?_map,
      List.getElem?_map, List.getElem?_range hindex, List.getElem?_range (by omega)]
    simp only [Option.map_some, Nat.add_zero, Nat.add_assoc]
  · rw [List.getElem?_eq_none (by simpa using hindex),
      List.getElem?_eq_none (by rw [List.length_take]; omega)]

/-- Data that is put into a block. -/
theorem dataOf_setData (sector : Sector) (hinside : position + data.length ≤ dataPerBlock) :
    dataOf (setData sector position data) 0 dataPerBlock =
      splice (dataOf sector 0 dataPerBlock) position data := by
  have hroom : position + data.length ≤ (dataOf sector 0 dataPerBlock).length := by
    rwa [length_dataOf]
  refine List.ext_getElem? fun index ↦ ?_
  rw [getElem?_splice hroom]
  rcases Nat.lt_or_ge index dataPerBlock with hindex | hindex
  · have hsize : 4 + 0 + index < EYNFS_BLOCK_SIZE := by
      change index < 508 at hindex
      change 4 + 0 + index < 512
      omega
    rw [dataOf, dataOf, List.getElem?_map, List.getElem?_map, List.getElem?_range hindex,
      Option.map_some, Option.map_some, setData, byteAt_copyInto _ _ hsize]
    split_ifs with hput hdata hdata
    · rw [List.getElem?_eq_getElem (by omega), List.getD_eq_getElem?_getD,
        List.getElem?_eq_getElem (by omega), Option.getD_some]
      congr 2
      omega
    · omega
    · omega
    · rfl
  · rw [List.getElem?_eq_none (by simpa using hindex), if_neg (by omega),
      List.getElem?_eq_none (by simpa using hindex)]

/-! ### The loops -/

/-- The blocks before an offset are skipped. -/
theorem exists_skipped (hlinks : Links flat first blocks last)
    (htracked : ∀ block ∈ blocks, tracked block) (hskip : skip ≤ dataPerBlock * blocks.length) :
    ∃ before rest block, blocks = before ++ rest ∧ Links flat block rest last ∧
      skip = dataPerBlock * before.length + skip % dataPerBlock ∧
      Settles tracked still drive (skipLoop (skip / dataPerBlock) first skip) flat
        (block, skip % dataPerBlock) flat := by
  induction blocks generalizing first skip with
  | nil =>
    obtain rfl : skip = 0 := Nat.le_zero.mp hskip
    exact ⟨[], [], first, rfl, hlinks, rfl, settles_pure⟩
  | cons block blocks ih =>
    rcases Nat.lt_or_ge skip dataPerBlock with hshort | hlong
    · refine ⟨[], block :: blocks, first, rfl, hlinks, ?_, ?_⟩
      · rw [List.length_nil, Nat.mul_zero, Nat.zero_add, Nat.mod_eq_of_lt hshort]
      · rw [Nat.div_eq_of_lt hshort, Nat.mod_eq_of_lt hshort]
        exact settles_pure
    · obtain ⟨rfl, hfirst, hrest⟩ := hlinks
      have hless : skip - dataPerBlock ≤ dataPerBlock * blocks.length := by
        rw [List.length_cons, Nat.mul_succ] at hskip
        omega
      obtain ⟨before, rest, there, hsplit, hthere, hbefore, hsettles⟩ :=
        ih hrest (fun other hother ↦ htracked other (List.mem_cons_of_mem _ hother)) hless
      have hmod : (skip - dataPerBlock) % dataPerBlock = skip % dataPerBlock :=
        (Nat.mod_eq_sub_mod hlong).symm
      have hdiv : skip / dataPerBlock = (skip - dataPerBlock) / dataPerBlock + 1 :=
        Nat.div_eq_sub_div (by decide) hlong
      refine ⟨block :: before, rest, there, congrArg (block :: ·) hsplit, hthere, ?_, ?_⟩
      · rw [List.length_cons, Nat.mul_succ]
        omega
      · rw [hdiv, skipLoop, if_neg (not_or.mpr ⟨hfirst, Nat.not_lt.mpr hlong⟩), ← hmod]
        exact (settles_getBlock (htracked block List.mem_cons_self)).bind hsettles

/-- The reads of a file. -/
theorem settles_readLoop (hlinks : Links flat first blocks last)
    (htracked : ∀ block ∈ blocks, tracked block) (hposition : position < dataPerBlock)
    (hleft : position + left ≤ dataPerBlock * blocks.length) {rounds : ℕ}
    (hrounds : left < rounds) :
    Settles tracked still drive (readLoop rounds first position left) flat
      (((chainData flat blocks).drop position).take left) flat := by
  induction blocks generalizing first position left rounds with
  | nil =>
    obtain rfl : left = 0 := by
      rw [List.length_nil, Nat.mul_zero] at hleft
      omega
    obtain ⟨rounds, rfl⟩ := Nat.exists_eq_add_of_lt hrounds
    rw [readLoop, if_pos (.inr rfl), List.take_zero]
    exact settles_pure
  | cons block blocks ih =>
    obtain ⟨rounds, rfl⟩ : ∃ more, rounds = more + 1 := ⟨rounds - 1, by omega⟩
    obtain ⟨rfl, hfirst, hrest⟩ := hlinks
    rw [readLoop]
    by_cases hnone : left = 0
    · rw [if_pos (.inr hnone), hnone, List.take_zero]
      exact settles_pure
    · have hchunk : left - min (dataPerBlock - position) left < rounds := by omega
      have hinside : 0 + (left - min (dataPerBlock - position) left) ≤
          dataPerBlock * blocks.length := by
        rw [List.length_cons, Nat.mul_succ] at hleft
        omega
      have hdata : ((chainData flat (block :: blocks)).drop position).take left =
          dataOf (flat.block block) position (min (dataPerBlock - position) left) ++
            ((chainData flat blocks).drop 0).take
              (left - min (dataPerBlock - position) left) := by
        have hpart := dataOf_eq (flat.block block)
          (show position + min (dataPerBlock - position) left ≤ dataPerBlock by omega)
        rw [chainData_cons, List.drop_append_of_le_length (by rw [length_dataOf]; omega),
          List.take_append, List.length_drop, length_dataOf, List.drop_zero, hpart]
        congr 1
        · rw [List.take_eq_take_iff, List.length_drop, length_dataOf]
          omega
        · congr 1
          omega
      rw [if_neg (not_or.mpr ⟨hfirst, hnone⟩), hdata]
      refine (settles_getBlock (htracked block List.mem_cons_self)).bind ?_
      exact (ih hrest (fun other hother ↦ htracked other (List.mem_cons_of_mem _ hother))
        (by decide) hinside hchunk).bind settles_pure

/-- The writes into a file. -/
theorem exists_written (hlinks : Links flat first blocks last) (hnodup : blocks.Nodup)
    (htracked : ∀ block ∈ blocks, tracked block) (hstill : ∀ block ∈ blocks, ¬still block)
    (hposition : position < dataPerBlock)
    (hroom : position + data.length ≤ dataPerBlock * blocks.length) {rounds : ℕ}
    (hrounds : data.length < rounds) :
    ∃ newFlat, Settles tracked still drive (writeLoop rounds first position data) flat data.length
        newFlat ∧
      (∀ block, block ∉ blocks → newFlat.block block = flat.block block) ∧
      (∀ block, nextBlock (newFlat.block block) = nextBlock (flat.block block)) ∧
      chainData newFlat blocks = splice (chainData flat blocks) position data := by
  induction blocks generalizing first position data rounds flat with
  | nil =>
    obtain rfl : data = [] := by
      rw [List.length_nil, Nat.mul_zero] at hroom
      exact List.length_eq_zero_iff.mp (by omega)
    obtain ⟨rounds, rfl⟩ : ∃ more, rounds = more + 1 := ⟨rounds - 1, by omega⟩
    refine ⟨flat, ?_, fun _ _ ↦ rfl, fun _ ↦ rfl, (splice_by_nil _ _).symm⟩
    rw [writeLoop, if_pos (.inr rfl)]
    exact settles_pure
  | cons block blocks ih =>
    obtain ⟨rounds, rfl⟩ : ∃ more, rounds = more + 1 := ⟨rounds - 1, by omega⟩
    obtain ⟨rfl, hfirst, hrest⟩ := hlinks
    obtain ⟨hnew, hnodup⟩ := List.nodup_cons.mp hnodup
    by_cases hnone : data = []
    · refine ⟨flat, ?_, fun _ _ ↦ rfl, fun _ ↦ rfl, by rw [hnone, splice_by_nil]⟩
      rw [writeLoop, if_pos (.inr hnone), hnone]
      exact settles_pure
    · have hlength : 0 < data.length := List.length_pos_of_ne_nil hnone
      generalize hchunk : min (dataPerBlock - position) data.length = chunk
      generalize hmiddle : flat.write (blockToLba block)
        (setData (flat.block block) position (data.take chunk)) = middle
      have hwritten : middle.block block =
          setData (flat.block block) position (data.take chunk) := by
        rw [← hmiddle, Flat.block_write]
      have hother (other : UInt32) (hother : other ≠ block) :
          middle.block other = flat.block other := by
        rw [← hmiddle, Flat.block_write_of_ne hother]
      have hlater : ∀ other ∈ blocks, middle.block other = flat.block other :=
        fun other hmem ↦ hother other fun heq ↦ hnew (heq ▸ hmem)
      have hless : 0 + (data.drop chunk).length ≤ dataPerBlock * blocks.length := by
        rw [List.length_cons, Nat.mul_succ] at hroom
        rw [List.length_drop]
        omega
      have hfewer : (data.drop chunk).length < rounds := by
        rw [List.length_drop]
        omega
      obtain ⟨newFlat, hsettles, hkept, hnext, hdata⟩ := ih (hrest.congr hlater) hnodup
        (fun other hmem ↦ htracked other (List.mem_cons_of_mem _ hmem))
        (fun other hmem ↦ hstill other (List.mem_cons_of_mem _ hmem)) (by decide) hless hfewer
      have hhead : newFlat.block block = middle.block block := hkept block hnew
      refine ⟨newFlat, ?_, fun other hnot ↦ ?_, fun other ↦ ?_, ?_⟩
      · rw [writeLoop, if_neg (not_or.mpr ⟨hfirst, hnone⟩)]
        refine (settles_getBlock (htracked block List.mem_cons_self)).bind ?_
        rw [hchunk]
        refine (settles_writeBlock (hstill block List.mem_cons_self) _).bind ?_
        rw [hmiddle]
        have hcount : chunk + (data.drop chunk).length = data.length := by
          rw [List.length_drop]
          omega
        refine hsettles.bind ?_
        rw [hcount]
        exact settles_pure
      · obtain ⟨hne, hmem⟩ := not_or.mp (mt List.mem_cons.mpr hnot)
        rw [hkept other hmem, hother other hne]
      · rw [hnext]
        by_cases hsame : other = block
        · rw [hsame, hwritten, nextBlock_setData]
        · rw [hother other hsame]
      · have htake : (data.take chunk).length = chunk := by
          rw [List.length_take]
          omega
        rw [chainData_cons, chainData_cons, hhead, hwritten, hdata, chainData_congr hlater,
          dataOf_setData _ (by omega), splice_append_across (by rw [length_dataOf]; omega),
          length_dataOf]
        congr 2
        · rw [List.take_eq_take_iff]
          omega
        · rcases Nat.le_total (dataPerBlock - position) data.length with hle | hle
          · rw [← hchunk, Nat.min_eq_left hle]
          · rw [← hchunk, Nat.min_eq_right hle, List.drop_length, List.drop_eq_nil_of_le hle]

end Chain

/-! ### Files -/

/-- A file with a chain of blocks that is long enough for its size, where none of them comes twice,
is in the bitmap or is the superblock. -/
structure FileChain (sb : Superblock) (tracked : UInt32 → Prop) (entry : DirEntry)
    (blocks : List UInt32) (flat : Flat) : Prop where
  type : entry.type = EYNFS_TYPE_FILE
  links : ∃ last, Links flat entry.firstBlock blocks last
  acyclic : blocks.Nodup
  long : entry.size.toNat ≤ dataPerBlock * blocks.length
  inside : ∀ block ∈ blocks, tracked block ∧ ¬Still sb [] block

/-- A chain of files is one as long as its links stay. -/
theorem FileChain.relinked {sb : Superblock} {tracked : UInt32 → Prop} {entry : DirEntry}
    {blocks : List UInt32} {flat newFlat : Flat} (hfile : FileChain sb tracked entry blocks flat)
    (hnext : ∀ block, nextBlock (newFlat.block block) = nextBlock (flat.block block)) :
    FileChain sb tracked entry blocks newFlat where
  type := hfile.type
  links := by
    obtain ⟨last, hlinks⟩ := hfile.links
    refine ⟨last, ?_⟩
    generalize entry.firstBlock = first at hlinks
    clear hfile
    induction blocks generalizing first with
    | nil => exact hlinks
    | cons block blocks ih =>
      obtain ⟨rfl, hfirst, hrest⟩ := hlinks
      refine ⟨rfl, hfirst, ih _ ?_⟩
      rwa [hnext]
  acyclic := hfile.acyclic
  long := hfile.long
  inside := hfile.inside

/-- The bytes of a file, as `eynfs_read_file` returns every part of them. -/
def Reads (drive : ℕ) (entry : DirEntry) (state : State) (bytes : List UInt8) : Prop :=
  ∀ count offset, (run (answer drive) (readFile entry count offset) state).1 =
    .ok ((bytes.drop offset).take count)

section Files

variable {sb : Superblock} {tracked still : UInt32 → Prop} {drive : ℕ} {flat newFlat : Flat}
  {entry : DirEntry} {blocks : List UInt32} {data : List UInt8} {offset count : ℕ}
  {state after : State}

theorem drop_chainData {before rest : List UInt32}
    (hoffset : offset = dataPerBlock * before.length + offset % dataPerBlock) :
    (chainData flat (before ++ rest)).drop offset =
      (chainData flat rest).drop (offset % dataPerBlock) := by
  have hbefore := length_chainData flat before
  rw [chainData, List.flatMap_append, List.drop_append]
  change (chainData flat before).drop offset ++
    (chainData flat rest).drop (offset - (chainData flat before).length) = _
  rw [List.drop_eq_nil_of_le (by omega), List.nil_append]
  congr 1
  omega

/-- `eynfs_read_file` of a file. -/
theorem FileChain.settles_readFile (hfile : FileChain sb tracked entry blocks flat)
    (count offset : ℕ) : Settles tracked still drive (readFile entry count offset) flat
      ((((chainData flat blocks).take entry.size.toNat).drop offset).take count) flat := by
  have hlength := length_chainData flat blocks
  have hlong := hfile.long
  rw [readFile, if_neg (not_not_intro hfile.type)]
  by_cases hbehind : entry.size.toNat ≤ offset
  · rw [if_pos hbehind, List.drop_eq_nil_of_le (by rw [List.length_take]; omega), List.take_nil]
    exact settles_pure
  · rw [if_neg hbehind]
    obtain ⟨last, hlinks⟩ := hfile.links
    obtain ⟨before, rest, block, hsplit, hrest, hoffset, hskipped⟩ := exists_skipped hlinks
      (fun block hblock ↦ (hfile.inside block hblock).1) (show offset ≤ _ by omega)
    have hblocks : dataPerBlock * blocks.length =
        dataPerBlock * before.length + dataPerBlock * rest.length := by
      rw [hsplit, List.length_append, Nat.mul_add]
    have hdata : (((chainData flat blocks).take entry.size.toNat).drop offset).take count =
        ((chainData flat rest).drop (offset % dataPerBlock)).take
          (min count (entry.size.toNat - offset)) := by
      rw [List.drop_take, List.take_take, hsplit, drop_chainData hoffset]
    rw [hdata]
    refine hskipped.bind ?_
    exact settles_readLoop hrest
      (fun block hblock ↦ (hfile.inside block (hsplit ▸ List.mem_append_right _ hblock)).1)
      (Nat.mod_lt _ (by decide)) (by omega) (Nat.lt_succ_self _)

/-- `eynfs_zero_copy_write` of a file. -/
theorem FileChain.exists_settled (hfile : FileChain sb tracked entry blocks flat)
    (hfits : offset + data.length ≤ entry.size.toNat) :
    ∃ newFlat, Settles tracked (Still sb []) drive (zeroCopyWrite entry data offset) flat
        (Int32.ofNat data.length) newFlat ∧
      (∀ block, block ∉ blocks → newFlat.block block = flat.block block) ∧
      (∀ block, nextBlock (newFlat.block block) = nextBlock (flat.block block)) ∧
      (chainData newFlat blocks).take entry.size.toNat =
        splice ((chainData flat blocks).take entry.size.toNat) offset data := by
  have hlength := length_chainData flat blocks
  have hlong := hfile.long
  obtain ⟨last, hlinks⟩ := hfile.links
  obtain ⟨before, rest, block, hsplit, hrest, hoffset, hskipped⟩ := exists_skipped hlinks
    (fun block hblock ↦ (hfile.inside block hblock).1) (show offset ≤ _ by omega)
  have hblocks : dataPerBlock * blocks.length =
      dataPerBlock * before.length + dataPerBlock * rest.length := by
    rw [hsplit, List.length_append, Nat.mul_add]
  have hnodup := hfile.acyclic
  rw [hsplit, List.nodup_append'] at hnodup
  obtain ⟨-, hnodup, hdisjoint⟩ := hnodup
  obtain ⟨newFlat, hwritten, hkept, hnext, hdata⟩ := exists_written hrest hnodup
    (fun block hblock ↦ (hfile.inside block (hsplit ▸ List.mem_append_right _ hblock)).1)
    (fun block hblock ↦ (hfile.inside block (hsplit ▸ List.mem_append_right _ hblock)).2)
    (show offset % dataPerBlock < dataPerBlock from Nat.mod_lt _ (by decide))
    (show offset % dataPerBlock + data.length ≤ _ by omega) (Nat.lt_succ_self data.length)
  refine ⟨newFlat, ?_, fun block hnot ↦ hkept block fun hmem ↦ hnot ?_, hnext, ?_⟩
  · rw [zeroCopyWrite, if_neg (not_not_intro hfile.type), if_neg (by omega), if_neg (by omega)]
    exact hskipped.bind (hwritten.bind settles_pure)
  · rw [hsplit]
    exact List.mem_append_right _ hmem
  · have hbefore : chainData newFlat before = chainData flat before :=
      chainData_congr fun block hblock ↦ hkept block fun hmem ↦ hdisjoint hblock hmem
    have hsame : chainData newFlat blocks = splice (chainData flat blocks) offset data := by
      have hbeforeLength := length_chainData flat before
      rw [hsplit, chainData, List.flatMap_append, chainData, List.flatMap_append]
      change chainData newFlat before ++ chainData newFlat rest =
        splice (chainData flat before ++ chainData flat rest) offset data
      rw [splice_append_right (by omega), hbefore, hdata]
      congr 2
      omega
    have htaken : ((chainData flat blocks).take entry.size.toNat).length = entry.size.toNat := by
      rw [List.length_take]
      omega
    rw [hsame]
    conv_lhs => rw [← List.take_append_drop entry.size.toNat (chainData flat blocks)]
    rw [splice_append_left (by omega), List.take_append_of_le_length
      (by rw [length_splice (by omega)]; omega), List.take_of_length_le
      (by rw [length_splice (by omega)]; omega)]

theorem FileChain.reads (hfile : FileChain sb tracked entry blocks flat)
    (hcoherent : CoherentOn tracked drive state flat.sectors) (hclear : Clear still state) :
    Reads drive entry state ((chainData flat blocks).take entry.size.toNat) := by
  intro count offset
  obtain ⟨later, hrun, -, -⟩ := hfile.settles_readFile count offset state hcoherent hclear
  rw [hrun]

/-- What a write into a file leaves: what is read of the file has the data in its place, the other
blocks are as they were, and so are the links and the bitmap. -/
structure InPlace (sb : Superblock) (tracked : UInt32 → Prop) (drive : ℕ) (entry : DirEntry)
    (blocks : List UInt32) (data : List UInt8) (offset : ℕ) (state after : State) : Prop where
  file : ∃ old, old.length = entry.size.toNat ∧ Reads drive entry state old ∧
    Reads drive entry after (splice old offset data)
  others : ∀ block, tracked block → block ∉ blocks →
    (cacheGetBlock drive block after).1 = (cacheGetBlock drive block state).1
  links : ∀ block, tracked block → (cacheGetBlock drive block after).1.map nextBlock =
    (cacheGetBlock drive block state).1.map nextBlock
  bitmap : ∀ number < sb.totalBlocks.toNat,
    (after.flat drive).used sb number = (state.flat drive).used sb number

/-- Above a cache that is coherent on some blocks, a file whose chain is among them is written in
place, wherever in the file the data goes. -/
theorem written_in_place (hcoherent : CoherentOn tracked drive state flat.sectors)
    (hclear : Clear (Still sb []) state) (hfile : FileChain sb tracked entry blocks flat)
    (hfits : offset + data.length ≤ entry.size.toNat) :
    ∃ after, run (answer drive) (zeroCopyWrite entry data offset) state =
        (.ok (Int32.ofNat data.length), after) ∧
      InPlace sb tracked drive entry blocks data offset state after := by
  obtain ⟨newFlat, hsettles, hothers, hnext, hdata⟩ := hfile.exists_settled hfits
  obtain ⟨after, hrun, hafter, hsteady⟩ := hsettles state hcoherent hclear
  refine ⟨after, hrun, ⟨(chainData flat blocks).take entry.size.toNat, ?_,
    hfile.reads hcoherent hclear, ?_⟩, fun block hblock hnot ↦ ?_, fun block hblock ↦ ?_, ?_⟩
  · have hlength := length_chainData flat blocks
    have hlong := hfile.long
    rw [List.length_take]
    omega
  · rw [← hdata]
    exact (hfile.relinked hnext).reads hafter hsteady.clear
  · rw [hafter.getBlock hblock, hcoherent.getBlock hblock]
    exact congrArg some (hothers block hnot)
  · rw [hafter.getBlock hblock, hcoherent.getBlock hblock]
    exact congrArg some (hnext block)
  · exact fun number hnumber ↦
      used_congr (fun block hblock ↦ hsteady.sectors block (.inr (.inr hblock))) hnumber

/-- The result of a write is the number of bytes wherever an `int` has room for it. -/
theorem FileChain.toInt_result (hfile : FileChain sb tracked entry blocks flat)
    (hcoherent : CoherentOn tracked drive state flat.sectors) (hclear : Clear (Still sb []) state)
    (hfits : offset + data.length ≤ entry.size.toNat) (hshort : data.length < 2 ^ 31) :
    ∃ result after, run (answer drive) (zeroCopyWrite entry data offset) state =
      (.ok result, after) ∧ result.toInt = data.length := by
  obtain ⟨_, hsettles, _⟩ := hfile.exists_settled hfits
  obtain ⟨after, hrun, _⟩ := hsettles state hcoherent hclear
  exact ⟨_, after, hrun, Int32.toInt_ofNat_of_lt hshort⟩

end Files

/-- A volume of eight blocks with its bitmap in the first one behind the superblock. -/
def stripVolume : Superblock where
  magic := EYNFS_MAGIC
  blockSize := UInt32.ofNat EYNFS_BLOCK_SIZE
  totalBlocks := 8
  rootDirBlock := 2
  freeBlockMap := 1

def stripDrive : Disk where
  sectors lba := if lba = blockToLba 3 then setNext zeroBlock 4 else zeroBlock
  fails _ _ := false
  accesses _ := 0
  written _ := []

/-- The file in the chain. -/
def stripEntry : DirEntry := (newEntry [65] EYNFS_TYPE_FILE 0).setContents 3 700

/-- Three bytes are written, the first of them into the first block. -/
theorem written_in_place_across :
    ∃ after, run (answer 0) (zeroCopyWrite stripEntry [1, 2, 3] 507)
        (.boot (fun _ ↦ stripDrive) 16) = (.ok 3, after) ∧
      InPlace stripVolume (fun _ ↦ True) 0 stripEntry [3, 4] [1, 2, 3] 507
        (.boot (fun _ ↦ stripDrive) 16) after := by
  have hcoherent : CoherentOn (fun _ ↦ True) 0 (.boot (fun _ ↦ stripDrive) 16)
      (stripDrive.sectors) :=
    coherentOn_all.mpr (current_start 0 16 fun _ _ ↦ rfl).coherent
  have hclear : Clear (Still stripVolume []) (.boot (fun _ ↦ stripDrive) 16) := by
    intro entry hentry hunsaved
    rw [List.eq_of_mem_replicate hentry] at hunsaved
    exact nomatch hunsaved
  have hfile : FileChain stripVolume (fun _ ↦ True) stripEntry [3, 4]
      ⟨stripDrive.sectors, [], false⟩ := by
    refine ⟨by decide +kernel, ⟨0, by decide +kernel⟩, by decide, by decide +kernel, ?_⟩
    intro block hblock
    refine ⟨trivial, ?_⟩
    rintro (hmem | rfl | hbitmap)
    · exact List.not_mem_nil hmem
    · exact absurd hblock (by decide)
    · refine hbitmap fun other hother ↦ ?_
      have hfirst : bitmapBlock stripVolume other = 1 := by
        rw [bitmapBlock, Nat.div_eq_of_lt (hother.trans (by decide))]
        rfl
      rw [hfirst]
      rintro rfl
      exact absurd hblock (by decide)
  exact written_in_place hcoherent hclear hfile (by decide +kernel)

end EynOS.Storage
