import EynOS.Process.ElfConfinement

/-!
# What the ELF loader leaves in memory

`UserMemory.observe` says what the accesses of a load do to the user's memory: a page that is mapped
holds zeros, whether it is filled on demand or by the loader, and a copy brings the bytes of the
file at the place that was read last. `loaded` is the memory after a load.

Each segment that holds bytes of the file gets new pages for them, also where an earlier segment has
left its bytes in one of these. `loadedRight_iff` gives the exact condition, for files whose
segments are disjoint, under which every byte of the file is where its segment wants it and
everything else is zero; `not_loadedRight` is a file of two segments that share a page.
-/

namespace EynOS.Process.ElfLoader

open Foundation Traced

/-! ### The memory of the user -/

/-- The bytes at the addresses that are mapped, and the offset in the file that was read last. -/
structure UserMemory where
  contents : ℕ → Option UInt8
  source : ℕ

def zeroPage (contents : ℕ → Option UInt8) (start : ℕ) : ℕ → Option UInt8 :=
  fun address ↦ if start ≤ address ∧ address < start + pageSize then some 0 else contents address

/-- The bytes of the file from an offset on are copied to an address. -/
def copyFile (image : Image) (contents : ℕ → Option UInt8) (offset vaddr length : ℕ) :
    ℕ → Option UInt8 :=
  fun address ↦
    if vaddr ≤ address ∧ address < vaddr + length
      then some (image.byte (offset + (address - vaddr)))
    else contents address

def UserMemory.observe (image : Image) (memory : UserMemory) : Access → UserMemory
  | .readFile offset _ => { memory with source := offset }
  | .mapPage address => { memory with contents := zeroPage memory.contents address }
  | .mapStackPage address => { memory with contents := zeroPage memory.contents address }
  | .write address length =>
    { memory with contents := copyFile image memory.contents memory.source address length }

/-- Nothing is mapped before the load. -/
def emptyMemory : UserMemory := { contents := fun _ ↦ none, source := 0 }

def loaded (environment : Environment) (image : Image) : ℕ → Option UInt8 :=
  (after (UserMemory.observe image) emptyMemory (userElfRunArgv environment image)).contents

/-! ### Segments -/

/-- An address that a segment wants to hold a byte of the file. -/
def Image.HoldsFile (image : Image) (index address : ℕ) : Prop :=
  image.IsLoad index ∧ image.pVaddr index ≤ address ∧
    address < image.pVaddr index + image.pFilesz index

/-- An address in a page that is mapped for the file bytes of a segment. -/
def Image.Covers (image : Image) (index address : ℕ) : Prop :=
  image.IsLoad index ∧ alignDown (image.pVaddr index) ≤ address ∧
    address < alignUp (u32 (image.pVaddr index + image.pFilesz index))

def Image.fileByte (image : Image) (index address : ℕ) : UInt8 :=
  image.byte (image.pOffset index + (address - image.pVaddr index))

/-- The segments are disjoint ranges of 32-bit addresses. -/
structure Image.Disjoint (image : Image) : Prop where
  ranges : ∀ index, image.IsLoad index → image.pVaddr index + image.pMemsz index < 4294967296
  apart : ∀ first second, image.IsLoad first → image.IsLoad second → first ≠ second →
    image.pVaddr first + image.pMemsz first ≤ image.pVaddr second ∨
      image.pVaddr second + image.pMemsz second ≤ image.pVaddr first

/-- After a load each byte of the file part of a segment is in the file and at its address, and
every other byte of the range is zero. -/
structure LoadedRight (environment : Environment) (image : Image) : Prop where
  file : ∀ index, image.IsLoad index → ∀ distance < image.pFilesz index,
    image.pOffset index + distance < image.size ∧
      image.loadRange.mapStart ≤ image.pVaddr index + distance ∧
        image.pVaddr index + distance < image.loadRange.mapEnd ∧
          loaded environment image (image.pVaddr index + distance) =
            some (image.byte (image.pOffset index + distance))
  zero : ∀ address, image.loadRange.mapStart ≤ address → address < image.loadRange.mapEnd →
    (∀ index, ¬image.HoldsFile index address) → loaded environment image address = some 0

/-- The file parts are in the file and at addresses of the user, and no segment gets new pages where
an earlier one has a byte of the file that is not zero. -/
structure Image.Unshared (image : Image) : Prop where
  inFile : ∀ index, image.IsLoad index → image.pFilesz index ≠ 0 →
    image.pOffset index + image.pFilesz index ≤ image.size
  inUser : ∀ index, image.IsLoad index → image.pFilesz index ≠ 0 →
    image.pVaddr index + image.pFilesz index ≤ userStackBase
  unshared : ∀ index address later, image.HoldsFile index address → index < later →
    image.Covers later address → image.fileByte index address = 0

variable {image : Image} {environment : Environment} {memory : UserMemory}

/-! ### What each stage does to the memory -/

def Access.Reads : Access → Prop
  | .readFile _ _ => True
  | _ => False

/-- Reading the file leaves the memory of the user alone. -/
theorem contents_of_reads (image : Image) (memory : UserMemory) {Result : Type}
    {program : Load Result} (hreads : program.Satisfies Access.Reads) :
    (after (UserMemory.observe image) memory program).contents = memory.contents := by
  have hkeeps (access : Access) (haccess : access.Reads) (before : UserMemory)
      (hbefore : before.contents = memory.contents) :
      (before.observe image access).contents = memory.contents := by
    cases access with
    | readFile offset length => exact hbefore
    | mapPage address => exact absurd haccess not_false
    | mapStackPage address => exact absurd haccess not_false
    | write address length => exact absurd haccess not_false
  exact after_of_satisfies hkeeps hreads rfl

@[simp] theorem reads_readWord (offset : ℕ) : (readWord image offset).Satisfies Access.Reads :=
  (satisfies_accessing _ _).mpr trivial

@[simp] theorem reads_readHalf (offset : ℕ) : (readHalf image offset).Satisfies Access.Reads :=
  (satisfies_accessing _ _).mpr trivial

theorem reads_checkHeader : (checkHeader image).Satisfies Access.Reads := by
  unfold checkHeader
  simp [satisfies_bind]

theorem reads_findInterp : (findInterp image).Satisfies Access.Reads := by
  have hbody (index : ℕ) : (interpEntry image index).Satisfies Access.Reads ↔ True := by
    simp [interpEntry, satisfies_bind, Access.Reads]
  have hmisses (index : ℕ) : (interpEntry image index).Yields none ↔
      (interpEntry image index).Yields none := Iff.rfl
  unfold findInterp
  rw [satisfies_bind, satisfies_search hbody hmisses]
  simp

theorem reads_rangeLoop (image : Image) :
    (loop (rangeEntry image) image.ePhnum 0 emptyRange).Satisfies Access.Reads := by
  have hbody (index : ℕ) (range : LoadRange) :
      (rangeEntry image index range).Satisfies Access.Reads ↔ True := by
    simp [rangeEntry, satisfies_bind]
  have hreaches (index : ℕ) (range : LoadRange) :
      (∃ next, (rangeEntry image index range).Yields next) ↔ True :=
    iff_true_intro ⟨_, yields_rangeEntry index range⟩
  rw [satisfies_loop hbody hreaches]
  simp

/-- A loop that maps pages one after the other leaves zeros in them. -/
theorem contents_pages {body : ℕ → Unit → Load Unit} {start count : ℕ} {result : Unit}
    (hbody : ∀ index state next memory, (body index state).Yields next →
      (after (UserMemory.observe image) memory (body index state)).contents =
        zeroPage memory.contents (start + index * pageSize))
    (hyields : (loop body count 0 ()).Yields result) :
    (after (UserMemory.observe image) memory (loop body count 0 ())).contents = fun address ↦
      if start ≤ address ∧ address < start + count * pageSize then some 0
      else memory.contents address := by
  have hstep (index : ℕ) (state next : Unit) (before : UserMemory)
      (hbefore : before.contents = fun address ↦
        if start ≤ address ∧ address < start + index * pageSize then some 0
        else memory.contents address) (hnext : (body index state).Yields next) :
      (after (UserMemory.observe image) before (body index state)).contents = fun address ↦
        if start ≤ address ∧ address < start + (index + 1) * pageSize then some 0
        else memory.contents address := by
    rw [hbody index state next before hnext, hbefore]
    funext address
    simp only [zeroPage, pageSize]
    grind
  have hstart : memory.contents = fun address ↦
      if start ≤ address ∧ address < start + 0 * pageSize then some 0
      else memory.contents address := by
    funext address
    rw [if_neg (by omega)]
  have hloop := after_loop hstep hyields hstart
  rwa [Nat.zero_add] at hloop

/-- The entries of the range read as zero. -/
theorem contents_createPte (image : Image) (memory : UserMemory) {mapStart count : ℕ}
    {result : Unit}
    (hyields :
      (loop (fun index _ ↦ createPte environment mapStart index) count 0 ()).Yields result) :
    (after (UserMemory.observe image) memory
        (loop (fun index _ ↦ createPte environment mapStart index) count 0 ())).contents =
      fun address ↦ if mapStart ≤ address ∧ address < mapStart + count * pageSize then some 0
        else memory.contents address := by
  refine contents_pages (fun index _ next before hnext ↦ ?_) hyields
  unfold createPte at hnext ⊢
  by_cases htable : environment.pageTable index = true
  · rw [if_pos htable]
    rfl
  · rw [if_neg htable] at hnext
    exact absurd hnext (yields_fail _ _)

/-- The pages of the stack hold zeros. -/
theorem contents_mapStack (image : Image) (memory : UserMemory) {count : ℕ} {result : Unit}
    (hyields : (loop (fun index _ ↦ mapStack environment index) count 0 ()).Yields result) :
    (after (UserMemory.observe image) memory
        (loop (fun index _ ↦ mapStack environment index) count 0 ())).contents =
      fun address ↦
        if userStackTop - initialStackPages * pageSize ≤ address ∧
            address < userStackTop - initialStackPages * pageSize + count * pageSize then some 0
        else memory.contents address := by
  refine contents_pages (fun index _ next before hnext ↦ ?_) hyields
  unfold mapStack at hnext ⊢
  by_cases hframe : environment.stackFrame index = true
  · rw [if_pos hframe]
    rfl
  · rw [if_neg hframe] at hnext
    exact absurd hnext (yields_fail _ _)

/-- The pages of a segment hold zeros. -/
theorem contents_mapSegmentPage (image : Image) (memory : UserMemory) {index pageStart count : ℕ}
    {result : Unit}
    (hyields : (loop (fun page _ ↦ mapSegmentPage environment index pageStart page) count 0
      ()).Yields result) :
    (after (UserMemory.observe image) memory
        (loop (fun page _ ↦ mapSegmentPage environment index pageStart page) count 0 ())).contents =
      fun address ↦ if pageStart ≤ address ∧ address < pageStart + count * pageSize then some 0
        else memory.contents address := by
  refine contents_pages (fun page _ next before hnext ↦ ?_) hyields
  unfold mapSegmentPage at hnext ⊢
  by_cases hframe : environment.segmentFrame index page = true
  · rw [if_pos hframe]
    rfl
  · rw [if_neg hframe] at hnext
    exact absurd hnext (yields_fail _ _)

theorem after_readWord {Result : Type} (offset : ℕ) (continuation : ℕ → Load Result) :
    after (UserMemory.observe image) memory (readWord image offset >>= continuation) =
      after (UserMemory.observe image) { memory with source := offset }
        (continuation (image.word offset)) :=
  after_bind (yields_accessing _ _ _ |>.mpr rfl)

instance (index address : ℕ) : Decidable (image.HoldsFile index address) :=
  inferInstanceAs (Decidable ((_ ∧ _ ∧ _) ∧ _ ∧ _))

instance (index address : ℕ) : Decidable (image.Covers index address) :=
  inferInstanceAs (Decidable ((_ ∧ _ ∧ _) ∧ _ ∧ _))

/-- What a segment leaves: its bytes of the file, and zeros in the rest of the pages for them. -/
def Image.overlay (image : Image) (contents : ℕ → Option UInt8) (index : ℕ) : ℕ → Option UInt8 :=
  fun address ↦
    if image.HoldsFile index address then some (image.fileByte index address)
    else if image.Covers index address then some 0
    else contents address

theorem pages_iff {start stop address : ℕ} (hstart : start % pageSize = 0)
    (hstop : stop % pageSize = 0) :
    (start ≤ address ∧ address < start + (stop - start) / pageSize * pageSize) ↔
      start ≤ address ∧ address < stop := by
  simp only [pageSize] at *
  omega

theorem overlay_of_not_load {contents : ℕ → Option UInt8} {index : ℕ}
    (hload : ¬image.IsLoad index) :
    image.overlay contents index = contents := by
  funext address
  unfold Image.overlay
  rw [if_neg fun hholds ↦ hload hholds.1, if_neg fun hcovers ↦ hload hcovers.1]

theorem contents_loadSegment {index : ℕ} {result : Unit} (hindex : index < image.ePhnum)
    (hyields : (loadSegment environment image index).Yields result) :
    (after (UserMemory.observe image) memory (loadSegment environment image index)).contents =
      image.overlay memory.contents index := by
  unfold loadSegment at hyields ⊢
  rw [after_readWord]
  simp only [yields_bind, yields_readWord, exists_eq_left'] at hyields
  by_cases htype : image.word (image.phdr index) ≠ ptLoad
  · rw [if_pos htype, overlay_of_not_load fun hload ↦ htype hload.2.1]
    rfl
  rw [if_neg htype] at hyields ⊢
  rw [after_readWord]
  simp only [yields_bind, yields_readWord, exists_eq_left'] at hyields
  by_cases hmemsz : image.word (image.phdr index + 20) = 0
  · rw [if_pos hmemsz, overlay_of_not_load fun hload ↦ hload.2.2 hmemsz]
    rfl
  have hload : image.IsLoad index := ⟨hindex, not_not.mp htype, hmemsz⟩
  rw [if_neg hmemsz] at hyields ⊢
  rw [after_readWord]
  simp only [yields_bind, yields_readWord, exists_eq_left'] at hyields
  by_cases hfits : image.word (image.phdr index + 20) < image.word (image.phdr index + 16)
  · rw [if_pos hfits] at hyields
    exact absurd hyields (yields_fail _ _)
  rw [if_neg hfits] at hyields ⊢
  rw [after_readWord]
  simp only [yields_bind, yields_readWord, exists_eq_left'] at hyields
  by_cases hextent : image.size <
      u32 (image.word (image.phdr index + 4) + image.word (image.phdr index + 16))
  · rw [if_pos hextent] at hyields
    exact absurd hyields (yields_fail _ _)
  rw [if_neg hextent] at hyields ⊢
  rw [after_readWord]
  simp only [yields_bind, yields_readWord, exists_eq_left'] at hyields
  obtain ⟨_, hpages, hcopy⟩ := hyields
  rw [after_bind hpages]
  have hmapped :=
    contents_mapSegmentPage image { memory with source := image.phdr index + 8 } hpages
  generalize after (UserMemory.observe image) { memory with source := image.phdr index + 8 } _ =
    mapped at hmapped ⊢
  have hzeroed (address : ℕ) : mapped.contents address =
      if image.Covers index address then some 0 else memory.contents address := by
    have hcovered : (alignDown (image.pVaddr index) ≤ address ∧
        address < alignDown (image.pVaddr index) +
          (alignUp (u32 (image.pVaddr index + image.pFilesz index)) -
            alignDown (image.pVaddr index)) / pageSize * pageSize) ↔
            image.Covers index address := by
      rw [pages_iff (alignDown_mod _) (alignUp_mod _)]
      exact ⟨fun hrange ↦ ⟨hload, hrange⟩, And.right⟩
    rw [hmapped]
    exact if_congr hcovered rfl rfl
  funext address
  by_cases hfilesz : image.word (image.phdr index + 16) = 0
  · rw [if_pos hfilesz]
    unfold Image.overlay
    rw [if_neg fun hholds ↦ ?_]
    · exact hzeroed address
    · have hempty : image.pFilesz index = 0 := hfilesz
      have := hholds.2
      omega
  · rw [if_neg hfilesz]
    change copyFile image mapped.contents (image.pOffset index) (image.pVaddr index)
      (image.pFilesz index) address = image.overlay memory.contents index address
    unfold copyFile Image.overlay
    rw [hzeroed]
    exact if_congr ⟨fun hrange ↦ ⟨hload, hrange⟩, And.right⟩ rfl rfl

/-- Loading the segments one after the other. -/
theorem contents_segments (memory : UserMemory) {result : Unit}
    (hyields : (loop (fun index _ ↦ loadSegment environment image index) image.ePhnum 0 ()).Yields
      result) :
    (after (UserMemory.observe image) memory
        (loop (fun index _ ↦ loadSegment environment image index) image.ePhnum 0 ())).contents =
      (List.range image.ePhnum).foldl image.overlay memory.contents := by
  have hstep (index : ℕ) (state next : Unit) (before : UserMemory)
      (hbefore : index ≤ image.ePhnum →
        before.contents = (List.range index).foldl image.overlay memory.contents)
      (hnext : (loadSegment environment image index).Yields next)
        (hindex : index + 1 ≤ image.ePhnum) :
      (after (UserMemory.observe image) before (loadSegment environment image index)).contents =
        (List.range (index + 1)).foldl image.overlay memory.contents := by
    rw [contents_loadSegment hindex hnext, hbefore (Nat.le_of_succ_le hindex), List.range_succ,
      List.foldl_append]
    rfl
  have hloop := after_loop hstep hyields fun _ ↦ rfl
  rw [Nat.zero_add] at hloop
  exact hloop (le_refl _)

/-- The memory before the segments are loaded: zeros in the range and on the stack. -/
def Image.zeroed (image : Image) : ℕ → Option UInt8 :=
  fun address ↦
    if userStackTop - initialStackPages * pageSize ≤ address ∧
        address < userStackTop - initialStackPages * pageSize + initialStackPages * pageSize
          then some 0
    else if image.loadRange.mapStart ≤ address ∧
      address < image.loadRange.mapStart + image.loadRange.pages * pageSize then some 0
    else none

/-- What a load leaves: zeros in the range and on the stack, and then what each segment leaves. -/
theorem loaded_eq {entry mapStart mapEnd : ℕ}
    (hyields : (userElfRunArgv environment image).Yields (.program entry mapStart mapEnd)) :
    image.loadRange.Accepted ∧ (∀ index, image.IsLoad index → image.Accepts index) ∧
      loaded environment image = (List.range image.ePhnum).foldl image.overlay image.zeroed := by
  unfold loaded
  unfold userElfRunArgv at hyields ⊢
  obtain ⟨_, hheader, hyields⟩ := yields_bind.mp hyields
  rw [after_bind hheader]
  have hempty : (after (UserMemory.observe image) emptyMemory (checkHeader image)).contents =
      fun _ ↦ none := contents_of_reads image emptyMemory reads_checkHeader
  generalize after (UserMemory.observe image) emptyMemory (checkHeader image) = checked at hempty ⊢
  obtain ⟨path, hpath, hyields⟩ := yields_bind.mp hyields
  rw [after_bind hpath]
  have hsearched : (after (UserMemory.observe image) checked (findInterp image)).contents =
      fun _ ↦ none := (contents_of_reads image checked reads_findInterp).trans hempty
  generalize after (UserMemory.observe image) checked (findInterp image) = searched at hsearched ⊢
  by_cases hinterp : path ≠ []
  · rw [if_pos hinterp, yields_pure] at hyields
    exact absurd hyields (by simp)
  rw [if_neg hinterp] at hyields ⊢
  unfold loadProgram at hyields ⊢
  obtain ⟨range, hrange, hyields⟩ := yields_bind.mp hyields
  rw [after_bind hrange]
  obtain rfl := (yields_rangeLoop range).mp hrange
  have hread := (contents_of_reads image searched (reads_rangeLoop image)).trans hsearched
  generalize after (UserMemory.observe image) searched _ = read at hread ⊢
  by_cases hloads : image.loadRange.loadCount = 0 ∨ image.loadRange.minVaddr = 0xFFFFFFFF ∨
      image.loadRange.maxVaddr ≤ image.loadRange.minVaddr
  · rw [if_pos hloads] at hyields
    exact absurd hyields (yields_fail _ _)
  rw [if_neg hloads] at hyields ⊢
  by_cases hsupported : image.loadRange.mapStart < userCodeBase ∨
      userStackBase ≤ image.loadRange.mapEnd
  · rw [if_pos hsupported] at hyields
    exact absurd hyields (yields_fail _ _)
  rw [if_neg hsupported] at hyields ⊢
  by_cases hlarge : image.loadRange.pages = 0 ∨ 16384 < image.loadRange.pages
  · rw [if_pos hlarge] at hyields
    exact absurd hyields (yields_fail _ _)
  rw [if_neg hlarge] at hyields ⊢
  refine ⟨⟨hloads, hsupported, hlarge⟩, ?_⟩
  obtain ⟨_, hentries, hyields⟩ := yields_bind.mp hyields
  rw [after_bind hentries]
  have hcreated := contents_createPte image read hentries
  generalize after (UserMemory.observe image) read _ = created at hcreated ⊢
  obtain ⟨_, hstack, hyields⟩ := yields_bind.mp hyields
  rw [after_bind hstack]
  have hmapped := contents_mapStack image created hstack
  generalize after (UserMemory.observe image) created _ = mapped at hmapped ⊢
  obtain ⟨_, hsegments, hyields⟩ := yields_bind.mp hyields
  rw [after_bind hsegments]
  have hcopied := contents_segments mapped hsegments
  generalize after (UserMemory.observe image) mapped _ = copied at hcopied ⊢
  have hbase : mapped.contents = image.zeroed := by
    rw [hmapped, hcreated, hread]
    rfl
  refine ⟨fun index hload ↦ ?_, ?_⟩
  · have hreaches (index : ℕ) (_ : Unit) :
        (∃ next, (loadSegment environment image index).Yields next) ↔
          ∃ next, (loadSegment environment image index).Yields next := Iff.rfl
    have hpassed := (yields_loop hreaches image.ePhnum 0 ()).mp ⟨_, hsegments⟩ index hload.1
    rw [Nat.zero_add] at hpassed
    exact ((yields_loadSegment index).mp hpassed hload.2.1 hload.2.2).1
  · rw [after_readWord, ← hbase, ← hcopied]
    split_ifs <;> rfl

/-! ### What is at an address -/

variable {base : ℕ → Option UInt8} {count index later address : ℕ}

/-- The contents after some segments. -/
def Image.overlaid (image : Image) (base : ℕ → Option UInt8) (count : ℕ) : ℕ → Option UInt8 :=
  (List.range count).foldl image.overlay base

theorem overlaid_succ : image.overlaid base (count + 1) =
    image.overlay (image.overlaid base count) count := by
  unfold Image.overlaid
  rw [List.range_succ, List.foldl_append]
  rfl

/-- In disjoint segments an address holds the file byte of one segment. -/
theorem Image.Disjoint.unique (hdisjoint : image.Disjoint)
    (haccepts : ∀ index, image.IsLoad index → image.pFilesz index ≤ image.pMemsz index)
    (hholds : image.HoldsFile index address) (hlater : image.HoldsFile later address) :
    index = later := by
  by_contra hne
  have hfirst := haccepts index hholds.1
  have hsecond := haccepts later hlater.1
  have hstart := hholds.2
  have hother := hlater.2
  rcases hdisjoint.apart index later hholds.1 hlater.1 hne with hbefore | hbehind <;> omega

/-- Where no segment holds a byte of the file, zeros stay zeros. -/
theorem overlaid_zero (hbase : base address = some 0)
    (hnone : ∀ index, ¬image.HoldsFile index address) :
    image.overlaid base count address = some 0 := by
  induction count with
  | zero => exact hbase
  | succ count ih =>
    rw [overlaid_succ]
    unfold Image.overlay
    rw [if_neg (hnone count), ih]
    split_ifs <;> rfl

/-- The byte of a segment is there until a later segment gets a new page in its place. -/
theorem overlaid_file (hunique : ∀ other, image.HoldsFile other address → other = index)
    (hholds : image.HoldsFile index address) (hcount : index < count) :
    image.overlaid base count address =
      if ∃ later < count, index < later ∧ image.Covers later address then some 0
      else some (image.fileByte index address) := by
  induction count with
  | zero => exact absurd hcount (Nat.not_lt_zero _)
  | succ count ih =>
    rw [overlaid_succ]
    unfold Image.overlay
    by_cases hsame : index = count
    · rw [← hsame, if_pos hholds, if_neg]
      rintro ⟨later, hlater, hless, -⟩
      omega
    · have hother : ¬image.HoldsFile count address :=
        fun hcovers ↦ hsame (hunique count hcovers).symm
      rw [if_neg hother, ih (by omega)]
      by_cases hcovers : image.Covers count address
      · rw [if_pos hcovers, if_pos ⟨count, Nat.lt_succ_self _, by omega, hcovers⟩]
      · rw [if_neg hcovers]
        refine if_congr ⟨?_, ?_⟩ rfl rfl
        · rintro ⟨later, hlater, hless⟩
          exact ⟨later, hlater.trans (Nat.lt_succ_self _), hless⟩
        · rintro ⟨later, hlater, hless, hcovered⟩
          have hne : later ≠ count := by
            rintro rfl
            exact hcovers hcovered
          exact ⟨later, by omega, hless, hcovered⟩

/-- The segments of a range whose end does not wrap lie in it. -/
theorem segment_bounds (hdisjoint : image.Disjoint)
    (haccepts : ∀ index, image.IsLoad index → image.Accepts index)
    (hmax : image.loadRange.maxVaddr ≤ 0xFFFFF000) (hload : image.IsLoad index) :
    image.loadRange.mapStart ≤ image.pVaddr index ∧
      image.pVaddr index + image.pFilesz index ≤ image.loadRange.mapEnd ∧
        image.pVaddr index + image.pFilesz index ≤ 0xFFFFF000 := by
  obtain ⟨hmin, hend⟩ := (loadRange_spec image).1 index hload
  rw [u32_of_lt _ (hdisjoint.ranges index hload)] at hend
  have hfits := (haccepts index hload).1
  have hup : image.loadRange.maxVaddr ≤ image.loadRange.mapEnd := le_alignUp hmax
  have hdown : image.loadRange.mapStart ≤ image.loadRange.minVaddr := alignDown_le _
  omega

/-- Where the end of the range wraps it is empty and behind the addresses of the user. -/
theorem range_of_wrap (haccepted : image.loadRange.Accepted)
    (hmax : ¬image.loadRange.maxVaddr ≤ 0xFFFFF000) :
    image.loadRange.mapEnd = 0 ∧ userStackBase < image.loadRange.mapStart := by
  have hzero := mapEnd_eq_zero (maxVaddr_lt image) hmax
  refine ⟨hzero, ?_⟩
  obtain ⟨-, hsupported, hlarge⟩ := haccepted
  have hstart : image.loadRange.mapStart < 4294967296 := by
    have hdown : image.loadRange.mapStart ≤ image.loadRange.minVaddr := alignDown_le _
    by_contra hbeyond
    have hpages : image.loadRange.pages = 0 := by
      unfold LoadRange.pages
      rw [hzero, Nat.zero_add, Nat.sub_eq_zero_of_le (Nat.le_of_not_lt hbeyond)]
      rfl
    exact hlarge (.inl hpages)
  unfold LoadRange.pages at hlarge
  rw [hzero, Nat.zero_add] at hlarge
  simp only [userCodeBase, userStackBase, pageSize] at *
  rw [u32_of_lt _ (by omega)] at hlarge
  omega

/-- After a load in which the segments are disjoint, each byte of the file is in the file and at its
address and all other bytes of the range are zero, exactly where the file parts are in the file and
at addresses of the user and no segment gets a new page where an earlier one has a byte other than
zero. -/
theorem loadedRight_iff {entry mapStart mapEnd : ℕ} (hdisjoint : image.Disjoint)
    (hyields : (userElfRunArgv environment image).Yields (.program entry mapStart mapEnd)) :
    LoadedRight environment image ↔ image.Unshared := by
  obtain ⟨haccepted, haccepts, hloaded⟩ := loaded_eq hyields
  change loaded environment image = image.overlaid image.zeroed image.ePhnum at hloaded
  by_cases hmax : image.loadRange.maxVaddr ≤ 0xFFFFF000
  · obtain ⟨-, htop, hpages⟩ := haccepted.bounds hmax
    have hzeroed (address : ℕ) (hstart : image.loadRange.mapStart ≤ address)
        (hend : address < image.loadRange.mapEnd) : image.zeroed address = some 0 := by
      unfold Image.zeroed
      rw [← hpages]
      split_ifs with hstack hrange
      · rfl
      · rfl
      · exact absurd ⟨hstart, hend⟩ hrange
    have hfile (index address : ℕ) (hholds : image.HoldsFile index address) :
        loaded environment image address =
          if ∃ later < image.ePhnum, index < later ∧ image.Covers later address then some 0
          else some (image.fileByte index address) := by
      rw [hloaded]
      refine overlaid_file (fun other hother ↦ ?_) hholds hholds.1.1
      exact hdisjoint.unique (fun index hload ↦ (haccepts index hload).1) hother hholds
    constructor
    · intro hright
      refine ⟨fun index hload hfilesz ↦ ?_, fun index hload hfilesz ↦ ?_,
        fun index address later hholds hless hcovers ↦ ?_⟩
      · have hlast := (hright.file index hload (image.pFilesz index - 1) (by omega)).1
        omega
      · exact (segment_bounds hdisjoint haccepts hmax hload).2.1.trans htop
      · have hcontents := (hright.file index hholds.1 (address - image.pVaddr index) (by
          have := hholds.2
          omega)).2.2.2
        rw [Nat.add_sub_cancel' hholds.2.1, hfile index address hholds,
          if_pos ⟨later, hcovers.1.1, hless, hcovers⟩] at hcontents
        exact (Option.some.inj hcontents).symm
    · intro hunshared
      refine ⟨fun index hload distance hdistance ↦ ?_, fun address hstart hend hnone ↦ ?_⟩
      · obtain ⟨hstart, hend, -⟩ := segment_bounds hdisjoint haccepts hmax hload
        have hinFile := hunshared.inFile index hload (by omega)
        have hholds : image.HoldsFile index (image.pVaddr index + distance) :=
          ⟨hload, Nat.le_add_right _ _, Nat.add_lt_add_left hdistance _⟩
        have hbyte : image.fileByte index (image.pVaddr index + distance) =
            image.byte (image.pOffset index + distance) := by
          unfold Image.fileByte
          rw [Nat.add_sub_cancel_left]
        refine ⟨by omega, by omega, by omega, ?_⟩
        rw [hfile index _ hholds, ← hbyte]
        split_ifs with hlater
        · obtain ⟨later, -, hless, hcovers⟩ := hlater
          rw [hunshared.unshared index _ later hholds hless hcovers]
        · rfl
      · rw [hloaded]
        exact overlaid_zero (hzeroed address hstart hend) hnone
  · obtain ⟨hzero, hbeyond⟩ := range_of_wrap haccepted hmax
    have hvaddr (index : ℕ) (hload : image.IsLoad index) :
        image.loadRange.mapStart ≤ image.pVaddr index :=
      (alignDown_le _).trans ((loadRange_spec image).1 index hload).1
    constructor
    · intro hright
      have hempty (index : ℕ) (hload : image.IsLoad index) : image.pFilesz index = 0 := by
        by_contra hfilesz
        have hbelow := (hright.file index hload 0 (Nat.pos_of_ne_zero hfilesz)).2.2.1
        omega
      refine ⟨fun index hload hfilesz ↦ absurd (hempty index hload) hfilesz,
        fun index hload hfilesz ↦ absurd (hempty index hload) hfilesz,
        fun index address later hholds ↦ ?_⟩
      have hfilesz := hempty index hholds.1
      have hrange := hholds.2
      omega
    · intro hunshared
      refine ⟨fun index hload distance hdistance ↦ ?_, fun address _ hend ↦ by omega⟩
      have hbelow := hunshared.inUser index hload (by omega)
      have habove := hvaddr index hload
      omega

deriving instance DecidableEq for LoadError, Loaded

/-- How a load ends is decided by running it. -/
instance (program : Load Loaded) (result : Loaded) : Decidable (program.Yields result) :=
  inferInstanceAs (Decidable (program.outcome = .ok result))

/-- A program of two segments. The first has the file header at `0x400000`, the second the program
headers at `0x400034` or, with a second byte of 0x10 in its address, at `0x401034`. -/
def twoSegmentFile (second : UInt8) : Image :=
  Image.ofBytes [
    0x7F, 0x45, 0x4C, 0x46, 0x01, 0x01, 0x01, 0x00, 0x00, 0x00, 0x00, 0x00, 0x00, 0x00, 0x00, 0x00,
    0x02, 0x00, 0x03, 0x00, 0x01, 0x00, 0x00, 0x00, 0x00, 0x00, 0x40, 0x00, 0x34, 0x00, 0x00, 0x00,
    0x00, 0x00, 0x00, 0x00, 0x00, 0x00, 0x00, 0x00, 0x34, 0x00, 0x20, 0x00, 0x02, 0x00, 0x00, 0x00,
    0x00, 0x00, 0x00, 0x00, 0x01, 0x00, 0x00, 0x00, 0x00, 0x00, 0x00, 0x00, 0x00, 0x00, 0x40, 0x00,
    0x00, 0x00, 0x40, 0x00, 0x34, 0x00, 0x00, 0x00, 0x34, 0x00, 0x00, 0x00, 0x05, 0x00, 0x00, 0x00,
    0x00, 0x10, 0x00, 0x00, 0x01, 0x00, 0x00, 0x00, 0x34, 0x00, 0x00, 0x00, 0x34, second,
      0x40, 0x00,
    0x34, second, 0x40, 0x00, 0x40, 0x00, 0x00, 0x00, 0x40, 0x00, 0x00, 0x00, 0x06, 0x00,
      0x00, 0x00,
    0x00, 0x10, 0x00, 0x00]
    (by simp [maxFileBytes])

theorem twoSegmentFile_fields (second : UInt8) (hsecond : second = 0 ∨ second = 0x10) :
    (twoSegmentFile second).ePhnum = 2 ∧ (twoSegmentFile second).size = 116 ∧
      (twoSegmentFile second).pVaddr 0 = 0x400000 ∧
        (twoSegmentFile second).pVaddr 1 = 0x400034 + 256 * second.toNat ∧
      (twoSegmentFile second).pMemsz 0 = 0x34 ∧ (twoSegmentFile second).pMemsz 1 = 0x40 ∧
        (twoSegmentFile second).pFilesz 0 = 0x34 ∧ (twoSegmentFile second).pFilesz 1 = 0x40 ∧
          (twoSegmentFile second).pOffset 0 = 0 ∧ (twoSegmentFile second).pOffset 1 = 0x34 := by
  rcases hsecond with rfl | rfl <;> decide +kernel

/-- The segments of the file with two segments are disjoint. -/
theorem twoSegmentFile_disjoint (second : UInt8) (hsecond : second = 0 ∨ second = 0x10) :
    (twoSegmentFile second).Disjoint := by
  obtain ⟨hphnum, -, hfirst, hnext, hfirstSize, hnextSize, -⟩ :=
    twoSegmentFile_fields second hsecond
  have hbyte : second.toNat ≤ 0x10 := by rcases hsecond with rfl | rfl <;> decide
  have hindices {index : ℕ} (hload : (twoSegmentFile second).IsLoad index) :
      index = 0 ∨ index = 1 := by
    have hless := hload.1
    omega
  constructor
  · intro index hload
    rcases hindices hload with rfl | rfl <;> omega
  · intro one other hone hother hne
    rcases hindices hone with rfl | rfl <;> rcases hindices hother with rfl | rfl <;> omega

/-- Where the two segments share no page each byte is where it belongs. -/
theorem loadedRight_apart :
    (twoSegmentFile 0x10).Disjoint ∧
      (userElfRunArgv .plenty (twoSegmentFile 0x10)).Yields (.program 0x400000 0x400000 0x402000) ∧
        LoadedRight .plenty (twoSegmentFile 0x10) := by
  have hdisjoint := twoSegmentFile_disjoint 0x10 (.inr rfl)
  have hyields : (userElfRunArgv .plenty (twoSegmentFile 0x10)).Yields
      (.program 0x400000 0x400000 0x402000) := by
    decide +kernel
  refine ⟨hdisjoint, hyields, (loadedRight_iff hdisjoint hyields).mpr ?_⟩
  obtain ⟨hphnum, hsize, hfirst, hnext, -, -, hfirstSize, hnextSize, hfirstOffset, hnextOffset⟩ :=
    twoSegmentFile_fields 0x10 (.inr rfl)
  have hindices {index : ℕ} (hload : (twoSegmentFile 0x10).IsLoad index) :
      index = 0 ∨ index = 1 := by
    have hless := hload.1
    omega
  have hplace : (0x10 : UInt8).toNat = 16 := rfl
  refine ⟨fun index hload _ ↦ ?_, fun index hload _ ↦
    ?_, fun index address later hholds hless hcovers ↦ ?_⟩
  · rcases hindices hload with rfl | rfl <;> omega
  · simp only [userStackBase]
    rcases hindices hload with rfl | rfl <;> omega
  · have hlater : later = 1 := (hindices hcovers.1).resolve_left (by omega)
    have hindex : index = 0 := (hindices hholds.1).resolve_right (by omega)
    obtain ⟨-, hstart, -⟩ := hcovers
    obtain ⟨-, -, hend⟩ := hholds
    simp only [hlater, hindex, alignDown, pageSize] at hstart hend
    omega

/-- The second segment gets a new page in the place of the one that the file header has been copied
to, and so the first byte of the file is not where it belongs. -/
theorem not_loadedRight : ¬∀ environment image entry mapStart mapEnd, image.Disjoint →
    (userElfRunArgv environment image).Yields (.program entry mapStart mapEnd) →
      LoadedRight environment image := by
  intro hall
  have hyields : (userElfRunArgv .plenty (twoSegmentFile 0)).Yields
      (.program 0x400000 0x400000 0x401000) := by
    decide +kernel
  have hright :=
    hall .plenty (twoSegmentFile 0) _ _ _ (twoSegmentFile_disjoint 0 (.inl rfl)) hyields
  have hcontents := (hright.file 0 ⟨by decide +kernel, by decide +kernel, by decide +kernel⟩ 0
    (by decide +kernel)).2.2.2
  revert hcontents
  decide +kernel

end EynOS.Process.ElfLoader
