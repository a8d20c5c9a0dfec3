import EynOS.Process.ElfLoader
import Mathlib.Data.Nat.Find

/-!
# When the ELF loader stays inside the range it checked

`Confined` says what the range checks of the loader are for: whatever frames are to be had, a load
reads the buffer only below the number of bytes read, and every page and every byte of a segment
lies between `map_start` and `map_end`, inside the user's part of the address space. The sums of the
checks wrap at 32 bits, so this is not so for every file. `confined_iff` gives the exact condition
in terms of the fields of the file, and `not_confined` a file that is let through.
-/

namespace EynOS.Process.ElfLoader

open Foundation Traced

/-! ### Confinement -/

/-- The file is read where it is, and mapped and copied into the range that was checked. -/
def Access.Allowed (image : Image) : Access → Prop
  | .readFile offset length => offset + length ≤ image.size
  | .mapPage address => userCodeBase ≤ image.loadRange.mapStart ∧
      image.loadRange.mapStart ≤ address ∧ address + pageSize ≤ image.loadRange.mapEnd ∧
        image.loadRange.mapEnd ≤ userStackBase
  | .mapStackPage _ => True
  | .write address length => image.loadRange.mapStart ≤ address ∧
      address + length ≤ image.loadRange.mapEnd

/-- Whatever page tables and frames are to be had, a load touches only what it may. -/
def Confined (image : Image) : Prop :=
  ∀ environment, (userElfRunArgv environment image).Satisfies (Access.Allowed image)

/-! ### The condition on the fields -/

/-- The checks of the file header pass. -/
def Image.HeaderAccepted (image : Image) : Prop :=
  ehdrSize ≤ image.size ∧ image.word 0 = 0x464C457F ∧ image.half 4 = 0x0101 ∧ image.half 18 = 3 ∧
    image.ePhoff ≠ 0 ∧ phdrSize ≤ image.ePhentsize ∧ image.ePhnum ≠ 0 ∧
      u32 (image.ePhoff + image.ePhnum * image.ePhentsize) ≤ image.size

/-- A program header names an interpreter and passes the check on its extent. -/
def Image.IsInterp (image : Image) (index : ℕ) : Prop :=
  image.pType index = ptInterp ∧ u32 (image.pOffset index + image.pFilesz index) ≤ image.size

def Image.FirstInterp (image : Image) (index : ℕ) : Prop :=
  index < image.ePhnum ∧ image.IsInterp index ∧ ∀ earlier < index, ¬image.IsInterp earlier

/-- A program header describes a segment to load. -/
def Image.IsLoad (image : Image) (index : ℕ) : Prop :=
  index < image.ePhnum ∧ image.pType index = ptLoad ∧ image.pMemsz index ≠ 0

/-- The checks on the file bytes of a segment pass. -/
def Image.Accepts (image : Image) (index : ℕ) : Prop :=
  image.pFilesz index ≤ image.pMemsz index ∧
    u32 (image.pOffset index + image.pFilesz index) ≤ image.size

/-- The checks of the range of all segments pass. -/
def LoadRange.Accepted (range : LoadRange) : Prop :=
  ¬(range.loadCount = 0 ∨ range.minVaddr = 0xFFFFFFFF ∨ range.maxVaddr ≤ range.minVaddr) ∧
    ¬(range.mapStart < userCodeBase ∨ userStackBase ≤ range.mapEnd) ∧
    ¬(range.pages = 0 ∨ 16384 < range.pages)

/-- An address is not past the page in which some segment ends, as the 32-bit sum has it. -/
def Image.Reaches (image : Image) (address : ℕ) : Prop :=
  ∃ index, image.IsLoad index ∧
    address ≤ alignUp (u32 (image.pVaddr index + image.pMemsz index))

/-- The file bytes of a segment lie in the file and, in memory, not past the end of all segments,
and neither do the pages that are mapped for them. -/
def Image.SegmentFits (image : Image) (index : ℕ) : Prop :=
  (image.pFilesz index ≠ 0 → image.pOffset index + image.pFilesz index ≤ image.size ∧
    image.Reaches (image.pVaddr index + image.pFilesz index)) ∧
  (alignDown (image.pVaddr index) <
      alignUp (u32 (image.pVaddr index + image.pFilesz index)) →
    image.Reaches (alignUp (u32 (image.pVaddr index + image.pFilesz index))))

/-- The fields of a file whose headers are accepted do not mislead the loader. -/
structure Image.Fits (image : Image) : Prop where
  table : image.ePhoff + image.ePhnum * image.ePhentsize < 4294967296 ∨
    ∃ index, image.FirstInterp index ∧ image.interpPath index ≠ [] ∧
      image.ePhoff + index * image.ePhentsize + 20 ≤ image.size
  interp : ∀ index, image.FirstInterp index →
    image.pOffset index + min (image.pFilesz index) (interpPathSize - 1) ≤ image.size
  segments : (∀ index, image.FirstInterp index → image.interpPath index = []) →
    image.loadRange.Accepted →
      (∀ index, image.IsLoad index →
        u32 (image.pVaddr index + image.pMemsz index) ≤ 0xFFFFF000) ∧
      ∀ index, image.IsLoad index →
        (∀ other ≤ index, image.IsLoad other → image.Accepts other) → image.SegmentFits index

/-! ### Arithmetic of the fields -/

theorem Image.half_lt (image : Image) (offset : ℕ) : image.half offset < 65536 := by
  have hlow := (image.byte offset).toNat_lt
  have hhigh := (image.byte (offset + 1)).toNat_lt
  simp only [Image.half]
  omega

theorem Image.word_lt (image : Image) (offset : ℕ) : image.word offset < 4294967296 := by
  have hlow := image.half_lt offset
  have hhigh := image.half_lt (offset + 2)
  simp only [Image.word]
  omega

theorem alignDown_le (value : ℕ) : alignDown value ≤ value := Nat.div_mul_le_self value pageSize

theorem le_alignUp {value : ℕ} (hvalue : value ≤ 0xFFFFF000) : value ≤ alignUp value := by
  simp only [alignUp, pageSize]
  rw [u32_of_lt _ (by omega)]
  omega

theorem alignUp_mono {first second : ℕ} (hle : first ≤ second) (hsecond : second ≤ 0xFFFFF000) :
    alignUp first ≤ alignUp second := by
  simp only [alignUp, pageSize]
  rw [u32_of_lt _ (by omega), u32_of_lt _ (by omega)]
  omega

theorem alignUp_mod (value : ℕ) : alignUp value % pageSize = 0 := by
  simp [alignUp, pageSize]

theorem alignDown_mod (value : ℕ) : alignDown value % pageSize = 0 := by
  simp [alignDown, pageSize]

/-- As long as every program header up to one starts in the file, their pointers do not wrap. -/
theorem Image.phdr_eq {image : Image} {index : ℕ}
    (hinside : ∀ earlier ≤ index, image.phdr earlier + 4 ≤ image.size) :
    image.phdr index = image.ePhoff + index * image.ePhentsize := by
  have hsize := image.bounded
  have hstart : image.ePhoff < 4294967296 := image.word_lt 28
  have hentry : image.ePhentsize < 65536 := image.half_lt 42
  simp only [maxFileBytes] at hsize
  refine u32_of_lt _ ?_
  induction index with
  | zero => simpa using hstart
  | succ index ih =>
    have hprevious := ih fun earlier hle ↦ hinside earlier (by omega)
    have hbound := hinside index (by omega)
    rw [Image.phdr, u32_of_lt _ hprevious] at hbound
    rw [Nat.succ_mul]
    omega

/-- A program header table that does not wrap lies in the file. -/
theorem Image.phdr_inside {image : Image} (haccepted : image.HeaderAccepted)
    (htable : image.ePhoff + image.ePhnum * image.ePhentsize < 4294967296) {index : ℕ}
    (hindex : index < image.ePhnum) : image.phdr index + 32 ≤ image.size := by
  obtain ⟨-, -, -, -, -, hentry, -, hend⟩ := haccepted
  rw [u32_of_lt _ htable] at hend
  have hstep : (index + 1) * image.ePhentsize ≤ image.ePhnum * image.ePhentsize :=
    Nat.mul_le_mul_right _ hindex
  rw [Nat.succ_mul] at hstep
  simp only [phdrSize] at hentry
  rw [Image.phdr, u32_of_lt _ (by omega)]
  omega

/-! ### What each stage reads and yields -/

variable {image : Image} {environment : Environment}

@[simp] theorem satisfies_readWord (offset : ℕ) :
    Satisfies (Access.Allowed image) (readWord image offset) ↔ offset + 4 ≤ image.size :=
  satisfies_accessing _ _

@[simp] theorem satisfies_readHalf (offset : ℕ) :
    Satisfies (Access.Allowed image) (readHalf image offset) ↔ offset + 2 ≤ image.size :=
  satisfies_accessing _ _

@[simp] theorem yields_readWord (offset result : ℕ) :
    (readWord image offset).Yields result ↔ image.word offset = result :=
  yields_accessing _ _ _

@[simp] theorem yields_readHalf (offset result : ℕ) :
    (readHalf image offset).Yields result ↔ image.half offset = result :=
  yields_accessing _ _ _

/-- The fields of the file header are read only where the file is large enough. -/
theorem satisfies_checkHeader : Satisfies (Access.Allowed image) (checkHeader image) := by
  unfold checkHeader
  rw [satisfies_ite]
  refine ⟨fun _ ↦ satisfies_fail _, fun hlarge ↦ ?_⟩
  simp only [ehdrSize, not_lt] at hlarge
  simp only [satisfies_bind, satisfies_readWord, satisfies_readHalf, satisfies_ite, satisfies_fail,
    satisfies_pure, implies_true, and_true, true_and]
  refine ⟨by omega, fun _ _ _ ↦ ⟨by omega, fun _ _ ↦ ⟨by omega, fun _ _ _ ↦
    ⟨by omega, fun _ _ ↦ ⟨by omega, fun _ _ ↦ by omega⟩⟩⟩⟩⟩

theorem yields_checkHeader : (checkHeader image).Yields () ↔ image.HeaderAccepted := by
  unfold checkHeader
  simp only [yields_ite, yields_fail, and_false, false_or, yields_bind, yields_readWord,
    yields_readHalf, yields_pure, exists_eq_left', and_true, not_or, not_lt, not_not, ne_eq,
    Image.HeaderAccepted, Image.ePhoff, Image.ePhnum, Image.ePhentsize]
  tauto

/-- One turn of the search for an interpreter reads a field at a time. -/
theorem satisfies_interpEntry (index : ℕ) :
    Satisfies (Access.Allowed image) (interpEntry image index) ↔
      image.phdr index + 4 ≤ image.size ∧
        (image.pType index = ptInterp → image.phdr index + 20 ≤ image.size) ∧
        (image.IsInterp index →
          image.pOffset index + min (image.pFilesz index) (interpPathSize - 1) ≤ image.size) := by
  simp only [interpEntry, satisfies_bind, satisfies_readWord, yields_readWord, forall_eq',
    satisfies_ite, satisfies_pure, implies_true, true_and, and_true, not_not, not_lt, ne_eq,
    satisfies_accessing, Access.Allowed, Image.IsInterp, Image.pType, Image.pOffset,
    Image.pFilesz]
  constructor
  · rintro ⟨htype, hrest⟩
    exact ⟨htype, fun hinterp ↦ by have := (hrest hinterp).2.1; omega,
      fun hinterp ↦ (hrest hinterp.1).2.2 hinterp.2⟩
  · rintro ⟨htype, hfields, hpath⟩
    exact ⟨htype, fun hinterp ↦ ⟨by have := hfields hinterp; omega, hfields hinterp,
      fun hextent ↦ hpath ⟨hinterp, hextent⟩⟩⟩

instance (image : Image) (index : ℕ) : Decidable (image.IsInterp index) :=
  inferInstanceAs (Decidable (_ ∧ _))

/-- What one turn of the search finds. -/
theorem yields_interpEntry (index : ℕ) :
    (interpEntry image index).Yields
      (if image.IsInterp index then some (image.interpPath index) else none) := by
  simp only [interpEntry, yields_bind, yields_readWord, exists_eq_left', yields_ite, yields_pure,
    yields_accessing, Image.IsInterp, Image.pType, Image.pOffset, Image.pFilesz]
  by_cases htype : image.word (image.phdr index) = ptInterp
  · by_cases hextent : u32 (image.word (image.phdr index + 4) +
        image.word (image.phdr index + 16)) ≤ image.size
    · simp [htype, hextent]
    · simp [htype, hextent, not_le.mp hextent]
  · simp [htype]

/-- The search for an interpreter reads up to the first one. -/
theorem satisfies_findInterp :
    Satisfies (Access.Allowed image) (findInterp image) ↔
      ∀ index < image.ePhnum, (∀ earlier < index, ¬image.IsInterp earlier) →
        image.phdr index + 4 ≤ image.size ∧
          (image.pType index = ptInterp → image.phdr index + 20 ≤ image.size) ∧
          (image.IsInterp index →
            image.pOffset index + min (image.pFilesz index) (interpPathSize - 1) ≤
              image.size) := by
  have hmisses (index : ℕ) :
      (interpEntry image index).Yields none ↔ ¬image.IsInterp index := by
    have hfinds : (interpEntry image index).Yields _ := yields_interpEntry index
    constructor
    · intro hnone hinterp
      rw [if_pos hinterp] at hfinds
      exact absurd (hnone.unique hfinds) (by simp)
    · intro hinterp
      rwa [if_neg hinterp] at hfinds
  unfold findInterp
  rw [satisfies_bind, satisfies_search satisfies_interpEntry hmisses]
  simp

/-- The path that is found is that of the first interpreter, and empty where there is none. -/
theorem yields_findInterp (path : List UInt8) :
    (findInterp image).Yields path ↔
      (∃ index, image.FirstInterp index ∧ path = image.interpPath index) ∨
        (path = [] ∧ ∀ index < image.ePhnum, ¬image.IsInterp index) := by
  unfold findInterp
  simp only [yields_bind, yields_search yields_interpEntry, yields_pure, Nat.zero_add,
    ite_eq_right_iff, reduceCtorEq, imp_false]
  constructor
  · rintro ⟨found, hfound | ⟨rfl, hnone⟩, rfl⟩
    · obtain ⟨index, hindex, hearlier, hsome, rfl⟩ := hfound
      by_cases hinterp : image.IsInterp index
      · exact Or.inl ⟨index, ⟨hindex, hinterp, hearlier⟩, by simp [hinterp]⟩
      · simp [hinterp] at hsome
    · exact Or.inr ⟨rfl, hnone⟩
  · rintro (⟨index, ⟨hindex, hinterp, hearlier⟩, rfl⟩ | ⟨rfl, hnone⟩)
    · exact ⟨some (image.interpPath index), Or.inl ⟨index, hindex, hearlier, rfl, if_pos hinterp⟩,
        rfl⟩
    · exact ⟨none, Or.inr ⟨rfl, hnone⟩, rfl⟩

/-- One turn of the loop over the range reads a field at a time. -/
theorem satisfies_rangeEntry (index : ℕ) (range : LoadRange) :
    Satisfies (Access.Allowed image) (rangeEntry image index range) ↔
      image.phdr index + 4 ≤ image.size ∧
        (image.pType index = ptLoad → image.phdr index + 24 ≤ image.size) := by
  simp only [rangeEntry, satisfies_bind, satisfies_readWord, yields_readWord, forall_eq',
    satisfies_ite, satisfies_pure, implies_true, true_and, and_true, not_not, ne_eq, Image.pType]
  constructor
  · rintro ⟨htype, hrest⟩
    exact ⟨htype, fun hload ↦ (hrest hload).1⟩
  · rintro ⟨htype, hfields⟩
    exact ⟨htype, fun hload ↦ ⟨hfields hload, fun _ ↦ by have := hfields hload; omega⟩⟩

theorem yields_rangeEntry (index : ℕ) (range : LoadRange) :
    (rangeEntry image index range).Yields (addSegment image range index) := by
  simp only [rangeEntry, yields_bind, yields_readWord, exists_eq_left', yields_ite, yields_pure,
    addSegment, Image.pType, Image.pMemsz]
  by_cases htype : image.word (image.phdr index) = ptLoad
  · by_cases hmemsz : image.word (image.phdr index + 20) = 0
    · simp [htype, hmemsz]
    · simp [htype, hmemsz]
  · simp [htype]

/-- The loop over the range reads every program header and yields the range of all of them. -/
theorem satisfies_rangeLoop :
    Satisfies (Access.Allowed image) (loop (rangeEntry image) image.ePhnum 0 emptyRange) ↔
      ∀ index < image.ePhnum, image.phdr index + 4 ≤ image.size ∧
        (image.pType index = ptLoad → image.phdr index + 24 ≤ image.size) := by
  have hreaches (index : ℕ) (range : LoadRange) :
      (∃ next, (rangeEntry image index range).Yields next) ↔ True :=
    iff_true_intro ⟨_, yields_rangeEntry index range⟩
  rw [satisfies_loop satisfies_rangeEntry hreaches]
  simp

theorem yields_rangeLoop (range : LoadRange) :
    (loop (rangeEntry image) image.ePhnum 0 emptyRange).Yields range ↔
      range = image.loadRange := by
  have hbody (index : ℕ) (range : LoadRange) :
      (rangeEntry image index range).Yields (addSegment image range index) :=
    yields_rangeEntry index range
  have hfold := yields_loop_foldl hbody image.ePhnum 0 emptyRange
  rw [← List.range_eq_range'] at hfold
  exact ⟨fun hrange ↦ hrange.unique hfold, fun hrange ↦ hrange ▸ hfold⟩

/-! ### The range -/

/-- The range holds the start and the wrapped end of every segment, and the largest end is that of
some segment. -/
theorem loadRange_spec (image : Image) :
    (∀ index, image.IsLoad index → image.loadRange.minVaddr ≤ image.pVaddr index ∧
      u32 (image.pVaddr index + image.pMemsz index) ≤ image.loadRange.maxVaddr) ∧
    (image.loadRange.maxVaddr = 0 ∨ ∃ index, image.IsLoad index ∧
      image.loadRange.maxVaddr = u32 (image.pVaddr index + image.pMemsz index)) := by
  have hearlier (count : ℕ) :
      let range := (List.range count).foldl (addSegment image) emptyRange
      (∀ index < count, image.pType index = ptLoad → image.pMemsz index ≠ 0 →
        range.minVaddr ≤ image.pVaddr index ∧
          u32 (image.pVaddr index + image.pMemsz index) ≤ range.maxVaddr) ∧
      (range.maxVaddr = 0 ∨ ∃ index < count, image.pType index = ptLoad ∧
        image.pMemsz index ≠ 0 ∧
          range.maxVaddr = u32 (image.pVaddr index + image.pMemsz index)) := by
    induction count with
    | zero => exact ⟨fun index hindex ↦ absurd hindex (Nat.not_lt_zero index), Or.inl rfl⟩
    | succ count ih =>
      simp only [List.range_succ, List.foldl_append, List.foldl_cons, List.foldl_nil]
      set range := (List.range count).foldl (addSegment image) emptyRange
      obtain ⟨hbounds, hattained⟩ := ih
      have hkept : range.maxVaddr = 0 ∨ ∃ index < count + 1, image.pType index = ptLoad ∧
          image.pMemsz index ≠ 0 ∧
            range.maxVaddr = u32 (image.pVaddr index + image.pMemsz index) :=
        hattained.imp_right fun ⟨index, hindex, hrest⟩ ↦ ⟨index, by omega, hrest⟩
      by_cases hload : image.pType count = ptLoad ∧ image.pMemsz count ≠ 0
      · simp only [addSegment, hload.1, ne_eq, not_true_eq_false, if_false, hload.2]
        refine ⟨fun index hindex htype hmemsz ↦ ?_, ?_⟩
        · by_cases hlast : index = count
          · subst hlast
            split_ifs <;> omega
          · have hold := hbounds index (by omega) htype hmemsz
            split_ifs <;> omega
        · split_ifs with hmax
          · exact Or.inr ⟨count, by omega, hload.1, hload.2, rfl⟩
          · exact hkept
      · have hsame : addSegment image range count = range := by
          unfold addSegment
          by_cases htype : image.pType count = ptLoad
          · have hmemsz : image.pMemsz count = 0 := by
              by_contra hmemsz
              exact hload ⟨htype, hmemsz⟩
            rw [if_neg (not_not.mpr htype), if_pos hmemsz]
          · rw [if_pos htype]
        rw [hsame]
        refine ⟨fun index hindex htype hmemsz ↦ ?_, hkept⟩
        have hearlier : index ≠ count := fun hlast ↦ hload (hlast ▸ ⟨htype, hmemsz⟩)
        exact hbounds index (by omega) htype hmemsz
  obtain ⟨hbounds, hattained⟩ := hearlier image.ePhnum
  exact ⟨fun index hload ↦ hbounds index hload.1 hload.2.1 hload.2.2,
    hattained.imp_right fun ⟨index, hindex, htype, hmemsz, hmax⟩ ↦
      ⟨index, ⟨hindex, htype, hmemsz⟩, hmax⟩⟩

/-- The largest end is not in the last page exactly when no segment ends there. -/
theorem maxVaddr_le_iff (image : Image) :
    image.loadRange.maxVaddr ≤ 0xFFFFF000 ↔
      ∀ index, image.IsLoad index →
        u32 (image.pVaddr index + image.pMemsz index) ≤ 0xFFFFF000 := by
  obtain ⟨hbounds, hattained⟩ := loadRange_spec image
  refine ⟨fun hmax index hload ↦ (hbounds index hload).2.trans hmax, fun hall ↦ ?_⟩
  rcases hattained with hzero | ⟨index, hload, hmax⟩
  · omega
  · exact hmax ▸ hall index hload

/-- Where the largest end does not wrap, what segments reach is what the range ends with. -/
theorem reaches_iff (hmax : image.loadRange.maxVaddr ≤ 0xFFFFF000) {index : ℕ}
    (hload : image.IsLoad index) (address : ℕ) :
    image.Reaches address ↔ address ≤ image.loadRange.mapEnd := by
  obtain ⟨hbounds, hattained⟩ := loadRange_spec image
  constructor
  · rintro ⟨other, hother, haddress⟩
    exact haddress.trans (alignUp_mono (hbounds other hother).2 hmax)
  · intro haddress
    rcases hattained with hzero | ⟨other, hother, hlargest⟩
    · refine ⟨index, hload, haddress.trans ?_⟩
      rw [LoadRange.mapEnd, hzero]
      exact alignUp_mono (Nat.zero_le _)
        ((maxVaddr_le_iff image).mp hmax index hload)
    · rw [LoadRange.mapEnd, hlargest] at haddress
      exact ⟨other, hother, haddress⟩

/-- Of an accepted range: it starts and ends with pages, and is what its number of pages covers,
unless its end wraps to zero. -/
theorem LoadRange.Accepted.bounds {range : LoadRange} (haccepted : range.Accepted)
    (hmax : range.maxVaddr ≤ 0xFFFFF000) :
    userCodeBase ≤ range.mapStart ∧ range.mapEnd ≤ userStackBase ∧
      range.mapEnd = range.mapStart + range.pages * pageSize := by
  obtain ⟨hloads, hrange, hpages⟩ := haccepted
  rw [not_or, not_or] at hloads
  rw [not_or, not_lt, not_le] at hrange
  have hup : range.maxVaddr ≤ range.mapEnd := le_alignUp hmax
  have hdown : range.mapStart ≤ range.minVaddr := alignDown_le _
  have hstart : range.mapStart % 4096 = 0 := alignDown_mod _
  have hend : range.mapEnd % 4096 = 0 := alignUp_mod _
  refine ⟨hrange.1, hrange.2.le, ?_⟩
  have hsize : u32 (range.mapEnd + 4294967296 - range.mapStart) =
      range.mapEnd - range.mapStart := by
    have hbelow := hrange.2
    simp only [userStackBase] at hbelow
    rw [u32, show range.mapEnd + 4294967296 - range.mapStart =
      range.mapEnd - range.mapStart + 4294967296 by omega, Nat.add_mod_right,
      Nat.mod_eq_of_lt (by omega)]
  rw [LoadRange.pages, hsize]
  simp only [pageSize]
  omega

theorem mapEnd_eq_zero {range : LoadRange} (hlt : range.maxVaddr < 4294967296)
    (hlarge : ¬range.maxVaddr ≤ 0xFFFFF000) : range.mapEnd = 0 := by
  simp only [LoadRange.mapEnd, alignUp, pageSize]
  rw [u32, show range.maxVaddr + (4096 - 1) = range.maxVaddr - 0xFFFFF001 + 4294967296 by omega,
    Nat.add_mod_right, Nat.mod_eq_of_lt (by omega), Nat.div_eq_of_lt (by omega), Nat.zero_mul]

theorem maxVaddr_le_of_page {range : LoadRange} (hlt : range.maxVaddr < 4294967296)
    (hpage : range.mapStart + pageSize ≤ range.mapEnd) : range.maxVaddr ≤ 0xFFFFF000 := by
  by_contra hlarge
  have hzero := mapEnd_eq_zero hlt hlarge
  simp only [pageSize] at hpage
  omega

theorem maxVaddr_lt (image : Image) : image.loadRange.maxVaddr < 4294967296 := by
  rcases (loadRange_spec image).2 with hzero | ⟨index, -, hmax⟩
  · omega
  · rw [hmax]
    exact u32_lt _

/-! ### Segments -/

/-- The pages of an aligned stretch are mapped in the range exactly when the stretch is. -/
theorem allowed_pages_iff {start stop : ℕ} (hstart : start % pageSize = 0)
    (hstop : stop % pageSize = 0) :
    (∀ page < (stop - start) / pageSize,
        (Access.mapPage (start + page * pageSize)).Allowed image) ↔
      (start < stop → userCodeBase ≤ image.loadRange.mapStart ∧
        image.loadRange.mapStart ≤ start ∧ stop ≤ image.loadRange.mapEnd ∧
          image.loadRange.mapEnd ≤ userStackBase) := by
  simp only [Access.Allowed, pageSize] at *
  constructor
  · intro hall hlt
    obtain ⟨hbase, hlow, -, htop⟩ := hall 0 (by omega)
    obtain ⟨-, -, hlast, -⟩ := hall ((stop - start) / 4096 - 1) (by omega)
    exact ⟨hbase, by omega, by omega, htop⟩
  · intro hrange page hpage
    obtain ⟨hbase, hlow, hhigh, htop⟩ := hrange (by omega)
    exact ⟨hbase, by omega, by omega, htop⟩

/-- What loading one segment touches, with its program header in the file: the pages up to the first
one for which there is no frame, and its bytes where there are frames for all. -/
theorem satisfies_loadSegment {index : ℕ} (hinside : image.phdr index + 32 ≤ image.size) :
    Satisfies (Access.Allowed image) (loadSegment environment image index) ↔
      (image.pType index = ptLoad → image.pMemsz index ≠ 0 → image.Accepts index →
        let pageStart := alignDown (image.pVaddr index)
        let pages :=
          (alignUp (u32 (image.pVaddr index + image.pFilesz index)) - pageStart) / pageSize
        (∀ page < pages, (∀ earlier < page, environment.segmentFrame index earlier = true) →
          environment.segmentFrame index page = true →
            (Access.mapPage (pageStart + page * pageSize)).Allowed image) ∧
        ((∀ page < pages, environment.segmentFrame index page = true) → image.pFilesz index ≠ 0 →
          (Access.readFile (image.pOffset index) (image.pFilesz index)).Allowed image ∧
            (Access.write (image.pVaddr index) (image.pFilesz index)).Allowed image)) := by
  have hgood (page : ℕ) (_ : Unit) : Satisfies (Access.Allowed image)
      (mapSegmentPage environment index (alignDown (image.pVaddr index)) page) ↔
        (environment.segmentFrame index page = true →
          (Access.mapPage (alignDown (image.pVaddr index) + page * pageSize)).Allowed image) := by
    simp [mapSegmentPage]
  have hreaches (page : ℕ) (_ : Unit) : (∃ next,
      (mapSegmentPage environment index (alignDown (image.pVaddr index)) page).Yields next) ↔
        environment.segmentFrame index page = true := by
    simp [mapSegmentPage]
  have hpages (pages : ℕ) := satisfies_loop hgood hreaches pages 0 ()
  have hmapped (pages : ℕ) := yields_loop hreaches pages 0 ()
  simp only [Nat.zero_add] at hpages hmapped
  simp only [loadSegment, satisfies_bind, satisfies_readWord, yields_readWord, forall_eq',
    satisfies_ite, satisfies_pure, satisfies_fail, implies_true, true_and, not_not,
    not_lt, ne_eq, satisfies_access, yields_access]
  constructor
  · rintro ⟨-, hrest⟩ htype hmemsz ⟨hfits, hextent⟩
    obtain ⟨-, hrest⟩ := hrest htype
    obtain ⟨-, hrest⟩ := hrest hmemsz
    obtain ⟨-, hrest⟩ := hrest hfits
    obtain ⟨-, hloop, hcopy⟩ := hrest hextent
    refine ⟨(hpages _).mp hloop, fun hframes hfilesz ↦ ?_⟩
    obtain ⟨next, hnext⟩ := (hmapped _).mpr hframes
    obtain ⟨hread, hwrite⟩ := hcopy next hnext hfilesz
    exact ⟨hread, hwrite () trivial⟩
  · intro hall
    refine ⟨by omega, fun htype ↦ ⟨by omega, fun hmemsz ↦ ⟨by omega, fun hfits ↦ ⟨by omega,
      fun hextent ↦ ⟨by omega, ?_, fun next hnext hfilesz ↦ ?_⟩⟩⟩⟩⟩
    · exact (hpages _).mpr (hall htype hmemsz ⟨hfits, hextent⟩).1
    · have hcopy := (hall htype hmemsz ⟨hfits, hextent⟩).2 ((hmapped _).mp ⟨next, hnext⟩) hfilesz
      exact ⟨hcopy.1, fun _ _ ↦ hcopy.2⟩

/-- A segment is passed where it is no segment to load, or its checks pass and there are frames. -/
theorem yields_loadSegment (index : ℕ) :
    (∃ next, (loadSegment environment image index).Yields next) ↔
      (image.pType index = ptLoad → image.pMemsz index ≠ 0 → image.Accepts index ∧
        ∀ page < (alignUp (u32 (image.pVaddr index + image.pFilesz index)) -
            alignDown (image.pVaddr index)) / pageSize,
          environment.segmentFrame index page = true) := by
  have hreaches (page : ℕ) (_ : Unit) : (∃ next,
      (mapSegmentPage environment index (alignDown (image.pVaddr index)) page).Yields next) ↔
        environment.segmentFrame index page = true := by
    simp [mapSegmentPage]
  have hmapped (pages : ℕ) := yields_loop hreaches pages 0 ()
  simp only [Nat.zero_add] at hmapped
  rw [← hmapped]
  simp only [loadSegment, yields_bind, yields_readWord, exists_eq_left', yields_ite, yields_pure,
    yields_fail, and_false, false_or, yields_access, Image.Accepts, Image.pType, Image.pMemsz,
    Image.pFilesz, Image.pOffset, Image.pVaddr, not_lt]
  by_cases htype : image.word (image.phdr index) = ptLoad
  · by_cases hmemsz : image.word (image.phdr index + 20) = 0
    · simp [htype, hmemsz]
    · simp [htype, hmemsz, and_assoc, em]
  · simp [htype]

/-! ### The exact condition -/

def Environment.plenty : Environment where
  pageTable _ := true
  stackFrame _ := true
  segmentFrame _ _ := true

theorem exists_firstInterp {index : ℕ} (hindex : index < image.ePhnum)
    (hinterp : image.IsInterp index) : ∃ first, image.FirstInterp first := by
  have hexists : ∃ index, image.IsInterp index := ⟨index, hinterp⟩
  exact ⟨Nat.find hexists, lt_of_le_of_lt (Nat.find_min' hexists hinterp) hindex,
    Nat.find_spec hexists, fun _ hearlier ↦ Nat.find_min hexists hearlier⟩

theorem Image.FirstInterp.unique {first second : ℕ} (hfirst : image.FirstInterp first)
    (hsecond : image.FirstInterp second) : first = second := by
  rcases lt_trichotomy first second with hlt | heq | hgt
  · exact absurd hfirst.2.1 (hsecond.2.2 first hlt)
  · exact heq
  · exact absurd hsecond.2.1 (hfirst.2.2 second hgt)

/-- A file whose header is accepted is searched for an interpreter, and loaded where the path is
empty. -/
theorem satisfies_userElfRunArgv (haccepted : image.HeaderAccepted) :
    Satisfies (Access.Allowed image) (userElfRunArgv environment image) ↔
      Satisfies (Access.Allowed image) (findInterp image) ∧
        ((∀ index, image.FirstInterp index → image.interpPath index = []) →
          Satisfies (Access.Allowed image) (loadProgram environment image)) := by
  simp only [userElfRunArgv, satisfies_bind, satisfies_checkHeader, true_and, satisfies_ite,
    satisfies_pure, implies_true, ne_eq, not_not]
  constructor
  · intro hall
    obtain ⟨hsearch, hprogram⟩ := hall () (yields_checkHeader.mpr haccepted)
    refine ⟨hsearch, fun hempty ↦ hprogram [] ((yields_findInterp []).mpr ?_) rfl⟩
    by_cases hexists : ∃ index, image.FirstInterp index
    · obtain ⟨index, hfirst⟩ := hexists
      exact Or.inl ⟨index, hfirst, (hempty index hfirst).symm⟩
    · exact Or.inr ⟨rfl, fun index hindex hinterp ↦ hexists (exists_firstInterp hindex hinterp)⟩
  · rintro ⟨hsearch, hprogram⟩ _ -
    refine ⟨hsearch, fun path hpath hempty ↦ hprogram fun index hfirst ↦ ?_⟩
    rcases (yields_findInterp path).mp hpath with ⟨other, hother, hsame⟩ | ⟨-, hnone⟩
    · rw [hfirst.unique hother, ← hsame, hempty]
    · exact absurd hfirst.2.1 (hnone index hfirst.1)

/-- What loading a program touches: every program header, and where the range is accepted the pages
of the range and then the segments, each as far as there are frames. -/
theorem satisfies_loadProgram :
    Satisfies (Access.Allowed image) (loadProgram environment image) ↔
      (∀ index < image.ePhnum, image.phdr index + 4 ≤ image.size ∧
        (image.pType index = ptLoad → image.phdr index + 24 ≤ image.size)) ∧
      (image.loadRange.Accepted →
        (∀ page < image.loadRange.pages,
          (∀ earlier < page, environment.pageTable earlier = true) →
            environment.pageTable page = true →
              (Access.mapPage (image.loadRange.mapStart + page * pageSize)).Allowed image) ∧
        ((∀ page < image.loadRange.pages, environment.pageTable page = true) →
          (∀ page < initialStackPages, environment.stackFrame page = true) →
            (∀ index < image.ePhnum,
              (∀ earlier < index,
                ∃ next, (loadSegment environment image earlier).Yields next) →
              Satisfies (Access.Allowed image) (loadSegment environment image index)) ∧
            ((∀ index < image.ePhnum,
              ∃ next, (loadSegment environment image index).Yields next) →
                24 + 4 ≤ image.size))) := by
  have hpageGood (page : ℕ) (_ : Unit) : Satisfies (Access.Allowed image)
      (createPte environment image.loadRange.mapStart page) ↔
        (environment.pageTable page = true →
          (Access.mapPage (image.loadRange.mapStart + page * pageSize)).Allowed image) := by
    simp [createPte]
  have hpageReaches (page : ℕ) (_ : Unit) : (∃ next,
      (createPte environment image.loadRange.mapStart page).Yields next) ↔
        environment.pageTable page = true := by
    simp [createPte]
  have hstackGood (page : ℕ) (_ : Unit) : Satisfies (Access.Allowed image)
      (mapStack environment page) ↔ True := by
    simp [mapStack, Access.Allowed]
  have hstackReaches (page : ℕ) (_ : Unit) : (∃ next,
      (mapStack environment page).Yields next) ↔ environment.stackFrame page = true := by
    simp [mapStack]
  have hpages := satisfies_loop hpageGood hpageReaches image.loadRange.pages 0 ()
  have hmapped := yields_loop hpageReaches image.loadRange.pages 0 ()
  have hstack := satisfies_loop hstackGood hstackReaches initialStackPages 0 ()
  have hstackMapped := yields_loop hstackReaches initialStackPages 0 ()
  have hsegmentGood (index : ℕ) (_ : Unit) :
      Satisfies (Access.Allowed image) (loadSegment environment image index) ↔
        Satisfies (Access.Allowed image) (loadSegment environment image index) := Iff.rfl
  have hsegmentReaches (index : ℕ) (_ : Unit) :
      (∃ next, (loadSegment environment image index).Yields next) ↔
        ∃ next, (loadSegment environment image index).Yields next := Iff.rfl
  have hsegments := satisfies_loop hsegmentGood hsegmentReaches image.ePhnum 0 ()
  have hloaded := yields_loop hsegmentReaches image.ePhnum 0 ()
  simp only [Nat.zero_add] at hpages hmapped hstack hstackMapped hsegments hloaded
  rw [← hpages, ← hsegments, ← hmapped, ← hstackMapped, ← hloaded]
  simp only [loadProgram, satisfies_bind, satisfies_rangeLoop, yields_rangeLoop, forall_eq,
    satisfies_ite, satisfies_fail, implies_true, true_and, satisfies_readWord, satisfies_pure,
    LoadRange.Accepted, hstack, forall_exists_index, and_imp, and_true]

/-- A load of a file whose program headers are all read has a table that does not wrap. -/
theorem table_of_headers (haccepted : image.HeaderAccepted)
    (hheaders : ∀ index < image.ePhnum, image.phdr index + 4 ≤ image.size) :
    image.ePhoff + image.ePhnum * image.ePhentsize < 4294967296 := by
  obtain ⟨-, -, -, -, -, -, hsome, -⟩ := haccepted
  have hsize := image.bounded
  have hentry : image.ePhentsize < 65536 := image.half_lt 42
  obtain ⟨last, hlast⟩ : ∃ last, image.ePhnum = last + 1 := ⟨image.ePhnum - 1, by omega⟩
  have hexact : image.phdr last = image.ePhoff + last * image.ePhentsize :=
    Image.phdr_eq fun earlier hle ↦ hheaders earlier (by omega)
  have hinside := hheaders last (by omega)
  simp only [maxFileBytes] at hsize
  rw [hlast, Nat.succ_mul]
  omega

/-- A file that is confined where everything is to be had fits. -/
theorem fits_of_plenty (haccepted : image.HeaderAccepted)
    (hconfined : Satisfies (Access.Allowed image) (userElfRunArgv .plenty image)) : image.Fits := by
  obtain ⟨hsearch, hprogram⟩ := (satisfies_userElfRunArgv haccepted).mp hconfined
  rw [satisfies_findInterp] at hsearch
  have htable (hempty : ∀ index, image.FirstInterp index → image.interpPath index = []) :
      image.ePhoff + image.ePhnum * image.ePhentsize < 4294967296 :=
    table_of_headers haccepted fun index hindex ↦
      ((satisfies_loadProgram.mp (hprogram hempty)).1 index hindex).1
  refine ⟨?_, fun index hfirst ↦ (hsearch index hfirst.1 hfirst.2.2).2.2 hfirst.2.1,
    fun hempty hrange ↦ ?_⟩
  · by_cases hempty : ∀ index, image.FirstInterp index → image.interpPath index = []
    · exact Or.inl (htable hempty)
    · push Not at hempty
      obtain ⟨index, hfirst, hpath⟩ := hempty
      refine Or.inr ⟨index, hfirst, hpath, ?_⟩
      have hexact : image.phdr index = image.ePhoff + index * image.ePhentsize := by
        refine Image.phdr_eq fun earlier hle ↦ (hsearch earlier ?_ fun other hother ↦ ?_).1
        · exact lt_of_le_of_lt hle hfirst.1
        · exact hfirst.2.2 other (lt_of_lt_of_le hother hle)
      rw [← hexact]
      exact (hsearch index hfirst.1 hfirst.2.2).2.1 hfirst.2.1.1
  · obtain ⟨-, hloaded⟩ := satisfies_loadProgram.mp (hprogram hempty)
    obtain ⟨hpages, hrest⟩ := hloaded hrange
    obtain ⟨hsegments, -⟩ := hrest (fun _ _ ↦ rfl) fun _ _ ↦ rfl
    have hfirstPage := hpages 0 (Nat.pos_of_ne_zero fun hzero ↦ hrange.2.2 (Or.inl hzero))
      (fun _ _ ↦ rfl) rfl
    rw [Nat.zero_mul, Nat.add_zero] at hfirstPage
    have hmax := maxVaddr_le_of_page (maxVaddr_lt image) hfirstPage.2.2.1
    refine ⟨(maxVaddr_le_iff image).mp hmax, fun index hload hearlier ↦ ?_⟩
    have hsatisfied := hsegments index hload.1 fun earlier hless ↦ by
      refine (yields_loadSegment earlier).mpr fun htype hmemsz ↦ ⟨?_, fun _ _ ↦ rfl⟩
      exact hearlier earlier hless.le ⟨hless.trans hload.1, htype, hmemsz⟩
    obtain ⟨hmapped, hcopied⟩ :=
      (satisfies_loadSegment (Image.phdr_inside haccepted (htable hempty) hload.1)).mp hsatisfied
        hload.2.1 hload.2.2 (hearlier index (le_refl index) hload)
    constructor
    · intro hfilesz
      obtain ⟨hread, hwrite⟩ := hcopied (fun _ _ ↦ rfl) hfilesz
      exact ⟨hread, (reaches_iff hmax hload _).mpr hwrite.2⟩
    · intro hlt
      have hall := (allowed_pages_iff (alignDown_mod _) (alignUp_mod _)).mp
        (fun page hpage ↦ hmapped page hpage (fun _ _ ↦ rfl) rfl) hlt
      exact (reaches_iff hmax hload _).mpr hall.2.2.1

/-- A segment that fits is loaded inside the range, as far as there are frames. -/
theorem satisfies_loadSegment_of_fits {index : ℕ} (hinside : image.phdr index + 32 ≤ image.size)
    (hmax : image.loadRange.maxVaddr ≤ 0xFFFFF000) (hrange : image.loadRange.Accepted)
    (hload : image.IsLoad index) (hfits : image.SegmentFits index) :
    Satisfies (Access.Allowed image) (loadSegment environment image index) := by
  obtain ⟨hbase, htop, -⟩ := hrange.bounds hmax
  have hmin := ((loadRange_spec image).1 index hload).1
  have hstart : image.loadRange.mapStart ≤ alignDown (image.pVaddr index) :=
    Nat.mul_le_mul_right _ (Nat.div_le_div_right hmin)
  refine (satisfies_loadSegment hinside).mpr fun _ _ _ ↦ ⟨fun page hpage _ _ ↦ ?_,
    fun _ hfilesz ↦ ?_⟩
  · refine (allowed_pages_iff (alignDown_mod _) (alignUp_mod _)).mpr (fun hlt ↦ ?_) page hpage
    exact ⟨hbase, hstart, (reaches_iff hmax hload _).mp (hfits.2 hlt), htop⟩
  · obtain ⟨hread, hreaches⟩ := hfits.1 hfilesz
    exact ⟨hread, hstart.trans (alignDown_le _), (reaches_iff hmax hload _).mp hreaches⟩

/-- A file that fits is confined, whatever is to be had. -/
theorem satisfies_of_fits (haccepted : image.HeaderAccepted) (hfits : image.Fits) :
    Satisfies (Access.Allowed image) (userElfRunArgv environment image) := by
  refine (satisfies_userElfRunArgv haccepted).mpr ⟨?_, fun hempty ↦ ?_⟩
  · refine satisfies_findInterp.mpr fun index hindex hearlier ↦ ?_
    have hinside : image.phdr index + 20 ≤ image.size := by
      rcases hfits.table with htable | ⟨first, hfirst, -, hend⟩
      · have := Image.phdr_inside haccepted htable hindex
        omega
      · have hle : index ≤ first := by
          by_contra hgt
          exact hearlier first (not_le.mp hgt) hfirst.2.1
        have hstep : index * image.ePhentsize ≤ first * image.ePhentsize :=
          Nat.mul_le_mul_right _ hle
        have hsize := image.bounded
        simp only [maxFileBytes] at hsize
        rw [Image.phdr, u32_of_lt _ (by omega)]
        omega
    exact ⟨by omega, fun _ ↦ hinside, fun hinterp ↦ hfits.interp index ⟨hindex, hinterp, hearlier⟩⟩
  · have htable : image.ePhoff + image.ePhnum * image.ePhentsize < 4294967296 := by
      rcases hfits.table with htable | ⟨first, hfirst, hpath, -⟩
      · exact htable
      · exact absurd (hempty first hfirst) hpath
    have hinside {index : ℕ} (hindex : index < image.ePhnum) :=
      Image.phdr_inside haccepted htable hindex
    refine satisfies_loadProgram.mpr ⟨fun index hindex ↦ ?_, fun hrange ↦ ?_⟩
    · have := hinside hindex
      exact ⟨by omega, fun _ ↦ by omega⟩
    · obtain ⟨hends, hsegments⟩ := hfits.segments hempty hrange
      have hmax := (maxVaddr_le_iff image).mpr hends
      obtain ⟨hbase, htop, hcovered⟩ := hrange.bounds hmax
      refine ⟨fun page hpage _ _ ↦ ⟨hbase, Nat.le_add_right _ _, ?_, htop⟩, fun _ _ ↦
        ⟨fun index hindex hearlier ↦ ?_, fun _ ↦ ?_⟩⟩
      · rw [hcovered, Nat.add_assoc, ← Nat.succ_mul]
        exact Nat.add_le_add_left (Nat.mul_le_mul_right _ hpage) _
      · by_cases hload : image.IsLoad index ∧ image.Accepts index
        · refine satisfies_loadSegment_of_fits (hinside hindex) hmax hrange hload.1
            (hsegments index hload.1 fun other hle hother ↦ ?_)
          rcases Nat.lt_or_eq_of_le hle with hless | heq
          · exact ((yields_loadSegment other).mp (hearlier other hless) hother.2.1 hother.2.2).1
          · exact heq ▸ hload.2
        · exact (satisfies_loadSegment (hinside hindex)).mpr fun htype hmemsz haccepts ↦
            absurd ⟨⟨hindex, htype, hmemsz⟩, haccepts⟩ hload
      · have hlarge : 52 ≤ image.size := haccepted.1
        omega

/-- The loader stays inside the range it checked exactly when the fields of the file fit, or its
header is not accepted. -/
theorem confined_iff (image : Image) : Confined image ↔ (image.HeaderAccepted → image.Fits) := by
  refine ⟨fun hconfined haccepted ↦ fits_of_plenty haccepted (hconfined .plenty),
    fun hfits environment ↦ ?_⟩
  by_cases haccepted : image.HeaderAccepted
  · exact satisfies_of_fits haccepted (hfits haccepted)
  · unfold userElfRunArgv
    rw [satisfies_bind]
    refine ⟨satisfies_checkHeader, fun _ hchecked ↦ ?_⟩
    exact absurd (yields_checkHeader.mp hchecked) haccepted

/-- The file with some bytes, in memory that is zero past them. -/
def Image.ofBytes (bytes : List UInt8) (hbounded : bytes.length ≤ maxFileBytes) : Image where
  size := bytes.length
  byte offset := bytes.getD offset 0
  bounded := hbounded

/-- A program of two segments. The first is a page at `0x400000`; the second has sixteen bytes of
the file at the kernel address `0xC0100000` and a size in memory with which its end wraps to
zero. -/
def kernelSegmentFile : Image :=
  Image.ofBytes [
    0x7F, 0x45, 0x4C, 0x46, 0x01, 0x01, 0x01, 0x00, 0x00, 0x00, 0x00, 0x00, 0x00, 0x00, 0x00, 0x00,
    0x02, 0x00, 0x03, 0x00, 0x01, 0x00, 0x00, 0x00, 0x00, 0x00, 0x40, 0x00, 0x34, 0x00, 0x00, 0x00,
    0x00, 0x00, 0x00, 0x00, 0x00, 0x00, 0x00, 0x00, 0x34, 0x00, 0x20, 0x00, 0x02, 0x00, 0x00, 0x00,
    0x00, 0x00, 0x00, 0x00, 0x01, 0x00, 0x00, 0x00, 0x00, 0x00, 0x00, 0x00, 0x00, 0x00, 0x40, 0x00,
    0x00, 0x00, 0x40, 0x00, 0x34, 0x00, 0x00, 0x00, 0x00, 0x10, 0x00, 0x00, 0x05, 0x00, 0x00, 0x00,
    0x00, 0x10, 0x00, 0x00, 0x01, 0x00, 0x00, 0x00, 0x00, 0x00, 0x00, 0x00, 0x00, 0x00, 0x10, 0xC0,
    0x00, 0x00, 0x00, 0x00, 0x10, 0x00, 0x00, 0x00, 0x00, 0x00, 0xF0, 0x3F, 0x06, 0x00, 0x00, 0x00,
    0x00, 0x10, 0x00, 0x00]
    (by decide)

/-- The file is loaded, and its bytes are copied over the kernel. -/
theorem not_confined : ¬Confined kernelSegmentFile := by
  intro hconfined
  have hwrite := hconfined .plenty (.write 0xC0100000 16) (by decide +kernel)
  have hend : 0xC0100000 + 16 ≤ kernelSegmentFile.loadRange.mapEnd := hwrite.2
  revert hend
  decide +kernel

end EynOS.Process.ElfLoader
