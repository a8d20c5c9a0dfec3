import EynOS.Storage.Fat32
import EynOS.Storage.Fields

/-!
# Entries of the file allocation table

What the functions on entries do to the sectors of a drive where they return without an error:
`writeFatEntryAll_ok` is a write to all copies of the table, which changes one entry of each copy
and no sector elsewhere. `Geometry` is when the copies of the table do not overlap.
-/

namespace EynOS.Storage.Fat32

open Foundation Interaction

section Accesses

variable {disk after : Disk} {lba : UInt32} {sector : Sector}

/-! ### Accesses -/

theorem readSector_ok (hrun : run answer (readSector lba) disk = (.ok sector, after)) :
    sector = disk.sectors lba ∧ after.sectors = disk.sectors := by
  change run answer (orStop (disk.read lba).1) (disk.read lba).2 = _ at hrun
  unfold Disk.read at hrun
  split_ifs at hrun
  · exact absurd (congrArg Prod.fst hrun) (by simp [orStop, failWith])
  · simp only [orStop, run_pure, Prod.mk.injEq, Except.ok.injEq] at hrun
    obtain ⟨rfl, rfl⟩ := hrun
    exact ⟨rfl, rfl⟩

/-- A sector that is written replaces that of the drive. -/
theorem writeSector_ok {data : Sector}
    (hrun : run answer (writeSector lba data) disk = (.ok (), after)) :
    after.sectors = Function.update disk.sectors lba data := by
  change run answer (if (disk.write lba data).1 then pure () else failWith (-1))
    (disk.write lba data).2 = _ at hrun
  unfold Disk.write at hrun
  by_cases hfails : disk.failing lba = true
  · rw [if_pos hfails] at hrun
    exact absurd (congrArg Prod.fst hrun) (by simp [failWith])
  · rw [if_neg hfails] at hrun
    simp only [if_true, run_pure, Prod.mk.injEq, true_and] at hrun
    rw [← hrun]

end Accesses

section Calls

variable {Owner Result : Type} {handler : Handler Request Request.Answer Owner}
  {program : Program Result} {state after : Owner} {result : Result} {code : ℤ}

/-- A call whose failure the caller looks at. -/
theorem run_attempt (program : Program Result) (state : Owner) :
    run handler (attempt program) state =
      match run handler program state with
      | (.ok result, after) => (.ok (some result), after)
      | (.error (.error _), after) => (.ok none, after)
      | (.error .endless, after) => (.error .endless, after) := by
  unfold attempt
  rw [run_recover, run_bind]
  rcases run handler program state with ⟨failure | result, after⟩
  · cases failure <;> rfl
  · rfl

/-- A call that the caller goes on with returned a result. -/
theorem attempt_ok (hrun : run handler (attempt program) state = (.ok (some result), after)) :
    run handler program state = (.ok result, after) := by
  rw [run_attempt] at hrun
  rcases hprogram : run handler program state with ⟨failure | value, middle⟩
  · rw [hprogram] at hrun
    cases failure <;> simp at hrun
  · rw [hprogram] at hrun
    simpa using hrun

/-- A call whose failure is the caller's returned a result where the caller goes on. -/
theorem orFail_ok (hrun : run handler (orFail code program) state = (.ok result, after)) :
    run handler program state = (.ok result, after) := by
  obtain ⟨value, middle, hattempt, hrest⟩ := run_bind_eq_ok.mp hrun
  cases value with
  | none => exact absurd (congrArg Prod.fst hrest) (by simp [failWith])
  | some value =>
    simp only [run_pure, Prod.mk.injEq, Except.ok.injEq] at hrest
    obtain ⟨rfl, rfl⟩ := hrest
    exact attempt_ok hattempt

theorem exists_run (hresult : (run handler program state).1.toOption = some result) :
    ∃ ended, run handler program state = (.ok result, ended) := by
  rcases hrun : run handler program state with ⟨failure | value, ended⟩
  · rw [hrun] at hresult
    exact absurd hresult (by simp [Except.toOption])
  · rw [hrun] at hresult
    exact ⟨ended, by rw [Option.some.inj hresult]⟩

end Calls

/-! ### The sectors of a table -/

/-- The copies of the table follow each other behind the reserved sectors, the addresses of its
sectors do not wrap, and its entries are four bytes of sectors of 512. -/
structure Geometry (bpb : Bpb) : Prop where
  bytes : bpb.bytsPerSec = 512
  copies : bpb.numFats ≠ 0
  size : bpb.fatSz32 ≠ 0
  room : bpb.rsvdSecCnt.toNat + bpb.numFats.toNat * bpb.fatSz32.toNat < 4294967296
  entries : bpb.fatSz32.toNat * 512 < 4294967296

/-- The entry of a cluster is in the table. -/
def InTable (bpb : Bpb) (clus : UInt32) : Prop := clus.toNat < bpb.fatSz32.toNat * 128

def entryPlace (bpb : Bpb) (clus : UInt32) : ℕ := 4 * (clus % bpb.entriesPerSec).toNat

/-- The address of the sector of an entry in a copy of the table. -/
def entryLba (partLba : UInt32) (bpb : Bpb) (copy clus : UInt32) : UInt32 :=
  partLba + fatSector bpb copy clus

def entryWord (partLba : UInt32) (bpb : Bpb) (sectors : UInt32 → Sector) (copy clus : UInt32) :
    UInt32 :=
  fatAt bpb (sectors (entryLba partLba bpb copy clus)) clus

def entryValue (partLba : UInt32) (bpb : Bpb) (sectors : UInt32 → Sector) (copy clus : UInt32) :
    UInt32 :=
  entryWord partLba bpb sectors copy clus &&& fatMask

def OutsideTable (partLba : UInt32) (bpb : Bpb) (lba : UInt32) : Prop :=
  ∀ copy < bpb.numFats, ∀ clus, InTable bpb clus → lba ≠ entryLba partLba bpb copy clus

namespace Geometry

variable {bpb : Bpb} {partLba copy clus other otherCopy : UInt32}

/-- The checks on the parameter block pass. -/
theorem usable (hgeometry : Geometry bpb) : bpb.unusable = false := by
  simp [Bpb.unusable, hgeometry.bytes, hgeometry.copies, hgeometry.size]

theorem entryPlace_eq (hgeometry : Geometry bpb) (clus : UInt32) :
    entryPlace bpb clus = 4 * (clus.toNat % 128) := by
  unfold entryPlace Bpb.entriesPerSec
  rw [hgeometry.bytes, UInt32.toNat_mod]
  rfl

/-- The number of the sector of an entry does not wrap. -/
theorem fatSector_toNat (hgeometry : Geometry bpb) (hcopy : copy < bpb.numFats)
    (hclus : InTable bpb clus) :
    (fatSector bpb copy clus).toNat =
      bpb.rsvdSecCnt.toNat + clus.toNat / 128 + copy.toNat * bpb.fatSz32.toNat := by
  have hroom := hgeometry.room
  have hentries := hgeometry.entries
  have hcopyLt : copy.toNat + 1 ≤ bpb.numFats.toNat := UInt32.lt_iff_toNat_lt.mp hcopy
  have hcopies := Nat.mul_le_mul_right bpb.fatSz32.toNat hcopyLt
  rw [Nat.add_one_mul] at hcopies
  unfold InTable at hclus
  have hquotient : (clus * 4 / bpb.bytsPerSec).toNat = clus.toNat / 128 := by
    rw [hgeometry.bytes, UInt32.toNat_div, UInt32.toNat_mul]
    have hfour : (4 : UInt32).toNat = 4 := rfl
    have hsector : (512 : UInt32).toNat = 512 := rfl
    rw [hfour, hsector, Nat.mod_eq_of_lt (by omega)]
    omega
  have hproduct : (copy * bpb.fatSz32).toNat = copy.toNat * bpb.fatSz32.toNat := by
    rw [UInt32.toNat_mul, Nat.mod_eq_of_lt (by omega)]
  have hsectors : clus.toNat / 128 < bpb.fatSz32.toNat := by omega
  unfold fatSector
  rw [UInt32.toNat_add, UInt32.toNat_add, hquotient, hproduct, Nat.mod_eq_of_lt (by omega),
    Nat.mod_eq_of_lt (by omega)]

/-- The sectors of entries are the same only for the same copy. -/
theorem entryLba_inj (hgeometry : Geometry bpb) (hcopy : copy < bpb.numFats)
    (hotherCopy : otherCopy < bpb.numFats) (hclus : InTable bpb clus) (hother : InTable bpb other)
    (hsame : entryLba partLba bpb copy clus = entryLba partLba bpb otherCopy other) :
    copy = otherCopy ∧ clus.toNat / 128 = other.toNat / 128 := by
  have hnumbers := congrArg UInt32.toNat ((UInt32.add_right_inj _).mp hsame)
  rw [hgeometry.fatSector_toNat hcopy hclus, hgeometry.fatSector_toNat hotherCopy hother]
    at hnumbers
  unfold InTable at hclus hother
  have hfirst : clus.toNat / 128 < bpb.fatSz32.toNat := by omega
  have hsecond : other.toNat / 128 < bpb.fatSz32.toNat := by omega
  have hcopies : copy.toNat = otherCopy.toNat := by
    rcases Nat.lt_trichotomy copy.toNat otherCopy.toNat with hlt | heq | hgt
    · have hmul := Nat.mul_le_mul_right bpb.fatSz32.toNat (Nat.succ_le_of_lt hlt)
      rw [Nat.succ_mul] at hmul
      omega
    · exact heq
    · have hmul := Nat.mul_le_mul_right bpb.fatSz32.toNat (Nat.succ_le_of_lt hgt)
      rw [Nat.succ_mul] at hmul
      omega
  rw [hcopies] at hnumbers
  exact ⟨UInt32.toNat_inj.mp hcopies, by omega⟩

end Geometry

section Entries

variable {bpb : Bpb} {partLba clus val : UInt32} {disk after : Disk}

/-! ### Reading and writing entries -/

def putEntry (bpb : Bpb) (clus val : UInt32) (sector : Sector) : Sector :=
  setWord sector (entryPlace bpb clus) (withValue (fatAt bpb sector clus) val)

/-- An entry of a sector in which one was changed. -/
theorem fatAt_putEntry (hgeometry : Geometry bpb) (sector : Sector) (other : UInt32) :
    fatAt bpb (putEntry bpb clus val sector) other =
      if other.toNat % 128 = clus.toNat % 128 then withValue (fatAt bpb sector clus) val
      else fatAt bpb sector other := by
  have hplace : (4 * (other % bpb.entriesPerSec).toNat) = 4 * (other.toNat % 128) :=
    hgeometry.entryPlace_eq other
  have hinside : 4 * (clus.toNat % 128) + 4 ≤ 512 := by omega
  unfold putEntry
  rw [hgeometry.entryPlace_eq]
  unfold fatAt
  rw [hplace]
  split_ifs with hsame
  · rw [hsame]
    exact wordAt_setWord sector _ hinside
  · exact wordAt_copyInto_of_outside sector (by omega)

/-- The loop of `fat32_write_fat_entry_all` changes the entry in the copies that are left. -/
theorem writeFatEntryLoop_ok (hgeometry : Geometry bpb) (hclus : InTable bpb clus) {count : ℕ}
    {copy : UInt32} (hcount : copy.toNat + count = bpb.numFats.toNat)
    (hrun : run answer (fat32WriteFatEntryLoop partLba bpb clus val count copy) disk =
      (.ok (), after)) :
    (∀ lba, (∀ written, copy ≤ written → written < bpb.numFats →
        lba ≠ entryLba partLba bpb written clus) → after.sectors lba = disk.sectors lba) ∧
      ∀ written, copy ≤ written → written < bpb.numFats →
        after.sectors (entryLba partLba bpb written clus) =
          putEntry bpb clus val (disk.sectors (entryLba partLba bpb written clus)) := by
  induction count generalizing copy disk with
  | zero =>
    simp only [fat32WriteFatEntryLoop, run_pure, Prod.mk.injEq, true_and] at hrun
    subst hrun
    refine ⟨fun _ _ ↦ rfl, fun written hfrom hto ↦ absurd hto ?_⟩
    rw [UInt32.le_iff_toNat_le] at hfrom
    rw [UInt32.lt_iff_toNat_lt]
    omega
  | succ count ih =>
    obtain ⟨sector, read, hread, hrest⟩ := run_bind_eq_ok.mp hrun
    obtain ⟨rfl, hreadSectors⟩ := readSector_ok hread
    obtain ⟨_, written, hwrite, hloop⟩ := run_bind_eq_ok.mp hrest
    have hsectors := writeSector_ok (orFail_ok hwrite)
    have hnumFats := bpb.numFats.toNat_lt
    have hcopyLt : copy < bpb.numFats := by
      rw [UInt32.lt_iff_toNat_lt]
      omega
    have hnext : (copy + 1).toNat = copy.toNat + 1 := by
      rw [UInt32.toNat_add, Nat.mod_eq_of_lt]
      · rfl
      · have hone : (1 : UInt32).toNat = 1 := rfl
        omega
    obtain ⟨helsewhere, hwritten⟩ := ih (by omega) hloop
    have hfirst : written.sectors (entryLba partLba bpb copy clus) =
        putEntry bpb clus val (disk.sectors (entryLba partLba bpb copy clus)) := by
      rw [hsectors]
      exact Function.update_self ..
    have hothers (lba : UInt32) (hlba : lba ≠ entryLba partLba bpb copy clus) :
        written.sectors lba = disk.sectors lba := by
      rw [hsectors, ← hreadSectors]
      exact Function.update_of_ne hlba ..
    have hlater {later : UInt32} (hfrom : copy + 1 ≤ later) : copy ≤ later := by
      rw [UInt32.le_iff_toNat_le] at hfrom ⊢
      omega
    constructor
    · intro lba hlba
      rw [helsewhere lba fun later hfrom hto ↦ hlba later (hlater hfrom) hto]
      exact hothers lba (hlba copy (UInt32.le_refl _) hcopyLt)
    · intro later hfrom hto
      by_cases heq : later = copy
      · subst heq
        rw [helsewhere, hfirst]
        intro other hother hotherLt hsame
        have hcopies := (hgeometry.entryLba_inj hto hotherLt hclus hclus hsame).1
        rw [UInt32.le_iff_toNat_le, ← hcopies] at hother
        omega
      · have hne : copy.toNat ≠ later.toNat := fun hsame ↦ heq (UInt32.toNat_inj.mp hsame).symm
        rw [hwritten later ?_ hto, hothers]
        · exact fun hsame ↦ heq (hgeometry.entryLba_inj hto hcopyLt hclus hclus hsame).1
        · rw [UInt32.le_iff_toNat_le] at hfrom ⊢
          omega

/-- `fat32_write_fat_entry_all` changes one entry in every copy of the table. -/
theorem writeFatEntryAll_ok (hgeometry : Geometry bpb) (hclus : InTable bpb clus)
    (hrun : run answer (fat32WriteFatEntryAll partLba bpb clus val) disk = (.ok (), after)) :
    (∀ lba, (∀ copy < bpb.numFats, lba ≠ entryLba partLba bpb copy clus) →
        after.sectors lba = disk.sectors lba) ∧
      ∀ copy < bpb.numFats, ∀ other, InTable bpb other →
        entryWord partLba bpb after.sectors copy other =
          if other = clus then withValue (entryWord partLba bpb disk.sectors copy clus) val
          else entryWord partLba bpb disk.sectors copy other := by
  unfold fat32WriteFatEntryAll at hrun
  rw [if_neg (by simp [hgeometry.usable])] at hrun
  have hzero : (0 : UInt32).toNat = 0 := rfl
  obtain ⟨helsewhere, hwritten⟩ := writeFatEntryLoop_ok hgeometry hclus (by omega) hrun
  refine ⟨fun lba hlba ↦ helsewhere lba fun copy _ hcopy ↦ hlba copy hcopy,
    fun copy hcopy other hother ↦ ?_⟩
  unfold entryWord
  by_cases hsector : clus.toNat / 128 = other.toNat / 128
  · -- the entries share a sector of this copy
    have hsame : entryLba partLba bpb copy other = entryLba partLba bpb copy clus := by
      unfold entryLba
      congr 1
      refine UInt32.toNat_inj.mp ?_
      rw [hgeometry.fatSector_toNat hcopy hother, hgeometry.fatSector_toNat hcopy hclus, hsector]
    rw [hsame, hwritten copy (UInt32.zero_le) hcopy, fatAt_putEntry hgeometry]
    refine if_congr ?_ rfl rfl
    rw [← UInt32.toNat_inj]
    omega
  · rw [helsewhere, if_neg]
    · rintro rfl
      exact hsector rfl
    · intro otherCopy _ hotherCopy hsame
      exact hsector (hgeometry.entryLba_inj hcopy hotherCopy hother hclus hsame).2.symm

/-- The value of an entry after a write. -/
theorem withValue_mask (entry val : UInt32) :
    withValue entry val &&& fatMask = val &&& fatMask := by
  have hdistrib (first second third : UInt32) :
      (first ||| second) &&& third = (first &&& third) ||| (second &&& third) := by
    refine UInt32.toBitVec_inj.mp ?_
    simp only [UInt32.toBitVec_and, UInt32.toBitVec_or, BitVec.and_or_distrib_right]
  unfold withValue
  rw [hdistrib, UInt32.and_assoc, UInt32.and_assoc, UInt32.and_self]
  have hapart : (0xF0000000 : UInt32) &&& fatMask = 0 := by decide
  rw [hapart, UInt32.and_zero, UInt32.zero_or]

end Entries

end EynOS.Storage.Fat32
