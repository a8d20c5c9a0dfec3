import EynOS.Foundation.Run
import EynOS.Storage.Partition

/-!
# Partitions that stay disjoint

`partition_create`, `partition_delete` and `partition_set_bootable` called one after another on a
disk. `Kept` is what a call ought to keep: partitions of at least one sector, none of them beyond
2^32 sectors, no two with a sector in common, no other entry changed, and a new one as it was asked
for. `kept_iff_plain` says for which calls it does: `Plain`.
-/

namespace EynOS.Storage.Partition

open Foundation

/-! ### Tables -/

/-- A sector belongs to a partition. -/
def PartitionInfo.Holds (part : PartitionInfo) (lba : ℕ) : Prop :=
  part.type ≠ PART_TYPE_EMPTY ∧ part.lbaStart.toNat ≤ lba ∧
    lba < part.lbaStart.toNat + part.sectorCount.toNat

/-- No partition goes beyond 2^32 sectors, and no two have a sector in common. -/
structure Disjoint (info : Table) : Prop where
  bounded : ∀ slot, (info slot).type ≠ PART_TYPE_EMPTY →
    (info slot).lbaStart.toNat + (info slot).sectorCount.toNat ≤ 4294967296
  apart : ∀ first second, first ≠ second → ∀ lba, (info first).Holds lba → ¬(info second).Holds lba

/-- Every partition has a sector. -/
def Filled (info : Table) : Prop :=
  ∀ slot, (info slot).type ≠ PART_TYPE_EMPTY → 0 < (info slot).sectorCount

/-- What a slot has in it. -/
def PartitionInfo.entry (part : PartitionInfo) : Option PartitionInfo :=
  if part.type = PART_TYPE_EMPTY then none else some part

/-- The type, the start and the size of what a slot has in it. -/
def PartitionInfo.extent (part : PartitionInfo) : Option (UInt8 × UInt32 × UInt32) :=
  part.entry.map fun part ↦ (part.type, part.lbaStart, part.sectorCount)

/-! ### Calls -/

/-- A call, and whether the command may use the disk. -/
inductive Call
  | create (allowed : Bool) (startLba sizeSectors : UInt32) (type : UInt8)
  | delete (allowed : Bool) (partitionNum : UInt8)
  | setBootable (allowed : Bool) (partitionNum : UInt8)

def step (mbr : Sector) : Call → Sector
  | .create allowed startLba sizeSectors type =>
    (partitionCreate allowed startLba sizeSectors type mbr).2
  | .delete allowed partitionNum => (partitionDelete allowed partitionNum mbr).2
  | .setBootable allowed partitionNum => (partitionSetBootable allowed partitionNum mbr).2

/-- What a call does to the slots: a new partition is in the slot that is returned, as it was asked
for, and no other slot is changed. Which partition is bootable is changed for all. -/
def Effect (mbr : Sector) : Call → Prop
  | .create allowed startLba sizeSectors type =>
    let (result, after) := partitionCreate allowed startLba sizeSectors type mbr
    ∀ slot, if result = (slot.val : ℤ) then
        (partitionReadTable after slot).type = type ∧
          (partitionReadTable after slot).lbaStart = startLba ∧
            (partitionReadTable after slot).sectorCount = sizeSectors
      else (partitionReadTable after slot).entry = (partitionReadTable mbr slot).entry
  | .delete allowed partitionNum =>
    ∀ slot, slot.val ≠ partitionNum.toNat →
      (partitionReadTable (partitionDelete allowed partitionNum mbr).2 slot).entry =
        (partitionReadTable mbr slot).entry
  | .setBootable allowed partitionNum =>
    ∀ slot, slot.val ≠ partitionNum.toNat →
      (partitionReadTable (partitionSetBootable allowed partitionNum mbr).2 slot).extent =
        (partitionReadTable mbr slot).extent

/-- What a call ought to keep. -/
structure Kept (mbr : Sector) (call : Call) : Prop where
  disjoint : Disjoint (partitionReadTable (step mbr call))
  filled : Filled (partitionReadTable (step mbr call))
  effect : Effect mbr call

/-- A new partition that the checks of `partition_create` are right about: nothing at all, or a
partition with a type and a sector that does not go beyond 2^32 sectors. Where it ends exactly
there, no other begins behind its start; where another ends exactly there, it does not begin behind
that one's. -/
def Fits (info : Table) (startLba sizeSectors : UInt32) (type : UInt8) : Prop :=
  type = PART_TYPE_EMPTY ∧ startLba = 0 ∧ sizeSectors = 0 ∨
    type ≠ PART_TYPE_EMPTY ∧ 0 < sizeSectors ∧ startLba.toNat + sizeSectors.toNat ≤ 4294967296 ∧
      ∀ slot, (info slot).type ≠ PART_TYPE_EMPTY →
        (startLba.toNat + sizeSectors.toNat = 4294967296 → (info slot).lbaStart ≤ startLba) ∧
          ((info slot).lbaStart.toNat + (info slot).sectorCount.toNat = 4294967296 →
            startLba ≤ (info slot).lbaStart)

/-- A call that keeps what it ought to. No partition is without a sector, but for one that the call
removes; and a new partition fits, unless it is refused. -/
def Plain (mbr : Sector) : Call → Prop
  | .create allowed startLba sizeSectors type =>
    Filled (partitionReadTable mbr) ∧
      (allowed = true → freeSlot (partitionReadTable mbr) ≠ none →
        (∀ slot, overlaps startLba sizeSectors (partitionReadTable mbr slot) = false) →
          Fits (partitionReadTable mbr) startLba sizeSectors type)
  | .delete allowed partitionNum | .setBootable allowed partitionNum =>
    ∀ slot, (partitionReadTable mbr slot).type ≠ PART_TYPE_EMPTY →
      0 < (partitionReadTable mbr slot).sectorCount ∨
        allowed = true ∧ slot.val = partitionNum.toNat

/-! ### Reading what was written -/

variable {mbr : Sector} {info : Table} {part : PartitionInfo} {startLba sizeSectors : UInt32}

/-- An entry is read as it is exactly if it is not a partition without a sector. -/
theorem entry_written : part.written.entry = part.entry ↔
    (part.type ≠ PART_TYPE_EMPTY → 0 < part.sectorCount) := by
  rw [PartitionInfo.written]
  split_ifs with hlive
  · exact iff_of_true rfl fun _ ↦ hlive.2
  · by_cases htype : part.type = PART_TYPE_EMPTY
    · refine iff_of_true ?_ fun hnot ↦ absurd htype hnot
      rw [PartitionInfo.entry, PartitionInfo.entry, if_pos htype]
      rfl
    · refine iff_of_false ?_ fun hcount ↦ hlive ⟨htype, hcount htype⟩
      rw [PartitionInfo.entry, PartitionInfo.entry, if_neg htype]
      simp [PartitionInfo.empty]

/-- Whether a partition is bootable does not matter for its extent. -/
theorem extent_written (bootable : Bool) :
    { part with bootable := bootable }.written.extent = part.extent ↔
      (part.type ≠ PART_TYPE_EMPTY → 0 < part.sectorCount) := by
  have hsame : { part with bootable := bootable }.extent = part.extent := by
    rw [PartitionInfo.extent, PartitionInfo.extent, PartitionInfo.entry, PartitionInfo.entry]
    split_ifs <;> rfl
  rw [← hsame, PartitionInfo.written]
  split_ifs with hlive
  · exact iff_of_true rfl fun _ ↦ hlive.2
  · by_cases htype : part.type = PART_TYPE_EMPTY
    · refine iff_of_true ?_ fun hnot ↦ absurd htype hnot
      rw [PartitionInfo.extent, PartitionInfo.extent, PartitionInfo.entry, PartitionInfo.entry,
        if_pos htype]
      rfl
    · refine iff_of_false ?_ fun hcount ↦ hlive ⟨htype, hcount htype⟩
      rw [PartitionInfo.extent, PartitionInfo.extent, PartitionInfo.entry, PartitionInfo.entry,
        if_neg htype]
      simp [PartitionInfo.empty]

/-- Whatever is read of what was written has a sector. -/
theorem filled_written (info : Table) : Filled fun slot ↦ (info slot).written := by
  intro slot htype
  dsimp only at htype ⊢
  rw [PartitionInfo.written] at htype ⊢
  split_ifs at htype ⊢ with hlive
  · exact hlive.2
  · exact absurd rfl htype

theorem holds_of_written {lba : ℕ} (hholds : part.written.Holds lba) : part.Holds lba := by
  rw [PartitionInfo.written] at hholds
  split_ifs at hholds
  · exact hholds
  · exact absurd rfl hholds.1

theorem Disjoint.written (hinfo : Disjoint info) : Disjoint fun slot ↦ (info slot).written where
  bounded slot htype := by
    rw [PartitionInfo.written] at htype ⊢
    split_ifs at htype ⊢ with hlive
    · exact hinfo.bounded slot hlive.1
    · exact absurd rfl htype
  apart first second hne lba hfirst hsecond :=
    hinfo.apart first second hne lba (holds_of_written hfirst) (holds_of_written hsecond)

/-- The overlap test finds nothing only where the sectors are apart, unless an end is 2^32. -/
theorem apart_of_overlaps {lba : ℕ} (hno : overlaps startLba sizeSectors part = false)
    (hpart : part.Holds lba) (hbounded : part.lbaStart.toNat + part.sectorCount.toNat ≤ 4294967296)
    (hsize : startLba.toNat + sizeSectors.toNat ≤ 4294967296)
    (hnewEnd : startLba.toNat + sizeSectors.toNat = 4294967296 → part.lbaStart ≤ startLba)
    (hend : part.lbaStart.toNat + part.sectorCount.toNat = 4294967296 → startLba ≤ part.lbaStart) :
    ¬(startLba.toNat ≤ lba ∧ lba < startLba.toNat + sizeSectors.toNat) := by
  obtain ⟨htype, hfrom, hto⟩ := hpart
  rintro ⟨hnewFrom, hnewTo⟩
  have hstart := startLba.toNat_lt
  have hpartStart := part.lbaStart.toNat_lt
  simp only [overlaps, Bool.and_eq_false_imp, bne_iff_ne, Bool.or_eq_false_iff,
    decide_eq_false_iff_not, Bool.and_eq_false_imp, decide_eq_true_eq, ge_iff_le, gt_iff_lt,
    UInt32.le_iff_toNat_le, UInt32.lt_iff_toNat_lt, UInt32.toNat_add] at hno hnewEnd hend
  obtain ⟨⟨hfirst, hsecond⟩, hthird⟩ := hno htype
  omega

/-! ### Creating -/

/-- A refused call keeps a disjoint table as it is. -/
theorem kept_of_refused {call : Call} (hinfo : Disjoint (partitionReadTable mbr))
    (hstep : step mbr call = mbr) (heffect : Effect mbr call) :
    Kept mbr call ↔ Filled (partitionReadTable mbr) := by
  constructor
  · intro hkept
    exact hstep ▸ hkept.filled
  · intro hfilled
    exact ⟨hstep.symm ▸ hinfo, hstep.symm ▸ hfilled, heffect⟩

theorem kept_of_refused_create {allowed : Bool} {type : UInt8}
    (hinfo : Disjoint (partitionReadTable mbr))
    (hrefused : partitionCreate allowed startLba sizeSectors type mbr = (-1, mbr)) :
    Kept mbr (.create allowed startLba sizeSectors type) ↔ Filled (partitionReadTable mbr) := by
  refine kept_of_refused hinfo (by rw [step, hrefused]) ?_
  rw [Effect, hrefused]
  exact fun slot ↦ by rw [if_neg (by omega)]

/-- A new partition that fits has no sector of another one. -/
theorem Fits.not_holds {type : UInt8} {slot : Fin MBR_MAX_PARTITIONS} {lba : ℕ} {bootable : Bool}
    (hfits : Fits info startLba sizeSectors type) (hinfo : Disjoint info)
    (hno : overlaps startLba sizeSectors (info slot) = false)
    (hnew : PartitionInfo.Holds { bootable, type, lbaStart := startLba, sectorCount := sizeSectors }
      lba) : ¬(info slot).Holds lba := by
  intro hholds
  rcases hfits with ⟨hempty, -⟩ | ⟨-, -, hbounded, hothers⟩
  · exact hnew.1 hempty
  · obtain ⟨hnewEnd, hend⟩ := hothers slot hholds.1
    exact apart_of_overlaps hno hholds (hinfo.bounded slot hholds.1) hbounded hnewEnd hend hnew.2

/-- A new partition that fits keeps a table disjoint. -/
theorem Disjoint.update {type : UInt8} {slot : Fin MBR_MAX_PARTITIONS} {bootable : Bool}
    (hinfo : Disjoint info) (hfits : Fits info startLba sizeSectors type)
    (hno : ∀ other, overlaps startLba sizeSectors (info other) = false) :
    Disjoint (Function.update info slot
      { bootable, type, lbaStart := startLba, sectorCount := sizeSectors }) where
  bounded other htype := by
    by_cases hother : other = slot
    · rw [hother, Function.update_self] at htype ⊢
      rcases hfits with ⟨hempty, -⟩ | ⟨-, -, hbounded, -⟩
      · exact absurd hempty htype
      · exact hbounded
    · rw [Function.update_of_ne hother] at htype ⊢
      exact hinfo.bounded other htype
  apart first second hne lba hfirst hsecond := by
    by_cases hslot : first = slot
    · have hother : second ≠ slot := fun heq ↦ hne (hslot.trans heq.symm)
      rw [hslot, Function.update_self] at hfirst
      rw [Function.update_of_ne hother] at hsecond
      exact hfits.not_holds hinfo (hno second) hfirst hsecond
    · rw [Function.update_of_ne hslot] at hfirst
      by_cases hother : second = slot
      · rw [hother, Function.update_self] at hsecond
        exact hfits.not_holds hinfo (hno first) hsecond hfirst
      · rw [Function.update_of_ne hother] at hsecond
        exact hinfo.apart first second hne lba hfirst hsecond

/-- A partition that is created is kept as it ought to be exactly if it fits in a filled table. -/
theorem kept_create {type : UInt8} {slot : Fin MBR_MAX_PARTITIONS}
    (hinfo : Disjoint (partitionReadTable mbr))
    (hslot : freeSlot (partitionReadTable mbr) = some slot)
    (hno : ∀ other, overlaps startLba sizeSectors (partitionReadTable mbr other) = false) :
    Kept mbr (.create true startLba sizeSectors type) ↔
      Filled (partitionReadTable mbr) ∧
        Fits (partitionReadTable mbr) startLba sizeSectors type := by
  obtain ⟨new, hnew⟩ : ∃ new : PartitionInfo, new =
    { bootable := false, type, lbaStart := startLba, sectorCount := sizeSectors } := ⟨_, rfl⟩
  have hcreate : partitionCreate true startLba sizeSectors type mbr =
      ((slot.val : ℤ),
        partitionWriteTable mbr (Function.update (partitionReadTable mbr) slot new)) := by
    rw [partitionCreate, if_neg (by simp)]
    simp only [hslot]
    rw [if_neg (by simpa using hno), hnew]
  have hempty : (partitionReadTable mbr slot).type = PART_TYPE_EMPTY := by
    simpa using List.find?_some hslot
  have hafter := partitionReadTable_partitionWriteTable mbr
    (Function.update (partitionReadTable mbr) slot new)
  have hstep : step mbr (.create true startLba sizeSectors type) =
      partitionWriteTable mbr (Function.update (partitionReadTable mbr) slot new) := by
    rw [step, hcreate]
  have hself := congrFun hafter slot
  rw [Function.update_self] at hself
  have hothers {other : Fin MBR_MAX_PARTITIONS} (hother : other ≠ slot) :
      partitionReadTable (partitionWriteTable mbr
        (Function.update (partitionReadTable mbr) slot new)) other =
          (partitionReadTable mbr other).written := by
    rw [congrFun hafter other, Function.update_of_ne hother]
  have hval {other : Fin MBR_MAX_PARTITIONS} : (slot.val : ℤ) = other.val ↔ other = slot := by
    rw [Int.natCast_inj, Fin.val_inj]
    exact eq_comm
  constructor
  · rintro ⟨hdisjoint, -, heffect⟩
    rw [hstep] at hdisjoint
    rw [Effect, hcreate] at heffect
    have hfilled : Filled (partitionReadTable mbr) := by
      intro other htype
      have hother : other ≠ slot := fun heq ↦ htype (heq ▸ hempty)
      have hentry := heffect other
      rw [if_neg (mt hval.mp hother), hothers hother] at hentry
      exact entry_written.mp hentry htype
    refine ⟨hfilled, ?_⟩
    have hasked := heffect slot
    rw [if_pos (hval.mpr rfl), hself] at hasked
    by_cases hlive : new.type ≠ PART_TYPE_EMPTY ∧ 0 < new.sectorCount
    · have hwritten : new.written = new := if_pos hlive
      rw [hwritten] at hself
      have hholds {lba : ℕ} (hfrom : startLba.toNat ≤ lba)
          (hto : lba < startLba.toNat + sizeSectors.toNat) :
          (partitionReadTable (partitionWriteTable mbr
            (Function.update (partitionReadTable mbr) slot new)) slot).Holds lba := by
        rw [hself]
        refine ⟨hlive.1, ?_⟩
        rw [hnew]
        exact ⟨hfrom, hto⟩
      have hbounded := hdisjoint.bounded slot (by rw [hself]; exact hlive.1)
      rw [hself, hnew] at hbounded
      dsimp only at hbounded
      rw [hnew] at hlive
      refine .inr ⟨hlive.1, hlive.2, hbounded, fun other htype ↦ ?_⟩
      have hother : other ≠ slot := fun heq ↦ htype (heq ▸ hempty)
      have hapart (lba : ℕ) (hfrom : startLba.toNat ≤ lba)
          (hto : lba < startLba.toNat + sizeSectors.toNat) :
          ¬(partitionReadTable mbr other).Holds lba := by
        have hnot := hdisjoint.apart slot other hother.symm lba (hholds hfrom hto)
        rwa [hothers hother, PartitionInfo.written, if_pos ⟨htype, hfilled other htype⟩] at hnot
      have hcount := UInt32.lt_iff_toNat_lt.mp (hfilled other htype)
      have hsize : (0 : UInt32).toNat < sizeSectors.toNat := UInt32.lt_iff_toNat_lt.mp hlive.2
      rw [UInt32.toNat_zero] at hcount hsize
      rw [UInt32.le_iff_toNat_le, UInt32.le_iff_toNat_le]
      have hstart := (partitionReadTable mbr other).lbaStart.toNat_lt
      have hnewStart := startLba.toNat_lt
      constructor
      · intro hend
        by_contra hbehind
        exact hapart (partitionReadTable mbr other).lbaStart.toNat (by omega) (by omega)
          ⟨htype, Nat.le_refl _, by omega⟩
      · intro hend
        by_contra hbehind
        exact hapart startLba.toNat (by omega) (by omega) ⟨htype, by omega, by omega⟩
    · have hwritten : new.written = PartitionInfo.empty := if_neg hlive
      rw [hwritten] at hasked
      exact .inl ⟨hasked.1.symm, hasked.2.1.symm, hasked.2.2.symm⟩
  · rintro ⟨hfilled, hfits⟩
    have hwritten : new.written = new := by
      rcases hfits with ⟨htype, hstart, hsize⟩ | ⟨htype, hsize, -⟩
      · rw [hnew, htype, hstart, hsize]
        rfl
      · exact if_pos (by rw [hnew]; exact ⟨htype, hsize⟩)
    refine ⟨?_, ?_, ?_⟩
    · rw [hstep, hafter, hnew]
      exact (hinfo.update hfits hno).written
    · rw [hstep, hafter]
      exact filled_written _
    · rw [Effect, hcreate]
      intro other
      split_ifs with hother
      · rw [hval.mp hother, hself, hwritten, hnew]
        exact ⟨rfl, rfl, rfl⟩
      · rw [hothers (mt hval.mpr hother)]
        exact entry_written.mpr (hfilled other)

/-! ### The other calls -/

theorem Disjoint.remove (hinfo : Disjoint info) (slot : Fin MBR_MAX_PARTITIONS) :
    Disjoint (Function.update info slot PartitionInfo.empty) where
  bounded other htype := by
    by_cases hother : other = slot
    · rw [hother, Function.update_self] at htype
      exact absurd rfl htype
    · rw [Function.update_of_ne hother] at htype ⊢
      exact hinfo.bounded other htype
  apart first second hne lba hfirst hsecond := by
    by_cases hslot : first = slot
    · rw [hslot, Function.update_self] at hfirst
      exact hfirst.1 rfl
    · by_cases hother : second = slot
      · rw [hother, Function.update_self] at hsecond
        exact hsecond.1 rfl
      · rw [Function.update_of_ne hslot] at hfirst
        rw [Function.update_of_ne hother] at hsecond
        exact hinfo.apart first second hne lba hfirst hsecond

theorem Disjoint.flag (hinfo : Disjoint info) (bootable : Fin MBR_MAX_PARTITIONS → Bool) :
    Disjoint fun slot ↦ { info slot with bootable := bootable slot } where
  bounded slot htype := hinfo.bounded slot htype
  apart first second hne lba hfirst hsecond := hinfo.apart first second hne lba hfirst hsecond

/-- A call that names no partition keeps what it ought to exactly in a filled table. -/
theorem plain_iff_filled {allowed : Bool} {partitionNum : UInt8}
    (hnone : ∀ slot, (partitionReadTable mbr slot).type ≠ PART_TYPE_EMPTY →
      ¬(allowed = true ∧ slot.val = partitionNum.toNat)) :
    (∀ slot, (partitionReadTable mbr slot).type ≠ PART_TYPE_EMPTY →
      0 < (partitionReadTable mbr slot).sectorCount ∨
        allowed = true ∧ slot.val = partitionNum.toNat) ↔ Filled (partitionReadTable mbr) :=
  ⟨fun hplain slot htype ↦ (hplain slot htype).resolve_right (hnone slot htype),
    fun hfilled slot htype ↦ .inl (hfilled slot htype)⟩

theorem kept_delete (hinfo : Disjoint (partitionReadTable mbr)) (allowed : Bool)
    (partitionNum : UInt8) :
    Kept mbr (.delete allowed partitionNum) ↔ Plain mbr (.delete allowed partitionNum) := by
  by_cases hslot : partitionNum.toNat < MBR_MAX_PARTITIONS
  case neg =>
    have hrefused : partitionDelete allowed partitionNum mbr = (-1, mbr) := by
      rw [partitionDelete, dif_neg hslot]
    rw [kept_of_refused hinfo (by rw [step, hrefused])
      (by rw [Effect, hrefused]; exact fun _ _ ↦ rfl), Plain, plain_iff_filled fun slot _ hnamed ↦
        hslot (hnamed.2 ▸ slot.isLt)]
  cases allowed with
  | false =>
    have hrefused : partitionDelete false partitionNum mbr = (-1, mbr) := by
      rw [partitionDelete, dif_pos hslot, if_pos (by simp)]
    rw [kept_of_refused hinfo (by rw [step, hrefused])
      (by rw [Effect, hrefused]; exact fun _ _ ↦ rfl), Plain, plain_iff_filled fun slot _ hnamed ↦
        absurd hnamed.1 Bool.false_ne_true]
  | true =>
    by_cases hempty : (partitionReadTable mbr ⟨partitionNum.toNat, hslot⟩).type = PART_TYPE_EMPTY
    · have hrefused : partitionDelete true partitionNum mbr = (-1, mbr) := by
        rw [partitionDelete, dif_pos hslot, if_neg (by simp)]
        exact if_pos hempty
      rw [kept_of_refused hinfo (by rw [step, hrefused])
        (by rw [Effect, hrefused]; exact fun _ _ ↦ rfl), Plain, plain_iff_filled]
      intro slot htype hnamed
      have hsame : slot = ⟨partitionNum.toNat, hslot⟩ := Fin.ext hnamed.2
      exact htype (hsame ▸ hempty)
    · have hdelete : (partitionDelete true partitionNum mbr).2 = partitionWriteTable mbr
          (Function.update (partitionReadTable mbr) ⟨partitionNum.toNat, hslot⟩
            PartitionInfo.empty) := by
        rw [partitionDelete, dif_pos hslot, if_neg (by simp)]
        exact congrArg Prod.snd (if_neg hempty)
      have hafter := partitionReadTable_partitionWriteTable mbr
        (Function.update (partitionReadTable mbr) ⟨partitionNum.toNat, hslot⟩ PartitionInfo.empty)
      have hothers {other : Fin MBR_MAX_PARTITIONS} (hother : other.val ≠ partitionNum.toNat) :
          partitionReadTable (partitionDelete true partitionNum mbr).2 other =
            (partitionReadTable mbr other).written := by
        rw [hdelete, congrFun hafter other,
          Function.update_of_ne fun heq ↦ hother (congrArg Fin.val heq)]
      constructor
      · rintro ⟨-, -, heffect⟩ other htype
        by_cases hother : other.val = partitionNum.toNat
        · exact .inr ⟨rfl, hother⟩
        · have hentry := heffect other hother
          rw [hothers hother] at hentry
          exact .inl (entry_written.mp hentry htype)
      · intro hplain
        refine ⟨?_, ?_, fun other hother ↦ ?_⟩
        · rw [step, hdelete, hafter]
          exact (hinfo.remove _).written
        · rw [step, hdelete, hafter]
          exact filled_written _
        · rw [hothers hother]
          exact entry_written.mpr fun htype ↦
            (hplain other htype).resolve_right fun hnamed ↦ hother hnamed.2

theorem kept_setBootable (hinfo : Disjoint (partitionReadTable mbr)) (allowed : Bool)
    (partitionNum : UInt8) :
    Kept mbr (.setBootable allowed partitionNum) ↔
      Plain mbr (.setBootable allowed partitionNum) := by
  by_cases hslot : partitionNum.toNat < MBR_MAX_PARTITIONS
  case neg =>
    have hrefused : partitionSetBootable allowed partitionNum mbr = (-1, mbr) := by
      rw [partitionSetBootable, if_neg hslot]
    rw [kept_of_refused hinfo (by rw [step, hrefused])
      (by rw [Effect, hrefused]; exact fun _ _ ↦ rfl), Plain, plain_iff_filled fun slot _ hnamed ↦
        hslot (hnamed.2 ▸ slot.isLt)]
  cases allowed with
  | false =>
    have hrefused : partitionSetBootable false partitionNum mbr = (-1, mbr) := by
      rw [partitionSetBootable, if_pos hslot, if_pos (by simp)]
    rw [kept_of_refused hinfo (by rw [step, hrefused])
      (by rw [Effect, hrefused]; exact fun _ _ ↦ rfl), Plain, plain_iff_filled fun slot _ hnamed ↦
        absurd hnamed.1 Bool.false_ne_true]
  | true =>
    have hset : (partitionSetBootable true partitionNum mbr).2 = partitionWriteTable mbr fun slot ↦
        { partitionReadTable mbr slot with bootable := slot.val == partitionNum.toNat } := by
      rw [partitionSetBootable, if_pos hslot, if_neg (by simp)]
    have hafter := partitionReadTable_partitionWriteTable mbr fun slot ↦
      { partitionReadTable mbr slot with bootable := slot.val == partitionNum.toNat }
    constructor
    · rintro ⟨-, -, heffect⟩ other htype
      by_cases hother : other.val = partitionNum.toNat
      · exact .inr ⟨rfl, hother⟩
      · have hextent := heffect other hother
        rw [hset, congrFun hafter other] at hextent
        exact .inl ((extent_written _).mp hextent htype)
    · intro hplain
      refine ⟨?_, ?_, fun other hother ↦ ?_⟩
      · rw [step, hset, hafter]
        exact (hinfo.flag _).written
      · rw [step, hset, hafter]
        exact filled_written _
      · rw [hset, congrFun hafter other]
        exact (extent_written _).mpr fun htype ↦
          (hplain other htype).resolve_right fun hnamed ↦ hother hnamed.2

/-! ### Runs -/

/-- A call keeps what it ought to exactly if it is plain. -/
theorem kept_iff_plain (hinfo : Disjoint (partitionReadTable mbr)) (call : Call) :
    Kept mbr call ↔ Plain mbr call := by
  cases call with
  | delete allowed partitionNum => exact kept_delete hinfo allowed partitionNum
  | setBootable allowed partitionNum => exact kept_setBootable hinfo allowed partitionNum
  | create allowed startLba sizeSectors type =>
    rw [Plain]
    cases allowed with
    | false =>
      rw [kept_of_refused_create hinfo (by rw [partitionCreate, if_pos (by simp)])]
      exact (and_iff_left fun hallowed ↦ absurd hallowed Bool.false_ne_true).symm
    | true =>
      cases hslot : freeSlot (partitionReadTable mbr) with
      | none =>
        rw [kept_of_refused_create hinfo]
        · exact (and_iff_left fun _ hnone ↦ absurd rfl hnone).symm
        · rw [partitionCreate, if_neg (by simp)]
          simp only [hslot]
      | some slot =>
        by_cases hno : ∀ other, overlaps startLba sizeSectors (partitionReadTable mbr other) = false
        · rw [kept_create hinfo hslot hno]
          refine and_congr_right fun _ ↦ ⟨fun hfits _ _ _ ↦ hfits, fun hfits ↦ ?_⟩
          exact hfits rfl (Option.some_ne_none slot) hno
        · rw [kept_of_refused_create hinfo]
          · exact (and_iff_left fun _ _ hall ↦ absurd hall hno).symm
          · rw [partitionCreate, if_neg (by simp)]
            simp only [hslot]
            rw [if_pos]
            simpa using hno

/-- The calls on a disk all keep what they ought to exactly if all of them are plain. -/
theorem allowed_kept_iff {start : Sector} (hstart : Disjoint (partitionReadTable start))
    (calls : List Call) : Allowed Kept step start calls ↔ Allowed Plain step start calls :=
  allowed_congr (fun _ call hinfo ↦ kept_iff_plain hinfo call)
    (fun _ _ _ hkept ↦ hkept.disjoint) hstart

theorem disjoint_zeroBlock : Disjoint (partitionReadTable zeroBlock) := by
  have hempty : ∀ slot, (partitionReadTable zeroBlock slot).type = PART_TYPE_EMPTY := by decide
  exact ⟨fun slot htype ↦ absurd (hempty slot) htype,
    fun first _ _ _ hfirst ↦ absurd (hempty first) hfirst.1⟩

/-- Two partitions are created, and the first is removed. -/
theorem allowed_kept_iff_three :
    Allowed Kept step zeroBlock
        [.create true 2048 1000 0x83, .create true 4096 1000 0x83, .delete true 0] ↔
      Allowed Plain step zeroBlock
        [.create true 2048 1000 0x83, .create true 4096 1000 0x83, .delete true 0] :=
  allowed_kept_iff disjoint_zeroBlock _

/-- A partition of 512 sectors that starts 256 sectors below 2^32 is created. -/
theorem not_allowed_kept : ¬∀ start calls, Disjoint (partitionReadTable start) →
    Filled (partitionReadTable start) → Allowed Kept step start calls := by
  intro hall
  have hempty : ∀ slot, (partitionReadTable zeroBlock slot).type = PART_TYPE_EMPTY := by decide
  have hkept := (hall zeroBlock [.create true 4294967040 512 0x83] disjoint_zeroBlock
    fun slot htype ↦ absurd (hempty slot) htype).1
  obtain ⟨-, hfits⟩ := (kept_iff_plain disjoint_zeroBlock _).mp hkept
  rcases hfits rfl (by decide) (by decide) with ⟨htype, -⟩ | ⟨-, -, hbounded, -⟩
  · exact absurd htype (by decide)
  · exact absurd hbounded (by decide)

end EynOS.Storage.Partition
