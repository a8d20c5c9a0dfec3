import EynOS.Storage.Fields

/-!
# The partition table of a disk

The four entries of the master boot record, as `partition.c` reads them, writes them and changes
them. `readEntry_partitionWriteTable` says what is read of a table that was written: an entry that
has a type and sectors, and nothing of any other.

Of an entry is kept what the functions use: its size in megabytes, its label and the file system
that is found in it follow from the rest, and the addresses in cylinders are written but never
read.
-/

namespace EynOS.Storage.Partition

/-! ### Entries -/

def MBR_PARTITION_TABLE_OFFSET : ℕ := 0x1BE

def MBR_PARTITION_ENTRY_SIZE : ℕ := 16

def MBR_MAX_PARTITIONS : ℕ := 4

def MBR_SIGNATURE_OFFSET : ℕ := 510

def PART_TYPE_EMPTY : UInt8 := 0

/-- `partition_info_t`. -/
structure PartitionInfo where
  bootable : Bool
  type : UInt8
  lbaStart : UInt32
  sectorCount : UInt32
  deriving DecidableEq

/-- An entry of zeros. -/
def PartitionInfo.empty : PartitionInfo :=
  { bootable := false, type := PART_TYPE_EMPTY, lbaStart := 0, sectorCount := 0 }

/-- The entries of a disk. -/
abbrev Table : Type := Fin MBR_MAX_PARTITIONS → PartitionInfo

def entryOffset (slot : ℕ) : ℕ := MBR_PARTITION_TABLE_OFFSET + slot * MBR_PARTITION_ENTRY_SIZE

def readEntry (mbr : Sector) (slot : ℕ) : PartitionInfo where
  bootable := byteAt mbr (entryOffset slot) == 0x80
  type := byteAt mbr (entryOffset slot + 4)
  lbaStart := wordAt mbr (entryOffset slot + 8)
  sectorCount := wordAt mbr (entryOffset slot + 12)

def partitionReadTable (mbr : Sector) : Table := fun slot ↦ readEntry mbr slot

def setByte (mbr : Sector) (index : ℕ) (byte : UInt8) : Sector := copyInto mbr index 1 fun _ ↦ byte

def setCylinders (mbr : Sector) (index : ℕ) : Sector :=
  setByte (setByte (setByte mbr index 0xFE) (index + 1) 0xFF) (index + 2) 0xFF

/-- An entry is cleared, and written if there is a partition in it. -/
def writeEntry (mbr : Sector) (slot : ℕ) (part : PartitionInfo) : Sector :=
  let cleared := copyInto mbr (entryOffset slot) MBR_PARTITION_ENTRY_SIZE fun _ ↦ 0
  if part.type ≠ PART_TYPE_EMPTY ∧ 0 < part.sectorCount then
    let flagged := setByte cleared (entryOffset slot) (if part.bootable then 0x80 else 0)
    let typed := setByte flagged (entryOffset slot + 4) part.type
    let placed := setWord typed (entryOffset slot + 8) part.lbaStart
    let sized := setWord placed (entryOffset slot + 12) part.sectorCount
    setCylinders (setCylinders sized (entryOffset slot + 1)) (entryOffset slot + 5)
  else cleared

def partitionWriteTable (mbr : Sector) (info : Table) : Sector :=
  let written := (List.finRange MBR_MAX_PARTITIONS).foldl
    (fun mbr slot ↦ writeEntry mbr slot.val (info slot)) mbr
  setByte (setByte written MBR_SIGNATURE_OFFSET 0x55) (MBR_SIGNATURE_OFFSET + 1) 0xAA

/-! ### Calls -/

def freeSlot (info : Table) : Option (Fin MBR_MAX_PARTITIONS) :=
  (List.finRange MBR_MAX_PARTITIONS).find? fun slot ↦ (info slot).type == PART_TYPE_EMPTY

/-- A new partition overlaps with an existing one, by ends of 32 bits. -/
def overlaps (startLba sizeSectors : UInt32) (part : PartitionInfo) : Bool :=
  let endLba := startLba + sizeSectors
  let pStart := part.lbaStart
  let pEnd := pStart + part.sectorCount
  part.type != PART_TYPE_EMPTY &&
    ((startLba ≥ pStart && startLba < pEnd) || (endLba > pStart && endLba ≤ pEnd) ||
      (startLba ≤ pStart && endLba ≥ pEnd))

/-- `partition_create`: its result, and the boot record. -/
def partitionCreate (allowed : Bool) (startLba sizeSectors : UInt32) (type : UInt8) (mbr : Sector) :
    ℤ × Sector :=
  if ¬allowed then (-1, mbr)
  else
    let disk := partitionReadTable mbr
    match freeSlot disk with
    | none => (-1, mbr)
    | some slot =>
      if (List.finRange MBR_MAX_PARTITIONS).any fun other ↦
        overlaps startLba sizeSectors (disk other) then (-1, mbr)
      else
        (slot, partitionWriteTable mbr (Function.update disk slot
          { bootable := false, type, lbaStart := startLba, sectorCount := sizeSectors }))

/-- `partition_delete`: its result, and the boot record. -/
def partitionDelete (allowed : Bool) (partitionNum : UInt8) (mbr : Sector) : ℤ × Sector :=
  if hslot : partitionNum.toNat < MBR_MAX_PARTITIONS then
    if ¬allowed then (-1, mbr)
    else
      let disk := partitionReadTable mbr
      if (disk ⟨partitionNum.toNat, hslot⟩).type = PART_TYPE_EMPTY then (-1, mbr)
      else
        (0, partitionWriteTable mbr (Function.update disk ⟨partitionNum.toNat, hslot⟩
          PartitionInfo.empty))
  else (-1, mbr)

/-- `partition_set_bootable`: its result, and the boot record. -/
def partitionSetBootable (allowed : Bool) (partitionNum : UInt8) (mbr : Sector) : ℤ × Sector :=
  if partitionNum.toNat < MBR_MAX_PARTITIONS then
    if ¬allowed then (-1, mbr)
    else
      let disk := partitionReadTable mbr
      (0, partitionWriteTable mbr fun slot ↦
        { disk slot with bootable := slot.val == partitionNum.toNat })
  else (-1, mbr)

/-! ### What is read of what was written -/

variable {mbr : Sector} {slot other index : ℕ} {part : PartitionInfo} {info : Table}

theorem byteAt_setByte (mbr : Sector) (byte : UInt8) (hindex : index < EYNFS_BLOCK_SIZE) :
    byteAt (setByte mbr index byte) index = byte := by
  rw [setByte, byteAt_copyInto_of_inside mbr hindex (Nat.le_refl _) (Nat.lt_succ_self _)]

theorem byteAt_setByte_of_ne (mbr : Sector) (byte : UInt8) (hne : other ≠ index) :
    byteAt (setByte mbr index byte) other = byteAt mbr other :=
  byteAt_copyInto_of_outside mbr (by omega)

theorem wordAt_setByte (mbr : Sector) (byte : UInt8)
    (houtside : index < other ∨ other + 4 ≤ index) :
    wordAt (setByte mbr index byte) other = wordAt mbr other :=
  wordAt_copyInto_of_outside mbr (by omega)

theorem readEntry_congr {before : Sector}
    (hbytes : ∀ byte < MBR_PARTITION_ENTRY_SIZE,
      byteAt mbr (entryOffset slot + byte) = byteAt before (entryOffset slot + byte)) :
    readEntry mbr slot = readEntry before slot := by
  have hflag := hbytes 0 (by decide)
  rw [Nat.add_zero] at hflag
  have hword {offset : ℕ} (hoffset : offset + 4 ≤ MBR_PARTITION_ENTRY_SIZE) :
      wordAt mbr (entryOffset slot + offset) = wordAt before (entryOffset slot + offset) := by
    refine wordAt_congr fun byte hbyte ↦ ?_
    rw [Nat.add_assoc]
    exact hbytes (offset + byte) (by omega)
  rw [readEntry, readEntry, hflag, hbytes 4 (by decide), hword (by decide), hword (by decide)]

def PartitionInfo.written (part : PartitionInfo) : PartitionInfo :=
  if part.type ≠ PART_TYPE_EMPTY ∧ 0 < part.sectorCount then part else PartitionInfo.empty

/-- Where the entries are: inside of the sector, and apart from each other and the signature. -/
theorem entryOffset_spec (hslot : slot < MBR_MAX_PARTITIONS) :
    entryOffset slot = 446 + slot * 16 ∧ entryOffset slot + 16 ≤ MBR_SIGNATURE_OFFSET := by
  change slot < 4 at hslot
  change 446 + slot * 16 = 446 + slot * 16 ∧ 446 + slot * 16 + 16 ≤ 510
  omega

theorem byteAt_setCylinders (mbr : Sector) (houtside : other < index ∨ index + 3 ≤ other) :
    byteAt (setCylinders mbr index) other = byteAt mbr other := by
  rw [setCylinders, byteAt_setByte_of_ne _ _ (by omega), byteAt_setByte_of_ne _ _ (by omega),
    byteAt_setByte_of_ne _ _ (by omega)]

theorem wordAt_setCylinders (mbr : Sector) (houtside : index + 3 ≤ other) :
    wordAt (setCylinders mbr index) other = wordAt mbr other := by
  rw [setCylinders, wordAt_setByte _ _ (by omega), wordAt_setByte _ _ (by omega),
    wordAt_setByte _ _ (by omega)]

theorem byteAt_setWord_of_outside (mbr : Sector) (word : UInt32)
    (houtside : other < index ∨ index + 4 ≤ other) :
    byteAt (setWord mbr index word) other = byteAt mbr other :=
  byteAt_copyInto_of_outside mbr houtside

theorem byteAt_writeEntry_of_outside (mbr : Sector) (part : PartitionInfo)
    (houtside : index < entryOffset slot ∨ entryOffset slot + MBR_PARTITION_ENTRY_SIZE ≤ index) :
    byteAt (writeEntry mbr slot part) index = byteAt mbr index := by
  have hcleared : byteAt (copyInto mbr (entryOffset slot) MBR_PARTITION_ENTRY_SIZE fun _ ↦ 0)
      index = byteAt mbr index := byteAt_copyInto_of_outside mbr houtside
  change index < entryOffset slot ∨ entryOffset slot + 16 ≤ index at houtside
  rw [writeEntry]
  by_cases hlive : part.type ≠ PART_TYPE_EMPTY ∧ 0 < part.sectorCount
  · rw [if_pos hlive, byteAt_setCylinders _ (by omega), byteAt_setCylinders _ (by omega),
      byteAt_setWord_of_outside _ _ (by omega), byteAt_setWord_of_outside _ _ (by omega),
      byteAt_setByte_of_ne _ _ (by omega), byteAt_setByte_of_ne _ _ (by omega), hcleared]
  · rw [if_neg hlive, hcleared]

theorem readEntry_writeEntry (mbr : Sector) (part : PartitionInfo)
    (hslot : slot < MBR_MAX_PARTITIONS) :
    readEntry (writeEntry mbr slot part) slot = part.written := by
  have hinside : entryOffset slot + 16 < EYNFS_BLOCK_SIZE := by
    have hoffset := (entryOffset_spec hslot).2
    exact Nat.lt_of_le_of_lt hoffset (by decide)
  rw [writeEntry, PartitionInfo.written]
  by_cases hlive : part.type ≠ PART_TYPE_EMPTY ∧ 0 < part.sectorCount
  · rw [if_pos hlive, if_pos hlive, readEntry]
    have hflag (bootable : Bool) : ((if bootable then 0x80 else 0 : UInt8) == 0x80) = bootable := by
      cases bootable <;> rfl
    congr 1
    · rw [byteAt_setCylinders _ (by omega), byteAt_setCylinders _ (by omega),
        byteAt_setWord_of_outside _ _ (by omega), byteAt_setWord_of_outside _ _ (by omega),
        byteAt_setByte_of_ne _ _ (by omega), byteAt_setByte _ _ (by omega), hflag]
    · rw [byteAt_setCylinders _ (by omega), byteAt_setCylinders _ (by omega),
        byteAt_setWord_of_outside _ _ (by omega), byteAt_setWord_of_outside _ _ (by omega),
        byteAt_setByte _ _ (by omega)]
    · rw [wordAt_setCylinders _ (by omega), wordAt_setCylinders _ (by omega), setWord,
        wordAt_copyInto_of_outside _ (by omega), wordAt_setWord _ _ (by omega)]
    · rw [wordAt_setCylinders _ (by omega), wordAt_setCylinders _ (by omega),
        wordAt_setWord _ _ (by omega)]
  · rw [if_neg hlive, if_neg hlive]
    have hzero {index : ℕ} (hfrom : entryOffset slot ≤ index)
        (hto : index < entryOffset slot + 16) :
        byteAt (copyInto mbr (entryOffset slot) MBR_PARTITION_ENTRY_SIZE fun _ ↦ 0) index = 0 :=
      byteAt_copyInto_of_inside mbr (by omega) hfrom hto
    have hword {offset : ℕ} (hoffset : offset + 4 ≤ 16) :
        wordAt (copyInto mbr (entryOffset slot) MBR_PARTITION_ENTRY_SIZE fun _ ↦ 0)
          (entryOffset slot + offset) = 0 := by
      rw [wordAt, hzero (by omega) (by omega), hzero (by omega) (by omega),
        hzero (by omega) (by omega), hzero (by omega) (by omega)]
      rfl
    rw [readEntry, hzero (by omega) (by omega), hzero (by omega) (by omega), hword (by omega),
      hword (by omega)]
    rfl

theorem readEntry_writeEntry_of_ne (mbr : Sector) (part : PartitionInfo) (hne : other ≠ slot) :
    readEntry (writeEntry mbr slot part) other = readEntry mbr other := by
  refine readEntry_congr fun byte hbyte ↦ byteAt_writeEntry_of_outside mbr part ?_
  change byte < 16 at hbyte
  change 446 + other * 16 + byte < 446 + slot * 16 ∨ 446 + slot * 16 + 16 ≤ 446 + other * 16 + byte
  omega

theorem partitionReadTable_partitionWriteTable (mbr : Sector) (info : Table) :
    partitionReadTable (partitionWriteTable mbr info) = fun slot ↦ (info slot).written := by
  funext slot
  have hsignature (mbr : Sector) : readEntry (setByte (setByte mbr MBR_SIGNATURE_OFFSET 0x55)
      (MBR_SIGNATURE_OFFSET + 1) 0xAA) slot = readEntry mbr slot := by
    refine readEntry_congr fun byte hbyte ↦ ?_
    have hinside := (entryOffset_spec slot.isLt).2
    change byte < 16 at hbyte
    rw [byteAt_setByte_of_ne _ _ (by omega), byteAt_setByte_of_ne _ _ (by omega)]
  -- the entries are written one after another, and each is read from its own write on
  have hall : ∀ (slots : List (Fin MBR_MAX_PARTITIONS)) (mbr : Sector), slots.Nodup →
      readEntry (slots.foldl (fun mbr slot ↦ writeEntry mbr slot.val (info slot)) mbr) slot =
        if slot ∈ slots then (info slot).written else readEntry mbr slot := by
    intro slots
    induction slots with
    | nil => exact fun mbr _ ↦ rfl
    | cons first slots ih =>
      intro mbr hnodup
      obtain ⟨hfirst, hslots⟩ := List.nodup_cons.mp hnodup
      rw [List.foldl_cons, ih _ hslots]
      by_cases hmem : slot ∈ slots
      · rw [if_pos hmem, if_pos (List.mem_cons_of_mem _ hmem)]
      · rw [if_neg hmem]
        by_cases heq : slot = first
        · rw [heq, if_pos List.mem_cons_self, readEntry_writeEntry _ _ first.isLt]
        · rw [if_neg (by simp [heq, hmem]),
            readEntry_writeEntry_of_ne _ _ fun hval ↦ heq (Fin.ext hval)]
  rw [partitionReadTable, partitionWriteTable, hsignature, hall _ _ (List.nodup_finRange _),
    if_pos (List.mem_finRange slot)]

end EynOS.Storage.Partition
