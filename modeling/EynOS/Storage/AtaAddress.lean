import EynOS.Storage.BlockCache
import Mathlib.Tactic.Ring

/-!
# The address of a sector on an ATA drive

`ata_program_sector_address` writes the address of a sector into the task file of a drive, in one of
three forms: 28 or 48 bits, or cylinder, head and sector. `TaskFile.decode` is what the drive makes
of it, where each register holds the last two bytes that were written into it. `addressed_iff` says
for which sectors the drive finds the one that was meant.

Not modelled: the waits between the writes, and what is printed.
-/

namespace EynOS.Storage.Ata

/-! ### Drives -/

def ATA_LBA28_MAX_SECTOR : UInt32 := 0x0FFFFFFF

def ATA_CMD_READ_PIO : UInt8 := 0x20

def ATA_CMD_WRITE_PIO : UInt8 := 0x30

def ATA_CMD_READ_PIO_EXT : UInt8 := 0x24

def ATA_CMD_WRITE_PIO_EXT : UInt8 := 0x34

/-- What is known of a drive that was detected: its row of the tables of `ata.c`. -/
structure Detected where
  lba : Bool
  lba48 : Bool
  sectors : UInt32
  lba48Sectors : UInt64
  cylinders : UInt16
  heads : UInt16
  spt : UInt16

def ataGetChsGeometry (drive : Detected) : Option (UInt16 × UInt16 × UInt16) :=
  if drive.cylinders = 0 ∨ drive.heads = 0 ∨ drive.spt = 0 then none
  else if drive.heads > 16 ∨ drive.spt > 63 then none
  else some (drive.cylinders, drive.heads, drive.spt)

def ataComputeDriveMaxLba (drive : Detected) : Option UInt32 :=
  if drive.lba then
    if drive.lba48 ∧ drive.lba48Sectors ≠ 0 then
      let max64 := drive.lba48Sectors - 1
      some (if max64 > 0xFFFFFFFF then 0xFFFFFFFF else max64.toUInt32)
    else if drive.sectors = 0 then none
    else
      let maxLba := drive.sectors - 1
      some (if maxLba > ATA_LBA28_MAX_SECTOR then ATA_LBA28_MAX_SECTOR else maxLba)
  else
    match ataGetChsGeometry drive with
    | none => none
    | some (cyl, heads, spt) =>
      let sectorsPerCyl := heads.toUInt32 * spt.toUInt32
      let total := cyl.toUInt32 * sectorsPerCyl
      if total = 0 then none else some (total - 1)

/-! ### Programming an address -/

/-- The registers that are written, and the one that starts a command. -/
inductive Register
  | seccount0 | lba0 | lba1 | lba2 | hddevsel | command
  deriving DecidableEq

def slaveBit (number : Fin 8) : UInt8 := if number.val % 2 = 1 then 0x10 else 0x00

def addressByte (lba : UInt32) (index : UInt32) : UInt8 := ((lba >>> (8 * index)) &&& 0xFF).toUInt8

/-- `ata_program_sector_address`: the command where it returns 0, and what is written. -/
def ataProgramSectorAddress (drive : Detected) (number : Fin 8) (lba : UInt32) (isWrite : Bool) :
    Option UInt8 × List (Register × UInt8) :=
  match ataComputeDriveMaxLba drive with
  | none => (none, [])
  | some maxLba =>
    if lba > maxLba then (none, [])
    else if drive.lba then
      if lba > ATA_LBA28_MAX_SECTOR then
        if ¬drive.lba48 then (none, [])
        else
          (some (if isWrite then ATA_CMD_WRITE_PIO_EXT else ATA_CMD_READ_PIO_EXT),
            [(.hddevsel, (0x40 : UInt8) ||| slaveBit number),
              (.seccount0, 0x00), (.lba0, 0x00), (.lba1, 0x00), (.lba2, 0x00),
              (.seccount0, 0x01), (.lba0, addressByte lba 0), (.lba1, addressByte lba 1),
              (.lba2, addressByte lba 2)])
      else
        (some (if isWrite then ATA_CMD_WRITE_PIO else ATA_CMD_READ_PIO),
          [(.hddevsel, (0xE0 : UInt8) ||| slaveBit number ||| ((lba >>> 24) &&& 0x0F).toUInt8),
            (.seccount0, 1), (.lba0, addressByte lba 0), (.lba1, addressByte lba 1),
            (.lba2, addressByte lba 2)])
    else
      match ataGetChsGeometry drive with
      | none => (none, [])
      | some (cyl, heads, spt) =>
        let sectorsPerCylinder := heads.toUInt32 * spt.toUInt32
        let totalChsSectors := cyl.toUInt32 * sectorsPerCylinder
        if sectorsPerCylinder = 0 ∨ lba ≥ totalChsSectors then (none, [])
        else
          let chsCyl := (lba / sectorsPerCylinder).toUInt16
          let rem := lba % sectorsPerCylinder
          let chsHead := (rem / spt.toUInt32).toUInt8
          let chsSector := ((rem % spt.toUInt32) + 1).toUInt8
          (some (if isWrite then ATA_CMD_WRITE_PIO else ATA_CMD_READ_PIO),
            [(.hddevsel, (0xA0 : UInt8) ||| slaveBit number ||| (chsHead &&& 0x0F)),
              (.seccount0, 1), (.lba0, chsSector), (.lba1, (chsCyl &&& 0xFF).toUInt8),
              (.lba2, ((chsCyl >>> 8) &&& 0xFF).toUInt8)])

/-! ### The drive -/

/-- A register that holds the last two bytes that were written into it. -/
structure Fifo where
  last : UInt8
  before : UInt8

def Fifo.push (fifo : Fifo) (byte : UInt8) : Fifo := { last := byte, before := fifo.last }

/-- The task file of a drive. -/
structure TaskFile where
  device : UInt8
  seccount : Fifo
  lba0 : Fifo
  lba1 : Fifo
  lba2 : Fifo

/-- A byte is written into a register. -/
def TaskFile.out (file : TaskFile) : Register × UInt8 → TaskFile
  | (.hddevsel, byte) => { file with device := byte }
  | (.seccount0, byte) => { file with seccount := file.seccount.push byte }
  | (.lba0, byte) => { file with lba0 := file.lba0.push byte }
  | (.lba1, byte) => { file with lba1 := file.lba1.push byte }
  | (.lba2, byte) => { file with lba2 := file.lba2.push byte }
  | (.command, _) => file

/-- What a drive makes of a command: the first sector, and how many there are. The extended commands
take two bytes of every register, the others one. -/
def TaskFile.decode (drive : Detected) (file : TaskFile) (command : UInt8) : Option (ℕ × ℕ) :=
  if command = ATA_CMD_READ_PIO_EXT ∨ command = ATA_CMD_WRITE_PIO_EXT then
    if file.device &&& 0x40 = 0 then none
    else
      let count := file.seccount.last.toNat + 256 * file.seccount.before.toNat
      some (file.lba0.last.toNat + 256 * file.lba1.last.toNat + 65536 * file.lba2.last.toNat +
        16777216 * file.lba0.before.toNat + 4294967296 * file.lba1.before.toNat +
          1099511627776 * file.lba2.before.toNat, if count = 0 then 65536 else count)
  else if command = ATA_CMD_READ_PIO ∨ command = ATA_CMD_WRITE_PIO then
    let count := if file.seccount.last = 0 then 256 else file.seccount.last.toNat
    let low := (file.device &&& 0x0F).toNat
    if file.device &&& 0x40 ≠ 0 then
      some (file.lba0.last.toNat + 256 * file.lba1.last.toNat + 65536 * file.lba2.last.toNat +
        16777216 * low, count)
    else
      let cylinder := file.lba1.last.toNat + 256 * file.lba2.last.toNat
      let sector := file.lba0.last.toNat
      if cylinder < drive.cylinders.toNat ∧ low < drive.heads.toNat ∧ 0 < sector ∧
        sector ≤ drive.spt.toNat then
        some ((cylinder * drive.heads.toNat + low) * drive.spt.toNat + (sector - 1), count)
      else none
  else none

/-- How many sectors of a drive can be addressed: as many as it has, in the form that it has. -/
def Detected.addressable (drive : Detected) : ℕ :=
  if drive.lba then
    if drive.lba48 ∧ drive.lba48Sectors ≠ 0 then drive.lba48Sectors.toNat
    else min drive.sectors.toNat 268435456
  else
    match ataGetChsGeometry drive with
    | none => 0
    | some (cyl, heads, spt) => cyl.toNat * heads.toNat * spt.toNat

/-! ### Transfers -/

def ataWriteSector (drive : Detected) (number : Fin 8) (lba : UInt32) (data : Sector)
    (file : TaskFile) (content : ℕ → Sector) : ℕ → Sector :=
  match ataProgramSectorAddress drive number lba true with
  | (none, _) => content
  | (some command, writes) =>
    match (writes.foldl TaskFile.out file).decode drive command with
    | some (sector, 1) => Function.update content sector data
    | _ => content

def ataReadSector (drive : Detected) (number : Fin 8) (lba : UInt32) (file : TaskFile)
    (content : ℕ → Sector) : Option Sector :=
  match ataProgramSectorAddress drive number lba false with
  | (none, _) => none
  | (some command, writes) =>
    match (writes.foldl TaskFile.out file).decode drive command with
    | some (sector, 1) => some (content sector)
    | _ => none

/-- A sector is addressed faithfully: the address is refused, and nothing started, exactly where the
drive cannot address it; and where it is taken the drive that was meant finds that one sector,
whatever the registers held before. So a write changes no other sector, and a read gives that
one. -/
structure Addressed (drive : Detected) (number : Fin 8) (lba : UInt32) : Prop where
  refused : ∀ isWrite, (ataProgramSectorAddress drive number lba isWrite).1 = none ↔
    drive.addressable ≤ lba.toNat
  quiet : ∀ isWrite byte, (.command, byte) ∉ (ataProgramSectorAddress drive number lba isWrite).2
  decoded : ∀ isWrite command file,
    (ataProgramSectorAddress drive number lba isWrite).1 = some command →
      let programmed := (ataProgramSectorAddress drive number lba isWrite).2.foldl TaskFile.out file
      programmed.device &&& 0x10 = slaveBit number ∧
        programmed.decode drive command = some (lba.toNat, 1)
  written : ∀ data file content, lba.toNat < drive.addressable →
    ataWriteSector drive number lba data file content =
      Function.update content lba.toNat data
  read : ∀ file content, lba.toNat < drive.addressable →
    ataReadSector drive number lba file content = some (content lba.toNat)

/-! ### Which addresses are taken -/

variable {drive : Detected} {number : Fin 8} {lba : UInt32} {isWrite : Bool} {file : TaskFile}

theorem geometry_spec {cyl heads spt : UInt16}
    (hgeometry : ataGetChsGeometry drive = some (cyl, heads, spt)) :
    drive.cylinders = cyl ∧ drive.heads = heads ∧ drive.spt = spt ∧ 0 < cyl.toNat ∧
      0 < heads.toNat ∧ heads.toNat ≤ 16 ∧ 0 < spt.toNat ∧ spt.toNat ≤ 63 := by
  rw [ataGetChsGeometry] at hgeometry
  split_ifs at hgeometry with hzero hlarge
  obtain ⟨rfl, hrest⟩ := Prod.mk.inj (Option.some.inj hgeometry)
  obtain ⟨rfl, rfl⟩ := Prod.mk.inj hrest
  simp only [not_or, ← UInt16.toNat_inj, gt_iff_lt, UInt16.lt_iff_toNat_lt,
    Nat.not_lt] at hzero hlarge
  obtain ⟨hcyl, hheads, hspt⟩ := hzero
  exact ⟨rfl, rfl, rfl, Nat.pos_of_ne_zero hcyl, Nat.pos_of_ne_zero hheads, hlarge.1,
    Nat.pos_of_ne_zero hspt, hlarge.2⟩

/-- The products of a geometry are not cut off. -/
theorem geometry_products {cyl heads spt : UInt16}
    (hgeometry : ataGetChsGeometry drive = some (cyl, heads, spt)) :
    (heads.toUInt32 * spt.toUInt32).toNat = heads.toNat * spt.toNat ∧
      (cyl.toUInt32 * (heads.toUInt32 * spt.toUInt32)).toNat =
        cyl.toNat * heads.toNat * spt.toNat := by
  obtain ⟨-, -, -, -, -, hheads, -, hspt⟩ := geometry_spec hgeometry
  have hcyl := cyl.toNat_lt
  have hsectors : heads.toNat * spt.toNat ≤ 16 * 63 := Nat.mul_le_mul hheads hspt
  have htotal : cyl.toNat * (heads.toNat * spt.toNat) ≤ 65536 * (16 * 63) :=
    Nat.mul_le_mul hcyl.le hsectors
  have hfirst : (heads.toUInt32 * spt.toUInt32).toNat = heads.toNat * spt.toNat := by
    rw [UInt32.toNat_mul, UInt16.toNat_toUInt32, UInt16.toNat_toUInt32, Nat.mod_eq_of_lt (by omega)]
  refine ⟨hfirst, ?_⟩
  rw [UInt32.toNat_mul, hfirst, UInt16.toNat_toUInt32, Nat.mod_eq_of_lt (by omega), Nat.mul_assoc]

/-- The largest address is one less than how many sectors can be addressed. -/
theorem maxLba_spec (drive : Detected) (lba : UInt32) :
    (∀ maxLba ∈ ataComputeDriveMaxLba drive, maxLba < lba) ↔ drive.addressable ≤ lba.toNat := by
  have hlba := lba.toNat_lt
  rw [ataComputeDriveMaxLba, Detected.addressable]
  by_cases hmode : drive.lba = true
  · rw [if_pos hmode, if_pos hmode]
    by_cases h48 : drive.lba48 = true ∧ drive.lba48Sectors ≠ 0
    · have hsome : drive.lba48Sectors.toNat ≠ 0 := fun hzero ↦
        h48.2 (UInt64.toNat_inj.mp (hzero.trans UInt64.toNat_zero.symm))
      have hlast : (drive.lba48Sectors - 1).toNat = drive.lba48Sectors.toNat - 1 := by
        have hsectors := drive.lba48Sectors.toNat_lt
        rw [UInt64.toNat_sub, UInt64.toNat_one]
        omega
      rw [if_pos h48, if_pos h48]
      simp only [Option.mem_some_iff, forall_eq', gt_iff_lt, UInt64.lt_iff_toNat_lt, hlast]
      rw [show (0xFFFFFFFF : UInt64).toNat = 4294967295 from rfl]
      split_ifs with hcap
      · rw [UInt32.lt_iff_toNat_lt, show (0xFFFFFFFF : UInt32).toNat = 4294967295 from rfl]
        omega
      · rw [UInt32.lt_iff_toNat_lt, UInt64.toNat_toUInt32, hlast]
        omega
    · rw [if_neg h48, if_neg h48]
      by_cases hzero : drive.sectors = 0
      · rw [if_pos hzero, hzero]
        simp
      · have hsome : drive.sectors.toNat ≠ 0 := fun hnot ↦
          hzero (UInt32.toNat_inj.mp (hnot.trans UInt32.toNat_zero.symm))
        have hlast : (drive.sectors - 1).toNat = drive.sectors.toNat - 1 := by
          have hsectors := drive.sectors.toNat_lt
          rw [UInt32.toNat_sub, UInt32.toNat_one]
          omega
        rw [if_neg hzero]
        simp only [Option.mem_some_iff, forall_eq', gt_iff_lt, UInt32.lt_iff_toNat_lt, hlast]
        rw [show ATA_LBA28_MAX_SECTOR.toNat = 268435455 from rfl]
        split_ifs with hcap
        · rw [show ATA_LBA28_MAX_SECTOR.toNat = 268435455 from rfl]
          omega
        · rw [hlast]
          omega
  · rw [if_neg hmode, if_neg hmode]
    cases hgeometry : ataGetChsGeometry drive with
    | none => simp
    | some geometry =>
      obtain ⟨cyl, heads, spt⟩ := geometry
      obtain ⟨-, -, -, hcyl, hheads, -, hspt, -⟩ := geometry_spec hgeometry
      obtain ⟨-, htotal⟩ := geometry_products hgeometry
      have hpos := Nat.mul_pos (Nat.mul_pos hcyl hheads) hspt
      dsimp only
      generalize hvalue : cyl.toUInt32 * (heads.toUInt32 * spt.toUInt32) = total at *
      have hne : total ≠ 0 := by
        rintro rfl
        rw [UInt32.toNat_zero] at htotal
        omega
      have hlast : (total - 1).toNat = total.toNat - 1 := by
        have hlt := total.toNat_lt
        rw [UInt32.toNat_sub, UInt32.toNat_one]
        omega
      rw [if_neg hne]
      simp only [Option.mem_some_iff, forall_eq', UInt32.lt_iff_toNat_lt, hlast]
      omega

/-- An address that the drive does not have is refused, and nothing is written. -/
theorem program_refused (number : Fin 8) (isWrite : Bool) (hlba : drive.addressable ≤ lba.toNat) :
    ataProgramSectorAddress drive number lba isWrite = (none, []) := by
  have hmax := (maxLba_spec drive lba).mpr hlba
  rw [ataProgramSectorAddress]
  cases hvalue : ataComputeDriveMaxLba drive with
  | none => rfl
  | some maxLba => exact if_pos (hmax maxLba hvalue)

theorem exists_maxLba (hlba : lba.toNat < drive.addressable) :
    ∃ maxLba, ataComputeDriveMaxLba drive = some maxLba ∧ ¬maxLba < lba := by
  have hnot := mt (maxLba_spec drive lba).mp (Nat.not_le.mpr hlba)
  push Not at hnot
  obtain ⟨maxLba, hmax, hle⟩ := hnot
  exact ⟨maxLba, hmax, hle⟩

/-- An address of 28 bits. -/
theorem program_lba28 (number : Fin 8) (isWrite : Bool) (hmode : drive.lba = true)
    (hlba : lba.toNat < drive.addressable) (hsmall : ¬ATA_LBA28_MAX_SECTOR < lba) :
    ataProgramSectorAddress drive number lba isWrite =
      (some (if isWrite then ATA_CMD_WRITE_PIO else ATA_CMD_READ_PIO),
        [(.hddevsel, (0xE0 : UInt8) ||| slaveBit number ||| ((lba >>> 24) &&& 0x0F).toUInt8),
          (.seccount0, 1), (.lba0, addressByte lba 0), (.lba1, addressByte lba 1),
          (.lba2, addressByte lba 2)]) := by
  obtain ⟨maxLba, hmax, hle⟩ := exists_maxLba hlba
  rw [ataProgramSectorAddress, hmax]
  exact (if_neg hle).trans ((if_pos hmode).trans (if_neg hsmall))

/-- An address of more than 28 bits. -/
theorem program_lba48 (number : Fin 8) (isWrite : Bool) (hmode : drive.lba = true)
    (hlba : lba.toNat < drive.addressable) (hlarge : ATA_LBA28_MAX_SECTOR < lba) :
    ataProgramSectorAddress drive number lba isWrite =
      (some (if isWrite then ATA_CMD_WRITE_PIO_EXT else ATA_CMD_READ_PIO_EXT),
        [(.hddevsel, (0x40 : UInt8) ||| slaveBit number),
          (.seccount0, 0x00), (.lba0, 0x00), (.lba1, 0x00), (.lba2, 0x00),
          (.seccount0, 0x01), (.lba0, addressByte lba 0), (.lba1, addressByte lba 1),
          (.lba2, addressByte lba 2)]) := by
  obtain ⟨maxLba, hmax, hle⟩ := exists_maxLba hlba
  have h48 : drive.lba48 = true := by
    by_contra hnot
    rw [Detected.addressable, if_pos hmode, if_neg fun h48 ↦ hnot h48.1] at hlba
    have hmin := Nat.min_le_right drive.sectors.toNat 268435456
    have hlt := UInt32.lt_iff_toNat_lt.mp hlarge
    rw [show ATA_LBA28_MAX_SECTOR.toNat = 268435455 from rfl] at hlt
    omega
  rw [ataProgramSectorAddress, hmax]
  refine (if_neg hle).trans ((if_pos hmode).trans ((if_pos hlarge).trans (if_neg ?_)))
  simp [h48]

theorem addressable_chs {cyl heads spt : UInt16} (hmode : ¬drive.lba = true)
    (hgeometry : ataGetChsGeometry drive = some (cyl, heads, spt)) :
    drive.addressable = cyl.toNat * heads.toNat * spt.toNat := by
  rw [Detected.addressable, if_neg hmode, hgeometry]

theorem exists_geometry (hmode : ¬drive.lba = true) (hlba : lba.toNat < drive.addressable) :
    ∃ cyl heads spt, ataGetChsGeometry drive = some (cyl, heads, spt) := by
  rw [Detected.addressable, if_neg hmode] at hlba
  cases hgeometry : ataGetChsGeometry drive with
  | none =>
    rw [hgeometry] at hlba
    exact absurd hlba (Nat.not_lt_zero _)
  | some geometry => exact ⟨geometry.1, geometry.2.1, geometry.2.2, rfl⟩

/-- An address of a cylinder, a head and a sector. -/
theorem program_chs {cyl heads spt : UInt16} (number : Fin 8) (isWrite : Bool)
    (hmode : ¬drive.lba = true)
    (hgeometry : ataGetChsGeometry drive = some (cyl, heads, spt))
    (hlba : lba.toNat < drive.addressable) :
    ataProgramSectorAddress drive number lba isWrite =
      (some (if isWrite then ATA_CMD_WRITE_PIO else ATA_CMD_READ_PIO),
        [(.hddevsel, (0xA0 : UInt8) ||| slaveBit number |||
            ((lba % (heads.toUInt32 * spt.toUInt32) / spt.toUInt32).toUInt8 &&& 0x0F)),
          (.seccount0, 1),
          (.lba0, (lba % (heads.toUInt32 * spt.toUInt32) % spt.toUInt32 + 1).toUInt8),
          (.lba1, ((lba / (heads.toUInt32 * spt.toUInt32)).toUInt16 &&& 0xFF).toUInt8),
          (.lba2,
            (((lba / (heads.toUInt32 * spt.toUInt32)).toUInt16 >>> 8) &&& 0xFF).toUInt8)]) := by
  obtain ⟨maxLba, hmax, hle⟩ := exists_maxLba hlba
  obtain ⟨-, -, -, -, hheads, -, hspt, -⟩ := geometry_spec hgeometry
  obtain ⟨hsectors, htotal⟩ := geometry_products hgeometry
  rw [addressable_chs hmode hgeometry] at hlba
  have hpos := Nat.mul_pos hheads hspt
  have hin : ¬(heads.toUInt32 * spt.toUInt32 = 0 ∨
      lba ≥ cyl.toUInt32 * (heads.toUInt32 * spt.toUInt32)) := by
    rintro (hzero | hover)
    · rw [hzero, UInt32.toNat_zero] at hsectors
      omega
    · have hover := UInt32.le_iff_toNat_le.mp hover
      rw [htotal] at hover
      exact absurd hlba (Nat.not_lt.mpr hover)
  rw [ataProgramSectorAddress, hmax]
  dsimp only
  rw [if_neg hle, if_neg hmode, hgeometry]
  exact if_neg hin

/-! ### What the drive makes of an address -/

/-- The device register: which drive is meant, in which form the address is, and four bits of it. -/
theorem device_spec (number : Fin 8) {low : UInt8} (hlow : low.toNat < 16) :
    (((0xE0 : UInt8) ||| slaveBit number ||| low) &&& 0x10 = slaveBit number ∧
      ((0xE0 : UInt8) ||| slaveBit number ||| low) &&& 0x40 ≠ 0 ∧
        ((0xE0 : UInt8) ||| slaveBit number ||| low) &&& 0x0F = low) ∧
    ((0xA0 : UInt8) ||| slaveBit number ||| low) &&& 0x10 = slaveBit number ∧
      ((0xA0 : UInt8) ||| slaveBit number ||| low) &&& 0x40 = 0 ∧
        ((0xA0 : UInt8) ||| slaveBit number ||| low) &&& 0x0F = low := by
  have hall : ∀ (number : Fin 8) (low : Fin 16),
      (((0xE0 : UInt8) ||| slaveBit number ||| UInt8.ofNat low.val) &&& 0x10 = slaveBit number ∧
        ((0xE0 : UInt8) ||| slaveBit number ||| UInt8.ofNat low.val) &&& 0x40 ≠ 0 ∧
          ((0xE0 : UInt8) ||| slaveBit number ||| UInt8.ofNat low.val) &&& 0x0F =
            UInt8.ofNat low.val) ∧
      ((0xA0 : UInt8) ||| slaveBit number ||| UInt8.ofNat low.val) &&& 0x10 = slaveBit number ∧
        ((0xA0 : UInt8) ||| slaveBit number ||| UInt8.ofNat low.val) &&& 0x40 = 0 ∧
          ((0xA0 : UInt8) ||| slaveBit number ||| UInt8.ofNat low.val) &&& 0x0F =
            UInt8.ofNat low.val := by decide
  have hspec := hall number ⟨low.toNat, hlow⟩
  rwa [show UInt8.ofNat (⟨low.toNat, hlow⟩ : Fin 16).val = low from UInt8.ofNat_toNat] at hspec

theorem device_ext_spec (number : Fin 8) :
    ((0x40 : UInt8) ||| slaveBit number) &&& 0x10 = slaveBit number ∧
      ((0x40 : UInt8) ||| slaveBit number) &&& 0x40 ≠ 0 := by
  revert number
  decide

theorem toNat_addressByte (lba : UInt32) :
    (addressByte lba 0).toNat = lba.toNat % 256 ∧
      (addressByte lba 1).toNat = lba.toNat / 256 % 256 ∧
        (addressByte lba 2).toNat = lba.toNat / 65536 % 256 := by
  have hbyte (shift : UInt32) (count : ℕ) (hshift : shift.toNat % 32 = count) :
      ((lba >>> shift) &&& 0xFF).toUInt8.toNat = lba.toNat / 2 ^ count % 256 := by
    rw [UInt32.toNat_toUInt8, UInt32.toNat_and, UInt32.toNat_shiftRight, hshift,
      Nat.shiftRight_eq_div_pow, show (0xFF : UInt32).toNat = 2 ^ 8 - 1 from rfl,
      Nat.and_two_pow_sub_one_eq_mod, Nat.mod_mod]
  refine ⟨?_, hbyte 8 8 rfl, hbyte 16 16 rfl⟩
  have hfirst := hbyte 0 0 rfl
  rwa [Nat.pow_zero, Nat.div_one] at hfirst

theorem toNat_addressLow (lba : UInt32) :
    ((lba >>> 24) &&& 0x0F).toUInt8.toNat = lba.toNat / 16777216 % 16 := by
  rw [UInt32.toNat_toUInt8, UInt32.toNat_and, UInt32.toNat_shiftRight,
    show (24 : UInt32).toNat % 32 = 24 from rfl, Nat.shiftRight_eq_div_pow,
    show (0x0F : UInt32).toNat = 2 ^ 4 - 1 from rfl, Nat.and_two_pow_sub_one_eq_mod]
  omega

/-- What a drive makes of a command that is not an extended one. -/
theorem decode_short (drive : Detected) (file : TaskFile) (isWrite : Bool)
    (device first second third : UInt8) :
    ([(.hddevsel, device), (.seccount0, 1), (.lba0, first), (.lba1, second), (.lba2, third)].foldl
      TaskFile.out file).decode drive (if isWrite then ATA_CMD_WRITE_PIO else ATA_CMD_READ_PIO) =
      if device &&& 0x40 ≠ 0 then
        some (first.toNat + 256 * second.toNat + 65536 * third.toNat +
          16777216 * (device &&& 0x0F).toNat, 1)
      else if second.toNat + 256 * third.toNat < drive.cylinders.toNat ∧
          (device &&& 0x0F).toNat < drive.heads.toNat ∧ 0 < first.toNat ∧
            first.toNat ≤ drive.spt.toNat then
        some (((second.toNat + 256 * third.toNat) * drive.heads.toNat +
          (device &&& 0x0F).toNat) * drive.spt.toNat + (first.toNat - 1), 1)
      else none := by
  rw [TaskFile.decode, if_neg (by cases isWrite <;> decide), if_pos (by cases isWrite <;> decide)]
  rfl

/-- An address of 28 bits is found. -/
theorem decode_lba28 (drive : Detected) (number : Fin 8) (isWrite : Bool) (file : TaskFile)
    (hsmall : ¬ATA_LBA28_MAX_SECTOR < lba) :
    let programmed := [(.hddevsel, (0xE0 : UInt8) ||| slaveBit number |||
        ((lba >>> 24) &&& 0x0F).toUInt8), (.seccount0, 1), (.lba0, addressByte lba 0),
      (.lba1, addressByte lba 1), (.lba2, addressByte lba 2)].foldl TaskFile.out file
    programmed.device &&& 0x10 = slaveBit number ∧
      programmed.decode drive (if isWrite then ATA_CMD_WRITE_PIO else ATA_CMD_READ_PIO) =
        some (lba.toNat, 1) := by
  intro programmed
  have hlow := toNat_addressLow lba
  obtain ⟨hfirst, hsecond, hthird⟩ := toNat_addressByte lba
  have hlt : ((lba >>> 24) &&& 0x0F).toUInt8.toNat < 16 := by omega
  obtain ⟨⟨hslave, hform, hdevice⟩, -⟩ := device_spec number hlt
  refine ⟨hslave, (decode_short drive file isWrite _ _ _ _).trans ((if_pos hform).trans ?_)⟩
  have hle := UInt32.le_iff_toNat_le.mp (UInt32.not_lt.mp hsmall)
  rw [show ATA_LBA28_MAX_SECTOR.toNat = 268435455 from rfl] at hle
  rw [hdevice, hlow, hfirst, hsecond, hthird]
  congr 2
  omega

/-- Of an address of more than 28 bits 24 are found. -/
theorem decode_lba48 (drive : Detected) (number : Fin 8) (isWrite : Bool) (file : TaskFile) :
    ([(.hddevsel, (0x40 : UInt8) ||| slaveBit number), (.seccount0, 0x00), (.lba0, 0x00),
      (.lba1, 0x00), (.lba2, 0x00), (.seccount0, 0x01), (.lba0, addressByte lba 0),
      (.lba1, addressByte lba 1), (.lba2, addressByte lba 2)].foldl TaskFile.out file).decode drive
        (if isWrite then ATA_CMD_WRITE_PIO_EXT else ATA_CMD_READ_PIO_EXT) =
          some (lba.toNat % 16777216, 1) := by
  obtain ⟨hfirst, hsecond, hthird⟩ := toNat_addressByte lba
  rw [TaskFile.decode, if_pos (by cases isWrite <;> decide)]
  refine (if_neg (device_ext_spec number).2).trans ?_
  change some ((addressByte lba 0).toNat + 256 * (addressByte lba 1).toNat +
    65536 * (addressByte lba 2).toNat + 16777216 * 0 + 4294967296 * 0 + 1099511627776 * 0, 1) =
      some (lba.toNat % 16777216, 1)
  rw [hfirst, hsecond, hthird]
  congr 2
  omega

/-- The cylinder, the head and the sector of an address are there. -/
theorem chs_bounds {cyl heads spt : ℕ} (hheads : 0 < heads) (hspt : 0 < spt) {address : ℕ}
    (haddress : address < cyl * heads * spt) :
    address / (heads * spt) < cyl ∧ address % (heads * spt) / spt < heads ∧
      address % (heads * spt) % spt < spt := by
  refine ⟨Nat.div_lt_of_lt_mul ?_, Nat.div_lt_of_lt_mul ?_, Nat.mod_lt _ hspt⟩
  · rwa [Nat.mul_comm, ← Nat.mul_assoc]
  · rw [Nat.mul_comm spt heads]
    exact Nat.mod_lt _ (Nat.mul_pos hheads hspt)

/-- The parts of an address in cylinders fit into their registers. -/
theorem chs_parts {cyl heads spt : UInt16}
    (hgeometry : ataGetChsGeometry drive = some (cyl, heads, spt))
    (hlba : lba.toNat < cyl.toNat * heads.toNat * spt.toNat) :
    let sectors := heads.toUInt32 * spt.toUInt32
    ((lba / sectors).toUInt16 &&& 0xFF).toUInt8.toNat +
        256 * (((lba / sectors).toUInt16 >>> 8) &&& 0xFF).toUInt8.toNat =
      lba.toNat / (heads.toNat * spt.toNat) ∧
    ((lba % sectors / spt.toUInt32).toUInt8 &&& 0x0F).toNat =
      lba.toNat % (heads.toNat * spt.toNat) / spt.toNat ∧
    (lba % sectors % spt.toUInt32 + 1).toUInt8.toNat =
      lba.toNat % (heads.toNat * spt.toNat) % spt.toNat + 1 := by
  intro sectors
  obtain ⟨-, -, -, -, hheads, hheadsLe, hspt, hsptLe⟩ := geometry_spec hgeometry
  obtain ⟨hsectors, -⟩ := geometry_products hgeometry
  have hcyl := cyl.toNat_lt
  obtain ⟨hcylinder, hhead, hsector⟩ := chs_bounds hheads hspt hlba
  have hcylinders : (lba / sectors).toUInt16.toNat = lba.toNat / (heads.toNat * spt.toNat) := by
    rw [UInt32.toNat_toUInt16, UInt32.toNat_div, hsectors, Nat.mod_eq_of_lt (by omega)]
  refine ⟨?_, ?_, ?_⟩
  · have hlow : ((lba / sectors).toUInt16 &&& 0xFF).toUInt8.toNat =
        lba.toNat / (heads.toNat * spt.toNat) % 256 := by
      rw [UInt16.toNat_toUInt8, UInt16.toNat_and, hcylinders,
        show (0xFF : UInt16).toNat = 2 ^ 8 - 1 from rfl, Nat.and_two_pow_sub_one_eq_mod,
        Nat.mod_mod]
    have hhigh : (((lba / sectors).toUInt16 >>> 8) &&& 0xFF).toUInt8.toNat =
        lba.toNat / (heads.toNat * spt.toNat) / 256 % 256 := by
      rw [UInt16.toNat_toUInt8, UInt16.toNat_and, UInt16.toNat_shiftRight, hcylinders,
        show (8 : UInt16).toNat % 16 = 8 from rfl, Nat.shiftRight_eq_div_pow,
        show (0xFF : UInt16).toNat = 2 ^ 8 - 1 from rfl, Nat.and_two_pow_sub_one_eq_mod,
        Nat.mod_mod]
    rw [hlow, hhigh]
    omega
  · rw [UInt8.toNat_and, UInt32.toNat_toUInt8, UInt32.toNat_div, UInt32.toNat_mod, hsectors,
      UInt16.toNat_toUInt32, show (0x0F : UInt8).toNat = 2 ^ 4 - 1 from rfl,
      Nat.and_two_pow_sub_one_eq_mod, Nat.mod_eq_of_lt (a := _ / _) (by omega),
      Nat.mod_eq_of_lt (by omega)]
  · rw [UInt32.toNat_toUInt8, UInt32.toNat_add, UInt32.toNat_mod, UInt32.toNat_mod, hsectors,
      UInt16.toNat_toUInt32, UInt32.toNat_one]
    omega

/-- An address of a cylinder, a head and a sector has no more than 28 bits. -/
theorem small_of_chs {cyl heads spt : UInt16}
    (hgeometry : ataGetChsGeometry drive = some (cyl, heads, spt))
    (hlba : lba.toNat < cyl.toNat * heads.toNat * spt.toNat) : lba ≤ ATA_LBA28_MAX_SECTOR := by
  obtain ⟨-, -, -, -, -, hheads, -, hspt⟩ := geometry_spec hgeometry
  have hcyl : cyl.toNat ≤ 65535 := Nat.le_of_lt_succ cyl.toNat_lt
  have htotal := Nat.mul_le_mul (Nat.mul_le_mul hcyl hheads) hspt
  rw [UInt32.le_iff_toNat_le, show ATA_LBA28_MAX_SECTOR.toNat = 268435455 from rfl]
  omega

/-- An address of a cylinder, a head and a sector is found. -/
theorem decode_chs {cyl heads spt : UInt16}
    (hgeometry : ataGetChsGeometry drive = some (cyl, heads, spt))
    (hlba : lba.toNat < cyl.toNat * heads.toNat * spt.toNat) (number : Fin 8) (isWrite : Bool)
    (file : TaskFile) :
    let programmed := [(.hddevsel, (0xA0 : UInt8) ||| slaveBit number |||
        ((lba % (heads.toUInt32 * spt.toUInt32) / spt.toUInt32).toUInt8 &&& 0x0F)),
      (.seccount0, 1),
      (.lba0, (lba % (heads.toUInt32 * spt.toUInt32) % spt.toUInt32 + 1).toUInt8),
      (.lba1, ((lba / (heads.toUInt32 * spt.toUInt32)).toUInt16 &&& 0xFF).toUInt8),
      (.lba2, (((lba / (heads.toUInt32 * spt.toUInt32)).toUInt16 >>> 8) &&& 0xFF).toUInt8)].foldl
        TaskFile.out file
    programmed.device &&& 0x10 = slaveBit number ∧
      programmed.decode drive (if isWrite then ATA_CMD_WRITE_PIO else ATA_CMD_READ_PIO) =
        some (lba.toNat, 1) := by
  intro programmed
  obtain ⟨hcylEq, hheadsEq, hsptEq, -, hheads, hheadsLe, hspt, -⟩ := geometry_spec hgeometry
  obtain ⟨hcylinder, hhead, hsector⟩ := chs_parts hgeometry hlba
  obtain ⟨hcylinderLt, hheadLt, hsectorLt⟩ := chs_bounds hheads hspt hlba
  obtain ⟨-, hslave, hform, hdevice⟩ := device_spec number (lt_of_eq_of_lt hhead (by omega))
  refine ⟨hslave, (decode_short drive file isWrite _ _ _ _).trans
    ((if_neg (not_not_intro hform)).trans ?_)⟩
  rw [hdevice, hhead, hsector, hcylinder, hcylEq, hheadsEq, hsptEq, if_pos (by omega)]
  congr 2
  have hwhole := Nat.div_add_mod lba.toNat (heads.toNat * spt.toNat)
  have hpart := Nat.div_add_mod (lba.toNat % (heads.toNat * spt.toNat)) spt.toNat
  calc
    (lba.toNat / (heads.toNat * spt.toNat) * heads.toNat +
        lba.toNat % (heads.toNat * spt.toNat) / spt.toNat) * spt.toNat +
          (lba.toNat % (heads.toNat * spt.toNat) % spt.toNat + 1 - 1)
      = heads.toNat * spt.toNat * (lba.toNat / (heads.toNat * spt.toNat)) +
          (spt.toNat * (lba.toNat % (heads.toNat * spt.toNat) / spt.toNat) +
            lba.toNat % (heads.toNat * spt.toNat) % spt.toNat) := by
        rw [Nat.add_sub_cancel]
        ring
    _ = lba.toNat := by rw [hpart, hwhole]

/-! ### Which sectors are found -/

/-- An address that is refused is refused rightly. -/
theorem addressed_of_refused (number : Fin 8) (hlba : drive.addressable ≤ lba.toNat) :
    Addressed drive number lba where
  refused isWrite := by
    rw [program_refused number isWrite hlba]
    exact iff_of_true rfl hlba
  quiet isWrite byte := by
    rw [program_refused number isWrite hlba]
    exact List.not_mem_nil
  decoded isWrite command file hcommand := by
    rw [program_refused number isWrite hlba] at hcommand
    exact absurd hcommand (by simp)
  written data file content hnot := absurd hnot (Nat.not_lt.mpr hlba)
  read file content hnot := absurd hnot (Nat.not_lt.mpr hlba)

/-- An address that is taken is taken rightly if the drive that is meant finds it. -/
theorem addressed_of_program {command : Bool → UInt8} {writes : List (Register × UInt8)}
    (hlba : lba.toNat < drive.addressable)
    (hprogram : ∀ isWrite, ataProgramSectorAddress drive number lba isWrite =
      (some (command isWrite), writes))
    (hquiet : ∀ byte, (.command, byte) ∉ writes)
    (hdecode : ∀ isWrite file,
      (writes.foldl TaskFile.out file).device &&& 0x10 = slaveBit number ∧
        (writes.foldl TaskFile.out file).decode drive (command isWrite) = some (lba.toNat, 1)) :
    Addressed drive number lba where
  refused isWrite := by
    rw [hprogram]
    exact iff_of_false (by simp) (Nat.not_le.mpr hlba)
  quiet isWrite byte := by
    rw [hprogram]
    exact hquiet byte
  decoded isWrite other file hcommand := by
    rw [hprogram] at hcommand ⊢
    rw [← Option.some.inj hcommand]
    exact hdecode isWrite file
  written data file content _ := by
    rw [ataWriteSector, hprogram]
    dsimp only
    rw [(hdecode true file).2]
    rfl
  read file content _ := by
    rw [ataReadSector, hprogram]
    dsimp only
    rw [(hdecode false file).2]
    rfl

/-- A sector is addressed faithfully exactly if the drive does not have it, or its address has no
more than 28 bits. -/
theorem addressed_iff (drive : Detected) (number : Fin 8) (lba : UInt32) :
    Addressed drive number lba ↔
      drive.addressable ≤ lba.toNat ∨ lba ≤ ATA_LBA28_MAX_SECTOR := by
  rcases Nat.lt_or_ge lba.toNat drive.addressable with hlba | hlba
  case inr => exact iff_of_true (addressed_of_refused number hlba) (.inl hlba)
  rw [or_iff_right (Nat.not_le.mpr hlba)]
  by_cases hmode : drive.lba = true
  · by_cases hlarge : ATA_LBA28_MAX_SECTOR < lba
    · refine iff_of_false ?_ (UInt32.not_le.mpr hlarge)
      intro haddressed
      have hprogram := program_lba48 number false hmode hlba hlarge
      have file : TaskFile := ⟨0, ⟨0, 0⟩, ⟨0, 0⟩, ⟨0, 0⟩, ⟨0, 0⟩⟩
      have hdecoded := (haddressed.decoded false _ file (congrArg Prod.fst hprogram)).2
      rw [hprogram] at hdecoded
      have hfound := (decode_lba48 drive number false file).symm.trans hdecoded
      have hsame : lba.toNat % 16777216 = lba.toNat := (Prod.mk.inj (Option.some.inj hfound)).1
      have hlt := UInt32.lt_iff_toNat_lt.mp hlarge
      rw [show ATA_LBA28_MAX_SECTOR.toNat = 268435455 from rfl] at hlt
      omega
    · refine iff_of_true ?_ (UInt32.not_lt.mp hlarge)
      exact addressed_of_program hlba
        (fun isWrite ↦ program_lba28 number isWrite hmode hlba hlarge) (by simp)
        fun isWrite file ↦ decode_lba28 drive number isWrite file hlarge
  · obtain ⟨cyl, heads, spt, hgeometry⟩ := exists_geometry hmode hlba
    have hin := hlba
    rw [addressable_chs hmode hgeometry] at hin
    refine iff_of_true ?_ (small_of_chs hgeometry hin)
    exact addressed_of_program hlba
      (fun isWrite ↦ program_chs number isWrite hmode hgeometry hlba) (by simp)
      fun isWrite file ↦ decode_chs hgeometry hin number isWrite file

/-- A drive of 2^29 sectors that takes extended commands. -/
def large : Detected where
  lba := true
  lba48 := true
  sectors := 0x0FFFFFFF
  lba48Sectors := 0x20000000
  cylinders := 0
  heads := 0
  spt := 0

/-- Sector 2^28 is there, and sector 0 is found in its place. -/
theorem not_addressed :
    ¬∀ (drive : Detected) (number : Fin 8) (lba : UInt32), Addressed drive number lba := by
  intro hall
  have hdecoded := ((hall large 0 0x10000000).decoded false ATA_CMD_READ_PIO_EXT
    ⟨0, ⟨0, 0⟩, ⟨0, 0⟩, ⟨0, 0⟩, ⟨0, 0⟩⟩ (by decide)).2
  have hfirst : some (0, 1) = some (268435456, 1) := hdecoded
  simp at hfirst

end EynOS.Storage.Ata
