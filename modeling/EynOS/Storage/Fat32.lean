import EynOS.Storage.Layout

/-!
# The file allocation table of FAT32

The functions of `vfs.c` that read, write, free and allocate entries of a file allocation table, as
programs over sector accesses. FAT32 does not go through the block cache, so that a program asks for
sectors only and runs on a drive. Values are those of the source's `uint32`, and a program that
fails returns the error code of the source.

`formatBpb` is what `fat32_format_partition` puts into the parameter block of a partition.

Not modelled: null pointers, the fields of the parameter block that no function reads, and the
writes of `fat32_format_partition`.
-/

namespace EynOS.Storage.Fat32

open Foundation Interaction

/-! ### Accesses -/

/-- What a function asks for: `ata_read_sector` and `ata_write_sector`. -/
inductive Request
  | readSector (lba : UInt32)
  | writeSector (lba : UInt32) (data : Sector)

abbrev Request.Answer : Request → Type
  | .readSector _ => Option Sector
  | .writeSector _ _ => Bool

/-- Perform a request on a drive. -/
def answer : Handler Request Request.Answer Disk
  | .readSector lba, disk => disk.read lba
  | .writeSector lba data, disk => disk.write lba data

/-- A function of the file system, as a program over requests. -/
abbrev Program : Type → Type := Interaction Request Request.Answer Stop

/-- The failure of a call that returns an error code. -/
def failWith {Result : Type} (code : ℤ) : Program Result := .fail (.error code)

/-- A call whose failure the caller looks at. -/
def attempt {Result : Type} (program : Program Result) : Program (Option Result) :=
  recover
    (fun
      | .error _ => .done none
      | .endless => .fail .endless)
    (program >>= fun result ↦ pure (some result))

/-- A call whose failure makes the caller return an error code. -/
def orFail {Result : Type} (code : ℤ) (program : Program Result) : Program Result := do
  let result ← attempt program
  match result with
  | some result => pure result
  | none => failWith code

/-- The result of an access, or the failure of its caller. -/
def orStop {Result : Type} : Option Result → Program Result
  | some result => pure result
  | none => failWith (-1)

/-- `ata_read_sector`. -/
def readSector (lba : UInt32) : Program Sector := do
  let answer ← request (.readSector lba)
  orStop answer

/-- `ata_write_sector`. -/
def writeSector (lba : UInt32) (data : Sector) : Program Unit := do
  let written ← request (.writeSector lba data)
  if written then pure () else failWith (-1)

/-! ### The parameter block -/

/-- `struct fat32_bpb`. -/
structure Bpb where
  bytsPerSec : UInt32
  secPerClus : UInt32
  rsvdSecCnt : UInt32
  numFats : UInt32
  totSec32 : UInt32
  fatSz32 : UInt32
  rootClus : UInt32
  deriving DecidableEq

/-- The parameter block of `fat32_format_partition` for a partition of `totalSectors` sectors. -/
def formatBpb (totalSectors : UInt32) : Bpb :=
  let secPerClus : UInt32 :=
    if totalSectors < 65536 then 1 else if totalSectors < 524288 then 8 else 16
  let clusterCount := (totalSectors - 32) / secPerClus
  { bytsPerSec := 512
    secPerClus := secPerClus
    rsvdSecCnt := 32
    numFats := 2
    totSec32 := totalSectors
    fatSz32 := (clusterCount * 4 + 512 - 1) / 512
    rootClus := 2 }

/-- The check of `vfs_write_file` on the parameter block. -/
def Bpb.Accepted (bpb : Bpb) : Prop :=
  bpb.bytsPerSec = 512 ∧ bpb.secPerClus ≠ 0 ∧ bpb.numFats ≠ 0 ∧ bpb.fatSz32 ≠ 0

instance (bpb : Bpb) : Decidable bpb.Accepted :=
  inferInstanceAs (Decidable (_ ∧ _ ∧ _ ∧ _))

/-- The first sector of the data of a volume: `first_data_sec`. -/
def Bpb.firstDataSec (bpb : Bpb) : UInt32 := bpb.rsvdSecCnt + bpb.numFats * bpb.fatSz32

/-- The check of the functions on entries. -/
def Bpb.unusable (bpb : Bpb) : Bool :=
  bpb.bytsPerSec < 4 || bpb.bytsPerSec % 4 != 0 || bpb.numFats == 0 || bpb.fatSz32 == 0

def Bpb.entriesPerSec (bpb : Bpb) : UInt32 := bpb.bytsPerSec / 4

/-! ### Entries -/

/-- The sector of the entry of a cluster in one of the copies of the table, from the start of the
partition on. -/
def fatSector (bpb : Bpb) (copy clus : UInt32) : UInt32 :=
  bpb.rsvdSecCnt + clus * 4 / bpb.bytsPerSec + copy * bpb.fatSz32

/-- `fat[idx]`. -/
def fatAt (bpb : Bpb) (sector : Sector) (clus : UInt32) : UInt32 :=
  wordAt sector (4 * (clus % bpb.entriesPerSec).toNat)

/-- The bits of an entry that name a cluster. -/
def fatMask : UInt32 := 0x0FFFFFFF

def withValue (entry val : UInt32) : UInt32 := (entry &&& 0xF0000000) ||| (val &&& fatMask)

def fat32ReadFatEntry (partLba : UInt32) (bpb : Bpb) (clus : UInt32) : Program UInt32 :=
  if bpb.unusable then failWith (-1)
  else do
    let sector ← readSector (partLba + fatSector bpb 0 clus)
    pure (fatAt bpb sector clus &&& fatMask)

/-- The loop of `fat32_write_fat_entry_all` over the copies of the table from `copy` on. -/
def fat32WriteFatEntryLoop (partLba : UInt32) (bpb : Bpb) (clus val : UInt32) :
    ℕ → UInt32 → Program Unit
  | 0, _ => pure ()
  | count + 1, copy => do
    let lba := partLba + fatSector bpb copy clus
    let sector ← readSector lba
    orFail (-2) (writeSector lba (setWord sector (4 * (clus % bpb.entriesPerSec).toNat)
      (withValue (fatAt bpb sector clus) val)))
    fat32WriteFatEntryLoop partLba bpb clus val count (copy + 1)

def fat32WriteFatEntryAll (partLba : UInt32) (bpb : Bpb) (clus val : UInt32) : Program Unit :=
  if bpb.unusable then failWith (-1)
  else fat32WriteFatEntryLoop partLba bpb clus val bpb.numFats.toNat 0

/-! ### Chains -/

def endOfChain : UInt32 := 0x0FFFFFF8

/-- The loop of `fat32_free_chain_sector_all` while `guard` clusters may still be freed. -/
def fat32FreeChainLoop (partLba : UInt32) (bpb : Bpb) : ℕ → UInt32 → Program Unit
  | 0, _ => pure ()
  | guard + 1, cur => do
    let next ← orFail (-1) (fat32ReadFatEntry partLba bpb cur)
    orFail (-2) (fat32WriteFatEntryAll partLba bpb cur 0)
    if endOfChain ≤ next then pure ()
    else fat32FreeChainLoop partLba bpb guard next

def fat32FreeChainSectorAll (partLba : UInt32) (bpb : Bpb) (startClus : UInt32) : Program Unit :=
  if startClus < 2 then pure ()
  else fat32FreeChainLoop partLba bpb 16777216 startClus

/-- The label `fail` of `fat32_allocate_chain_sector_all`. -/
def allocateFail (partLba : UInt32) (bpb : Bpb) (first : UInt32) : Program UInt32 := do
  let _ ← attempt (if first ≠ 0 then fat32FreeChainSectorAll partLba bpb first else pure ())
  failWith (-5)

/-- Take a free cluster behind `prev`, the last one of the chain so far, if that is not 0. -/
def linkCluster (partLba : UInt32) (bpb : Bpb) (prev clus : UInt32) : Program Unit := do
  (if prev ≠ 0 then fat32WriteFatEntryAll partLba bpb prev clus else pure () : Program Unit)
  fat32WriteFatEntryAll partLba bpb clus endOfChain

/-- A sector of the table, which is not read again if it was the last one. -/
def readTable (partLba : UInt32) (number : UInt32) (last : Option (UInt32 × Sector)) :
    Program Sector :=
  match last with
  | some (lastNumber, sector) =>
    if number = lastNumber then pure sector else readSector (partLba + number)
  | none => readSector (partLba + number)

/-- The loop of `fat32_allocate_chain_sector_all` from a cluster on, with the clusters that are
still needed, the ends of the chain so far and the sector of the table that was read last. -/
def allocateLoop (partLba : UInt32) (bpb : Bpb) :
    ℕ → UInt32 → UInt32 → UInt32 → UInt32 → Option (UInt32 × Sector) → Program UInt32
  | 0, _, needed, first, _, _ =>
    if needed = 0 then pure first else allocateFail partLba bpb first
  | rounds + 1, clus, needed, first, prev, last =>
    if needed = 0 then pure first
    else do
      let number := fatSector bpb 0 clus
      let read ← attempt (readTable partLba number last)
      match read with
      | none => allocateFail partLba bpb first
      | some sector =>
        if fatAt bpb sector clus &&& fatMask = 0 then do
          let first := if prev ≠ 0 then first else clus
          let linked ← attempt (linkCluster partLba bpb prev clus)
          match linked with
          | none => allocateFail partLba bpb first
          | some _ =>
            allocateLoop partLba bpb rounds (clus + 1) (needed - 1) first clus
              (some (number, sector))
        else
          allocateLoop partLba bpb rounds (clus + 1) needed first prev (some (number, sector))

/-- `fat32_allocate_chain_sector_all`, which returns `*out_first`. -/
def fat32AllocateChainSectorAll (partLba : UInt32) (bpb : Bpb) (clustersNeeded : UInt32) :
    Program UInt32 :=
  if bpb.unusable || bpb.secPerClus == 0 then failWith (-5)
  else if clustersNeeded = 0 then pure 0
  else allocateLoop partLba bpb (0x0FFFFFF0 - 2) 2 clustersNeeded 0 0 none

end EynOS.Storage.Fat32
