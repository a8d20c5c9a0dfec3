import EynOS.Foundation.Interaction
import EynOS.Foundation.MachineWord

/-!
# Sectors, the block cache and the free-block cache

The model of the sector accesses of EYNFS and of the two caches that `eynfs.c` keeps above them,
with what they read and change. A file system operation is a `Program`: an interaction that asks
for sector accesses and for calls of the cache functions, all of them on the drive of the operation,
and `answer` is the handler that performs them.

A drive decides by the sector and the number of accesses made to it so far which accesses fail. The
field `written` of a drive and the fields `drive` and `freeDrive` are not part of the source; they
keep what was written to every sector and which drive the contents of the caches came from.

Not modelled: the check that the pointers of the cache are intact, the counters of hits and misses,
the capability check and the scheduler's accounting of the current command, and the moment at which
the cache is allocated: a cache that could not be allocated has no entries.
-/

namespace EynOS.Storage

open Foundation

/-! ### Sectors -/

def EYNFS_BLOCK_SIZE : ℕ := 512

def EYNFS_SUPERBLOCK_LBA : UInt32 := 2048

def EYNFS_FREE_BLOCK_CACHE_SIZE : ℕ := 64

abbrev Sector : Type := Fin EYNFS_BLOCK_SIZE → UInt8

/-- Sectors are compared byte by byte. -/
instance : DecidableEq Sector := fun first second ↦
  decidable_of_iff (∀ index, first index = second index) funext_iff.symm

/-- `eynfs_block_to_lba`. -/
def blockToLba (fsBlock : UInt32) : UInt32 := EYNFS_SUPERBLOCK_LBA + fsBlock

/-- A drive: its sectors, which accesses to a sector fail, how many accesses there were to each
sector, and what was written to it. -/
structure Disk where
  sectors : UInt32 → Sector
  fails : UInt32 → ℕ → Bool
  accesses : UInt32 → ℕ
  written : UInt32 → List Sector

/-- The drive after one more access to a sector. -/
def Disk.count (disk : Disk) (lba : UInt32) : Disk :=
  { disk with accesses := Function.update disk.accesses lba (disk.accesses lba + 1) }

/-- Whether the next access to a sector fails. -/
def Disk.failing (disk : Disk) (lba : UInt32) : Bool := disk.fails lba (disk.accesses lba)

/-- `ata_read_sector` on one drive. -/
def Disk.read (lba : UInt32) (disk : Disk) : Option Sector × Disk :=
  (if disk.failing lba then none else some (disk.sectors lba), disk.count lba)

/-- `ata_write_sector` on one drive. -/
def Disk.write (lba : UInt32) (data : Sector) (disk : Disk) : Bool × Disk :=
  if disk.failing lba then (false, disk.count lba)
  else
    (true, { disk.count lba with
      sectors := Function.update disk.sectors lba data
      written := Function.update disk.written lba (disk.written lba ++ [data]) })

/-! ### The caches -/

/-- `eynfs_cache_entry_t`, with the drive whose operation filled it. -/
structure CacheEntry where
  blockNum : UInt32
  lastUse : ℕ
  data : Sector
  dirty : Bool
  valid : Bool
  drive : ℕ

/-- The drives, the block cache and the free-block cache. The blocks of `free_block_cache` stand
with the one that is taken next in front. -/
structure State where
  disk : ℕ → Disk
  blockCache : List CacheEntry
  useClock : ℕ
  freeBlockCache : List UInt32
  freeBlockCacheValid : Bool
  freeDrive : ℕ

def State.setDisk (state : State) (drive : ℕ) (disk : Disk) : State :=
  { state with disk := Function.update state.disk drive disk }

def ataReadSector (drive : ℕ) (lba : UInt32) (state : State) : Option Sector × State :=
  (((state.disk drive).read lba).1, state.setDisk drive ((state.disk drive).read lba).2)

def ataWriteSector (drive : ℕ) (lba : UInt32) (data : Sector) (state : State) : Bool × State :=
  (((state.disk drive).write lba data).1, state.setDisk drive ((state.disk drive).write lba data).2)

def CacheEntry.holds (block : UInt32) (entry : CacheEntry) : Bool :=
  entry.valid && entry.blockNum == block

def CacheEntry.unsaved (entry : CacheEntry) : Bool := entry.valid && entry.dirty

/-- The loop of `eynfs_block_cache_choose_victim_index`, with the best clean and the best dirty
entry so far and their last uses. -/
def chooseVictimLoop :
    List CacheEntry → ℕ → Option (ℕ × ℕ) → Option (ℕ × ℕ) → Option (ℕ × Bool)
  | [], _, clean, dirty =>
    match clean with
    | some (index, _) => some (index, false)
    | none => dirty.map fun best ↦ (best.1, true)
  | entry :: entries, index, clean, dirty =>
    if entry.valid = false then some (index, false)
    else if entry.dirty then
      if dirty.all fun best ↦ entry.lastUse < best.2 then
        chooseVictimLoop entries (index + 1) clean (some (index, entry.lastUse))
      else chooseVictimLoop entries (index + 1) clean dirty
    else if clean.all fun best ↦ entry.lastUse < best.2 then
      chooseVictimLoop entries (index + 1) (some (index, entry.lastUse)) dirty
    else chooseVictimLoop entries (index + 1) clean dirty

/-- `eynfs_block_cache_choose_victim_index`: an invalid entry, else the clean one used longest ago,
else the dirty one used longest ago, which has to be written back. -/
def chooseVictimIndex (entries : List CacheEntry) : Option (ℕ × Bool) :=
  chooseVictimLoop entries 0 none none

/-- Write back an entry that is replaced, to the drive of the operation. -/
def writeBack (drive : ℕ) (needed : Bool) (entry : CacheEntry) (state : State) : State :=
  if needed then (ataWriteSector drive (blockToLba entry.blockNum) entry.data state).2 else state

/-- The end of `eynfs_cache_get_block` and of `eynfs_cache_write_block`: cache a block as clean, in
the place of a victim. -/
def cacheClean (drive : ℕ) (block : UInt32) (data : Sector) (state : State) : State :=
  match chooseVictimIndex state.blockCache with
  | none => state
  | some (index, needWriteback) =>
    match state.blockCache[index]? with
    | none => state
    | some victim =>
      { writeBack drive needWriteback victim state with
        blockCache := state.blockCache.set index
          { blockNum := block, lastUse := state.useClock, data := data, dirty := false
            valid := true, drive := drive }
        useClock := u32 (state.useClock + 1) }

/-- The first valid copy of a block, with its place. -/
def cachedAt (block : UInt32) (entries : List CacheEntry) : Option (ℕ × CacheEntry) :=
  (entries.findIdx? (CacheEntry.holds block)).bind fun index ↦
    entries[index]?.map fun entry ↦ (index, entry)

def useEntry (index : ℕ) (entry : CacheEntry) (state : State) : State :=
  { state with
    blockCache := state.blockCache.set index { entry with lastUse := state.useClock }
    useClock := u32 (state.useClock + 1) }

/-- `eynfs_cache_get_block`. -/
def cacheGetBlock (drive : ℕ) (block : UInt32) (state : State) : Option Sector × State :=
  match cachedAt block state.blockCache with
  | some (index, entry) => (some entry.data, useEntry index entry state)
  | none =>
    match ataReadSector drive (blockToLba block) state with
    | (none, after) => (none, after)
    | (some data, after) => (some data, cacheClean drive block data after)

/-- `eynfs_cache_write_block`. -/
def cacheWriteBlock (drive : ℕ) (block : UInt32) (data : Sector) (state : State) : Bool × State :=
  match cachedAt block state.blockCache with
  | some (index, entry) => (true, useEntry index { entry with data := data, dirty := true } state)
  | none =>
    match ataWriteSector drive (blockToLba block) data state with
    | (false, after) => (false, after)
    | (true, after) => (true, cacheClean drive block data after)

/-- The write of `eynfs_cache_flush` for one entry. -/
def flushEntry (drive : ℕ) (state : State) (entry : CacheEntry) : State :=
  (ataWriteSector drive (blockToLba entry.blockNum) entry.data state).2

/-- `eynfs_cache_flush`. -/
def cacheFlush (drive : ℕ) (state : State) : State :=
  { (state.blockCache.filter CacheEntry.unsaved).foldl (flushEntry drive) state with
    blockCache := state.blockCache.map fun entry ↦
      if entry.unsaved then { entry with dirty := false } else entry }

/-- `eynfs_cache_invalidate_block`. -/
def cacheInvalidateBlock (block : UInt32) (state : State) : State :=
  { state with
    blockCache := state.blockCache.map fun entry ↦
      if entry.holds block then { entry with valid := false, dirty := false } else entry }

/-- The part of `eynfs_cache_clear` after its flush. -/
def cacheReset (state : State) : State :=
  { state with
    blockCache := state.blockCache.map fun entry ↦
      { entry with valid := false, dirty := false, lastUse := 0 }
    freeBlockCache := []
    freeBlockCacheValid := false }

/-- The start of `eynfs_alloc_block_optimized`: a block of the free-block cache, where it is valid
and has one. -/
def takeFreeBlock (state : State) : Option UInt32 × State :=
  match state.freeBlockCacheValid, state.freeBlockCache with
  | true, block :: blocks => (some block, { state with freeBlockCache := blocks })
  | _, _ => (none, { state with freeBlockCache := [] })

/-- The blocks that a refill of `eynfs_alloc_block_optimized` collected. The cache becomes valid
where the refill is complete and found a block. Blocks that were found come from the drive of the
operation. -/
def keepFreeBlocks (drive : ℕ) (blocks : List UInt32) (complete : Bool) (state : State) : State :=
  { state with
    freeBlockCache := blocks
    freeBlockCacheValid := state.freeBlockCacheValid || complete && !blocks.isEmpty
    freeDrive := if blocks.isEmpty then state.freeDrive else drive }

/-- The end of `eynfs_free_block`: the free-block cache may be stale. -/
def dropFreeBlocks (state : State) : State :=
  { state with freeBlockCache := [], freeBlockCacheValid := false }

/-! ### Programs -/

/-- What an operation asks for: accesses to sectors and calls of the cache functions. -/
inductive Request
  | readSector (lba : UInt32)
  | writeSector (lba : UInt32) (data : Sector)
  | getBlock (block : UInt32)
  | writeBlock (block : UInt32) (data : Sector)
  | flush
  | invalidateBlock (block : UInt32)
  | reset
  | takeFree
  | keepFree (blocks : List UInt32) (complete : Bool)
  | dropFree

abbrev Request.Answer : Request → Type
  | .readSector _ => Option Sector
  | .writeSector _ _ => Bool
  | .getBlock _ => Option Sector
  | .writeBlock _ _ => Bool
  | .flush => Unit
  | .invalidateBlock _ => Unit
  | .reset => Unit
  | .takeFree => Option UInt32
  | .keepFree _ _ => Unit
  | .dropFree => Unit

/-- Perform a request of an operation on a drive. -/
def answer (drive : ℕ) : Handler Request Request.Answer State
  | .readSector lba, state => ataReadSector drive lba state
  | .writeSector lba data, state => ataWriteSector drive lba data state
  | .getBlock block, state => cacheGetBlock drive block state
  | .writeBlock block data, state => cacheWriteBlock drive block data state
  | .flush, state => ((), cacheFlush drive state)
  | .invalidateBlock block, state => ((), cacheInvalidateBlock block state)
  | .reset, state => ((), cacheReset state)
  | .takeFree, state => takeFreeBlock state
  | .keepFree blocks complete, state => ((), keepFreeBlocks drive blocks complete state)
  | .dropFree, state => ((), dropFreeBlocks state)

/-- How an operation ends without a result: it returns its error code, or it goes through a chain of
blocks for longer than it is followed. -/
inductive Stop
  | error (code : ℤ)
  | endless
  deriving DecidableEq

/-- An operation of the file system, as a program over requests. -/
abbrev Program : Type → Type := Interaction Request Request.Answer Stop

end EynOS.Storage
