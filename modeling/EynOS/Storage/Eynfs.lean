import EynOS.Storage.Layout

/-!
# The operations of EYNFS

The functions of `eynfs.c` that allocate and free blocks, read and write directories and files, and
write files as streams, as programs over the accesses of `BlockCache`. A program that fails returns
the error code of the source.

A loop over the blocks of a chain without a bound of its own follows at most `rounds` blocks; where
the chain is longer, or is a cycle, the program ends as `Stop.endless`. The entry that
`eynfs_traverse_path` returns for a path of slashes only is never assigned in the source and is an
argument here.

Not modelled: the directory cache, which nothing fills, the transaction tags of the current command,
printed warnings and the watchdog.
-/

namespace EynOS.Storage

open Foundation Interaction

/-! ### Accesses -/

def failure {Result : Type} : Program Result := .fail (.error (-1))

/-- A call whose failure the caller looks at. -/
def attempt {Result : Type} (program : Program Result) : Program (Option Result) :=
  recover
    (fun
      | .error _ => .done none
      | .endless => .fail .endless)
    (program >>= fun result ↦ pure (some result))

/-- The result of an access, or the failure of the caller. -/
def orFail {Result : Type} : Option Result → Program Result
  | some result => pure result
  | none => failure

/-- `ata_read_sector` of a block. -/
def readBlock (block : UInt32) : Program Sector := do
  let answer ← request (.readSector (blockToLba block))
  orFail answer

/-- `ata_write_sector` of a block. -/
def writeBlockRaw (block : UInt32) (data : Sector) : Program Unit := do
  let written ← request (.writeSector (blockToLba block) data)
  if written then pure () else failure

/-- `eynfs_cache_get_block`. -/
def getBlock (block : UInt32) : Program Sector := do
  let answer ← request (.getBlock block)
  orFail answer

/-- `eynfs_cache_write_block`. -/
def writeBlock (block : UInt32) (data : Sector) : Program Unit := do
  let written ← request (.writeBlock block data)
  if written then pure () else failure

/-- `eynfs_cache_flush`. -/
def flush : Program Unit := request Request.flush

/-- `eynfs_cache_invalidate_block`. -/
def invalidateBlock (block : UInt32) : Program Unit := request (Request.invalidateBlock block)

def takeFree : Program (Option UInt32) := request Request.takeFree

def keepFree (blocks : List UInt32) (complete : Bool) : Program Unit :=
  request (Request.keepFree blocks complete)

def dropFree : Program Unit := request Request.dropFree

/-- `eynfs_cache_clear`. -/
def clearCaches : Program Unit := do
  flush
  request Request.reset

/-! ### Blocks -/

/-- `eynfs_bitmap_block_count`. -/
def bitmapBlockCount (sb : Superblock) : ℕ :=
  u32 (u32 (sb.totalBlocks.toNat + 7) / 8 + EYNFS_BLOCK_SIZE - 1) / EYNFS_BLOCK_SIZE

def bitsPerBlock : ℕ := EYNFS_BLOCK_SIZE * 8

/-- `eynfs_bitmap_set_used`. -/
def bitmapSetUsed (sb : Superblock) (block : UInt32) (used : Bool) : Program Unit :=
  if sb.totalBlocks ≤ block then failure
  else if bitmapBlockCount sb ≤ block.toNat / bitsPerBlock then failure
  else do
    let bitmapBlock := sb.freeBlockMap + UInt32.ofNat (block.toNat / bitsPerBlock)
    let bitmap ← readBlock bitmapBlock
    writeBlockRaw bitmapBlock (setBitmapBit bitmap (block.toNat % bitsPerBlock) used)

/-- `eynfs_free_block`. -/
def freeBlock (sb : Superblock) (block : UInt32) : Program Unit :=
  if sb.totalBlocks ≤ block then failure
  else do
    bitmapSetUsed sb block false
    dropFree

/-- The free blocks of one bitmap block, added to those that were found before. -/
def collectFree (sb : Superblock) (bitmap : Sector) (base : ℕ) (found : List UInt32) :
    List UInt32 :=
  (List.range bitsPerBlock).foldl
    (fun found index ↦
      if found.length < EYNFS_FREE_BLOCK_CACHE_SIZE ∧ bitmapBit bitmap index = false ∧
          base + index < sb.totalBlocks.toNat then
        UInt32.ofNat (base + index) :: found
      else found)
    found

/-- The refill loop of `eynfs_alloc_block_optimized` over the bitmap blocks. -/
def refillLoop (sb : Superblock) : ℕ → ℕ → List UInt32 → Program (List UInt32)
  | 0, _, found => pure found
  | count + 1, index, found =>
    if found.length < EYNFS_FREE_BLOCK_CACHE_SIZE then do
      let bitmap ← attempt (readBlock (sb.freeBlockMap + UInt32.ofNat index))
      match bitmap with
      | none => do
        keepFree found false
        failure
      | some bitmap =>
        refillLoop sb count (index + 1) (collectFree sb bitmap (index * bitsPerBlock) found)
    else pure found

/-- `eynfs_alloc_block_optimized`. -/
def allocBlockOptimized (sb : Superblock) : Program UInt32 := do
  let cached ← takeFree
  match cached with
  | some block => pure block
  | none => do
    let found ← refillLoop sb (bitmapBlockCount sb) 0 []
    keepFree found true
    let block ← if found.isEmpty then pure none else takeFree
    orFail block

/-- `eynfs_alloc_block`. A block from `2 ^ 31` on is taken for an error. -/
def allocBlock (sb : Superblock) : Program UInt32 := do
  let block ← allocBlockOptimized sb
  if 2147483648 ≤ block.toNat then failure
  else do
    let marked ← attempt (bitmapSetUsed sb block true)
    match marked with
    | some _ => pure block
    | none => do
      dropFree
      failure

/-- `eynfs_read_superblock`. -/
def readSuperblock : Program Superblock := do
  let sector ← readBlock 0
  pure (superblockOf sector)

/-! ### Directories -/

/-- The loop of `eynfs_find_in_dir`, with the index of the first entry of the block. -/
def findInDirLoop (name : List UInt8) : ℕ → UInt32 → ℕ → Program (DirEntry × ℕ)
  | 0, _, _ => failure
  | rounds + 1, block, base =>
    if block = 0 then failure
    else do
      let sector ← getBlock block
      match (List.range entriesPerBlock).find? fun slot ↦
          !(entryAt sector slot).isFree && (entryAt sector slot).hasName name with
      | some slot => pure (entryAt sector slot, base + slot)
      | none => findInDirLoop name rounds (nextBlock sector) (base + entriesPerBlock)

/-- `eynfs_find_in_dir`. -/
def findInDir (dirBlock : UInt32) (name : List UInt8) : Program (DirEntry × ℕ) :=
  if cString name = [] then failure else findInDirLoop name 4096 dirBlock 0

/-- `'/'`. -/
def slash : UInt8 := 47

/-- The components of a path that `strtok_r` finds. -/
def components (path : List UInt8) : List (List UInt8) :=
  (path.splitOn slash).filter (· ≠ [])

/-- The loop of `eynfs_traverse_path`: the entry, the directory it is in and its index. -/
def traverseLoop : List (List UInt8) → UInt32 → DirEntry × UInt32 × ℕ →
    Program (DirEntry × UInt32 × ℕ)
  | [], _, last => pure last
  | token :: tokens, block, _ => do
    let (entry, index) ← findInDir block token
    if tokens ≠ [] ∧ entry.type ≠ EYNFS_TYPE_DIR then failure
    else traverseLoop tokens entry.firstBlock (entry, block, index)

def rootEntry (sb : Superblock) : DirEntry :=
  DirEntry.setContents (copyInto emptyEntry 32 1 fun _ ↦ EYNFS_TYPE_DIR) sb.rootDirBlock 0

/-- `eynfs_traverse_path`. -/
def traversePath (sb : Superblock) (path : List UInt8) (unassigned : DirEntry) :
    Program (DirEntry × UInt32 × ℕ) :=
  if (cString path).head? ≠ some slash then failure
  else if cString path = [slash] then pure (rootEntry sb, 0, 0)
  else traverseLoop (components ((cString path).take 255)) sb.rootDirBlock (unassigned, 0, 0)

def freeSlot (sector : Sector) : Option ℕ :=
  (List.range entriesPerBlock).find? fun slot ↦ (entryAt sector slot).isFree

def hasEntry (sector : Sector) (name : List UInt8) : Bool :=
  (List.range entriesPerBlock).any fun slot ↦
    !(entryAt sector slot).isFree && (entryAt sector slot).hasName name

/-- The part of `eynfs_create_entry` that uses a free slot. -/
def createInSlot (sb : Superblock) (block : UInt32) (sector : Sector) (slot : ℕ)
    (name : List UInt8) (type : UInt8) : Program Unit := do
  let new ← allocBlock sb
  let zeroed ← if type = EYNFS_TYPE_DIR then attempt (writeBlockRaw new zeroBlock)
    else pure (some ())
  if zeroed.isNone then do
    let _ ← attempt (freeBlock sb new)
    failure
  else do
    let written ← attempt (writeBlock block (setEntry sector slot (newEntry name type new)))
    if written.isNone then do
      let _ ← attempt (freeBlock sb new)
      failure
    else flush

/-- The cleanup of the part of `eynfs_create_entry` that appends a block. -/
def abandon (sb : Superblock) (entryBlock dirBlock : UInt32) : Program Unit := do
  let _ ← attempt (freeBlock sb entryBlock)
  let _ ← attempt (freeBlock sb dirBlock)
  failure

/-- The part of `eynfs_create_entry` that appends a block to the directory. -/
def createInNewBlock (sb : Superblock) (last : UInt32) (name : List UInt8) (type : UInt8) :
    Program Unit := do
  let newDir ← allocBlock sb
  let allocated ← attempt (allocBlock sb)
  match allocated with
  | none => do
    let _ ← attempt (freeBlock sb newDir)
    failure
  | some newEntryBlock => do
    let lastSector ← attempt (getBlock last)
    match lastSector with
    | none => abandon sb newEntryBlock newDir
    | some lastSector => do
      let linked ← attempt (writeBlock last (setNext lastSector newDir))
      if linked.isNone then abandon sb newEntryBlock newDir
      else do
        let zeroed ← if type = EYNFS_TYPE_DIR then attempt (writeBlockRaw newEntryBlock zeroBlock)
          else pure (some ())
        if zeroed.isNone then abandon sb newEntryBlock newDir
        else do
          invalidateBlock newDir
          let written ← attempt
            (writeBlock newDir (setEntry zeroBlock 0 (newEntry name type newEntryBlock)))
          if written.isNone then abandon sb newEntryBlock newDir else flush

/-- The scan of `eynfs_create_entry` for a free slot, with the last block of the directory so
far. -/
def createLoop (sb : Superblock) (name : List UInt8) (type : UInt8) :
    ℕ → UInt32 → UInt32 → Program Unit
  | 0, _, _ => .fail .endless
  | rounds + 1, block, last =>
    if block = 0 then if last = 0 then failure else createInNewBlock sb last name type
    else do
      let sector ← getBlock block
      if hasEntry sector name then failure
      else
        match freeSlot sector with
        | some slot => createInSlot sb block sector slot name type
        | none => createLoop sb name type rounds (nextBlock sector) block

/-- `eynfs_create_entry`. -/
def createEntry (rounds : ℕ) (sb : Superblock) (parent : UInt32) (name : List UInt8)
    (type : UInt8) : Program Unit :=
  if cString name = [] then failure
  else if type ≠ EYNFS_TYPE_FILE ∧ type ≠ EYNFS_TYPE_DIR then failure
  else if parent = 0 then failure
  else createLoop sb name type rounds parent 0

/-- The loop of `eynfs_delete_entry` that frees the blocks of a chain. -/
def freeChainLoop (sb : Superblock) : ℕ → UInt32 → Program Unit
  | 0, _ => .fail .endless
  | rounds + 1, block =>
    if block = 0 then pure ()
    else do
      let sector ← attempt (readBlock block)
      match sector with
      | none => pure ()
      | some sector => do
        let _ ← attempt (freeBlock sb block)
        freeChainLoop sb rounds (nextBlock sector)

/-- The block of a directory that a number of links lead to, of at most 4096. -/
def followLinks : ℕ → ℕ → UInt32 → Program UInt32
  | 0, _, block => pure block
  | steps + 1, followed, block =>
    if block = 0 ∨ 4096 ≤ followed then failure
    else do
      let sector ← getBlock block
      followLinks steps (followed + 1) (nextBlock sector)

/-- Change an entry of a directory in place, as `eynfs_delete_entry` and `eynfs_stream_end` do. -/
def replaceEntry (parent : UInt32) (index : ℕ) (entry : DirEntry) : Program Unit := do
  let block ← followLinks (index / entriesPerBlock) 0 parent
  if block = 0 then failure
  else do
    let sector ← getBlock block
    invalidateBlock block
    writeBlock block (setEntry sector (index % entriesPerBlock) entry)

/-- `eynfs_delete_entry`. -/
def deleteEntry (rounds : ℕ) (sb : Superblock) (parent : UInt32) (name : List UInt8) :
    Program Unit :=
  if cString name = [] then failure
  else do
    let (victim, index) ← findInDir parent name
    freeChainLoop sb rounds victim.firstBlock
    replaceEntry parent index emptyEntry

/-- The loop of `eynfs_read_dir_table`, for a number of entries that are still wanted. -/
def readDirTableLoop : ℕ → ℕ → UInt32 → Program (List DirEntry)
  | 0, _, _ => pure []
  | rounds + 1, wanted, block =>
    if block = 0 ∨ wanted = 0 then pure []
    else do
      let sector ← readBlock block
      let rest ← readDirTableLoop rounds (wanted - entriesPerBlock) (nextBlock sector)
      pure (((entriesOf sector).take wanted).map DirEntry.terminate ++ rest)

/-- `eynfs_read_dir_table`. Every round reads at least one entry. -/
def readDirTable (block : UInt32) (maxEntries : ℕ) : Program (List DirEntry) :=
  readDirTableLoop maxEntries maxEntries block

/-- The loop of `eynfs_count_dir_entries`. -/
def countDirEntriesLoop : ℕ → UInt32 → ℕ → Program ℕ
  | 0, _, total => pure total
  | rounds + 1, block, total =>
    if block = 0 then pure total
    else do
      let sector ← readBlock block
      countDirEntriesLoop rounds (nextBlock sector) (total + entriesPerBlock)

/-- `eynfs_count_dir_entries`, of at most 32 blocks. -/
def countDirEntries (block : UInt32) : Program ℕ := countDirEntriesLoop 32 block 0

/-- `eynfs_write_dir_block`. -/
def writeDirBlock (block : UInt32) (entries : List DirEntry) (next : UInt32) : Program Unit :=
  writeBlockRaw block (dirBlock entries next)

/-- The blocks of the directory that `eynfs_write_dir_table` writes over. A block that cannot be
read is the last one. -/
def originalBlocks : ℕ → UInt32 → Program (List UInt32)
  | 0, _ => pure []
  | rounds + 1, block =>
    if block = 0 then pure []
    else do
      let sector ← attempt (readBlock block)
      match sector with
      | none => pure [block]
      | some sector => do
        let rest ← originalBlocks rounds (nextBlock sector)
        pure (block :: rest)

/-- `eynfs_alloc_block` as `eynfs_write_dir_table` calls it: the comparison of an unsigned block
with zero does not see the error code. -/
def allocUnchecked (sb : Superblock) : Program UInt32 := do
  let block ← attempt (allocBlock sb)
  pure (block.getD 0xFFFFFFFF)

/-- The first loop of `eynfs_write_dir_table`, over the blocks of the directory: the entries that
are left and the block that was allocated for them. -/
def writeOriginalBlocks (sb : Superblock) :
    List UInt32 → List DirEntry → Program (List DirEntry × UInt32)
  | [], entries => pure (entries, 0)
  | block :: blocks, entries =>
    if entries = [] then pure ([], 0)
    else if entries.drop entriesPerBlock = [] then do
      writeDirBlock block entries 0
      pure ([], 0)
    else
      match blocks with
      | next :: _ => do
        writeDirBlock block entries next
        writeOriginalBlocks sb blocks (entries.drop entriesPerBlock)
      | [] => do
        let next ← allocUnchecked sb
        writeDirBlock block entries next
        pure (entries.drop entriesPerBlock, next)

/-- The second loop of `eynfs_write_dir_table`, over the entries that are left. The block that the
first loop allocated is used in every round. -/
def writeNewBlocks (sb : Superblock) (allocated : UInt32) : ℕ → List DirEntry → Program Unit
  | 0, _ => pure ()
  | rounds + 1, entries =>
    if entries = [] then pure ()
    else do
      let block ← if allocated = 0 then allocUnchecked sb else pure allocated
      let next ← if entries.drop entriesPerBlock = [] then pure 0 else allocUnchecked sb
      writeDirBlock block entries next
      writeNewBlocks sb allocated rounds (entries.drop entriesPerBlock)

/-- `eynfs_write_dir_table`. -/
def writeDirTable (block : UInt32) (entries : List DirEntry) : Program Unit :=
  if entries = [] then pure ()
  else do
    let sb ← readSuperblock
    let blocks ← originalBlocks 32 block
    let (left, allocated) ← writeOriginalBlocks sb blocks entries
    writeNewBlocks sb allocated left.length left

/-! ### Files -/

/-- The loop of `eynfs_read_file` that skips blocks before the offset: the block and the bytes of it
that are skipped. -/
def skipLoop : ℕ → UInt32 → ℕ → Program (UInt32 × ℕ)
  | 0, block, skip => pure (block, skip)
  | rounds + 1, block, skip =>
    if block = 0 ∨ skip < dataPerBlock then pure (block, skip)
    else do
      let sector ← getBlock block
      skipLoop rounds (nextBlock sector) (skip - dataPerBlock)

/-- The reads of `eynfs_read_file`, from a position in the first block on. -/
def readLoop : ℕ → UInt32 → ℕ → ℕ → Program (List UInt8)
  | 0, _, _, _ => pure []
  | rounds + 1, block, position, left =>
    if block = 0 ∨ left = 0 then pure []
    else do
      let sector ← getBlock block
      let chunk := min (dataPerBlock - position) left
      let rest ← readLoop rounds (nextBlock sector) 0 (left - chunk)
      pure (dataOf sector position chunk ++ rest)

/-- `eynfs_read_file`: the bytes that are read. -/
def readFile (entry : DirEntry) (bufSize offset : ℕ) : Program (List UInt8) :=
  if entry.type ≠ EYNFS_TYPE_FILE then failure
  else if entry.size.toNat ≤ offset then pure []
  else do
    let left := min bufSize (entry.size.toNat - offset)
    let (block, position) ← skipLoop (offset / dataPerBlock) entry.firstBlock offset
    readLoop (left + 1) block position left

/-- The loop of `eynfs_write_file` that frees the blocks the file has. -/
def freeOldLoop (sb : Superblock) : ℕ → UInt32 → Program Unit
  | 0, _ => .fail .endless
  | rounds + 1, block =>
    if block = 0 then pure ()
    else do
      let sector ← attempt (readBlock block)
      match sector with
      | none => pure ()
      | some sector => do
        invalidateBlock block
        let _ ← attempt (freeBlock sb block)
        freeOldLoop sb rounds (nextBlock sector)

/-- The loop of `eynfs_write_file` that writes the data: the first block. -/
def writeDataLoop (sb : Superblock) : ℕ → List UInt8 → UInt32 → UInt32 → Program UInt32
  | 0, _, _, first => pure first
  | rounds + 1, data, previous, first =>
    if data = [] then pure first
    else do
      let new ← allocBlock sb
      invalidateBlock new
      if previous ≠ 0 then do
        let sector ← readBlock previous
        writeBlock previous (setNext sector new)
      writeBlock new (setData zeroBlock 0 (data.take dataPerBlock))
      writeDataLoop sb rounds (data.drop dataPerBlock) new (if first = 0 then new else first)

/-- The most entries of a directory that `eynfs_write_file` reads. -/
def maxTableEntries : ℕ := 4096 / dirEntrySize

/-- The end of `eynfs_write_file`: update the entry in the table of its directory. `haveMemory` says
whether the buffer for the table could be allocated. -/
def updateDirectory (haveMemory : Bool) (parent : UInt32) (index : ℕ) (entry : DirEntry) :
    Program Unit := do
  let count ← countDirEntries parent
  if count = 0 ∨ haveMemory = false then failure
  else do
    let entries ← readDirTable parent (min count maxTableEntries)
    writeDirTable parent (entries.set (min index (entries.length - 1)) entry)

/-- `eynfs_write_file`: the entry of the file. -/
def writeFile (rounds : ℕ) (haveMemory : Bool) (sb : Superblock) (entry : DirEntry)
    (data : List UInt8) (parent : UInt32) (index : ℕ) : Program DirEntry :=
  if entry.type ≠ EYNFS_TYPE_FILE then failure
  else do
    freeOldLoop sb rounds entry.firstBlock
    let first ← writeDataLoop sb data.length data 0 0
    let updated := entry.setContents first (UInt32.ofNat data.length)
    updateDirectory haveMemory parent index updated
    pure updated

/-! ### Streams -/

/-- `eynfs_stream_t`. -/
structure Stream where
  sb : Superblock
  entry : DirEntry
  parentBlock : UInt32
  entryIndex : ℕ
  currBlock : UInt32
  firstBlock : UInt32
  size : UInt32
  posInBlock : ℕ

/-- The directory and the name in a path, split at its last slash. -/
def splitPath (path : List UInt8) : List UInt8 × List UInt8 :=
  let name := (path.reverse.takeWhile (· ≠ slash)).reverse
  let parent := path.take (path.length - name.length - 1)
  (if parent = [] then [slash] else parent, name)

def orError {Result : Type} (code : ℤ) (program : Program Result) : Program Result := do
  let result ← attempt program
  match result with
  | some result => pure result
  | none => .fail (.error code)

/-- `eynfs_stream_begin`. -/
def streamBegin (rounds : ℕ) (path : List UInt8) (unassigned : DirEntry) : Program Stream := do
  let sb ← orError (-101) readSuperblock
  if sb.magic ≠ EYNFS_MAGIC ∨ sb.blockSize ≠ UInt32.ofNat EYNFS_BLOCK_SIZE then
    .fail (.error (-102))
  else do
    let (parentPath, name) := splitPath (cString path)
    if 256 ≤ (cString path).length - name.length - 1 then .fail (.error (-103))
    else do
      let (parent, _, _) ← orError (-104) (traversePath sb parentPath unassigned)
      if parent.type ≠ EYNFS_TYPE_DIR then .fail (.error (-105))
      else do
        let old ← attempt (findInDir parent.firstBlock name)
        if old.isSome then do
          let _ ← attempt (deleteEntry rounds sb parent.firstBlock name)
        orError (-106) (createEntry rounds sb parent.firstBlock name EYNFS_TYPE_FILE)
        let (entry, index) ← orError (-107) (findInDir parent.firstBlock name)
        if entry.firstBlock ≠ 0 then do
          invalidateBlock entry.firstBlock
          orError (-108) (writeBlock entry.firstBlock zeroBlock)
        pure
          { sb := sb, entry := entry, parentBlock := parent.firstBlock, entryIndex := index
            currBlock := entry.firstBlock, firstBlock := entry.firstBlock, size := 0
            posInBlock := 0 }

/-- The part of `eynfs_stream_write` that makes sure of a block with space. -/
def streamBlock (stream : Stream) : Program Stream :=
  if stream.currBlock = 0 ∨ dataPerBlock ≤ stream.posInBlock then do
    let new ← allocBlock stream.sb
    invalidateBlock new
    writeBlock new zeroBlock
    if stream.currBlock ≠ 0 then do
      let sector ← getBlock stream.currBlock
      invalidateBlock stream.currBlock
      writeBlock stream.currBlock (setNext sector new)
    pure
      { stream with
        currBlock := new
        firstBlock := if stream.firstBlock = 0 then new else stream.firstBlock
        posInBlock := 0 }
  else pure stream

/-- The loop of `eynfs_stream_write`. -/
def streamWriteLoop : ℕ → List UInt8 → Stream → Program Stream
  | 0, _, stream => pure stream
  | rounds + 1, data, stream =>
    if data = [] then pure stream
    else do
      let stream ← streamBlock stream
      let sector ← getBlock stream.currBlock
      let chunk := data.take (dataPerBlock - stream.posInBlock)
      invalidateBlock stream.currBlock
      writeBlock stream.currBlock (setData sector stream.posInBlock chunk)
      streamWriteLoop rounds (data.drop (dataPerBlock - stream.posInBlock))
        { stream with
          posInBlock := stream.posInBlock + chunk.length
          size := stream.size + UInt32.ofNat chunk.length }

/-- `eynfs_stream_write`. -/
def streamWrite (data : List UInt8) (stream : Stream) : Program Stream :=
  streamWriteLoop data.length data stream

/-- `eynfs_stream_end`. -/
def streamEnd (stream : Stream) : Program Unit :=
  replaceEntry stream.parentBlock stream.entryIndex
    (stream.entry.setContents stream.firstBlock stream.size)

/-! ### Calls -/

/-- The operations of EYNFS that are called from outside, with their arguments. -/
inductive Operation
  | getBlock (block : UInt32)
  | writeBlock (block : UInt32) (data : Sector)
  | flush
  | invalidateBlock (block : UInt32)
  | clearCaches
  | allocBlock (sb : Superblock)
  | freeBlock (sb : Superblock) (block : UInt32)
  | readSuperblock
  | findInDir (dirBlock : UInt32) (name : List UInt8)
  | traversePath (sb : Superblock) (path : List UInt8) (unassigned : DirEntry)
  | createEntry (rounds : ℕ) (sb : Superblock) (parent : UInt32) (name : List UInt8) (type : UInt8)
  | deleteEntry (rounds : ℕ) (sb : Superblock) (parent : UInt32) (name : List UInt8)
  | countDirEntries (block : UInt32)
  | readDirTable (block : UInt32) (maxEntries : ℕ)
  | writeDirTable (block : UInt32) (entries : List DirEntry)
  | readFile (entry : DirEntry) (bufSize offset : ℕ)
  | writeFile (rounds : ℕ) (haveMemory : Bool) (sb : Superblock) (entry : DirEntry)
      (data : List UInt8) (parent : UInt32) (index : ℕ)
  | streamBegin (rounds : ℕ) (path : List UInt8) (unassigned : DirEntry)
  | streamWrite (data : List UInt8) (stream : Stream)
  | streamEnd (stream : Stream)

/-- What an operation returns. -/
inductive Response
  | status
  | sector (data : Sector)
  | block (block : UInt32)
  | number (value : ℕ)
  | bytes (data : List UInt8)
  | superblock (sb : Superblock)
  | entry (entry : DirEntry) (parent : UInt32) (index : ℕ)
  | entries (entries : List DirEntry)
  | stream (stream : Stream)

/-- The program of an operation. -/
def Operation.program : Operation → Program Response
  | .getBlock block => Response.sector <$> Storage.getBlock block
  | .writeBlock block data => (fun _ ↦ .status) <$> Storage.writeBlock block data
  | .flush => (fun _ ↦ .status) <$> Storage.flush
  | .invalidateBlock block => (fun _ ↦ .status) <$> Storage.invalidateBlock block
  | .clearCaches => (fun _ ↦ .status) <$> Storage.clearCaches
  | .allocBlock sb => Response.block <$> Storage.allocBlock sb
  | .freeBlock sb block => (fun _ ↦ .status) <$> Storage.freeBlock sb block
  | .readSuperblock => Response.superblock <$> Storage.readSuperblock
  | .findInDir dirBlock name =>
    (fun found ↦ .entry found.1 dirBlock found.2) <$> Storage.findInDir dirBlock name
  | .traversePath sb path unassigned =>
    (fun found ↦ .entry found.1 found.2.1 found.2.2) <$> Storage.traversePath sb path unassigned
  | .createEntry rounds sb parent name type =>
    (fun _ ↦ .status) <$> Storage.createEntry rounds sb parent name type
  | .deleteEntry rounds sb parent name =>
    (fun _ ↦ .status) <$> Storage.deleteEntry rounds sb parent name
  | .countDirEntries block => Response.number <$> Storage.countDirEntries block
  | .readDirTable block maxEntries => Response.entries <$> Storage.readDirTable block maxEntries
  | .writeDirTable block entries =>
    (fun _ ↦ .status) <$> Storage.writeDirTable block entries
  | .readFile entry bufSize offset => Response.bytes <$> Storage.readFile entry bufSize offset
  | .writeFile rounds haveMemory sb entry data parent index =>
    (fun updated ↦ .entry updated parent index) <$>
      Storage.writeFile rounds haveMemory sb entry data parent index
  | .streamBegin rounds path unassigned =>
    Response.stream <$> Storage.streamBegin rounds path unassigned
  | .streamWrite data stream => Response.stream <$> Storage.streamWrite data stream
  | .streamEnd stream => (fun _ ↦ .status) <$> Storage.streamEnd stream

/-- A call of an operation on a drive. -/
structure Call where
  drive : ℕ
  operation : Operation

/-- The drive that the accesses of a call go to: `eynfs_cache_clear` has no drive and flushes to
drive 0. -/
def Call.target (call : Call) : ℕ :=
  match call.operation with
  | .clearCaches => 0
  | _ => call.drive

def perform (call : Call) (state : State) : Except Stop Response × State :=
  run (answer call.target) call.operation.program state

def CacheEntry.unused : CacheEntry where
  blockNum := 0
  lastUse := 0
  data := zeroBlock
  dirty := false
  valid := false
  drive := 0

/-- Caches that were never used, above some drives. -/
def State.boot (disk : ℕ → Disk) (capacity : ℕ) : State where
  disk := disk
  blockCache := List.replicate capacity .unused
  useClock := 1
  freeBlockCache := []
  freeBlockCacheValid := false
  freeDrive := 0

end EynOS.Storage
