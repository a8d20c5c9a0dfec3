import EynOS.Storage.BlockCache

/-!
# What EYNFS keeps in its sectors

The fields of the on-disk structures of EYNFS: little-endian words, the bits of the free-block
bitmap, the link at the start of a block of a chain, directory entries and the superblock.
Directory entries are kept as their bytes, since `eynfs.c` copies them whole.
-/

namespace EynOS.Storage

open Foundation

/-! ### Bytes and words -/

section Bytes

variable {size : ℕ}

/-- A byte of a buffer, zero past its end. -/
def byteAt (bytes : Fin size → UInt8) (index : ℕ) : UInt8 :=
  if hindex : index < size then bytes ⟨index, hindex⟩ else 0

/-- Copy a number of bytes into a buffer, from an offset on. -/
def copyInto (bytes : Fin size → UInt8) (offset count : ℕ) (source : ℕ → UInt8) :
    Fin size → UInt8 :=
  fun index ↦
    if offset ≤ index.val ∧ index.val < offset + count then source (index.val - offset)
    else bytes index

def wordByte (word : UInt32) (index : ℕ) : UInt8 := UInt8.ofNat (word.toNat / 256 ^ index)

def wordAt (bytes : Fin size → UInt8) (index : ℕ) : UInt32 :=
  UInt32.ofNat ((byteAt bytes index).toNat + 256 * (byteAt bytes (index + 1)).toNat +
    65536 * (byteAt bytes (index + 2)).toNat + 16777216 * (byteAt bytes (index + 3)).toNat)

def setWord (bytes : Fin size → UInt8) (index : ℕ) (word : UInt32) : Fin size → UInt8 :=
  copyInto bytes index 4 (wordByte word)

end Bytes

def zeroBlock : Sector := fun _ ↦ 0

def nextBlock (sector : Sector) : UInt32 := wordAt sector 0

/-- A block with its link changed. -/
def setNext (sector : Sector) (next : UInt32) : Sector := setWord sector 0 next

/-! ### The bitmap -/

def bitmapBit (bitmap : Sector) (index : ℕ) : Bool :=
  (byteAt bitmap (index / 8)).toNat.testBit (index % 8)

def setBitmapBit (bitmap : Sector) (index : ℕ) (used : Bool) : Sector :=
  copyInto bitmap (index / 8) 1 fun _ ↦
    if used then byteAt bitmap (index / 8) ||| ((1 : UInt8) <<< UInt8.ofNat (index % 8))
    else byteAt bitmap (index / 8) &&& ~~~((1 : UInt8) <<< UInt8.ofNat (index % 8))

/-! ### Directory entries -/

def EYNFS_NAME_MAX : ℕ := 32

def EYNFS_TYPE_FILE : UInt8 := 1

def EYNFS_TYPE_DIR : UInt8 := 2

/-- `sizeof(eynfs_dir_entry_t)`. -/
def dirEntrySize : ℕ := 52

def entriesPerBlock : ℕ := (EYNFS_BLOCK_SIZE - 4) / dirEntrySize

/-- `eynfs_dir_entry_t`: the name, the type at 32, the size at 36 and the first block at 40. -/
abbrev DirEntry : Type := Fin dirEntrySize → UInt8

def emptyEntry : DirEntry := fun _ ↦ 0

/-- `entry.type`. -/
def DirEntry.type (entry : DirEntry) : UInt8 := byteAt entry 32

/-- `entry.size`. -/
def DirEntry.size (entry : DirEntry) : UInt32 := wordAt entry 36

/-- `entry.first_block`. -/
def DirEntry.firstBlock (entry : DirEntry) : UInt32 := wordAt entry 40

/-- An entry with its first block and its size changed. -/
def DirEntry.setContents (entry : DirEntry) (firstBlock size : UInt32) : DirEntry :=
  setWord (setWord entry 40 firstBlock) 36 size

def cString (bytes : List UInt8) : List UInt8 := bytes.takeWhile (· ≠ 0)

def DirEntry.name (entry : DirEntry) : List UInt8 :=
  cString ((List.range EYNFS_NAME_MAX).map (byteAt entry))

/-- `entry.name[0] == '\0'`: the slot of the entry is free. -/
def DirEntry.isFree (entry : DirEntry) : Bool := byteAt entry 0 == 0

/-- `strncmp(entry.name, name, EYNFS_NAME_MAX) == 0`. -/
def DirEntry.hasName (entry : DirEntry) (name : List UInt8) : Bool :=
  entry.name == (cString name).take EYNFS_NAME_MAX

/-- A new entry: the name is cut to 31 characters, and the size is zero. -/
def newEntry (name : List UInt8) (type : UInt8) (firstBlock : UInt32) : DirEntry :=
  setWord
    (copyInto
      (copyInto emptyEntry 0 (EYNFS_NAME_MAX - 1) fun index ↦ (cString name).getD index 0)
      32 1 fun _ ↦ type)
    40 firstBlock

/-- An entry whose name is ended at its last character, as `eynfs_read_dir_table` leaves it. -/
def DirEntry.terminate (entry : DirEntry) : DirEntry :=
  copyInto entry (EYNFS_NAME_MAX - 1) 1 fun _ ↦ 0

def entryAt (sector : Sector) (slot : ℕ) : DirEntry :=
  fun index ↦ byteAt sector (4 + dirEntrySize * slot + index.val)

def setEntry (sector : Sector) (slot : ℕ) (entry : DirEntry) : Sector :=
  copyInto sector (4 + dirEntrySize * slot) dirEntrySize (byteAt entry)

def entriesOf (sector : Sector) : List DirEntry :=
  (List.range entriesPerBlock).map (entryAt sector)

def dirBlock (entries : List DirEntry) (next : UInt32) : Sector :=
  (entries.take entriesPerBlock).zipIdx.foldl (fun sector entry ↦ setEntry sector entry.2 entry.1)
    (setNext zeroBlock next)

/-! ### File contents -/

def dataPerBlock : ℕ := EYNFS_BLOCK_SIZE - 4

/-- A block with the bytes of a file, from a position of its data on. -/
def setData (sector : Sector) (position : ℕ) (data : List UInt8) : Sector :=
  copyInto sector (4 + position) data.length fun index ↦ data.getD index 0

/-- A number of bytes of the data of a block, from a position on. -/
def dataOf (sector : Sector) (position count : ℕ) : List UInt8 :=
  (List.range count).map fun index ↦ byteAt sector (4 + position + index)

/-! ### The superblock -/

def EYNFS_MAGIC : UInt32 := 0x45594E46

/-- The fields of `eynfs_superblock_t` that are read. -/
structure Superblock where
  magic : UInt32
  blockSize : UInt32
  totalBlocks : UInt32
  rootDirBlock : UInt32
  freeBlockMap : UInt32
  deriving DecidableEq

def superblockOf (sector : Sector) : Superblock where
  magic := wordAt sector 0
  blockSize := wordAt sector 8
  totalBlocks := wordAt sector 12
  rootDirBlock := wordAt sector 16
  freeBlockMap := wordAt sector 20

end EynOS.Storage
