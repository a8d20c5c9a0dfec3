import EynOS.Storage.Eynfs

/-!
# The boot loader's reader of EYNFS

The GRUB module of `eynfs.c` in `grub-module-src`: it finds the superblock of a disk, looks up a
path and reads the file there. Its functions are programs that ask for sectors of the disk and write
to the buffers of the module; what they write where is kept, so that a program can be asked whether
it stays in its buffers.

The loop over the blocks of a directory has no bound in the source. It follows at most `rounds`
blocks here, and a program that follows more ends as `Failure.endless`. The loops of a read come
nearer to their end with every block and are followed to it.

Not modelled: the listing of a directory, the checks for null pointers, `grub_errno`, which is clear
as long as no call has failed, and what lies behind a buffer that is written past its end, which the
module does not read.
-/

namespace EynOS.Storage.Grub

open Foundation Interaction

/-! ### Requests -/

/-- The sectors of a disk as `grub_disk_read` returns them, where it does. -/
abbrev Device : Type := ℕ → Option Sector

/-- `sizeof (struct eynfs_data)`, which starts with the superblock. -/
def dataSize : ℕ := 56

/-- `sizeof (comp)`. -/
def compSize : ℕ := 128

/-- Where `eynfs_read_sector` puts a sector: `&d->sb`, or a buffer for a sector. -/
inductive Destination
  | superblock
  | sector

/-- The bytes of a destination up to the end of its object. -/
def Destination.size : Destination → ℕ
  | .superblock => dataSize
  | .sector => EYNFS_BLOCK_SIZE

/-- What the module asks for: `grub_disk_read` of `EYNFS_BLOCK_SIZE` bytes, an assignment to
`comp[index]`, and `grub_memcpy` to `buf + offset`. -/
inductive Request
  | diskRead (out : Destination) (lba : ℕ)
  | setComp (index : ℕ) (char : UInt8)
  | copy (offset : ℕ) (data : List UInt8)

abbrev Request.Answer : Request → Type
  | .diskRead _ _ => Option Sector
  | .setComp _ _ => Unit
  | .copy _ _ => Unit

/-- The codes of `grub_error`. -/
inductive ErrorCode
  | badFs
  | fileNotFound
  | badFilename
  | badFileType
  deriving DecidableEq

/-- How a function ends without a result: the disk could not be read, it reports an error, or it
follows a chain of blocks for longer than it is followed here. -/
inductive Failure
  | disk
  | error (code : ErrorCode) (message : String)
  | endless
  deriving DecidableEq

/-- A function of the module. -/
abbrev Program : Type → Type := Interaction Request Request.Answer Failure

/-- The bytes of a buffer after some bytes were copied into it. -/
def splice (offset : ℕ) (data buf : List UInt8) : List UInt8 :=
  buf.take offset ++ data ++ buf.drop (offset + data.length)

/-- Perform a request. The state is the caller's buffer. -/
def answer (device : Device) : Handler Request Request.Answer (List UInt8)
  | .diskRead _ lba, buf => (device lba, buf)
  | .setComp _ _, buf => ((), buf)
  | .copy offset data, buf => ((), splice offset data buf)

/-- `grub_disk_read`. -/
def diskRead (out : Destination) (lba : ℕ) : Program (Option Sector) :=
  request (Request.diskRead out lba)

/-- An assignment to a character of `comp`. -/
def setComp (index : ℕ) (char : UInt8) : Program Unit := request (Request.setComp index char)

/-- `grub_memcpy` to the caller's buffer. -/
def copy (offset : ℕ) (data : List UInt8) : Program Unit := request (Request.copy offset data)

/-- `eynfs_read_sector`. -/
def readSector (out : Destination) (lba : ℕ) : Program Sector := do
  let answered ← diskRead out lba
  match answered with
  | some sector => pure sector
  | none => .fail .disk

/-! ### The superblock -/

def EYNFS_LEGACY_SUPERBLOCK_LBA : ℕ := 2048

/-- `struct eynfs_data` after `eynfs_load_superblock`: the superblock and where it is. -/
structure Mount where
  sb : Superblock
  sbLba : ℕ

/-- `eynfs_fs_block_to_lba`. -/
def Mount.blockToLba (mount : Mount) (block : UInt32) : ℕ := mount.sbLba + block.toNat

/-- A sector has the magic and the block size of EYNFS. -/
def isSuperblock (sector : Sector) : Bool :=
  (superblockOf sector).magic == EYNFS_MAGIC &&
    (superblockOf sector).blockSize == UInt32.ofNat EYNFS_BLOCK_SIZE

/-- `eynfs_load_superblock`. -/
def loadSuperblock : Program Mount := do
  let first ← diskRead .superblock 0
  match first.filter isSuperblock with
  | some sector => pure { sb := superblockOf sector, sbLba := 0 }
  | none => do
    let sector ← readSector .superblock EYNFS_LEGACY_SUPERBLOCK_LBA
    if isSuperblock sector then
      pure { sb := superblockOf sector, sbLba := EYNFS_LEGACY_SUPERBLOCK_LBA }
    else .fail (.error .badFs "not an EYNFS volume")

/-! ### Directories -/

/-- The bytes of `entry.name`. -/
def rawName (entry : DirEntry) : List UInt8 := (List.range EYNFS_NAME_MAX).map (byteAt entry)

/-- `eynfs_name_eq`, with the bytes that are left of the entry's name and the characters that are
left of the other one. -/
def nameEq : List UInt8 → List UInt8 → Bool
  | [], name => name.isEmpty
  | char :: _, [] => char == 0
  | char :: raw, expected :: name => char != 0 && expected == char && nameEq raw name

def entryNamed (name : List UInt8) (sector : Sector) : Option DirEntry :=
  (entriesOf sector).find? fun entry ↦ !entry.isFree && nameEq (rawName entry) name

/-- `eynfs_find_in_dir`. -/
def findInDir (mount : Mount) (name : List UInt8) : ℕ → UInt32 → Program DirEntry
  | 0, _ => .fail .endless
  | rounds + 1, block =>
    if block = 0 then .fail (.error .fileNotFound "entry not found")
    else do
      let sector ← readSector .sector (mount.blockToLba block)
      match entryNamed name sector with
      | some entry => pure entry
      | none => findInDir mount name rounds (nextBlock sector)

/-! ### Paths -/

/-- The loop that copies one component of a path to `comp`: what it copied, and the rest of the
path. A component is cut where `comp` is full. -/
def copyComponent : List UInt8 → List UInt8 → Program (List UInt8 × List UInt8)
  | [], comp => do
    setComp comp.length 0
    pure (comp, [])
  | char :: path, comp =>
    if char ≠ slash ∧ comp.length + 1 < compSize then do
      setComp comp.length char
      copyComponent path (comp ++ [char])
    else do
      setComp comp.length 0
      pure (comp, char :: path)

def skipSlashes (path : List UInt8) : List UInt8 := path.dropWhile (· == slash)

/-- The loop of `eynfs_traverse_path`, which takes at least one character of the path every time. -/
def traverseLoop (mount : Mount) (rounds : ℕ) : ℕ → List UInt8 → UInt32 → Program DirEntry
  | 0, _, _ => .fail .endless
  | count + 1, path, curDir => do
    let (comp, rest) ← copyComponent (skipSlashes path) []
    if comp = [] then .fail (.error .badFilename "empty path component")
    else do
      let entry ← findInDir mount comp rounds curDir
      if skipSlashes rest = [] then pure entry
      else if entry.type ≠ EYNFS_TYPE_DIR then
        .fail (.error .badFileType "path component is not a directory")
      else traverseLoop mount rounds count (skipSlashes rest) entry.firstBlock

/-- `eynfs_traverse_path`. -/
def traversePath (mount : Mount) (rounds : ℕ) (path : List UInt8) : Program DirEntry :=
  if skipSlashes (cString path) = [] then pure (rootEntry mount.sb)
  else traverseLoop mount rounds (cString path).length (skipSlashes (cString path))
    mount.sb.rootDirBlock

/-! ### Files -/

/-- `struct eynfs_data` and the size of an open file. -/
structure File where
  mount : Mount
  fileFirstBlock : UInt32
  size : UInt32

/-- `eynfs_open`. -/
def openFile (rounds : ℕ) (name : List UInt8) : Program File := do
  let mount ← loadSuperblock
  let entry ← traversePath mount rounds name
  if entry.type ≠ EYNFS_TYPE_FILE then .fail (.error .badFileType "not a regular file")
  else pure { mount := mount, fileFirstBlock := entry.firstBlock, size := entry.size }

/-- The loop of `eynfs_read` over the blocks before the offset: the block that holds it, and the
position in its data. -/
def skipLoop (mount : Mount) : ℕ → UInt32 → ℕ → Program (UInt32 × ℕ)
  | 0, block, start => pure (block, start)
  | count + 1, block, start =>
    if block = 0 ∨ start < dataPerBlock then pure (block, start)
    else do
      let sector ← readSector .sector (mount.blockToLba block)
      skipLoop mount count (nextBlock sector) (start - dataPerBlock)

/-- The loop of `eynfs_read` over the blocks that are copied: how much was copied in the end. -/
def copyLoop (mount : Mount) : ℕ → UInt32 → ℕ → ℕ → ℕ → Program ℕ
  | 0, _, _, _, copied => pure copied
  | count + 1, block, start, remaining, copied =>
    if block = 0 ∨ remaining = 0 then pure copied
    else do
      let sector ← readSector .sector (mount.blockToLba block)
      let avail := dataPerBlock - start
      let take := if remaining < avail then remaining else avail
      copy copied (dataOf sector start take)
      copyLoop mount count (nextBlock sector) 0 (remaining - take) (copied + take)

/-- `eynfs_read`. -/
def read (file : File) (offset len : ℕ) : Program ℕ :=
  if file.size.toNat ≤ offset then pure 0
  else do
    let len := if file.size.toNat - offset < len then file.size.toNat - offset else len
    let (block, start) ← skipLoop file.mount (offset / dataPerBlock) file.fileFirstBlock offset
    copyLoop file.mount (len + 1) block start len 0

/-! ### What the boot loader asks for -/

def lookUp (rounds : ℕ) (path : List UInt8) : Program DirEntry := do
  let mount ← loadSuperblock
  traversePath mount rounds path

def readPath (rounds : ℕ) (path : List UInt8) (offset len : ℕ) : Program ℕ := do
  let file ← openFile rounds path
  read file offset len

end EynOS.Storage.Grub
