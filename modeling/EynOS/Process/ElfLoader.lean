import EynOS.Foundation.MachineWord
import EynOS.Foundation.Traced

/-!
# The ELF loader

The model of `user_elf_run_argv`: from the bytes of a program file in the kernel's buffer, through
the checks of its headers and of the range that its segments span, to the pages that are mapped and
the bytes that are copied into them. A load is a traced program: its trace holds every read of the
buffer at or past some offset, every page that is mapped and every copy into user memory.

The buffer holds the bytes that were read; past them is whatever memory holds there. `Environment`
decides which page tables and frames are to be had.

Not modelled: finding and reading the file, console messages, the state of the task that is reset
on the way, the argument vector on the stack, and entering ring 3.
-/

namespace EynOS.Process.ElfLoader

open Foundation Traced

/-! ### Constants -/

def pageSize : ℕ := 4096

/-- `USER_ELF_MAX_FILE_BYTES`. -/
def maxFileBytes : ℕ := 16 * 1024 * 1024

def userCodeBase : ℕ := 0x00400000

def userStackBase : ℕ := 0xB0000000

def userStackTop : ℕ := 0xC0000000

/-- `USER_ELF_INITIAL_STACK_PAGES`. -/
def initialStackPages : ℕ := 8

/-- `sizeof(Elf32_Ehdr)`. -/
def ehdrSize : ℕ := 52

/-- `sizeof(Elf32_Phdr)`. -/
def phdrSize : ℕ := 32

def ptLoad : ℕ := 1

def ptInterp : ℕ := 3

/-- `sizeof(interp_path)`. -/
def interpPathSize : ℕ := 256

/-! ### The file in memory -/

/-- The buffer with the file: the number of bytes that were read, and the memory from the start of
the buffer on. -/
structure Image where
  size : ℕ
  byte : ℕ → UInt8
  bounded : size ≤ maxFileBytes

/-- A 16-bit little-endian field. -/
def Image.half (image : Image) (offset : ℕ) : ℕ :=
  (image.byte offset).toNat + 256 * (image.byte (offset + 1)).toNat

/-- A 32-bit little-endian field. -/
def Image.word (image : Image) (offset : ℕ) : ℕ :=
  image.half offset + 65536 * image.half (offset + 2)

def Image.ePhoff (image : Image) : ℕ := image.word 28

def Image.ePhentsize (image : Image) : ℕ := image.half 42

def Image.ePhnum (image : Image) : ℕ := image.half 44

/-- The offset of a program header, as the 32-bit pointer to it computes it. -/
def Image.phdr (image : Image) (index : ℕ) : ℕ :=
  u32 (image.ePhoff + index * image.ePhentsize)

def Image.pType (image : Image) (index : ℕ) : ℕ := image.word (image.phdr index)

def Image.pOffset (image : Image) (index : ℕ) : ℕ := image.word (image.phdr index + 4)

def Image.pVaddr (image : Image) (index : ℕ) : ℕ := image.word (image.phdr index + 8)

def Image.pFilesz (image : Image) (index : ℕ) : ℕ := image.word (image.phdr index + 16)

def Image.pMemsz (image : Image) (index : ℕ) : ℕ := image.word (image.phdr index + 20)

/-! ### Traces -/

/-- What a load touches. -/
inductive Access
  | readFile (offset length : ℕ)
  | mapPage (address : ℕ)
  | mapStackPage (address : ℕ)
  | write (address length : ℕ)
deriving DecidableEq

/-- Why a load ends without a program, in the order of the checks. -/
inductive LoadError
  | tooSmall
  | notElf
  | unsupported
  | missingProgramHeaders
  | headersOutOfRange
  | noLoadableSegments
  | rangeNotSupported
  | mappingTooLarge
  | noPageTables
  | noStackFrames
  | fileszOverMemsz
  | segmentOutOfRange
  | noSegmentFrames
  | invalidEntry

/-- How a load ends: with the path of an interpreter to run in its place, or with a program. -/
inductive Loaded
  | interpreter (path : List UInt8)
  | program (entry mapStart mapEnd : ℕ)

abbrev Load := Traced Access LoadError

/-- Which page tables, stack frames and segment frames are to be had. -/
structure Environment where
  pageTable : ℕ → Bool
  stackFrame : ℕ → Bool
  segmentFrame : ℕ → ℕ → Bool

def readWord (image : Image) (offset : ℕ) : Load ℕ :=
  accessing (.readFile offset 4) (image.word offset)

def readHalf (image : Image) (offset : ℕ) : Load ℕ :=
  accessing (.readFile offset 2) (image.half offset)

def alignDown (value : ℕ) : ℕ := value / pageSize * pageSize

def alignUp (value : ℕ) : ℕ := u32 (value + (pageSize - 1)) / pageSize * pageSize

/-! ### The headers -/

/-- The checks of the file header. -/
def checkHeader (image : Image) : Load Unit :=
  if image.size < ehdrSize then fail .tooSmall
  else do
    let magic ← readWord image 0
    if magic ≠ 0x464C457F then fail .notElf
    else
      let classData ← readHalf image 4
      let machine ← readHalf image 18
      if classData ≠ 0x0101 ∨ machine ≠ 3 then fail .unsupported
      else
        let phoff ← readWord image 28
        let phentsize ← readHalf image 42
        let phnum ← readHalf image 44
        if phoff = 0 ∨ phentsize < phdrSize ∨ phnum = 0 then fail .missingProgramHeaders
        else if image.size < u32 (phoff + phnum * phentsize) then fail .headersOutOfRange
        else pure ()

/-- The path in a program header that names an interpreter, up to its terminator. -/
def Image.interpPath (image : Image) (index : ℕ) : List UInt8 :=
  ((List.range (min (image.pFilesz index) (interpPathSize - 1))).map fun n ↦
    image.byte (image.pOffset index + n)).takeWhile (· ≠ 0)

def interpEntry (image : Image) (index : ℕ) : Load (Option (List UInt8)) := do
  let type ← readWord image (image.phdr index)
  if type ≠ ptInterp then pure none
  else
    let offset ← readWord image (image.phdr index + 4)
    let filesz ← readWord image (image.phdr index + 16)
    if image.size < u32 (offset + filesz) then pure none
    else
      let path ← accessing (.readFile offset (min filesz (interpPathSize - 1)))
        (image.interpPath index)
      pure (some path)

def findInterp (image : Image) : Load (List UInt8) := do
  let found ← search (interpEntry image) image.ePhnum 0
  pure (found.getD [])

/-- `min_vaddr`, `max_vaddr` and `load_count`. -/
structure LoadRange where
  minVaddr : ℕ
  maxVaddr : ℕ
  loadCount : ℕ

def addSegment (image : Image) (range : LoadRange) (index : ℕ) : LoadRange :=
  if image.pType index ≠ ptLoad then range
  else if image.pMemsz index = 0 then range
  else
    let segmentEnd := u32 (image.pVaddr index + image.pMemsz index)
    { minVaddr := if image.pVaddr index < range.minVaddr then image.pVaddr index
        else range.minVaddr
      maxVaddr := if range.maxVaddr < segmentEnd then segmentEnd else range.maxVaddr
      loadCount := range.loadCount + 1 }

def rangeEntry (image : Image) (index : ℕ) (range : LoadRange) : Load LoadRange := do
  let type ← readWord image (image.phdr index)
  if type ≠ ptLoad then pure range
  else
    let memsz ← readWord image (image.phdr index + 20)
    if memsz = 0 then pure range
    else
      let _vaddr ← readWord image (image.phdr index + 8)
      pure (addSegment image range index)

/-- The range before the first program header. -/
def emptyRange : LoadRange where
  minVaddr := 0xFFFFFFFF
  maxVaddr := 0
  loadCount := 0

def Image.loadRange (image : Image) : LoadRange :=
  (List.range image.ePhnum).foldl (addSegment image) emptyRange

def LoadRange.mapStart (range : LoadRange) : ℕ := alignDown range.minVaddr

def LoadRange.mapEnd (range : LoadRange) : ℕ := alignUp range.maxVaddr

def LoadRange.pages (range : LoadRange) : ℕ :=
  u32 (range.mapEnd + 4294967296 - range.mapStart) / pageSize

/-! ### Mapping and copying -/

/-- Create the page table entry of one page of the image, to be filled on demand. -/
def createPte (environment : Environment) (mapStart index : ℕ) : Load Unit :=
  if environment.pageTable index then access (.mapPage (mapStart + index * pageSize))
  else fail .noPageTables

def mapStack (environment : Environment) (index : ℕ) : Load Unit :=
  if environment.stackFrame index then
    access (.mapStackPage (userStackTop - initialStackPages * pageSize + index * pageSize))
  else fail .noStackFrames

def mapSegmentPage (environment : Environment) (index pageStart page : ℕ) : Load Unit :=
  if environment.segmentFrame index page then access (.mapPage (pageStart + page * pageSize))
  else fail .noSegmentFrames

/-- Map the pages with bytes of the file of one segment, and copy them. -/
def loadSegment (environment : Environment) (image : Image) (index : ℕ) : Load Unit := do
  let type ← readWord image (image.phdr index)
  if type ≠ ptLoad then pure ()
  else
    let memsz ← readWord image (image.phdr index + 20)
    if memsz = 0 then pure ()
    else
      let filesz ← readWord image (image.phdr index + 16)
      if memsz < filesz then fail .fileszOverMemsz
      else
        let offset ← readWord image (image.phdr index + 4)
        if image.size < u32 (offset + filesz) then fail .segmentOutOfRange
        else
          let vaddr ← readWord image (image.phdr index + 8)
          let pageStart := alignDown vaddr
          let pageEnd := alignUp (u32 (vaddr + filesz))
          let _ ← loop (fun page _ ↦ mapSegmentPage environment index pageStart page)
            ((pageEnd - pageStart) / pageSize) 0 ()
          if filesz = 0 then pure ()
          else
            let _ ← access (.readFile offset filesz)
            access (.write vaddr filesz)

/-- The load of a program that needs no interpreter. -/
def loadProgram (environment : Environment) (image : Image) : Load Loaded := do
  let range ← loop (rangeEntry image) image.ePhnum 0 emptyRange
  if range.loadCount = 0 ∨ range.minVaddr = 0xFFFFFFFF ∨ range.maxVaddr ≤ range.minVaddr then
    fail .noLoadableSegments
  else if range.mapStart < userCodeBase ∨ userStackBase ≤ range.mapEnd then
    fail .rangeNotSupported
  else if range.pages = 0 ∨ 16384 < range.pages then fail .mappingTooLarge
  else
    let _ ← loop (fun index _ ↦ createPte environment range.mapStart index) range.pages 0 ()
    let _ ← loop (fun index _ ↦ mapStack environment index) initialStackPages 0 ()
    let _ ← loop (fun index _ ↦ loadSegment environment image index) image.ePhnum 0 ()
    let entry ← readWord image 24
    if entry = 0 ∨ entry < range.mapStart ∨ range.mapEnd ≤ entry then fail .invalidEntry
    else pure (.program entry range.mapStart range.mapEnd)

/-- `user_elf_run_argv` on the bytes of a file, up to the argument vector. -/
def userElfRunArgv (environment : Environment) (image : Image) : Load Loaded := do
  let _ ← checkHeader image
  let path ← findInterp image
  if path ≠ [] then pure (.interpreter path)
  else loadProgram environment image

end EynOS.Process.ElfLoader
