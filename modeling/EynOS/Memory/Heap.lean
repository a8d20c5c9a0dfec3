import EynOS.Foundation.MachineWord

/-!
# The kernel heap

The model of the heap allocator of `util.c` as it is built by default (without
`CONFIG_RUST_ALLOCATOR`). The heap is a stretch of memory with a 16-byte header in front of every
block; headers are four 32-bit words, and every offset that the allocator computes is a multiple
of four, so memory is a function from byte offsets to words. `initMemoryManager` places and sizes
the heap from what the machine reports at that moment, `heapMalloc` and `heapFree` are the two
operations.

The traversal of `merge_free_blocks` has no bound of its own, so its two loops count steps down
from the size of the heap; running out stands for a traversal that never ends, and `heapFree`,
`initMemoryManager` and `heapMalloc` then give nothing.

Not modelled: console messages, the scheduler accounting of `mem_ctx_account` and the reservation
of the heap's physical frames.
-/

namespace EynOS.Memory.Heap

open Foundation

/-! ### Constants -/

def pageSize : ℕ := 4096

def kernelBase : ℕ := 0xC0000000

def heapSizeDefault : ℕ := 0x100000

def heapSizeMin : ℕ := 0x40000

def heapSizeMax : ℕ := 0x1000000

def heapPhysReserveBytes : ℕ := 512 * 1024

def minBlockSize : ℕ := 16

def blockHeaderSize : ℕ := 16

def noBlock : ℕ := 0xFFFFFFFF

def magicNumber : ℕ := 0xDEADBEEF

/-- `first_block`, which `init_memory_manager` sets to zero and nothing changes. -/
def firstBlock : ℕ := 0

/-! ### State -/

/-- `block_header_t`: the size of a block with its header, whether it is used, the offset of the
next block and the magic number. -/
structure BlockHeader where
  size : ℕ
  used : ℕ
  next : ℕ
  magic : ℕ

/-- The static variables of the allocator and the words of the heap by byte offset. -/
structure State where
  heapStart : ℕ
  heapPhysStart : ℕ
  heapSize : ℕ
  memoryInitialized : Bool
  memoryErrors : ℕ
  allocationCount : ℕ
  freeCount : ℕ
  word : ℕ → ℕ

/-- What the machine reports when the heap is set up: the detected RAM, the free frames, the end of
the boot-time allocations and the end of the kernel image. -/
structure Machine where
  availableRam : ℕ
  freeFrames : ℕ
  bootAllocEnd : ℕ
  kernelEnd : ℕ

/-- The state before the first allocation, over arbitrary memory contents. -/
def boot (word : ℕ → ℕ) : State where
  heapStart := 0
  heapPhysStart := 0
  heapSize := heapSizeDefault
  memoryInitialized := false
  memoryErrors := 0
  allocationCount := 0
  freeCount := 0
  word := word

def header (heap : State) (offset : ℕ) : BlockHeader where
  size := heap.word offset
  used := heap.word (offset + 4)
  next := heap.word (offset + 8)
  magic := heap.word (offset + 12)

def setWord (heap : State) (address value : ℕ) : State :=
  { heap with word := Function.update heap.word address value }

def setHeader (heap : State) (offset : ℕ) (block : BlockHeader) : State :=
  setWord (setWord (setWord (setWord heap offset block.size) (offset + 4) block.used)
    (offset + 8) block.next) (offset + 12) block.magic

/-- `memory_errors++`. -/
def countError (heap : State) : State :=
  { heap with memoryErrors := u32 (heap.memoryErrors + 1) }

/-! ### Traversal -/

/-- `validate_block` for the block at an offset; the caller counts the error when it fails. The
pointer sums are those of 32-bit pointers. -/
def validateBlock (heap : State) (offset : ℕ) : Bool :=
  let heapBegin := heap.heapStart
  let heapEnd := u32 (heapBegin + heap.heapSize)
  let blockAddr := u32 (heapBegin + offset)
  let size := (header heap offset).size
  if heapBegin = 0 ∨ heapBegin < 0x100000 ∨ heap.heapSize < heapSizeMin then false
  else if heapEnd ≤ heapBegin then false
  else if blockAddr < heapBegin ∨ heapEnd < u32 (blockAddr + blockHeaderSize) then false
  else if heap.heapSize ≤ offset ∨ heap.heapSize < u32 (offset + blockHeaderSize) ∨
      heap.heapSize < u32 (offset + size) then false
  else if size < blockHeaderSize ∨ heap.heapSize < size ∨ size = 0 then false
  else true

/-- The loop of `find_free_block`: `checks` blocks may still be checked, and `bestFit`, `bestSize`
are the best block so far. -/
def findFreeBlockLoop (heap : State) (size : ℕ) : ℕ → ℕ → ℕ → ℕ → State × ℕ
  | 0, _, bestFit, _ => (heap, bestFit)
  | checks + 1, current, bestFit, bestSize =>
    if current = noBlock then (heap, bestFit)
    else if validateBlock heap current then
      let block := header heap current
      if block.used = 0 ∧ size ≤ block.size ∧ block.size < bestSize then
        findFreeBlockLoop heap size checks block.next current block.size
      else findFreeBlockLoop heap size checks block.next bestFit bestSize
    else (countError heap, noBlock)

/-- `find_free_block`: the smallest free block that is large enough among the first hundred. -/
def findFreeBlock (heap : State) (size : ℕ) : State × ℕ :=
  findFreeBlockLoop heap size 100 firstBlock noBlock 0xFFFFFFFF

/-- `split_block`: cut a block down to `neededSize` when the remainder can hold a block. -/
def splitBlock (heap : State) (blockOffset neededSize : ℕ) : State :=
  let block := header heap blockOffset
  if block.size < u32 (u32 (neededSize + blockHeaderSize) + minBlockSize) then heap
  else
    let newBlockOffset := u32 (blockOffset + neededSize)
    let newBlockSize := block.size - neededSize
    let heap := setHeader heap newBlockOffset
      { size := newBlockSize, used := 0, next := block.next, magic := magicNumber }
    setWord (setWord heap blockOffset neededSize) (blockOffset + 8) newBlockOffset

/-- The inner loop of `merge_free_blocks` at the block `current`: the heap it leaves and whether
every block it looked at was valid, or nothing when the steps run out. -/
def mergeInto : ℕ → State → ℕ → Option (State × Bool)
  | 0, _, _ => none
  | steps + 1, heap, current =>
    let block := header heap current
    if block.next = noBlock then some (heap, true)
    else if validateBlock heap block.next then
      let nextBlock := header heap block.next
      if block.used = 0 ∧ nextBlock.used = 0 then
        mergeInto steps
          (setWord (setWord heap current (u32 (block.size + nextBlock.size)))
            (current + 8) nextBlock.next) current
      else some (heap, true)
    else some (countError heap, false)

/-- The outer loop of `merge_free_blocks`. -/
def mergeFreeBlocksLoop : ℕ → State → ℕ → Option State
  | 0, _, _ => none
  | steps + 1, heap, current =>
    if current = noBlock then some heap
    else if validateBlock heap current then
      match mergeInto heap.heapSize heap current with
      | none => none
      | some (heap, false) => some heap
      | some (heap, true) => mergeFreeBlocksLoop steps heap (header heap current).next
    else some (countError heap)

def mergeFreeBlocks (heap : State) : Option State :=
  mergeFreeBlocksLoop heap.heapSize heap firstBlock

/-! ### Allocating and freeing -/

/-- The part of `heap_malloc` after the lazy initialization: the heap and the pointer handed out,
zero for `NULL`. -/
def allocate (heap : State) (nbytes : ℕ) : State × ℕ :=
  if nbytes = 0 then (heap, 0)
  else if u32 (heap.heapSize * 9) / 10 < nbytes then (heap, 0)
  else
    let totalSize := u32 (nbytes + blockHeaderSize + 3) / 4 * 4
    if heap.heapStart = 0 then (heap, 0)
    else
      match findFreeBlock heap totalSize with
      | (heap, blockOffset) =>
        if blockOffset = noBlock then (heap, 0)
        else
          let heap := setWord (setWord heap (blockOffset + 4) 1) (blockOffset + 12) magicNumber
          let heap := splitBlock heap blockOffset totalSize
          ({ heap with allocationCount := u32 (heap.allocationCount + 1) },
            u32 (heap.heapStart + blockOffset + blockHeaderSize))

/-- `heap_free`: the heap it leaves, or nothing when the coalescing traversal never ends. -/
def heapFree (heap : State) (pointer : ℕ) : Option State :=
  if pointer = 0 then some heap
  else if heap.memoryInitialized = false then some heap
  else if heap.heapStart = 0 then some (countError heap)
  else
    let blockOffset := u32 (pointer + 2 * 4294967296 - heap.heapStart - blockHeaderSize)
    if heap.heapSize ≤ blockOffset then some (countError heap)
    else if validateBlock heap blockOffset then
      if (header heap blockOffset).used = 0 then some (countError heap)
      else
        (mergeFreeBlocks (setWord heap (blockOffset + 4) 0)).map fun heap ↦
          { heap with freeCount := u32 (heap.freeCount + 1) }
    else some (countError heap)

/-! ### Initialization -/

def calculateOptimalHeapSize (availableRam : ℕ) : ℕ :=
  let byRam :=
    if availableRam ≤ 4 * 1024 * 1024 then 0x100000
    else if availableRam ≤ 16 * 1024 * 1024 then 0x200000
    else if availableRam ≤ 64 * 1024 * 1024 then 0x400000
    else if availableRam ≤ 256 * 1024 * 1024 then 0x800000
    else 0x2000000
  let share := if availableRam ≤ 8 * 1024 * 1024 then availableRam / 2 else availableRam / 4
  let capped := if share < byRam then share else byRam
  if capped < heapSizeMin then heapSizeMin else capped

/-- The clamp of `init_memory_manager` against the frames that are still free. -/
def clampHeapSize (size freeFrames : ℕ) : ℕ :=
  if freeFrames = 0 then size
  else
    let freeBytes := u32 (freeFrames * pageSize)
    let heapCap := if heapPhysReserveBytes < freeBytes then freeBytes - heapPhysReserveBytes else 0
    let capped := if pageSize ≤ heapCap then (if heapCap < size then heapCap else size)
      else pageSize
    let aligned := capped / pageSize * pageSize
    let bounded := if heapSizeMax < aligned then heapSizeMax else aligned
    if bounded < heapSizeMin ∧ heapPhysReserveBytes + heapSizeMin < freeBytes then heapSizeMin
    else bounded

/-- `align_up_u32` to a page. -/
def alignUpPage (value : ℕ) : ℕ := u32 (value + 0xFFF) / 0x1000 * 0x1000

/-- `init_memory_manager` on a heap that is not initialized: place the heap, size it, write one free
block over all of it and try one allocation. -/
def initMemoryManager (heap : State) (machine : Machine) : Option State :=
  let physStart :=
    if heap.heapPhysStart = 0 then
      if machine.bootAllocEnd ≠ 0 then machine.bootAllocEnd
      else alignUpPage (u32 (machine.kernelEnd + 0x10000))
    else heap.heapPhysStart
  let start := if heap.heapStart = 0 then u32 (kernelBase + physStart) else heap.heapStart
  let size := clampHeapSize (calculateOptimalHeapSize machine.availableRam) machine.freeFrames
  let heap := { heap with heapPhysStart := physStart, heapStart := start, heapSize := size }
  if physStart < 0x100000 then some heap
  else
    let cleared : State := { heap with
      word := fun address ↦ if address < size then 0 else heap.word address }
    let fresh := setHeader
      { cleared with
        memoryInitialized := true, memoryErrors := 0, allocationCount := 0, freeCount := 0 }
      firstBlock { size := size, used := 0, next := noBlock, magic := magicNumber }
    match allocate fresh 16 with
    | (tested, pointer) =>
      if pointer = 0 then some { tested with memoryInitialized := false }
      else heapFree tested pointer

/-- `heap_malloc`, with what the machine reports in case the heap is still to be set up: the heap
and the pointer, or nothing when the set-up never ends. -/
def heapMalloc (heap : State) (machine : Machine) (nbytes : ℕ) : Option (State × ℕ) :=
  let ready :=
    if heap.memoryInitialized then some heap
    else if machine.bootAllocEnd = 0 then some heap
    else initMemoryManager heap machine
  ready.map fun heap ↦ if heap.memoryInitialized then allocate heap nbytes else (heap, 0)

end EynOS.Memory.Heap
