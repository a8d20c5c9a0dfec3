import EynOS.Foundation.MachineWord
import Mathlib.Data.List.Basic

/-!
# The slab allocator

The model of `slab.c` as it is configured by default, with poisoning and without counters. A slab is
a page with a header of twenty bytes in front of objects of one size. The free objects of a slab are
threaded through their own first words, and each size class has a list of slabs that is threaded
through their headers. `slabAlloc` and `slabFree` are the two operations. They give nothing where
the kernel panics.

The header of a page is read and written by its fields, and `word` holds what lies behind the
headers, by the addresses of the words. What `vmm_kmalloc_page` returns is a parameter of
`slabAlloc`, and the pages that it gave out are noted in `slabs`.

Not modelled: the texts and return addresses of the panics.
-/

namespace EynOS.Memory.Slab

open Foundation

/-! ### Constants -/

def pageSize : ℕ := 4096

def kernelBase : ℕ := 0xC0000000

def slabMagic : ℕ := 0x534C4142

def slabMinShift : ℕ := 4

def slabMaxShift : ℕ := 11

def slabClassCount : ℕ := slabMaxShift - slabMinShift + 1

/-- `slab_header_bytes`: the size of `slab_header_t`, a multiple of four. -/
def slabHeaderBytes : ℕ := 20

/-- Four bytes of `SLAB_FREE_POISON_BYTE`. -/
def slabFreePoison : ℕ := 0xA5A5A5A5

/-- The class index of sizes that are too large. -/
def noClass : ℕ := 0xFFFFFFFF

/-! ### State -/

/-- `slab_header_t`. -/
structure SlabHeader where
  magic : ℕ
  classIndex : ℕ
  objSize : ℕ
  totalObjs : ℕ
  freeObjs : ℕ
  freeList : ℕ
  next : ℕ

/-- `g_slab_inited`, the `partial` pointers of `g_slab_classes`, the headers of the pages, the words
of memory, and the pages that became slabs. -/
structure State where
  inited : Bool
  partialHead : ℕ → ℕ
  header : ℕ → SlabHeader
  word : ℕ → ℕ
  slabs : List ℕ

/-- The static variables before the first call, over arbitrary memory contents. -/
def boot (header : ℕ → SlabHeader) (word : ℕ → ℕ) : State where
  inited := false
  partialHead := fun _ ↦ 0
  header := header
  word := word
  slabs := []

def setHeader (state : State) (page : ℕ) (header : SlabHeader) : State :=
  { state with header := Function.update state.header page header }

def setWord (state : State) (address value : ℕ) : State :=
  { state with word := Function.update state.word address value }

/-- Fill the bytes of a freed object with the poison byte. -/
def poison (state : State) (address size : ℕ) : State :=
  { state with
    word := fun place ↦
      if address ≤ place ∧ place < address + size then slabFreePoison else state.word place }

def setPartial (state : State) (classIndex page : ℕ) : State :=
  { state with partialHead := Function.update state.partialHead classIndex page }

/-- `va & PAGE_MASK`. -/
def pageOf (address : ℕ) : ℕ := address / pageSize * pageSize

/-! ### Checks -/

/-- `slab_is_pow2_u32`. -/
def slabIsPow2 (value : ℕ) : Bool :=
  decide (value ≠ 0 ∧ value &&& (value - 1) = 0)

def slabObjPtrIsValid (state : State) (page ptr : ℕ) : Bool :=
  let objSize := (state.header page).objSize
  let start := u32 (page + slabHeaderBytes)
  let finish := u32 (page + pageSize)
  if page = 0 ∨ ptr = 0 then false
  else if (state.header page).magic ≠ slabMagic then false
  else if slabIsPow2 objSize = false then false
  else if objSize < 2 ^ slabMinShift ∨ 2 ^ slabMaxShift < objSize then false
  else if ptr < start ∨ finish ≤ ptr then false
  else if (ptr - start) % objSize ≠ 0 then false
  else true

/-- The loop of `slab_freelist_contains`: `bound` objects may still be looked at. -/
def slabFreelistContainsLoop (state : State) (page ptr : ℕ) : ℕ → ℕ → Bool
  | 0, _ => false
  | bound + 1, current =>
    if current = 0 then false
    else if current = ptr then true
    else if slabObjPtrIsValid state page current = false then false
    else slabFreelistContainsLoop state page ptr bound (state.word current)

def slabFreelistContains (state : State) (page ptr : ℕ) : Bool :=
  if page = 0 ∨ ptr = 0 then false
  else slabFreelistContainsLoop state page ptr (state.header page).totalObjs
    (state.header page).freeList

def slabOwns (state : State) (ptr : ℕ) : Bool :=
  let header := state.header (pageOf ptr)
  if ptr = 0 then false
  else if ptr < kernelBase then false
  else if header.magic ≠ slabMagic then false
  else if slabClassCount ≤ header.classIndex then false
  else if slabIsPow2 header.objSize = false then false
  else if header.objSize < 2 ^ slabMinShift ∨ 2 ^ slabMaxShift < header.objSize then false
  else true

/-! ### Size classes -/

/-- `slab_ceil_log2_u32`, with `bsr` for the place of the highest bit. -/
def slabCeilLog2 (size : ℕ) : ℕ :=
  if size ≤ 1 then 0 else Nat.log2 (size - 1) + 1

def slabClassIndexForSize (size : ℕ) : ℕ :=
  let shift := max (slabCeilLog2 size) slabMinShift
  if slabMaxShift < shift then noClass else shift - slabMinShift

def classSize (classIndex : ℕ) : ℕ := 2 ^ (slabMinShift + classIndex)

/-! ### New slabs -/

/-- The loop of `slab_new_page` after `count` rounds, with its `free_list`. -/
def slabNewPageLoop (state : State) (base objSize : ℕ) : ℕ → State × ℕ
  | 0 => (state, 0)
  | count + 1 =>
    let (state, freeList) := slabNewPageLoop state base objSize count
    let object := base + count * objSize
    (setWord (poison state object objSize) object freeList, object)

/-- `slab_new_page`, where `vmm_kmalloc_page` returned `page`. -/
def slabNewPage (state : State) (page classIndex objSize : ℕ) : State × ℕ :=
  if page = 0 then (state, 0)
  else
    let total := (pageSize - slabHeaderBytes) / objSize
    if total = 0 then (state, 0)
    else
      let (state, freeList) := slabNewPageLoop state (page + slabHeaderBytes) objSize total
      let state := setHeader state page
        { magic := slabMagic
          classIndex := classIndex % 65536
          objSize := objSize % 65536
          totalObjs := total % 65536
          freeObjs := total % 65536
          freeList := freeList
          next := 0 }
      ({ state with slabs := page :: state.slabs }, page)

/-! ### Operations -/

def slabInit (state : State) : State :=
  if state.inited then state
  else { state with inited := true, partialHead := fun _ ↦ 0 }

/-- Put a slab in front of the list of a class: `h->next = c->partial; c->partial = h`. -/
def pushPartial (state : State) (classIndex page : ℕ) : State :=
  setPartial
    (setHeader state page { state.header page with next := state.partialHead classIndex })
    classIndex page

/-- Take a slab off the front of the list of a class: `c->partial = h->next; h->next = NULL`. -/
def popPartial (state : State) (classIndex page : ℕ) : State :=
  setHeader (setPartial state classIndex (state.header page).next) page
    { state.header page with next := 0 }

/-- The fast path of `slab_alloc`: pop an object off the free list of a slab. -/
def slabTake (state : State) (classIndex page : ℕ) : Option (State × ℕ) :=
  let header := state.header page
  let object := header.freeList
  if slabObjPtrIsValid state page object = false then none
  else
    let next := state.word object
    if next ≠ 0 ∧ slabObjPtrIsValid state page next = false then none
    else
      let state := setHeader state page
        { header with
          freeList := next
          freeObjs := if header.freeObjs ≠ 0 then header.freeObjs - 1 else header.freeObjs }
      some (if next = 0 then popPartial state classIndex page else state, object)

/-- `slab_alloc`, with the number of frames and, for its slow path, the page of
`vmm_kmalloc_page`. -/
def slabAlloc (state : State) (frames page size : ℕ) : Option (State × ℕ) :=
  let state := slabInit state
  let classIndex := slabClassIndexForSize (u32 size)
  let slab := state.partialHead classIndex
  if frames = 0 then some (state, 0)
  else if u32 size = 0 then some (state, 0)
  else if classIndex = noClass then some (state, 0)
  else if slab = 0 ∨ (state.header slab).freeList = 0 then
    let (state, slab) := slabNewPage state page classIndex (classSize classIndex)
    if slab = 0 then some (state, 0)
    else slabTake (pushPartial state classIndex slab) classIndex slab
  else slabTake state classIndex slab

/-- The end of `slab_free`, behind its checks: push an object on the free list of its slab. -/
def slabGive (state : State) (page ptr : ℕ) : State :=
  let header := state.header page
  let freeObjs :=
    if header.freeObjs < header.totalObjs then header.freeObjs + 1 else header.freeObjs
  let state := setWord (poison state ptr header.objSize) ptr header.freeList
  let state := setHeader state page { header with freeList := ptr, freeObjs := freeObjs }
  if freeObjs = 1 then pushPartial state header.classIndex page else state

def slabFree (state : State) (ptr : ℕ) : Option (State × ℕ) :=
  let page := pageOf ptr
  if ptr = 0 then some (state, 1)
  else if slabOwns state ptr = false then some (state, 0)
  else if slabClassCount ≤ (state.header page).classIndex then some (state, 0)
  else if slabObjPtrIsValid state page ptr = false then none
  else if slabFreelistContains state page ptr then none
  else some (slabGive state page ptr, 1)

end EynOS.Memory.Slab
