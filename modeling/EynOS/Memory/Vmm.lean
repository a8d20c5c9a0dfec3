import EynOS.Foundation.MachineWord
import EynOS.Foundation.Noted
import EynOS.Foundation.Run

/-!
# The frame allocator, the page tables and the clock of the virtual memory manager

A physical frame is named by its number (its address divided by `PAGE_SIZE`). Page directories and
page tables live in frames: `State.memory frame index` is the entry that the frame holds at an
index, so a pointer to an entry is a pair of a frame and an index, and a frame keeps its contents
when it is freed and handed out again. An `address_space_t` lives in a frame of its own too, and
its pointer is that frame; the static `vmm_kernel_as` has the pointer 0, which no allocation
returns.

`State.held` lists the frames that callers of the allocator hold, that is, got and neither freed
nor handed over to a mapping, a page table, a page directory or an address space. It is a record
for the statements only and no function reads it. The operations note when `clock_evict_page`
starts and each frame that `frame_alloc` or `clock_evict_page` returns, each time with the state at
that moment.

Not modelled: the TLB, fault statistics, heap and stack bounds of an address space, the bits of an
entry that no function here tests (write-through, cache, dirty, global), the framebuffer's identity
map, kernel addresses as arguments (`va ≥ KERNEL_BASE`, the direct map and device mappings), and
the contents of frames other than as page tables.
-/

namespace EynOS.Memory.Vmm

open Foundation Foundation.Noted

/-! ### Entries and address spaces -/

/-- The flag bits of a page directory or page table entry. -/
structure Flags where
  present : Bool
  rw : Bool
  user : Bool
  accessed : Bool
  cow : Bool
  swapped : Bool
  demand : Bool
  deriving DecidableEq

def noFlags : Flags :=
  { present := false, rw := false, user := false, accessed := false, cow := false
    swapped := false, demand := false }

/-- An entry: its flags and its frame bits, which hold a frame or a swap slot. -/
structure Entry extends Flags where
  frame : ℕ
  deriving DecidableEq

def zeroEntry : Entry := { toFlags := noFlags, frame := 0 }

/-- `address_space_t`. -/
structure AddressSpace where
  pdPhys : ℕ
  refcount : ℕ

/-- `clock_entry_t`; a frame of 0 marks an unused entry. -/
structure ClockEntry where
  frame : ℕ
  pte : Option (ℕ × ℕ)
  space : Option ℕ

def noClockEntry : ClockEntry := { frame := 0, pte := none, space := none }

/-- The memory manager: the frame allocator, the contents of frames, the live address spaces, the
swap slots, the clock, the outcomes of the coming transfers to and from the swap partition (all of
them failures when there is none), and the frames held by callers. -/
structure State where
  totalFrames : ℕ
  bitmap : ℕ → Bool
  freeFrames : ℕ
  searchHint : ℕ
  memory : ℕ → ℕ → Entry
  spaces : ℕ → Option AddressSpace
  swapBitmap : ℕ → Bool
  swapFreeSlots : ℕ
  clock : ℕ → ClockEntry
  clockHand : ℕ
  clockCount : ℕ
  swapIo : List Bool
  held : List ℕ

/-- The pointer to `vmm_kernel_as`. -/
def kernelSpace : ℕ := 0

def pdeIndex (va : ℕ) : ℕ := va / 0x400000

def pteIndex (va : ℕ) : ℕ := va / 4096 % 1024

def KERNEL_BASE : ℕ := 0xC0000000

def CLOCK_SIZE : ℕ := 1024

def MAX_SWAP_SLOTS : ℕ := 4096

/-- What an operation notes. -/
inductive Note where
  /-- `clock_evict_page` starts to look for a victim. -/
  | evicting (state : State)
  /-- `frame_alloc` or `clock_evict_page` returns a frame. -/
  | granted (state : State) (frame : ℕ)

abbrev Operation : Type → Type := Noted State Note

namespace State

def setEntry (state : State) (table index : ℕ) (entry : Entry) : State :=
  { state with
    memory := Function.update state.memory table
      (Function.update (state.memory table) index entry) }

/-- Replace what a frame holds. -/
def setTable (state : State) (table : ℕ) (entries : ℕ → Entry) : State :=
  { state with memory := Function.update state.memory table entries }

/-- The caller of the allocator takes a frame. -/
def hold (state : State) (frame : ℕ) : State := { state with held := frame :: state.held }

/-- The holder of a frame gives it up. -/
def handOver (state : State) (frame : ℕ) : State :=
  { state with held := state.held.filter (· ≠ frame) }

/-! ### The frame allocator -/

/-- The frames in the order in which `frame_alloc` looks at them. -/
def searchOrder (state : State) : List ℕ :=
  (List.range (state.totalFrames / 32)).flatMap fun i ↦
    (List.range 32).map fun bit ↦
      (state.searchHint + i) % (state.totalFrames / 32) * 32 + bit

def findFree (state : State) : Option ℕ :=
  state.searchOrder.find? fun frame ↦ !state.bitmap frame && decide (frame < state.totalFrames)

/-- `frame_set` and the bookkeeping of `frame_alloc`. -/
def takeFrame (state : State) (frame : ℕ) : State :=
  { state with
    bitmap := Function.update state.bitmap frame true
    freeFrames := state.freeFrames - 1
    searchHint := frame / 32 }

def frameFree (state : State) (frame : ℕ) : State :=
  if frame < 256 ∨ state.totalFrames ≤ frame then state
  else if state.bitmap frame then
    { state with
      bitmap := Function.update state.bitmap frame false
      freeFrames := state.freeFrames + 1
      searchHint := if frame / 32 < state.searchHint then frame / 32 else state.searchHint }
  else state

/-! ### Swap slots -/

/-- The slot `swap_alloc_slot` takes. -/
def swapAllocSlot (state : State) : Option (ℕ × State) :=
  if state.swapFreeSlots = 0 then none
  else
    match (List.range MAX_SWAP_SLOTS).find? fun slot ↦ !state.swapBitmap slot with
    | none => none
    | some slot =>
      some (slot, { state with
        swapBitmap := Function.update state.swapBitmap slot true
        swapFreeSlots := state.swapFreeSlots - 1 })

def swapFreeSlot (state : State) (slot : ℕ) : State :=
  if MAX_SWAP_SLOTS ≤ slot then state
  else
    { state with
      swapBitmap := Function.update state.swapBitmap slot false
      swapFreeSlots := u32 (state.swapFreeSlots + 1) }

def swapTransfer (state : State) : Bool × State :=
  match state.swapIo with
  | [] => (false, state)
  | outcome :: later => (outcome, { state with swapIo := later })

/-- `swap_out_page_reclaim_frame`: whether the page behind an entry was written to a slot, which
the entry then names. -/
def swapOutPageReclaimFrame (state : State) (table index : ℕ) : Bool × State :=
  if !(state.memory table index).present then (false, state)
  else
    match state.swapAllocSlot with
    | none => (false, state)
    | some (slot, taken) =>
      match taken.swapTransfer with
      | (false, failed) => (false, failed.swapFreeSlot slot)
      | (true, written) =>
        (true, written.setEntry table index
          { toFlags := { noFlags with
              swapped := true
              user := (state.memory table index).user
              rw := (state.memory table index).rw }
            frame := slot })

/-! ### The clock -/

def setClock (state : State) (index : ℕ) (entry : ClockEntry) : State :=
  { state with clock := Function.update state.clock index entry }

/-- `clock_remove_page`: the first entry with the frame goes. -/
def clockRemovePage (state : State) (frame : ℕ) : State :=
  match (List.range CLOCK_SIZE).find? fun index ↦ decide ((state.clock index).frame = frame) with
  | none => state
  | some index =>
    { state.setClock index noClockEntry with
      clockCount := u32 (state.clockCount + 0xFFFFFFFF) }

def advanceHand (state : State) : State :=
  { state with clockHand := (state.clockHand + 1) % CLOCK_SIZE }

def clearVictim (state : State) (index : ℕ) : State :=
  { state.setClock index noClockEntry with
    clockCount := if state.clockCount = 0 then 0 else state.clockCount - 1 }

end State

/-- A caller gets a frame. -/
def grant (frame : ℕ) : Operation ℕ := do
  note (.granted · frame)
  change (·.hold frame)
  pure frame

/-- The loop of `clock_evict_page`, with the iterations that are left. -/
def clockEvictLoop : ℕ → Operation ℕ
  | 0 => pure 0
  | loops + 1 => do
    let state ← look
    let hand := state.clockHand
    let entry := state.clock hand
    change (·.advanceHand)
    if entry.frame = 0 then clockEvictLoop loops
    else
      match entry.pte with
      | none => do
        change (·.clockRemovePage entry.frame)
        clockEvictLoop loops
      | some (table, index) =>
        if !(state.memory table index).present then do
          -- a stale entry; the first entry with its frame is removed
          change (·.clockRemovePage entry.frame)
          clockEvictLoop loops
        else if (state.memory table index).accessed then do
          change (·.setEntry table index { state.memory table index with accessed := false })
          clockEvictLoop loops
        else
          match state.advanceHand.swapOutPageReclaimFrame table index with
          | (false, failed) => do
            change fun _ ↦ failed
            clockEvictLoop loops
          | (true, evicted) => do
            change fun _ ↦ evicted.clearVictim hand
            grant entry.frame

def clockEvictPage : Operation ℕ := do
  let state ← look
  if state.clockCount = 0 then pure 0
  else do
    note .evicting
    clockEvictLoop (CLOCK_SIZE * 2)

def frameAlloc : Operation ℕ := do
  let state ← look
  if state.freeFrames = 0 then clockEvictPage
  else
    match state.findFree with
    | none => pure 0
    | some frame => do
      note (.granted · frame)
      change fun state ↦ (state.takeFrame frame).hold frame
      pure frame

/-! ### Page tables -/

/-- An empty page table under an entry of a directory. -/
def State.newTable (state : State) (directory pdi table : ℕ) : State :=
  ((state.setTable table fun _ ↦ zeroEntry).setEntry directory pdi
    { toFlags := { noFlags with present := true, rw := true, user := true }
      frame := table }).handOver table

/-- `vmm_walk_page_tables`: the entry for an address. -/
def walkPageTables (space va : ℕ) (create : Bool) : Operation (Option (ℕ × ℕ)) := do
  let state ← look
  match state.spaces space with
  | none => pure none
  | some addressSpace =>
    if (state.memory addressSpace.pdPhys (pdeIndex va)).present then
      pure (some ((state.memory addressSpace.pdPhys (pdeIndex va)).frame, pteIndex va))
    else if !create then pure none
    else do
      let table ← frameAlloc
      if table = 0 then pure none
      else do
        change (·.newTable addressSpace.pdPhys (pdeIndex va) table)
        pure (some (table, pteIndex va))

/-- The page table of a live address space. -/
def State.table (state : State) (space pdi : ℕ) : Option ℕ :=
  match state.spaces space with
  | none => none
  | some addressSpace =>
    if (state.memory addressSpace.pdPhys pdi).present then
      some (state.memory addressSpace.pdPhys pdi).frame
    else none

/-- A walk that creates nothing only reads, and finds the entry in the page table of the address. -/
theorem walkPageTables_false {state : State} {space : ℕ} (va : ℕ) :
    walkPageTables space va false state =
    ([], (state.table space (pdeIndex va)).map fun table ↦ (table, pteIndex va), state) := by
  unfold walkPageTables State.table
  rw [look_bind]
  cases state.spaces space with
  | none => rfl
  | some addressSpace =>
    by_cases hpresent : (state.memory addressSpace.pdPhys (pdeIndex va)).present = true
    · simp only [hpresent, ↓reduceIte]
      rfl
    · simp only [hpresent]
      rfl

end EynOS.Memory.Vmm
