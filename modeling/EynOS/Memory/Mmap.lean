import EynOS.Memory.Vmm

/-!
# The system call `SYSCALL_MMAP`

An address space is its page tables, each an optional table of entries under a directory index. The
allocator of frames is what it answers a call: for each page and for each page table that the call
asks a frame for, the frame or 0, and the pages that it swaps out to answer. `mapPage` notes each
entry that it is about to write, with the state at that moment.

Not modelled: the contents of pages, the bits of directory entries and of page entries that nothing
here tests, the swap slots and frames that `vmm_unmap_page` gives back, and the path-based mapping
that is left where neither branch is taken: it copies a file into the kernel heap.
-/

namespace EynOS.Memory.Mmap

open Foundation Foundation.Noted
open Vmm (Flags Entry noFlags zeroEntry pdeIndex pteIndex)

def USER_SHARED_BASE : ℕ := 0x80000000

def USER_SHARED_END : ℕ := 0xB0000000

def PAGE_SIZE : ℕ := 4096

def USER_FD_MAX : ℕ := 16

/-! ### Address spaces -/

abbrev Tables : Type := ℕ → Option (ℕ → Entry)

/-- The address spaces, and `g_next_fd_mmap_va`. -/
structure State where
  spaces : ℕ → Option Tables
  nextFdMmapVa : ℕ

/-- What an operation notes. -/
inductive Note where
  /-- `vmm_map_page` is about to write the entry for an address. -/
  | mapping (state : State) (space va : ℕ)

abbrev Operation : Type → Type := Noted State Note

/-- A page that the allocator of frames swaps out, and the slot it goes to. -/
structure Eviction where
  space : ℕ
  va : ℕ
  slot : ℕ

/-- What the allocator answers: a frame, or 0, and the pages it has swapped out. -/
structure Allocation where
  frame : ℕ
  evicted : List Eviction

def swappedTo (entry : Entry) (slot : ℕ) : Entry :=
  { toFlags := { noFlags with swapped := true, user := entry.user, rw := entry.rw }
    frame := slot }

/-- A page is in memory, in a swap slot, or reserved. -/
def Mapped (entry : Entry) : Prop :=
  entry.present = true ∨ entry.swapped = true ∨ entry.demand = true

instance (entry : Entry) : Decidable (Mapped entry) := inferInstanceAs (Decidable (_ ∨ _))

namespace State

def table (state : State) (space va : ℕ) : Option (ℕ → Entry) :=
  (state.spaces space).bind fun tables ↦ tables (pdeIndex va)

def entry (state : State) (space va : ℕ) : Entry :=
  match state.table space va with
  | none => zeroEntry
  | some entries => entries (pteIndex va)

/-- Put a page table under a directory index. -/
def setTable (state : State) (space va : ℕ) (entries : ℕ → Entry) : State :=
  { state with
    spaces := Function.update state.spaces space
      ((state.spaces space).map fun tables ↦
        Function.update tables (pdeIndex va) (some entries)) }

/-- Store the entry for an address that has a page table. -/
def setEntry (state : State) (space va : ℕ) (entry : Entry) : State :=
  match state.table space va with
  | none => state
  | some entries => state.setTable space va (Function.update entries (pteIndex va) entry)

def swapOut (state : State) (eviction : Eviction) : State :=
  if (state.entry eviction.space eviction.va).present then
    state.setEntry eviction.space eviction.va
      (swappedTo (state.entry eviction.space eviction.va) eviction.slot)
  else state

/-- `g_next_fd_mmap_va` is assigned. -/
def setNext (state : State) (va : ℕ) : State := { state with nextFdMmapVa := va }

end State

/-! ### Mapping pages -/

def frameAlloc (allocation : Allocation) : Operation ℕ := do
  change fun state ↦ allocation.evicted.foldl State.swapOut state
  pure allocation.frame

/-- `vmm_walk_page_tables`: whether there is an entry for an address, where a page table may be
created in the frame that the allocator answers. -/
def walkPageTables (space va : ℕ) (create : Option Allocation) : Operation Bool := do
  let state ← look
  match state.table space va with
  | some _ => pure true
  | none =>
    match create with
    | none => pure false
    | some allocation => do
      let frame ← frameAlloc allocation
      if frame = 0 then pure false
      else do
        change (·.setTable space va fun _ ↦ zeroEntry)
        pure true

/-- `vmm_map_page`: whether the frame was mapped. -/
def mapPage (space va frame : ℕ) (flags : Flags) (tableFrame : Allocation) : Operation Bool := do
  if ← walkPageTables space va (some tableFrame) then do
    note (.mapping · space va)
    change (·.setEntry space va { toFlags := { flags with present := true }, frame := frame })
    pure true
  else pure false

/-- `vmm_unmap_page`. -/
def unmapPage (space va : ℕ) : Operation Unit := do
  if ← walkPageTables space va none then
    change fun state ↦
      if Mapped (state.entry space va) then state.setEntry space va zeroEntry else state
  else pure ()

/-! ### The call -/

/-- `user_fd_t`, as the call sees it: whether it is a file and whether it is a directory, the size
it holds, and the size that `vfs_get_file_size` finds for its path, if any. -/
structure UserFd where
  regular : Bool
  isDir : Bool
  size : UInt32
  statSize : Option UInt32

/-- What a process passes to the call, and what the rest of the kernel answers: whether
`syscall_ctx_allow` lets it through, the address space that is found, the descriptor table, the
frames for pages and for page tables, which reads of the file are complete, and the result of the
path-based mapping. -/
structure Call where
  addr : UInt32
  length : UInt32
  prot : UInt32
  flags : UInt32
  fd : ℤ
  offset : UInt32
  allowed : Bool
  space : ℕ
  fds : ℕ → Option UserFd
  pageFrame : ℕ → Allocation
  tableFrame : ℕ → Allocation
  readComplete : ℕ → Bool
  pathBased : Option ℕ

/-- Round up to whole pages, as `(value + 4095u) & ~4095u`. -/
def pageAlign (value : ℕ) : ℕ := u32 (value + 4095) / PAGE_SIZE * PAGE_SIZE

/-- The addresses that a loop from a start to below a limit goes through in steps of a page. -/
def pagesBetween (start limit : ℕ) : List ℕ :=
  (List.range ((limit - start + 4095) / PAGE_SIZE)).map fun i ↦ start + PAGE_SIZE * i

namespace Call

def alignedLen (call : Call) : ℕ := pageAlign call.length.toNat

def anonymous (call : Call) : Bool := call.flags &&& 0x20 ≠ 0

/-- The request is for a mapping of an open file. -/
def fdBased (call : Call) : Bool :=
  !call.anonymous && decide (0 ≤ call.fd) && decide (call.flags &&& 0x100 = 0)

def file (call : Call) : Option UserFd :=
  if call.fd < 0 ∨ (USER_FD_MAX : ℤ) ≤ call.fd then none
  else (call.fds call.fd.toNat).filter fun ufd ↦ ufd.regular && !ufd.isDir

def pteFlags (call : Call) : Flags :=
  { noFlags with user := true, rw := decide (call.prot &&& 0x2 ≠ 0) }

/-- The addresses of the pages that are mapped from a target on, where
`va < target_addr + aligned_len`. -/
def pages (call : Call) (target : ℕ) : List ℕ :=
  pagesBetween target (u32 (target + call.alignedLen))

/-- Whether what the page at an address takes from the file is read. -/
def reads (call : Call) (ufd : UserFd) (target va : ℕ) : Bool :=
  let fileSize := if ufd.size = 0 then ufd.statSize.getD 0 else ufd.size
  if u32 (call.offset.toNat + (va - target)) < fileSize.toNat then call.readComplete va else true

end Call

/-- The body of the loop over the pages, with what is read into a page. -/
def mapOne (call : Call) (reads : ℕ → Bool) (va : ℕ) : Operation Bool := do
  let frame ← frameAlloc (call.pageFrame va)
  if frame = 0 then pure false
  else if !reads va then pure false
  else mapPage call.space va frame call.pteFlags (call.tableFrame (pdeIndex va))

/-- The loop over the pages: whether it came to its end, and `mapped`. -/
def mapLoop (body : ℕ → Operation Bool) : List ℕ → ℕ → Operation (Bool × ℕ)
  | [], mapped => pure (true, mapped)
  | va :: vas, mapped => do
    if ← body va then mapLoop body vas (mapped + PAGE_SIZE) else pure (false, mapped)

def undo (space : ℕ) : List ℕ → Operation Unit
  | [] => pure ()
  | va :: vas => do
    unmapPage space va
    undo space vas

def mapRange (call : Call) (reads : ℕ → Bool) (target : ℕ) : Operation (Option ℕ) := do
  let outcome ← mapLoop (mapOne call reads) (call.pages target) 0
  if outcome.1 then pure (some target)
  else do
    undo call.space (pagesBetween target (u32 (target + outcome.2)))
    pure none

def targetAddr (call : Call) : Operation (Option ℕ) := do
  let state ← look
  if call.addr = 0 then do
    let target := pageAlign state.nextFdMmapVa
    change (·.setNext (u32 (target + call.alignedLen)))
    if USER_SHARED_END ≤ u32 (target + call.alignedLen) then pure none else pure (some target)
  else if call.addr.toNat < USER_SHARED_BASE ∨ USER_SHARED_END ≤ call.addr.toNat then pure none
  else pure (some call.addr.toNat)

def mmapAnonymous (call : Call) : Operation (Option ℕ) := do
  match ← targetAddr call with
  | none => pure none
  | some target => mapRange call (fun _ ↦ true) target

/-- The branch for mappings of open files. -/
def mmapFd (call : Call) : Operation (Option ℕ) := do
  match ← targetAddr call with
  | none => pure none
  | some target =>
    match call.file with
    | none => pure none
    | some ufd => mapRange call (call.reads ufd target) target

/-- `SYSCALL_MMAP`: the address that is returned, or nothing for -1. -/
def syscallMmap (call : Call) : Operation (Option ℕ) := do
  let state ← look
  if call.anonymous then
    if !call.allowed || (state.spaces call.space).isNone then pure none else mmapAnonymous call
  else if call.fdBased then
    if !call.allowed || (state.spaces call.space).isNone then pure none else mmapFd call
  else if call.addr = 0 then pure none
  else pure call.pathBased

/-- What a call writes. -/
def notes (state : State) (call : Call) : List Note := (syscallMmap call state).1

/-- What a call returns. -/
def answer (state : State) (call : Call) : Option ℕ := (syscallMmap call state).2.1

def after (state : State) (call : Call) : State := (syscallMmap call state).2.2

end EynOS.Memory.Mmap
