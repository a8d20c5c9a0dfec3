import EynOS.Memory.Vmm

/-!
# Page faults of user programs

The part of the memory manager that decides what a user program sees of its memory: the page tables
of one address space, the bounds of its heap and its stack, and what its pages hold. Pages are named
by their numbers (addresses divided by `PAGE_SIZE`). A page of bytes goes with its page table entry:
`UserSpace.contents` is what the frame or the swap slot holds that the entry of a page names.

What `frame_alloc` returns in its coming calls and whether the coming reads of swap slots succeed is
part of the state. `frame_alloc` may have to swap out another page of this address space; that is a
step of its own (`swapOut`), which comes before the call in which it happens: a page that the call
has already changed is not present any more and is not swapped out.

`pageFaultHandler` is `vmm_page_fault_handler` for faults in user mode, and `read` is what a program
reads at an address after the faults that the read may cause. `read_fault` connects the two: a byte
that can be read keeps its value over every fault.

Not modelled: the clock and the bitmaps of frames and swap slots, the flags of page directory
entries (the tables of user addresses are writable and user-accessible), fault statistics, the TLB,
and the messages printed before the system halts.
-/

namespace EynOS.Memory.UserFaults

open Vmm

/-! ### Address spaces -/

def USER_CODE_BASE : ℕ := 0x00400000

def USER_HEAP_BASE : ℕ := 0x40000000

def USER_HEAP_END : ℕ := 0x80000000

def USER_STACK_BASE : ℕ := 0xB0000000

def USER_STACK_TOP : ℕ := 0xC0000000

/-- `PTE_USER | PTE_RW`. -/
def userRw : Flags := { noFlags with user := true, rw := true }

/-- An address space as its user program meets it. -/
structure UserSpace where
  /-- The page tables, by the index of their page directory entry. -/
  table : ℕ → Option (ℕ → Entry)
  /-- The bytes behind the entry of a page. -/
  contents : ℕ → ℕ → UInt8
  heapBreak : ℕ
  stackBottom : ℕ
  /-- What the coming calls of `frame_alloc` return. -/
  frames : List ℕ
  /-- Whether the coming reads of swap slots succeed. -/
  swapReads : List Bool
  /-- The frames given to `frame_free` so far. -/
  freed : List ℕ

namespace UserSpace

def frameAlloc (space : UserSpace) : ℕ × UserSpace :=
  match space.frames with
  | [] => (0, space)
  | frame :: later => (frame, { space with frames := later })

def frameFree (space : UserSpace) (frame : ℕ) : UserSpace :=
  { space with freed := frame :: space.freed }

/-- `swap_read_page`: whether it succeeds. -/
def swapReadPage (space : UserSpace) : Bool × UserSpace :=
  match space.swapReads with
  | [] => (false, space)
  | outcome :: later => (outcome, { space with swapReads := later })

/-- `memset` of the page of a frame that is about to be mapped. -/
def zeroPage (space : UserSpace) (page : ℕ) : UserSpace :=
  { space with contents := Function.update space.contents page fun _ ↦ 0 }

/-- The entry that `vmm_walk_page_tables` finds without creating a table. -/
def lookup (space : UserSpace) (page : ℕ) : Option Entry :=
  (space.table (page / 1024)).map fun entries ↦ entries (page % 1024)

def entry (space : UserSpace) (page : ℕ) : Entry := (space.lookup page).getD zeroEntry

def setEntry (space : UserSpace) (page : ℕ) (entry : Entry) : UserSpace :=
  match space.table (page / 1024) with
  | none => space
  | some entries =>
    { space with
      table := Function.update space.table (page / 1024)
        (some (Function.update entries (page % 1024) entry)) }

def newTable (space : UserSpace) (index : ℕ) : UserSpace :=
  { space with table := Function.update space.table index (some fun _ ↦ zeroEntry) }

/-- `vmm_walk_page_tables` that creates a table: whether there is one then. -/
def createTable (space : UserSpace) (page : ℕ) : Bool × UserSpace :=
  match space.table (page / 1024) with
  | some _ => (true, space)
  | none =>
    if space.frameAlloc.1 = 0 then (false, space.frameAlloc.2)
    else (true, space.frameAlloc.2.newTable (page / 1024))

/-- `vmm_map_page`: whether the frame was mapped. -/
def mapPage (space : UserSpace) (page frame : ℕ) (flags : Flags) : Bool × UserSpace :=
  match space.createTable page with
  | (false, after) => (false, after)
  | (true, after) =>
    (true, after.setEntry page { toFlags := { flags with present := true }, frame := frame })

/-- `vmm_unmap_page`: whether the page was mapped. -/
def unmapPage (space : UserSpace) (page : ℕ) : Bool × UserSpace :=
  match space.lookup page with
  | none => (false, space)
  | some entry =>
    if !entry.present then
      if entry.swapped then (true, space.setEntry page zeroEntry)
      else if entry.demand then (true, space.setEntry page zeroEntry)
      else (false, space)
    else
      let freed := if !entry.cow then space.frameFree entry.frame else space
      (true, freed.setEntry page zeroEntry)

/-- `swap_in_page`: whether the page was brought back. -/
def swapInPage (space : UserSpace) (page slot : ℕ) : Bool × UserSpace :=
  if MAX_SWAP_SLOTS ≤ slot then (false, space)
  else
    match space.frameAlloc with
    | (frame, taken) =>
      if frame = 0 then (false, taken)
      else
        match taken.swapReadPage with
        | (false, failed) => (false, failed.frameFree frame)
        | (true, read) =>
          match read.lookup page with
          | none => (false, read.frameFree frame)
          | some entry =>
            (true, read.setEntry page
              { toFlags := { noFlags with user := entry.user, rw := entry.rw, present := true }
                frame := frame })

/-- `vmm_handle_cow_fault`: whether the page got a frame of its own, with the same bytes. -/
def handleCowFault (space : UserSpace) (page : ℕ) (entry : Entry) : Bool × UserSpace :=
  match space.frameAlloc with
  | (frame, taken) =>
    if frame = 0 then (false, taken)
    else
      (true, taken.setEntry page
        { toFlags := { entry.toFlags with cow := false, rw := true, present := true }
          frame := frame })

/-- A demand-zero page gets a frame, if there is one. -/
def fillDemand (space : UserSpace) (page : ℕ) (entry : Entry) : Bool × UserSpace :=
  match space.frameAlloc with
  | (frame, taken) =>
    if frame = 0 then (false, taken)
    else
      (true, (taken.zeroPage page).setEntry page
        { toFlags := { entry.toFlags with demand := false, present := true }, frame := frame })

/-- A page of the growing stack or of the heap gets a frame, if there is one. Whether the frame
could be mapped is not looked at. -/
def fillNew (space : UserSpace) (page : ℕ) : Bool × UserSpace :=
  match space.frameAlloc with
  | (frame, taken) =>
    if frame = 0 then (false, taken)
    else (true, ((taken.zeroPage page).mapPage page frame userRw).2)

def lowerStack (space : UserSpace) (page : ℕ) : UserSpace :=
  { space with
    stackBottom := if 4096 * page < space.stackBottom then 4096 * page else space.stackBottom }

/-- The last case of `vmm_page_fault_handler`: growth of the stack and access to the heap. -/
def growTo (space : UserSpace) (faultAddr : ℕ) : Bool × UserSpace :=
  if USER_STACK_BASE ≤ faultAddr ∧ faultAddr < USER_STACK_TOP then
    match space.fillNew (faultAddr / 4096) with
    | (false, failed) => (false, failed)
    | (true, filled) => (true, filled.lowerStack (faultAddr / 4096))
  else if USER_HEAP_BASE ≤ faultAddr ∧ faultAddr < space.heapBreak then
    space.fillNew (faultAddr / 4096)
  else (false, space)

/-- `vmm_page_fault_handler` for a fault in user mode: whether it returns. Otherwise there was a
segmentation fault and the system halts. -/
def pageFaultHandler (space : UserSpace) (isPresent isWrite : Bool) (faultAddr : ℕ) :
    Bool × UserSpace :=
  match space.lookup (faultAddr / 4096) with
  | none => if isPresent then (false, space) else space.growTo faultAddr
  | some entry =>
    if !isPresent && entry.demand then space.fillDemand (faultAddr / 4096) entry
    else if !isPresent && entry.swapped then space.swapInPage (faultAddr / 4096) entry.frame
    else if isPresent && isWrite && entry.cow then space.handleCowFault (faultAddr / 4096) entry
    else if isPresent then (false, space)
    else space.growTo faultAddr

/-- The address space that a call leaves behind if it succeeds. -/
def succeeded : Bool × UserSpace → Option UserSpace
  | (true, after) => some after
  | (false, _) => none

/-- A fault at an address; the processor says whether the page is present. None where the system
halts. -/
def fault (space : UserSpace) (isWrite : Bool) (faultAddr : ℕ) : Option UserSpace :=
  succeeded (space.pageFaultHandler (space.entry (faultAddr / 4096)).present isWrite faultAddr)

/-- A program can write a page without a fault. -/
def Writable (space : UserSpace) (page : ℕ) : Prop :=
  (space.entry page).present = true ∧ (space.entry page).user = true ∧
    (space.entry page).rw = true

instance (space : UserSpace) (page : ℕ) : Decidable (space.Writable page) :=
  inferInstanceAs (Decidable (_ ∧ _ ∧ _))

/-- A program stores a byte into a page that it can write. -/
def store (space : UserSpace) (va : ℕ) (byte : UInt8) : UserSpace :=
  if space.Writable (va / 4096) then
    { space with
      contents := Function.update space.contents (va / 4096)
        (Function.update (space.contents (va / 4096)) (va % 4096) byte) }
  else space

def swapOut (space : UserSpace) (page slot : ℕ) : UserSpace :=
  if (space.entry page).present ∧ slot < MAX_SWAP_SLOTS then
    space.setEntry page
      { toFlags := { noFlags with
          swapped := true
          user := (space.entry page).user
          rw := (space.entry page).rw }
        frame := slot }
  else space

def Growing (space : UserSpace) (va : ℕ) : Prop :=
  USER_STACK_BASE ≤ va ∧ va < USER_STACK_TOP ∨ USER_HEAP_BASE ≤ va ∧ va < space.heapBreak

instance (space : UserSpace) (va : ℕ) : Decidable (space.Growing va) :=
  inferInstanceAs (Decidable (_ ∧ _ ∨ _ ∧ _))

/-- What a program reads at an address, as long as there are frames and the swap partition works;
none where it may not read. -/
def read (space : UserSpace) (va : ℕ) : Option UInt8 :=
  let entry := space.entry (va / 4096)
  if entry.present then
    if entry.user then some (space.contents (va / 4096) (va % 4096)) else none
  else if entry.demand then
    if entry.user then some 0 else none
  else if entry.swapped then
    if entry.user ∧ entry.frame < MAX_SWAP_SLOTS then
      some (space.contents (va / 4096) (va % 4096))
    else none
  else if space.Growing va then some 0
  else none

/-! ### The entries of pages -/

variable {space after : UserSpace} {page other frame slot : ℕ} {new : Entry} {flags : Flags}

/-- A page has an entry where it has a table. -/
theorem lookup_eq_some {found : Entry} (hlookup : space.lookup page = some found) :
    space.entry page = found ∧ (space.table (page / 1024)).isSome := by
  unfold entry
  rw [hlookup]
  refine ⟨rfl, ?_⟩
  unfold lookup at hlookup
  cases htable : space.table (page / 1024) with
  | none =>
    rw [htable] at hlookup
    exact absurd hlookup (by simp)
  | some entries => rfl

/-- What storing an entry changes. -/
theorem entry_setEntry (htable : (space.table (page / 1024)).isSome) (new : Entry) (other : ℕ) :
    (space.setEntry page new).entry other = if other = page then new else space.entry other := by
  obtain ⟨entries, hentries⟩ := Option.isSome_iff_exists.mp htable
  unfold entry lookup setEntry
  rw [hentries]
  by_cases hother : other = page
  · rw [if_pos hother, hother]
    simp
  · rw [if_neg hother]
    by_cases hsame : other / 1024 = page / 1024
    · have hindex : other % 1024 ≠ page % 1024 := by omega
      simp [hsame, hentries, hindex]
    · simp [hsame]

/-- Storing an entry changes nothing but the tables. -/
theorem setEntry_same (space : UserSpace) (page : ℕ) (new : Entry) :
    (space.setEntry page new).contents = space.contents ∧
      (space.setEntry page new).heapBreak = space.heapBreak ∧
      (space.setEntry page new).freed = space.freed := by
  unfold setEntry
  split
  · exact ⟨rfl, rfl, rfl⟩
  · exact ⟨rfl, rfl, rfl⟩

/-- Two address spaces in which all pages are alike. -/
structure Alike (space after : UserSpace) : Prop where
  entry : ∀ page, after.entry page = space.entry page
  contents : after.contents = space.contents
  heapBreak : after.heapBreak = space.heapBreak

theorem Alike.trans {last : UserSpace} (hfirst : Alike space after) (hsecond : Alike after last) :
    Alike space last where
  entry page := (hsecond.entry page).trans (hfirst.entry page)
  contents := hsecond.contents.trans hfirst.contents
  heapBreak := hsecond.heapBreak.trans hfirst.heapBreak

theorem alike_frameAlloc (space : UserSpace) : Alike space space.frameAlloc.2 := by
  unfold frameAlloc
  split
  · exact ⟨fun _ ↦ rfl, rfl, rfl⟩
  · exact ⟨fun _ ↦ rfl, rfl, rfl⟩

/-- Taking a frame changes neither the tables nor what has been freed. -/
theorem frameAlloc_same (space : UserSpace) :
    space.frameAlloc.2.table = space.table ∧ space.frameAlloc.2.freed = space.freed := by
  unfold frameAlloc
  split
  · exact ⟨rfl, rfl⟩
  · exact ⟨rfl, rfl⟩

theorem alike_swapReadPage (space : UserSpace) : Alike space space.swapReadPage.2 := by
  unfold swapReadPage
  split
  · exact ⟨fun _ ↦ rfl, rfl, rfl⟩
  · exact ⟨fun _ ↦ rfl, rfl, rfl⟩

theorem alike_newTable {index : ℕ} (htable : space.table index = none) :
    Alike space (space.newTable index) := by
  refine ⟨fun page ↦ ?_, rfl, rfl⟩
  unfold entry lookup newTable
  by_cases hpage : page / 1024 = index
  · simp [hpage, htable]
  · simp [hpage]

theorem alike_createTable (space : UserSpace) (page : ℕ) :
    Alike space (space.createTable page).2 := by
  unfold createTable
  cases htable : space.table (page / 1024) with
  | some entries => exact ⟨fun _ ↦ rfl, rfl, rfl⟩
  | none =>
    dsimp only
    split
    · exact alike_frameAlloc space
    · refine (alike_frameAlloc space).trans (alike_newTable ?_)
      rw [(frameAlloc_same space).1, htable]

theorem createTable_spec (space : UserSpace) (page : ℕ) :
    (space.createTable page).2.freed = space.freed ∧
      ((space.createTable page).1 = true →
        ((space.createTable page).2.table (page / 1024)).isSome) := by
  unfold createTable
  cases htable : space.table (page / 1024) with
  | some entries => exact ⟨rfl, fun _ ↦ by simp [htable]⟩
  | none =>
    dsimp only
    split
    · exact ⟨(frameAlloc_same space).2, fun hfalse ↦ absurd hfalse (by simp)⟩
    · exact ⟨(frameAlloc_same space).2, fun _ ↦ by simp [newTable]⟩

/-! ### What a program reads -/

/-- A step that concerns a single page. -/
structure Concerns (page : ℕ) (space after : UserSpace) : Prop where
  entry : ∀ other, other ≠ page → after.entry other = space.entry other
  contents : ∀ other, other ≠ page → after.contents other = space.contents other
  heapBreak : after.heapBreak = space.heapBreak

theorem Concerns.trans {last : UserSpace} (hfirst : Concerns page space after)
    (hsecond : Concerns page after last) : Concerns page space last where
  entry other hother := (hsecond.entry other hother).trans (hfirst.entry other hother)
  contents other hother := (hsecond.contents other hother).trans (hfirst.contents other hother)
  heapBreak := hsecond.heapBreak.trans hfirst.heapBreak

theorem Alike.concerns (halike : Alike space after) (page : ℕ) : Concerns page space after where
  entry other _ := halike.entry other
  contents other _ := by rw [halike.contents]
  heapBreak := halike.heapBreak

theorem concerns_setEntry (space : UserSpace) (page : ℕ) (new : Entry) :
    Concerns page space (space.setEntry page new) := by
  obtain ⟨hcontents, hbreak, -⟩ := setEntry_same space page new
  refine ⟨fun other hother ↦ ?_, fun other _ ↦ by rw [hcontents], hbreak⟩
  cases htable : space.table (page / 1024) with
  | none =>
    unfold setEntry
    rw [htable]
  | some entries => rw [entry_setEntry (by rw [htable]; rfl), if_neg hother]

theorem concerns_zeroPage (space : UserSpace) (page : ℕ) :
    Concerns page space (space.zeroPage page) :=
  ⟨fun _ _ ↦ rfl, fun _ hother ↦ Function.update_of_ne hother .., rfl⟩

/-- A page reads as before where its entry, its bytes and the bounds are the same. -/
theorem read_congr {va : ℕ} (hentry : after.entry (va / 4096) = space.entry (va / 4096))
    (hcontents : after.contents (va / 4096) = space.contents (va / 4096))
    (hgrowing : after.Growing va ↔ space.Growing va) : after.read va = space.read va := by
  unfold read
  rw [hentry, hcontents]
  simp only [hgrowing]

theorem Concerns.growing (hstep : Concerns page space after) {va : ℕ} :
    after.Growing va ↔ space.Growing va := by
  unfold Growing
  rw [hstep.heapBreak]

theorem Concerns.read (hstep : Concerns page space after) {va : ℕ} (hva : va / 4096 ≠ page) :
    after.read va = space.read va :=
  read_congr (hstep.entry _ hva) (hstep.contents _ hva) hstep.growing

theorem read_of_present {va : ℕ} (hpresent : (space.entry (va / 4096)).present = true)
    (huser : (space.entry (va / 4096)).user = true) :
    space.read va = some (space.contents (va / 4096) (va % 4096)) := by
  unfold read
  rw [if_pos hpresent, if_pos huser]

theorem read_of_empty {va : ℕ} (hpresent : (space.entry (va / 4096)).present = false)
    (hdemand : (space.entry (va / 4096)).demand = false)
    (hswapped : (space.entry (va / 4096)).swapped = false) :
    space.read va = if space.Growing va then some 0 else none := by
  unfold read
  simp [hpresent, hdemand, hswapped]

/-! ### What a fault does -/

section

variable {found : Entry} {va faultAddr : ℕ} {byte : UInt8} {isWrite : Bool}

/-- What a fault that is resolved does: it concerns the page of its address only, a byte of it that
can be read keeps its value, no page becomes copy-on-write, and a page that was not in use is
touched only where the stack or the heap grows. -/
structure Resolves (faultAddr : ℕ) (space after : UserSpace) : Prop
    extends Concerns (faultAddr / 4096) space after where
  keeps : ∀ va byte, va / 4096 = faultAddr / 4096 → space.read va = some byte →
    after.read va = some byte
  cow : (after.entry (faultAddr / 4096)).cow = true → (space.entry (faultAddr / 4096)).cow = true
  used : after.entry (faultAddr / 4096) = space.entry (faultAddr / 4096) ∨
    (space.entry (faultAddr / 4096)).present = true ∨
    (space.entry (faultAddr / 4096)).demand = true ∨
    (space.entry (faultAddr / 4096)).swapped = true ∨ space.Growing faultAddr

/-- A demand-zero page is filled. -/
theorem resolves_fillDemand (hlookup : space.lookup (faultAddr / 4096) = some found)
    (hpresent : found.present = false) (hdemand : found.demand = true)
    (hfill : space.fillDemand (faultAddr / 4096) found = (true, after)) :
    Resolves faultAddr space after := by
  obtain ⟨hfound, htable⟩ := lookup_eq_some hlookup
  unfold fillDemand at hfill
  dsimp only at hfill
  split at hfill
  · exact absurd hfill (by simp)
  · rw [← (Prod.mk.inj hfill).2]
    have htable : ((space.frameAlloc.2.zeroPage (faultAddr / 4096)).table
        (faultAddr / 4096 / 1024)).isSome := by
      unfold zeroPage
      rw [(frameAlloc_same space).1]
      exact htable
    refine ⟨(((alike_frameAlloc space).concerns _).trans (concerns_zeroPage _ _)).trans
      (concerns_setEntry _ _ _), fun va byte hva hread ↦ ?_, fun hcow ↦ ?_, ?_⟩
    · unfold read at hread
      simp only [hva, hfound, hpresent, hdemand, Bool.false_eq_true, ↓reduceIte] at hread
      split at hread
      · next huser =>
        rw [← hread, read_of_present, (setEntry_same ..).1, hva]
        · simp [zeroPage]
        · rw [hva, entry_setEntry htable, if_pos rfl]
        · rw [hva, entry_setEntry htable, if_pos rfl]
          exact huser
      · exact absurd hread (by simp)
    · rw [entry_setEntry htable, if_pos rfl] at hcow
      rw [hfound]
      exact hcow
    · rw [hfound]
      exact .inr (.inr (.inl hdemand))

/-- A page of the growing stack or of the heap is filled. -/
theorem resolves_fillNew (hpresent : (space.entry (faultAddr / 4096)).present = false)
    (hdemand : (space.entry (faultAddr / 4096)).demand = false)
    (hswapped : (space.entry (faultAddr / 4096)).swapped = false)
    (hgrowing : space.Growing faultAddr)
    (hfill : space.fillNew (faultAddr / 4096) = (true, after)) :
    Resolves faultAddr space after := by
  unfold fillNew at hfill
  dsimp only at hfill
  split at hfill
  · exact absurd hfill (by simp)
  · rw [← (Prod.mk.inj hfill).2]
    have hfirst := ((alike_frameAlloc space).concerns _).trans
      (concerns_zeroPage _ (faultAddr / 4096))
    have hcreated := alike_createTable (space.frameAlloc.2.zeroPage (faultAddr / 4096))
      (faultAddr / 4096)
    have htable := (createTable_spec (space.frameAlloc.2.zeroPage (faultAddr / 4096))
      (faultAddr / 4096)).2
    unfold mapPage
    split
    · next middle hmiddle =>
      -- the frame is not mapped, and the page is as empty as before
      rw [hmiddle] at hcreated
      have hsame : middle.entry (faultAddr / 4096) = space.entry (faultAddr / 4096) :=
        (hcreated.entry _).trans ((alike_frameAlloc space).entry _)
      have hstep := hfirst.trans (hcreated.concerns _)
      refine ⟨hstep, fun va byte hva hread ↦ ?_, fun hcow ↦ hsame ▸ hcow, .inl hsame⟩
      rw [← hva] at hpresent hdemand hswapped hsame
      rw [← hread, read_of_empty hpresent hdemand hswapped, read_of_empty
        (by rw [hsame, hpresent]) (by rw [hsame, hdemand]) (by rw [hsame, hswapped])]
      simp only [hstep.growing]
    · next middle hmiddle =>
      rw [hmiddle] at hcreated htable
      have htable := htable rfl
      refine ⟨(hfirst.trans (hcreated.concerns _)).trans (concerns_setEntry _ _ _),
        fun va byte hva hread ↦ ?_, fun hcow ↦ ?_, .inr (.inr (.inr (.inr hgrowing)))⟩
      · rw [← hva] at hpresent hdemand hswapped
        rw [read_of_empty hpresent hdemand hswapped] at hread
        split at hread
        · rw [← hread, read_of_present, (setEntry_same ..).1, hcreated.contents, hva]
          · simp [zeroPage]
          · rw [hva, entry_setEntry htable, if_pos rfl]
          · rw [hva, entry_setEntry htable, if_pos rfl]
            rfl
        · exact absurd hread (by simp)
      · rw [entry_setEntry htable, if_pos rfl] at hcow
        exact absurd hcow (by simp [userRw, noFlags])

/-- A page is brought back from its swap slot. -/
theorem resolves_swapInPage (hlookup : space.lookup (faultAddr / 4096) = some found)
    (hpresent : found.present = false) (hdemand : found.demand = false)
    (hswapped : found.swapped = true)
    (hswap : space.swapInPage (faultAddr / 4096) found.frame = (true, after)) :
    Resolves faultAddr space after := by
  obtain ⟨hfound, -⟩ := lookup_eq_some hlookup
  unfold swapInPage at hswap
  dsimp only at hswap
  split at hswap
  · exact absurd hswap (by simp)
  · split at hswap
    · exact absurd hswap (by simp)
    · split at hswap
      · exact absurd hswap (by simp)
      · next back hback =>
        have halike : Alike space back := by
          have hlater := alike_swapReadPage space.frameAlloc.2
          rw [hback] at hlater
          exact (alike_frameAlloc space).trans hlater
        split at hswap
        · exact absurd hswap (by simp)
        · next again hagain =>
          obtain ⟨hentry, htable⟩ := lookup_eq_some hagain
          obtain rfl : again = found := by rw [← hentry, halike.entry, hfound]
          rw [← (Prod.mk.inj hswap).2]
          refine ⟨(halike.concerns _).trans (concerns_setEntry _ _ _), fun va byte hva hread ↦ ?_,
            fun hcow ↦ ?_, ?_⟩
          · unfold read at hread
            simp only [hva, hfound, hpresent, hdemand, hswapped, Bool.false_eq_true,
              ↓reduceIte] at hread
            split at hread
            · next huser =>
              rw [← hread, read_of_present, (setEntry_same ..).1, halike.contents, hva]
              · rw [hva, entry_setEntry htable, if_pos rfl]
              · rw [hva, entry_setEntry htable, if_pos rfl]
                exact huser.1
            · exact absurd hread (by simp)
          · rw [entry_setEntry htable, if_pos rfl] at hcow
            exact absurd hcow (by simp [noFlags])
          · rw [hfound]
            exact .inr (.inr (.inr (.inl hswapped)))

/-- A page gets a frame of its own. -/
theorem resolves_handleCowFault (hlookup : space.lookup (faultAddr / 4096) = some found)
    (hpresent : found.present = true)
    (hcow : space.handleCowFault (faultAddr / 4096) found = (true, after)) :
    Resolves faultAddr space after := by
  obtain ⟨hfound, htable⟩ := lookup_eq_some hlookup
  unfold handleCowFault at hcow
  dsimp only at hcow
  split at hcow
  · exact absurd hcow (by simp)
  · rw [← (Prod.mk.inj hcow).2]
    rw [← (frameAlloc_same space).1] at htable
    refine ⟨((alike_frameAlloc space).concerns _).trans (concerns_setEntry _ _ _),
      fun va byte hva hread ↦ ?_, fun hcow ↦ ?_, ?_⟩
    · unfold read at hread
      simp only [hva, hfound, hpresent, ↓reduceIte] at hread
      split at hread
      · next huser =>
        rw [← hread, read_of_present, (setEntry_same ..).1, (alike_frameAlloc space).contents, hva]
        · rw [hva, entry_setEntry htable, if_pos rfl]
        · rw [hva, entry_setEntry htable, if_pos rfl]
          exact huser
      · exact absurd hread (by simp)
    · rw [entry_setEntry htable, if_pos rfl] at hcow
      exact absurd hcow (by simp)
    · rw [hfound]
      exact .inr (.inl hpresent)

/-- The stack or the heap grows. -/
theorem resolves_growTo (hpresent : (space.entry (faultAddr / 4096)).present = false)
    (hdemand : (space.entry (faultAddr / 4096)).demand = false)
    (hswapped : (space.entry (faultAddr / 4096)).swapped = false)
    (hgrow : space.growTo faultAddr = (true, after)) : Resolves faultAddr space after := by
  unfold growTo at hgrow
  split at hgrow
  · next hstack =>
    split at hgrow
    · exact absurd hgrow (by simp)
    · next filled hfilled =>
      obtain ⟨hconcerns, hkeeps, hcow, hused⟩ :=
        resolves_fillNew hpresent hdemand hswapped (.inl hstack) hfilled
      rw [← (Prod.mk.inj hgrow).2]
      -- the lower end of the stack is not part of what a program reads
      exact ⟨⟨hconcerns.entry, hconcerns.contents, hconcerns.heapBreak⟩, hkeeps, hcow, hused⟩
  · split at hgrow
    · next hheap => exact resolves_fillNew hpresent hdemand hswapped (.inr hheap) hgrow
    · exact absurd hgrow (by simp)

theorem succeeded_eq_some {call : Bool × UserSpace} :
    succeeded call = some after ↔ call = (true, after) := by
  obtain ⟨result, space⟩ := call
  cases result with
  | false => simp [succeeded]
  | true => simp [succeeded]

/-- What a fault that is resolved does. -/
theorem resolves_fault (hfault : space.fault isWrite faultAddr = some after) :
    Resolves faultAddr space after := by
  have hhandler := succeeded_eq_some.mp hfault
  unfold pageFaultHandler at hhandler
  cases hlookup : space.lookup (faultAddr / 4096) with
  | none =>
    have hzero : space.entry (faultAddr / 4096) = zeroEntry := by
      unfold entry
      rw [hlookup]
      rfl
    rw [hlookup, hzero] at hhandler
    exact resolves_growTo (by rw [hzero]; rfl) (by rw [hzero]; rfl) (by rw [hzero]; rfl) hhandler
  | some found =>
    obtain ⟨hfound, -⟩ := lookup_eq_some hlookup
    rw [hlookup, hfound] at hhandler
    dsimp only at hhandler
    cases hpresent : found.present with
    | true =>
      simp only [hpresent, Bool.not_true, Bool.false_and, Bool.false_eq_true, ↓reduceIte,
        Bool.true_and] at hhandler
      split at hhandler
      · exact resolves_handleCowFault hlookup hpresent hhandler
      · exact absurd hhandler (by simp)
    | false =>
      simp only [hpresent, Bool.not_false, Bool.true_and, Bool.false_and, Bool.false_eq_true,
        ↓reduceIte] at hhandler
      cases hdemand : found.demand with
      | true =>
        rw [if_pos hdemand] at hhandler
        exact resolves_fillDemand hlookup hpresent hdemand hhandler
      | false =>
        rw [if_neg (by simp [hdemand])] at hhandler
        cases hswapped : found.swapped with
        | true =>
          rw [if_pos hswapped] at hhandler
          exact resolves_swapInPage hlookup hpresent hdemand hswapped hhandler
        | false =>
          rw [if_neg (by simp [hswapped])] at hhandler
          exact resolves_growTo (by rw [hfound, hpresent]) (by rw [hfound, hdemand])
            (by rw [hfound, hswapped]) hhandler

/-- A byte that can be read keeps its value over every fault. -/
theorem read_fault (hfault : space.fault isWrite faultAddr = some after)
    (hread : space.read va = some byte) : after.read va = some byte := by
  have hresolves := resolves_fault hfault
  by_cases hva : va / 4096 = faultAddr / 4096
  · exact hresolves.keeps va byte hva hread
  · rw [hresolves.toConcerns.read hva, hread]

/-! ### Pages that a step does not concern -/

theorem alike_frameFree (space : UserSpace) (frame : ℕ) : Alike space (space.frameFree frame) :=
  ⟨fun _ ↦ rfl, rfl, rfl⟩

theorem concerns_fillDemand (space : UserSpace) (page : ℕ) (found : Entry) :
    Concerns page space (space.fillDemand page found).2 := by
  have htaken := (alike_frameAlloc space).concerns page
  unfold fillDemand
  dsimp only
  split
  · exact htaken
  · exact (htaken.trans (concerns_zeroPage _ page)).trans (concerns_setEntry _ page _)

theorem concerns_mapPage (space : UserSpace) (page frame : ℕ) (flags : Flags) :
    Concerns page space (space.mapPage page frame flags).2 := by
  have hcreated := (alike_createTable space page).concerns page
  unfold mapPage
  split
  · next after hafter =>
    rw [hafter] at hcreated
    exact hcreated
  · next after hafter =>
    rw [hafter] at hcreated
    exact hcreated.trans (concerns_setEntry _ page _)

theorem concerns_fillNew (space : UserSpace) (page : ℕ) :
    Concerns page space (space.fillNew page).2 := by
  have htaken := (alike_frameAlloc space).concerns page
  unfold fillNew
  dsimp only
  split
  · exact htaken
  · exact (htaken.trans (concerns_zeroPage _ page)).trans (concerns_mapPage _ page _ userRw)

theorem concerns_growTo (space : UserSpace) (faultAddr : ℕ) :
    Concerns (faultAddr / 4096) space (space.growTo faultAddr).2 := by
  have hfilled := concerns_fillNew space (faultAddr / 4096)
  unfold growTo
  split
  · split
    · next failed hfailed =>
      rw [hfailed] at hfilled
      exact hfilled
    · next filled hsome =>
      rw [hsome] at hfilled
      exact ⟨hfilled.entry, hfilled.contents, hfilled.heapBreak⟩
  · split
    · exact hfilled
    · exact ⟨fun _ _ ↦ rfl, fun _ _ ↦ rfl, rfl⟩

/-- Bringing a page back concerns it; where that fails, nothing becomes of any page. -/
theorem concerns_swapInPage (space : UserSpace) (page slot : ℕ) :
    Concerns page space (space.swapInPage page slot).2 ∧
      ((space.swapInPage page slot).1 = false → Alike space (space.swapInPage page slot).2) := by
  have hself : Alike space space := ⟨fun _ ↦ rfl, rfl, rfl⟩
  have htaken := alike_frameAlloc space
  unfold swapInPage
  dsimp only
  split
  · exact ⟨hself.concerns page, fun _ ↦ hself⟩
  · split
    · exact ⟨htaken.concerns page, fun _ ↦ htaken⟩
    · have hread := htaken.trans (alike_swapReadPage space.frameAlloc.2)
      split
      · next failed hfailed =>
        rw [hfailed] at hread
        have hfreed := hread.trans (alike_frameFree failed space.frameAlloc.1)
        exact ⟨hfreed.concerns page, fun _ ↦ hfreed⟩
      · next back hback =>
        rw [hback] at hread
        split
        · have hfreed := hread.trans (alike_frameFree back space.frameAlloc.1)
          exact ⟨hfreed.concerns page, fun _ ↦ hfreed⟩
        · exact ⟨(hread.concerns page).trans (concerns_setEntry _ page _),
            fun hfalse ↦ absurd hfalse (by simp)⟩

end

end UserSpace

end EynOS.Memory.UserFaults
