import EynOS.Memory.UserFaults

/-!
# Writing to user pages from the kernel

`copyout` writes to the memory of a user program. Before it asks `user_access_ok`, it lets
`vmm_fault_in_user_write` resolve the faults that the program itself would take on its pages:
demand-zero pages, pages in the swap partition and pages of the growing stack or heap. That function
repeats the cases of `vmm_page_fault_handler`.

`faultIn` and `writeFault` are what the two come to on one page: the address space in which the page
can be written, if they lead to one. `agrees_iff` says where they are the same: everywhere but on a
copy-on-write page and on a page of the stack or the heap that has an empty entry in a page table
that exists (`Missed`); and that `copyout` succeeds on a buffer that the program could write exactly
where none of its pages is missed on the way.
-/

namespace EynOS.Memory.Prefault

open Foundation UserFaults UserFaults.UserSpace
open Vmm (Entry noFlags zeroEntry KERNEL_BASE)

/-! ### The functions -/

/-- The end of the body of the loop of `vmm_fault_in_user_write`: a page without a page table. -/
def growInPage (space : UserSpace) (page : ℕ) : Bool × UserSpace :=
  if USER_STACK_BASE ≤ 4096 * page ∧ 4096 * page < USER_STACK_TOP then
    match space.fillNew page with
    | (false, failed) => (false, failed)
    | (true, filled) => (true, filled.lowerStack page)
  else if USER_HEAP_BASE ≤ 4096 * page ∧ 4096 * page < space.heapBreak then space.fillNew page
  else (false, space)

/-- The body of the loop of `vmm_fault_in_user_write`: whether it goes on. -/
def faultInPage (space : UserSpace) (page : ℕ) : Bool × UserSpace :=
  match space.lookup page with
  | some entry =>
    if entry.present then
      if entry.user && entry.rw then (true, space) else (false, space)
    else if entry.demand then space.fillDemand page entry
    else if entry.swapped then space.swapInPage page entry.frame
    else (false, space)
  | none => growInPage space page

/-- The loop of `vmm_fault_in_user_write`. -/
def faultInPages : List ℕ → UserSpace → Bool × UserSpace
  | [], space => (true, space)
  | page :: pages, space =>
    match faultInPage space page with
    | (false, denied) => (false, denied)
    | (true, after) => faultInPages pages after

/-- `vmm_fault_in_user_write`. -/
def faultInUserWrite (space : UserSpace) (vaStart len : ℕ) : Bool × UserSpace :=
  if len = 0 then (true, space)
  else if vaStart < USER_CODE_BASE ∨ USER_STACK_TOP ≤ vaStart then (false, space)
  else if u32 (vaStart + len) < vaStart then (false, space)
  else if USER_STACK_TOP < u32 (vaStart + len) then (false, space)
  else
    faultInPages (List.range' (vaStart / 4096)
      ((u32 (vaStart + len) - 4096 * (vaStart / 4096) + 4095) / 4096)) space

def userPageOk (space : UserSpace) (page : ℕ) (write : Bool) : Bool :=
  if KERNEL_BASE ≤ 4096 * page then false
  else if 4096 * page < USER_CODE_BASE ∨ USER_STACK_TOP ≤ 4096 * page then false
  else
    match space.lookup page with
    | none => false
    | some entry =>
      if !entry.present then false
      else if !entry.user then false
      else if write && !entry.rw then false
      else true

def userAccessOk (space : UserSpace) (ptr len : ℕ) (write : Bool) : Bool :=
  if len = 0 then true
  else if ptr = 0 then false
  else if u32 (ptr + len) < ptr then false
  else if ptr < USER_CODE_BASE ∨ USER_STACK_TOP < u32 (ptr + len) then false
  else
    (List.range' (ptr / 4096) ((u32 (ptr + len) - 1) / 4096 - ptr / 4096 + 1)).all fun page ↦
      userPageOk space page write

/-- `memcpy` to user addresses. -/
def storeBytes (space : UserSpace) (va : ℕ) : List UInt8 → UserSpace
  | [] => space
  | byte :: bytes => storeBytes (space.store va byte) (va + 1) bytes

/-- `copyout`: whether it succeeded. -/
def copyout (space : UserSpace) (userDst : ℕ) (src : List UInt8) : Bool × UserSpace :=
  if src.length = 0 then (true, space)
  else
    let after := (faultInUserWrite space userDst src.length).2
    if !userAccessOk after userDst src.length true then (false, after)
    else (true, storeBytes after userDst src)

/-! ### What the two functions come to -/

/-- The address space after `vmm_fault_in_user_write` on one page, if it returns 0 and the page can
be written then. -/
def faultIn (space : UserSpace) (page : ℕ) : Option UserSpace :=
  (succeeded (faultInUserWrite space (4096 * page) 4096)).filter fun after ↦ after.Writable page

/-- The address space in which a program writes to a page: at once, or after a write fault that
`vmm_page_fault_handler` resolves so that the page can be written. -/
def writeFault (space : UserSpace) (page : ℕ) : Option UserSpace :=
  if space.Writable page then some space
  else (space.fault true (4096 * page)).filter fun after ↦ after.Writable page

def writePages : UserSpace → List ℕ → Option UserSpace
  | space, [] => some space
  | space, page :: pages => (writeFault space page).bind fun after ↦ writePages after pages

/-- A page that the handler resolves and `vmm_fault_in_user_write` does not: there is a frame, and
the page is a copy-on-write page of the user, or one of the stack or the heap that has an empty
entry. -/
def Missed (space : UserSpace) (page : ℕ) : Prop :=
  space.frameAlloc.1 ≠ 0 ∧ ∃ entry, space.lookup page = some entry ∧
    (entry.present = true ∧ entry.user = true ∧ entry.rw = false ∧ entry.cow = true ∨
      entry.present = false ∧ entry.demand = false ∧ entry.swapped = false ∧
        space.Growing (4096 * page))

/-- None of the pages that a program writes to is missed when it comes to it. -/
def NoneMissed : UserSpace → List ℕ → Prop
  | _, [] => True
  | space, page :: pages =>
    ¬Missed space page ∧ ∀ after, writeFault space page = some after → NoneMissed after pages

/-- A page of the user's addresses. -/
structure UserPage where
  number : ℕ
  code : USER_CODE_BASE ≤ 4096 * number
  top : 4096 * number < USER_STACK_TOP

/-- A buffer in the user's addresses, with the bytes to be written. -/
structure UserBuffer where
  start : ℕ
  bytes : List UInt8
  code : USER_CODE_BASE ≤ start
  top : start + bytes.length ≤ USER_STACK_TOP

def UserBuffer.pages (buffer : UserBuffer) : List ℕ :=
  if buffer.bytes = [] then []
  else
    List.range' (buffer.start / 4096)
      ((buffer.start + buffer.bytes.length - 1) / 4096 - buffer.start / 4096 + 1)

variable {space after : UserSpace} {page : ℕ} {pages : List ℕ} {found : Entry}

/-! ### One page -/

theorem growInPage_eq (space : UserSpace) (page : ℕ) :
    growInPage space page = space.growTo (4096 * page) := by
  have hpage : 4096 * page / 4096 = page := Nat.mul_div_cancel_left page (by decide)
  conv_rhs => rw [growTo, hpage]
  rfl

/-- The loop over a single page. -/
theorem faultInUserWrite_page (space : UserSpace) (page : UserPage) :
    faultInUserWrite space (4096 * page.number) 4096 = faultInPage space page.number := by
  have hcode : 0x00400000 ≤ 4096 * page.number := page.code
  have htop : 4096 * page.number < 0xC0000000 := page.top
  have hend : u32 (4096 * page.number + 4096) = 4096 * page.number + 4096 :=
    u32_of_lt _ (by omega)
  unfold faultInUserWrite
  rw [hend, if_neg (by decide), if_neg, if_neg (by omega), if_neg]
  · have hcount : (4096 * page.number + 4096 - 4096 * (4096 * page.number / 4096) + 4095) / 4096 =
        1 := by omega
    rw [hcount, Nat.mul_div_cancel_left page.number (by decide)]
    change (match faultInPage space page.number with
      | (false, denied) => (false, denied)
      | (true, after) => (true, after)) = _
    obtain ⟨result, after⟩ := faultInPage space page.number
    cases result with
    | false => rfl
    | true => rfl
  · change ¬0xC0000000 < _
    omega
  · rintro (hlow | hhigh)
    · exact absurd hcode (Nat.not_le_of_lt hlow)
    · exact absurd htop (Nat.not_lt_of_le hhigh)

/-- What `vmm_fault_in_user_write` comes to on one page. -/
theorem faultIn_eq (space : UserSpace) (page : UserPage) :
    faultIn space page.number =
      (succeeded (faultInPage space page.number)).filter fun after ↦
        after.Writable page.number := by
  unfold faultIn
  rw [faultInUserWrite_page]

theorem writable_iff (hlookup : space.lookup page = some found) :
    space.Writable page ↔ found.present = true ∧ found.user = true ∧ found.rw = true := by
  unfold Writable
  rw [(lookup_eq_some hlookup).1]

theorem not_writable_of_none (hlookup : space.lookup page = none) : ¬space.Writable page := by
  unfold Writable entry
  rw [hlookup]
  simp [zeroEntry, noFlags]

theorem fault_page (space : UserSpace) (page : ℕ) : space.fault true (4096 * page) =
    succeeded (space.pageFaultHandler (space.entry page).present true (4096 * page)) := by
  unfold fault
  rw [Nat.mul_div_cancel_left page (by decide)]

/-- What a page of a copy-on-write entry comes to. -/
theorem handleCowFault_eq_none (hlookup : space.lookup page = some found) :
    ((succeeded (space.handleCowFault page found)).filter fun after ↦ after.Writable page) = none ↔
      ¬(space.frameAlloc.1 ≠ 0 ∧ found.user = true) := by
  obtain ⟨-, htable⟩ := lookup_eq_some hlookup
  rw [← (frameAlloc_same space).1] at htable
  unfold handleCowFault
  dsimp only
  by_cases hframe : space.frameAlloc.1 = 0
  · rw [if_pos hframe]
    simp [succeeded, hframe]
  · rw [if_neg hframe]
    simp [succeeded, hframe, Writable, entry_setEntry htable]

/-- A page of the stack or the heap that has an entry can be written once it is filled. -/
theorem fillNew_writable (hlookup : space.lookup page = some found)
    (hframe : space.frameAlloc.1 ≠ 0) :
    ∃ after, space.fillNew page = (true, after) ∧ after.Writable page := by
  have htable : ((space.frameAlloc.2.zeroPage page).table (page / 1024)).isSome := by
    unfold zeroPage
    rw [(frameAlloc_same space).1]
    exact (lookup_eq_some hlookup).2
  have hmapped : ((space.frameAlloc.2.zeroPage page).mapPage page space.frameAlloc.1 userRw).2 =
      (space.frameAlloc.2.zeroPage page).setEntry page
        { toFlags := { userRw with present := true }, frame := space.frameAlloc.1 } := by
    obtain ⟨entries, hentries⟩ := Option.isSome_iff_exists.mp htable
    unfold mapPage createTable
    rw [hentries]
  unfold fillNew
  dsimp only
  rw [if_neg hframe, hmapped]
  refine ⟨_, rfl, ?_⟩
  unfold Writable
  rw [entry_setEntry htable, if_pos rfl]
  exact ⟨rfl, rfl, rfl⟩

theorem fillNew_zero (hframe : space.frameAlloc.1 = 0) (page : ℕ) :
    space.fillNew page = (false, space.frameAlloc.2) := by
  unfold fillNew
  dsimp only
  rw [if_pos hframe]

/-- What an empty entry of the stack or the heap comes to. -/
theorem growTo_eq_none (hlookup : space.lookup page = some found) :
    ((succeeded (space.growTo (4096 * page))).filter fun after ↦ after.Writable page) = none ↔
      ¬(space.frameAlloc.1 ≠ 0 ∧ space.Growing (4096 * page)) := by
  unfold growTo Growing
  rw [Nat.mul_div_cancel_left page (by decide)]
  by_cases hframe : space.frameAlloc.1 = 0
  · rw [fillNew_zero hframe]
    split
    · simp [succeeded, hframe]
    · split
      · simp [succeeded, hframe]
      · simp [succeeded, hframe]
  · obtain ⟨after, hafter, hwritable⟩ := fillNew_writable hlookup hframe
    rw [hafter]
    by_cases hstack : USER_STACK_BASE ≤ 4096 * page ∧ 4096 * page < USER_STACK_TOP
    · have hlowered : (after.lowerStack page).Writable page := hwritable
      simp [hstack, succeeded, hframe, hlowered]
    · rw [if_neg hstack]
      by_cases hheap : USER_HEAP_BASE ≤ 4096 * page ∧ 4096 * page < space.heapBreak
      · simp [hheap, succeeded, hframe, hwritable]
      · rw [if_neg hheap]
        simp [hheap, hstack, succeeded]

/-- A page that the handler resolves and the function does not: it is denied. -/
theorem faultInPage_of_missed (hmissed : Missed space page) :
    faultInPage space page = (false, space) := by
  obtain ⟨-, entry, hlookup, hcow | hempty⟩ := hmissed
  · obtain ⟨hpresent, -, hrw, -⟩ := hcow
    unfold faultInPage
    rw [hlookup]
    simp [hpresent, hrw]
  · obtain ⟨hpresent, hdemand, hswapped, -⟩ := hempty
    unfold faultInPage
    rw [hlookup]
    simp [hpresent, hdemand, hswapped]

section

variable (hlookup : space.lookup page = some found)

include hlookup

/-- What a write fault on a page that has an entry comes to. -/
theorem writeFault_of_lookup (hnot : ¬space.Writable page) :
    writeFault space page =
      (succeeded (if !found.present && found.demand then space.fillDemand page found
        else if !found.present && found.swapped then space.swapInPage page found.frame
        else if found.present && found.cow then space.handleCowFault page found
        else if found.present then (false, space)
        else space.growTo (4096 * page))).filter fun after ↦ after.Writable page := by
  unfold writeFault
  rw [if_neg hnot, fault_page, (lookup_eq_some hlookup).1]
  unfold pageFaultHandler
  rw [Nat.mul_div_cancel_left page (by decide), hlookup]
  simp only [Bool.and_true]

/-- Where a page has an entry, it is missed in the two cases. -/
theorem missed_iff :
    Missed space page ↔ space.frameAlloc.1 ≠ 0 ∧
      (found.present = true ∧ found.user = true ∧ found.rw = false ∧ found.cow = true ∨
        found.present = false ∧ found.demand = false ∧ found.swapped = false ∧
          space.Growing (4096 * page)) := by
  unfold Missed
  simp [hlookup]

/-- On a page that is present the two come to the same exactly where it is not missed. -/
theorem faultInPage_present (hpresent : found.present = true) :
    ((succeeded (faultInPage space page)).filter fun after ↦ after.Writable page) =
      writeFault space page ↔ ¬Missed space page := by
  rw [missed_iff hlookup]
  by_cases hboth : found.user = true ∧ found.rw = true
  · have hwritable : space.Writable page := (writable_iff hlookup).mpr ⟨hpresent, hboth⟩
    refine iff_of_true ?_ (by simp [hpresent, hboth.2])
    unfold faultInPage writeFault
    rw [hlookup, if_pos hwritable]
    simp [hpresent, hboth, succeeded, hwritable]
  · have hnot : ¬space.Writable page := fun hwritable ↦
      hboth ((writable_iff hlookup).mp hwritable).2
    have hdenied : faultInPage space page = (false, space) := by
      unfold faultInPage
      rw [hlookup]
      simp only [hpresent, ↓reduceIte]
      rw [if_neg (by simpa using hboth)]
    rw [hdenied, writeFault_of_lookup hlookup hnot]
    simp only [hpresent, Bool.not_true, Bool.false_and, Bool.false_eq_true, ↓reduceIte,
      Bool.true_and, true_and, false_and, or_false, reduceCtorEq]
    cases hcow : found.cow with
    | true =>
      simp only [↓reduceIte, and_true]
      rw [eq_comm]
      refine (handleCowFault_eq_none hlookup).trans (not_congr (and_congr_right fun _ ↦ ?_))
      simpa using hboth
    | false => simp [succeeded]

/-- On a page that is not present the two come to the same exactly where it is not missed. -/
theorem faultInPage_absent (hpresent : found.present = false) :
    ((succeeded (faultInPage space page)).filter fun after ↦ after.Writable page) =
      writeFault space page ↔ ¬Missed space page := by
  have hnot : ¬space.Writable page := fun hwritable ↦
    Bool.noConfusion (hpresent.symm.trans ((writable_iff hlookup).mp hwritable).1)
  rw [missed_iff hlookup, writeFault_of_lookup hlookup hnot]
  unfold faultInPage
  rw [hlookup]
  simp only [hpresent, Bool.not_false, Bool.true_and, Bool.false_eq_true, ↓reduceIte,
    Bool.false_and, false_and, true_and, false_or]
  cases hdemand : found.demand with
  | true => simp
  | false =>
    cases hswapped : found.swapped with
    | true => simp
    | false =>
      simp only [Bool.false_eq_true, ↓reduceIte, true_and]
      rw [eq_comm]
      exact growTo_eq_none hlookup

end

/-- On one page the two come to the same exactly where the page is not missed. -/
theorem faultInPage_iff (space : UserSpace) (page : ℕ) :
    ((succeeded (faultInPage space page)).filter fun after ↦ after.Writable page) =
      writeFault space page ↔ ¬Missed space page := by
  cases hlookup : space.lookup page with
  | none =>
    have hmissed : ¬Missed space page := by
      rintro ⟨-, entry, hentry, -⟩
      exact absurd (hlookup.symm.trans hentry) (by simp)
    have hpresent : (space.entry page).present = false := by
      unfold entry
      rw [hlookup]
      rfl
    refine iff_of_true ?_ hmissed
    unfold writeFault
    rw [if_neg (not_writable_of_none hlookup), fault_page, hpresent]
    unfold faultInPage pageFaultHandler
    rw [Nat.mul_div_cancel_left page (by decide), hlookup]
    dsimp only
    rw [growInPage_eq]
    rfl
  | some found =>
    cases hpresent : found.present with
    | true => exact faultInPage_present hlookup hpresent
    | false => exact faultInPage_absent hlookup hpresent

/-! ### Several pages -/

/-- The body of the loop concerns its page. -/
theorem concerns_faultInPage (space : UserSpace) (page : ℕ) :
    Concerns page space (faultInPage space page).2 := by
  have hself : Concerns page space space := ⟨fun _ _ ↦ rfl, fun _ _ ↦ rfl, rfl⟩
  unfold faultInPage
  split
  · next found hlookup =>
    split
    · split
      · exact hself
      · exact hself
    · split
      · exact concerns_fillDemand space page found
      · split
        · exact (concerns_swapInPage space page found.frame).1
        · exact hself
  · rw [growInPage_eq]
    have hgrow := concerns_growTo space (4096 * page)
    rwa [Nat.mul_div_cancel_left page (by decide)] at hgrow

/-- The loop leaves other pages as they are. -/
theorem entry_faultInPages (hpage : page ∉ pages) (space : UserSpace) :
    (faultInPages pages space).2.entry page = space.entry page := by
  induction pages generalizing space with
  | nil => rfl
  | cons first pages ih =>
    obtain ⟨hfirst, hrest⟩ := not_or.mp (mt List.mem_cons.mpr hpage)
    have hstep := (concerns_faultInPage space first).entry page hfirst
    unfold faultInPages
    split
    · next denied hdenied =>
      rw [hdenied] at hstep
      exact hstep
    · next after hafter =>
      rw [hafter] at hstep
      exact (ih hrest after).trans hstep

/-- A call that fails for want of a frame leaves the pages as they are. -/
theorem alike_of_failed {call : Bool × UserSpace} {filled : UserSpace}
    (hcall : call = if space.frameAlloc.1 = 0 then (false, space.frameAlloc.2) else (true, filled))
    (hfailed : call = (false, after)) : Alike space after := by
  rw [hcall] at hfailed
  split at hfailed
  · rw [← (Prod.mk.inj hfailed).2]
    exact alike_frameAlloc space
  · exact absurd hfailed (by simp)

/-- A page that neither the stack nor the heap grows to. -/
theorem alike_growTo {faultAddr : ℕ} (hfailed : space.growTo faultAddr = (false, after)) :
    Alike space after := by
  unfold growTo at hfailed
  split at hfailed
  · split at hfailed
    · next failed hfill =>
      rw [← (Prod.mk.inj hfailed).2]
      exact alike_of_failed rfl hfill
    · exact absurd hfailed (by simp)
  · split at hfailed
    · exact alike_of_failed rfl hfailed
    · rw [← (Prod.mk.inj hfailed).2]
      exact ⟨fun _ ↦ rfl, rfl, rfl⟩

/-- A page that the loop stops at could not be written before, and nothing has become of it. -/
theorem denied (hdenied : faultInPage space page = (false, after)) :
    Alike space after ∧ ¬space.Writable page := by
  unfold faultInPage at hdenied
  cases hlookup : space.lookup page with
  | none =>
    rw [hlookup] at hdenied
    dsimp only at hdenied
    rw [growInPage_eq] at hdenied
    exact ⟨alike_growTo hdenied, not_writable_of_none hlookup⟩
  | some found =>
    rw [hlookup] at hdenied
    rw [writable_iff hlookup]
    dsimp only at hdenied
    cases hpresent : found.present with
    | true =>
      rw [if_pos hpresent] at hdenied
      split at hdenied
      · exact absurd hdenied (by simp)
      · next hboth =>
        rw [← (Prod.mk.inj hdenied).2]
        exact ⟨⟨fun _ ↦ rfl, rfl, rfl⟩, by simpa using hboth⟩
    | false =>
      rw [if_neg (by simp [hpresent])] at hdenied
      refine ⟨?_, by simp⟩
      split at hdenied
      · exact alike_of_failed rfl hdenied
      · split at hdenied
        · have hswap := (concerns_swapInPage space page found.frame).2
          rw [hdenied] at hswap
          exact hswap rfl
        · rw [← (Prod.mk.inj hdenied).2]
          exact ⟨fun _ ↦ rfl, rfl, rfl⟩

theorem not_writable_of_denied (hdenied : faultInPage space page = (false, after)) :
    ¬after.Writable page := by
  obtain ⟨halike, hnot⟩ := denied hdenied
  unfold Writable
  rw [halike.entry]
  exact hnot

/-- All pages can be written after the loop exactly where a program could write to all of them and
none is missed. -/
theorem faultInPages_iff (hnodup : pages.Nodup) (space : UserSpace) :
    (∀ page ∈ pages, (faultInPages pages space).2.Writable page) ↔
      (writePages space pages).isSome ∧ NoneMissed space pages := by
  induction pages generalizing space with
  | nil => simp [writePages, NoneMissed]
  | cons first pages ih =>
    obtain ⟨hfirst, hnodup⟩ := List.nodup_cons.mp hnodup
    have hpage := faultInPage_iff space first
    rw [List.forall_mem_cons]
    unfold writePages NoneMissed
    rcases hbody : faultInPage space first with ⟨goesOn, after⟩
    cases goesOn with
    | false =>
      -- the loop stops; a program that could write here would have been missed
      have hloop : faultInPages (first :: pages) space = (false, after) := by
        unfold faultInPages
        rw [hbody]
      rw [hloop]
      refine iff_of_false (fun hall ↦ not_writable_of_denied hbody hall.1) ?_
      rintro ⟨hwrite, hmissed, -⟩
      rw [← hpage.mpr hmissed, hbody] at hwrite
      exact absurd hwrite (by simp [succeeded])
    | true =>
      have hloop : faultInPages (first :: pages) space = faultInPages pages after := by
        rw [faultInPages.eq_def]
        simp only [hbody]
      have hmissed : ¬Missed space first := fun hmissed ↦ by
        rw [faultInPage_of_missed hmissed] at hbody
        exact absurd hbody (by simp)
      have hwrite : writeFault space first = if after.Writable first then some after else none := by
        rw [← hpage.mpr hmissed, hbody]
        by_cases hwritable : after.Writable first <;> simp [succeeded, hwritable]
      have hfirstWritable :
          (faultInPages pages after).2.Writable first ↔ after.Writable first := by
        unfold Writable
        rw [entry_faultInPages hfirst after]
      rw [hloop, hfirstWritable, ih hnodup after, hwrite]
      by_cases hwritable : after.Writable first
      · simp [hwritable, hmissed]
      · simp [hwritable]

/-! ### Buffers -/

/-- The check of a user page is that it can be written. -/
theorem userPageOk_iff (hcode : USER_CODE_BASE ≤ 4096 * page)
    (htop : 4096 * page < USER_STACK_TOP) :
    userPageOk space page true = true ↔ space.Writable page := by
  have hkernel : ¬KERNEL_BASE ≤ 4096 * page := Nat.not_le_of_lt htop
  unfold userPageOk
  rw [if_neg hkernel, if_neg (not_or.mpr ⟨Nat.not_lt_of_le hcode, Nat.not_le_of_lt htop⟩)]
  cases hlookup : space.lookup page with
  | none => simpa using not_writable_of_none hlookup
  | some found =>
    rw [writable_iff hlookup]
    cases hpresent : found.present with
    | true => cases huser : found.user <;> simp [hpresent, huser]
    | false => simp [hpresent]

theorem page_of_buffer {buffer : UserBuffer} (hpage : page ∈ buffer.pages) :
    USER_CODE_BASE ≤ 4096 * page ∧ 4096 * page < USER_STACK_TOP := by
  have hcode : 0x00400000 ≤ buffer.start := buffer.code
  have htop : buffer.start + buffer.bytes.length ≤ 0xC0000000 := buffer.top
  unfold UserBuffer.pages at hpage
  split at hpage
  · exact absurd hpage List.not_mem_nil
  · next hbytes =>
    have hlength := List.length_pos_iff.mpr hbytes
    obtain ⟨hfirst, hlast⟩ := List.mem_range'_1.mp hpage
    change 0x00400000 ≤ 4096 * page ∧ 4096 * page < 0xC0000000
    omega

/-- A buffer that is not empty is faulted in and checked page by page. -/
theorem copyout_pages (space : UserSpace) {buffer : UserBuffer} (hbytes : buffer.bytes ≠ []) :
    (copyout space buffer.start buffer.bytes).1 =
      buffer.pages.all fun page ↦
        userPageOk (faultInPages buffer.pages space).2 page true := by
  have hcode : 0x00400000 ≤ buffer.start := buffer.code
  have htop : buffer.start + buffer.bytes.length ≤ 0xC0000000 := buffer.top
  have hlength := List.length_pos_iff.mpr hbytes
  have hend : u32 (buffer.start + buffer.bytes.length) = buffer.start + buffer.bytes.length :=
    u32_of_lt _ (by omega)
  have hpages : buffer.pages = List.range' (buffer.start / 4096)
      ((buffer.start + buffer.bytes.length - 1) / 4096 - buffer.start / 4096 + 1) := by
    unfold UserBuffer.pages
    rw [if_neg hbytes]
  have hcount : (buffer.start + buffer.bytes.length - 4096 * (buffer.start / 4096) + 4095) / 4096 =
      (buffer.start + buffer.bytes.length - 1) / 4096 - buffer.start / 4096 + 1 := by
    omega
  have hfault : faultInUserWrite space buffer.start buffer.bytes.length =
      faultInPages buffer.pages space := by
    unfold faultInUserWrite
    rw [hend, if_neg hlength.ne', if_neg, if_neg (by omega), if_neg, hcount, hpages]
    · change ¬0xC0000000 < _
      omega
    · change ¬(_ < 0x00400000 ∨ 0xC0000000 ≤ _)
      omega
  have haccess (after : UserSpace) :
      userAccessOk after buffer.start buffer.bytes.length true =
        buffer.pages.all fun page ↦ userPageOk after page true := by
    unfold userAccessOk
    rw [hend, if_neg hlength.ne', if_neg (by omega), if_neg (by omega), if_neg, hpages]
    change ¬(_ < 0x00400000 ∨ 0xC0000000 < _)
    omega
  unfold copyout
  rw [if_neg hlength.ne', hfault]
  dsimp only
  rw [haccess]
  cases buffer.pages.all fun page ↦ userPageOk (faultInPages buffer.pages space).2 page true with
  | false => rfl
  | true => rfl

/-- `copyout` succeeds exactly where a program could write to all pages of the buffer and none of
them is missed. -/
theorem copyout_iff (space : UserSpace) (buffer : UserBuffer) :
    (copyout space buffer.start buffer.bytes).1 = true ↔
      (writePages space buffer.pages).isSome ∧ NoneMissed space buffer.pages := by
  by_cases hbytes : buffer.bytes = []
  · have hpages : buffer.pages = [] := if_pos hbytes
    rw [hpages, hbytes]
    simp [copyout, writePages, NoneMissed]
  · have hnodup : buffer.pages.Nodup := by
      unfold UserBuffer.pages
      rw [if_neg hbytes]
      exact List.nodup_range'
    rw [copyout_pages space hbytes, ← faultInPages_iff hnodup, List.all_eq_true]
    refine forall₂_congr fun page hpage ↦ ?_
    obtain ⟨hcode, htop⟩ := page_of_buffer hpage
    exact userPageOk_iff hcode htop

/-- An address space with a page table for the top of the stack, whose entries are empty. -/
def stackSpace : UserSpace :=
  { table := fun index ↦ if index = 767 then some fun _ ↦ zeroEntry else none
    contents := fun _ _ ↦ 0
    heapBreak := USER_HEAP_BASE
    stackBottom := USER_STACK_TOP - 4096
    frames := [300]
    swapReads := []
    freed := [] }

end EynOS.Memory.Prefault
