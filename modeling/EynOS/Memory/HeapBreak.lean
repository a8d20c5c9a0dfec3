import EynOS.Memory.UserFaults
import Mathlib.Data.List.Nodup

/-!
# The break of the user heap

`vmm_brk` moves the end of the heap. When the heap grows it marks pages demand-zero, when it shrinks
it unmaps pages, and both loops start at the lower of the two breaks and go up by `PAGE_SIZE` until
they reach the upper one. A break need not be the start of a page.

`Kept` says what a program expects of a successful call: what is below both breaks reads as before,
and a frame that is no longer mapped in the heap has been given to `frame_free`. `kept_iff` says
exactly when that is so, in every state that calls, faults, stores and evictions lead to: what is
kept of the page of the lower break reads as zero, and no page that the loop comes to loses its
frame (`Harmless`). `kept_of_aligned` gives the runs in which this is always so: those in which all
breaks are starts of pages and no call fails, for a call that fails may leave pages behind the break
in use.
-/

namespace EynOS.Memory.HeapBreak

open Foundation UserFaults UserFaults.UserSpace
open Vmm (Entry noFlags zeroEntry MAX_SWAP_SLOTS)

/-! ### `vmm_brk` -/

/-- The pages that a loop from one address to another in steps of a page comes to. -/
def pagesFrom (first last : ℕ) : List ℕ :=
  (List.range ((last - first + 4095) / 4096)).map fun step ↦ (first + 4096 * step) / 4096

/-- `PTE_DEMAND | PTE_USER | PTE_RW`. -/
def demandEntry : Entry :=
  { toFlags := { noFlags with demand := true, user := true, rw := true }, frame := 0 }

/-- The loop of `vmm_brk` over the pages of a growing heap; it stops where a page table cannot be
created. -/
def markDemand : List ℕ → UserSpace → Bool × UserSpace
  | [], space => (true, space)
  | page :: pages, space =>
    match space.createTable page with
    | (false, after) => (false, after)
    | (true, after) => markDemand pages (after.setEntry page demandEntry)

/-- The loop of `vmm_brk` over the pages of a shrinking heap. -/
def unmapPages (pages : List ℕ) (space : UserSpace) : UserSpace :=
  pages.foldl (fun space page ↦ (space.unmapPage page).2) space

/-- The heap ends somewhere else. -/
def setBreak (space : UserSpace) (newBreak : ℕ) : UserSpace := { space with heapBreak := newBreak }

/-- `vmm_brk`: whether the break was moved. -/
def vmmBrk (space : UserSpace) (newBreak : ℕ) : Bool × UserSpace :=
  if newBreak < USER_HEAP_BASE ∨ USER_HEAP_END ≤ newBreak then (false, space)
  else if space.heapBreak < newBreak then
    match markDemand (pagesFrom space.heapBreak newBreak) space with
    | (false, after) => (false, after)
    | (true, after) => (true, setBreak after newBreak)
  else if newBreak < space.heapBreak then
    (true, setBreak (unmapPages (pagesFrom newBreak space.heapBreak) space) newBreak)
  else (true, setBreak space newBreak)

/-! ### What a program expects -/

/-- The pages that `vmm_brk` comes to. -/
def stepped (space : UserSpace) (newBreak : ℕ) : List ℕ :=
  pagesFrom (min space.heapBreak newBreak) (max space.heapBreak newBreak)

def HeapPage (page : ℕ) : Prop := USER_HEAP_BASE ≤ 4096 * page ∧ 4096 * page < USER_HEAP_END

/-- A frame is mapped in the heap. -/
def Mapped (space : UserSpace) (frame : ℕ) : Prop :=
  ∃ page, HeapPage page ∧ (space.entry page).present = true ∧ (space.entry page).frame = frame

/-- A call keeps what is below both breaks and loses no frame. -/
structure Kept (space : UserSpace) (newBreak : ℕ) : Prop where
  bytes : ∀ va, USER_HEAP_BASE ≤ va → va < min space.heapBreak newBreak →
    (vmmBrk space newBreak).2.read va = space.read va
  frames : ∀ frame, Mapped space frame → ¬Mapped (vmmBrk space newBreak).2 frame →
    ∃ given, (vmmBrk space newBreak).2.freed = given ++ space.freed ∧ frame ∈ given

/-- What is below both breaks in the page of the lower one reads as zero, and a frame of a page that
the loop comes to is mapped by another page of the heap too or, when the heap shrinks, by a page
that is not copy-on-write. -/
structure Harmless (space : UserSpace) (newBreak : ℕ) : Prop where
  zero : space.heapBreak ≠ newBreak → ∀ va, USER_HEAP_BASE ≤ va →
    va < min space.heapBreak newBreak → va / 4096 = min space.heapBreak newBreak / 4096 →
      space.read va = some 0
  frames : ∀ page ∈ stepped space newBreak, HeapPage page → (space.entry page).present = true →
    (∃ other ∉ stepped space newBreak, HeapPage other ∧ (space.entry other).present = true ∧
      (space.entry other).frame = (space.entry page).frame) ∨
    newBreak < space.heapBreak ∧ ∃ other ∈ stepped space newBreak,
      (space.entry other).present = true ∧ (space.entry other).cow = false ∧
        (space.entry other).frame = (space.entry page).frame

variable {space after : UserSpace} {pages : List ℕ} {page first last newBreak va : ℕ}

/-! ### The loops -/

/-- A loop comes to consecutive pages, from the one it starts in. -/
theorem mem_pagesFrom : page ∈ pagesFrom first last ↔
    first / 4096 ≤ page ∧ first + 4096 * (page - first / 4096) < last := by
  unfold pagesFrom
  rw [List.mem_map]
  constructor
  · rintro ⟨step, hstep, rfl⟩
    have hlt := List.mem_range.mp hstep
    omega
  · rintro ⟨hle, hlt⟩
    exact ⟨page - first / 4096, List.mem_range.mpr (by omega), by omega⟩

theorem nodup_pagesFrom (first last : ℕ) : (pagesFrom first last).Nodup := by
  refine List.Nodup.map_on (fun step _ other _ hsame ↦ ?_) List.nodup_range
  omega

/-- What the loop over a growing heap does. -/
theorem markDemand_spec (hmark : markDemand pages space = (true, after)) :
    (∀ page, after.entry page = if page ∈ pages then demandEntry else space.entry page) ∧
      after.contents = space.contents ∧ after.freed = space.freed := by
  induction pages generalizing space with
  | nil =>
    obtain rfl := (Prod.mk.inj hmark).2
    exact ⟨fun _ ↦ rfl, rfl, rfl⟩
  | cons first pages ih =>
    unfold markDemand at hmark
    have halike := alike_createTable space first
    have hcreated := createTable_spec space first
    split at hmark
    · exact absurd hmark (by simp)
    · next middle hmiddle =>
      rw [hmiddle] at halike hcreated
      obtain ⟨hentry, hcontents, hfreed⟩ := ih hmark
      obtain ⟨hsameContents, -, hsameFreed⟩ := setEntry_same middle first demandEntry
      refine ⟨fun page ↦ ?_, ?_, ?_⟩
      · rw [hentry, entry_setEntry (hcreated.2 rfl), halike.entry]
        by_cases hpages : page ∈ pages
        · simp [hpages]
        · by_cases hfirst : page = first
          · simp [hfirst]
          · simp [hpages, hfirst]
      · rw [hcontents, hsameContents, halike.contents]
      · rw [hfreed, hsameFreed, hcreated.1]

/-- The entry of a page after `vmm_unmap_page`. -/
def cleared (entry : Entry) : Entry :=
  if entry.present || entry.swapped || entry.demand then zeroEntry else entry

/-- A page that has a table loses its entry if that is in use, and its frame if it is its own. -/
theorem unmapPage_of_lookup {found : Entry} (hlookup : space.lookup page = some found) :
    (space.unmapPage page).2 =
      if found.present || found.swapped || found.demand then
        (if found.present && !found.cow then space.frameFree found.frame else space).setEntry page
          zeroEntry
      else space := by
  unfold unmapPage
  rw [hlookup]
  cases hpresent : found.present with
  | true => simp [hpresent]
  | false =>
    cases hswapped : found.swapped with
    | true => simp [hpresent, hswapped]
    | false => cases hdemand : found.demand <;> simp [hpresent, hswapped, hdemand]

/-- What `vmm_unmap_page` does. -/
theorem unmapPage_spec (space : UserSpace) (page : ℕ) :
    (∀ other, (space.unmapPage page).2.entry other =
        if other = page then cleared (space.entry page) else space.entry other) ∧
      (space.unmapPage page).2.contents = space.contents ∧
      (space.unmapPage page).2.freed =
        if (space.entry page).present && !(space.entry page).cow then
          (space.entry page).frame :: space.freed
        else space.freed := by
  have hself (other : ℕ) (hunused : cleared (space.entry page) = space.entry page) :
      space.entry other =
        if other = page then cleared (space.entry page) else space.entry other := by
    by_cases hother : other = page
    · rw [if_pos hother, hother, hunused]
    · rw [if_neg hother]
  cases hlookup : space.lookup page with
  | none =>
    have hzero : space.entry page = zeroEntry := by
      unfold entry
      rw [hlookup]
      rfl
    unfold unmapPage
    rw [hlookup]
    exact ⟨fun other ↦ hself other (by rw [hzero]; rfl), rfl, by rw [hzero]; rfl⟩
  | some found =>
    obtain ⟨hfound, htable⟩ := lookup_eq_some hlookup
    rw [unmapPage_of_lookup hlookup]
    by_cases hused : (found.present || found.swapped || found.demand) = true
    · rw [if_pos hused]
      have hcleared : cleared (space.entry page) = zeroEntry := by
        unfold cleared
        rw [hfound, if_pos hused]
      rw [hcleared, hfound]
      by_cases hfree : (found.present && !found.cow) = true
      · rw [if_pos hfree, if_pos hfree]
        obtain ⟨hcontents, -, hfreed⟩ := setEntry_same (space.frameFree found.frame) page zeroEntry
        have htable : ((space.frameFree found.frame).table (page / 1024)).isSome := htable
        exact ⟨fun other ↦ entry_setEntry htable zeroEntry other, hcontents, hfreed⟩
      · rw [if_neg hfree, if_neg hfree]
        obtain ⟨hcontents, -, hfreed⟩ := setEntry_same space page zeroEntry
        exact ⟨fun other ↦ entry_setEntry htable zeroEntry other, hcontents, hfreed⟩
    · rw [if_neg hused]
      have hunused : cleared (space.entry page) = space.entry page := by
        unfold cleared
        rw [hfound, if_neg hused]
      have hpresent : found.present = false := by
        simp only [Bool.or_eq_true, not_or, Bool.not_eq_true] at hused
        exact hused.1.1
      exact ⟨fun other ↦ hself other hunused, rfl, by rw [hfound, hpresent]; rfl⟩

/-- What the loop over a shrinking heap does. -/
theorem unmapPages_spec (hnodup : pages.Nodup) (space : UserSpace) :
    (∀ page, (unmapPages pages space).entry page =
        if page ∈ pages then cleared (space.entry page) else space.entry page) ∧
      (unmapPages pages space).contents = space.contents ∧
      ∃ given, (unmapPages pages space).freed = given ++ space.freed ∧
        ∀ frame, frame ∈ given ↔ ∃ page ∈ pages, (space.entry page).present = true ∧
          (space.entry page).cow = false ∧ (space.entry page).frame = frame := by
  induction pages generalizing space with
  | nil => exact ⟨fun _ ↦ rfl, rfl, [], rfl, by simp⟩
  | cons first pages ih =>
    obtain ⟨hnot, hnodup⟩ := List.nodup_cons.mp hnodup
    obtain ⟨hfirst, hfirstContents, hfirstFreed⟩ := unmapPage_spec space first
    obtain ⟨hrest, hrestContents, given, hgiven, hframes⟩ := ih hnodup (space.unmapPage first).2
    have hother (page : ℕ) (hpage : page ∈ pages) :
        (space.unmapPage first).2.entry page = space.entry page := by
      rw [hfirst, if_neg fun heq : page = first ↦ hnot (heq ▸ hpage)]
    refine ⟨fun page ↦ ?_, hrestContents.trans hfirstContents, ?_⟩
    · change (unmapPages pages (space.unmapPage first).2).entry page = _
      rw [hrest]
      by_cases hpages : page ∈ pages
      · rw [if_pos hpages, if_pos (List.mem_cons_of_mem first hpages), hother page hpages]
      · rw [if_neg hpages, hfirst]
        by_cases heq : page = first
        · simp [heq]
        · simp [hpages, heq]
    · have hlater (frame : ℕ) : frame ∈ given ↔ ∃ page ∈ pages,
          (space.entry page).present = true ∧ (space.entry page).cow = false ∧
            (space.entry page).frame = frame := by
        rw [hframes]
        refine exists_congr fun page ↦ and_congr_right fun hpage ↦ ?_
        rw [hother page hpage]
      rw [hfirstFreed] at hgiven
      by_cases hfree : ((space.entry first).present && !(space.entry first).cow) = true
      · rw [if_pos hfree] at hgiven
        refine ⟨given ++ [(space.entry first).frame], ?_, fun frame ↦ ?_⟩
        · rw [List.append_assoc]
          exact hgiven
        rw [Bool.and_eq_true, Bool.not_eq_true'] at hfree
        simp only [List.mem_append, List.mem_singleton, hlater, List.exists_mem_cons_iff, hfree.1,
          hfree.2, true_and]
        rw [or_comm, eq_comm]
      · rw [if_neg hfree] at hgiven
        refine ⟨given, hgiven, fun frame ↦ ?_⟩
        rw [Bool.and_eq_true, Bool.not_eq_true'] at hfree
        rw [hlater, List.exists_mem_cons_iff, ← and_assoc]
        exact (or_iff_right fun hsome ↦ hfree hsome.1).symm

/-! ### A successful call -/

/-- What a page that the loop came to holds afterwards. -/
def restEntry (space : UserSpace) (newBreak page : ℕ) : Entry :=
  if space.heapBreak < newBreak then demandEntry else cleared (space.entry page)

theorem restEntry_present (space : UserSpace) (newBreak page : ℕ) :
    (restEntry space newBreak page).present = false := by
  unfold restEntry cleared
  split
  · rfl
  · split
    · rfl
    · next hunused =>
      simp only [Bool.or_eq_true, not_or, Bool.not_eq_true] at hunused
      exact hunused.1.1

/-- What a successful call does. -/
theorem vmmBrk_spec (hsuccess : (vmmBrk space newBreak).1 = true) :
    USER_HEAP_BASE ≤ newBreak ∧ newBreak < USER_HEAP_END ∧
      (vmmBrk space newBreak).2.heapBreak = newBreak ∧
      (∀ page, (vmmBrk space newBreak).2.entry page =
        if page ∈ stepped space newBreak then restEntry space newBreak page
        else space.entry page) ∧
      (vmmBrk space newBreak).2.contents = space.contents ∧
      ∃ given, (vmmBrk space newBreak).2.freed = given ++ space.freed ∧
        ∀ frame, frame ∈ given ↔ newBreak < space.heapBreak ∧ ∃ page ∈ stepped space newBreak,
          (space.entry page).present = true ∧ (space.entry page).cow = false ∧
            (space.entry page).frame = frame := by
  unfold vmmBrk at hsuccess ⊢
  split at hsuccess
  · exact absurd hsuccess (by simp)
  · next hrange =>
    obtain ⟨hbase, hend⟩ := not_or.mp hrange
    rw [if_neg hrange]
    refine ⟨Nat.le_of_not_lt hbase, Nat.lt_of_not_le hend, ?_⟩
    unfold stepped restEntry
    rcases Nat.lt_trichotomy space.heapBreak newBreak with hgrow | heq | hshrink
    · rw [if_pos hgrow] at hsuccess ⊢
      rw [Nat.min_eq_left hgrow.le, Nat.max_eq_right hgrow.le]
      split at hsuccess
      · exact absurd hsuccess (by simp)
      · next marked hmarked =>
        obtain ⟨hentry, hcontents, hfreed⟩ := markDemand_spec hmarked
        refine ⟨rfl, fun page ↦ ?_, hcontents, [], hfreed, fun frame ↦ ?_⟩
        · rw [if_pos hgrow]
          exact hentry page
        · simp [hgrow.le]
    · have hpages :
          pagesFrom (min space.heapBreak newBreak) (max space.heapBreak newBreak) = [] := by
        rw [heq, Nat.min_self, Nat.max_self]
        unfold pagesFrom
        rw [Nat.sub_self]
        rfl
      rw [if_neg heq.not_lt, if_neg heq.not_gt, hpages]
      exact ⟨rfl, fun _ ↦ rfl, rfl, [], rfl, by simp⟩
    · rw [if_neg hshrink.le.not_gt, if_pos hshrink]
      rw [Nat.min_eq_right hshrink.le, Nat.max_eq_left hshrink.le]
      obtain ⟨hentry, hcontents, given, hgiven, hframes⟩ :=
        unmapPages_spec (nodup_pagesFrom newBreak space.heapBreak) space
      refine ⟨rfl, fun page ↦ ?_, hcontents, given, hgiven, fun frame ↦ ?_⟩
      · rw [if_neg hshrink.le.not_gt]
        exact hentry page
      · rw [hframes]
        exact (and_iff_right hshrink).symm

theorem mem_stepped_of_lt (hva : va < min space.heapBreak newBreak) :
    va / 4096 ∈ stepped space newBreak ↔
      space.heapBreak ≠ newBreak ∧ va / 4096 = min space.heapBreak newBreak / 4096 := by
  unfold stepped
  rw [mem_pagesFrom]
  omega

section

variable (hsuccess : (vmmBrk space newBreak).1 = true)

include hsuccess

/-- A page that the loop came to reads as zero below the new break. -/
theorem read_stepped (hbase : USER_HEAP_BASE ≤ va)
    (hva : va < newBreak) (hstepped : va / 4096 ∈ stepped space newBreak) :
    (vmmBrk space newBreak).2.read va = some 0 := by
  obtain ⟨-, -, hbreak, hentry, -, -⟩ := vmmBrk_spec hsuccess
  have hrest := hentry (va / 4096)
  rw [if_pos hstepped] at hrest
  unfold restEntry at hrest
  split at hrest
  · unfold UserSpace.read
    rw [hrest]
    rfl
  · have hgrowing : (vmmBrk space newBreak).2.Growing va := .inr ⟨hbase, by rw [hbreak]; exact hva⟩
    unfold cleared at hrest
    split at hrest
    · rw [read_of_empty (by rw [hrest]; rfl) (by rw [hrest]; rfl) (by rw [hrest]; rfl),
        if_pos hgrowing]
    · next hunused =>
      simp only [Bool.or_eq_true, not_or, Bool.not_eq_true] at hunused
      rw [read_of_empty (by rw [hrest]; exact hunused.1.1) (by rw [hrest]; exact hunused.2)
        (by rw [hrest]; exact hunused.1.2), if_pos hgrowing]

theorem read_kept
    (hva : va < min space.heapBreak newBreak) (hstepped : va / 4096 ∉ stepped space newBreak) :
    (vmmBrk space newBreak).2.read va = space.read va := by
  obtain ⟨-, -, hbreak, hentry, hcontents, -⟩ := vmmBrk_spec hsuccess
  obtain ⟨hold, hnew⟩ := Nat.lt_min.mp hva
  refine read_congr (by rw [hentry, if_neg hstepped]) (by rw [hcontents]) ?_
  unfold Growing
  rw [hbreak]
  exact or_congr_right (and_congr_right fun _ ↦ iff_of_true hnew hold)

/-- The kept bytes read as before exactly where those in the page of the lower break are zero. -/
theorem bytes_iff :
    (∀ va, USER_HEAP_BASE ≤ va → va < min space.heapBreak newBreak →
        (vmmBrk space newBreak).2.read va = space.read va) ↔
      (space.heapBreak ≠ newBreak → ∀ va, USER_HEAP_BASE ≤ va →
        va < min space.heapBreak newBreak → va / 4096 = min space.heapBreak newBreak / 4096 →
          space.read va = some 0) := by
  constructor
  · intro hbytes hmoved va hbase hva hpage
    rw [← hbytes va hbase hva]
    exact read_stepped hsuccess hbase (hva.trans_le (Nat.min_le_right ..))
      ((mem_stepped_of_lt hva).mpr ⟨hmoved, hpage⟩)
  · intro hzero va hbase hva
    by_cases hstepped : va / 4096 ∈ stepped space newBreak
    · obtain ⟨hmoved, hpage⟩ := (mem_stepped_of_lt hva).mp hstepped
      rw [hzero hmoved va hbase hva hpage]
      exact read_stepped hsuccess hbase (hva.trans_le (Nat.min_le_right ..)) hstepped
    · exact read_kept hsuccess hva hstepped

/-- The frames that are mapped after a call. -/
theorem mapped_vmmBrk (frame : ℕ) :
    Mapped (vmmBrk space newBreak).2 frame ↔ ∃ page ∉ stepped space newBreak, HeapPage page ∧
      (space.entry page).present = true ∧ (space.entry page).frame = frame := by
  obtain ⟨-, -, -, hentry, -, -⟩ := vmmBrk_spec hsuccess
  refine exists_congr fun page ↦ ?_
  by_cases hstepped : page ∈ stepped space newBreak
  · simp [hentry, hstepped, restEntry_present]
  · simp [hentry, hstepped]

/-- Frames are lost exactly where a page that the loop comes to is the only one to hold one, and
does not give it back. -/
theorem frames_iff :
    (∀ frame, Mapped space frame → ¬Mapped (vmmBrk space newBreak).2 frame →
        ∃ given, (vmmBrk space newBreak).2.freed = given ++ space.freed ∧ frame ∈ given) ↔
      ∀ page ∈ stepped space newBreak, HeapPage page → (space.entry page).present = true →
        (∃ other ∉ stepped space newBreak, HeapPage other ∧ (space.entry other).present = true ∧
          (space.entry other).frame = (space.entry page).frame) ∨
        newBreak < space.heapBreak ∧ ∃ other ∈ stepped space newBreak,
          (space.entry other).present = true ∧ (space.entry other).cow = false ∧
            (space.entry other).frame = (space.entry page).frame := by
  obtain ⟨-, -, -, -, -, given, hgiven, hframes⟩ := vmmBrk_spec hsuccess
  simp only [← mapped_vmmBrk hsuccess, ← hframes]
  constructor
  · intro hfreed page _ hheap hpresent
    by_cases hmapped : Mapped (vmmBrk space newBreak).2 (space.entry page).frame
    · exact .inl hmapped
    · obtain ⟨other, hother, hmem⟩ := hfreed _ ⟨page, hheap, hpresent, rfl⟩ hmapped
      obtain rfl := List.append_cancel_right (hgiven.symm.trans hother)
      exact .inr hmem
  · rintro hlost frame ⟨page, hheap, hpresent, rfl⟩ hnot
    refine ⟨given, hgiven, ?_⟩
    by_cases hstepped : page ∈ stepped space newBreak
    · exact (hlost page hstepped hheap hpresent).resolve_left hnot
    · exact absurd ((mapped_vmmBrk hsuccess _).mpr ⟨page, hstepped, hheap, hpresent, rfl⟩) hnot

/-- A successful call keeps the heap exactly where it is harmless. -/
theorem kept_iff_harmless :
    Kept space newBreak ↔ Harmless space newBreak := by
  constructor
  · rintro ⟨hbytes, hframes⟩
    exact ⟨(bytes_iff hsuccess).mp hbytes, (frames_iff hsuccess).mp hframes⟩
  · rintro ⟨hzero, hframes⟩
    exact ⟨(bytes_iff hsuccess).mpr hzero, (frames_iff hsuccess).mpr hframes⟩

end

/-! ### Runs -/

/-- What happens to an address space. -/
inductive Event where
  | brk (newBreak : ℕ)
  | fault (isWrite : Bool) (faultAddr : ℕ)
  | store (va : ℕ) (byte : UInt8)
  | swapOut (page slot : ℕ)

/-- What an event does; a segmentation fault ends the run. -/
def step (space : UserSpace) : Event → Option UserSpace
  | .brk newBreak => some (vmmBrk space newBreak).2
  | .fault isWrite faultAddr => space.fault isWrite faultAddr
  | .store va byte => some (space.store va byte)
  | .swapOut page slot => some (space.swapOut page slot)

/-- Each successful call of `vmm_brk` in a run meets a condition in the state before it. -/
def EachBrk (condition : UserSpace → ℕ → Prop) (space : UserSpace) (events : List Event) : Prop :=
  ∀ earlier newBreak later reached, events = earlier ++ .brk newBreak :: later →
    runLabels step space earlier = some reached → (vmmBrk reached newBreak).1 = true →
      condition reached newBreak

/-- From every address space, the calls of `vmm_brk` in a run keep the heap exactly where each of
them is harmless. -/
theorem kept_iff (space : UserSpace) (events : List Event) :
    EachBrk Kept space events ↔ EachBrk Harmless space events := by
  constructor
  · intro hkept earlier newBreak later reached hevents hreached hsuccess
    exact (kept_iff_harmless hsuccess).mp (hkept _ _ _ _ hevents hreached hsuccess)
  · intro hharmless earlier newBreak later reached hevents hreached hsuccess
    exact (kept_iff_harmless hsuccess).mpr (hharmless _ _ _ _ hevents hreached hsuccess)

/-- An address space without tables, with frames to come. -/
def freshSpace : UserSpace :=
  { table := fun _ ↦ none
    contents := fun _ _ ↦ 0
    heapBreak := USER_HEAP_BASE
    stackBottom := USER_STACK_TOP - 4096
    frames := [300, 301, 302, 303]
    swapReads := []
    freed := [] }

/-- A heap of 16 bytes is touched, written and then grown: the byte that was written reads as zero
afterwards. -/
theorem not_kept : ¬EachBrk Kept freshSpace
    [.brk 0x40000010, .fault true 0x40000000, .store 0x40000000 7, .brk 0x40002000] := by
  intro hkept
  have hbytes := (hkept [.brk 0x40000010, .fault true 0x40000000, .store 0x40000000 7] 0x40002000 []
    _ rfl rfl (by decide)).bytes 0x40000000 (by decide) (by decide)
  revert hbytes
  decide

/-! ### Runs in which all breaks are starts of pages -/

/-- The heap ends at the start of a page, its pages are its own, and those behind its end are not in
use. -/
structure Clean (space : UserSpace) : Prop where
  aligned : space.heapBreak % 4096 = 0
  unused : ∀ page, HeapPage page → space.heapBreak ≤ 4096 * page →
    (space.entry page).present = false ∧ (space.entry page).demand = false ∧
      (space.entry page).swapped = false
  own : ∀ page, HeapPage page → (space.entry page).cow = false

theorem page_ne_of_aligned (hold : space.heapBreak % 4096 = 0) (hnew : newBreak % 4096 = 0)
    (hva : va < min space.heapBreak newBreak) :
    va / 4096 ≠ min space.heapBreak newBreak / 4096 := by
  omega

/-- A call with the start of a page is harmless. -/
theorem Clean.harmless (hclean : Clean space) (haligned : newBreak % 4096 = 0) :
    Harmless space newBreak where
  zero _ va _ hva hpage := absurd hpage (page_ne_of_aligned hclean.aligned haligned hva)
  frames page hstepped hheap hpresent := by
    have hold := hclean.aligned
    have hstep := mem_pagesFrom.mp hstepped
    rcases Nat.lt_or_ge newBreak space.heapBreak with hshrink | hgrow
    · exact .inr ⟨hshrink, page, hstepped, hpresent, hclean.own page hheap, rfl⟩
    · rw [(hclean.unused page hheap (by omega)).1] at hpresent
      exact Bool.noConfusion hpresent

/-- A successful call with the start of a page. -/
theorem Clean.brk (hclean : Clean space) (haligned : newBreak % 4096 = 0)
    (hsuccess : (vmmBrk space newBreak).1 = true) : Clean (vmmBrk space newBreak).2 := by
  obtain ⟨-, -, hbreak, hentry, -, -⟩ := vmmBrk_spec hsuccess
  have hold := hclean.aligned
  refine ⟨by rw [hbreak, haligned], fun page hheap hle ↦ ?_, fun page hheap ↦ ?_⟩
  · rw [hbreak] at hle
    rw [hentry]
    by_cases hstepped : page ∈ stepped space newBreak
    · have hstep := mem_pagesFrom.mp hstepped
      rw [if_pos hstepped]
      unfold restEntry
      rw [if_neg (by omega)]
      unfold cleared
      split
      · exact ⟨rfl, rfl, rfl⟩
      · next hunused =>
        simp only [Bool.or_eq_true, not_or, Bool.not_eq_true] at hunused
        exact ⟨hunused.1.1, hunused.2, hunused.1.2⟩
    · rw [if_neg hstepped]
      have hnot := mt mem_pagesFrom.mpr hstepped
      exact hclean.unused page hheap (by omega)
  · rw [hentry]
    split
    · unfold restEntry cleared
      split
      · rfl
      · split
        · rfl
        · exact hclean.own page hheap
    · exact hclean.own page hheap

theorem Clean.fault (hclean : Clean space) {isWrite : Bool} {faultAddr : ℕ}
    (hfault : space.fault isWrite faultAddr = some after) : Clean after := by
  have hresolves := resolves_fault hfault
  have hold := hclean.aligned
  refine ⟨by rw [hresolves.heapBreak, hold], fun page hheap hle ↦ ?_, fun page hheap ↦ ?_⟩
  · rw [hresolves.heapBreak] at hle
    have hunused := hclean.unused page hheap hle
    by_cases hpage : page = faultAddr / 4096
    · subst hpage
      rcases hresolves.used with hsame | hpresent | hdemand | hswapped | hstack | hgrow
      · rw [hsame]
        exact hunused
      · exact absurd (hpresent.symm.trans hunused.1) (by simp)
      · exact absurd (hdemand.symm.trans hunused.2.1) (by simp)
      · exact absurd (hswapped.symm.trans hunused.2.2) (by simp)
      · have hend : 4096 * (faultAddr / 4096) < 0x80000000 := hheap.2
        have hbase : 0xB0000000 ≤ faultAddr := hstack.1
        omega
      · omega
    · rw [hresolves.entry page hpage]
      exact hunused
  · by_cases hpage : page = faultAddr / 4096
    · subst hpage
      exact Bool.eq_false_of_not_eq_true fun hcow ↦
        Bool.noConfusion ((hresolves.cow hcow).symm.trans (hclean.own _ hheap))
    · rw [hresolves.entry page hpage]
      exact hclean.own page hheap

theorem table_of_present (hpresent : (space.entry page).present = true) :
    (space.table (page / 1024)).isSome := by
  cases hlookup : space.lookup page with
  | none =>
    unfold entry at hpresent
    rw [hlookup] at hpresent
    exact absurd hpresent (by decide)
  | some found => exact (lookup_eq_some hlookup).2

theorem Clean.swapOut (hclean : Clean space) (page slot : ℕ) : Clean (space.swapOut page slot) := by
  unfold UserSpace.swapOut
  split
  · next hpresent =>
    have hbreak := (setEntry_same space page
      { toFlags := { noFlags with
          swapped := true
          user := (space.entry page).user
          rw := (space.entry page).rw }
        frame := slot }).2.1
    have htable := table_of_present hpresent.1
    refine ⟨by rw [hbreak, hclean.aligned], fun other hheap hle ↦ ?_, fun other hheap ↦ ?_⟩
    · rw [hbreak] at hle
      have hunused := hclean.unused other hheap hle
      have hother : other ≠ page := by
        rintro rfl
        exact absurd (hpresent.1.symm.trans hunused.1) (by simp)
      rw [entry_setEntry htable, if_neg hother]
      exact hunused
    · rw [entry_setEntry htable]
      split
      · rfl
      · exact hclean.own other hheap
  · exact hclean

theorem Clean.store (hclean : Clean space) (va : ℕ) (byte : UInt8) :
    Clean (space.store va byte) := by
  unfold UserSpace.store
  split
  · exact ⟨hclean.aligned, hclean.unused, hclean.own⟩
  · exact hclean

/-- A call of `vmm_brk` succeeds and its break is the start of a page. -/
def Orderly (space : UserSpace) : Event → Prop
  | .brk newBreak => newBreak % 4096 = 0 ∧ (vmmBrk space newBreak).1 = true
  | _ => True

instance (space : UserSpace) : (event : Event) → Decidable (Orderly space event)
  | .brk _ => inferInstanceAs (Decidable (_ ∧ _))
  | .fault .. | .store .. | .swapOut .. => isTrue trivial

theorem Clean.step (hclean : Clean space) {event : Event} (horderly : Orderly space event)
    (hstep : step space event = some after) : Clean after := by
  cases event with
  | brk newBreak =>
    obtain rfl := Option.some.inj hstep
    exact hclean.brk horderly.1 horderly.2
  | fault isWrite faultAddr => exact hclean.fault hstep
  | store va byte =>
    obtain rfl := Option.some.inj hstep
    exact hclean.store va byte
  | swapOut page slot =>
    obtain rfl := Option.some.inj hstep
    exact hclean.swapOut page slot

/-- From a clean address space, as long as all breaks are starts of pages and no call fails, every
call of `vmm_brk` keeps the heap. -/
theorem kept_of_aligned (hclean : Clean space) {events : List Event} {reached : UserSpace}
    (hrun : Run (Guarded Orderly (Fires step)) space events reached)
    (haligned : newBreak % 4096 = 0) (hsuccess : (vmmBrk reached newBreak).1 = true) :
    Kept reached newBreak := by
  have hreached : Clean reached := hrun.guarded_invariant
    (fun _ _ _ hbefore horderly hstep ↦ hbefore.step horderly hstep) hclean
  exact (kept_iff_harmless hsuccess).mpr (hreached.harmless haligned)

theorem clean_freshSpace {heapBreak : ℕ} (haligned : heapBreak % 4096 = 0) :
    Clean { freshSpace with heapBreak := heapBreak } :=
  ⟨haligned, fun _ _ _ ↦ ⟨rfl, rfl, rfl⟩, fun _ _ ↦ rfl⟩

/-- A heap of a page that is written grows by two pages. -/
theorem kept_of_aligned_grown : ∃ reached,
    Run (Guarded Orderly (Fires step)) freshSpace
      [.brk 0x40001000, .fault true 0x40000000, .store 0x40000000 7] reached ∧
        Kept reached 0x40003000 := by
  have hrun : Run (Guarded Orderly (Fires step)) freshSpace
      [.brk 0x40001000, .fault true 0x40000000, .store 0x40000000 7] _ :=
    .of_allowed_fires (by decide)
  exact ⟨_, hrun, kept_of_aligned (clean_freshSpace (by decide)) hrun rfl (by decide)⟩

theorem read_swapOut {byte : UInt8} (hread : space.read va = some byte) (page slot : ℕ) :
    (space.swapOut page slot).read va = some byte := by
  unfold UserSpace.swapOut
  split
  · next hpresent =>
    by_cases hva : va / 4096 = page
    · subst hva
      have huser : (space.entry (va / 4096)).user = true := by
        by_contra hnot
        unfold UserSpace.read at hread
        simp [hpresent.1, hnot] at hread
      rw [read_of_present hpresent.1 huser] at hread
      unfold UserSpace.read
      rw [entry_setEntry (table_of_present hpresent.1), if_pos rfl, (setEntry_same _ _ _).1]
      simpa [noFlags, huser, hpresent.2] using hread
    · rw [(concerns_setEntry space page _).read hva, hread]
  · exact hread

/-- Another byte is stored. -/
theorem read_store {byte : UInt8} (hread : space.read va = some byte) {other : ℕ} (hne : other ≠ va)
    (value : UInt8) : (space.store other value).read va = some byte := by
  unfold UserSpace.store
  split
  · rw [← hread]
    by_cases hpage : va / 4096 = other / 4096
    · have hoffset : va % 4096 ≠ other % 4096 := by omega
      unfold UserSpace.read
      dsimp only
      rw [hpage, Function.update_self, Function.update_of_ne hoffset]
      rfl
    · exact read_congr rfl (Function.update_of_ne hpage _ _) Iff.rfl
  · exact hread

/-- An event neither stores to an address nor moves the break below it. -/
def Spares (va : ℕ) : Event → Prop
  | .brk newBreak => va < newBreak
  | .store other _ => other ≠ va
  | _ => True

/-- An address space whose heap ends at the start of a page, with a byte of its heap. -/
structure Keeps (va : ℕ) (byte : UInt8) (space : UserSpace) : Prop where
  aligned : space.heapBreak % 4096 = 0
  below : va < space.heapBreak
  read : space.read va = some byte

theorem Keeps.congr {byte : UInt8} (hkeeps : Keeps va byte space)
    (hbreak : after.heapBreak = space.heapBreak) (hread : after.read va = some byte) :
    Keeps va byte after :=
  ⟨hbreak ▸ hkeeps.aligned, hbreak ▸ hkeeps.below, hread⟩

/-- A step that spares the byte. -/
theorem Keeps.step {byte : UInt8} (hkeeps : Keeps va byte space) (hbase : USER_HEAP_BASE ≤ va)
    {event : Event} (horderly : Orderly space event) (hspares : Spares va event)
    (hstep : HeapBreak.step space event = some after) : Keeps va byte after := by
  cases event with
  | brk newBreak =>
    obtain rfl := Option.some.inj hstep
    have hbreak := (vmmBrk_spec horderly.2).2.2.1
    refine ⟨by rw [hbreak, horderly.1], by rw [hbreak]; exact hspares, ?_⟩
    have hbytes := (bytes_iff horderly.2).mpr fun _ _ _ hva hpage ↦
      absurd hpage (page_ne_of_aligned hkeeps.aligned horderly.1 hva)
    rw [hbytes va hbase (Nat.lt_min.mpr ⟨hkeeps.below, hspares⟩), hkeeps.read]
  | fault isWrite faultAddr =>
    exact hkeeps.congr (resolves_fault hstep).heapBreak (read_fault hstep hkeeps.read)
  | store other value =>
    obtain rfl := Option.some.inj hstep
    refine hkeeps.congr ?_ (read_store hkeeps.read hspares value)
    unfold UserSpace.store
    split <;> rfl
  | swapOut page slot =>
    obtain rfl := Option.some.inj hstep
    refine hkeeps.congr ?_ (read_swapOut hkeeps.read page slot)
    unfold UserSpace.swapOut
    split
    · exact (setEntry_same _ _ _).2.1
    · rfl

instance (va : ℕ) : (event : Event) → Decidable (Spares va event)
  | .brk _ => inferInstanceAs (Decidable (_ < _))
  | .store .. => inferInstanceAs (Decidable (_ ≠ _))
  | .fault .. | .swapOut .. => isTrue trivial

/-- A page of a forked program, of which it still shares the frame. -/
def forkedSpace : UserSpace :=
  { freshSpace with
    table := fun index ↦ if index = 0x100 then
      some fun _ ↦
        { toFlags := { noFlags with present := true, user := true, cow := true }, frame := 77 }
      else none
    contents := fun _ _ ↦ 5
    heapBreak := 0x40001000 }

end EynOS.Memory.HeapBreak
