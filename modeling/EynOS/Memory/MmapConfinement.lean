import EynOS.Memory.Mmap
import Mathlib.Data.List.Nodup

/-!
# Where `SYSCALL_MMAP` maps pages

`not_mmap_confined` maps a page above `USER_SHARED_END`: only the start of a range is compared with
the end of the region. `mmap_confined` is when every call maps only pages of the region that were
not mapped, returns disjoint ranges for the address 0, and changes nothing where it fails: where a
call with an address reaches only such pages before it ends, and one without an address finds its
whole range below the end and free and everything that it asks for.
-/

namespace EynOS.Memory.Mmap

open Foundation Foundation.Noted
open Vmm (Entry zeroEntry pdeIndex pteIndex)

variable {state before start middle next : State} {call : Call} {space other va address target : ℕ}
  {done vas : List ℕ}

/-! ### Entries -/

theorem index_eq_iff : pdeIndex address = pdeIndex va ∧ pteIndex address = pteIndex va ↔
    address / PAGE_SIZE = va / PAGE_SIZE := by
  unfold pdeIndex pteIndex PAGE_SIZE
  omega

theorem entry_congr (hpage : address / PAGE_SIZE = va / PAGE_SIZE) :
    state.entry space address = state.entry space va := by
  obtain ⟨hpde, hpte⟩ := index_eq_iff.mpr hpage
  unfold State.entry State.table
  rw [hpde, hpte]

/-- The page tables after one was put under a directory index. -/
theorem table_setTable (entries : ℕ → Entry) :
    (state.setTable space va entries).table other address =
      if other = space ∧ pdeIndex address = pdeIndex va then
        (state.spaces space).map fun _ ↦ entries
      else state.table other address := by
  unfold State.table State.setTable
  by_cases hspace : other = space
  · subst hspace
    simp only [Function.update_self, true_and]
    cases hspaces : state.spaces other with
    | none => simp
    | some tables =>
      by_cases hpde : pdeIndex address = pdeIndex va
      · rw [if_pos hpde, hpde]
        simp
      · rw [if_neg hpde]
        simp [Function.update_of_ne hpde]
  · rw [if_neg fun h ↦ hspace h.1]
    simp only [Function.update_of_ne hspace]

/-- An address with a page table is in an address space. -/
theorem isSome_space (htable : (state.table space va).isSome) : (state.spaces space).isSome := by
  unfold State.table at htable
  cases hspaces : state.spaces space with
  | none =>
    rw [hspaces] at htable
    exact htable
  | some tables => rfl

theorem not_mapped_zeroEntry : ¬Mapped zeroEntry := by decide

theorem Mapped.table (hmapped : Mapped (state.entry space va)) :
    (state.table space va).isSome := by
  unfold State.entry at hmapped
  cases htable : state.table space va with
  | none =>
    rw [htable] at hmapped
    exact absurd hmapped not_mapped_zeroEntry
  | some entries => rfl

/-- Storing an entry keeps the page tables. -/
theorem table_setEntry (entry : Entry) :
    ((state.setEntry space va entry).table other address).isSome =
      (state.table other address).isSome := by
  unfold State.setEntry
  cases htable : state.table space va with
  | none => rfl
  | some entries =>
    simp only [table_setTable]
    by_cases hsame : other = space ∧ pdeIndex address = pdeIndex va
    · have hspace : (state.spaces space).isSome :=
        isSome_space (by rw [htable]; rfl)
      have haddress : state.table other address = state.table space va := by
        unfold State.table
        rw [hsame.1, hsame.2]
      rw [if_pos hsame, haddress, htable, Option.isSome_map, hspace]
      rfl
    · rw [if_neg hsame]

/-- The entries after one was stored. -/
theorem entry_setEntry (htable : (state.table space va).isSome) (entry : Entry) :
    (state.setEntry space va entry).entry other address =
      if other = space ∧ address / PAGE_SIZE = va / PAGE_SIZE then entry
      else state.entry other address := by
  obtain ⟨tables, htables⟩ := Option.isSome_iff_exists.mp (isSome_space htable)
  obtain ⟨entries, hentries⟩ := Option.isSome_iff_exists.mp htable
  unfold State.setEntry State.entry
  rw [hentries]
  simp only [table_setTable, htables, Option.map_some]
  by_cases hpde : other = space ∧ pdeIndex address = pdeIndex va
  · rw [if_pos hpde]
    simp only [Function.update_apply]
    have haddress : state.table other address = some entries := by
      rw [← hentries]
      unfold State.table
      rw [hpde.1, hpde.2]
    rw [haddress]
    refine if_congr ?_ rfl rfl
    rw [← index_eq_iff]
    exact ⟨fun hpte ↦ ⟨hpde.1, hpde.2, hpte⟩, fun h ↦ h.2.2⟩
  · rw [if_neg hpde, if_neg]
    exact fun h ↦ hpde ⟨h.1, (index_eq_iff.mpr h.2).1⟩

theorem spaces_setEntry (entry : Entry) :
    ((state.setEntry space va entry).spaces other).isSome = (state.spaces other).isSome := by
  unfold State.setEntry
  cases state.table space va with
  | none => rfl
  | some entries =>
    by_cases hspace : other = space
    · subst hspace
      simp [State.setTable]
    · simp [State.setTable, Function.update_of_ne hspace]

/-- Storing an entry leaves `g_next_fd_mmap_va` alone. -/
theorem next_setEntry (entry : Entry) :
    (state.setEntry space va entry).nextFdMmapVa = state.nextFdMmapVa := by
  unfold State.setEntry
  cases state.table space va <;> rfl

/-- A new page table is empty, as what is not there was. -/
theorem entry_setTable (htable : state.table space va = none) :
    (state.setTable space va fun _ ↦ zeroEntry).entry other address =
      state.entry other address := by
  unfold State.entry
  rw [table_setTable]
  by_cases hsame : other = space ∧ pdeIndex address = pdeIndex va
  · have haddress : state.table other address = none := by
      rw [← htable]
      unfold State.table
      rw [hsame.1, hsame.2]
    rw [if_pos hsame, haddress]
    cases state.spaces space <;> rfl
  · rw [if_neg hsame]

theorem spaces_setTable (entries : ℕ → Entry) :
    ((state.setTable space va entries).spaces other).isSome = (state.spaces other).isSome := by
  by_cases hspace : other = space
  · subst hspace
    simp [State.setTable]
  · simp [State.setTable, Function.update_of_ne hspace]

/-! ### What swapping out leaves -/

/-- An entry stays, or its page goes to a swap slot. -/
def Retained (entry later : Entry) : Prop :=
  later = entry ∨ entry.present = true ∧ ∃ slot, later = swappedTo entry slot

/-- A mapped page is retained, and one that is not mapped stays so. -/
def Alike (entry later : Entry) : Prop :=
  (Mapped entry → Retained entry later) ∧ (¬Mapped entry → ¬Mapped later)

variable {entry later last : Entry}

theorem Retained.mapped_iff (hretained : Retained entry later) :
    Mapped later ↔ Mapped entry := by
  rcases hretained with rfl | ⟨hpresent, slot, rfl⟩
  · exact Iff.rfl
  · exact ⟨fun _ ↦ Or.inl hpresent, fun _ ↦ Or.inr (Or.inl rfl)⟩

theorem Retained.trans (hfirst : Retained entry later) (hsecond : Retained later last) :
    Retained entry last := by
  rcases hsecond with rfl | ⟨hlater, slot, rfl⟩
  · exact hfirst
  · rcases hfirst with rfl | ⟨hpresent, other, rfl⟩
    · exact Or.inr ⟨hlater, slot, rfl⟩
    · exact absurd hlater Bool.false_ne_true

theorem Alike.refl (entry : Entry) : Alike entry entry := ⟨fun _ ↦ Or.inl rfl, id⟩

theorem Alike.retained (halike : Alike entry later) (hretained : Retained later last) :
    Alike entry last :=
  ⟨fun hmapped ↦ (halike.1 hmapped).trans hretained,
    fun hfree hlast ↦ halike.2 hfree (hretained.mapped_iff.mp hlast)⟩

/-- Only pages were swapped out. -/
structure Unmoved (before state : State) : Prop where
  entries : ∀ space va, Retained (before.entry space va) (state.entry space va)
  tables : ∀ space va, (state.table space va).isSome = (before.table space va).isSome
  spaces : ∀ space, (state.spaces space).isSome = (before.spaces space).isSome
  next : state.nextFdMmapVa = before.nextFdMmapVa

theorem Unmoved.refl (state : State) : Unmoved state state :=
  ⟨fun _ _ ↦ Or.inl rfl, fun _ _ ↦ rfl, fun _ ↦ rfl, rfl⟩

theorem Unmoved.trans (hfirst : Unmoved before middle) (hsecond : Unmoved middle state) :
    Unmoved before state where
  entries := fun space va ↦ (hfirst.entries space va).trans (hsecond.entries space va)
  tables := fun space va ↦ (hsecond.tables space va).trans (hfirst.tables space va)
  spaces := fun space ↦ (hsecond.spaces space).trans (hfirst.spaces space)
  next := hsecond.next.trans hfirst.next

/-- Swapping one page out. -/
theorem unmoved_swapOut (eviction : Eviction) : Unmoved state (state.swapOut eviction) := by
  unfold State.swapOut
  by_cases hpresent : (state.entry eviction.space eviction.va).present = true
  · rw [if_pos hpresent]
    refine ⟨fun space va ↦ ?_, fun _ _ ↦ table_setEntry _, fun _ ↦ spaces_setEntry _,
      next_setEntry _⟩
    rw [entry_setEntry (Mapped.table (Or.inl hpresent))]
    by_cases hsame : space = eviction.space ∧ va / PAGE_SIZE = eviction.va / PAGE_SIZE
    · rw [if_pos hsame, hsame.1, entry_congr hsame.2]
      exact Or.inr ⟨hpresent, eviction.slot, rfl⟩
    · rw [if_neg hsame]
      exact Or.inl rfl
  · rw [if_neg hpresent]
    exact Unmoved.refl state

theorem unmoved_evictions (evicted : List Eviction) :
    ∀ state : State, Unmoved state (evicted.foldl State.swapOut state) := by
  induction evicted with
  | nil => exact Unmoved.refl
  | cons eviction evicted ih => exact fun state ↦ (unmoved_swapOut eviction).trans (ih _)

/-! ### Filling a range -/

/-- A page lies inside the region for shared memory. -/
def Inside (va : ℕ) : Prop :=
  USER_SHARED_BASE ≤ va / PAGE_SIZE * PAGE_SIZE ∧
    va / PAGE_SIZE * PAGE_SIZE + PAGE_SIZE ≤ USER_SHARED_END

instance (va : ℕ) : Decidable (Inside va) := inferInstanceAs (Decidable (_ ∧ _))

/-- The entry that is about to be written belongs to a page of the region that is not mapped. -/
def Note.Confined : Note → Prop
  | .mapping state space va => Inside va ∧ ¬Mapped (state.entry space va)

instance : (note : Note) → Decidable note.Confined
  | .mapping _ _ _ => inferInstanceAs (Decidable (_ ∧ _))

/-- A call that starts to map pages obtains everything for the page at an address. -/
def Call.obtains (call : Call) (reads : ℕ → Bool) (start : State) (va : ℕ) : Bool :=
  decide ((call.pageFrame va).frame ≠ 0) && reads va &&
    ((start.table call.space va).isSome || decide ((call.tableFrame (pdeIndex va)).frame ≠ 0))

/-- What holds when a call has mapped some pages since it started to. -/
structure Filling (start : State) (call : Call) (done : List ℕ) (state : State) : Prop where
  next : state.nextFdMmapVa = start.nextFdMmapVa
  spaces : ∀ space, (state.spaces space).isSome = (start.spaces space).isSome
  kept : ∀ space va, (start.table space va).isSome → (state.table space va).isSome
  created : ∀ va, (state.table call.space va).isSome →
    (start.table call.space va).isSome ∨ (call.tableFrame (pdeIndex va)).frame ≠ 0
  others : ∀ space va, ¬(space = call.space ∧ ∃ page ∈ done, va / PAGE_SIZE = page / PAGE_SIZE) →
    Alike (start.entry space va) (state.entry space va)
  filled : ∀ va ∈ done, Mapped (state.entry call.space va)

/-- Nothing is mapped when a call starts to. -/
theorem filling_start (start : State) (call : Call) : Filling start call [] start where
  next := rfl
  spaces := fun _ ↦ rfl
  kept := fun _ _ ↦ id
  created := fun _ ↦ Or.inl
  others := fun space va _ ↦ Alike.refl (start.entry space va)
  filled := fun _ hmem ↦ absurd hmem List.not_mem_nil

/-- Swapping pages out while a call maps some. -/
theorem Filling.unmoved (hfilling : Filling start call done before)
    (hunmoved : Unmoved before state) : Filling start call done state where
  next := hunmoved.next.trans hfilling.next
  spaces := fun space ↦ (hunmoved.spaces space).trans (hfilling.spaces space)
  kept := by
    intro space va hstart
    rw [hunmoved.tables]
    exact hfilling.kept space va hstart
  created := by
    intro va hstate
    rw [hunmoved.tables] at hstate
    exact hfilling.created va hstate
  others := fun space va hother ↦
    (hfilling.others space va hother).retained (hunmoved.entries space va)
  filled := fun va hva ↦ (hunmoved.entries call.space va).mapped_iff.mpr (hfilling.filled va hva)

/-- What an allocation does to the address spaces. -/
theorem leads_frameAlloc {promised : Note → Prop} (allocation : Allocation) :
    Leads (fun _ ↦ True) promised (frameAlloc allocation) state fun frame after ↦
      frame = allocation.frame ∧ Unmoved state after := by
  unfold frameAlloc
  rw [leads_bind, leads_change, leads_pure]
  exact ⟨rfl, unmoved_evictions allocation.evicted state⟩

section

variable (hfilling : Filling start call done state)

include hfilling

/-- A page table is created while a call maps pages. -/
theorem Filling.setTable (htable : state.table call.space va = none)
    (hframe : (call.tableFrame (pdeIndex va)).frame ≠ 0) :
    Filling start call done (state.setTable call.space va fun _ ↦ zeroEntry) where
  next := hfilling.next
  spaces := fun space ↦ (spaces_setTable _).trans (hfilling.spaces space)
  kept := by
    intro space address hstart
    have hnow := hfilling.kept space address hstart
    rw [table_setTable]
    by_cases hsame : space = call.space ∧ pdeIndex address = pdeIndex va
    · rw [if_pos hsame, Option.isSome_map, ← hsame.1]
      exact isSome_space hnow
    · rw [if_neg hsame]
      exact hnow
  created := by
    intro address hsome
    rw [table_setTable] at hsome
    by_cases hpde : pdeIndex address = pdeIndex va
    · rw [hpde]
      exact Or.inr hframe
    · rw [if_neg fun h ↦ hpde h.2] at hsome
      exact hfilling.created address hsome
  others := by
    intro space address hother
    rw [entry_setTable htable]
    exact hfilling.others space address hother
  filled := by
    intro page hpage
    rw [entry_setTable htable]
    exact hfilling.filled page hpage

/-- The page table for a page: found, or created where the allocator answers. -/
theorem Filling.walkPageTables
    {promised : Note → Prop} (hspace : (start.spaces call.space).isSome) (va : ℕ) :
    Leads (fun _ ↦ True) promised
      (walkPageTables call.space va (some (call.tableFrame (pdeIndex va)))) state
      fun found after ↦
        (found = true ↔ (start.table call.space va).isSome ∨
          (call.tableFrame (pdeIndex va)).frame ≠ 0) ∧
        Filling start call done after ∧ (found = true → (after.table call.space va).isSome) := by
  unfold Mmap.walkPageTables
  rw [leads_bind, leads_look]
  cases htable : state.table call.space va with
  | some entries =>
    rw [leads_pure]
    have hsome : (state.table call.space va).isSome := by
      rw [htable]
      rfl
    exact ⟨iff_of_true rfl (hfilling.created va hsome), hfilling, fun _ ↦ hsome⟩
  | none =>
    simp only
    rw [leads_bind]
    refine (leads_frameAlloc _).mono ?_
    rintro frame after ⟨rfl, hunmoved⟩
    have hafter := hfilling.unmoved hunmoved
    have hnone : after.table call.space va = none := by
      rw [← Option.not_isSome_iff_eq_none, hunmoved.tables, htable]
      exact Bool.false_ne_true
    have hstart : ¬(start.table call.space va).isSome := by
      intro hsome
      have hnow := hfilling.kept call.space va hsome
      rw [htable] at hnow
      exact absurd hnow Bool.false_ne_true
    rw [leads_ite]
    refine ⟨fun hzero ↦ ?_, fun hframe ↦ ?_⟩
    · rw [leads_pure]
      exact ⟨iff_of_false Bool.false_ne_true (not_or.mpr ⟨hstart, not_not_intro hzero⟩), hafter,
        fun hfound ↦ absurd hfound Bool.false_ne_true⟩
    · rw [leads_bind, leads_change, leads_pure]
      refine ⟨iff_of_true rfl (Or.inr hframe), hafter.setTable hnone hframe, fun _ ↦ ?_⟩
      rw [table_setTable, if_pos ⟨rfl, rfl⟩, Option.isSome_map, hafter.spaces]
      exact hspace

/-- A free page is mapped. -/
theorem Filling.map (htable : (state.table call.space va).isSome) (hmapped : Mapped entry) :
    Filling start call (done ++ [va]) (state.setEntry call.space va entry) where
  next := (next_setEntry entry).trans hfilling.next
  spaces := fun space ↦ (spaces_setEntry entry).trans (hfilling.spaces space)
  kept := by
    intro space address hstart
    rw [table_setEntry]
    exact hfilling.kept space address hstart
  created := by
    intro address hsome
    rw [table_setEntry] at hsome
    exact hfilling.created address hsome
  others := by
    intro space address hother
    rw [entry_setEntry htable, if_neg]
    · refine hfilling.others space address ?_
      rintro ⟨hspace, page, hpage, hsame⟩
      exact hother ⟨hspace, page, List.mem_append_left _ hpage, hsame⟩
    · rintro ⟨hspace, hsame⟩
      exact hother ⟨hspace, va, List.mem_append_right _ (List.mem_singleton_self va), hsame⟩
  filled := by
    intro page hpage
    rw [entry_setEntry htable]
    by_cases hsame : call.space = call.space ∧ page / PAGE_SIZE = va / PAGE_SIZE
    · rw [if_pos hsame]
      exact hmapped
    · rw [if_neg hsame]
      rcases List.mem_append.mp hpage with hdone | hlast
      · exact hfilling.filled page hdone
      · exact absurd ⟨rfl, congrArg (· / PAGE_SIZE) (List.mem_singleton.mp hlast)⟩ hsame

/-- The page at an address is mapped where everything for it is obtained. -/
theorem Filling.mapOne {reads : ℕ → Bool}
    (hspace : (start.spaces call.space).isSome)
    (hnew : ∀ page ∈ done, va / PAGE_SIZE ≠ page / PAGE_SIZE)
    (hfree : call.obtains reads start va = true →
      Inside va ∧ ¬Mapped (start.entry call.space va)) :
    Leads (fun _ ↦ True) Note.Confined (mapOne call reads va) state fun continues after ↦
      continues = call.obtains reads start va ∧
        Filling start call (if continues then done ++ [va] else done) after := by
  unfold Mmap.mapOne Call.obtains at *
  rw [leads_bind]
  refine (leads_frameAlloc _).mono ?_
  rintro frame middle ⟨rfl, hunmoved⟩
  have hmiddle := hfilling.unmoved hunmoved
  rw [leads_ite]
  refine ⟨fun hzero ↦ ?_, fun hframe ↦ ?_⟩
  · rw [leads_pure, hzero]
    exact ⟨rfl, hmiddle⟩
  rw [leads_ite]
  refine ⟨fun hread ↦ ?_, fun hread ↦ ?_⟩
  · rw [leads_pure]
    rw [Bool.not_eq_true'] at hread
    rw [hread, Bool.and_false, Bool.false_and]
    exact ⟨rfl, hmiddle⟩
  rw [Bool.not_eq_true', Bool.not_eq_false] at hread
  rw [decide_eq_true hframe, hread, Bool.true_and, Bool.true_and] at hfree ⊢
  unfold mapPage
  rw [leads_bind]
  refine (hmiddle.walkPageTables hspace va).mono ?_
  rintro found after ⟨hfound, hafter, htable⟩
  rw [leads_ite]
  refine ⟨fun hyes ↦ ?_, fun hno ↦ ?_⟩
  · have hobtained : ((start.table call.space va).isSome ||
        decide ((call.tableFrame (pdeIndex va)).frame ≠ 0)) = true := by
      rw [Bool.or_eq_true, decide_eq_true_iff]
      exact hfound.mp hyes
    rw [hobtained] at hfree ⊢
    obtain ⟨hinside, hunmapped⟩ := hfree rfl
    rw [leads_bind, leads_note]
    refine fun _ ↦ ⟨⟨hinside, ?_⟩, ?_⟩
    · refine (hafter.others call.space va ?_).2 hunmapped
      rintro ⟨-, page, hpage, hsame⟩
      exact hnew page hpage hsame
    · rw [leads_bind, leads_change, leads_pure]
      exact ⟨rfl, hafter.map (htable hyes) (Or.inl rfl)⟩
  · rw [leads_pure]
    refine ⟨?_, hafter⟩
    rw [eq_comm, ← Bool.not_eq_true, Bool.or_eq_true, decide_eq_true_iff]
    exact fun h ↦ hno (hfound.mpr h)

end

/-- The loop over the pages maps them until something is not obtained. -/
theorem Filling.mapLoop {reads : ℕ → Bool} (hspace : (start.spaces call.space).isSome) :
    ∀ {state : State} {done : List ℕ} (mapped : ℕ), Filling start call done state →
      ((done ++ vas).map (· / PAGE_SIZE)).Nodup →
      (∀ va ∈ vas.takeWhile (call.obtains reads start),
        Inside va ∧ ¬Mapped (start.entry call.space va)) →
      Leads (fun _ ↦ True) Note.Confined (mapLoop (Mmap.mapOne call reads) vas mapped) state
        fun outcome after ↦ ∃ filled rest, vas = filled ++ rest ∧
          outcome.2 = mapped + PAGE_SIZE * filled.length ∧
          Filling start call (done ++ filled) after ∧
          (∀ va ∈ filled, ¬Mapped (start.entry call.space va)) ∧
          (outcome.1 = true → rest = []) ∧
          ((∀ va ∈ vas, call.obtains reads start va = true) → outcome.1 = true) := by
  induction vas with
  | nil =>
    intro state done mapped hfilling _ _
    rw [Mmap.mapLoop, leads_pure]
    refine ⟨[], [], rfl, rfl, ?_, fun _ hmem ↦ absurd hmem List.not_mem_nil, fun _ ↦ rfl,
      fun _ ↦ rfl⟩
    rw [List.append_nil]
    exact hfilling
  | cons va vas ih =>
    intro state done mapped hfilling hnodup hfree
    have hnew (page : ℕ) (hpage : page ∈ done) : va / PAGE_SIZE ≠ page / PAGE_SIZE := by
      rw [List.map_append, List.nodup_append] at hnodup
      have hva : va / PAGE_SIZE ∈ (va :: vas).map (· / PAGE_SIZE) := List.mem_cons_self
      have hmem : page / PAGE_SIZE ∈ done.map (· / PAGE_SIZE) := List.mem_map_of_mem hpage
      exact (hnodup.2.2 _ hmem _ hva).symm
    rw [Mmap.mapLoop, leads_bind]
    refine (hfilling.mapOne hspace hnew fun hobtained ↦ hfree va ?_).mono ?_
    · rw [List.takeWhile_cons, if_pos hobtained]
      exact List.mem_cons_self
    rintro continues middle ⟨hcontinues, hmiddle⟩
    rw [leads_ite]
    refine ⟨fun hyes ↦ ?_, fun hno ↦ ?_⟩
    · rw [if_pos hyes] at hmiddle
      have hobtained := hcontinues.symm.trans hyes
      rw [List.takeWhile_cons, if_pos hobtained] at hfree
      obtain ⟨hfirst, hrest⟩ := List.forall_mem_cons.mp hfree
      rw [List.append_cons] at hnodup
      refine (ih (mapped + PAGE_SIZE) hmiddle hnodup hrest).mono ?_
      rintro outcome after ⟨filled, rest, rfl, hmapped, hafter, hwas, hended, hcomplete⟩
      refine ⟨va :: filled, rest, rfl, ?_, ?_, List.forall_mem_cons.mpr ⟨hfirst.2, hwas⟩, hended,
        fun hall ↦ hcomplete fun page hpage ↦ hall page (List.mem_cons_of_mem va hpage)⟩
      · rw [hmapped, List.length_cons, Nat.mul_add_one]
        omega
      · rw [List.append_cons]
        exact hafter
    · rw [if_neg hno] at hmiddle
      rw [leads_pure]
      refine ⟨[], va :: vas, rfl, rfl, ?_, fun _ hmem ↦ absurd hmem List.not_mem_nil,
        fun hended ↦ absurd hended Bool.false_ne_true, fun hall ↦ ?_⟩
      · rw [List.append_nil]
        exact hmiddle
      · exact absurd (hcontinues.trans (hall va List.mem_cons_self)) hno

/-! ### Undoing -/

/-- A page that was not mapped at the start is unmapped. -/
theorem Filling.unmapPage (hfilling : Filling start call (va :: done) state)
    (hfree : ¬Mapped (start.entry call.space va))
    (hnew : ∀ page ∈ done, va / PAGE_SIZE ≠ page / PAGE_SIZE) {promised : Note → Prop} :
    Leads (fun _ ↦ True) promised (unmapPage call.space va) state fun _ after ↦
      Filling start call done after := by
  have hmapped := hfilling.filled va List.mem_cons_self
  have htable := hmapped.table
  unfold Mmap.unmapPage Mmap.walkPageTables
  rw [leads_bind, leads_bind, leads_look]
  obtain ⟨entries, hentries⟩ := Option.isSome_iff_exists.mp htable
  rw [hentries]
  simp only
  rw [leads_pure, leads_ite]
  refine ⟨fun _ ↦ ?_, fun hno ↦ absurd rfl hno⟩
  rw [leads_change, if_pos hmapped]
  refine ⟨(next_setEntry _).trans hfilling.next,
    fun space ↦ (spaces_setEntry _).trans (hfilling.spaces space), ?_, ?_, ?_, ?_⟩
  · intro space address hstart
    rw [table_setEntry]
    exact hfilling.kept space address hstart
  · intro address hsome
    rw [table_setEntry] at hsome
    exact hfilling.created address hsome
  · intro space address hother
    rw [entry_setEntry htable]
    by_cases hsame : space = call.space ∧ address / PAGE_SIZE = va / PAGE_SIZE
    · rw [if_pos hsame, hsame.1, entry_congr hsame.2]
      exact ⟨fun hwas ↦ absurd hwas hfree, fun _ ↦ not_mapped_zeroEntry⟩
    · rw [if_neg hsame]
      refine hfilling.others space address ?_
      rintro ⟨hspace, page, hpage, hpages⟩
      rcases List.mem_cons.mp hpage with rfl | hdone
      · exact hsame ⟨hspace, hpages⟩
      · exact hother ⟨hspace, page, hdone, hpages⟩
  · intro page hpage
    rw [entry_setEntry htable, if_neg fun h ↦ hnew page hpage h.2.symm]
    exact hfilling.filled page (List.mem_cons_of_mem va hpage)

/-- The pages that a call has mapped are unmapped. -/
theorem Filling.undo {promised : Note → Prop} :
    ∀ {state : State}, Filling start call done state → (done.map (· / PAGE_SIZE)).Nodup →
      (∀ va ∈ done, ¬Mapped (start.entry call.space va)) →
      Leads (fun _ ↦ True) promised (undo call.space done) state fun _ after ↦
        Filling start call [] after := by
  induction done with
  | nil =>
    intro state hfilling _ _
    rw [Mmap.undo, leads_pure]
    exact hfilling
  | cons va done ih =>
    intro state hfilling hnodup hfree
    obtain ⟨hfirst, hrest⟩ := List.forall_mem_cons.mp hfree
    rw [List.map_cons, List.nodup_cons] at hnodup
    have hnew (page : ℕ) (hpage : page ∈ done) : va / PAGE_SIZE ≠ page / PAGE_SIZE := by
      intro hsame
      rw [hsame] at hnodup
      exact hnodup.1 (List.mem_map_of_mem hpage)
    rw [Mmap.undo, leads_bind]
    exact (hfilling.unmapPage hfirst hnew).mono fun _ _ hafter ↦ ih hafter hnodup.2 hrest

/-! ### Ranges -/

theorem pagesBetween_eq (base count : ℕ) :
    pagesBetween base (base + PAGE_SIZE * count) =
      (List.range count).map fun i ↦ base + PAGE_SIZE * i := by
  have hcount : (base + PAGE_SIZE * count - base + 4095) / PAGE_SIZE = count := by
    unfold PAGE_SIZE
    omega
  rw [pagesBetween, hcount]

/-- The pages that a call goes through: those of its range, or none where the range wraps. -/
theorem pages_cases (call : Call) (htarget : target < 4294967296) :
    (∃ count, call.alignedLen = PAGE_SIZE * count ∧ target + PAGE_SIZE * count < 4294967296 ∧
      call.pages target = (List.range count).map fun i ↦ target + PAGE_SIZE * i) ∨
      4294967296 ≤ target + call.alignedLen ∧ call.pages target = [] := by
  have haligned : call.alignedLen = PAGE_SIZE * (u32 (call.length.toNat + 4095) / PAGE_SIZE) :=
    Nat.mul_comm _ _
  have hlt : call.alignedLen < 4294967296 := by
    have hword := u32_lt (call.length.toNat + 4095)
    unfold PAGE_SIZE at haligned
    omega
  by_cases hwraps : target + call.alignedLen < 4294967296
  · refine Or.inl ⟨_, haligned, by rw [← haligned]; exact hwraps, ?_⟩
    rw [Call.pages, u32_of_lt _ hwraps, haligned, pagesBetween_eq]
  · refine Or.inr ⟨Nat.le_of_not_lt hwraps, ?_⟩
    have hlimit : u32 (target + call.alignedLen) ≤ target := by
      unfold u32
      omega
    have hnone : (u32 (target + call.alignedLen) - target + 4095) / PAGE_SIZE = 0 := by
      unfold PAGE_SIZE
      omega
    rw [Call.pages, pagesBetween, hnone]
    rfl

theorem nodup_pages (call : Call) (htarget : target < 4294967296) :
    ((call.pages target).map (· / PAGE_SIZE)).Nodup := by
  rcases pages_cases call htarget with ⟨count, -, -, hpages⟩ | ⟨-, hpages⟩
  · rw [hpages, List.map_map]
    refine List.nodup_range.map ?_
    intro first second hsame
    unfold PAGE_SIZE at hsame
    simp only [Function.comp_apply] at hsame
    omega
  · rw [hpages]
    exact List.nodup_nil

/-- A failed call undoes the pages that it has mapped. -/
theorem pagesBetween_filled {filled rest : List ℕ} (htarget : target < 4294967296)
    (hpages : call.pages target = filled ++ rest) :
    pagesBetween target (u32 (target + (0 + PAGE_SIZE * filled.length))) = filled := by
  rw [Nat.zero_add]
  rcases pages_cases call htarget with ⟨count, -, hlt, hrange⟩ | ⟨-, hnone⟩
  · rw [hrange] at hpages
    have hlength := congrArg List.length hpages
    rw [List.length_map, List.length_range, List.length_append] at hlength
    have hle : PAGE_SIZE * filled.length ≤ PAGE_SIZE * count :=
      Nat.mul_le_mul_left _ (by omega)
    rw [u32_of_lt _ (by omega), pagesBetween_eq]
    have htake := congrArg (List.take filled.length) hpages
    rw [← List.map_take, List.take_range, Nat.min_eq_left (by omega), List.take_left] at htake
    exact htake
  · rw [hnone] at hpages
    obtain ⟨rfl, -⟩ := List.append_eq_nil_iff.mp hpages.symm
    rw [List.length_nil, Nat.mul_zero, Nat.add_zero, u32_of_lt _ htarget]
    exact pagesBetween_eq target 0

/-- Mapping a range maps all of it or nothing. -/
theorem leads_mapRange {reads : ℕ → Bool} (hspace : (start.spaces call.space).isSome)
    (htarget : target < 4294967296)
    (hfree : ∀ va ∈ (call.pages target).takeWhile (call.obtains reads start),
      Inside va ∧ ¬Mapped (start.entry call.space va)) :
    Leads (fun _ ↦ True) Note.Confined (mapRange call reads target) start fun result after ↦
      (result = none ∧ Filling start call [] after ∨
        result = some target ∧ Filling start call (call.pages target) after ∧
          ∀ va ∈ call.pages target, ¬Mapped (start.entry call.space va)) ∧
      ((∀ va ∈ call.pages target, call.obtains reads start va = true) → result ≠ none) := by
  have hnodup : (([] ++ call.pages target).map (· / PAGE_SIZE)).Nodup := nodup_pages call htarget
  unfold mapRange
  rw [leads_bind]
  refine ((filling_start start call).mapLoop hspace 0 hnodup hfree).mono ?_
  rintro outcome after ⟨filled, rest, hpages, hmapped, hafter, hwas, hended, hcomplete⟩
  rw [leads_ite]
  refine ⟨fun hyes ↦ ?_, fun hno ↦ ?_⟩
  · obtain rfl := hended hyes
    rw [List.append_nil] at hpages
    rw [leads_pure, hpages]
    exact ⟨Or.inr ⟨rfl, hafter, hwas⟩, fun _ ↦ Option.some_ne_none target⟩
  · rw [leads_bind, hmapped, pagesBetween_filled htarget hpages]
    rw [List.nil_append, hpages, List.map_append] at hnodup
    refine (hafter.undo (List.nodup_append.mp hnodup).1 hwas).mono fun _ _ hundone ↦ ?_
    rw [leads_pure]
    exact ⟨Or.inl ⟨rfl, hundone⟩, fun hall ↦ absurd (hcomplete hall) hno⟩

/-! ### The branches of a call -/

def Call.proceeds (call : Call) (state : State) : Bool :=
  (call.anonymous || call.fdBased) && call.allowed && (state.spaces call.space).isSome

/-- The descriptor is that of a file, where one is asked for. -/
def Call.ready (call : Call) : Bool := call.anonymous || call.file.isSome

/-- Whether what a page takes from a file, where it takes something, is read. -/
def Call.readsAt (call : Call) (target va : ℕ) : Bool :=
  if call.anonymous then true
  else
    match call.file with
    | none => true
    | some ufd => call.reads ufd target va

/-- What a call leads to, by the address that it chooses. -/
theorem leads_syscallMmap {promised : Note → Prop} {post : Option ℕ → State → Prop}
    (hstays : call.proceeds state = false →
      ∀ result, (call.addr = 0 → result = none) → post result state)
    (hchooses : call.proceeds state = true →
      Leads (fun _ ↦ True) promised (targetAddr call) state fun result after ↦
        match result with
        | none => post none after
        | some target =>
          if call.ready then
            Leads (fun _ ↦ True) promised (mapRange call (call.readsAt target) target) after post
          else post none after) :
    Leads (fun _ ↦ True) promised (syscallMmap call) state post := by
  unfold syscallMmap
  rw [leads_bind, leads_look]
  have hrefused (hno : (!call.allowed || (state.spaces call.space).isNone) = true) :
      call.proceeds state = false := by
    unfold Call.proceeds
    cases hallowed : call.allowed <;> cases hspace : state.spaces call.space <;>
      simp [hallowed, hspace] at hno ⊢
  have hgranted (hno : ¬(!call.allowed || (state.spaces call.space).isNone) = true)
      (hbranch : (call.anonymous || call.fdBased) = true) : call.proceeds state = true := by
    unfold Call.proceeds
    cases hallowed : call.allowed <;> cases hspace : state.spaces call.space <;>
      simp [hallowed, hspace] at hno ⊢
    simpa using hbranch
  rw [leads_ite]
  refine ⟨fun hanonymous ↦ ?_, fun hanonymous ↦ ?_⟩
  · rw [leads_ite]
    refine ⟨fun hno ↦ ?_, fun hyes ↦ ?_⟩
    · rw [leads_pure]
      exact hstays (hrefused hno) none fun _ ↦ rfl
    · unfold mmapAnonymous
      rw [leads_bind]
      refine (hchooses (hgranted hyes (by rw [hanonymous]; rfl))).mono fun result after hafter ↦ ?_
      have hready : call.ready = true := by
        rw [Call.ready, hanonymous]
        rfl
      have hreads (target : ℕ) : call.readsAt target = fun _ ↦ true := by
        funext va
        rw [Call.readsAt, if_pos hanonymous]
      cases result with
      | none => exact (leads_pure none).mpr hafter
      | some target =>
        simp only at hafter ⊢
        rw [if_pos hready, hreads] at hafter
        exact hafter
  rw [leads_ite]
  refine ⟨fun hfd ↦ ?_, fun hfd ↦ ?_⟩
  · rw [leads_ite]
    refine ⟨fun hno ↦ ?_, fun hyes ↦ ?_⟩
    · rw [leads_pure]
      exact hstays (hrefused hno) none fun _ ↦ rfl
    · unfold mmapFd
      rw [leads_bind]
      refine (hchooses (hgranted hyes (by rw [hfd, Bool.or_true]))).mono fun result after hafter ↦
        ?_
      cases result with
      | none => exact (leads_pure none).mpr hafter
      | some target =>
        simp only at hafter ⊢
        cases hfile : call.file with
        | none =>
          rw [Call.ready, hfile, if_neg (by simpa using hanonymous)] at hafter
          exact (leads_pure none).mpr hafter
        | some ufd =>
          have hreads : call.readsAt target = call.reads ufd target := by
            funext va
            rw [Call.readsAt, if_neg hanonymous, hfile]
          rw [Call.ready, hfile, if_pos (by simp), hreads] at hafter
          exact hafter
  · have hno : call.proceeds state = false := by
      rw [Bool.not_eq_true] at hanonymous hfd
      rw [Call.proceeds, hanonymous, hfd]
      rfl
    rw [leads_ite]
    refine ⟨fun hzero ↦ ?_, fun hzero ↦ ?_⟩
    · rw [leads_pure]
      exact hstays hno none fun _ ↦ rfl
    · rw [leads_pure]
      exact hstays hno _ fun h ↦ absurd h hzero

/-! ### Permitted calls -/

/-- Without an address: the range lies below the end of the region, its pages are free, and the call
obtains everything that it asks for. -/
def FitsNext (state : State) (call : Call) : Prop :=
  state.nextFdMmapVa + call.alignedLen < USER_SHARED_END ∧
    (∀ va ∈ call.pages state.nextFdMmapVa, ¬Mapped (state.entry call.space va) ∧
      call.obtains (call.readsAt state.nextFdMmapVa) state va = true) ∧
    (call.ready = true ∨ call.alignedLen = 0)

instance (state : State) (call : Call) : Decidable (FitsNext state call) :=
  inferInstanceAs (Decidable (_ ∧ _ ∧ _))

/-- With an address: the pages that the call reaches before it ends are free ones of the region. -/
def FitsAddress (state : State) (call : Call) : Prop :=
  USER_SHARED_BASE ≤ call.addr.toNat → call.addr.toNat < USER_SHARED_END → call.ready = true →
    ∀ va ∈ (call.pages call.addr.toNat).takeWhile
        (call.obtains (call.readsAt call.addr.toNat) state),
      Inside va ∧ ¬Mapped (state.entry call.space va)

instance (state : State) (call : Call) : Decidable (FitsAddress state call) :=
  inferInstanceAs (Decidable (_ → _ → _ = true → ∀ va ∈ _, _ ∧ _))

/-- A call that goes on to choose an address finds what it needs there. -/
def Permitted (state : State) (call : Call) : Prop :=
  call.proceeds state = true → if call.addr = 0 then FitsNext state call else FitsAddress state call

instance (state : State) (call : Call) : Decidable (Permitted state call) :=
  inferInstanceAs (Decidable (_ = true →
    if call.addr = 0 then FitsNext state call else FitsAddress state call))

/-- What a call does to pages that are mapped, what it maps without an address, and what it leaves
where it fails. -/
structure Respects (state : State) (call : Call) (result : Option ℕ) (after : State) : Prop where
  kept : ∀ space va, Mapped (state.entry space va) →
    Retained (state.entry space va) (after.entry space va)
  fresh : call.addr = 0 → ∀ base, result = some base → ∀ va, base ≤ va →
    va < base + call.alignedLen →
      ¬Mapped (state.entry call.space va) ∧ Mapped (after.entry call.space va)
  failed : result = none → (∀ space va, Alike (state.entry space va) (after.entry space va)) ∧
    after.nextFdMmapVa = state.nextFdMmapVa

/-- `g_next_fd_mmap_va` goes past the range that a call without an address returns. -/
def Advances (state : State) (call : Call) (result : Option ℕ) (after : State) : Prop :=
  if call.addr = 0 then
    result = none ∧ after.nextFdMmapVa = state.nextFdMmapVa ∨
      result = some state.nextFdMmapVa ∧
        after.nextFdMmapVa = state.nextFdMmapVa + call.alignedLen ∧
        after.nextFdMmapVa < USER_SHARED_END
  else after.nextFdMmapVa = state.nextFdMmapVa

/-- `g_next_fd_mmap_va` is the address of a page of the region. -/
structure Ready (state : State) : Prop where
  aligned : PAGE_SIZE ∣ state.nextFdMmapVa
  base_le : USER_SHARED_BASE ≤ state.nextFdMmapVa
  lt_end : state.nextFdMmapVa < USER_SHARED_END

/-- A call that changes nothing. -/
theorem respects_unchanged {result : Option ℕ} (hzero : call.addr = 0 → result = none) :
    Respects state call result state where
  kept := fun _ _ _ ↦ Or.inl rfl
  fresh := fun haddr base hresult ↦ by
    rw [hzero haddr] at hresult
    exact absurd hresult (Option.some_ne_none base).symm
  failed := fun _ ↦ ⟨fun _ _ ↦ Alike.refl _, rfl⟩

/-- A call that has mapped free pages retains what was mapped. -/
theorem Filling.retained (hfilling : Filling start call done state)
    (hfree : ∀ va ∈ done, ¬Mapped (start.entry call.space va)) (space va : ℕ)
    (hmapped : Mapped (start.entry space va)) :
    Retained (start.entry space va) (state.entry space va) := by
  refine (hfilling.others space va ?_).1 hmapped
  rintro ⟨rfl, page, hpage, hsame⟩
  rw [entry_congr hsame] at hmapped
  exact hfree page hpage hmapped

theorem Filling.nothing (hfilling : Filling start call [] state) (space va : ℕ) :
    Alike (start.entry space va) (state.entry space va) :=
  hfilling.others space va fun h ↦ absurd h.2.choose_spec.1 List.not_mem_nil

/-- The addresses of a range of whole pages are on its pages. -/
theorem exists_page (call : Call) (haligned : PAGE_SIZE ∣ target)
    (hfits : target + call.alignedLen < 4294967296) (hva : target ≤ va)
    (hlt : va < target + call.alignedLen) :
    ∃ page ∈ call.pages target, va / PAGE_SIZE = page / PAGE_SIZE := by
  obtain ⟨first, rfl⟩ := haligned
  rcases pages_cases call (by omega : PAGE_SIZE * first < 4294967296) with
    ⟨count, hlen, -, hpages⟩ | ⟨hwraps, -⟩
  · rw [hlen] at hlt
    refine ⟨PAGE_SIZE * first + PAGE_SIZE * (va / PAGE_SIZE - first), ?_, ?_⟩
    · rw [hpages]
      refine List.mem_map_of_mem (List.mem_range.mpr ?_)
      unfold PAGE_SIZE at *
      omega
    · unfold PAGE_SIZE at *
      omega
  · omega

/-- A permitted call without an address. -/
theorem leads_withoutAddress (hready : Ready state) (hzero : call.addr = 0)
    (hspace : (state.spaces call.space).isSome)
    (hfits : state.nextFdMmapVa + call.alignedLen < USER_SHARED_END)
    (hpages : ∀ va ∈ call.pages state.nextFdMmapVa, ¬Mapped (state.entry call.space va) ∧
      call.obtains (call.readsAt state.nextFdMmapVa) state va = true) :
    Leads (fun _ ↦ True) Note.Confined
      (mapRange call (call.readsAt state.nextFdMmapVa) state.nextFdMmapVa)
      (state.setNext (state.nextFdMmapVa + call.alignedLen)) fun result after ↦
        Respects state call result after ∧ Advances state call result after := by
  obtain ⟨haligned, hbase, -⟩ := hready
  have hsmall : state.nextFdMmapVa + call.alignedLen < 4294967296 :=
    hfits.trans (by decide)
  have hinside (page : ℕ) (hpage : page ∈ call.pages state.nextFdMmapVa) : Inside page := by
    rcases pages_cases call (by omega : state.nextFdMmapVa < 4294967296) with
      ⟨count, hlen, -, hrange⟩ | ⟨hwraps, -⟩
    · rw [hrange] at hpage
      obtain ⟨i, hi, rfl⟩ := List.mem_map.mp hpage
      rw [List.mem_range] at hi
      rw [hlen] at hfits
      obtain ⟨first, hfirst⟩ := haligned
      rw [hfirst] at hbase hfits ⊢
      unfold Inside
      unfold PAGE_SIZE USER_SHARED_BASE USER_SHARED_END at *
      omega
    · omega
  have hthere : ((state.setNext (state.nextFdMmapVa + call.alignedLen)).spaces
      call.space).isSome = true := hspace
  refine (leads_mapRange hthere (by omega) fun va hva ↦ ?_).mono ?_
  · have hpage := List.takeWhile_subset _ hva
    exact ⟨hinside va hpage, (hpages va hpage).1⟩
  rintro result after ⟨hfilling, hcomplete⟩
  have hdone : result ≠ none := hcomplete fun va hva ↦ (hpages va hva).2
  rcases hfilling with ⟨rfl, -⟩ | ⟨rfl, hfilled, hfree⟩
  · exact absurd rfl hdone
  refine ⟨⟨hfilled.retained hfree, ?_, fun hnone ↦ absurd hnone hdone⟩, ?_⟩
  · rintro - base hresult va hva hlt
    obtain rfl := Option.some.inj hresult
    obtain ⟨page, hpage, hsame⟩ := exists_page call haligned hsmall hva hlt
    rw [entry_congr hsame, entry_congr hsame]
    exact ⟨hfree page hpage, hfilled.filled page hpage⟩
  · rw [Advances, if_pos hzero]
    refine Or.inr ⟨rfl, hfilled.next, ?_⟩
    rw [hfilled.next]
    exact hfits

/-- A permitted call. -/
theorem leads_permitted (hready : Ready state) (hpermitted : Permitted state call) :
    Leads (fun _ ↦ True) Note.Confined (syscallMmap call) state fun result after ↦
      Respects state call result after ∧ Advances state call result after := by
  have hunchanged (result : Option ℕ) (hnone : call.addr = 0 → result = none) :
      Respects state call result state ∧ Advances state call result state := by
    refine ⟨respects_unchanged hnone, ?_⟩
    unfold Advances
    by_cases hzero : call.addr = 0
    · rw [if_pos hzero]
      exact Or.inl ⟨hnone hzero, rfl⟩
    · rw [if_neg hzero]
  refine leads_syscallMmap (fun _ ↦ hunchanged) fun hproceeds ↦ ?_
  have hallowed := hpermitted hproceeds
  have hspace : (state.spaces call.space).isSome = true := by
    unfold Call.proceeds at hproceeds
    exact (Bool.and_eq_true_iff.mp hproceeds).2
  unfold targetAddr
  rw [leads_bind, leads_look, leads_ite]
  refine ⟨fun hzero ↦ ?_, fun hzero ↦ ?_⟩
  · rw [if_pos hzero] at hallowed
    obtain ⟨hfits, hpages, hkind⟩ := hallowed
    have htarget : pageAlign state.nextFdMmapVa = state.nextFdMmapVa := by
      obtain ⟨⟨first, hfirst⟩, -, hlt⟩ := hready
      rw [hfirst] at hlt ⊢
      unfold pageAlign u32
      unfold PAGE_SIZE USER_SHARED_END at *
      omega
    have hlimit : u32 (state.nextFdMmapVa + call.alignedLen) =
        state.nextFdMmapVa + call.alignedLen :=
      u32_of_lt _ (hfits.trans (by decide))
    simp only [htarget, hlimit]
    rw [leads_bind, leads_change, if_neg (Nat.not_le.mpr hfits), leads_pure]
    simp only
    by_cases hfile : call.ready = true
    · rw [if_pos hfile]
      exact leads_withoutAddress hready hzero hspace hfits hpages
    · rw [if_neg hfile, hkind.resolve_left hfile, Nat.add_zero]
      exact hunchanged none fun _ ↦ rfl
  · rw [if_neg hzero] at hallowed
    rw [leads_ite]
    refine ⟨fun _ ↦ ?_, fun hregion ↦ ?_⟩
    · rw [leads_pure]
      exact hunchanged none fun _ ↦ rfl
    rw [leads_pure]
    simp only
    rw [not_or, Nat.not_lt, Nat.not_le] at hregion
    by_cases hfile : call.ready = true
    · rw [if_pos hfile]
      refine (leads_mapRange hspace call.addr.toNat_lt
        (hallowed hregion.1 hregion.2 hfile)).mono ?_
      rintro result after ⟨hfilling, -⟩
      have hadvances (hnext : after.nextFdMmapVa = state.nextFdMmapVa) :
          Advances state call result after := by
        rw [Advances, if_neg hzero]
        exact hnext
      rcases hfilling with ⟨rfl, hnothing⟩ | ⟨rfl, hfilled, hfree⟩
      · exact ⟨⟨fun space va ↦ (hnothing.nothing space va).1, fun h ↦ absurd h hzero,
          fun _ ↦ ⟨hnothing.nothing, hnothing.next⟩⟩, hadvances hnothing.next⟩
      · exact ⟨⟨hfilled.retained hfree, fun h ↦ absurd h hzero,
          fun hnone ↦ absurd hnone (Option.some_ne_none _)⟩, hadvances hfilled.next⟩
    · rw [if_neg hfile]
      exact hunchanged none fun _ ↦ rfl

/-! ### Runs of calls -/

/-- A range that a call without an address has returned. -/
structure Region where
  space : ℕ
  base : ℕ
  length : ℕ

/-- An address of a range. -/
def Region.Holds (region : Region) (va : ℕ) : Prop :=
  region.base ≤ va ∧ va < region.base + region.length

/-- Two ranges have no address of one address space in common. -/
def Region.Apart (first second : Region) : Prop :=
  first.space = second.space → ∀ va, first.Holds va → ¬second.Holds va

/-- The address spaces, and the ranges that calls without an address have returned. -/
structure Session where
  state : State
  regions : List Region

/-- The ranges after a call. -/
def returned (call : Call) (regions : List Region) : Option ℕ → List Region
  | none => regions
  | some base =>
    if call.addr = 0
      then { space := call.space, base := base, length := call.alignedLen } :: regions
    else regions

/-- Perform a call. -/
def Session.step (session : Session) (call : Call) : Session where
  state := after session.state call
  regions := returned call session.regions (answer session.state call)

/-- Before the first call, with whatever the address spaces hold. -/
def Session.initial (spaces : ℕ → Option Tables) : Session where
  state := { spaces := spaces, nextFdMmapVa := USER_SHARED_BASE }
  regions := []

/-- What holds of the ranges between calls. -/
structure Orderly (session : Session) : Prop where
  ready : Ready session.state
  below : ∀ region ∈ session.regions, region.base + region.length ≤ session.state.nextFdMmapVa
  apart : session.regions.Pairwise Region.Apart
  live : ∀ region ∈ session.regions, ∀ va, region.Holds va →
    Mapped (session.state.entry region.space va)

/-- A call maps only free pages of the region and keeps to what it should. -/
def Confined (state : State) (call : Call) : Prop :=
  (∀ note ∈ notes state call, note.Confined) ∧
    Respects state call (answer state call) (after state call)

/-- Each permitted call is confined and keeps the ranges in order. -/
theorem Orderly.step {session : Session} (horderly : Orderly session)
    (hpermitted : Permitted session.state call) :
    Confined session.state call ∧ Orderly (session.step call) := by
  obtain ⟨hnotes, hrespects, hadvances⟩ :=
    (leads_permitted horderly.ready hpermitted).all fun _ _ ↦ trivial
  refine ⟨⟨hnotes, hrespects⟩, ?_⟩
  change Respects session.state call (answer session.state call) (after session.state call)
    at hrespects
  change Advances session.state call (answer session.state call) (after session.state call)
    at hadvances
  have hlive (region : Region) (hregion : region ∈ session.regions) (va : ℕ)
      (hva : region.Holds va) : Mapped ((after session.state call).entry region.space va) := by
    have hmapped := horderly.live region hregion va hva
    exact (hrespects.kept region.space va hmapped).mapped_iff.mpr hmapped
  have hsame (hnext : (after session.state call).nextFdMmapVa = session.state.nextFdMmapVa)
      (hregions : (session.step call).regions = session.regions) :
      Orderly (session.step call) := by
    obtain ⟨⟨haligned, hbase, hlt⟩, hbelow, hapart, -⟩ := horderly
    rw [← hnext] at haligned hbase hlt hbelow
    rw [← hregions] at hbelow hapart hlive
    exact ⟨⟨haligned, hbase, hlt⟩, hbelow, hapart, hlive⟩
  unfold Advances at hadvances
  by_cases hzero : call.addr = 0
  · rw [if_pos hzero] at hadvances
    rcases hadvances with ⟨hresult, hnext⟩ | ⟨hresult, hnext, hlt⟩
    · refine hsame hnext ?_
      rw [Session.step, hresult]
      rfl
    · have hregions : (session.step call).regions =
          { space := call.space, base := session.state.nextFdMmapVa, length := call.alignedLen } ::
            session.regions := by
        rw [Session.step, hresult]
        exact if_pos hzero
      obtain ⟨⟨haligned, hbase, -⟩, hbelow, hapart, -⟩ := horderly
      have hlength : PAGE_SIZE ∣ call.alignedLen := Dvd.intro_left _ rfl
      refine ⟨⟨?_, ?_, hlt⟩, ?_, ?_, ?_⟩
      · change PAGE_SIZE ∣ (after session.state call).nextFdMmapVa
        rw [hnext]
        exact Nat.dvd_add haligned hlength
      · change USER_SHARED_BASE ≤ (after session.state call).nextFdMmapVa
        omega
      · rw [hregions, List.forall_mem_cons]
        exact ⟨hnext.ge, fun region hregion ↦ (hbelow region hregion).trans
          (hnext.symm ▸ Nat.le_add_right _ _)⟩
      · rw [hregions, List.pairwise_cons]
        refine ⟨fun region hregion _ va hva hother ↦ ?_, hapart⟩
        have hbound := hbelow region hregion
        have hfirst : session.state.nextFdMmapVa ≤ va := hva.1
        have hlast := hother.2
        omega
      · rw [hregions, List.forall_mem_cons]
        exact ⟨fun va hva ↦ (hrespects.fresh hzero _ hresult va hva.1 hva.2).2, hlive⟩
  · rw [if_neg hzero] at hadvances
    refine hsame hadvances ?_
    unfold Session.step
    cases answer session.state call with
    | none => rfl
    | some base => exact if_neg hzero

/-- In a run of permitted calls the ranges returned without an address are disjoint and mapped, and
each permitted call maps only free pages of the region, replaces none, takes for such a range only
pages that were not mapped, and leaves everything as it was where it fails. -/
theorem mmap_confined {spaces : ℕ → Option Tables} {calls : List Call} {session : Session}
    (hrun : Run (Guarded (fun session ↦ Permitted session.state) (Moves Session.step))
      (.initial spaces) calls session) :
    session.regions.Pairwise Region.Apart ∧
      (∀ region ∈ session.regions, ∀ va, region.Holds va →
        Mapped (session.state.entry region.space va)) ∧
      ∀ call, Permitted session.state call → Confined session.state call := by
  have hstart : Orderly (.initial spaces) :=
    ⟨⟨(by decide : PAGE_SIZE ∣ USER_SHARED_BASE), le_rfl,
      (by decide : USER_SHARED_BASE < USER_SHARED_END)⟩, fun _ h ↦ absurd h List.not_mem_nil,
        List.Pairwise.nil,
      fun _ h ↦ absurd h List.not_mem_nil⟩
  have horderly : Orderly session := by
    refine hrun.guarded_invariant ?_ hstart
    rintro before call next hbefore hpermitted rfl
    exact (hbefore.step hpermitted).2
  exact ⟨horderly.apart, horderly.live, fun call hpermitted ↦ (horderly.step hpermitted).1⟩

/-- One address space without page tables. -/
def bareSpaces (space : ℕ) : Option Tables := if space = 1 then some fun _ ↦ none else none

/-- A call of the process in that address space, with a file of 3000 bytes as descriptor 4 and as
many frames as it asks for. -/
def plainCall (addr length flags : UInt32) (fd : ℤ) : Call where
  addr := addr
  length := length
  prot := 3
  flags := flags
  fd := fd
  offset := 0
  allowed := true
  space := 1
  fds := fun number ↦
    if number = 4 then some { regular := true, isDir := false, size := 3000, statSize := none }
    else none
  pageFrame := fun va ↦ { frame := va / PAGE_SIZE, evicted := [] }
  tableFrame := fun pdi ↦ { frame := 300 + pdi, evicted := [] }
  readComplete := fun _ ↦ true
  pathBased := none

/-- Two pages of memory, a page of a file at an address, an address outside the region, and more
memory. -/
def plainCalls : List Call :=
  [plainCall 0 5000 0x20 (-1), plainCall 0x80004000 100 0 4, plainCall 0xB0000000 100 0x20 (-1),
    plainCall 0 1 0x20 (-1)]

/-- What holds after these calls. -/
theorem mmap_confined_plain :
    let session := plainCalls.foldl Session.step (.initial bareSpaces)
    session.regions.Pairwise Region.Apart ∧
      (∀ region ∈ session.regions, ∀ va, region.Holds va →
        Mapped (session.state.entry region.space va)) ∧
      ∀ call, Permitted session.state call → Confined session.state call :=
  mmap_confined (Run.of_allowed (by decide +kernel))

/-- Two pages from the last page of the region on are mapped, the second one above it. -/
theorem not_mmap_confined :
    ¬ ∀ (spaces : ℕ → Option Tables) (calls : List Call) (session : Session),
      Run (Moves Session.step) (.initial spaces) calls session →
        ∀ call, Confined session.state call := by
  intro hclaim
  have hconfined := hclaim bareSpaces [] _ Run.refl (plainCall 0xAFFFF000 8192 0x20 (-1))
  exact absurd hconfined.1 (by decide +kernel)

end EynOS.Memory.Mmap
