import EynOS.Foundation.Rotation
import EynOS.Process.SchedWorkRun

/-!
# When the end of a timeslice comes to an end

The search of `sched_work_on_timeslice_end` works on the queue of the highest priority that has not
been tried: an item without budget is dropped, an item that may not run on the first processor goes
to the back of its queue, and the callback of any other item is called. That is the rotation of
`Foundation.Rotation` on one queue after the other, and `Searching` is the invariant that connects
the two: the queues carry lists, the bits that are left cover them, and every item that is to be put
back is on the queue where it is put.

`search_ends` and `search_endless` say what the search comes to: it ends exactly when no queue with
an item to put back is reached before an item to run.
-/

namespace EynOS.Process.SchedWork

open Foundation

/-! ### Items -/

/-- An item that the end of a timeslice may run. -/
def Work.Runnable (work : Work) : Prop := 0 < work.budgetLeft ∧ work.affinityMask % 2 = 1

/-- An item that the end of a timeslice puts back because of its affinity. -/
def Work.Rejected (work : Work) : Prop := 0 < work.budgetLeft ∧ work.affinityMask % 2 = 0

/-- What the search does with an item. -/
def verdict (work : Index → Work) (index : Index) : Verdict :=
  if (work index).run = none ∨ (work index).budgetLeft = 0 then .drop
  else if (work index).affinityMask % 2 = 0 then .keep
  else .take

/-! ### The highest bit -/

/-- The highest bit that is set. -/
theorem schedBsr32_eq_some {bitmap : BitVec 32} {prio : Priority}
    (hset : bitmap.getLsbD prio.val = true)
    (hhigher : ∀ other : Priority, prio < other → bitmap.getLsbD other.val = false) :
    schedBsr32 bitmap = some prio := by
  unfold schedBsr32
  cases hfind : (List.finRange 32).reverse.find? fun prio ↦ bitmap.getLsbD prio.val with
  | none =>
    have hclear := List.find?_eq_none.mp hfind prio
      (List.mem_reverse.mpr (List.mem_finRange prio))
    exact absurd hset hclear
  | some found =>
    obtain ⟨hfound, before, after, hlist, hbefore⟩ := List.find?_eq_some_iff_append.mp hfind
    have hle : found ≤ prio := by
      by_contra hlt
      exact absurd (hhigher found (not_le.mp hlt)) (by simpa using hfound)
    -- the priorities before the one that is found are the higher ones
    have hsorted : (before ++ found :: after).Pairwise (· > ·) := by
      rw [← hlist, List.pairwise_reverse]
      exact List.pairwise_lt_finRange 32
    have hmem : prio ∈ before ++ found :: after := by
      rw [← hlist]
      exact List.mem_reverse.mpr (List.mem_finRange prio)
    rcases List.mem_append.mp hmem with hearlier | hlater
    · exact absurd hset (by simpa using hbefore prio hearlier)
    · rcases List.mem_cons.mp hlater with heq | hafter
      · rw [heq]
      · have hless := (List.pairwise_cons.mp (List.pairwise_append.mp hsorted).2.1).1 prio hafter
        exact absurd hless (not_lt.mpr hle)

theorem schedBsr32_eq_none {bitmap : BitVec 32}
    (hclear : ∀ prio : Priority, bitmap.getLsbD prio.val = false) : schedBsr32 bitmap = none := by
  unfold schedBsr32
  rw [List.find?_eq_none]
  intro prio _
  exact Bool.eq_false_iff.mp (hclear prio)

/-! ### The search on lists -/

variable (config : Config)

/-- During the search the queues carry lists, the bits that are left cover them, and an item that is
to be put back is on the queue where it is put. -/
structure Searching (lists : Priority → List Index) (ready : BitVec 32) (state : State) : Prop where
  carries : state.runq.Carries lists
  covers : ∀ prio : Priority, lists prio ≠ [] → ready.getLsbD prio.val = true
  homed : ∀ prio, ∀ index ∈ lists prio, verdict state.work index = .keep →
    prioOf config (state.work index) = prio

variable {state : State} {lists : Priority → List Index} {ready : BitVec 32} {prio : Priority}
  {index : Index} {rest : List Index}

theorem dequeue_of_nil (hcarries : state.runq.Carries lists) (hlist : lists prio = []) :
    schedWorkDequeuePrio prio state = none := by
  have hhead : state.runq.head prio = none := (hcarries.head_eq_none prio).mpr hlist
  unfold schedWorkDequeuePrio ThreadedQueues.popFrom
  rw [hhead]
  rfl

/-- The first item of a queue is taken off it. -/
theorem dequeue_of_cons (hcarries : state.runq.Carries lists) (hlist : lists prio = index :: rest) :
    ∃ dequeued, schedWorkDequeuePrio prio state = some (index, dequeued) ∧
      dequeued.runq.Carries (Function.update lists prio rest) ∧ dequeued.work = state.work := by
  have hpath := hcarries.path prio
  rw [hlist] at hpath
  have hhead : state.runq.head prio = some index := hpath.1
  obtain ⟨popped, hpop⟩ : ∃ popped, state.runq.popFrom [prio] = some (index, popped) := by
    unfold ThreadedQueues.popFrom
    rw [hhead]
    exact ⟨_, rfl⟩
  obtain ⟨level, other, hlevel, hother, hrest⟩ := hcarries.popFrom hpop
  obtain rfl : level = prio := List.mem_singleton.mp hlevel
  obtain rfl : rest = other := (List.cons.inj (hlist.symm.trans hother)).2
  unfold schedWorkDequeuePrio
  rw [hpop]
  exact ⟨_, rfl, hrest, rfl⟩

section

variable (hsearching : Searching config lists ready state)

include hsearching

/-- The lists after one of them has got shorter or rotated. -/
theorem Searching.of_update {next : List Index} {after : State}
    (hcarries : after.runq.Carries (Function.update lists prio next))
    (hwork : after.work = state.work)
    (hne : lists prio ≠ []) (hsubset : ∀ index ∈ next, index ∈ lists prio) :
    Searching config (Function.update lists prio next) ready after := by
  refine ⟨hcarries, fun other hother ↦ ?_, fun other index hindex hkeep ↦ ?_⟩
  · by_cases heq : other = prio
    · rw [heq]
      exact hsearching.covers prio hne
    · rw [Function.update_of_ne heq] at hother
      exact hsearching.covers other hother
  · rw [hwork] at hkeep ⊢
    by_cases heq : other = prio
    · subst heq
      rw [Function.update_self] at hindex
      exact hsearching.homed other index (hsubset index hindex) hkeep
    · rw [Function.update_of_ne heq] at hindex
      exact hsearching.homed other index hindex hkeep

section

variable (hbsr : schedBsr32 ready = some prio)

include hbsr

/-- Where the loop on the highest queue goes on, so does the search. -/
theorem Searching.turn {next : List Index}
    (hbody : rotate (verdict state.work) (lists prio) = .inr next) :
    ∃ after, Searching config (Function.update lists prio next) ready after ∧
      after.work = state.work ∧
        ∀ rounds, search config (rounds + 1) ready state = search config rounds ready after := by
  cases hlist : lists prio with
  | nil => simp [rotate, hlist] at hbody
  | cons index rest =>
    obtain ⟨dequeued, hdequeue, hcarries, hwork⟩ := dequeue_of_cons hsearching.carries hlist
    have hne : lists prio ≠ [] := by simp [hlist]
    unfold rotate verdict at hbody
    rw [hlist] at hbody
    dsimp only at hbody
    split_ifs at hbody with hdrop haffinity
    · obtain rfl := Sum.inr.inj hbody
      refine ⟨dequeued,
        hsearching.of_update config hcarries hwork hne (by simp +contextual [hlist]),
        hwork, fun rounds ↦ ?_⟩
      rw [← hwork] at hdrop
      simp only [search, hbsr, hdequeue, if_pos hdrop]
    · obtain rfl := Sum.inr.inj hbody
      have hhome : prioOf config (dequeued.work index) = prio := by
        rw [hwork]
        refine hsearching.homed prio index (by simp [hlist]) ?_
        simp only [verdict, if_neg hdrop, if_pos haffinity]
      have hclear : dequeued.runq.queued index = false := by
        rw [(dequeue_eq_some hdequeue).1 index, if_pos rfl]
      have henqueued : (schedWorkEnqueue config index dequeued).runq.Carries
          (Function.update lists prio (rest ++ [index])) := by
        have hlists : (dequeued.runq.enqueue prio index).Carries _ := hcarries.enqueue hclear
        rw [Function.update_self, Function.update_idem] at hlists
        unfold schedWorkEnqueue
        rw [if_neg (by simp [hclear]), hhome]
        exact hlists
      refine ⟨schedWorkEnqueue config index dequeued, hsearching.of_update config henqueued
        ((enqueue_work config).trans hwork) hne ?_, (enqueue_work config).trans hwork,
        fun rounds ↦ ?_⟩
      · intro other hother
        rw [hlist]
        rcases List.mem_append.mp hother with hrest | hlast
        · exact List.mem_cons_of_mem index hrest
        · rw [List.mem_singleton.mp hlast]
          exact List.mem_cons_self
      · rw [← hwork] at hdrop haffinity
        simp only [search, hbsr, hdequeue, if_neg hdrop, if_pos haffinity]

/-- Where the loop on the highest queue takes an item, the search calls its callback. -/
theorem Searching.call
    (hbody : rotate (verdict state.work) (lists prio) = .inl (some index)) (rounds : ℕ) :
    ∃ after, search config (rounds + 1) ready state = some after ∧ after.running = some index := by
  cases hlist : lists prio with
  | nil => simp [rotate, hlist] at hbody
  | cons first rest =>
    obtain ⟨dequeued, hdequeue, -, hwork⟩ := dequeue_of_cons hsearching.carries hlist
    unfold rotate verdict at hbody
    rw [hlist] at hbody
    dsimp only at hbody
    split_ifs at hbody with hdrop haffinity
    obtain rfl : first = index := Option.some.inj (Sum.inl.inj hbody)
    rw [← hwork] at hdrop haffinity
    simp only [search, hbsr, hdequeue, if_neg hdrop, if_neg haffinity]
    exact ⟨_, rfl, rfl⟩

/-- Where the highest queue is empty, the search goes on without its bit. -/
theorem Searching.skip (hlist : lists prio = []) :
    ∃ after, Searching config lists (ready &&& ~~~(prioBit prio)) after ∧
      after.work = state.work ∧
        ∀ rounds, search config (rounds + 1) ready state =
          search config rounds (ready &&& ~~~(prioBit prio)) after := by
  have hdequeue := dequeue_of_nil hsearching.carries hlist
  refine ⟨{ state with readyBitmap := state.readyBitmap &&& ~~~(prioBit prio) },
    ⟨hsearching.carries, fun other hother ↦ ?_, hsearching.homed⟩, rfl, fun rounds ↦ ?_⟩
  · rw [getLsbD_and_not_prioBit]
    refine ⟨hsearching.covers other hother, ?_⟩
    rintro rfl
    exact hother hlist
  · simp only [search, hbsr, hdequeue]

/-- Where the loop on the highest queue takes an item in the end, the search calls its callback. -/
theorem Searching.calls {count : ℕ} {items : List Index}
    (hexits : Exits (rotate (verdict state.work)) count items (some index))
    (hitems : lists prio = items) :
    ∃ rounds after, search config rounds ready state = some after ∧ after.running = some index := by
  induction count generalizing state lists items with
  | zero =>
    obtain ⟨after, hafter⟩ : ∃ after, search config 1 ready state = some after ∧
        after.running = some index := by
      cases hexits with
      | leave hbody => exact hsearching.call config hbsr (hitems ▸ hbody) 0
    exact ⟨1, after, hafter⟩
  | succ count ih =>
    cases hexits with
    | @turn _ _ next _ hbody hrest =>
      obtain ⟨middle, hmiddle, hwork, hsame⟩ := hsearching.turn config hbsr (hitems ▸ hbody)
      obtain ⟨rounds, after, hsearch, hrunning⟩ :=
        ih hmiddle (hwork ▸ hrest) (Function.update_self prio next lists)
      exact ⟨rounds + 1, after, (hsame rounds).trans hsearch, hrunning⟩

/-- Where the loop on the highest queue empties it, the search goes on with the other queues. -/
theorem Searching.empties {count : ℕ} {items : List Index}
    (hexits : Exits (rotate (verdict state.work)) count items none) (hitems : lists prio = items) :
    ∃ spent after,
      Searching config (Function.update lists prio []) (ready &&& ~~~(prioBit prio)) after ∧
        after.work = state.work ∧
          ∀ rounds, search config (rounds + spent) ready state =
            search config rounds (ready &&& ~~~(prioBit prio)) after := by
  induction count generalizing state lists items with
  | zero =>
    have hempty : lists prio = [] := by
      cases hexits with
      | leave hbody =>
        rw [hitems]
        cases items with
        | nil => rfl
        | cons first rest =>
          cases hverdict : verdict state.work first <;> simp [rotate, hverdict] at hbody
    obtain ⟨after, hafter, hwork, hsame⟩ := hsearching.skip config hbsr hempty
    rw [Function.update_eq_self_iff.mpr hempty.symm]
    exact ⟨1, after, hafter, hwork, hsame⟩
  | succ count ih =>
    cases hexits with
    | @turn _ _ next _ hbody hrest =>
      obtain ⟨middle, hmiddle, hwork, hsame⟩ := hsearching.turn config hbsr (hitems ▸ hbody)
      obtain ⟨spent, after, hafter, hkept, hsearch⟩ :=
        ih hmiddle (hwork ▸ hrest) (Function.update_self prio next lists)
      rw [Function.update_idem] at hafter
      refine ⟨spent + 1, after, hafter, hkept.trans hwork, fun rounds ↦ ?_⟩
      rw [← Nat.add_assoc, hsame, hsearch]

/-- Where the loop on the highest queue does not end, neither does the search. -/
theorem Searching.endless (hends : ¬Ends (rotate (verdict state.work)) (lists prio)) (rounds : ℕ) :
    search config rounds ready state = none := by
  induction rounds generalizing state lists with
  | zero => rfl
  | succ rounds ih =>
    cases hbody : rotate (verdict state.work) (lists prio) with
    | inl result => exact absurd ⟨0, result, .leave hbody⟩ hends
    | inr next =>
      obtain ⟨after, hafter, hwork, hsame⟩ := hsearching.turn config hbsr hbody
      rw [hsame]
      refine ih hafter ?_
      rw [hwork, Function.update_self]
      rintro ⟨count, result, hexits⟩
      exact hends ⟨count + 1, result, .turn hbody hexits⟩

end

end

/-- No item to put back is reached before an item to run. -/
def Clear (work : Index → Work) (lists : Priority → List Index) : Prop :=
  ∀ prio, ∀ index ∈ lists prio, verdict work index = .keep →
    ∃ higher ≥ prio, ∃ other ∈ lists higher, verdict work other = .take

/-- Some item can be run. -/
def HasRunnable (work : Index → Work) (lists : Priority → List Index) : Prop :=
  ∃ prio, ∃ index ∈ lists prio, verdict work index = .take

/-- More rounds find what fewer find. -/
theorem search_mono {after : State} {rounds : ℕ} (more : ℕ)
    (hsearch : search config rounds ready state = some after) :
    search config (rounds + more) ready state = some after := by
  induction rounds generalizing ready state with
  | zero => exact absurd hsearch (Option.some_ne_none _).symm
  | succ rounds ih =>
    rw [Nat.add_right_comm]
    unfold search at hsearch ⊢
    cases hbsr : schedBsr32 ready with
    | none => simpa only [hbsr] using hsearch
    | some prio =>
      simp only [hbsr] at hsearch ⊢
      cases hdequeue : schedWorkDequeuePrio prio state with
      | none =>
        simp only [hdequeue] at hsearch ⊢
        exact ih hsearch
      | some taken =>
        simp only [hdequeue] at hsearch ⊢
        split_ifs at hsearch ⊢ with hdrop haffinity
        · exact ih hsearch
        · exact ih hsearch
        · exact hsearch

theorem mem_of_mem_update {other : Priority}
    (hmem : index ∈ Function.update lists prio [] other) : index ∈ lists other := by
  by_cases heq : other = prio
  · subst heq
    simp at hmem
  · rwa [Function.update_of_ne heq] at hmem

/-- A queue of items to drop matters neither for the items to run nor for those to put back. -/
theorem exists_take_update {work : Index → Work}
    (hdrop : ∀ index ∈ lists prio, verdict work index = .drop) {higher : Priority} :
    (∃ other ∈ Function.update lists prio [] higher, verdict work other = .take) ↔
      ∃ other ∈ lists higher, verdict work other = .take := by
  by_cases heq : higher = prio
  · subst heq
    rw [Function.update_self]
    refine iff_of_false (by simp) ?_
    rintro ⟨other, hmem, htake⟩
    exact absurd (htake.symm.trans (hdrop other hmem)) (by decide)
  · rw [Function.update_of_ne heq]

/-- Emptying a queue of items to drop. -/
theorem clear_update {work : Index → Work}
    (hdrop : ∀ index ∈ lists prio, verdict work index = .drop) :
    Clear work (Function.update lists prio []) ↔ Clear work lists := by
  unfold Clear
  simp only [exists_take_update hdrop]
  refine forall_congr' fun other ↦ ?_
  by_cases heq : other = prio
  · subst heq
    rw [Function.update_self]
    refine iff_of_true (by simp) fun index hmem hkeep ↦ ?_
    exact absurd (hkeep.symm.trans (hdrop index hmem)) (by decide)
  · rw [Function.update_of_ne heq]

/-- What the search comes to: where no item to put back is reached before an item to run it ends,
with the call of a callback where there is an item to run, and otherwise it does not end. -/
theorem Searching.outcome (hsearching : Searching config lists ready state) (bound : ℕ)
    (hbound : ∀ prio : Priority, ready.getLsbD prio.val = true → prio.val < bound) :
    (Clear state.work lists → ∃ rounds after, search config rounds ready state = some after ∧
      (HasRunnable state.work lists → ∃ prio, ∃ index ∈ lists prio,
        verdict state.work index = .take ∧ after.running = some index)) ∧
    (¬Clear state.work lists → ∀ rounds, search config rounds ready state = none) := by
  induction bound generalizing state lists ready with
  | zero =>
    have hclear (prio : Priority) : ready.getLsbD prio.val = false :=
      Bool.eq_false_of_not_eq_true fun hset ↦ absurd (hbound prio hset) (Nat.not_lt_zero _)
    have hempty (prio : Priority) : lists prio = [] := by
      by_contra hne
      exact absurd (hsearching.covers prio hne) (Bool.eq_false_iff.mp (hclear prio))
    have hsearch : search config 1 ready state = some { state with inflight := false } := by
      simp only [search, schedBsr32_eq_none hclear]
    refine ⟨fun _ ↦ ⟨1, _, hsearch, ?_⟩, fun hblocked ↦ ?_⟩
    · rintro ⟨prio, index, hmem, -⟩
      simp [hempty prio] at hmem
    · refine absurd (fun prio index hmem _ ↦ ?_) hblocked
      simp [hempty prio] at hmem
  | succ bound ih =>
    by_cases htop : ∃ hbound : bound < 32, ready.getLsbD bound = true
    · obtain ⟨hbound32, hset⟩ := htop
      generalize hprio : (⟨bound, hbound32⟩ : Priority) = prio
      have hval : prio.val = bound := by rw [← hprio]
      have hhigher (other : Priority) (hother : prio < other) : ready.getLsbD other.val = false :=
        Bool.eq_false_of_not_eq_true fun hbit ↦ by
          have := hbound other hbit
          rw [Fin.lt_def] at hother
          omega
      have hbsr : schedBsr32 ready = some prio := schedBsr32_eq_some (hval ▸ hset) hhigher
      have hlow (other : Priority) (hne : lists other ≠ []) : other ≤ prio := by
        by_contra hlt
        exact absurd (hsearching.covers other hne)
          (Bool.eq_false_iff.mp (hhigher other (not_le.mp hlt)))
      rcases rotate_outcome (verdict state.work) (lists prio) with
        ⟨index, hmem, htake, count, hexits⟩ | ⟨hdrop, hexits⟩ | ⟨⟨index, hmem, hkeep⟩, htake, hends⟩
      · obtain ⟨rounds, after, hsearch, hrunning⟩ := hsearching.calls config hbsr hexits rfl
        refine ⟨fun _ ↦ ⟨rounds, after, hsearch, fun _ ↦ ⟨prio, index, hmem, htake, hrunning⟩⟩,
          fun hblocked ↦ absurd (fun other put hput _ ↦ ?_) hblocked⟩
        exact ⟨prio, hlow other (List.ne_nil_of_mem hput), index, hmem, htake⟩
      · obtain ⟨spent, middle, hmiddle, hwork, hsame⟩ := hsearching.empties config hbsr hexits rfl
        have hless (other : Priority)
            (hbit : (ready &&& ~~~(prioBit prio)).getLsbD other.val = true) :
            other.val < bound := by
          rw [getLsbD_and_not_prioBit] at hbit
          have hlt := hbound other hbit.1
          have hne : other.val ≠ prio.val := fun heq ↦ hbit.2 (Fin.ext heq.symm)
          omega
        obtain ⟨hends, hendless⟩ := ih hmiddle hless
        rw [hwork, clear_update hdrop] at hends hendless
        refine ⟨fun hclear ↦ ?_, fun hblocked rounds ↦ ?_⟩
        · obtain ⟨rounds, after, hsearch, hcalls⟩ := hends hclear
          refine ⟨rounds + spent, after, (hsame rounds).trans hsearch, fun hrunnable ↦ ?_⟩
          obtain ⟨other, hother⟩ := hrunnable
          obtain ⟨found, index, hmem, hcalled⟩ :=
            hcalls ⟨other, (exists_take_update hdrop).mpr hother⟩
          exact ⟨found, index, mem_of_mem_update hmem, hcalled⟩
        · cases hsearch : search config rounds ready state with
          | none => rfl
          | some after =>
            have hlonger := search_mono config spent hsearch
            rw [hsame, hendless hblocked rounds] at hlonger
            exact absurd hlonger (Option.some_ne_none _).symm
      · refine ⟨fun hclear ↦ ?_, fun _ ↦ hsearching.endless config hbsr hends⟩
        obtain ⟨higher, hle, other, hother, htaken⟩ := hclear prio index hmem hkeep
        obtain rfl : higher = prio := le_antisymm (hlow higher (List.ne_nil_of_mem hother)) hle
        exact absurd htaken (htake other hother)
    · refine ih hsearching fun prio hset ↦ ?_
      have hlt := hbound prio hset
      have hne : prio.val ≠ bound := by
        rintro rfl
        exact htop ⟨prio.isLt, hset⟩
      omega

end EynOS.Process.SchedWork
