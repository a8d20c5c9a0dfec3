import EynOS.Process.SchedWorkSearch

/-!
# The end of a timeslice in reachable states

`timesliceEnd_iff` says when the end of a timeslice comes to an end in a state that a run of the
work queues reaches: exactly where no item that only other processors may run is queued above every
item that can be run. `Homed` is the invariant for it: an item that only other processors may run is
on the queue of its own priority, because its callback is never called and its level changes only
when the queues are built anew.
-/

namespace EynOS.Process.SchedWork

open Foundation

variable (config : Config) {state after : State} {lists : Priority → List Index} {prio : Priority}
  {index other : Index} {change : Work → Work}

/-! ### Items and their queues -/

def OnQueue (state : State) (prio : Priority) (index : Index) : Prop :=
  ∃ entries, Path state.runq.next (state.runq.head prio) entries ∧ index ∈ entries

/-- The lists of the queues say which items are on them. -/
theorem onQueue_iff (hcarries : state.runq.Carries lists) :
    OnQueue state prio index ↔ index ∈ lists prio := by
  constructor
  · rintro ⟨entries, hpath, hmem⟩
    rwa [hpath.unique (hcarries.path prio)] at hmem
  · intro hmem
    exact ⟨lists prio, hcarries.path prio, hmem⟩

theorem Sound.queued_iff (hsound : Sound state) :
    state.runq.queued index = true ↔ ∃ prio, OnQueue state prio index := by
  obtain ⟨lists, hcarries, -⟩ := hsound.queues
  rw [hcarries.queued]
  exact exists_congr fun prio ↦ (onQueue_iff hcarries).symm

/-- An item is put on the queue of its priority, and no other item moves. -/
theorem OnQueue.of_enqueue (hcarries : state.runq.Carries lists)
    (hqueue : OnQueue (schedWorkEnqueue config index state) prio other) :
    OnQueue state prio other ∨ other = index ∧ prioOf config (state.work index) = prio := by
  by_cases hqueued : state.runq.queued index = true
  · unfold schedWorkEnqueue at hqueue
    rw [if_pos hqueued] at hqueue
    exact .inl hqueue
  · have hclear : state.runq.queued index = false := Bool.eq_false_of_not_eq_true hqueued
    have hlists : (schedWorkEnqueue config index state).runq.Carries
        (Function.update lists (prioOf config (state.work index))
          (lists (prioOf config (state.work index)) ++ [index])) := by
      unfold schedWorkEnqueue
      rw [if_neg hqueued]
      exact hcarries.enqueue hclear
    rw [onQueue_iff hlists] at hqueue
    rw [onQueue_iff hcarries]
    by_cases heq : prio = prioOf config (state.work index)
    · rw [heq, Function.update_self] at hqueue
      rcases List.mem_append.mp hqueue with hold | hlast
      · exact .inl (heq ▸ hold)
      · exact .inr ⟨List.mem_singleton.mp hlast, heq.symm⟩
    · rw [Function.update_of_ne heq] at hqueue
      exact .inl hqueue

/-- No item moves when the first one is taken off a queue. -/
theorem OnQueue.of_dequeue {taken : Priority} (hsound : Sound state)
    (hdequeue : schedWorkDequeuePrio taken state = some (index, after))
    (hqueue : OnQueue after prio other) : OnQueue state prio other := by
  obtain ⟨lists, hcarries, -⟩ := hsound.queues
  cases hlist : lists taken with
  | nil =>
    rw [dequeue_of_nil hcarries hlist] at hdequeue
    exact absurd hdequeue (Option.some_ne_none _).symm
  | cons first rest =>
    obtain ⟨dequeued, hfirst, hrest, -⟩ := dequeue_of_cons hcarries hlist
    obtain ⟨rfl, rfl⟩ := Prod.mk.inj (Option.some.inj (hfirst.symm.trans hdequeue))
    rw [onQueue_iff hrest] at hqueue
    rw [onQueue_iff hcarries]
    by_cases heq : prio = taken
    · subst heq
      rw [Function.update_self] at hqueue
      rw [hlist]
      exact List.mem_cons_of_mem _ hqueue
    · rwa [Function.update_of_ne heq] at hqueue

/-! ### Items that stay at home -/

/-- Each item that only other processors may run is on the queue of its priority, and no such item
is being run. -/
structure Homed (state : State) : Prop where
  queued : ∀ prio index, OnQueue state prio index → (state.work index).affinityMask % 2 = 0 →
    prioOf config (state.work index) = prio
  running : ∀ index, state.running = some index → (state.work index).affinityMask % 2 = 1

namespace Homed

variable {config}

/-- Changes beside the queues and the items. -/
theorem congr (hhomed : Homed config state) (hrunq : after.runq = state.runq)
    (hwork : after.work = state.work) (hrunning : after.running = state.running) :
    Homed config after := by
  refine ⟨fun prio index hqueue ↦ ?_, fun index hcalled ↦ ?_⟩
  · rw [hwork]
    unfold OnQueue at hqueue
    rw [hrunq] at hqueue
    exact hhomed.queued prio index hqueue
  · rw [hwork]
    exact hhomed.running index (hrunning ▸ hcalled)

/-- A change of one item that leaves its affinity alone, and its priority too where only other
processors may run it. -/
theorem modify (hhomed : Homed config state)
    (haffinity : ∀ work, (change work).affinityMask = work.affinityMask)
    (hprio : (state.work index).affinityMask % 2 = 1 ∨
      prioOf config (change (state.work index)) = prioOf config (state.work index)) :
    Homed config (state.modify index change) := by
  have hmask (other : Index) :
      ((state.modify index change).work other).affinityMask = (state.work other).affinityMask := by
    by_cases heq : other = index
    · simp [State.modify, heq, haffinity]
    · simp [State.modify, Function.update_of_ne heq]
  refine ⟨fun prio other hqueue hbit ↦ ?_, fun other hcalled ↦ ?_⟩
  · rw [hmask] at hbit
    have hold := hhomed.queued prio other hqueue hbit
    by_cases heq : other = index
    · subst heq
      rcases hprio with hbit' | hprio
      · omega
      · simpa [State.modify, hprio] using hold
    · simpa [State.modify, Function.update_of_ne heq] using hold
  · rw [hmask]
    exact hhomed.running other hcalled

/-- Putting an item on the queue of its priority. -/
theorem enqueue (hhomed : Homed config state) (hcarries : state.runq.Carries lists) :
    Homed config (schedWorkEnqueue config index state) := by
  refine ⟨fun prio other hqueue hbit ↦ ?_, fun other hcalled ↦ ?_⟩
  · rw [enqueue_work] at hbit ⊢
    rcases hqueue.of_enqueue config hcarries with hold | ⟨rfl, hhome⟩
    · exact hhomed.queued prio other hold hbit
    · exact hhome
  · rw [enqueue_work]
    rw [enqueue_running] at hcalled
    exact hhomed.running other hcalled

end Homed

/-! ### The boost -/

/-- Building the queues anew queues no other item. -/
theorem requeue_queued {indices : List Index} :
    (requeue config indices state).runq.queued other = state.runq.queued other := by
  induction indices generalizing state with
  | nil => rfl
  | cons index indices ih =>
    unfold requeue
    split_ifs with hskip
    · exact ih
    · rw [ih]
      by_cases heq : other = index
      · rw [heq, enqueue_queued_self config]
        exact (Bool.eq_true_of_not_eq_false fun hclear ↦ hskip (.inr hclear)).symm
      · unfold schedWorkEnqueue
        rw [if_neg (by simp [ThreadedQueues.release_queued])]
        simp only [ThreadedQueues.enqueue_queued, ThreadedQueues.release_queued, if_neg heq]

/-- Once the queues have been built anew each item is on the queue of its priority. -/
theorem homed_requeue {indices : List Index} (hindices : indices.Nodup)
    (hcarries : (state.runq.hide indices).Carries lists)
    (hregistered : ∀ index, state.runq.queued index = true → (state.work index).id ≠ 0)
    (hhome : ∀ prio, ∀ index ∈ lists prio, prioOf config (state.work index) = prio) :
    ∃ rebuilt, (requeue config indices state).runq.Carries rebuilt ∧
      ∀ prio, ∀ index ∈ rebuilt prio, prioOf config (state.work index) = prio := by
  induction indices generalizing state lists with
  | nil =>
    rw [ThreadedQueues.hide_nil] at hcarries
    exact ⟨lists, hcarries, hhome⟩
  | cons index indices ih =>
    obtain ⟨hindex, hrest⟩ := List.nodup_cons.mp hindices
    unfold requeue
    split_ifs with hskip
    · have hclear : state.runq.queued index = false := by
        rcases hskip with hid | hclear
        · exact Bool.eq_false_of_not_eq_true fun hqueued ↦ hregistered index hqueued hid
        · exact hclear
      rw [ThreadedQueues.hide_cons_of_clear hclear] at hcarries
      exact ih hrest hcarries hregistered hhome
    · obtain ⟨hid, hqueued⟩ := not_or.mp hskip
      have hreleased : (state.runq.release index).queued index = false := by
        rw [ThreadedQueues.release_queued, if_pos rfl]
      unfold schedWorkEnqueue
      rw [if_neg (by simp [hreleased])]
      refine ih hrest (hcarries.requeue hindex) ?_ ?_
      · intro other hother
        simp only [ThreadedQueues.enqueue_queued, ThreadedQueues.release_queued] at hother
        split_ifs at hother with heq
        · rw [heq]
          exact hid
        · exact hregistered other hother
      · intro prio other hmem
        by_cases heq : prio = prioOf config (state.work index)
        · subst heq
          rw [Function.update_self] at hmem
          rcases List.mem_append.mp hmem with hold | hlast
          · exact hhome _ other hold
          · rw [List.mem_singleton.mp hlast]
        · rw [Function.update_of_ne heq] at hmem
          exact hhome prio other hmem

/-- Once all queues have been built anew each item is on the queue of its priority. -/
theorem homed_requeueAll
    (hregistered : ∀ index, state.runq.queued index = true → (state.work index).id ≠ 0) :
    ∃ rebuilt, (schedWorkRequeueAll config state).runq.Carries rebuilt ∧
      ∀ prio, ∀ index ∈ rebuilt prio, prioOf config (state.work index) = prio := by
  have hempty : ({ state.runq with head := fun _ ↦ none, tail := fun _ ↦ none }.hide
      (List.finRange 64)).Carries fun _ : Priority ↦ [] :=
    ThreadedQueues.carries_hide (fun _ ↦ rfl) (fun _ ↦ rfl) fun index _ ↦ List.mem_finRange index
  exact homed_requeue config (List.nodup_finRange 64) hempty hregistered (by simp)

def BoostDue (state : State) : Prop :=
  config.mlfq = true ∧
    state.boostIntervalTicks ≤ u32 (state.ticks + 4294967296 - state.lastGlobalBoostTick)

/-- Every registered item is raised to the highest level. -/
def raised (state : State) : State :=
  { state with
    work := fun index ↦
      let work := state.work index
      if work.id = 0 then work
      else
        { work with
          mlfqLevel := schedMlfqLevelHigh
          mlfqSliceLeft := schedMlfqLevelQuantumTicks state schedMlfqLevelHigh
          mlfqLastBoostTick := state.ticks } }

/-- Raising an item changes neither its registration nor what the search looks at. -/
theorem raised_work :
    ((raised state).work index).id = (state.work index).id ∧
      ((raised state).work index).run = (state.work index).run ∧
        ((raised state).work index).budgetLeft = (state.work index).budgetLeft ∧
          ((raised state).work index).affinityMask = (state.work index).affinityMask := by
  unfold raised
  dsimp only
  split_ifs <;> exact ⟨rfl, rfl, rfl, rfl⟩

theorem boost_of_not_due (hdue : ¬BoostDue config state) :
    schedMlfqBoostIfDue config state = state := by
  unfold schedMlfqBoostIfDue
  split_ifs with hmlfq hearly
  · rfl
  · rfl
  · exact absurd ⟨Bool.eq_true_of_not_eq_false hmlfq, Nat.le_of_not_lt hearly⟩ hdue

theorem boost_of_due (hdue : BoostDue config state) :
    schedMlfqBoostIfDue config state =
      { schedWorkRequeueAll config (raised state) with lastGlobalBoostTick := state.ticks } := by
  unfold schedMlfqBoostIfDue
  rw [if_neg (by simp [hdue.1]), if_neg (Nat.not_lt.mpr hdue.2)]
  rfl

/-- What a boost leaves of the items. -/
theorem boost_work (state : State) (index : Index) :
    ((schedMlfqBoostIfDue config state).work index).id = (state.work index).id ∧
      ((schedMlfqBoostIfDue config state).work index).run = (state.work index).run ∧
        ((schedMlfqBoostIfDue config state).work index).budgetLeft =
            (state.work index).budgetLeft ∧
          ((schedMlfqBoostIfDue config state).work index).affinityMask =
            (state.work index).affinityMask := by
  by_cases hdue : BoostDue config state
  · rw [boost_of_due config hdue]
    have hwork : (schedWorkRequeueAll config (raised state)).work = (raised state).work :=
      requeue_work config
    rw [hwork]
    exact raised_work
  · rw [boost_of_not_due config hdue]
    exact ⟨rfl, rfl, rfl, rfl⟩

/-- The queues after a boost. Where it was due, the items that are queued are all on the highest
one, and otherwise the items are where they were. -/
theorem boost_lists (hsound : Sound state) :
    ∃ lists, (schedMlfqBoostIfDue config state).runq.Carries lists ∧
      (BoostDue config state → ∀ prio index, index ∈ lists prio ↔
        prio = 31 ∧ state.runq.queued index = true) ∧
      (¬BoostDue config state → ∀ prio index, index ∈ lists prio ↔ OnQueue state prio index) := by
  by_cases hdue : BoostDue config state
  · have hregistered (index : Index) (hqueued : (raised state).runq.queued index = true) :
        ((raised state).work index).id ≠ 0 := by
      rw [raised_work.1]
      exact hsound.registered index hqueued
    obtain ⟨lists, hcarries, hhome⟩ := homed_requeueAll config hregistered
    have hbits (index : Index) :
        (schedWorkRequeueAll config (raised state)).runq.queued index = state.runq.queued index :=
      requeue_queued config
    have htop (index : Index) (hqueued : state.runq.queued index = true) :
        prioOf config ((raised state).work index) = 31 := by
      unfold raised prioOf
      simp only [hsound.registered index hqueued, hdue.1, ↓reduceIte]
      rfl
    rw [boost_of_due config hdue]
    refine ⟨lists, hcarries, fun _ prio index ↦ ?_, fun hnot ↦ absurd hdue hnot⟩
    rw [← hbits, hcarries.queued]
    constructor
    · intro hmem
      refine ⟨?_, prio, hmem⟩
      rw [← hhome prio index hmem, htop index]
      rw [← hbits, hcarries.queued]
      exact ⟨prio, hmem⟩
    · rintro ⟨rfl, other, hmem⟩
      have hother : prioOf config ((raised state).work index) = 31 := by
        rw [htop index]
        rw [← hbits, hcarries.queued]
        exact ⟨other, hmem⟩
      rwa [← hhome other index hmem, hother] at hmem
  · rw [boost_of_not_due config hdue]
    obtain ⟨lists, hcarries, -⟩ := hsound.queues
    exact ⟨lists, hcarries, fun hnow ↦ absurd hnow hdue, fun _ prio index ↦
      (onQueue_iff hcarries).symm⟩

/-- A boost leaves each item that only other processors may run on the queue of its priority. -/
theorem Homed.boost (hhomed : Homed config state) (hsound : Sound state) :
    Homed config (schedMlfqBoostIfDue config state) := by
  by_cases hdue : BoostDue config state
  · have hregistered (index : Index) (hqueued : (raised state).runq.queued index = true) :
        ((raised state).work index).id ≠ 0 := by
      rw [raised_work.1]
      exact hsound.registered index hqueued
    obtain ⟨lists, hcarries, hhome⟩ := homed_requeueAll config hregistered
    have hrunning : (schedMlfqBoostIfDue config state).running = state.running :=
      (boost_inflight config).1
    refine ⟨fun prio index hqueue _ ↦ ?_, fun index hcalled ↦ ?_⟩
    · rw [boost_of_due config hdue] at hqueue ⊢
      have hwork : (schedWorkRequeueAll config (raised state)).work = (raised state).work :=
        requeue_work config
      rw [hwork]
      exact hhome prio index ((onQueue_iff hcarries).mp hqueue)
    · rw [(boost_work config state index).2.2.2]
      exact hhomed.running index (hrunning ▸ hcalled)
  · rw [boost_of_not_due config hdue]
    exact hhomed

/-! ### Reachable states -/

/-- The search leaves each item that only other processors may run on the queue of its priority. -/
theorem homed_search {rounds : ℕ} {ready : BitVec 32} (hhomed : Homed config state)
    (hsound : Sound state) (hsearch : search config rounds ready state = some after) :
    Homed config after := by
  induction rounds generalizing ready state with
  | zero => exact absurd hsearch (Option.some_ne_none _).symm
  | succ rounds ih =>
    unfold search at hsearch
    cases hbsr : schedBsr32 ready with
    | none =>
      simp only [hbsr, Option.some.injEq] at hsearch
      rw [← hsearch]
      exact hhomed.congr rfl rfl rfl
    | some prio =>
      simp only [hbsr] at hsearch
      cases hdequeue : schedWorkDequeuePrio prio state with
      | none =>
        simp only [hdequeue] at hsearch
        have hkept : Homed config
            { state with readyBitmap := state.readyBitmap &&& ~~~(prioBit prio) } :=
          hhomed.congr rfl rfl rfl
        exact ih hkept (hsound.clear_of_dequeue hdequeue) hsearch
      | some taken =>
        obtain ⟨index, dequeued⟩ := taken
        obtain ⟨-, hwork, hrunning, -⟩ := dequeue_eq_some hdequeue
        have hdequeued := hsound.dequeue hdequeue
        have hid : (dequeued.work index).id ≠ 0 := by
          rw [hwork]
          exact hsound.registered index (hsound.queued_of_dequeue hdequeue)
        have hless : Homed config dequeued := by
          refine ⟨fun other item hqueue ↦ ?_, fun item ↦ ?_⟩
          · rw [hwork]
            exact hhomed.queued other item (hqueue.of_dequeue hsound hdequeue)
          · rw [hwork, hrunning]
            exact hhomed.running item
        simp only [hdequeue] at hsearch
        split_ifs at hsearch with hdrop haffinity
        · exact ih hless hdequeued hsearch
        · obtain ⟨lists, hcarries, -⟩ := hdequeued.queues
          exact ih (hless.enqueue hcarries) (hdequeued.enqueue config hid) hsearch
        · rw [← Option.some.inj hsearch]
          refine ⟨hless.queued, fun item hcalled ↦ ?_⟩
          obtain rfl := Option.some.inj hcalled
          exact Nat.mod_two_ne_zero.mp haffinity

/-- Registering an item puts it on the queue of its priority. -/
theorem homed_register {run : Option ℕ} {priority affinityMask budgetTicks : ℕ}
    (hhomed : Homed config state) (hsound : Sound state) :
    Homed config (schedWorkRegister config run priority affinityMask budgetTicks state).2 := by
  unfold schedWorkRegister
  cases run with
  | none => exact hhomed
  | some callback =>
    dsimp only
    cases hfind : (List.finRange 64).find? fun index ↦ (state.work index).id = 0 with
    | none => exact hhomed
    | some index =>
      dsimp only
      have hfree : (state.work index).id = 0 := by simpa using List.find?_some hfind
      obtain ⟨lists, hcarries, -⟩ := hsound.queues
      have hclear := hsound.queued_eq_false hfree
      have hreleased := hcarries.of_release hclear
      have hplaced {work : Work} : Homed config { state with
          work := Function.update state.work index work
          runq := state.runq.release index } := by
        refine ⟨fun prio other hqueue ↦ ?_, fun other hcalled ↦ ?_⟩
        · have hmem : other ∈ lists prio := (onQueue_iff hreleased).mp hqueue
          have hne : other ≠ index := by
            rintro rfl
            exact hcarries.not_mem hclear prio hmem
          simp only [Function.update_of_ne hne]
          exact hhomed.queued prio other ((onQueue_iff hcarries).mpr hmem)
        · have hne : other ≠ index := by
            rintro rfl
            exact hsound.running other hcalled hfree
          simp only [Function.update_of_ne hne]
          exact hhomed.running other hcalled
      by_cases hbudget : budgetTicks = 0
      · rw [if_pos hbudget]
        exact hplaced
      · rw [if_neg hbudget]
        exact hplaced.enqueue hreleased

/-- Once a callback has returned each item that only other processors may run is still on the queue
of its priority. -/
theorem homed_callbackReturns (hhomed : Homed config state) (hsound : Sound state)
    (hreturns : callbackReturns config state = some after) : Homed config after := by
  unfold callbackReturns at hreturns
  cases hrunning : state.running with
  | none =>
    rw [hrunning] at hreturns
    exact absurd hreturns (Option.some_ne_none _).symm
  | some index =>
    simp only [hrunning, Option.some.injEq] at hreturns
    have hbudgeted : Homed config (state.modify index fun work ↦
        { work with budgetLeft := work.budgetLeft - 1 }) :=
      hhomed.modify (fun _ ↦ rfl) (.inr rfl)
    obtain ⟨lists, hcarries, -⟩ := hsound.queues
    rw [← hreturns]
    generalize hbudget : state.modify index (fun work ↦
      { work with budgetLeft := work.budgetLeft - 1 }) = budgeted at hbudgeted
    have hqueues : budgeted.runq = state.runq := by
      rw [← hbudget]
      rfl
    have hcalled : budgeted.running = some index := by
      rw [← hbudget]
      exact hrunning
    have hcharged : Homed config (schedMlfqAccountRun config index budgeted) := by
      unfold schedMlfqAccountRun
      split_ifs
      · exact hbudgeted
      · refine hbudgeted.modify (fun work ↦ ?_) (.inl (hbudgeted.running index hcalled))
        dsimp only
        split_ifs <;> rfl
    have hchargedQueues : (schedMlfqAccountRun config index budgeted).runq.Carries lists := by
      rw [(accountRun_runq config).1, hqueues]
      exact hcarries
    have hends {used : State} (hused : Homed config used) :
        Homed config { used with running := none, inflight := false } :=
      ⟨hused.queued, fun _ hnone ↦ absurd hnone.symm (Option.some_ne_none _)⟩
    split_ifs
    · exact hends (hcharged.enqueue hchargedQueues)
    · exact hends hcharged

/-- Every event leaves each item that only other processors may run on the queue of its priority. -/
theorem homed_step {event : Event} (hhomed : Homed config state) (hsound : Sound state)
    (hstep : step config state event = some after) : Homed config after := by
  have hmodify {place : Index} {change : Work → Work}
      (haffinity : ∀ work, (change work).affinityMask = work.affinityMask)
      (hprio : ∀ work, prioOf config (change work) = prioOf config work) :
      Homed config (state.modify place change) :=
    hhomed.modify haffinity (.inr (hprio _))
  cases event with
  | register run priority affinityMask budgetTicks =>
    rw [← Option.some.inj hstep]
    exact homed_register config hhomed hsound
  | setReady id =>
    rw [← Option.some.inj hstep]
    unfold schedWorkSetReady
    cases schedWorkGet state id with
    | none => exact hhomed
    | some index =>
      obtain ⟨lists, hcarries, -⟩ := hsound.queues
      refine Homed.enqueue ?_ hcarries
      exact hmodify (fun _ ↦ rfl) fun _ ↦ rfl
  | unready id =>
    rw [← Option.some.inj hstep]
    unfold schedWorkUnready
    cases schedWorkGet state id with
    | none => exact hhomed
    | some index =>
      dsimp only
      exact hmodify (fun _ ↦ rfl) fun _ ↦ rfl
  | updateBudget id budgetTicks =>
    rw [← Option.some.inj hstep]
    unfold schedWorkUpdateBudget
    cases schedWorkGet state id with
    | none => exact hhomed
    | some index =>
      dsimp only
      exact hmodify (fun _ ↦ rfl) fun _ ↦ rfl
  | account index cost =>
    rw [← Option.some.inj hstep]
    unfold schedulerAccount
    split_ifs
    · exact hhomed
    · exact hmodify (fun _ ↦ rfl) fun _ ↦ rfl
  | setTickHz hz =>
    rw [← Option.some.inj hstep]
    exact hhomed.congr rfl rfl rfl
  | tick =>
    rw [← Option.some.inj hstep]
    exact hhomed.congr rfl rfl rfl
  | onTimesliceEnd rounds =>
    change schedWorkOnTimesliceEnd config rounds state = some after at hstep
    unfold schedWorkOnTimesliceEnd at hstep
    split_ifs at hstep with hinflight
    · rw [← Option.some.inj hstep]
      exact hhomed
    · have hused : Sound { state with inflight := true } :=
        ⟨hsound.queues, hsound.registered, hsound.callback, hsound.running, fun _ ↦
          hsound.inflight (Bool.eq_false_of_not_eq_true hinflight)⟩
      have hstart : Homed config { state with inflight := true } := hhomed.congr rfl rfl rfl
      exact homed_search config (hstart.boost config hused) (hused.boost config) hstep
  | callbackReturns => exact homed_callbackReturns config hhomed hsound hstep

/-- In every reachable state the queues are sound and each item that only other processors may run
is on the queue of its priority. -/
theorem homed_run {events : List Event}
    (hrun : Run (Fires (step config)) (schedInit config) events state) :
    Sound state ∧ Homed config state := by
  induction hrun with
  | refl =>
    refine ⟨sound_schedInit config, fun prio index hqueue ↦ ?_, fun index hcalled ↦ ?_⟩
    · have hempty := (sound_schedInit config).queued_iff.mpr ⟨prio, hqueue⟩
      exact absurd hempty Bool.false_ne_true
    · exact absurd hcalled.symm (Option.some_ne_none _)
  | snoc _ hlast ih =>
    obtain ⟨hsound, hhomed⟩ := ih
    exact ⟨(sound_step config hsound hlast).1, homed_step config hhomed hsound hlast⟩

/-! ### When the end of a timeslice comes to an end -/

/-- Each queued item that only other processors may run has an item that can be run on its queue or
on a higher one, or anywhere in the queues where the boost is due. -/
def Unblocked (state : State) : Prop :=
  ∀ prio index, OnQueue state prio index → (state.work index).Rejected →
    ∃ higher other, OnQueue state higher other ∧ (state.work other).Runnable ∧
      (BoostDue config state ∨ prio ≤ higher)

def QueuedOnce (state : State) (index : Index) : Prop :=
  ∃ lists, state.runq.Carries lists ∧ ∃ prio, (lists prio).count index = 1 ∧
    ∀ other ≠ prio, index ∉ lists other

theorem Sound.queuedOnce (hsound : Sound state) (hqueued : state.runq.queued index = true) :
    QueuedOnce state index := by
  obtain ⟨lists, hcarries, -⟩ := hsound.queues
  obtain ⟨prio, hmem⟩ := (hcarries.queued index).mp hqueued
  exact ⟨lists, hcarries, prio, List.count_eq_one_of_mem (hcarries.nodup prio) hmem,
    fun other hne hother ↦ hne (hcarries.disjoint _ _ _ hother hmem)⟩

/-- What the end of a timeslice has done when it stops. It is at the call of the callback of an item
that can be run where there is one, and the items that only other processors may run are queued
once. While the callback is being run no other one is called; once it has returned nothing is being
run and those items are still queued once. -/
structure EndsWith (state after : State) : Prop where
  calls : (∃ index, state.runq.queued index = true ∧ (state.work index).Runnable) →
    ∃ index, after.running = some index ∧ state.runq.queued index = true ∧
      (state.work index).Runnable
  once : ∀ index, state.runq.queued index = true → (state.work index).Rejected →
    QueuedOnce after index
  returns : ∀ events later final, after.running ≠ none →
    (∀ event ∈ events, event ≠ .callbackReturns) →
    Run (Fires (step config)) after events later → callbackReturns config later = some final →
      later.running = after.running ∧ final.running = none ∧
        ∀ index, state.runq.queued index = true → (state.work index).Rejected →
          QueuedOnce final index

/-- The end of a timeslice comes to an end. -/
def EndsProperly (state : State) : Prop :=
  ∃ enough after, (∀ rounds ≥ enough, schedWorkOnTimesliceEnd config rounds state = some after) ∧
    EndsWith config state after

/-- While a callback is being run no other one is called. -/
theorem running_step {event : Event} (hinflight : state.inflight = true)
    (hevent : event ≠ .callbackReturns) (hstep : step config state event = some after) :
    after.running = state.running ∧ after.inflight = true := by
  cases event with
  | register run priority affinityMask budgetTicks =>
    rw [← Option.some.inj hstep]
    unfold schedWorkRegister
    cases run with
    | none => exact ⟨rfl, hinflight⟩
    | some callback =>
      dsimp only
      split
      · exact ⟨rfl, hinflight⟩
      · by_cases hbudget : budgetTicks = 0
        · rw [if_pos hbudget]
          exact ⟨rfl, hinflight⟩
        · rw [if_neg hbudget, enqueue_running, enqueue_inflight]
          exact ⟨rfl, hinflight⟩
  | setReady id =>
    rw [← Option.some.inj hstep]
    unfold schedWorkSetReady
    cases schedWorkGet state id with
    | none => exact ⟨rfl, hinflight⟩
    | some index =>
      dsimp only
      rw [enqueue_running, enqueue_inflight]
      exact ⟨rfl, hinflight⟩
  | unready id =>
    rw [← Option.some.inj hstep]
    unfold schedWorkUnready
    cases schedWorkGet state id <;> exact ⟨rfl, hinflight⟩
  | updateBudget id budgetTicks =>
    rw [← Option.some.inj hstep]
    unfold schedWorkUpdateBudget
    cases schedWorkGet state id <;> exact ⟨rfl, hinflight⟩
  | account index cost =>
    rw [← Option.some.inj hstep]
    unfold schedulerAccount
    split_ifs <;> exact ⟨rfl, hinflight⟩
  | setTickHz hz =>
    rw [← Option.some.inj hstep]
    exact ⟨rfl, hinflight⟩
  | tick =>
    rw [← Option.some.inj hstep]
    exact ⟨rfl, hinflight⟩
  | onTimesliceEnd rounds =>
    change schedWorkOnTimesliceEnd config rounds state = some after at hstep
    unfold schedWorkOnTimesliceEnd at hstep
    rw [if_pos hinflight] at hstep
    rw [← Option.some.inj hstep]
    exact ⟨rfl, hinflight⟩
  | callbackReturns => exact absurd rfl hevent

/-- While a callback is being run every queued item stays queued. -/
theorem running_run {events : List Event} (hsound : Sound state) (hinflight : state.inflight = true)
    (hrunning : state.running ≠ none) (hevents : ∀ event ∈ events, event ≠ .callbackReturns)
    (hrun : Run (Fires (step config)) state events after) :
    Sound after ∧ after.inflight = true ∧ after.running = state.running ∧ Stays state after := by
  induction hrun with
  | refl => exact ⟨hsound, hinflight, rfl, stays_of_runq_eq rfl⟩
  | @snoc events middle next event _ hlast ih =>
    obtain ⟨hmiddle, hused, hsame, hstays⟩ :=
      ih fun event hevent ↦ hevents event (List.mem_append_left _ hevent)
    obtain ⟨hkept, hstill⟩ := running_step config hused
      (hevents event (List.mem_append_right _ (List.mem_singleton_self _))) hlast
    obtain ⟨hnext, hmore | ⟨hidle, -⟩⟩ := sound_step config hmiddle hlast
    · exact ⟨hnext, hstill, hkept.trans hsame, fun index hqueued ↦
        hmore index (hstays index hqueued)⟩
    · exact absurd (hsame.symm.trans hidle) hrunning

/-- The search changes no item, and does not end the use of the queues where it calls a callback. -/
theorem search_eq_some {rounds : ℕ} {ready : BitVec 32} (hinflight : state.inflight = true)
    (hidle : state.running = none) (hsearch : search config rounds ready state = some after) :
    after.work = state.work ∧ (after.running ≠ none → after.inflight = true) := by
  induction rounds generalizing ready state with
  | zero => exact absurd hsearch (Option.some_ne_none _).symm
  | succ rounds ih =>
    unfold search at hsearch
    cases hbsr : schedBsr32 ready with
    | none =>
      simp only [hbsr, Option.some.injEq] at hsearch
      rw [← hsearch]
      exact ⟨rfl, fun hrunning ↦ absurd hidle hrunning⟩
    | some prio =>
      simp only [hbsr] at hsearch
      cases hdequeue : schedWorkDequeuePrio prio state with
      | none =>
        simp only [hdequeue] at hsearch
        generalize hcleared : ({ state with
          readyBitmap := state.readyBitmap &&& ~~~(prioBit prio) } : State) = cleared at hsearch
        have hbeside : cleared.work = state.work ∧ cleared.inflight = state.inflight ∧
            cleared.running = state.running := by
          rw [← hcleared]
          exact ⟨rfl, rfl, rfl⟩
        rw [← hbeside.1]
        exact ih (hbeside.2.1.trans hinflight) (hbeside.2.2.trans hidle) hsearch
      | some taken =>
        obtain ⟨index, dequeued⟩ := taken
        obtain ⟨-, hwork, hsame, hused⟩ := dequeue_eq_some hdequeue
        rw [← hwork]
        rw [← hused] at hinflight
        rw [← hsame] at hidle
        simp only [hdequeue] at hsearch
        split_ifs at hsearch with hdrop haffinity
        · exact ih hinflight hidle hsearch
        · obtain ⟨hkept, hused⟩ := ih ((enqueue_inflight config).trans hinflight)
            ((enqueue_running config).trans hidle) hsearch
          exact ⟨hkept.trans (enqueue_work config), hused⟩
        · rw [← Option.some.inj hsearch]
          exact ⟨rfl, fun _ ↦ hinflight⟩

/-- What the search does with a queued item. -/
theorem verdict_boost (hsound : Sound state) (hqueued : state.runq.queued index = true) :
    (verdict (schedMlfqBoostIfDue config state).work index = .keep ↔ (state.work index).Rejected) ∧
      (verdict (schedMlfqBoostIfDue config state).work index = .take ↔
        (state.work index).Runnable) := by
  obtain ⟨-, hrun, hbudget, haffinity⟩ := boost_work config state index
  have hcallback := hsound.callback index (hsound.registered index hqueued)
  unfold verdict Work.Rejected Work.Runnable
  rw [hrun, hbudget, haffinity]
  by_cases hzero : (state.work index).budgetLeft = 0
  · simp [hzero]
  · rw [if_neg (not_or.mpr ⟨hcallback, hzero⟩)]
    have hpos : 0 < (state.work index).budgetLeft := Nat.pos_of_ne_zero hzero
    by_cases heven : (state.work index).affinityMask % 2 = 0
    · simp [heven, hpos]
    · simp [hpos, Nat.mod_two_ne_zero.mp heven]

/-- On the queues after the boost no item to put back is reached before an item to run, exactly in a
state that is not blocked. -/
theorem clear_iff (hsound : Sound state) (hwork : ∀ index, state.runq.queued index = true →
      (verdict after.work index = .keep ↔ (state.work index).Rejected) ∧
        (verdict after.work index = .take ↔ (state.work index).Runnable))
    (hdue : BoostDue config state → ∀ prio index, index ∈ lists prio ↔
      prio = 31 ∧ state.runq.queued index = true)
    (hearly : ¬BoostDue config state → ∀ prio index, index ∈ lists prio ↔
      OnQueue state prio index) :
    Clear after.work lists ↔ Unblocked config state := by
  have honQueue {index : Index} {prio : Priority} (hqueue : OnQueue state prio index) :
      state.runq.queued index = true := hsound.queued_iff.mpr ⟨prio, hqueue⟩
  by_cases hboost : BoostDue config state
  · have hmem := hdue hboost
    constructor
    · intro hclear prio index hqueue hrejected
      have hqueued := honQueue hqueue
      obtain ⟨higher, -, other, hother, htake⟩ :=
        hclear 31 index ((hmem 31 index).mpr ⟨rfl, hqueued⟩)
        ((hwork index hqueued).1.mpr hrejected)
      have hotherQueued := ((hmem higher other).mp hother).2
      obtain ⟨place, hplace⟩ := hsound.queued_iff.mp hotherQueued
      exact ⟨place, other, hplace, (hwork other hotherQueued).2.mp htake, .inl hboost⟩
    · intro hunblocked prio index hindex hkeep
      obtain ⟨rfl, hqueued⟩ := (hmem prio index).mp hindex
      obtain ⟨place, hplace⟩ := hsound.queued_iff.mp hqueued
      obtain ⟨higher, other, hother, hrunnable, -⟩ :=
        hunblocked place index hplace ((hwork index hqueued).1.mp hkeep)
      have hotherQueued := honQueue hother
      exact ⟨31, le_refl _, other, (hmem 31 other).mpr ⟨rfl, hotherQueued⟩,
        (hwork other hotherQueued).2.mpr hrunnable⟩
  · have hmem := hearly hboost
    constructor
    · intro hclear prio index hqueue hrejected
      obtain ⟨higher, hle, other, hother, htake⟩ := hclear prio index ((hmem prio index).mpr hqueue)
        ((hwork index (honQueue hqueue)).1.mpr hrejected)
      have hplace := (hmem higher other).mp hother
      exact ⟨higher, other, hplace, (hwork other (honQueue hplace)).2.mp htake, .inr hle⟩
    · intro hunblocked prio index hindex hkeep
      have hqueue := (hmem prio index).mp hindex
      obtain ⟨higher, other, hother, hrunnable, hless⟩ :=
        hunblocked prio index hqueue ((hwork index (honQueue hqueue)).1.mp hkeep)
      exact ⟨higher, hless.resolve_left hboost, other, (hmem higher other).mpr hother,
        (hwork other (honQueue hother)).2.mpr hrunnable⟩

/-- The search at the end of a timeslice, once the boost is done. -/
theorem Sound.searching (hsound : Sound state) (hhomed : Homed config state)
    (hcarries : (schedMlfqBoostIfDue config state).runq.Carries lists) :
    Searching config lists (schedMlfqBoostIfDue config state).readyBitmap
      (schedMlfqBoostIfDue config state) := by
  obtain ⟨marked, hmarked, hmarks⟩ := (hsound.boost config).queues
  have hsame : marked = lists :=
    funext fun prio ↦ (hmarked.path prio).unique (hcarries.path prio)
  rw [hsame] at hmarks
  refine ⟨hcarries, fun prio hne ↦ (hmarks prio).mpr hne, fun prio index hmem hkeep ↦ ?_⟩
  refine (hhomed.boost config hsound).queued prio index ((onQueue_iff hcarries).mpr hmem) ?_
  unfold verdict at hkeep
  split_ifs at hkeep with hdrop haffinity
  exact haffinity

/-- Where the queues are sound, the end of a timeslice comes to an end properly in a state that is
not blocked and comes to none in a state that is. -/
theorem endsProperly_iff (hsound : Sound state) (hhomed : Homed config state)
    (hidle : state.inflight = false) :
    (Unblocked config state → EndsProperly config state) ∧
      (¬Unblocked config state → ∀ rounds, schedWorkOnTimesliceEnd config rounds state = none) := by
  have hrunning : state.running = none := hsound.inflight hidle
  have hused : Sound { state with inflight := true } :=
    ⟨hsound.queues, hsound.registered, hsound.callback, hsound.running, fun _ ↦ hrunning⟩
  have hhome : Homed config { state with inflight := true } := hhomed.congr rfl rfl rfl
  generalize hstart : ({ state with inflight := true } : State) = start at hused hhome
  have hqueues : start.runq = state.runq := by rw [← hstart]
  have hitems : start.work = state.work := by rw [← hstart]
  have hend (rounds : ℕ) : schedWorkOnTimesliceEnd config rounds state =
      search config rounds (schedMlfqBoostIfDue config start).readyBitmap
        (schedMlfqBoostIfDue config start) := by
    unfold schedWorkOnTimesliceEnd
    rw [if_neg (by simp [hidle]), ← hstart]
  have hboostDue : BoostDue config start ↔ BoostDue config state := by rw [← hstart]; rfl
  obtain ⟨lists, hcarries, hdue, hearly⟩ := boost_lists config hused
  have hclear : Clear (schedMlfqBoostIfDue config start).work lists ↔ Unblocked config state := by
    rw [clear_iff config hused (fun index hqueued ↦ verdict_boost config hused hqueued) hdue hearly]
    unfold Unblocked OnQueue
    rw [hqueues, hitems, hboostDue]
  obtain ⟨hends, hendless⟩ := (hused.searching config hhome hcarries).outcome config 32
    fun prio _ ↦ prio.isLt
  rw [hclear] at hends hendless
  refine ⟨fun hunblocked ↦ ?_, fun hblocked rounds ↦ (hend rounds).trans (hendless hblocked rounds)⟩
  obtain ⟨enough, after, hsearch, hcalls⟩ := hends hunblocked
  have hboosted : (schedMlfqBoostIfDue config start).running = start.running ∧
      (schedMlfqBoostIfDue config start).inflight = start.inflight := boost_inflight config
  have hidleBoosted : (schedMlfqBoostIfDue config start).running = none := by
    rw [hboosted.1, ← hstart]
    exact hrunning
  have husedBoosted : (schedMlfqBoostIfDue config start).inflight = true := by
    rw [hboosted.2, ← hstart]
  obtain ⟨hafter, hstarts⟩ :=
    sound_search config (hused.boost config) hidleBoosted husedBoosted hsearch
  obtain ⟨hwork, hcalling⟩ := search_eq_some config husedBoosted hidleBoosted hsearch
  have hhomedAfter : Homed config after :=
    homed_search config (hhome.boost config hused) (hused.boost config) hsearch
  have hstays (index : Index) (hqueued : state.runq.queued index = true)
      (hrejected : (state.work index).Rejected) : after.runq.queued index = true := by
    rw [← hqueues] at hqueued
    rw [← hitems] at hrejected
    refine (hstarts index (stays_boost config index hqueued) ?_).resolve_right fun hcalled ↦ ?_
    · rw [boost_budgetLeft]
      exact hrejected.1
    · have hodd := hhomedAfter.running index hcalled
      rw [hwork, (boost_work config start index).2.2.2, hrejected.2] at hodd
      exact absurd hodd (by decide)
  refine ⟨enough, after, fun rounds hrounds ↦ ?_, ?_, fun index hqueued hrejected ↦
    hafter.queuedOnce (hstays index hqueued hrejected), ?_⟩
  · rw [hend, ← Nat.add_sub_cancel' hrounds]
    exact search_mono config (rounds - enough) hsearch
  · rintro ⟨index, hqueued, hrunnable⟩
    rw [← hqueues] at hqueued ⊢
    rw [← hitems] at hrunnable ⊢
    have htake := (verdict_boost config hused hqueued).2.mpr hrunnable
    obtain ⟨prio, hmem⟩ := (hcarries.queued index).mp (stays_boost config index hqueued)
    obtain ⟨place, other, hother, htaken, hcalled⟩ := hcalls ⟨prio, index, hmem, htake⟩
    have hotherQueued : start.runq.queued other = true := by
      by_cases hboost : BoostDue config start
      · exact ((hdue hboost place other).mp hother).2
      · exact hused.queued_iff.mpr ⟨place, (hearly hboost place other).mp hother⟩
    exact ⟨other, hcalled, hotherQueued, (verdict_boost config hused hotherQueued).2.mp htaken⟩
  · intro events later final hcalled hevents hrun hreturns
    obtain ⟨hlater, -, hsame, hkept⟩ :=
      running_run config hafter (hcalling hcalled) hcalled hevents hrun
    obtain ⟨hfinal, hstill⟩ := sound_callbackReturns config hlater hreturns
    refine ⟨hsame, ?_, fun index hqueued hrejected ↦ ?_⟩
    · unfold callbackReturns at hreturns
      cases hlaterRunning : later.running with
      | none => exact absurd (hsame.symm.trans hlaterRunning) hcalled
      | some index =>
        rw [hlaterRunning] at hreturns
        rw [← Option.some.inj hreturns]
    · exact hfinal.queuedOnce (hstill index (hkept index (hstays index hqueued hrejected)))

/-- In a reachable state in which no timeslice is coming to its end, the end of a timeslice comes to
an end properly exactly where no item that only other processors may run is queued above every item
that can be run. -/
theorem timesliceEnd_iff {events : List Event}
    (hrun : Run (Fires (step config)) (schedInit config) events state)
    (hidle : state.inflight = false) : EndsProperly config state ↔ Unblocked config state := by
  obtain ⟨hsound, hhomed⟩ := homed_run config hrun
  obtain ⟨hends, hendless⟩ := endsProperly_iff config hsound hhomed hidle
  refine ⟨fun hproper ↦ ?_, hends⟩
  by_contra hblocked
  obtain ⟨enough, after, hafter, -⟩ := hproper
  exact absurd ((hafter enough (le_refl _)).symm.trans (hendless hblocked enough))
    (Option.some_ne_none _)

theorem onQueue_single (hhead : state.runq.head prio = some index)
    (hnext : state.runq.next index = none) : OnQueue state prio index :=
  ⟨[index], ⟨hhead, hnext⟩, List.mem_singleton_self index⟩

/-- With an item for any processor and one for other processors behind it, the end of a timeslice
comes to an end. -/
theorem timesliceEnd_mixed : ∃ state,
    Run (Fires (step defaultConfig)) (schedInit defaultConfig)
      [.register (some 1) 31 1 1, .register (some 2) 0 2 1] state ∧
      state.inflight = false ∧ EndsProperly defaultConfig state := by
  have hstate : (runLabels (step defaultConfig) (schedInit defaultConfig)
      [.register (some 1) 31 1 1, .register (some 2) 0 2 1]).map
        (fun state ↦ (state.inflight, state.runq.head 31, state.runq.next 0,
          (state.work 0).budgetLeft, (state.work 0).affinityMask)) =
      some (false, some 0, none, 1, 1) := by
    decide +kernel
  obtain ⟨state, hreached, hvalues⟩ := Option.map_eq_some_iff.mp hstate
  simp only [Prod.mk.injEq] at hvalues
  obtain ⟨hidle, hhead, hnext, hbudget, haffinity⟩ := hvalues
  have hrun := Run.of_runLabels hreached
  refine ⟨state, hrun, hidle, (timesliceEnd_iff defaultConfig hrun hidle).mpr ?_⟩
  intro prio index _ _
  refine ⟨31, 0, onQueue_single hhead hnext, ⟨?_, ?_⟩, .inr (Fin.le_last prio)⟩
  · rw [hbudget]
    decide
  · rw [haffinity]

/-- With one item that only the second processor may run, the end of a timeslice does not come to an
end. -/
theorem not_timesliceEnd : ¬∀ events state,
    Run (Fires (step defaultConfig)) (schedInit defaultConfig) events state →
      state.inflight = false → EndsProperly defaultConfig state := by
  intro hall
  have hstate : (runLabels (step defaultConfig) (schedInit defaultConfig)
      [.register (some 1) 31 2 1]).map
        (fun state ↦ (state.inflight, state.runq.head 31, state.runq.next 0,
          (state.work 0).budgetLeft, (state.work 0).affinityMask,
          decide (∀ index, (state.work index).affinityMask % 2 = 0 ∨
            (state.work index).budgetLeft = 0))) =
      some (false, some 0, none, 1, 2, true) := by
    decide +kernel
  obtain ⟨state, hreached, hvalues⟩ := Option.map_eq_some_iff.mp hstate
  simp only [Prod.mk.injEq, decide_eq_true_eq] at hvalues
  obtain ⟨hidle, hhead, hnext, hbudget, haffinity, hothers⟩ := hvalues
  have hrun := Run.of_runLabels hreached
  obtain ⟨hsound, hhomed⟩ := homed_run defaultConfig hrun
  obtain ⟨enough, after, hafter, -⟩ := hall _ state hrun hidle
  have hblocked : ¬Unblocked defaultConfig state := by
    intro hunblocked
    have hrejected : (state.work 0).Rejected := ⟨by rw [hbudget]; decide, by rw [haffinity]⟩
    obtain ⟨-, other, -, hrunnable, -⟩ :=
      hunblocked 31 0 (onQueue_single hhead hnext) hrejected
    rcases hothers other with heven | hzero
    · exact absurd (heven.symm.trans hrunnable.2) (by decide)
    · exact hrunnable.1.ne' hzero
  exact absurd ((hafter enough (le_refl _)).symm.trans
    ((endsProperly_iff defaultConfig hsound hhomed hidle).2 hblocked enough))
    (Option.some_ne_none _)

end EynOS.Process.SchedWork
