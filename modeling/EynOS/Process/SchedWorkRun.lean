import EynOS.Process.SchedWork
import Mathlib.Data.BitVec
import Mathlib.Data.Fin.VecNotation

/-!
# What holds of the work queues in every run

`Sound` says that the run queues carry lists, that the bitmap has the bit of a queue exactly where
its list has an entry, and that only registered items are queued. Every event keeps it.
`work_queues_sound` is this for whole runs, together with what it is good for: an item with budget
left only leaves the queues when the end of a timeslice calls its callback.
-/

namespace EynOS.Process.SchedWork

open Foundation

/-! ### The bitmap -/

/-- The bits of the queues whose lists have an entry are set. -/
def Marks (bitmap : BitVec 32) (lists : Priority → List Index) : Prop :=
  ∀ prio : Priority, bitmap.getLsbD prio.val = true ↔ lists prio ≠ []

theorem getLsbD_prioBit (prio other : Priority) :
    (prioBit prio).getLsbD other.val = decide (prio = other) := by
  have hbit : prioBit prio = BitVec.twoPow 32 prio.val := rfl
  rw [hbit, BitVec.getLsbD_twoPow]
  simp [Fin.ext_iff]

theorem getLsbD_or_prioBit (bitmap : BitVec 32) (prio other : Priority) :
    (bitmap ||| prioBit prio).getLsbD other.val = true ↔
      bitmap.getLsbD other.val = true ∨ prio = other := by
  rw [BitVec.getLsbD_or, getLsbD_prioBit]
  simp

theorem getLsbD_and_not_prioBit (bitmap : BitVec 32) (prio other : Priority) :
    (bitmap &&& ~~~(prioBit prio)).getLsbD other.val = true ↔
      bitmap.getLsbD other.val = true ∧ prio ≠ other := by
  rw [BitVec.getLsbD_and, BitVec.getLsbD_not, getLsbD_prioBit]
  simp

namespace Marks

variable {bitmap : BitVec 32} {lists : Priority → List Index} {prio : Priority} {index : Index}
  {rest : List Index} {head : Option Index}

/-- An entry behind a list marks its queue, which was already marked unless the list was empty. -/
theorem enqueue (hmarks : Marks bitmap lists) (hhead : head = none ↔ lists prio = []) :
    Marks (if head = none then bitmap ||| prioBit prio else bitmap)
      (Function.update lists prio (lists prio ++ [index])) := by
  intro other
  by_cases hother : prio = other
  · subst hother
    split_ifs with hnone
    · rw [getLsbD_or_prioBit, Function.update_self]
      exact iff_of_true (Or.inr rfl) (by simp)
    · rw [hmarks prio, Function.update_self]
      exact iff_of_true (fun hempty ↦ hnone (hhead.mpr hempty)) (by simp)
  · rw [Function.update_of_ne (Ne.symm hother), ← hmarks other]
    split_ifs
    · rw [getLsbD_or_prioBit, or_iff_left hother]
    · rfl

/-- A queue keeps its mark until its list is empty. -/
theorem dequeue (hmarks : Marks bitmap lists) (hlist : lists prio = index :: rest)
    (hhead : head = none ↔ rest = []) :
    Marks (if head = none then bitmap &&& ~~~(prioBit prio) else bitmap)
      (Function.update lists prio rest) := by
  intro other
  by_cases hother : prio = other
  · subst hother
    rw [Function.update_self]
    split_ifs with hnone
    · rw [getLsbD_and_not_prioBit]
      exact iff_of_false (fun hset ↦ hset.2 rfl) (not_not.mpr (hhead.mp hnone))
    · rw [hmarks prio, hlist]
      exact iff_of_true (by simp) fun hempty ↦ hnone (hhead.mpr hempty)
  · rw [Function.update_of_ne (Ne.symm hother), ← hmarks other]
    split_ifs
    · rw [getLsbD_and_not_prioBit, and_iff_left hother]
    · rfl

/-- Taking the mark of an empty queue away changes nothing. -/
theorem clear (hmarks : Marks bitmap lists) (hlist : lists prio = []) :
    Marks (bitmap &&& ~~~(prioBit prio)) lists := by
  intro other
  rw [getLsbD_and_not_prioBit, hmarks other]
  refine and_iff_left_of_imp fun hentry hother ↦ hentry ?_
  rw [← hother]
  exact hlist

end Marks

/-! ### The invariant -/

/-- The run queues are lists and the bitmap marks the ones with entries, an item that is queued is
registered and has a callback, and a callback is only being run while the queues are in use. -/
structure Sound (state : State) : Prop where
  queues : ∃ lists, state.runq.Carries lists ∧ Marks state.readyBitmap lists
  registered : ∀ index, state.runq.queued index = true → (state.work index).id ≠ 0
  callback : ∀ index, (state.work index).id ≠ 0 → (state.work index).run ≠ none
  running : ∀ index, state.running = some index → (state.work index).id ≠ 0
  inflight : state.inflight = false → state.running = none

def Stays (before after : State) : Prop :=
  ∀ index, before.runq.queued index = true → after.runq.queued index = true

/-- Every item that is queued with some budget left stays queued, unless its callback is called. -/
def Starts (before after : State) : Prop :=
  ∀ index, before.runq.queued index = true → 0 < (before.work index).budgetLeft →
    after.runq.queued index = true ∨ after.running = some index

variable (config : Config) {state before after : State} {index : Index} {prio : Priority}
  {change : Work → Work}

theorem stays_of_runq_eq (hrunq : after.runq = before.runq) : Stays before after := by
  intro index hindex
  rw [hrunq]
  exact hindex

/-- Queueing an item keeps every other one queued. -/
theorem stays_enqueue : Stays state (schedWorkEnqueue config index state) := by
  intro other hother
  unfold schedWorkEnqueue
  split_ifs
  · exact hother
  · simp only [ThreadedQueues.enqueue_queued]
    split_ifs
    · rfl
    · exact hother

theorem enqueue_queued_self : (schedWorkEnqueue config index state).runq.queued index = true := by
  unfold schedWorkEnqueue
  split_ifs with hqueued
  · exact hqueued
  · simp only [ThreadedQueues.enqueue_queued, if_pos]

theorem enqueue_work : (schedWorkEnqueue config index state).work = state.work := by
  unfold schedWorkEnqueue
  split_ifs <;> rfl

/-- Queueing an item calls no callback. -/
theorem enqueue_running : (schedWorkEnqueue config index state).running = state.running := by
  unfold schedWorkEnqueue
  split_ifs <;> rfl

/-- Queueing an item does not end the use of the queues. -/
theorem enqueue_inflight : (schedWorkEnqueue config index state).inflight = state.inflight := by
  unfold schedWorkEnqueue
  split_ifs <;> rfl

/-- What taking the first item of a queue leaves. -/
theorem dequeue_cases (hdequeue : schedWorkDequeuePrio prio before = some (index, after)) :
    ∃ runq, before.runq.popFrom [prio] = some (index, runq) ∧ after =
      { before with
        runq := runq
        readyBitmap :=
          if runq.head prio = none then before.readyBitmap &&& ~~~(prioBit prio)
          else before.readyBitmap } := by
  unfold schedWorkDequeuePrio at hdequeue
  cases hpop : before.runq.popFrom [prio] with
  | none =>
    rw [hpop] at hdequeue
    exact absurd hdequeue (Option.some_ne_none _).symm
  | some popped =>
    obtain ⟨first, runq⟩ := popped
    simp only [hpop, Option.some.injEq, Prod.mk.injEq] at hdequeue
    obtain ⟨rfl, rfl⟩ := hdequeue
    exact ⟨runq, rfl, rfl⟩

namespace Sound

/-- Changes beside the queues that keep the registrations. -/
theorem congr (hsound : Sound before) (hrunq : after.runq = before.runq)
    (hbitmap : after.readyBitmap = before.readyBitmap)
    (hid : ∀ index, (after.work index).id = (before.work index).id)
    (hrun : ∀ index, (after.work index).run = (before.work index).run)
    (hrunning : after.running = before.running) (hinflight : after.inflight = before.inflight) :
    Sound after where
  queues := by
    rw [hrunq, hbitmap]
    exact hsound.queues
  registered index hqueued := by
    rw [hid index]
    rw [hrunq] at hqueued
    exact hsound.registered index hqueued
  callback index hindex := by
    rw [hid index] at hindex
    rw [hrun index]
    exact hsound.callback index hindex
  running index hindex := by
    rw [hid index]
    rw [hrunning] at hindex
    exact hsound.running index hindex
  inflight := by
    rw [hrunning, hinflight]
    exact hsound.inflight

/-- A change of one item that keeps its registration. -/
theorem modify (hsound : Sound state) (hid : ∀ work, (change work).id = work.id)
    (hrun : ∀ work, (change work).run = work.run) : Sound (state.modify index change) := by
  refine hsound.congr rfl rfl (fun other ↦ ?_) (fun other ↦ ?_) rfl rfl
  · by_cases hother : other = index
    · subst hother
      simp [State.modify, hid]
    · simp [State.modify, Function.update_of_ne hother]
  · by_cases hother : other = index
    · subst hother
      simp [State.modify, hrun]
    · simp [State.modify, Function.update_of_ne hother]

/-- Queueing a registered item. -/
theorem enqueue (hsound : Sound state) (hid : (state.work index).id ≠ 0) :
    Sound (schedWorkEnqueue config index state) := by
  unfold schedWorkEnqueue
  split_ifs with hqueued
  · exact hsound
  · obtain ⟨lists, hcarries, hmarks⟩ := hsound.queues
    have hclear : state.runq.queued index = false := Bool.eq_false_of_not_eq_true hqueued
    constructor
    · exact ⟨_, hcarries.enqueue hclear, hmarks.enqueue (hcarries.head_eq_none _)⟩
    · intro other hother
      simp only [ThreadedQueues.enqueue_queued] at hother
      split_ifs at hother with heq
      · rw [heq]
        exact hid
      · exact hsound.registered other hother
    · exact hsound.callback
    · exact hsound.running
    · exact hsound.inflight

/-- Taking the first item of a queue. -/
theorem dequeue (hsound : Sound before)
    (hdequeue : schedWorkDequeuePrio prio before = some (index, after)) : Sound after := by
  obtain ⟨runq, hpop, rfl⟩ := dequeue_cases hdequeue
  obtain ⟨lists, hcarries, hmarks⟩ := hsound.queues
  obtain ⟨level, rest, hlevel, hlist, hrest⟩ := hcarries.popFrom hpop
  obtain rfl : level = prio := List.mem_singleton.mp hlevel
  constructor
  · refine ⟨_, hrest, hmarks.dequeue hlist ?_⟩
    rw [hrest.head_eq_none, Function.update_self]
  · intro other hother
    simp only [ThreadedQueues.popFrom_queued hpop] at hother
    split_ifs at hother with heq
    exact hsound.registered other hother
  · exact hsound.callback
  · exact hsound.running
  · exact hsound.inflight

end Sound

/-! ### Rebuilding the queues -/

/-- Putting back the items that were queued, while the bits of those that are still to be put back
do not count. -/
theorem sound_requeue {indices : List Index} {lists : Priority → List Index}
    (hindices : indices.Nodup) (hcarries : (state.runq.hide indices).Carries lists)
    (hmarks : Marks state.readyBitmap lists)
    (hregistered : ∀ index, state.runq.queued index = true → (state.work index).id ≠ 0)
    (hcallback : ∀ index, (state.work index).id ≠ 0 → (state.work index).run ≠ none)
    (hrunning : ∀ index, state.running = some index → (state.work index).id ≠ 0)
    (hinflight : state.inflight = false → state.running = none) :
    Sound (requeue config indices state) := by
  induction indices generalizing state lists with
  | nil =>
    rw [ThreadedQueues.hide_nil] at hcarries
    exact ⟨⟨lists, hcarries, hmarks⟩, hregistered, hcallback, hrunning, hinflight⟩
  | cons index indices ih =>
    obtain ⟨hindex, hrest⟩ := List.nodup_cons.mp hindices
    unfold requeue
    split_ifs with hskip
    · have hclear : state.runq.queued index = false := by
        rcases hskip with hid | hclear
        · exact Bool.eq_false_of_not_eq_true fun hqueued ↦ hregistered index hqueued hid
        · exact hclear
      rw [ThreadedQueues.hide_cons_of_clear hclear] at hcarries
      exact ih hrest hcarries hmarks hregistered hcallback hrunning hinflight
    · obtain ⟨hid, hqueued⟩ := not_or.mp hskip
      have hempty := hcarries.head_eq_none (prioOf config (state.work index))
      have hreleased : (state.runq.release index).queued index = false := by
        rw [ThreadedQueues.release_queued, if_pos rfl]
      unfold schedWorkEnqueue
      rw [if_neg (by simp [hreleased])]
      refine ih hrest (hcarries.requeue hindex) (hmarks.enqueue hempty) ?_ hcallback hrunning
        hinflight
      intro other hother
      simp only [ThreadedQueues.enqueue_queued, ThreadedQueues.release_queued] at hother
      split_ifs at hother with heq
      · rw [heq]
        exact hid
      · exact hregistered other hother

/-- Putting items back keeps every item queued. -/
theorem stays_requeue {indices : List Index} : Stays state (requeue config indices state) := by
  induction indices generalizing state with
  | nil => exact stays_of_runq_eq rfl
  | cons index indices ih =>
    unfold requeue
    split_ifs
    · exact ih
    · intro other hother
      refine ih other ?_
      by_cases heq : other = index
      · rw [heq]
        exact enqueue_queued_self config
      · refine stays_enqueue config other ?_
        rw [ThreadedQueues.release_queued, if_neg heq]
        exact hother

/-- Putting items back changes no item. -/
theorem requeue_work {indices : List Index} : (requeue config indices state).work = state.work := by
  induction indices generalizing state with
  | nil => rfl
  | cons index indices ih =>
    unfold requeue
    split_ifs
    · exact ih
    · rw [ih, enqueue_work]

/-- Putting items back calls no callback and does not end the use of the queues. -/
theorem requeue_inflight {indices : List Index} :
    (requeue config indices state).running = state.running ∧
      (requeue config indices state).inflight = state.inflight := by
  induction indices generalizing state with
  | nil => exact ⟨rfl, rfl⟩
  | cons index indices ih =>
    unfold requeue
    split_ifs
    · exact ih
    · rw [ih.1, ih.2, enqueue_running, enqueue_inflight]
      exact ⟨rfl, rfl⟩

/-- Building the queues anew. -/
theorem Sound.requeueAll (hsound : Sound state) : Sound (schedWorkRequeueAll config state) := by
  have hempty : ({ state.runq with head := fun _ ↦ none, tail := fun _ ↦ none }.hide
      (List.finRange 64)).Carries fun _ : Priority ↦ [] := by
    refine ThreadedQueues.carries_hide ?_ ?_ ?_
    · exact fun _ ↦ rfl
    · exact fun _ ↦ rfl
    · exact fun index _ ↦ List.mem_finRange index
  refine sound_requeue config (List.nodup_finRange 64) hempty ?_
    hsound.registered hsound.callback hsound.running hsound.inflight
  intro other
  simp

theorem Sound.boost (hsound : Sound state) : Sound (schedMlfqBoostIfDue config state) := by
  unfold schedMlfqBoostIfDue
  split_ifs
  · exact hsound
  · exact hsound
  · have hraised : Sound { state with
        work := fun index ↦
          let work := state.work index
          if work.id = 0 then work
          else
            { work with
              mlfqLevel := schedMlfqLevelHigh
              mlfqSliceLeft := schedMlfqLevelQuantumTicks state schedMlfqLevelHigh
              mlfqLastBoostTick := state.ticks } } := by
      refine hsound.congr rfl rfl (fun index ↦ ?_) (fun index ↦ ?_) rfl rfl
      · dsimp only
        split_ifs <;> rfl
      · dsimp only
        split_ifs <;> rfl
    exact (hraised.requeueAll config).congr rfl rfl (fun _ ↦ rfl) (fun _ ↦ rfl) rfl rfl

/-- A boost keeps every item queued. -/
theorem stays_boost : Stays state (schedMlfqBoostIfDue config state) := by
  unfold schedMlfqBoostIfDue
  split_ifs
  · exact stays_of_runq_eq rfl
  · exact stays_of_runq_eq rfl
  · intro index hindex
    exact stays_requeue config index hindex

theorem boost_budgetLeft (index : Index) :
    ((schedMlfqBoostIfDue config state).work index).budgetLeft = (state.work index).budgetLeft := by
  unfold schedMlfqBoostIfDue
  split_ifs with _ _
  · rfl
  · rfl
  · unfold schedWorkRequeueAll
    dsimp only
    rw [requeue_work]
    dsimp only
    split_ifs <;> rfl

/-- A boost calls no callback and does not end the use of the queues. -/
theorem boost_inflight :
    (schedMlfqBoostIfDue config state).running = state.running ∧
      (schedMlfqBoostIfDue config state).inflight = state.inflight := by
  unfold schedMlfqBoostIfDue
  split_ifs
  · exact ⟨rfl, rfl⟩
  · exact ⟨rfl, rfl⟩
  · exact requeue_inflight config

/-! ### The end of a timeslice -/

/-- The first item of a queue that has one is taken off it, and nothing else happens to it. -/
theorem dequeue_eq_some (hdequeue : schedWorkDequeuePrio prio before = some (index, after)) :
    (∀ other, after.runq.queued other = if other = index then false else before.runq.queued other) ∧
      after.work = before.work ∧ after.running = before.running ∧
        after.inflight = before.inflight := by
  obtain ⟨runq, hpop, rfl⟩ := dequeue_cases hdequeue
  exact ⟨ThreadedQueues.popFrom_queued hpop, rfl, rfl, rfl⟩

/-- Only an item that was queued is taken off a queue. -/
theorem Sound.queued_of_dequeue (hsound : Sound before)
    (hdequeue : schedWorkDequeuePrio prio before = some (index, after)) :
    before.runq.queued index = true := by
  obtain ⟨lists, hcarries, _⟩ := hsound.queues
  obtain ⟨runq, hpop, rfl⟩ := dequeue_cases hdequeue
  obtain ⟨level, rest, _, hlist, _⟩ := hcarries.popFrom hpop
  rw [hcarries.queued index]
  exact ⟨level, by simp [hlist]⟩

/-- Where a queue has no first item, its mark is gone already. -/
theorem Sound.clear_of_dequeue (hsound : Sound state)
    (hdequeue : schedWorkDequeuePrio prio state = none) :
    Sound { state with readyBitmap := state.readyBitmap &&& ~~~(prioBit prio) } := by
  obtain ⟨lists, hcarries, hmarks⟩ := hsound.queues
  have hempty : lists prio = [] := by
    rw [← hcarries.head_eq_none prio]
    cases hhead : state.runq.head prio with
    | none => rfl
    | some first =>
      unfold schedWorkDequeuePrio ThreadedQueues.popFrom at hdequeue
      simp [hhead] at hdequeue
  exact ⟨⟨lists, hcarries, hmarks.clear hempty⟩, hsound.registered, hsound.callback, hsound.running,
    hsound.inflight⟩

/-- The search for an item to run drops only items without budget, and ends with the call of a
callback where it takes another item off its queue. -/
theorem sound_search {rounds : ℕ} {ready : BitVec 32} (hsound : Sound state)
    (hrunning : state.running = none) (hinflight : state.inflight = true)
    (hsearch : search config rounds ready state = some after) :
    Sound after ∧ Starts state after := by
  induction rounds generalizing ready state with
  | zero => exact absurd hsearch (Option.some_ne_none _).symm
  | succ rounds ih =>
    unfold search at hsearch
    cases hbsr : schedBsr32 ready with
    | none =>
      simp only [hbsr, Option.some.injEq] at hsearch
      rw [← hsearch]
      refine ⟨⟨hsound.queues, hsound.registered, hsound.callback, hsound.running, ?_⟩, ?_⟩
      · exact fun _ ↦ hrunning
      · exact fun index hindex _ ↦ Or.inl hindex
    | some prio =>
      simp only [hbsr] at hsearch
      cases hdequeue : schedWorkDequeuePrio prio state with
      | none =>
        simp only [hdequeue] at hsearch
        obtain ⟨hafter, hstarts⟩ :=
          ih (hsound.clear_of_dequeue hdequeue) hrunning hinflight hsearch
        exact ⟨hafter, hstarts⟩
      | some taken =>
        obtain ⟨index, dequeued⟩ := taken
        obtain ⟨hbits, hwork, hrunningEq, hinflightEq⟩ := dequeue_eq_some hdequeue
        have hdequeued := hsound.dequeue hdequeue
        have hid : (dequeued.work index).id ≠ 0 := by
          rw [hwork]
          exact hsound.registered index (hsound.queued_of_dequeue hdequeue)
        have hother (other : Index) (hne : other ≠ index)
          (hqueued : state.runq.queued other = true) :
            dequeued.runq.queued other = true := by
          rw [hbits other, if_neg hne]
          exact hqueued
        rw [← hrunningEq] at hrunning
        rw [← hinflightEq] at hinflight
        simp only [hdequeue] at hsearch
        split_ifs at hsearch with hdrop haffinity
        · obtain ⟨hafter, hstarts⟩ := ih hdequeued hrunning hinflight hsearch
          refine ⟨hafter, fun other hqueued hbudget ↦ ?_⟩
          rw [← hwork] at hbudget
          refine hstarts other (hother other ?_ hqueued) hbudget
          -- the item that is dropped has a callback and therefore no budget
          rintro rfl
          rcases hdrop with hrun | hzero
          · exact hdequeued.callback _ hid hrun
          · exact hbudget.ne' hzero
        · obtain ⟨hafter, hstarts⟩ := ih (hdequeued.enqueue config hid)
            (by rw [enqueue_running, hrunning]) (by rw [enqueue_inflight, hinflight]) hsearch
          refine ⟨hafter, fun other hqueued hbudget ↦ ?_⟩
          rw [← hwork] at hbudget
          refine hstarts other ?_ (by rwa [enqueue_work])
          by_cases heq : other = index
          · rw [heq]
            exact enqueue_queued_self config
          · exact stays_enqueue config other (hother other heq hqueued)
        · rw [← Option.some.inj hsearch]
          constructor
          · refine ⟨hdequeued.queues, hdequeued.registered, hdequeued.callback, ?_, ?_⟩
            · intro other hcalled
              rw [← Option.some.inj hcalled]
              exact hid
            · intro hidle
              exact absurd (hinflight.symm.trans hidle) (by decide)
          · intro other hqueued _
            by_cases heq : other = index
            · right
              rw [heq]
            · exact Or.inl (hother other heq hqueued)

/-- The end of a timeslice keeps the queues sound, and is the only event that takes an item with
budget off them. -/
theorem sound_onTimesliceEnd {rounds : ℕ} (hsound : Sound state)
    (hend : schedWorkOnTimesliceEnd config rounds state = some after) :
    Sound after ∧ (Stays state after ∨ state.running = none ∧ Starts state after) := by
  unfold schedWorkOnTimesliceEnd at hend
  split_ifs at hend with hinflight
  · rw [← Option.some.inj hend]
    exact ⟨hsound, Or.inl fun _ hqueued ↦ hqueued⟩
  · have hrunning : state.running = none :=
      hsound.inflight (Bool.eq_false_of_not_eq_true hinflight)
    have hused : Sound { state with inflight := true } :=
      ⟨hsound.queues, hsound.registered, hsound.callback, hsound.running, fun _ ↦ hrunning⟩
    obtain ⟨hafter, hstarts⟩ := sound_search config (hused.boost config)
      ((boost_inflight config).1.trans hrunning) (boost_inflight config).2 hend
    refine ⟨hafter, Or.inr ⟨hrunning, fun index hqueued hbudget ↦ ?_⟩⟩
    refine hstarts index (stays_boost config index hqueued) ?_
    rw [boost_budgetLeft]
    exact hbudget

/-! ### The operations on one item -/

theorem id_ne_zero_of_get {id : ℕ} (hget : schedWorkGet state id = some index) :
    (state.work index).id ≠ 0 := by
  unfold schedWorkGet at hget
  split_ifs at hget with hid hbound hfound
  rw [← Option.some.inj hget, hfound]
  exact hid

section

variable (hsound : Sound state)

include hsound

theorem Sound.queued_eq_false (hfree : (state.work index).id = 0) :
    state.runq.queued index = false :=
  Bool.eq_false_of_not_eq_true fun hqueued ↦ hsound.registered index hqueued hfree

/-- An item in a place without one, whose link and bit are forgotten. -/
theorem Sound.place {work : Work} (hfree : (state.work index).id = 0)
    (hid : work.id ≠ 0) (hrun : work.run ≠ none) :
    Sound { state with
      work := Function.update state.work index work
      runq := state.runq.release index } := by
  have hclear := hsound.queued_eq_false hfree
  have hbits (other : Index) (hqueued : (state.runq.release index).queued other = true) :
      other ≠ index ∧ state.runq.queued other = true := by
    rw [ThreadedQueues.release_queued] at hqueued
    split_ifs at hqueued with heq
    exact ⟨heq, hqueued⟩
  refine ⟨?_, ?_, ?_, ?_, hsound.inflight⟩
  · obtain ⟨lists, hcarries, hmarks⟩ := hsound.queues
    exact ⟨lists, hcarries.of_release hclear, hmarks⟩
  · intro other hqueued
    obtain ⟨hne, hold⟩ := hbits other hqueued
    simpa only [Function.update_of_ne hne] using hsound.registered other hold
  · intro other hother
    by_cases heq : other = index
    · simpa only [heq, Function.update_self] using hrun
    · simp only [Function.update_of_ne heq] at hother ⊢
      exact hsound.callback other hother
  · intro other hcalled
    by_cases heq : other = index
    · simpa only [heq, Function.update_self] using hid
    · simpa only [Function.update_of_ne heq] using hsound.running other hcalled

/-- Forgetting the link and the bit of a place without an item keeps every item queued. -/
theorem Sound.stays_place (hfree : (state.work index).id = 0)
    (hrunq : after.runq = state.runq.release index) : Stays state after := by
  intro other hqueued
  have hne : other ≠ index := by
    rintro rfl
    exact absurd ((hsound.queued_eq_false hfree).symm.trans hqueued) (by decide)
  rw [hrunq, ThreadedQueues.release_queued, if_neg hne]
  exact hqueued

/-- Registering an item puts it in a free place, and queues it where it has a budget. -/
theorem sound_register {run : Option ℕ} {priority affinityMask budgetTicks : ℕ} :
    Sound (schedWorkRegister config run priority affinityMask budgetTicks state).2 ∧
      Stays state (schedWorkRegister config run priority affinityMask budgetTicks state).2 := by
  unfold schedWorkRegister
  cases run with
  | none => exact ⟨hsound, stays_of_runq_eq rfl⟩
  | some callback =>
    dsimp only
    cases hfind : (List.finRange 64).find? fun index ↦ (state.work index).id = 0 with
    | none => exact ⟨hsound, stays_of_runq_eq rfl⟩
    | some index =>
      dsimp only
      have hfree : (state.work index).id = 0 := by simpa using List.find?_some hfind
      by_cases hbudget : budgetTicks = 0
      · rw [if_pos hbudget]
        constructor
        · exact hsound.place hfree (Nat.succ_ne_zero _) (Option.some_ne_none _)
        · exact hsound.stays_place hfree rfl
      · rw [if_neg hbudget]
        constructor
        · refine (hsound.place hfree ?_ ?_).enqueue config ?_
          · exact Nat.succ_ne_zero _
          · exact Option.some_ne_none _
          · simp only [Function.update_self]
            exact Nat.succ_ne_zero _
        · intro other hqueued
          refine stays_enqueue config other ?_
          exact hsound.stays_place hfree rfl other hqueued

/-- Making an item ready refills and queues it. -/
theorem sound_setReady {id : ℕ} :
    Sound (schedWorkSetReady config id state).2 ∧
      Stays state (schedWorkSetReady config id state).2 := by
  unfold schedWorkSetReady
  cases hget : schedWorkGet state id with
  | none => exact ⟨hsound, stays_of_runq_eq rfl⟩
  | some index =>
    constructor
    · refine (hsound.modify ?_ ?_).enqueue config ?_
      · exact fun _ ↦ rfl
      · exact fun _ ↦ rfl
      · simpa [State.modify] using id_ne_zero_of_get hget
    · intro other hqueued
      exact stays_enqueue config other hqueued

/-- Using up a quantum. -/
theorem sound_accountRun :
    Sound (schedMlfqAccountRun config index state) := by
  unfold schedMlfqAccountRun
  split_ifs
  · exact hsound
  · refine hsound.modify (fun work ↦ ?_) fun work ↦ ?_
    · dsimp only
      split_ifs <;> rfl
    · dsimp only
      split_ifs <;> rfl

end

/-- Using up a quantum changes no queue, and no callback is called. -/
theorem accountRun_runq :
    (schedMlfqAccountRun config index state).runq = state.runq ∧
      (schedMlfqAccountRun config index state).running = state.running := by
  unfold schedMlfqAccountRun
  split_ifs
  · exact ⟨rfl, rfl⟩
  · exact ⟨rfl, rfl⟩

/-- Putting an item back where it has budget left ends the use of the queues. -/
theorem Sound.settle (hsound : Sound state) (hid : (state.work index).id ≠ 0) :
    Sound { (if 0 < (state.work index).budgetLeft then schedWorkEnqueue config index state
        else state) with
        running := none
        inflight := false } ∧
      Stays state (if 0 < (state.work index).budgetLeft then schedWorkEnqueue config index state
        else state) := by
  have hends {used : State} (hused : Sound used) :
      Sound { used with running := none, inflight := false } := by
    refine ⟨hused.queues, hused.registered, hused.callback, ?_, ?_⟩
    · exact fun _ hnone ↦ absurd hnone.symm (Option.some_ne_none _)
    · exact fun _ ↦ rfl
  split_ifs
  · exact ⟨hends (hsound.enqueue config hid), stays_enqueue config⟩
  · exact ⟨hends hsound, stays_of_runq_eq rfl⟩

/-- Once the callback has returned its item is charged and put back where it has budget left. -/
theorem sound_callbackReturns (hsound : Sound state)
    (hreturns : callbackReturns config state = some after) : Sound after ∧ Stays state after := by
  unfold callbackReturns at hreturns
  cases hrunning : state.running with
  | none =>
    rw [hrunning] at hreturns
    exact absurd hreturns (Option.some_ne_none _).symm
  | some index =>
    simp only [hrunning, Option.some.injEq] at hreturns
    rw [← hreturns]
    generalize hbudget : state.modify index (fun work ↦
      { work with budgetLeft := work.budgetLeft - 1 }) = budgeted
    have hbudgeted : Sound budgeted := by
      rw [← hbudget]
      exact hsound.modify (fun _ ↦ rfl) fun _ ↦ rfl
    have hcalled : budgeted.running = some index := by
      rw [← hbudget]
      exact hrunning
    have hsame : budgeted.runq = state.runq := by
      rw [← hbudget]
      rfl
    obtain ⟨hrunq, hcalling⟩ :
        (schedMlfqAccountRun config index budgeted).runq = budgeted.runq ∧ _ :=
      accountRun_runq config
    have hcharged : Sound (schedMlfqAccountRun config index budgeted) :=
      sound_accountRun config hbudgeted
    obtain ⟨hafter, hstays⟩ :=
      hcharged.settle config (hcharged.running index (hcalling.trans hcalled))
    refine ⟨hafter, fun other hqueued ↦ hstays other ?_⟩
    rw [hrunq, hsame]
    exact hqueued

/-! ### Runs -/

/-- Every event keeps the queues sound, and only the end of a timeslice takes an item with budget
off them. -/
theorem sound_step {event : Event} (hsound : Sound state)
    (hstep : step config state event = some after) :
    Sound after ∧ (Stays state after ∨ state.running = none ∧ Starts state after) := by
  have hstays {next : State} (hnext : some next = some after)
      (hkept : Sound next ∧ Stays state next) :
      Sound after ∧ (Stays state after ∨ state.running = none ∧ Starts state after) := by
    rw [← Option.some.inj hnext]
    exact ⟨hkept.1, Or.inl hkept.2⟩
  have hmodify {place : Index} {change : Work → Work} (hid : ∀ work, (change work).id = work.id)
      (hrun : ∀ work, (change work).run = work.run) :
      Sound (state.modify place change) ∧ Stays state (state.modify place change) :=
    ⟨hsound.modify hid hrun, stays_of_runq_eq rfl⟩
  have hbeside {next : State} (hrunq : next.runq = state.runq) (hwork : next.work = state.work)
      (hbitmap : next.readyBitmap = state.readyBitmap) (hrunning : next.running = state.running)
      (hinflight : next.inflight = state.inflight) : Sound next ∧ Stays state next :=
    ⟨hsound.congr hrunq hbitmap (fun _ ↦ by rw [hwork]) (fun _ ↦ by rw [hwork]) hrunning hinflight,
      stays_of_runq_eq hrunq⟩
  have hidle : Sound state ∧ Stays state state := ⟨hsound, stays_of_runq_eq rfl⟩
  cases event with
  | register run priority affinityMask budgetTicks =>
    exact hstays hstep (sound_register config hsound)
  | setReady id => exact hstays hstep (sound_setReady config hsound)
  | unready id =>
    refine hstays hstep ?_
    unfold schedWorkUnready
    cases schedWorkGet state id with
    | none => exact hidle
    | some index =>
      dsimp only
      exact hmodify (fun _ ↦ rfl) fun _ ↦ rfl
  | updateBudget id budgetTicks =>
    refine hstays hstep ?_
    unfold schedWorkUpdateBudget
    cases schedWorkGet state id with
    | none => exact hidle
    | some index =>
      dsimp only
      exact hmodify (fun _ ↦ rfl) fun _ ↦ rfl
  | account index cost =>
    refine hstays hstep ?_
    unfold schedulerAccount
    split_ifs
    · exact hidle
    · exact hmodify (fun _ ↦ rfl) fun _ ↦ rfl
  | setTickHz hz => exact hstays hstep (hbeside rfl rfl rfl rfl rfl)
  | tick => exact hstays hstep (hbeside rfl rfl rfl rfl rfl)
  | onTimesliceEnd rounds => exact sound_onTimesliceEnd config hsound hstep
  | callbackReturns => exact hstays rfl (sound_callbackReturns config hsound hstep)

/-- The queues are empty when the kernel has started. -/
theorem sound_schedInit : Sound (schedInit config) where
  queues := by
    refine ⟨_, ThreadedQueues.carries_clear, fun prio ↦ ?_⟩
    simp [schedInit, schedWorkInit]
  registered _ hqueued := absurd hqueued Bool.false_ne_true
  callback _ hid := absurd rfl hid
  running _ hcalled := absurd hcalled.symm (Option.some_ne_none _)
  inflight _ := rfl

/-- In every run, callbacks and what they call included, each run queue is a list from its head to
its tail, the queued items are on exactly one of them, the bitmap marks the queues with entries, and
an item with budget left only leaves the queues when its callback is called. -/
theorem work_queues_sound {events : List Event}
    (hrun : Run (Fires (step config)) (schedInit config) events state) :
    (∃ lists, state.runq.Carries lists ∧ Marks state.readyBitmap lists) ∧
      ∀ event after index, step config state event = some after →
        state.runq.queued index = true → 0 < (state.work index).budgetLeft →
          after.runq.queued index = true ∨
            (state.running = none ∧ after.running = some index) := by
  have hsound : Sound state :=
    hrun.invariant (fun _ _ _ hbefore hfires ↦ (sound_step config hbefore hfires).1)
      (sound_schedInit config)
  refine ⟨hsound.queues, fun event after index hstep hqueued hbudget ↦ ?_⟩
  obtain ⟨_, hstays | ⟨hidle, hstarts⟩⟩ := sound_step config hsound hstep
  · exact Or.inl (hstays index hqueued)
  · exact (hstarts index hqueued hbudget).imp_right fun hcalled ↦ ⟨hidle, hcalled⟩

/-- The default levels: quanta of 10, 25 and 50 ms and a boost every second. -/
def defaultConfig : Config where
  mlfq := true
  quantumMs := ![10, 25, 50]
  boostMs := 1000

/-- Two items are registered. The callback of the first makes the first ready again, registers a
third and ends a timeslice. -/
def reenteringEvents : List Event :=
  [.register (some 1) 31 0 1, .register (some 2) 0 0 3, .onTimesliceEnd 1, .setReady 1,
    .register (some 3) 16 0 2, .onTimesliceEnd 1, .callbackReturns]

/-- After that run the three items are on three queues. -/
theorem work_queues_sound_reentering :
    ∃ state, Run (Fires (step defaultConfig)) (schedInit defaultConfig) reenteringEvents state ∧
      state.runq.queued 0 = true ∧ state.readyBitmap = 0x80010001#32 ∧
        ∃ lists, state.runq.Carries lists ∧ Marks state.readyBitmap lists := by
  have hstate : (runLabels (step defaultConfig) (schedInit defaultConfig) reenteringEvents).map
      (fun state ↦ (state.runq.queued 0, state.readyBitmap)) = some (true, 0x80010001#32) := by
    decide +kernel
  obtain ⟨state, hreached, hvalues⟩ := Option.map_eq_some_iff.mp hstate
  have hrun := Run.of_runLabels hreached
  exact ⟨state, hrun, congrArg Prod.fst hvalues, congrArg Prod.snd hvalues,
    (work_queues_sound defaultConfig hrun).1⟩

end EynOS.Process.SchedWork
