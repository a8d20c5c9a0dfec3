import Mathlib.Data.List.Basic

/-!
# Programs that ask their environment

An interaction is a program that asks requests, goes on with the answers, and ends with a result or
a failure. It is data, so that what is proved of every interaction holds of every operation that is
written as one. A handler answers the requests and changes a state; `run` takes a program through
it.

`Throughout` says what holds at every request of a run, in the state in which it is asked.
`Throughout.derive` is the rule for what an invariant guarantees under a guard, and
`Throughout.related` compares the runs of a program under two handlers: where the answers agree in
related states, the whole runs do. `Only` bounds the requests of a program whatever it is answered,
which is enough of a guard for `Only.related`.
-/

namespace EynOS.Foundation

/-- A program that asks requests and ends with a result or a failure. -/
inductive Interaction (Request : Type) (Answer : Request → Type) (Failure Result : Type) : Type
  | done (result : Result)
  | fail (failure : Failure)
  | ask (request : Request)
      (next : Answer request → Interaction Request Answer Failure Result)

/-- What answers requests and changes a state. -/
abbrev Handler (Request : Type) (Answer : Request → Type) (State : Type) : Type :=
  (request : Request) → State → Answer request × State

namespace Interaction

variable {Request : Type} {Answer : Request → Type} {Failure Other Result Next Item State : Type}

/-- Sequencing. -/
def bind (program : Interaction Request Answer Failure Result)
    (continuation : Result → Interaction Request Answer Failure Next) :
    Interaction Request Answer Failure Next :=
  match program with
  | .done result => continuation result
  | .fail failure => .fail failure
  | .ask request next => .ask request fun answer ↦ (next answer).bind continuation

instance : Monad (Interaction Request Answer Failure) where
  pure := .done
  bind := bind

def request (request : Request) : Interaction Request Answer Failure (Answer request) :=
  .ask request .done

/-- A program that goes on after a failure. -/
def recover (handle : Failure → Interaction Request Answer Other Result) :
    Interaction Request Answer Failure Result → Interaction Request Answer Other Result
  | .done result => .done result
  | .fail failure => handle failure
  | .ask request next => .ask request fun answer ↦ recover handle (next answer)

/-- A program through a handler, from a state. -/
def run (handler : Handler Request Answer State) :
    Interaction Request Answer Failure Result → State → Except Failure Result × State
  | .done result, state => (.ok result, state)
  | .fail failure, state => (.error failure, state)
  | .ask request next, state =>
    run handler (next (handler request state).1) (handler request state).2

/-- What holds at every request of a run. -/
def Throughout (handler : Handler Request Answer State) (property : State → Request → Prop) :
    Interaction Request Answer Failure Result → State → Prop
  | .done _, _ => True
  | .fail _, _ => True
  | .ask request next, state => property state request ∧
    Throughout handler property (next (handler request state).1) (handler request state).2

/-- A program makes only some requests, whatever it is answered. -/
def Only (allowed : Request → Prop) : Interaction Request Answer Failure Result → Prop
  | .done _ => True
  | .fail _ => True
  | .ask request next => allowed request ∧ ∀ answer, Only allowed (next answer)

/-- Whether something decidable holds at every request is decided along the run. -/
instance Throughout.decidable (handler : Handler Request Answer State)
    (property : State → Request → Prop) [∀ state request, Decidable (property state request)] :
    (program : Interaction Request Answer Failure Result) → (state : State) →
      Decidable (Throughout handler property program state)
  | .done _, _ => isTrue trivial
  | .fail _, _ => isTrue trivial
  | .ask request next, state =>
    have := Throughout.decidable handler property (next (handler request state).1)
      (handler request state).2
    inferInstanceAs (Decidable (property state request ∧ _))

variable {handler : Handler Request Answer State} {property : State → Request → Prop}
  {program : Interaction Request Answer Failure Result} {state : State}

@[simp] theorem run_pure (result : Result) :
    run handler (pure result : Interaction Request Answer Failure Result) state =
      (.ok result, state) := rfl

@[simp] theorem run_fail (failure : Failure) :
    run handler (.fail failure : Interaction Request Answer Failure Result) state =
      (.error failure, state) := rfl

@[simp] theorem run_request (asked : Request) :
    run handler (request asked : Interaction Request Answer Failure (Answer asked)) state =
      (.ok (handler asked state).1, (handler asked state).2) := rfl

/-- Sequencing runs the second part from where the first one ends with a result. -/
theorem run_bind (continuation : Result → Interaction Request Answer Failure Next) :
    run handler (program >>= continuation) state =
      match run handler program state with
      | (.ok result, middle) => run handler (continuation result) middle
      | (.error failure, middle) => (.error failure, middle) := by
  induction program generalizing state with
  | done result => rfl
  | fail failure => rfl
  | ask request next ih => exact ih _

/-- A sequence whose first part ends with a result. -/
theorem run_bind_ok {continuation : Result → Interaction Request Answer Failure Next}
    {result : Result} {middle : State} (hrun : run handler program state = (.ok result, middle)) :
    run handler (program >>= continuation) state = run handler (continuation result) middle := by
  rw [run_bind, hrun]

/-- A sequence ends with a result where both of its parts do. -/
theorem run_bind_eq_ok {continuation : Result → Interaction Request Answer Failure Next}
    {last : Next} {after : State} :
    run handler (program >>= continuation) state = (.ok last, after) ↔
      ∃ result middle, run handler program state = (.ok result, middle) ∧
        run handler (continuation result) middle = (.ok last, after) := by
  rw [run_bind]
  constructor
  · intro hrun
    split at hrun
    · exact ⟨_, _, by assumption, hrun⟩
    · exact absurd (congrArg Prod.fst hrun) (by simp)
  · rintro ⟨result, middle, hfirst, hrest⟩
    rw [hfirst]
    exact hrest

/-- Recovering goes on from where the program fails. -/
theorem run_recover (handle : Failure → Interaction Request Answer Other Result) :
    run handler (recover handle program) state =
      match run handler program state with
      | (.ok result, middle) => (.ok result, middle)
      | (.error failure, middle) => run handler (handle failure) middle := by
  induction program generalizing state with
  | done result => rfl
  | fail failure => rfl
  | ask request next ih => exact ih _

/-- What holds throughout both parts of a sequence holds throughout the sequence. -/
theorem throughout_bind (continuation : Result → Interaction Request Answer Failure Next) :
    Throughout handler property (program >>= continuation) state ↔
      Throughout handler property program state ∧
        ∀ result after, run handler program state = (.ok result, after) →
          Throughout handler property (continuation result) after := by
  induction program generalizing state with
  | done result =>
    refine ⟨fun hthroughout ↦ ⟨trivial, fun other after hrun ↦ ?_⟩, fun hparts ↦ hparts.2 _ _ rfl⟩
    cases hrun
    exact hthroughout
  | fail failure => exact ⟨fun _ ↦ ⟨trivial, fun _ _ hrun ↦ by cases hrun⟩, fun _ ↦ trivial⟩
  | ask request next ih =>
    refine Iff.trans (and_congr_right fun _ ↦ ih _) ?_
    exact and_assoc.symm

/-- What holds throughout a program that goes on after a failure. -/
theorem throughout_recover (handle : Failure → Interaction Request Answer Other Result) :
    Throughout handler property (recover handle program) state ↔
      Throughout handler property program state ∧
        ∀ failure after, run handler program state = (.error failure, after) →
          Throughout handler property (handle failure) after := by
  induction program generalizing state with
  | done result => exact ⟨fun _ ↦ ⟨trivial, fun _ _ hrun ↦ by cases hrun⟩, fun _ ↦ trivial⟩
  | fail failure =>
    refine ⟨fun hthroughout ↦ ⟨trivial, fun other after hrun ↦ ?_⟩, fun hparts ↦ hparts.2 _ _ rfl⟩
    cases hrun
    exact hthroughout
  | ask request next ih =>
    refine Iff.trans (and_congr_right fun _ ↦ ih _) ?_
    exact and_assoc.symm

/-- A guard under which every request keeps an invariant and a promise: where the guard holds
throughout, so does the promise, and the invariant holds in the end. -/
theorem Throughout.derive {guard promise : State → Request → Prop} {invariant : State → Prop}
    (hstep : ∀ state request, invariant state → guard state request →
      promise state request ∧ invariant (handler request state).2)
    (hguard : Throughout handler guard program state) (hinvariant : invariant state) :
    Throughout handler promise program state ∧ invariant (run handler program state).2 := by
  induction program generalizing state with
  | done result => exact ⟨trivial, hinvariant⟩
  | fail failure => exact ⟨trivial, hinvariant⟩
  | ask request next ih =>
    obtain ⟨hpromise, hafter⟩ := hstep state request hinvariant hguard.1
    obtain ⟨hrest, hend⟩ := ih _ hguard.2 hafter
    exact ⟨⟨hpromise, hrest⟩, hend⟩

/-- Two handlers whose answers agree in related states take a program to the same end. -/
theorem Throughout.related {Middle : Type} {other : Handler Request Answer Middle}
    {guard : State → Request → Prop} {relation : State → Middle → Prop} {middle : Middle}
    (hstep : ∀ state middle request, relation state middle → guard state request →
      (handler request state).1 = (other request middle).1 ∧
        relation (handler request state).2 (other request middle).2)
    (hguard : Throughout handler guard program state) (hrelated : relation state middle) :
    (run handler program state).1 = (run other program middle).1 ∧
      relation (run handler program state).2 (run other program middle).2 := by
  induction program generalizing state middle with
  | done result => exact ⟨rfl, hrelated⟩
  | fail failure => exact ⟨rfl, hrelated⟩
  | ask request next ih =>
    obtain ⟨hanswer, hafter⟩ := hstep state middle request hrelated hguard.1
    have hrest := ih _ hguard.2 hafter
    unfold run
    rw [← hanswer]
    exact hrest

/-- A sequence makes the requests of its parts. -/
theorem Only.bind {allowed : Request → Prop}
    {continuation : Result → Interaction Request Answer Failure Next}
    (hprogram : Only allowed program) (hrest : ∀ result, Only allowed (continuation result)) :
    Only allowed (program >>= continuation) := by
  induction program with
  | done result => exact hrest result
  | fail failure => exact trivial
  | ask request next ih => exact ⟨hprogram.1, fun answer ↦ ih answer (hprogram.2 answer)⟩

/-- A program that goes on after a failure makes its own requests and those of what it goes on
with. -/
theorem Only.recover {allowed : Request → Prop}
    {handle : Failure → Interaction Request Answer Other Result} (hprogram : Only allowed program)
    (hhandle : ∀ failure, Only allowed (handle failure)) :
    Only allowed (recover handle program) := by
  induction program with
  | done result => exact trivial
  | fail failure => exact hhandle failure
  | ask request next ih => exact ⟨hprogram.1, fun answer ↦ ih answer (hprogram.2 answer)⟩

/-- Every request of a run is one that the program makes. -/
theorem Only.throughout {allowed : Request → Prop} (honly : Only allowed program) :
    Throughout handler (fun _ ↦ allowed) program state := by
  induction program generalizing state with
  | done result => exact trivial
  | fail failure => exact trivial
  | ask request next ih => exact ⟨honly.1, ih _ (honly.2 _)⟩

/-- Two handlers that agree on the requests a program makes take it to the same end. -/
theorem Only.related {Middle : Type} {other : Handler Request Answer Middle}
    {allowed : Request → Prop} {relation : State → Middle → Prop} {middle : Middle}
    (hstep : ∀ state middle request, relation state middle → allowed request →
      (handler request state).1 = (other request middle).1 ∧
        relation (handler request state).2 (other request middle).2)
    (honly : Only allowed program) (hrelated : relation state middle) :
    (run handler program state).1 = (run other program middle).1 ∧
      relation (run handler program state).2 (run other program middle).2 :=
  Throughout.related hstep honly.throughout hrelated

end Interaction

end EynOS.Foundation
