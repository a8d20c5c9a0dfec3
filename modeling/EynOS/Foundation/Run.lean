import Mathlib.Data.List.Basic

/-!
# Runs of a labelled step relation

A run is a finite sequence of labelled steps from a start state. `Run.invariant` is the
induction rule: what every step preserves holds wherever a run ends. A guarded step is a step
taken where a condition on the state before it holds; `Run.unguarded` forgets the guards and
`Run.guarded_invariant` is the induction rule in which a step may use its guard.

A total step function is used through `Moves` and folds over the labels of its runs, under a guard
where `Allowed` holds; `allowed_iff` is for guards that say exactly when a step keeps a property,
`forall_iff_allowed` for those that keep a stronger invariant, `allowed_congr` for two guards. One
that fails on some inputs is used through `Fires`, the relation of its successful steps, and
`runLabels` computes its runs.
-/

namespace EynOS.Foundation

variable {State Label : Type*}

/-- The finite runs of a labelled step relation, with the labels in the order they were taken. -/
inductive Run (step : State → Label → State → Prop) (start : State) :
    List Label → State → Prop
  | refl : Run step start [] start
  | snoc {labels : List Label} {state next : State} {label : Label}
      (before : Run step start labels state) (last : step state label next) :
      Run step start (labels ++ [label]) next

/-- The steps of a relation that are taken where a guard holds. -/
def Guarded (guard : State → Label → Prop) (step : State → Label → State → Prop)
    (state : State) (label : Label) (next : State) : Prop :=
  guard state label ∧ step state label next

/-- The successful steps of a partial step function. -/
def Fires (step : State → Label → Option State) (state : State) (label : Label)
    (next : State) : Prop :=
  step state label = some next

/-- The steps of a total step function. -/
def Moves (step : State → Label → State) (state : State) (label : Label) (next : State) : Prop :=
  step state label = next

/-- Every label of a list meets a guard in the state that a total step function has reached. -/
def Allowed (guard : State → Label → Prop) (step : State → Label → State) :
    State → List Label → Prop
  | _, [] => True
  | state, label :: labels => guard state label ∧ Allowed guard step (step state label) labels

/-- Whether labels are allowed is computed with the states that they reach. -/
instance Allowed.decidable (guard : State → Label → Prop) (step : State → Label → State)
    [∀ state label, Decidable (guard state label)] :
    (start : State) → (labels : List Label) → Decidable (Allowed guard step start labels)
  | _, [] => isTrue trivial
  | start, label :: labels =>
    have := Allowed.decidable guard step (step start label) labels
    inferInstanceAs (Decidable (guard start label ∧ Allowed guard step (step start label) labels))

/-- Where a step keeps a property exactly if its guard holds, the property holds all along some
labels exactly if the guards do. The steps may rely on a condition on the labels. -/
theorem allowed_iff {guard promised : State → Label → Prop} {step : State → Label → State}
    {property : State → Prop}
    (hstep : ∀ state label, property state → promised state label →
      (property (step state label) ↔ guard state label))
    {start : State} {labels : List Label} (hstart : property start)
    (hpromised : Allowed promised step start labels) :
    (∀ count, property ((labels.take count).foldl step start)) ↔
      Allowed guard step start labels := by
  induction labels generalizing start with
  | nil => exact ⟨fun _ ↦ trivial, fun _ count ↦ by rwa [List.take_nil]⟩
  | cons label labels ih =>
    constructor
    · intro hall
      have hnext : property (step start label) := hall 1
      refine ⟨(hstep start label hstart hpromised.1).mp hnext, ?_⟩
      exact (ih hnext hpromised.2).mp fun count ↦ hall (count + 1)
    · intro hallowed count
      have hnext := (hstep start label hstart hpromised.1).mpr hallowed.1
      cases count with
      | zero => exact hstart
      | succ count => exact (ih hnext hpromised.2).mpr hallowed.2 count

/-- Where the guards keep an invariant that comes with a property, and a step from it comes to the
property only if its guard holds, the property holds all along some labels exactly if the guards
do. -/
theorem forall_iff_allowed {guard : State → Label → Prop} {step : State → Label → State}
    {property kept : State → Prop} (hproperty : ∀ state, kept state → property state)
    (hguard : ∀ state label, kept state → property (step state label) → guard state label)
    (hkept : ∀ state label, kept state → guard state label → kept (step state label))
    {start : State} {labels : List Label} (hstart : kept start) :
    (∀ count, property ((labels.take count).foldl step start)) ↔
      Allowed guard step start labels := by
  induction labels generalizing start with
  | nil =>
    exact ⟨fun _ ↦ trivial, fun _ count ↦ by rw [List.take_nil]; exact hproperty start hstart⟩
  | cons label labels ih =>
    constructor
    · intro hall
      have hfirst := hguard start label hstart (hall 1)
      exact ⟨hfirst, (ih (hkept start label hstart hfirst)).mp fun count ↦ hall (count + 1)⟩
    · rintro ⟨hfirst, hlater⟩ count
      cases count with
      | zero => exact hproperty start hstart
      | succ count => exact (ih (hkept start label hstart hfirst)).mpr hlater count

/-- Guards that say the same wherever a property holds allow the same labels, if what the first
allows keeps the property. -/
theorem allowed_congr {first second : State → Label → Prop} {step : State → Label → State}
    {property : State → Prop}
    (hsame : ∀ state label, property state → (first state label ↔ second state label))
    (hnext : ∀ state label, property state → first state label → property (step state label))
    {start : State} {labels : List Label} (hstart : property start) :
    Allowed first step start labels ↔ Allowed second step start labels := by
  induction labels generalizing start with
  | nil => exact Iff.rfl
  | cons label labels ih =>
    constructor
    · rintro ⟨hlabel, hlater⟩
      exact ⟨(hsame start label hstart).mp hlabel, (ih (hnext start label hstart hlabel)).mp hlater⟩
    · rintro ⟨hlabel, hlater⟩
      have hfirst := (hsame start label hstart).mpr hlabel
      exact ⟨hfirst, (ih (hnext start label hstart hfirst)).mpr hlater⟩

/-- Labels that meet two guards. -/
theorem allowed_and {first second : State → Label → Prop} {step : State → Label → State}
    {start : State} {labels : List Label} :
    Allowed (fun state label ↦ first state label ∧ second state label) step start labels ↔
      Allowed first step start labels ∧ Allowed second step start labels := by
  induction labels generalizing start with
  | nil => exact (and_self_iff).symm
  | cons label labels ih =>
    simp only [Allowed, ih]
    exact and_and_and_comm

/-- The state after a list of labels, where every one of them fires. -/
def runLabels (step : State → Label → Option State) : State → List Label → Option State
  | state, [] => some state
  | state, label :: labels => (step state label).bind fun next ↦ runLabels step next labels

namespace Run

variable {step : State → Label → State → Prop} {guard : State → Label → Prop}
  {start state : State} {labels : List Label}

/-- What holds at the start of a run and is preserved by every step holds at its end. -/
theorem invariant {property : State → Prop}
    (hstep : ∀ before label after, property before → step before label after → property after)
    (hstart : property start) (hrun : Run step start labels state) : property state := by
  induction hrun with
  | refl => exact hstart
  | snoc _ hlast ih => exact hstep _ _ _ ih hlast

/-- What holds at the start of a guarded run, and is preserved by every step whose guard holds,
holds at its end. -/
theorem guarded_invariant {property : State → Prop}
    (hstep : ∀ before label after,
      property before → guard before label → step before label after → property after)
    (hstart : property start) (hrun : Run (Guarded guard step) start labels state) :
    property state :=
  hrun.invariant (fun _ _ _ hbefore hlast ↦ hstep _ _ _ hbefore hlast.1 hlast.2) hstart

theorem unguarded (hrun : Run (Guarded guard step) start labels state) :
    Run step start labels state := by
  induction hrun with
  | refl => exact refl
  | snoc _ hlast ih => exact snoc ih hlast.2

/-- A run whose labels all meet a condition is guarded by it. -/
theorem guard_labels {allowed : Label → Prop} (hrun : Run step start labels state)
    (hlabels : ∀ label ∈ labels, allowed label) :
    Run (Guarded (fun _ label ↦ allowed label) step) start labels state := by
  induction hrun with
  | refl => exact refl
  | snoc _ hlast ih =>
    refine snoc (ih fun label hlabel ↦ hlabels label (List.mem_append_left _ hlabel)) ⟨?_, hlast⟩
    exact hlabels _ (List.mem_append_right _ (List.mem_singleton_self _))

/-- Runs compose. -/
theorem append {middle : State} {later : List Label} (hfirst : Run step start labels middle)
    (hsecond : Run step middle later state) : Run step start (labels ++ later) state := by
  induction hsecond with
  | refl => simpa using hfirst
  | snoc _ hlast ih =>
    rw [← List.append_assoc]
    exact snoc ih hlast

/-- Folding a total step function over a list of labels is a run. -/
theorem of_foldl (step : State → Label → State) (start : State) (labels : List Label) :
    Run (Moves step) start labels (labels.foldl step start) := by
  induction labels generalizing start with
  | nil => exact refl
  | cons label labels ih =>
    have hfirst : Run (Moves step) start ([] ++ [label]) (step start label) := snoc refl rfl
    exact append hfirst (ih _)

/-- Folding a total step function over allowed labels is a guarded run. -/
theorem of_allowed {step : State → Label → State} {start : State} {labels : List Label}
    (hallowed : Allowed guard step start labels) :
    Run (Guarded guard (Moves step)) start labels (labels.foldl step start) := by
  induction labels generalizing start with
  | nil => exact refl
  | cons label labels ih =>
    have hfirst : Run (Guarded guard (Moves step)) start ([] ++ [label]) (step start label) :=
      snoc refl ⟨hallowed.1, rfl⟩
    exact append hfirst (ih hallowed.2)

/-- Folding a partial step function over labels that are allowed and fire is a guarded run. -/
theorem of_allowed_fires {step : State → Label → Option State} {start : State}
    {labels : List Label}
    (hallowed : Allowed (fun state label ↦ guard state label ∧ (step state label).isSome)
      (fun state label ↦ (step state label).getD state) start labels) :
    Run (Guarded guard (Fires step)) start labels
      (labels.foldl (fun state label ↦ (step state label).getD state) start) := by
  induction labels generalizing start with
  | nil => exact refl
  | cons label labels ih =>
    obtain ⟨⟨hguard, hsome⟩, hrest⟩ := hallowed
    have hfires : step start label = some ((step start label).getD start) := by
      rw [Option.getD_eq_iff.mpr (.inl (Option.some_get hsome).symm), Option.some_get]
    have hfirst : Run (Guarded guard (Fires step)) start ([] ++ [label])
        ((step start label).getD start) := snoc refl ⟨hguard, hfires⟩
    exact append hfirst (ih hrest)

theorem of_runLabels {step : State → Label → Option State} {start state : State}
    {labels : List Label} (hstate : runLabels step start labels = some state) :
    Run (Fires step) start labels state := by
  induction labels generalizing start with
  | nil =>
    rw [← Option.some.inj hstate]
    exact refl
  | cons label labels ih =>
    obtain ⟨next, hnext, hrest⟩ := Option.bind_eq_some_iff.mp hstate
    have hfirst : Run (Fires step) start ([] ++ [label]) next := snoc refl hnext
    exact append hfirst (ih hrest)

end Run

end EynOS.Foundation
