import Mathlib.Control.Monad.Basic
import Mathlib.Data.List.Basic

/-!
# Programs that leave a trace of accesses

A traced program ends with a result or a failure and leaves the list of the accesses that it made
on the way, those before a failure included. `Satisfies` says that every access is allowed. The
rules are equivalences, so that they compute the exact condition under which a program made of
sequencing, loops and searches stays inside what it may touch: a later part only counts where the
parts before it succeed. `Ensures` is the total correctness of a program; its rules go forwards.
-/

namespace EynOS.Foundation

/-- The accesses of a program and how it ended. -/
structure Traced (Access Failure Result : Type) where
  accesses : List Access
  outcome : Except Failure Result

namespace Traced

variable {Access Failure Result Next State : Type}

instance : Monad (Traced Access Failure) where
  pure result := { accesses := [], outcome := .ok result }
  bind program continuation :=
    match program.outcome with
    | .error failure => { accesses := program.accesses, outcome := .error failure }
    | .ok result =>
      { accesses := program.accesses ++ (continuation result).accesses
        outcome := (continuation result).outcome }

def access (access : Access) : Traced Access Failure Unit :=
  { accesses := [access], outcome := .ok () }

/-- One access that yields a value. -/
def accessing (access : Access) (value : Result) : Traced Access Failure Result :=
  { accesses := [access], outcome := .ok value }

/-- A failure. -/
def fail (failure : Failure) : Traced Access Failure Result :=
  { accesses := [], outcome := .error failure }

/-- A loop over a number of indices with a state. -/
def loop (body : ℕ → State → Traced Access Failure State) :
    ℕ → ℕ → State → Traced Access Failure State
  | 0, _, state => pure state
  | count + 1, index, state => do
    let state ← body index state
    loop body count (index + 1) state

/-- A search over a number of indices that ends with the first one that finds something. -/
def search (body : ℕ → Traced Access Failure (Option Result)) :
    ℕ → ℕ → Traced Access Failure (Option Result)
  | 0, _ => pure none
  | count + 1, index => do
    match ← body index with
    | some result => pure (some result)
    | none => search body count (index + 1)

/-- Every access is allowed. -/
def Satisfies (allowed : Access → Prop) (program : Traced Access Failure Result) : Prop :=
  ∀ access ∈ program.accesses, allowed access

/-- A program ends with a result. -/
def Yields (program : Traced Access Failure Result) (result : Result) : Prop :=
  program.outcome = .ok result

variable {allowed : Access → Prop} {program : Traced Access Failure Result}
  {continuation : Result → Traced Access Failure Next}

@[simp] theorem satisfies_pure (result : Result) :
    Satisfies allowed (pure result : Traced Access Failure Result) :=
  fun _ haccess ↦ absurd haccess List.not_mem_nil

@[simp] theorem satisfies_fail (failure : Failure) :
    Satisfies allowed (fail failure : Traced Access Failure Result) :=
  fun _ haccess ↦ absurd haccess List.not_mem_nil

@[simp] theorem satisfies_access (action : Access) :
    Satisfies allowed (access action : Traced Access Failure Unit) ↔ allowed action := by
  simp [Satisfies, access]

@[simp] theorem satisfies_accessing (action : Access) (value : Result) :
    Satisfies allowed (accessing action value : Traced Access Failure Result) ↔
      allowed action := by
  simp [Satisfies, accessing]

@[simp] theorem yields_pure (value result : Result) :
    Yields (pure value : Traced Access Failure Result) result ↔ value = result := by
  simp [Yields, pure]

@[simp] theorem yields_fail (failure : Failure) (result : Result) :
    ¬Yields (fail failure : Traced Access Failure Result) result := by
  simp [Yields, fail]

@[simp] theorem yields_access (action : Access) (result : Unit) :
    Yields (access action : Traced Access Failure Unit) result := rfl

@[simp] theorem yields_accessing (action : Access) (value result : Result) :
    Yields (accessing action value : Traced Access Failure Result) result ↔ value = result := by
  simp [Yields, accessing]

@[simp] theorem satisfies_ite (condition : Prop) [Decidable condition]
    (first second : Traced Access Failure Result) :
    Satisfies allowed (if condition then first else second) ↔
      (condition → Satisfies allowed first) ∧ (¬condition → Satisfies allowed second) := by
  by_cases hcondition : condition <;> simp [hcondition]

@[simp] theorem yields_ite (condition : Prop) [Decidable condition]
    (first second : Traced Access Failure Result) (result : Result) :
    Yields (if condition then first else second) result ↔
      (condition ∧ first.Yields result) ∨ (¬condition ∧ second.Yields result) := by
  by_cases hcondition : condition <;> simp [hcondition]

/-- Sequencing satisfies what both parts satisfy, the second where the first yields a result. -/
theorem satisfies_bind :
    Satisfies allowed (program >>= continuation) ↔
      Satisfies allowed program ∧
        ∀ result, program.Yields result → Satisfies allowed (continuation result) := by
  obtain ⟨accesses, outcome⟩ := program
  cases outcome with
  | error failure => simp [Bind.bind, Satisfies, Yields]
  | ok result => simp [Bind.bind, Satisfies, Yields, or_imp, forall_and]

/-- Sequencing yields what the second part yields after the first. -/
theorem yields_bind {result : Next} :
    (program >>= continuation).Yields result ↔
      ∃ middle, program.Yields middle ∧ (continuation middle).Yields result := by
  obtain ⟨accesses, outcome⟩ := program
  cases outcome <;> simp [Bind.bind, Yields]

theorem Yields.unique {first second : Result} (hfirst : program.Yields first)
    (hsecond : program.Yields second) : first = second :=
  Except.ok.inj (hfirst.symm.trans hsecond)

/-- The accesses of a loop whose body depends on its state in its result only: those of the bodies
that are reached. -/
theorem satisfies_loop {body : ℕ → State → Traced Access Failure State} {good reaches : ℕ → Prop}
    (hgood : ∀ index state, Satisfies allowed (body index state) ↔ good index)
    (hreaches : ∀ index state, (∃ next, (body index state).Yields next) ↔ reaches index)
    (count start : ℕ) (state : State) :
    Satisfies allowed (loop body count start state) ↔
      ∀ index < count, (∀ earlier < index, reaches (start + earlier)) → good (start + index) := by
  induction count generalizing start state with
  | zero => simp [loop]
  | succ count ih =>
    rw [loop, satisfies_bind, hgood]
    constructor
    · rintro ⟨hfirst, hrest⟩ index hindex hearlier
      cases index with
      | zero => exact hfirst
      | succ index =>
        obtain ⟨next, hnext⟩ := (hreaches start state).mpr (hearlier 0 (Nat.succ_pos index))
        have hlater := (ih (start + 1) next).mp (hrest next hnext) index (by omega)
          fun earlier hless ↦ by
            have hreached := hearlier (earlier + 1) (by omega)
            rwa [show start + (earlier + 1) = start + 1 + earlier by omega] at hreached
        rwa [show start + (index + 1) = start + 1 + index by omega]
    · intro hall
      refine ⟨hall 0 (Nat.succ_pos count) (by simp), fun next hnext ↦ ?_⟩
      refine (ih (start + 1) next).mpr fun index hindex hearlier ↦ ?_
      have hlater := hall (index + 1) (by omega) fun earlier hless ↦ by
        cases earlier with
        | zero => exact (hreaches start state).mp ⟨next, hnext⟩
        | succ earlier =>
          rw [show start + (earlier + 1) = start + 1 + earlier by omega]
          exact hearlier earlier (by omega)
      rwa [show start + (index + 1) = start + 1 + index by omega] at hlater

/-- A loop ends where every body does. -/
theorem yields_loop {body : ℕ → State → Traced Access Failure State} {reaches : ℕ → Prop}
    (hreaches : ∀ index state, (∃ next, (body index state).Yields next) ↔ reaches index)
    (count start : ℕ) (state : State) :
    (∃ next, (loop body count start state).Yields next) ↔
      ∀ index < count, reaches (start + index) := by
  induction count generalizing start state with
  | zero => simp [loop]
  | succ count ih =>
    simp only [loop, yields_bind]
    constructor
    · rintro ⟨next, middle, hmiddle, hnext⟩ index hindex
      cases index with
      | zero => exact (hreaches start state).mp ⟨middle, hmiddle⟩
      | succ index =>
        have hlater := (ih (start + 1) middle).mp ⟨next, hnext⟩ index (by omega)
        rwa [show start + (index + 1) = start + 1 + index by omega]
    · intro hall
      obtain ⟨middle, hmiddle⟩ := (hreaches start state).mpr (hall 0 (Nat.succ_pos count))
      obtain ⟨next, hnext⟩ := (ih (start + 1) middle).mpr fun index hindex ↦ by
        have hlater := hall (index + 1) (by omega)
        rwa [show start + (index + 1) = start + 1 + index by omega] at hlater
      exact ⟨next, middle, hmiddle, hnext⟩

/-- What a loop yields whose bodies all end: the fold of what they yield. -/
theorem yields_loop_foldl {body : ℕ → State → Traced Access Failure State}
    {next : State → ℕ → State} (hnext : ∀ index state, (body index state).Yields (next state index))
    (count start : ℕ) (state : State) :
    (loop body count start state).Yields ((List.range' start count).foldl next state) := by
  induction count generalizing start state with
  | zero => rfl
  | succ count ih =>
    rw [loop, yields_bind, List.range'_succ, List.foldl_cons]
    exact ⟨next state start, hnext start state, ih (start + 1) _⟩

/-- The accesses of a search: those of the bodies up to the first one that finds something. -/
theorem satisfies_search {body : ℕ → Traced Access Failure (Option Result)}
    {good misses : ℕ → Prop} (hgood : ∀ index, Satisfies allowed (body index) ↔ good index)
    (hmisses : ∀ index, (body index).Yields none ↔ misses index) (count start : ℕ) :
    Satisfies allowed (search body count start) ↔
      ∀ index < count, (∀ earlier < index, misses (start + earlier)) → good (start + index) := by
  induction count generalizing start with
  | zero => simp [search]
  | succ count ih =>
    rw [search, satisfies_bind, hgood]
    constructor
    · rintro ⟨hfirst, hrest⟩ index hindex hearlier
      cases index with
      | zero => exact hfirst
      | succ index =>
        have hmiss := (hmisses start).mpr (hearlier 0 (Nat.succ_pos index))
        have hlater := (ih (start + 1)).mp (hrest none hmiss) index (by omega)
          fun earlier hless ↦ by
            have hreached := hearlier (earlier + 1) (by omega)
            rwa [show start + (earlier + 1) = start + 1 + earlier by omega] at hreached
        rwa [show start + (index + 1) = start + 1 + index by omega]
    · intro hall
      refine ⟨hall 0 (Nat.succ_pos count) (by simp), fun found hfound ↦ ?_⟩
      cases found with
      | some result => exact satisfies_pure _
      | none =>
        refine (ih (start + 1)).mpr fun index hindex hearlier ↦ ?_
        have hlater := hall (index + 1) (by omega) fun earlier hless ↦ by
          cases earlier with
          | zero => exact (hmisses start).mp hfound
          | succ earlier =>
            rw [show start + (earlier + 1) = start + 1 + earlier by omega]
            exact hearlier earlier (by omega)
        rwa [show start + (index + 1) = start + 1 + index by omega] at hlater

/-- What a search finds, where every body ends: the first find, or nothing. -/
theorem yields_search {body : ℕ → Traced Access Failure (Option Result)}
    {find : ℕ → Option Result} (hfind : ∀ index, (body index).Yields (find index))
    (count start : ℕ) (found : Option Result) :
    (search body count start).Yields found ↔
      ((∃ index < count, (∀ earlier < index, find (start + earlier) = none) ∧
          found.isSome ∧ find (start + index) = found) ∨
        (found = none ∧ ∀ index < count, find (start + index) = none)) := by
  induction count generalizing start with
  | zero =>
    rw [search, yields_pure]
    constructor
    · rintro rfl
      exact Or.inr ⟨rfl, by simp⟩
    · rintro (⟨index, hindex, -⟩ | ⟨hnone, -⟩)
      · exact absurd hindex (Nat.not_lt_zero index)
      · exact hnone.symm
  | succ count ih =>
    rw [search, yields_bind]
    have hone (next : Option Result) : (body start).Yields next ↔ next = find start :=
      ⟨fun hnext ↦ hnext.unique (hfind start), fun hnext ↦ hnext ▸ hfind start⟩
    simp only [hone, exists_eq_left]
    cases hstart : find start with
    | some result =>
      simp only [yields_pure]
      constructor
      · rintro rfl
        exact Or.inl ⟨0, Nat.succ_pos count, by simp, rfl, hstart⟩
      · rintro (⟨index, -, hearlier, -, hindex⟩ | ⟨-, hnone⟩)
        · cases index with
          | zero => rw [← hindex, Nat.add_zero, hstart]
          | succ index =>
            have := hearlier 0 (Nat.succ_pos index)
            rw [Nat.add_zero, hstart] at this
            exact absurd this (by simp)
        · have := hnone 0 (Nat.succ_pos count)
          rw [Nat.add_zero, hstart] at this
          exact absurd this (by simp)
    | none =>
      dsimp only
      rw [ih (start + 1)]
      have hshift (index : ℕ) : start + 1 + index = start + (index + 1) := by omega
      simp only [hshift]
      constructor
      · rintro (⟨index, hindex, hearlier, hsome, hfound⟩ | ⟨hnone, hall⟩)
        · refine Or.inl ⟨index + 1, by omega, fun earlier hless ↦ ?_, hsome, hfound⟩
          cases earlier with
          | zero => exact hstart
          | succ earlier => exact hearlier earlier (by omega)
        · refine Or.inr ⟨hnone, fun index hindex ↦ ?_⟩
          cases index with
          | zero => exact hstart
          | succ index => exact hall index (by omega)
      · rintro (⟨index, hindex, hearlier, hsome, hfound⟩ | ⟨hnone, hall⟩)
        · cases index with
          | zero =>
            rw [Nat.add_zero, hstart] at hfound
            rw [← hfound] at hsome
            exact absurd hsome (by simp)
          | succ index =>
            exact Or.inl ⟨index, by omega, fun earlier hless ↦ hearlier (earlier + 1) (by omega),
              hsome, hfound⟩
        · exact Or.inr ⟨hnone, fun index hindex ↦ hall (index + 1) (by omega)⟩

/-! ### Programs that end as they should -/

/-- Every access is allowed, and the program ends with a result that has a property. -/
def Ensures (allowed : Access → Prop) (program : Traced Access Failure Result)
    (property : Result → Prop) : Prop :=
  program.Satisfies allowed ∧ ∃ result, program.Yields result ∧ property result

variable {property : Result → Prop} {later : Next → Prop}

theorem ensures_pure {result : Result} (hresult : property result) :
    (pure result : Traced Access Failure Result).Ensures allowed property :=
  ⟨satisfies_pure result, result, rfl, hresult⟩

theorem ensures_accessing {action : Access} {value : Result} (haction : allowed action)
    (hvalue : property value) :
    (accessing action value : Traced Access Failure Result).Ensures allowed property :=
  ⟨(satisfies_accessing action value).mpr haction, value, rfl, hvalue⟩

theorem Ensures.imp {other : Result → Prop} (hprogram : program.Ensures allowed property)
    (himp : ∀ result, property result → other result) : program.Ensures allowed other := by
  obtain ⟨haccesses, result, hresult, hproperty⟩ := hprogram
  exact ⟨haccesses, result, hresult, himp result hproperty⟩

theorem Ensures.allow {wider : Access → Prop} (hprogram : program.Ensures allowed property)
    (hwider : ∀ access, allowed access → wider access) : program.Ensures wider property :=
  ⟨fun access haccess ↦ hwider access (hprogram.1 access haccess), hprogram.2⟩

theorem Ensures.bind (hprogram : program.Ensures allowed property)
    (hcontinuation : ∀ result, property result → (continuation result).Ensures allowed later) :
    (program >>= continuation).Ensures allowed later := by
  obtain ⟨haccesses, result, hresult, hproperty⟩ := hprogram
  obtain ⟨hmore, next, hnext, hlater⟩ := hcontinuation result hproperty
  refine ⟨satisfies_bind.mpr ⟨haccesses, fun other hother ↦ ?_⟩, next,
    yields_bind.mpr ⟨result, hresult, hnext⟩, hlater⟩
  rwa [← hresult.unique hother]

/-- The invariant rule of a loop. -/
theorem ensures_loop {body : ℕ → State → Traced Access Failure State}
    {invariant : ℕ → State → Prop} {count start : ℕ} {state : State}
    (hstate : invariant start state)
    (hbody : ∀ index, index < start + count → ∀ state, invariant index state →
      (body index state).Ensures allowed (invariant (index + 1))) :
    (loop body count start state).Ensures allowed (invariant (start + count)) := by
  induction count generalizing start state with
  | zero => exact ensures_pure hstate
  | succ count ih =>
    rw [loop]
    refine (hbody start (by omega) state hstate).bind fun next hnext ↦ ?_
    rw [show start + (count + 1) = start + 1 + count by omega]
    exact ih hnext fun index hindex ↦ hbody index (by omega)

/-! ### Replaying a trace -/

variable {Memory : Type} {observe : Memory → Access → Memory} {memory : Memory}

/-- What the accesses of a program make of a memory. -/
def after (observe : Memory → Access → Memory) (memory : Memory)
    (program : Traced Access Failure Result) : Memory :=
  program.accesses.foldl observe memory

/-- Sequencing replays both parts where the first one yields a result. -/
theorem after_bind {result : Result} (hyields : program.Yields result) :
    after observe memory (program >>= continuation) =
      after observe (after observe memory program) (continuation result) := by
  obtain ⟨accesses, outcome⟩ := program
  obtain rfl : outcome = .ok result := hyields
  exact List.foldl_append

/-- A program whose accesses all keep a property keeps it. -/
theorem after_of_satisfies {property : Memory → Prop}
    (hkeeps : ∀ access, allowed access → ∀ memory, property memory →
      property (observe memory access))
    (hallowed : Satisfies allowed program) (hmemory : property memory) :
    property (after observe memory program) := by
  obtain ⟨accesses, outcome⟩ := program
  unfold after
  change ∀ access ∈ accesses, allowed access at hallowed
  induction accesses generalizing memory with
  | nil => exact hmemory
  | cons access accesses ih =>
    obtain ⟨hfirst, hrest⟩ := List.forall_mem_cons.mp hallowed
    exact ih (hkeeps access hfirst memory hmemory) hrest

/-- The invariant rule of a loop that ends. -/
theorem after_loop {body : ℕ → State → Traced Access Failure State} {invariant : ℕ → Memory → Prop}
    (hbody : ∀ index state next memory, invariant index memory → (body index state).Yields next →
      invariant (index + 1) (after observe memory (body index state)))
    {count start : ℕ} {state result : State} (hyields : (loop body count start state).Yields result)
    (hmemory : invariant start memory) :
    invariant (start + count) (after observe memory (loop body count start state)) := by
  induction count generalizing start state memory with
  | zero => exact hmemory
  | succ count ih =>
    unfold loop at hyields ⊢
    obtain ⟨next, hnext, hrest⟩ := yields_bind.mp hyields
    rw [after_bind hnext, show start + (count + 1) = start + 1 + count by omega]
    exact ih hrest (hbody start state next memory hmemory hnext)

end Traced

end EynOS.Foundation
