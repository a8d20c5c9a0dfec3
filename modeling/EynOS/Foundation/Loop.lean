import Mathlib.Data.Nat.Init
import Mathlib.Logic.Relation

/-!
# Loops without a bound

The body of a loop looks at a value and either leaves the loop with a result or goes on with another
value. `Exits` says after how many turns a loop ends and with what; a value from which no number of
turns leads to a result is one from which the loop never ends. `turns` is the loop with a bound on
its turns, and `turns_eq_some` what it finds: the results that fewer turns lead to.

`Exits.carry` follows two loops together, as long as an invariant says that their bodies agree.
`Visits` says which values a loop comes to.
-/

namespace EynOS.Foundation

/-- A loop leaves with a result after some turns. -/
inductive Exits {Value Result : Type} (body : Value → Result ⊕ Value) : ℕ → Value → Result → Prop
  | leave {value : Value} {result : Result} (hbody : body value = .inl result) :
    Exits body 0 value result
  | turn {count : ℕ} {value next : Value} {result : Result} (hbody : body value = .inr next)
    (hrest : Exits body count next result) : Exits body (count + 1) value result

def Ends {Value Result : Type} (body : Value → Result ⊕ Value) (value : Value) : Prop :=
  ∃ count result, Exits body count value result

/-- A loop comes from one value to another. -/
def Visits {Value Result : Type} (body : Value → Result ⊕ Value) : Value → Value → Prop :=
  Relation.ReflTransGen fun value next ↦ body value = .inr next

def turns {Value Result : Type} (body : Value → Result ⊕ Value) : ℕ → Value → Option Result
  | 0, _ => none
  | bound + 1, value =>
    match body value with
    | .inl result => some result
    | .inr next => turns body bound next

variable {Value Result Other : Type} {body : Value → Result ⊕ Value} {count other bound : ℕ}
  {value next : Value} {result left : Result}

theorem exits_of_leave (hbody : body value = .inl result) :
    Exits body count value left ↔ count = 0 ∧ left = result := by
  constructor
  · intro hexits
    cases hexits with
    | leave hleft => exact ⟨rfl, Sum.inl.inj (hleft.symm.trans hbody)⟩
    | turn hturn _ => exact absurd (hturn.symm.trans hbody) (by simp)
  · rintro ⟨rfl, rfl⟩
    exact .leave hbody

theorem exits_of_turn (hbody : body value = .inr next) :
    Exits body count value result ↔ ∃ less, count = less + 1 ∧ Exits body less next result := by
  constructor
  · intro hexits
    cases hexits with
    | leave hleft => exact absurd (hleft.symm.trans hbody) (by simp)
    | turn hturn hrest =>
      obtain rfl := Sum.inr.inj (hturn.symm.trans hbody)
      exact ⟨_, rfl, hrest⟩
  · rintro ⟨less, rfl, hrest⟩
    exact .turn hbody hrest

/-- A loop ends in one way. -/
theorem Exits.unique (hexits : Exits body count value result)
    (hleft : Exits body other value left) : count = other ∧ result = left := by
  induction hexits generalizing other with
  | leave hbody =>
    obtain ⟨rfl, rfl⟩ := (exits_of_leave hbody).mp hleft
    exact ⟨rfl, rfl⟩
  | turn hbody _ ih =>
    obtain ⟨less, rfl, hrest⟩ := (exits_of_turn hbody).mp hleft
    obtain ⟨rfl, rfl⟩ := ih hrest
    exact ⟨rfl, rfl⟩

/-- A loop that comes back to where it was does not end. -/
theorem not_ends_of_turn_self (hbody : body value = .inr value) : ¬Ends body value := by
  rintro ⟨count, result, hexits⟩
  induction count with
  | zero => simpa using (exits_of_turn hbody).mp hexits
  | succ count ih =>
    obtain ⟨less, hless, hrest⟩ := (exits_of_turn hbody).mp hexits
    exact ih (Nat.succ.inj hless ▸ hrest)

/-- What a loop with a bound finds. -/
theorem turns_eq_some :
    turns body bound value = some result ↔ ∃ count < bound, Exits body count value result := by
  induction bound generalizing value with
  | zero => simp [turns]
  | succ bound ih =>
    unfold turns
    cases hbody : body value with
    | inl first =>
      simp only [Option.some.injEq, exits_of_leave hbody]
      constructor
      · rintro rfl
        exact ⟨0, Nat.succ_pos bound, rfl, rfl⟩
      · rintro ⟨_, -, -, rfl⟩
        rfl
    | inr next =>
      simp only [ih, exits_of_turn hbody]
      constructor
      · rintro ⟨count, hcount, hexits⟩
        exact ⟨count + 1, Nat.succ_lt_succ hcount, count, rfl, hexits⟩
      · rintro ⟨_, hcount, less, rfl, hexits⟩
        exact ⟨less, Nat.lt_of_succ_lt_succ hcount, hexits⟩

/-- What each turn keeps holds of every value that a loop comes to. -/
theorem Visits.keeps {invariant : Value → Prop}
    (hkeep : ∀ value next, invariant value → body value = .inr next → invariant next)
    (hvalue : invariant value) (hvisits : Visits body value next) : invariant next := by
  induction hvisits with
  | refl => exact hvalue
  | tail _ hturn ih => exact hkeep _ _ ih hturn

/-- Two loops whose bodies agree, up to a map of the results, end alike. -/
theorem Exits.carry {second : Value → Other ⊕ Value} {translate : Result → Other}
    {invariant : Value → Prop}
    (hagree : ∀ value, invariant value → second value = (body value).map translate id)
    (hkeep : ∀ value next, invariant value → body value = .inr next → invariant next)
    (hvalue : invariant value) (hexits : Exits body count value result) :
    Exits second count value (translate result) := by
  induction hexits with
  | leave hbody =>
    refine .leave ?_
    rw [hagree _ hvalue, hbody]
    rfl
  | turn hbody _ ih =>
    refine .turn ?_ (ih (hkeep _ _ hvalue hbody))
    rw [hagree _ hvalue, hbody]
    rfl

end EynOS.Foundation
