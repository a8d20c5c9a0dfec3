import EynOS.Foundation.Loop
import Mathlib.Data.Set.Finite.Basic

/-!
# Iterating a partial function

From a value, a partial function leads to another one or to none. `iterated` is where a number of
steps leads, and `trail` the values on the way there, the last one first. Among finitely many values
the steps come to an end if and only if no value comes twice (`stops_iff`).

`exits_iff` tells the end of a loop by its turns. A loop that turns as a partial function of some
part of its value says comes to where that function leads (`Follows.iterated`), and ends if and only
if it stops (`Follows.ends_iff`).
-/

namespace EynOS.Foundation

variable {Key Value Result : Type} {step : Key → Option Key} {key next last : Key}
  {count more : ℕ}

/-- Where a number of steps leads. -/
def iterated (step : Key → Option Key) : ℕ → Key → Option Key
  | 0, key => some key
  | count + 1, key => (step key).bind (iterated step count)

/-- The steps come to an end. -/
def Stops (step : Key → Option Key) (key : Key) : Prop :=
  ∃ count, iterated step count key = none

/-- The steps come to a value twice. -/
def Returns (step : Key → Option Key) (key : Key) : Prop :=
  ∃ count more value, count < more ∧ iterated step count key = some value ∧
    iterated step more key = some value

/-- Where the steps lead, the last one first, without the value that they start from. -/
def trail (step : Key → Option Key) : ℕ → Key → List Key
  | 0, _ => []
  | count + 1, key =>
    match step key with
    | none => []
    | some next => trail step count next ++ [next]

theorem iterated_of_step (hstep : step key = some next) :
    iterated step (count + 1) key = iterated step count next := by
  rw [iterated, hstep, Option.bind_some]

theorem iterated_of_stop (hstep : step key = none) : iterated step (count + 1) key = none := by
  rw [iterated, hstep, Option.bind_none]

theorem trail_of_step (hstep : step key = some next) :
    trail step (count + 1) key = trail step count next ++ [next] := by
  rw [trail, hstep]

theorem iterated_add :
    iterated step (count + more) key = (iterated step count key).bind (iterated step more) := by
  induction count generalizing key with
  | zero => rw [Nat.zero_add, iterated, Option.bind_some]
  | succ count ih =>
    rw [Nat.succ_add]
    cases hstep : step key with
    | none => rw [iterated_of_stop hstep, iterated_of_stop hstep, Option.bind_none]
    | some next => rw [iterated_of_step hstep, iterated_of_step hstep, ih]

theorem iterated_none_of_le (hnone : iterated step count key = none) (hle : count ≤ more) :
    iterated step more key = none := by
  obtain ⟨rest, rfl⟩ := Nat.exists_eq_add_of_le hle
  rw [iterated_add, hnone, Option.bind_none]

/-- Steps that come to a value twice do not come to an end. -/
theorem Returns.not_stops (hreturns : Returns step key) : ¬Stops step key := by
  classical
  obtain ⟨count, more, value, hless, hcount, hmore⟩ := hreturns
  intro hstops
  -- the shortest way to the end passes the second visit, and the first one makes it shorter
  have hend := Nat.find_spec hstops
  have hafter : more < Nat.find hstops := by
    by_contra hnot
    rw [iterated_none_of_le hend (Nat.not_lt.mp hnot)] at hmore
    exact absurd hmore (by simp)
  obtain ⟨rest, hrest⟩ := Nat.exists_eq_add_of_le hafter.le
  have hshorter : iterated step (count + rest) key = none := by
    rw [iterated_add, hcount, ← hmore, ← iterated_add, ← hrest]
    exact hend
  exact Nat.find_min hstops (show count + rest < Nat.find hstops by omega) hshorter

/-- Among finitely many values, the steps come to an end if and only if no value comes twice. -/
theorem stops_iff {reached : Set Key} (hfinite : reached.Finite)
    (hreached : ∀ count value, iterated step count key = some value → value ∈ reached) :
    Stops step key ↔ ¬Returns step key := by
  constructor
  · exact fun hstops hreturns ↦ hreturns.not_stops hstops
  · intro hreturns
    by_contra hstops
    have hsome : ∀ count, ∃ value, iterated step count key = some value := fun count ↦
      Option.ne_none_iff_exists'.mp fun hnone ↦ hstops ⟨count, hnone⟩
    choose value hvalue using hsome
    have hinjective : Function.Injective value := by
      intro one other heq
      by_contra hne
      rcases Nat.lt_or_gt_of_ne hne with hless | hless
      · exact hreturns ⟨one, other, _, hless, hvalue one, heq ▸ hvalue other⟩
      · exact hreturns ⟨other, one, _, hless, hvalue other, heq ▸ hvalue one⟩
    exact Set.infinite_of_injective_forall_mem hinjective
      (fun count ↦ hreached count _ (hvalue count)) hfinite

theorem mem_trail (hlast : last ∈ trail step count key) :
    ∃ earlier < count, iterated step (earlier + 1) key = some last := by
  induction count generalizing key with
  | zero => exact absurd hlast List.not_mem_nil
  | succ count ih =>
    cases hstep : step key with
    | none => simp [trail, hstep] at hlast
    | some next =>
      rw [trail_of_step hstep, List.mem_append, List.mem_singleton] at hlast
      rcases hlast with hlast | rfl
      · obtain ⟨earlier, hless, hearlier⟩ := ih hlast
        exact ⟨earlier + 1, Nat.succ_lt_succ hless, (iterated_of_step hstep).trans hearlier⟩
      · exact ⟨0, Nat.succ_pos count, iterated_of_step hstep⟩

/-- Steps that come to no value twice do not come back to where they start. -/
theorem not_mem_trail (hreturns : ¬Returns step key) : key ∉ trail step count key := fun hmem ↦ by
  obtain ⟨earlier, -, hearlier⟩ := mem_trail hmem
  exact hreturns ⟨0, earlier + 1, key, Nat.succ_pos earlier, rfl, hearlier⟩

theorem length_trail (hlast : iterated step count key = some last) :
    (trail step count key).length = count := by
  induction count generalizing key with
  | zero => rfl
  | succ count ih =>
    cases hstep : step key with
    | none => simp [iterated_of_stop hstep] at hlast
    | some next =>
      rw [iterated_of_step hstep] at hlast
      rw [trail_of_step hstep, List.length_append, ih hlast, List.length_singleton]

/-- The trail ends where the steps lead. -/
theorem trail_eq_cons (hlast : iterated step (count + 1) key = some last) :
    ∃ earlier, trail step (count + 1) key = last :: earlier := by
  induction count generalizing key with
  | zero =>
    cases hstep : step key with
    | none => simp [iterated_of_stop hstep] at hlast
    | some next =>
      rw [iterated_of_step hstep] at hlast
      obtain rfl := Option.some.inj hlast
      exact ⟨[], trail_of_step hstep⟩
  | succ count ih =>
    cases hstep : step key with
    | none => simp [iterated_of_stop hstep] at hlast
    | some next =>
      rw [iterated_of_step hstep] at hlast
      obtain ⟨earlier, hearlier⟩ := ih hlast
      exact ⟨earlier ++ [next], by rw [trail_of_step hstep, hearlier, List.cons_append]⟩

/-! ### Loops that turn as a partial function -/

/-- The value with which a loop goes on. -/
def turned (body : Value → Result ⊕ Value) (value : Value) : Option Value :=
  (body value).getRight?

/-- A loop turns as a partial function of some part of its value says. -/
def Follows (body : Value → Result ⊕ Value) (part : Value → Key) (step : Key → Option Key) : Prop :=
  ∀ value, (turned body value).map part = step (part value)

variable {body : Value → Result ⊕ Value} {part : Value → Key} {value following : Value}
  {result : Result}

theorem turned_of_leave (hbody : body value = .inl result) : turned body value = none := by
  rw [turned, hbody, Sum.getRight?_inl]

theorem turned_of_turn (hbody : body value = .inr following) :
    turned body value = some following := by
  rw [turned, hbody, Sum.getRight?_inr]

/-- A loop ends with a result if its turns lead to where it leaves with that result. -/
theorem exits_iff : Exits body count value result ↔
    ∃ left, iterated (turned body) count value = some left ∧
      body left = .inl result := by
  induction count generalizing value with
  | zero =>
    constructor
    · intro hexits
      cases hexits with
      | leave hbody => exact ⟨value, rfl, hbody⟩
    · rintro ⟨left, hleft, hbody⟩
      obtain rfl := Option.some.inj hleft
      exact .leave hbody
  | succ count ih =>
    cases hbody : body value with
    | inl first =>
      rw [exits_of_leave hbody, iterated_of_stop (turned_of_leave hbody)]
      simp
    | inr following =>
      rw [exits_of_turn hbody, iterated_of_step (turned_of_turn hbody), ← ih]
      constructor
      · rintro ⟨less, hless, hrest⟩
        exact Nat.succ.inj hless ▸ hrest
      · exact fun hrest ↦ ⟨count, rfl, hrest⟩

/-- The turns of a loop lead to where the function that it follows leads. -/
theorem Follows.iterated (hfollows : Follows body part step) :
    (iterated (turned body) count value).map part =
      iterated step count (part value) := by
  induction count generalizing value with
  | zero => rfl
  | succ count ih =>
    have hpart := hfollows value
    cases hturned : turned body value with
    | none =>
      rw [hturned, Option.map_none] at hpart
      rw [iterated_of_stop hturned, iterated_of_stop hpart.symm, Option.map_none]
    | some following =>
      rw [hturned, Option.map_some] at hpart
      rw [iterated_of_step hturned, ih, iterated_of_step hpart.symm]

/-- A loop ends if and only if the function that it follows stops. -/
theorem Follows.ends_iff (hfollows : Follows body part step) :
    Ends body value ↔ Stops step (part value) := by
  constructor
  · rintro ⟨count, result, hexits⟩
    obtain ⟨left, hleft, hbody⟩ := exits_iff.mp hexits
    refine ⟨count + 1, ?_⟩
    rw [← hfollows.iterated, iterated_add, hleft, Option.bind_some,
      iterated_of_stop (turned_of_leave hbody), Option.map_none]
  · rintro ⟨count, hcount⟩
    rw [← hfollows.iterated, Option.map_eq_none_iff] at hcount
    induction count generalizing value with
    | zero => exact absurd hcount (by simp [Foundation.iterated])
    | succ count ih =>
      cases hbody : body value with
      | inl result => exact ⟨0, result, .leave hbody⟩
      | inr following =>
        rw [iterated_of_step (turned_of_turn hbody)] at hcount
        obtain ⟨less, result, hrest⟩ := ih hcount
        exact ⟨less + 1, result, .turn hbody hrest⟩

end EynOS.Foundation
