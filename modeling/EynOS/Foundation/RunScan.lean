import Mathlib.Order.Nat

/-!
# A scan for consecutive numbers of a kind

`scanRun` looks at numbers one after another, keeps where the run of numbers of a kind that it is in
started and how long it is, and stops as soon as the run is as long as wanted. `Scanning` is what
the scan keeps; `scanRun_eq_some` and `scanRun_eq_none` say that it finds a run exactly if there is
one.
-/

namespace EynOS.Foundation

/-- The scan, with the numbers that are left, the number it is at, and the start and the length of
the run that it is in. -/
def scanRun (kind : ℕ → Bool) (wanted : ℕ) : ℕ → ℕ → ℕ → ℕ → Option ℕ
  | 0, _, _, _ => none
  | left + 1, number, runStart, runLength =>
    if kind number then
      if runLength + 1 = wanted then some (if runLength = 0 then number else runStart)
      else
        scanRun kind wanted left (number + 1) (if runLength = 0 then number else runStart)
          (runLength + 1)
    else scanRun kind wanted left (number + 1) runStart 0

/-- All numbers from a first one up to a last one, which is left out, are of a kind. -/
def AllOf (kind : ℕ → Bool) (first last : ℕ) : Prop :=
  ∀ number, first ≤ number → number < last → kind number = true

/-- What a scan that began at a number keeps: the run that it is in is of the kind, shorter than
wanted, and no run that comes up to here is longer. -/
structure Scanning (kind : ℕ → Bool) (wanted first number runStart runLength : ℕ) : Prop where
  short : runLength < wanted
  place : 0 < runLength → first ≤ runStart ∧ runStart + runLength = number
  run : 0 < runLength → AllOf kind runStart number
  longest : ∀ start, first ≤ start → AllOf kind start number → number ≤ start + runLength
  after : first ≤ number

variable {kind : ℕ → Bool} {wanted first last number runStart runLength left found : ℕ}

/-- A run with one more number. -/
theorem AllOf.snoc (hrun : AllOf kind first last) (hlast : kind last = true) :
    AllOf kind first (last + 1) := by
  intro number hfirst hnumber
  rcases Nat.lt_succ_iff_lt_or_eq.mp hnumber with hlt | rfl
  · exact hrun number hfirst hlt
  · exact hlast

theorem AllOf.mono {less : ℕ} (hrun : AllOf kind first last) (hless : less ≤ last) :
    AllOf kind first less :=
  fun number hfirst hnumber ↦ hrun number hfirst (hnumber.trans_le hless)

namespace Scanning

theorem start (hwanted : 0 < wanted) (first runStart : ℕ) :
    Scanning kind wanted first first runStart 0 :=
  ⟨hwanted, fun hpos ↦ absurd hpos (Nat.lt_irrefl 0), fun hpos ↦ absurd hpos (Nat.lt_irrefl 0),
    fun _ hstart _ ↦ hstart, Nat.le_refl first⟩

section

variable (hscan : Scanning kind wanted first number runStart runLength)

include hscan

/-- The run with a number of the kind after it. -/
theorem extended (hkind : kind number = true) :
    first ≤ (if runLength = 0 then number else runStart) ∧
      (if runLength = 0 then number else runStart) + (runLength + 1) = number + 1 ∧
      AllOf kind (if runLength = 0 then number else runStart) (number + 1) := by
  by_cases hzero : runLength = 0
  · rw [if_pos hzero, hzero]
    refine ⟨hscan.after, rfl, AllOf.snoc (fun other hle hlt ↦ ?_) hkind⟩
    exact absurd hlt (Nat.not_lt_of_le hle)
  · have hpos := Nat.pos_of_ne_zero hzero
    rw [if_neg hzero]
    refine ⟨(hscan.place hpos).1, ?_, (hscan.run hpos).snoc hkind⟩
    rw [← Nat.add_assoc, (hscan.place hpos).2]

/-- A number of the kind. -/
theorem keep (hkind : kind number = true) (hshort : runLength + 1 ≠ wanted) :
    Scanning kind wanted first (number + 1) (if runLength = 0 then number else runStart)
      (runLength + 1) where
  short := Nat.lt_of_le_of_ne hscan.short hshort
  place _ := ⟨(hscan.extended hkind).1, (hscan.extended hkind).2.1⟩
  run _ := (hscan.extended hkind).2.2
  longest start hstart hrun :=
    Nat.succ_le_succ (hscan.longest start hstart (hrun.mono (Nat.le_succ number)))
  after := hscan.after.trans (Nat.le_succ number)

/-- A number of another kind. -/
theorem skip (hkind : ¬kind number = true) (later : ℕ) :
    Scanning kind wanted first (number + 1) later 0 where
  short := Nat.zero_lt_of_lt hscan.short
  place hpos := absurd hpos (Nat.lt_irrefl 0)
  run hpos := absurd hpos (Nat.lt_irrefl 0)
  longest start _ hrun := by
    by_contra hlt
    exact hkind (hrun number (by omega) (Nat.lt_succ_self number))
  after := hscan.after.trans (Nat.le_succ number)

end

end Scanning

/-- What a scan finds is a run. -/
theorem scanRun_eq_some (hscan : Scanning kind wanted first number runStart runLength)
    (hfound : scanRun kind wanted left number runStart runLength = some found) :
    first ≤ found ∧ found + wanted ≤ number + left ∧ AllOf kind found (found + wanted) := by
  induction left generalizing number runStart runLength with
  | zero => simp [scanRun] at hfound
  | succ left ih =>
    unfold scanRun at hfound
    by_cases hkind : kind number = true
    · rw [if_pos hkind] at hfound
      by_cases hwanted : runLength + 1 = wanted
      · rw [if_pos hwanted] at hfound
        obtain ⟨hfirst, hend, hrun⟩ := hscan.extended hkind
        obtain rfl := Option.some.inj hfound
        rw [← hwanted, hend]
        exact ⟨hfirst, Nat.succ_le_succ (Nat.le_add_right number left), hrun⟩
      · rw [if_neg hwanted] at hfound
        obtain ⟨hfirst, hend, hrun⟩ := ih (hscan.keep hkind hwanted) hfound
        exact ⟨hfirst, by omega, hrun⟩
    · rw [if_neg hkind] at hfound
      obtain ⟨hfirst, hend, hrun⟩ := ih (hscan.skip hkind runStart) hfound
      exact ⟨hfirst, by omega, hrun⟩

/-- A scan that finds nothing has no run ahead. -/
theorem scanRun_eq_none (hscan : Scanning kind wanted first number runStart runLength)
    (hnone : scanRun kind wanted left number runStart runLength = none) {start : ℕ}
    (hstart : first ≤ start) (hahead : number < start + wanted)
    (hend : start + wanted ≤ number + left) : ¬AllOf kind start (start + wanted) := by
  induction left generalizing number runStart runLength with
  | zero => omega
  | succ left ih =>
    intro hall
    unfold scanRun at hnone
    by_cases hkind : kind number = true
    · rw [if_pos hkind] at hnone
      by_cases hwanted : runLength + 1 = wanted
      · simp [hwanted] at hnone
      · rw [if_neg hwanted] at hnone
        -- a run that ended right here would have been long enough
        have hlater : number + 1 < start + wanted := by
          have hlongest := hscan.longest start hstart (hall.mono hahead.le)
          have hshort := hscan.short
          omega
        exact ih (hscan.keep hkind hwanted) hnone hlater (by omega) hall
    · rw [if_neg hkind] at hnone
      by_cases hin : start ≤ number
      · exact hkind (hall number hin hahead)
      · have hpos := hscan.short
        exact ih (hscan.skip hkind runStart) hnone (by omega) (by omega) hall

end EynOS.Foundation
