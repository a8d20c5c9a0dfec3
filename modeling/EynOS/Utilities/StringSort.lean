import EynOS.Foundation.Rearrangement
import EynOS.Foundation.Traced
import Mathlib.Data.Int.Init

/-!
# Sorting strings

`quicksort_strings` of `math.c` with its `partition_strings` and `swap_strings`, and `strcmp` of
`string.c`. A program is traced: its accesses are the indices of the array that it reads or writes.
`partitionStrings_ensures` is the invariant of the scan with the exchange behind it, and the
recursion takes one window on each side of the place that it returns.

An index is at least `low - 1` and at most `high + 1`, so that none of them wraps.
-/

namespace EynOS.Utilities

open Foundation

/-! ### The comparison of strings -/

/-- The characters of a string in front of its terminator. -/
structure CString where
  chars : List UInt8
  terminated : 0 ∉ chars

/-- Whether a plain `char` has a sign. -/
inductive PlainChar where
  | signed
  | unsigned

/-- The value of a plain `char` in an expression. -/
def PlainChar.value : PlainChar → UInt8 → ℤ
  | .signed, char => if char < 128 then char.toNat else char.toNat - 256
  | .unsigned, char => char.toNat

/-- The difference of the first characters in which two strings differ. -/
def compareChars (plain : PlainChar) : List UInt8 → List UInt8 → ℤ
  | [], [] => 0
  | [], char :: _ => plain.value 0 - plain.value char
  | char :: _, [] => plain.value char - plain.value 0
  | first :: s1, second :: s2 =>
    if first = second then compareChars plain s1 s2 else plain.value first - plain.value second

/-- A string that is not there compares as equal. -/
def strcmp (plain : PlainChar) (s1 s2 : Option CString) : ℤ :=
  match s1, s2 with
  | some s1, some s2 => compareChars plain s1.chars s2.chars
  | _, _ => 0

/-! ### The sort -/

/-- What a sort fails with. -/
inductive SortFault where
  | outside
  | exhausted

def readString (arr : List CString) (index : ℤ) : Traced ℤ SortFault CString :=
  match entryAt arr index with
  | some item => Traced.accessing index item
  | none => do
    Traced.access index
    Traced.fail .outside

/-- An entry of the array is written. -/
def writeString (arr : List CString) (index : ℤ) (item : CString) :
    Traced ℤ SortFault (List CString) :=
  match entryAt arr index with
  | some _ => Traced.accessing index (arr.set index.toNat item)
  | none => do
    Traced.access index
    Traced.fail .outside

def swapStrings (arr : List CString) (a b : ℤ) : Traced ℤ SortFault (List CString) := do
  let temp ← readString arr a
  let other ← readString arr b
  let arr ← writeString arr a other
  writeString arr b temp

/-- One turn of the scan, `index` places behind `low`. -/
def partitionTurn (plain : PlainChar) (low : ℤ) (pivot : CString) (index : ℕ)
    (state : List CString × ℤ) : Traced ℤ SortFault (List CString × ℤ) := do
  let (arr, i) := state
  let j := low + index
  let item ← readString arr j
  if strcmp plain (some item) (some pivot) ≤ 0 then do
    let arr ← swapStrings arr (i + 1) j
    pure (arr, i + 1)
  else pure (arr, i)

def partitionStrings (plain : PlainChar) (arr : List CString) (low high : ℤ) :
    Traced ℤ SortFault (List CString × ℤ) := do
  let pivot ← readString arr high
  let (arr, i) ← Traced.loop (partitionTurn plain low pivot) (high - low).toNat 0 (arr, low - 1)
  let arr ← swapStrings arr (i + 1) high
  pure (arr, i + 1)

/-- The recursion, with a bound on its depth. -/
def quicksortStrings (plain : PlainChar) :
    ℕ → List CString → ℤ → ℤ → Traced ℤ SortFault (List CString)
  | 0, _, _, _ => Traced.fail .exhausted
  | depth + 1, arr, low, high =>
    if low < high then do
      let (arr, pi) ← partitionStrings plain arr low high
      let arr ← quicksortStrings plain depth arr low (pi - 1)
      quicksortStrings plain depth arr (pi + 1) high
    else pure arr

/-- Neighbours from `low` to `high` compare as they should. -/
abbrev Sorted (plain : PlainChar) (low high : ℤ) (arr : List CString) : Prop :=
  OrderedBetween (fun item next ↦ strcmp plain (some item) (some next) ≤ 0) low high arr

variable {plain : PlainChar} {arr sorted : List CString} {low high i a b index : ℤ}
  {pivot item other : CString} {allowed : ℤ → Prop}

/-! ### The order of strings -/

theorem compareChars_swap (s1 s2 : List UInt8) :
    compareChars plain s2 s1 = -compareChars plain s1 s2 := by
  induction s1 generalizing s2 with
  | nil => cases s2 <;> simp only [compareChars] <;> omega
  | cons first s1 ih =>
    cases s2 with
    | nil => simp only [compareChars]; omega
    | cons second s2 =>
      unfold compareChars
      by_cases hsame : first = second
      · rw [if_pos hsame, if_pos hsame.symm, ih]
      · rw [if_neg hsame, if_neg (Ne.symm hsame)]
        omega

/-- Exchanging the strings changes the sign. -/
theorem strcmp_swap (s1 s2 : Option CString) : strcmp plain s2 s1 = -strcmp plain s1 s2 := by
  cases s1 <;> cases s2 <;> first | rfl | exact compareChars_swap _ _

/-! ### Accesses -/

theorem readString_ensures (hitem : entryAt arr index = some item) (hindex : allowed index) :
    (readString arr index).Ensures allowed (· = item) := by
  rw [readString, hitem]
  exact Traced.ensures_accessing hindex rfl

theorem writeString_ensures (hitem : entryAt arr index = some item) (hindex : allowed index) :
    (writeString arr index other).Ensures allowed (· = arr.set index.toNat other) := by
  rw [writeString, hitem]
  exact Traced.ensures_accessing hindex rfl

theorem swapStrings_ensures (hitem : entryAt arr a = some item)
    (hother : entryAt arr b = some other)
    (ha : allowed a) (hb : allowed b) :
    (swapStrings arr a b).Ensures allowed
      (· = (arr.set a.toNat other).set b.toNat item) := by
  obtain ⟨hpositive, hless⟩ := range_of_entryAt hitem
  obtain ⟨hpositive', hless'⟩ := range_of_entryAt hother
  obtain ⟨last, hlast⟩ : ∃ last, entryAt (arr.set a.toNat other) b = some last :=
    entryAt_eq_some_of_range hpositive' (by rwa [List.length_set])
  unfold swapStrings
  refine (readString_ensures hitem ha).bind fun _ hfirst ↦ ?_
  refine (readString_ensures hother hb).bind fun _ hsecond ↦ ?_
  subst hfirst hsecond
  refine (writeString_ensures hitem ha).bind fun _ hset ↦ ?_
  subst hset
  exact writeString_ensures hlast hb

/-! ### The partition -/

/-- The scan has come to `j`: the entries up to `i` are at most the pivot, those behind them in
front of `j` are greater. -/
structure Scanned (plain : PlainChar) (arr : List CString) (low high : ℤ) (pivot : CString) (j : ℤ)
    (state : List CString × ℤ) : Prop where
  rearranged : Rearranged low (high - 1) arr state.1
  range : low - 1 ≤ state.2 ∧ state.2 < j
  below : ∀ index, low ≤ index → index ≤ state.2 → ∀ item, entryAt state.1 index = some item →
    strcmp plain (some item) (some pivot) ≤ 0
  above : ∀ index, state.2 < index → index < j → ∀ item, entryAt state.1 index = some item →
    0 < strcmp plain (some item) (some pivot)

theorem partitionTurn_ensures (hlow : 0 ≤ low) (hhigh : high < arr.length) {turn : ℕ}
    (hturn : low + turn < high) {state : List CString × ℤ}
    (hstate : Scanned plain arr low high pivot (low + turn) state) :
    (partitionTurn plain low pivot turn state).Ensures (fun index ↦ low ≤ index ∧ index ≤ high)
      (Scanned plain arr low high pivot (low + (turn + 1 : ℕ))) := by
  obtain ⟨entries, i⟩ := state
  obtain ⟨hrearranged, hrange, hbelow, habove⟩ := hstate
  dsimp only at hrearranged hrange hbelow habove
  have hlength := hrearranged.length_eq
  obtain ⟨item, hitem⟩ : ∃ item, entryAt entries (low + turn) = some item :=
    entryAt_eq_some_of_range (by omega) (by omega)
  obtain ⟨other, hother⟩ : ∃ other, entryAt entries (i + 1) = some other :=
    entryAt_eq_some_of_range (by omega) (by omega)
  unfold partitionTurn
  refine (readString_ensures hitem ⟨by omega, by omega⟩).bind fun item heq ↦ ?_
  subst heq
  split_ifs with hcompare
  · refine (swapStrings_ensures hother hitem ⟨by omega, by omega⟩ ⟨by omega, by omega⟩).bind
      fun next hnext ↦ ?_
    subst hnext
    have hswap : Rearranged low (high - 1) entries _ :=
      Rearranged.exchange hother hitem ⟨by omega, by omega⟩ ⟨by omega, by omega⟩
    refine Traced.ensures_pure ⟨hrearranged.trans hswap, ⟨?_, ?_⟩, fun index hleast hindex ↦ ?_,
      fun index hless hindex ↦ ?_⟩
    · dsimp only
      omega
    · dsimp only
      omega
    · dsimp only at hindex ⊢
      rw [entryAt_exchange hother hitem]
      intro last hlast
      split_ifs at hlast with hj hi
      · -- the place after the last small entry is the one that was read
        obtain rfl := Option.some.inj hlast
        have hsame : i + 1 = low + turn := by omega
        obtain rfl := Option.some.inj (hitem.symm.trans (hsame ▸ hother))
        exact hcompare
      · obtain rfl := Option.some.inj hlast
        exact hcompare
      · exact hbelow index hleast (by omega) last hlast
    · dsimp only at hless ⊢
      rw [entryAt_exchange hother hitem]
      intro last hlast
      split_ifs at hlast with hj hi
      · obtain rfl := Option.some.inj hlast
        exact habove (i + 1) (by omega) (by omega) _ hother
      · exact absurd hi (by omega)
      · exact habove index (by omega) (by omega) last hlast
  · refine Traced.ensures_pure ⟨hrearranged, ⟨hrange.1, ?_⟩, hbelow, fun index hless hindex ↦ ?_⟩
    · dsimp only
      omega
    · dsimp only at hless ⊢
      by_cases hj : index = low + turn
      · rintro _ hlast
        obtain rfl := Option.some.inj (hitem.symm.trans (hj ▸ hlast))
        exact Int.not_le.mp hcompare
      · exact habove index hless (by omega)

/-- What the partition of a window returns: the entries from `low` to `high` rearranged around the
entry at the returned place. -/
structure Parted (plain : PlainChar) (arr : List CString) (low high : ℤ)
    (result : List CString × ℤ) : Prop where
  rearranged : Rearranged low high arr result.1
  range : low ≤ result.2 ∧ result.2 ≤ high
  around : ∃ pivot, entryAt result.1 result.2 = some pivot ∧
    (∀ index, low ≤ index → index ≤ result.2 - 1 → ∀ item, entryAt result.1 index = some item →
      strcmp plain (some item) (some pivot) ≤ 0) ∧
    ∀ index, result.2 + 1 ≤ index → index ≤ high → ∀ item, entryAt result.1 index = some item →
      strcmp plain (some pivot) (some item) ≤ 0

theorem partitionStrings_ensures (hlow : 0 ≤ low) (hless : low < high) (hhigh : high < arr.length) :
    (partitionStrings plain arr low high).Ensures (fun index ↦ low ≤ index ∧ index ≤ high)
      (Parted plain arr low high) := by
  obtain ⟨pivot, hpivot⟩ : ∃ pivot, entryAt arr high = some pivot :=
    entryAt_eq_some_of_range (by omega) hhigh
  unfold partitionStrings
  refine (readString_ensures hpivot ⟨by omega, le_refl high⟩).bind fun pivot heq ↦ ?_
  subst heq
  have hstart : Scanned plain arr low high pivot (low + (0 : ℕ)) (arr, low - 1) := by
    refine ⟨Rearranged.refl _ _ _, ⟨le_refl _, ?_⟩, fun index hleast hindex ↦ ?_,
      fun index hleast hindex ↦ ?_⟩ <;> dsimp only at * <;> omega
  refine (@Traced.ensures_loop _ _ _ _ _
    (fun turn ↦ Scanned plain arr low high pivot (low + turn)) _ _ _ hstart
    fun turn hturn state hstate ↦ partitionTurn_ensures hlow hhigh (by omega) hstate).bind
    fun state hstate ↦ ?_
  obtain ⟨entries, i⟩ := state
  rw [show low + ((0 + (high - low).toNat : ℕ) : ℤ) = high by omega] at hstate
  obtain ⟨hrearranged, hrange, hbelow, habove⟩ := hstate
  dsimp only at hrearranged hrange hbelow habove
  have hlength := hrearranged.length_eq
  obtain ⟨other, hother⟩ : ∃ other, entryAt entries (i + 1) = some other :=
    entryAt_eq_some_of_range (by omega) (by omega)
  have hlast : entryAt entries high = some pivot :=
    (hrearranged.outside (Or.inr (by omega))).trans hpivot
  refine (swapStrings_ensures hother hlast ⟨by omega, by omega⟩ ⟨by omega, by omega⟩).bind
    fun next hnext ↦ ?_
  subst hnext
  refine Traced.ensures_pure ⟨(hrearranged.widen (le_refl _) (by omega)).trans
    (Rearranged.exchange hother hlast ⟨by omega, by omega⟩ ⟨by omega, by omega⟩),
    ⟨by dsimp only; omega, by dsimp only; omega⟩, pivot, ?_⟩
  dsimp only
  simp only [entryAt_exchange hother hlast]
  refine ⟨?_, fun index hleast hindex item hitem ↦ ?_, fun index hleast hindex item hitem ↦ ?_⟩
  · by_cases hsame : i + 1 = high
    · rw [if_pos hsame, ← hother, hsame, hlast]
    · rw [if_neg hsame, if_pos trivial]
  · rw [if_neg (by omega), if_neg (by omega)] at hitem
    exact hbelow index hleast (by omega) item hitem
  · rw [strcmp_swap]
    split_ifs at hitem with hlast' hfirst
    · obtain rfl := Option.some.inj hitem
      have := habove (i + 1) (by omega) (by omega) other hother
      omega
    · exact absurd hfirst (by omega)
    · have := habove index (by omega) (by omega) item hitem
      omega

/-! ### The recursion -/

/-- The entries from `low` to `high` are permuted and in order, with no access outside of them. -/
theorem quicksortStrings_sorts (hlow : 0 ≤ low) (hhigh : high < arr.length) {depth : ℕ}
    (hdepth : (high + 1 - low).toNat < depth) :
    (quicksortStrings plain depth arr low high).Ensures (fun index ↦ low ≤ index ∧ index ≤ high)
      (fun sorted ↦ Rearranged low high arr sorted ∧ Sorted plain low high sorted) := by
  induction depth generalizing arr low high with
  | zero => exact absurd hdepth (Nat.not_lt_zero _)
  | succ depth ih =>
    rw [quicksortStrings]
    split_ifs with hless
    · refine (partitionStrings_ensures hlow hless hhigh).bind fun result hresult ↦ ?_
      obtain ⟨parted, pi⟩ := result
      obtain ⟨hparted, hrange, pivot, hpivot, hbelow, habove⟩ := hresult
      dsimp only at hparted hrange hpivot hbelow habove ⊢
      have hlength := hparted.length_eq
      refine ((@ih parted low (pi - 1) hlow (by omega) (by omega)).allow
        fun index hindex ↦ ⟨hindex.1, by omega⟩).bind fun first hfirst ↦ ?_
      obtain ⟨hfirst, hordered⟩ := hfirst
      have hlength' := hfirst.length_eq
      refine ((@ih first (pi + 1) high (by omega) (by omega) (by omega)).allow
        fun index hindex ↦ ⟨by omega, hindex.2⟩).imp fun second hsecond ↦ ?_
      obtain ⟨hsecond, hordered'⟩ := hsecond
      refine ⟨hparted.trans ((hfirst.widen (le_refl _) (by omega)).trans
        (hsecond.widen (by omega) (le_refl _))), ?_⟩
      have hkept : entryAt second pi = some pivot := by
        rw [hsecond.outside (Or.inl (by omega)), hfirst.outside (Or.inr (by omega)), hpivot]
      refine OrderedBetween.join (hordered.congr fun index _ hindex ↦
        hsecond.outside (Or.inl (by omega))) hordered' hkept ?_ ?_
      · intro place hleast hplace other hother
        rw [hsecond.outside (Or.inl (by omega))] at hother
        exact hfirst.forall_entries (Or.inl ⟨le_refl _, le_refl _⟩) hbelow hleast hplace hother
      · intro place hleast hplace other hother
        have habove' : ∀ index, pi + 1 ≤ index → index ≤ high → ∀ item,
            entryAt first index = some item → strcmp plain (some pivot) (some item) ≤ 0 := by
          intro index hindex hmost item hitem
          rw [hfirst.outside (Or.inr (by omega))] at hitem
          exact habove index hindex hmost item hitem
        exact hsecond.forall_entries (Or.inl ⟨le_refl _, le_refl _⟩) habove' hleast hplace hother
    · refine Traced.ensures_pure ⟨Rearranged.refl _ _ _, fun index hleast hindex ↦ ?_⟩
      exact absurd hindex (by omega)

/-- Two strings in the wrong order. -/
theorem quicksortStrings_sorts_two :
    (quicksortStrings .signed 3 [⟨[98], by decide⟩, ⟨[97, 98], by decide⟩] 0 1).Ensures
      (fun index ↦ 0 ≤ index ∧ index ≤ 1)
      (fun sorted ↦ Rearranged 0 1 [⟨[98], by decide⟩, ⟨[97, 98], by decide⟩] sorted ∧
        Sorted .signed 0 1 sorted) :=
  quicksortStrings_sorts (by decide) (by decide) (by decide)

end EynOS.Utilities
