import Mathlib.Data.Int.ModEq
import Mathlib.Data.List.Basic
import Mathlib.Data.Nat.ModEq

/-!
# Machine words

`u32` is the truncation that every unsigned sum, difference or product of 32 bits goes through, on
natural numbers, and `i32` the one with a sign, on integers; what is wrapped depends on its class
modulo `2 ^ 32` alone (`i32_congr`), so that a wrapped operand may be put for the operand.

Numbers that count on and wrap at `2 ^ 32` are compared by their distance. `serialLe_iff` says what
that means for two positions of a counter that never wraps and is seen through `u32`, and
`le_iff_same_lap` that the plain comparison of the numbers agrees with it exactly where no wrap lies
between the positions.

`checkedAdd`, `checkedSub` and `checkedMul` are nothing where the exact result is no word, next to
the operations of `UInt32`, which wrap. `word` and `doubleWord` are the values of two and four
bytes, the highest one first, and `be16` and `be32` the bytes of a value in that order; `le32` are
four bytes in the other order.
-/

namespace EynOS.Foundation

/-! ### Unsigned words -/

/-- Truncation to 32 bits. -/
def u32 (value : ℕ) : ℕ := value % 4294967296

/-- A value below `2 ^ 32` is not changed by truncation. -/
theorem u32_of_lt (value : ℕ) (hvalue : value < 4294967296) : u32 value = value :=
  Nat.mod_eq_of_lt hvalue

/-- A truncated value is below `2 ^ 32`. -/
theorem u32_lt (value : ℕ) : u32 value < 4294967296 :=
  Nat.mod_lt _ (by decide)

theorem u32_le (value : ℕ) : u32 value ≤ value :=
  Nat.mod_le _ _

/-- Truncating a summand first does not change a truncated sum. -/
theorem u32_u32_add (first second : ℕ) : u32 (u32 first + second) = u32 (first + second) :=
  Nat.mod_add_mod first 4294967296 second

/-- Two distances below `2 ^ 32` from one start that lead to the same value are equal. -/
theorem u32_add_inj (start : ℕ) {first second : ℕ} (hfirst : first < 4294967296)
    (hsecond : second < 4294967296) (hsame : u32 (start + first) = u32 (start + second)) :
    first = second :=
  Nat.ModEq.eq_of_lt_of_lt (Nat.ModEq.add_left_cancel' start hsame) hfirst hsecond

/-! ### Serial numbers -/

def SerialLe (first second : ℕ) : Prop :=
  u32 (second + 4294967296 - first) < 2147483648

instance (first second : ℕ) : Decidable (SerialLe first second) :=
  inferInstanceAs (Decidable (_ < _))

/-- Two positions of a counter are less than half the numbers apart. -/
def Near (first second : ℕ) : Prop :=
  first < second + 2147483648 ∧ second < first + 2147483648

instance (first second : ℕ) : Decidable (Near first second) :=
  inferInstanceAs (Decidable (_ ∧ _))

section Serial

variable {first second : ℕ}

theorem serialLe_iff (hnear : Near first second) :
    SerialLe (u32 first) (u32 second) ↔ first ≤ second := by
  obtain ⟨hfirst, hsecond⟩ := hnear
  unfold SerialLe u32
  omega

/-- The plain order of their numbers is the same order exactly where no wrap lies between them. -/
theorem le_iff_same_lap (hnear : Near first second) :
    (u32 first ≤ u32 second ↔ first ≤ second) ↔ first / 4294967296 = second / 4294967296 := by
  obtain ⟨hfirst, hsecond⟩ := hnear
  unfold u32
  omega

end Serial

/-! ### Signed words -/

/-- Wrapping to 32 bits with a sign. -/
def i32 (value : ℤ) : ℤ := Int.bmod value 4294967296

/-- The integers that an `int` holds. -/
def IsInt32 (value : ℤ) : Prop := -2147483648 ≤ value ∧ value < 2147483648

instance (value : ℤ) : Decidable (IsInt32 value) :=
  inferInstanceAs (Decidable (_ ∧ _))

section Signed

variable {value other : ℤ}

theorem i32_eq (value : ℤ) :
    i32 value = if value % 4294967296 < 2147483648 then value % 4294967296
      else value % 4294967296 - 4294967296 := by
  unfold i32
  rw [Int.bmod_def]
  rfl

/-- What is wrapped is an `int`. -/
theorem isInt32_i32 (value : ℤ) : IsInt32 (i32 value) := by
  unfold IsInt32
  rw [i32_eq]
  split_ifs <;> omega

/-- An `int` is not changed by wrapping. -/
theorem i32_of_isInt32 (hvalue : IsInt32 value) : i32 value = value := by
  unfold IsInt32 at hvalue
  rw [i32_eq]
  split_ifs <;> omega

/-- Wrapping does not change a value modulo `2 ^ 32`. -/
theorem i32_modEq (value : ℤ) : i32 value ≡ value [ZMOD 4294967296] := by
  unfold Int.ModEq
  rw [i32_eq]
  split_ifs <;> omega

/-- Values that are the same modulo `2 ^ 32` are wrapped to the same. -/
theorem i32_congr (hsame : value ≡ other [ZMOD 4294967296]) : i32 value = i32 other := by
  unfold Int.ModEq at hsame
  rw [i32_eq, i32_eq, hsame]

theorem i32_eq_zero_iff : i32 value = 0 ↔ (4294967296 : ℤ) ∣ value := by
  rw [i32_eq]
  split_ifs <;> omega

/-- A step of a number that is read in some base, from a wrapped value. -/
theorem i32_mul_add (value factor summand : ℤ) :
    i32 (i32 value * factor + summand) = i32 (value * factor + summand) :=
  i32_congr (((i32_modEq value).mul_right factor).add_right summand)

theorem toInt_toInt32_of_lt {word : UInt32} (hsmall : word.toNat < 2147483648) :
    word.toInt32.toInt = word.toNat :=
  BitVec.toInt_eq_toNat_of_lt (by change 2 * word.toNat < 2 ^ 32; omega)

end Signed

/-! ### Checked operations -/

/-- A sum, where it is a word. -/
def checkedAdd (first second : UInt32) : Option UInt32 :=
  if first.toNat + second.toNat < 4294967296 then some (first + second) else none

/-- A difference, where it is not negative. -/
def checkedSub (first second : UInt32) : Option UInt32 :=
  if second ≤ first then some (first - second) else none

/-- A product, where it is a word. -/
def checkedMul (first second : UInt32) : Option UInt32 :=
  if first.toNat * second.toNat < 4294967296 then some (first * second) else none

section Checked

variable {first second : UInt32}

theorem checkedAdd_of_lt (hfits : first.toNat + second.toNat < 4294967296) :
    checkedAdd first second = some (first + second) := if_pos hfits

theorem checkedAdd_of_ge (hlarge : 4294967296 ≤ first.toNat + second.toNat) :
    checkedAdd first second = none := if_neg (Nat.not_lt_of_le hlarge)

theorem toNat_add_of_lt (hfits : first.toNat + second.toNat < 4294967296) :
    (first + second).toNat = first.toNat + second.toNat := by
  rw [UInt32.toNat_add, Nat.mod_eq_of_lt hfits]

/-- A sum is a word, and which one. -/
theorem checkedAdd_eq_some {sum : UInt32} : checkedAdd first second = some sum ↔
    sum.toNat = first.toNat + second.toNat := by
  by_cases hfits : first.toNat + second.toNat < 4294967296
  · rw [checkedAdd_of_lt hfits, Option.some.injEq, ← UInt32.toNat_inj, toNat_add_of_lt hfits]
    exact eq_comm
  · have hsum := sum.toNat_lt
    rw [checkedAdd_of_ge (Nat.le_of_not_lt hfits)]
    simp only [reduceCtorEq, false_iff]
    omega

theorem checkedSub_of_le (hle : second ≤ first) : checkedSub first second = some (first - second) :=
  if_pos hle

theorem checkedSub_of_lt (hlt : first < second) : checkedSub first second = none :=
  if_neg (UInt32.not_le.mpr hlt)

end Checked

/-! ### Bytes -/

/-- The 16-bit value of two bytes, the high one first. -/
def word (high low : UInt8) : ℕ := high.toNat * 256 + low.toNat

/-- The 32-bit value of four bytes, the highest one first. -/
def doubleWord (first second third fourth : UInt8) : ℕ :=
  word first second * 65536 + word third fourth

/-- The bytes of a 16-bit value, the high one first. -/
def be16 (value : ℕ) : List UInt8 := [UInt8.ofNat (value / 256), UInt8.ofNat value]

/-- The bytes of a 32-bit value, the highest one first. -/
def be32 (value : ℕ) : List UInt8 := be16 (value / 65536) ++ be16 value

/-- The bytes of a 32-bit value, the lowest one first. -/
def le32 (value : ℕ) : List UInt8 := (be32 value).reverse

theorem word_lt (high low : UInt8) : word high low < 65536 := by
  have hhigh := high.toNat_lt
  have hlow := low.toNat_lt
  unfold word
  omega

theorem word_be16 (value : ℕ) :
    word (UInt8.ofNat (value / 256)) (UInt8.ofNat value) = value % 65536 := by
  unfold word
  rw [UInt8.toNat_ofNat', UInt8.toNat_ofNat']
  omega

/-- The bytes of a 32-bit value have that value. -/
theorem doubleWord_be32 (value : ℕ) :
    doubleWord (UInt8.ofNat (value / 65536 / 256)) (UInt8.ofNat (value / 65536))
      (UInt8.ofNat (value / 256)) (UInt8.ofNat value) = value % 4294967296 := by
  unfold doubleWord
  rw [word_be16, word_be16]
  omega

@[simp] theorem length_be16 (value : ℕ) : (be16 value).length = 2 := rfl

@[simp] theorem length_be32 (value : ℕ) : (be32 value).length = 4 := rfl

@[simp] theorem length_le32 (value : ℕ) : (le32 value).length = 4 := rfl

end EynOS.Foundation
