import EynOS.Foundation.MachineWord
import Mathlib.Algebra.BigOperators.Group.List.Basic

/-!
# One's complement sums of 16-bit values

`addEndAround` adds two 16-bit values with the end-around carry and `sumEndAround` a list of them.
Such a sum is the plain one brought into 16 bits by `reduce`, which keeps a value's remainder modulo
65535 and gives 0 only for 0, so that the order of the summands and where the carries are folded in
do not matter. `words` cuts bytes into 16-bit values, with a zero behind an odd last one.

A value and the complement of the rest of a sum agree exactly where the whole sum is all ones
(`sum_eq_ones_iff`): the rule by which a receiver that sums again and compares verifies a checksum.
-/

namespace EynOS.Foundation

/-- Addition of 16-bit values with the end-around carry. -/
def addEndAround (first second : ℕ) : ℕ :=
  if first + second < 65536 then first + second else first + second - 65535

def sumEndAround (values : List ℕ) : ℕ :=
  values.foldl addEndAround 0

/-- A sum brought into 16 bits. -/
def reduce (sum : ℕ) : ℕ :=
  if sum = 0 then 0 else (sum - 1) % 65535 + 1

/-- The 16-bit values that bytes are cut into. -/
def words : List UInt8 → List ℕ
  | [] => []
  | [byte] => [word byte 0]
  | high :: low :: rest => word high low :: words rest

/-! ### Reduced sums -/

theorem reduce_of_lt {sum : ℕ} (hsum : sum < 65536) : reduce sum = sum := by
  unfold reduce
  split_ifs <;> omega

theorem reduce_lt (sum : ℕ) : reduce sum < 65536 := by
  unfold reduce
  split_ifs <;> omega

theorem reduce_reduce_add (first second : ℕ) :
    reduce (reduce first + second) = reduce (first + second) := by
  unfold reduce
  split_ifs <;> omega

theorem reduce_fold (sum : ℕ) : reduce (sum % 65536 + sum / 65536) = reduce sum := by
  unfold reduce
  split_ifs <;> omega

theorem addEndAround_eq {first second : ℕ} (hfirst : first < 65536) (hsecond : second < 65536) :
    addEndAround first second = reduce (first + second) := by
  unfold addEndAround reduce
  split_ifs <;> omega

theorem foldl_addEndAround {values : List ℕ} (hvalues : ∀ value ∈ values, value < 65536)
    {start : ℕ} (hstart : start < 65536) :
    values.foldl addEndAround start = reduce (start + values.sum) := by
  induction values generalizing start with
  | nil => exact (reduce_of_lt hstart).symm
  | cons value values ih =>
    obtain ⟨hvalue, hrest⟩ := List.forall_mem_cons.mp hvalues
    rw [List.foldl_cons, addEndAround_eq hstart hvalue, ih hrest (reduce_lt _),
      reduce_reduce_add, List.sum_cons, Nat.add_assoc]

theorem sumEndAround_eq {values : List ℕ} (hvalues : ∀ value ∈ values, value < 65536) :
    sumEndAround values = reduce values.sum := by
  rw [sumEndAround, foldl_addEndAround hvalues (Nat.succ_pos _), Nat.zero_add]

/-! ### Words -/

theorem words_lt (bytes : List UInt8) : ∀ value ∈ words bytes, value < 65536 := by
  fun_induction words bytes with
  | case1 => simp
  | case2 byte => simpa using word_lt byte 0
  | case3 high low rest ih => exact List.forall_mem_cons.mpr ⟨word_lt high low, ih⟩

/-- A sum of words is below what so many ones give. -/
theorem sum_words_le (bytes : List UInt8) :
    (words bytes).sum ≤ 65535 * ((bytes.length + 1) / 2) := by
  fun_induction words bytes with
  | case1 => simp
  | case2 byte =>
    have := word_lt byte 0
    simp only [List.sum_singleton, List.length_singleton]
    omega
  | case3 high low rest ih =>
    have := word_lt high low
    simp only [List.sum_cons, List.length_cons]
    omega

/-- Words of an even number of bytes and of what follows them. -/
theorem words_append {first : List UInt8} (heven : first.length % 2 = 0) (second : List UInt8) :
    words (first ++ second) = words first ++ words second := by
  fun_induction words first with
  | case1 => rfl
  | case2 byte => simp at heven
  | case3 high low rest ih =>
    simp only [List.length_cons] at heven
    rw [List.cons_append, List.cons_append, words, ih (by omega), List.cons_append]

/-! ### Verification -/

/-- A value that is not 0 makes a sum all ones exactly where it is the complement of the rest, with
all ones for 0. -/
theorem sum_eq_ones_iff {rest value : ℕ} (hvalue : value < 65536) (hnonzero : value ≠ 0) :
    reduce (rest + value) = 65535 ↔
      value = if 65535 - reduce rest = 0 then 65535 else 65535 - reduce rest := by
  unfold reduce
  split_ifs <;> omega

end EynOS.Foundation
