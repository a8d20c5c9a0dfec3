import EynOS.Foundation.MachineWord
import Mathlib.Data.List.TakeWhile
import Mathlib.Data.Rat.Floor
import Mathlib.Tactic.Positivity

/-!
# The calculator

`math_get_current_equation` of `math.c`: two decimal numbers with an operator between them, read
into thousandths. `equation_iff`: for every equation that is written out, what the calculator
returns is the exact result in thousandths, or 0 where an operand or the result does not fit,
exactly where `Exact` holds.

A string is its bytes before the NUL; what the function reads of it are the bytes below `size`. The
kernel is compiled so that an `int` wraps.
-/

namespace EynOS.Utilities

open Foundation

/-! ### The function -/

def mathAdd (num1 num2 : ℤ) : ℤ := i32 (num1 + num2)

def mathRemove (num1 num2 : ℤ) : ℤ := i32 (num1 - num2)

def mathEpi (num1 num2 : ℤ) : ℤ := i32 (num1.tdiv 1000 * num2)

def mathDia (num1 num2 : ℤ) : ℤ := if num2 = 0 then 0 else i32 (i32 (num1.tdiv num2) * 1000)

/-- The values of `operation`. -/
inductive Operation
  | add
  | remove
  | epi
  | dia
  deriving DecidableEq

def Operation.sign : Operation → UInt8
  | add => 43
  | remove => 45
  | epi => 42
  | dia => 47

def operationOf (char : UInt8) : Option Operation :=
  if char = 43 then some .add
  else if char = 45 then some .remove
  else if char = 42 then some .epi
  else if char = 47 then some .dia
  else none

/-- The operations on two numbers. -/
def calculate : Operation → ℤ → ℤ → ℤ
  | .add => mathAdd
  | .remove => mathRemove
  | .epi => mathEpi
  | .dia => mathDia

def skipSpaces (text : List UInt8) : List UInt8 := text.dropWhile (· = 32)

/-- The loops over the characters of a number: the number, `decimal_digits`, and the rest of the
string. -/
def parseNumber : List UInt8 → ℤ → ℕ → Option (ℤ × ℕ × List UInt8)
  | [], num, decimalDigits => some (num, decimalDigits, [])
  | char :: rest, num, decimalDigits =>
    if char = 46 then
      if 0 < decimalDigits then none else parseNumber rest num 1
    else if 48 ≤ char ∧ char ≤ 57 then
      if 214748364 < num then none
      else
        let num := i32 (num * 10 + (char.toNat - 48 : ℕ))
        if 0 < decimalDigits then
          -- The digit that is left unread has been added to the number.
          if 3 < decimalDigits then some (num, decimalDigits, char :: rest)
          else parseNumber rest num (decimalDigits + 1)
        else parseNumber rest num decimalDigits
    else some (num, decimalDigits, char :: rest)

/-- The loop that multiplies by ten until there are three decimal places. -/
def scaleLoop : ℕ → ℤ → Option ℤ
  | 0, num => some num
  | rounds + 1, num => if 214748364 < num then none else scaleLoop rounds (i32 (num * 10))

def scaleNumber (num : ℤ) (decimalDigits : ℕ) : Option ℤ :=
  if 0 < decimalDigits then scaleLoop (4 - decimalDigits) num
  else if 2147483 < num then none
  else some (i32 (num * 1000))

/-- A number and the spaces before and behind it. -/
def parseOperand (text : List UInt8) : Option (ℤ × List UInt8) :=
  (parseNumber (skipSpaces text) 0 0).bind fun (num, decimalDigits, rest) ↦
    (scaleNumber num decimalDigits).map fun num ↦ (num, skipSpaces rest)

/-- The result of a string; nothing is an early return of 0. -/
def evaluate (text : List UInt8) : Option ℤ :=
  (parseOperand text).bind fun (num1, rest) ↦
    match rest with
    | [] => none
    | char :: rest =>
      (operationOf char).bind fun operation ↦
        (parseOperand rest).bind fun (num2, rest) ↦
          match rest with
          | [] => some (calculate operation num1 num2)
          | _ :: _ => none

/-- `math_get_current_equation`; no string is the null pointer. -/
def mathGetCurrentEquation (str : Option (List UInt8)) : ℤ :=
  match str with
  | none => 0
  | some str =>
    let size := str.length % 65536 % 256
    if size = 0 then 0 else (evaluate (str.take size)).getD 0

/-! ### Equations -/

/-- The number that digits stand for, after others. -/
def readOnDecimal (value : ℕ) (digits : List (Fin 10)) : ℕ :=
  digits.foldl (fun (value : ℕ) (digit : Fin 10) ↦ value * 10 + digit.val) value

/-- A decimal number with at most three fractional digits. -/
structure Decimal where
  whole : List (Fin 10)
  fraction : Option (List (Fin 10))
  short : ∀ digits ∈ fraction, digits.length ≤ 3
  digit : whole ≠ [] ∨ ∃ digits ∈ fraction, digits ≠ []

/-- The digits of a number up to the third decimal place. -/
def Decimal.digits (decimal : Decimal) : List (Fin 10) :=
  decimal.whole ++ decimal.fraction.getD [] ++
    List.replicate (3 - (decimal.fraction.getD []).length) 0

def Decimal.thousandths (decimal : Decimal) : ℕ := readOnDecimal 0 decimal.digits

/-- A number. -/
def Decimal.value (decimal : Decimal) : ℚ := decimal.thousandths / 1000

def digitChar (digit : Fin 10) : UInt8 := UInt8.ofNat (48 + digit)

/-- How a number is written. -/
def Decimal.chars (decimal : Decimal) : List UInt8 :=
  decimal.whole.map digitChar ++
    match decimal.fraction with
    | none => []
    | some digits => 46 :: digits.map digitChar

/-- Two numbers with an operator between them, and the spaces around them. -/
structure Equation where
  before : ℕ
  first : Decimal
  left : ℕ
  operation : Operation
  right : ℕ
  second : Decimal
  behind : ℕ

def Equation.chars (equation : Equation) : List UInt8 :=
  List.replicate equation.before 32 ++ equation.first.chars ++
    (List.replicate equation.left 32 ++ equation.operation.sign ::
      (List.replicate equation.right 32 ++ equation.second.chars ++
        List.replicate equation.behind 32))

def Operation.exact : Operation → ℚ → ℚ → ℚ
  | add, first, second => first + second
  | remove, first, second => first - second
  | epi, first, second => first * second
  | dia, first, second => first / second

def inThousandths (value : ℚ) : ℤ := if 0 ≤ value then ⌊value * 1000⌋ else ⌈value * 1000⌉

def Equation.exact (equation : Equation) : ℤ :=
  inThousandths (equation.operation.exact equation.first.value equation.second.value)

/-- Both operands and the result fit, and the divisor is not zero. -/
def Equation.Fits (equation : Equation) : Prop :=
  IsInt32 equation.first.thousandths ∧ IsInt32 equation.second.thousandths ∧
    ¬ (equation.operation = .dia ∧ equation.second.thousandths = 0) ∧ IsInt32 equation.exact

/-- What the calculator has to return. -/
def Equation.Right (equation : Equation) (result : ℤ) : Prop :=
  (equation.Fits → result = equation.exact) ∧ (¬ equation.Fits → result = 0)

/-! ### The condition -/

/-- The digits of a number that the function reads or puts behind it one by one. -/
def Decimal.steps (decimal : Decimal) : List (Fin 10) :=
  match decimal.fraction with
  | none => decimal.whole
  | some _ => decimal.digits

/-- A number that no check against overflow refuses: before each digit the wrapped value of those
before it is at most the tenth part of the greatest `int`. -/
def Decimal.Accepted (decimal : Decimal) : Prop :=
  (∀ count < decimal.steps.length,
    i32 (readOnDecimal 0 (decimal.steps.take count)) ≤ 214748364) ∧
    (decimal.fraction = none → i32 (readOnDecimal 0 decimal.whole) ≤ 2147483)

instance (decimal : Decimal) : Decidable decimal.Accepted :=
  inferInstanceAs (Decidable (_ ∧ _))

/-- Operands that fit and whose result is right: a sum that fits, a product or a quotient of which
dividing first loses nothing, or one that does not fit and wraps to zero. -/
def Operation.Keeps (operation : Operation) (a b : ℕ) : Prop :=
  match operation with
  | .add => a + b < 2147483648
  | .remove => True
  | .epi =>
    if a * b / 1000 < 2147483648 then a % 1000 * b < 1000 else 4294967296 ∣ a / 1000 * b
  | .dia =>
    b = 0 ∨ if a * 1000 / b < 2147483648 then a % b * 1000 < b else 536870912 ∣ a / b

/-- Operands one of which does not fit, and whose result wraps to zero. -/
def Operation.Cancels (operation : Operation) (a b : ℕ) : Prop :=
  match operation with
  | .add => 4294967296 ∣ a + b
  | .remove => (4294967296 : ℤ) ∣ a - b
  | .epi => (4294967296 : ℤ) ∣ (i32 a).tdiv 1000 * i32 b
  | .dia => 4294967296 ∣ b ∨ (536870912 : ℤ) ∣ (i32 a).tdiv (i32 b)

/-- The equations whose result is right: an operand is refused, or both fit and their result is
right, or one does not fit and the result wraps to zero. -/
def Equation.Sound (equation : Equation) : Prop :=
  ¬ equation.first.Accepted ∨ ¬ equation.second.Accepted ∨
    if equation.first.thousandths < 2147483648 ∧ equation.second.thousandths < 2147483648 then
      equation.operation.Keeps equation.first.thousandths equation.second.thousandths
    else equation.operation.Cancels equation.first.thousandths equation.second.thousandths

/-! ### Reading a number -/

section Reading

variable {decimal : Decimal} {digits others : List (Fin 10)} {value : ℕ} {num : ℤ}
  {tail : List UInt8}

def readDigits : List (Fin 10) → ℤ → Option ℤ
  | [], num => some num
  | digit :: rest, num =>
    if 214748364 < num then none else readDigits rest (i32 (num * 10 + (digit : ℕ)))

theorem readDigits_append :
    readDigits (digits ++ others) num = (readDigits digits num).bind (readDigits others) := by
  induction digits generalizing num with
  | nil => rfl
  | cons digit rest ih =>
    rw [List.cons_append, readDigits, readDigits]
    split_ifs
    · rfl
    · exact ih

/-- What is read of digits is their wrapped value, unless a check refuses it. -/
theorem readDigits_eq (digits : List (Fin 10)) (value : ℕ) :
    readDigits digits (i32 value) =
      if ∀ count < digits.length, i32 (readOnDecimal value (digits.take count)) ≤ 214748364 then
        some (i32 (readOnDecimal value digits)) else none := by
  induction digits generalizing value with
  | nil =>
    refine (if_pos fun count hcount ↦ ?_).symm
    exact absurd hcount (Nat.not_lt_zero count)
  | cons digit rest ih =>
    rw [readDigits]
    by_cases hlarge : 214748364 < i32 value
    · rw [if_pos hlarge, if_neg fun hall ↦ ?_]
      exact absurd (hall 0 (Nat.succ_pos _)) (by simpa [readOnDecimal] using hlarge)
    · have hnext := ih (value * 10 + digit)
      have hstep : i32 (i32 value * 10 + (digit : ℕ)) = i32 ((value * 10 + digit : ℕ) : ℤ) := by
        rw [i32_mul_add]
        push_cast
        rfl
      rw [if_neg hlarge, hstep, hnext]
      refine if_congr ⟨fun hall count hcount ↦ ?_, fun hall count hcount ↦ ?_⟩ rfl rfl
      · rcases count with _ | count
        · simpa [readOnDecimal] using hlarge
        · exact hall count (Nat.lt_of_succ_lt_succ hcount)
      · exact hall (count + 1) (Nat.succ_lt_succ hcount)

theorem digitChar_spec (digit : Fin 10) :
    digitChar digit ≠ 46 ∧ (48 ≤ digitChar digit ∧ digitChar digit ≤ 57) ∧
      (digitChar digit).toNat - 48 = digit := by
  revert digit
  decide

/-- The digits before the point. -/
theorem parseNumber_whole :
    parseNumber (digits.map digitChar ++ tail) num 0 =
      (readDigits digits num).bind fun num ↦ parseNumber tail num 0 := by
  induction digits generalizing num with
  | nil => rfl
  | cons digit rest ih =>
    obtain ⟨hpoint, hdigit, hvalue⟩ := digitChar_spec digit
    rw [List.map_cons, List.cons_append, parseNumber, readDigits, if_neg hpoint, if_pos hdigit,
      hvalue]
    by_cases hlarge : 214748364 < num
    · rw [if_pos hlarge, if_pos hlarge]
      rfl
    · rw [if_neg hlarge, if_neg hlarge]
      exact ih

/-- The digits behind the point. -/
theorem parseNumber_fraction {places : ℕ} (hpos : 0 < places)
    (hshort : places + digits.length ≤ 4) :
    parseNumber (digits.map digitChar ++ tail) num places =
      (readDigits digits num).bind fun num ↦ parseNumber tail num (places + digits.length) := by
  induction digits generalizing num places with
  | nil => rfl
  | cons digit rest ih =>
    obtain ⟨hpoint, hdigit, hvalue⟩ := digitChar_spec digit
    rw [List.length_cons] at hshort
    rw [List.map_cons, List.cons_append, parseNumber, readDigits, if_neg hpoint, if_pos hdigit,
      hvalue]
    by_cases hlarge : 214748364 < num
    · rw [if_pos hlarge, if_pos hlarge]
      rfl
    · rw [if_neg hlarge, if_neg hlarge]
      dsimp only
      rw [if_pos hpos, if_neg (by omega), List.length_cons, ← Nat.add_assoc, Nat.add_right_comm]
      exact ih (Nat.succ_pos places) (by omega)

/-- A string that goes on with neither a digit nor a point. -/
def Stops (tail : List UInt8) : Prop :=
  ∀ char ∈ tail.head?, char ≠ 46 ∧ ¬ (48 ≤ char ∧ char ≤ 57)

theorem parseNumber_of_stops (hstops : Stops tail) (places : ℕ) :
    parseNumber tail num places = some (num, places, tail) := by
  cases tail with
  | nil => rfl
  | cons char rest =>
    obtain ⟨hpoint, hdigit⟩ := hstops char rfl
    unfold parseNumber
    rw [if_neg hpoint, if_neg hdigit]

theorem scaleLoop_eq (rounds : ℕ) (num : ℤ) :
    scaleLoop rounds num = readDigits (List.replicate rounds 0) num := by
  induction rounds generalizing num with
  | zero => rfl
  | succ rounds ih =>
    unfold scaleLoop
    rw [List.replicate_succ, readDigits, ih]
    congr 3
    simp

/-- The thousandths of a number without a point. -/
theorem Decimal.thousandths_of_none (hnone : decimal.fraction = none) :
    decimal.thousandths = readOnDecimal 0 decimal.whole * 1000 := by
  unfold Decimal.thousandths Decimal.digits readOnDecimal
  rw [hnone, List.foldl_append]
  simp only [Option.getD_none, List.append_nil, List.length_nil, List.replicate, List.foldl_cons,
    List.foldl_nil, Fin.val_zero]
  omega

/-- A number without a point, read into thousandths. -/
theorem parseNumber_of_none (hnone : decimal.fraction = none) (hstops : Stops tail) :
    (parseNumber (decimal.chars ++ tail) 0 0).bind (fun (num, places, rest) ↦
        (scaleNumber num places).map fun num ↦ (num, skipSpaces rest)) =
      if decimal.Accepted then some (i32 decimal.thousandths, skipSpaces tail) else none := by
  have hread : readDigits decimal.whole 0 = _ := readDigits_eq decimal.whole 0
  have hsteps : decimal.steps = decimal.whole := by
    unfold Decimal.steps
    rw [hnone]
  have hchars : decimal.chars = decimal.whole.map digitChar := by
    unfold Decimal.chars
    rw [hnone, List.append_nil]
  have hiff : decimal.Accepted ↔ (∀ count < decimal.whole.length,
      i32 (readOnDecimal 0 (decimal.whole.take count)) ≤ 214748364) ∧
        i32 (readOnDecimal 0 decimal.whole) ≤ 2147483 := by
    unfold Decimal.Accepted
    rw [hsteps, forall_prop_of_true hnone]
  rw [hchars, parseNumber_whole, hread, decimal.thousandths_of_none hnone]
  by_cases hall : ∀ count < decimal.whole.length,
      i32 (readOnDecimal 0 (decimal.whole.take count)) ≤ 214748364
  · rw [if_pos hall, Option.bind_some, parseNumber_of_stops hstops, Option.bind_some]
    dsimp only
    unfold scaleNumber
    rw [if_neg (Nat.lt_irrefl 0)]
    by_cases hlarge : 2147483 < i32 (readOnDecimal 0 decimal.whole)
    · rw [if_pos hlarge, if_neg fun haccepted ↦ absurd (hiff.mp haccepted).2 (by omega)]
      rfl
    · have hscaled := i32_mul_add (readOnDecimal 0 decimal.whole) 1000 0
      rw [Int.add_zero, Int.add_zero] at hscaled
      rw [if_neg hlarge, if_pos (hiff.mpr ⟨hall, by omega⟩), hscaled, Option.map_some]
      push_cast
      rfl
  · rw [if_neg hall, if_neg fun haccepted ↦ hall (hiff.mp haccepted).1]
    rfl

/-- A number with a point, read into thousandths. -/
theorem parseNumber_of_some {fraction : List (Fin 10)} (hsome : decimal.fraction = some fraction)
    (hstops : Stops tail) :
    (parseNumber (decimal.chars ++ tail) 0 0).bind (fun (num, places, rest) ↦
        (scaleNumber num places).map fun num ↦ (num, skipSpaces rest)) =
      if decimal.Accepted then some (i32 decimal.thousandths, skipSpaces tail) else none := by
  have hshort := decimal.short fraction hsome
  have hread : readDigits decimal.digits 0 = _ := readDigits_eq decimal.digits 0
  have hsteps : decimal.steps = decimal.digits := by
    unfold Decimal.steps
    rw [hsome]
  have hdigits : decimal.digits =
      decimal.whole ++ fraction ++ List.replicate (3 - fraction.length) 0 := by
    unfold Decimal.digits
    rw [hsome]
    rfl
  have hchars : decimal.chars ++ tail =
      decimal.whole.map digitChar ++ (46 :: (fraction.map digitChar ++ tail)) := by
    unfold Decimal.chars
    rw [hsome, List.append_assoc]
    rfl
  have hpoint : ∀ num : ℤ, parseNumber (46 :: (fraction.map digitChar ++ tail)) num 0 =
      parseNumber (fraction.map digitChar ++ tail) num 1 := fun num ↦ by
    rw [parseNumber, if_pos rfl, if_neg (Nat.lt_irrefl 0)]
  have hscale : ∀ num : ℤ, scaleNumber num (1 + fraction.length) =
      readDigits (List.replicate (3 - fraction.length) 0) num := fun num ↦ by
    unfold scaleNumber
    rw [if_pos (by omega), scaleLoop_eq, show 4 - (1 + fraction.length) = 3 - fraction.length by
      omega]
  have hwhole : (parseNumber (decimal.chars ++ tail) 0 0).bind (fun (num, places, rest) ↦
      (scaleNumber num places).map fun num ↦ (num, skipSpaces rest)) =
        (readDigits decimal.digits 0).map fun num ↦ (num, skipSpaces tail) := by
    rw [hchars, parseNumber_whole, hdigits, readDigits_append, readDigits_append]
    simp only [hpoint, parseNumber_fraction (Nat.one_pos) (show 1 + fraction.length ≤ 4 by omega),
      parseNumber_of_stops hstops, Option.bind_assoc, Option.bind_some, hscale, Option.map_bind,
      Function.comp_def]
  have hiff : decimal.Accepted ↔ ∀ count < decimal.digits.length,
      i32 (readOnDecimal 0 (decimal.digits.take count)) ≤ 214748364 := by
    unfold Decimal.Accepted
    rw [hsteps, hsome]
    exact ⟨And.left, fun hall ↦ ⟨hall, fun hnone ↦ by cases hnone⟩⟩
  rw [hwhole, hread]
  by_cases hall : ∀ count < decimal.digits.length,
      i32 (readOnDecimal 0 (decimal.digits.take count)) ≤ 214748364
  · rw [if_pos hall, if_pos (hiff.mpr hall)]
    rfl
  · rw [if_neg hall, if_neg fun haccepted ↦ hall (hiff.mp haccepted)]
    rfl

theorem skipSpaces_replicate (spaces : ℕ) (text : List UInt8) :
    skipSpaces (List.replicate spaces 32 ++ text) = skipSpaces text := by
  unfold skipSpaces
  exact List.dropWhile_append_of_pos fun char hchar ↦
    decide_eq_true (List.eq_of_mem_replicate hchar)

theorem skipSpaces_cons {char : UInt8} (hchar : char ≠ 32) (text : List UInt8) :
    skipSpaces (char :: text) = char :: text := by
  unfold skipSpaces
  exact List.dropWhile_cons_of_neg (by simpa using hchar)

/-- A number begins with a digit or a point. -/
theorem Decimal.exists_chars (decimal : Decimal) :
    ∃ char rest, decimal.chars = char :: rest ∧ char ≠ 32 := by
  have hspace : ∀ digit, digitChar digit ≠ 32 := by decide
  unfold Decimal.chars
  rcases hwhole : decimal.whole with _ | ⟨digit, rest⟩
  · rcases hfraction : decimal.fraction with _ | fraction
    · rcases decimal.digit with hdigit | ⟨digits, hdigits, -⟩
      · exact absurd hwhole hdigit
      · rw [hfraction] at hdigits
        cases hdigits
    · exact ⟨46, _, rfl, by decide⟩
  · exact ⟨digitChar digit, _, rfl, hspace digit⟩

/-- An operand and the spaces around it. -/
theorem parseOperand_chars {spaces behind : ℕ} (hstops : Stops tail) :
    parseOperand (List.replicate spaces 32 ++ decimal.chars ++
        (List.replicate behind 32 ++ tail)) =
      if decimal.Accepted then some (i32 decimal.thousandths, skipSpaces tail) else none := by
  obtain ⟨char, rest, hchars, hspace⟩ := decimal.exists_chars
  have hbehind : Stops (List.replicate behind 32 ++ tail) := by
    rcases behind with _ | behind
    · exact hstops
    · intro char hchar
      obtain rfl := Option.some.inj hchar
      decide
  unfold parseOperand
  rw [List.append_assoc, skipSpaces_replicate, hchars, List.cons_append, skipSpaces_cons hspace,
    ← List.cons_append, ← hchars, ← skipSpaces_replicate behind tail]
  rcases hfraction : decimal.fraction with _ | fraction
  · exact parseNumber_of_none hfraction hbehind
  · exact parseNumber_of_some hfraction hbehind

/-- A digit behind others makes the number ten times as great, at least. -/
theorem readOnDecimal_take_mul_ten_le (digits : List (Fin 10)) (value : ℕ) {count : ℕ}
    (hcount : count < digits.length) :
    readOnDecimal value (digits.take count) * 10 ≤ readOnDecimal value digits := by
  have hgrows : ∀ (digits : List (Fin 10)) (value : ℕ), value ≤ readOnDecimal value digits := by
    intro digits
    induction digits with
    | nil => exact fun value ↦ le_rfl
    | cons digit rest ih => exact fun value ↦ le_trans (by omega) (ih (value * 10 + digit))
  induction digits generalizing value count with
  | nil => exact absurd hcount (Nat.not_lt_zero count)
  | cons digit rest ih =>
    rcases count with _ | count
    · exact le_trans (Nat.le_add_right _ digit.val) (hgrows rest (value * 10 + digit))
    · exact ih (value * 10 + digit) (Nat.lt_of_succ_lt_succ hcount)

/-- A number that fits is not refused. -/
theorem Decimal.accepted_of_fits (hfits : decimal.thousandths < 2147483648) :
    decimal.Accepted := by
  have hsmall : ∀ count < decimal.digits.length,
      i32 (readOnDecimal 0 (decimal.digits.take count)) ≤ 214748364 := by
    intro count hcount
    have hten := readOnDecimal_take_mul_ten_le decimal.digits 0 hcount
    unfold Decimal.thousandths at hfits
    rw [i32_of_isInt32 ⟨by omega, by omega⟩]
    omega
  have htake : ∀ count ≤ decimal.whole.length,
      decimal.digits.take count = decimal.whole.take count := by
    intro count hcount
    unfold Decimal.digits
    rw [List.append_assoc, List.take_append_of_le_length hcount]
  unfold Decimal.Accepted Decimal.steps
  rcases hfraction : decimal.fraction with _ | fraction
  · dsimp only
    have hlength : decimal.digits.length = decimal.whole.length + 3 := by
      unfold Decimal.digits
      rw [hfraction]
      simp
    refine ⟨fun count hcount ↦ ?_, fun _ ↦ ?_⟩
    · rw [← htake count hcount.le]
      exact hsmall count (by omega)
    · rw [decimal.thousandths_of_none hfraction] at hfits
      rw [i32_of_isInt32 ⟨by omega, by omega⟩]
      omega
  · exact ⟨hsmall, fun hnone ↦ by cases hnone⟩

end Reading

/-! ### Equations that are written out -/

section Written

variable {equation : Equation}

theorem stops_sign (operation : Operation) (rest : List UInt8) :
    Stops (operation.sign :: rest) := by
  intro char hchar
  obtain rfl := Option.some.inj hchar
  cases operation <;> decide

theorem skipSpaces_sign (operation : Operation) (rest : List UInt8) :
    skipSpaces (operation.sign :: rest) = operation.sign :: rest :=
  skipSpaces_cons (by cases operation <;> decide) rest

theorem operationOf_sign (operation : Operation) : operationOf operation.sign = some operation := by
  cases operation <;> rfl

/-- What is computed of an equation. -/
theorem evaluate_chars (equation : Equation) :
    evaluate equation.chars =
      if equation.first.Accepted ∧ equation.second.Accepted then
        some (calculate equation.operation (i32 equation.first.thousandths)
          (i32 equation.second.thousandths))
      else none := by
  have hsecond := @parseOperand_chars equation.second [] equation.right
    equation.behind (by rintro _ ⟨⟩)
  rw [List.append_nil] at hsecond
  unfold evaluate Equation.chars
  rw [parseOperand_chars (stops_sign equation.operation _), skipSpaces_sign]
  by_cases hfirst : equation.first.Accepted
  · rw [if_pos hfirst, Option.bind_some]
    dsimp only
    rw [operationOf_sign, Option.bind_some, hsecond]
    by_cases haccepted : equation.second.Accepted
    · have hnil : skipSpaces [] = [] := rfl
      rw [if_pos haccepted, if_pos ⟨hfirst, haccepted⟩, hnil, Option.bind_some]
    · rw [if_neg haccepted, if_neg fun hboth ↦ haccepted hboth.2]
      rfl
  · rw [if_neg hfirst, if_neg fun hboth ↦ hfirst hboth.1]
    rfl

/-- What the calculator returns for an equation. -/
theorem mathGetCurrentEquation_chars (hlength : equation.chars.length < 256) :
    mathGetCurrentEquation (some equation.chars) =
      if equation.first.Accepted ∧ equation.second.Accepted then
        calculate equation.operation (i32 equation.first.thousandths)
          (i32 equation.second.thousandths)
      else 0 := by
  have hpos : 0 < equation.chars.length := by
    unfold Equation.chars
    simp only [List.length_append, List.length_cons]
    omega
  have hsize : equation.chars.length % 65536 % 256 = equation.chars.length := by omega
  simp only [mathGetCurrentEquation, hsize, hpos.ne', if_false, List.take_length, evaluate_chars]
  split_ifs <;> rfl

end Written

/-! ### Exact results -/

section Exact

theorem inThousandths_div (number : ℤ) : inThousandths (number / 1000) = number := by
  have hvalue : (number : ℚ) / 1000 * 1000 = number := by ring
  unfold inThousandths
  rw [hvalue, Int.floor_intCast, Int.ceil_intCast, ite_self]

/-- A number of thousandths that is rounded down. -/
theorem inThousandths_of_nonneg {value : ℚ} {dividend divisor : ℕ}
    (hvalue : value * 1000 = (dividend : ℚ) / divisor) :
    inThousandths value = (dividend / divisor : ℕ) := by
  have hnonneg : 0 ≤ value := by
    have hquotient : (0 : ℚ) ≤ value * 1000 := hvalue ▸ by positivity
    linarith
  unfold inThousandths
  rw [if_pos hnonneg, hvalue, Rat.floor_natCast_div_natCast]
  rfl

variable {equation : Equation}

theorem exact_of_add (hoperation : equation.operation = .add) :
    equation.exact = equation.first.thousandths + equation.second.thousandths := by
  unfold Equation.exact Decimal.value
  rw [hoperation, ← inThousandths_div (_ + _)]
  congr 1
  unfold Operation.exact
  push_cast
  ring

theorem exact_of_remove (hoperation : equation.operation = .remove) :
    equation.exact = equation.first.thousandths - equation.second.thousandths := by
  unfold Equation.exact Decimal.value
  rw [hoperation, ← inThousandths_div (_ - _)]
  congr 1
  unfold Operation.exact
  push_cast
  ring

theorem exact_of_epi (hoperation : equation.operation = .epi) :
    equation.exact = (equation.first.thousandths * equation.second.thousandths / 1000 : ℕ) := by
  unfold Equation.exact Decimal.value
  rw [hoperation]
  apply inThousandths_of_nonneg
  unfold Operation.exact
  push_cast
  ring

theorem exact_of_dia (hoperation : equation.operation = .dia) :
    equation.exact = (equation.first.thousandths * 1000 / equation.second.thousandths : ℕ) := by
  unfold Equation.exact Decimal.value
  rw [hoperation]
  apply inThousandths_of_nonneg
  unfold Operation.exact
  rcases Nat.eq_zero_or_pos equation.second.thousandths with hzero | hpos
  · simp [hzero]
  · have hdivisor : (equation.second.thousandths : ℚ) ≠ 0 := by positivity
    push_cast
    field_simp

/-- Dividing a product last and dividing its first factor. -/
theorem mul_div_eq (a b divisor : ℕ) :
    a * b / divisor = a / divisor * b + a % divisor * b / divisor := by
  rcases Nat.eq_zero_or_pos divisor with rfl | hpos
  · simp
  · have hsplit : a * b = divisor * (a / divisor * b) + a % divisor * b := by
      conv_lhs => rw [← Nat.div_add_mod a divisor]
      ring
    rw [hsplit, Nat.mul_add_div hpos]

end Exact

/-! ### The calculator -/

section Results

variable {equation : Equation} {a b : ℕ}

theorem add_div_eq_self_iff {whole rest divisor : ℕ} (hpos : 0 < divisor) :
    whole = whole + rest / divisor ↔ rest < divisor := by
  rw [← Nat.div_eq_zero_iff_lt hpos]
  omega

theorem mathEpi_natCast : mathEpi a b = i32 (a / 1000 * b : ℕ) := by
  unfold mathEpi
  rw [Int.tdiv_eq_ediv_of_nonneg (Int.natCast_nonneg a)]
  push_cast
  rfl

/-- The quotient of operands that fit. -/
theorem mathDia_natCast (hpos : 0 < b) : mathDia a b = i32 (a / b * 1000 : ℕ) := by
  unfold mathDia
  have hwrapped := i32_mul_add ((a : ℤ).tdiv b) 1000 0
  rw [Int.add_zero, Int.add_zero] at hwrapped
  rw [if_neg (by omega), hwrapped, Int.tdiv_eq_ediv_of_nonneg (Int.natCast_nonneg a)]
  push_cast
  rfl

/-- A result that is wrapped is right exactly where it is exact and fits, or wraps to zero. -/
theorem right_wrapped_iff {result exact : ℕ} (hle : result ≤ exact) :
    ((IsInt32 exact → i32 result = exact) ∧ (¬ IsInt32 exact → i32 result = 0)) ↔
      if exact < 2147483648 then result = exact else 4294967296 ∣ result := by
  unfold IsInt32
  split_ifs with hfits
  · rw [i32_of_isInt32 ⟨by omega, by omega⟩]
    exact ⟨fun hright ↦ by have := hright.1 ⟨by omega, by omega⟩; omega,
      fun hsame ↦ ⟨fun _ ↦ by omega, fun hnot ↦ absurd ⟨by omega, by omega⟩ hnot⟩⟩
  · rw [i32_eq_zero_iff]
    exact ⟨fun hright ↦ by have := hright.2 fun hboth ↦ hfits (by omega); omega,
      fun hdvd ↦ ⟨fun hboth ↦ absurd hboth.2 (by omega), fun _ ↦ by omega⟩⟩

theorem right_of_operands {result : ℤ} (hfirst : equation.first.thousandths < 2147483648)
    (hsecond : equation.second.thousandths < 2147483648)
    (hdivisor : ¬ (equation.operation = .dia ∧ equation.second.thousandths = 0)) :
    equation.Right result ↔
      (IsInt32 equation.exact → result = equation.exact) ∧
        (¬ IsInt32 equation.exact → result = 0) := by
  have hfits : equation.Fits ↔ IsInt32 equation.exact :=
    ⟨fun hfits ↦ hfits.2.2.2, fun hexact ↦
      ⟨⟨by omega, by omega⟩, ⟨by omega, by omega⟩, hdivisor, hexact⟩⟩
  unfold Equation.Right
  rw [hfits]

theorem right_of_not_fits {result : ℤ} (hfits : ¬ equation.Fits) :
    equation.Right result ↔ result = 0 :=
  ⟨fun hright ↦ hright.2 hfits, fun hzero ↦ ⟨fun hother ↦ absurd hother hfits, fun _ ↦ hzero⟩⟩

/-- The results of operands that fit. -/
theorem calculate_right_iff (hfirst : equation.first.thousandths < 2147483648)
    (hsecond : equation.second.thousandths < 2147483648) :
    equation.Right (calculate equation.operation equation.first.thousandths
        equation.second.thousandths) ↔
      equation.operation.Keeps equation.first.thousandths equation.second.thousandths := by
  unfold Operation.Keeps
  rcases hoperation : equation.operation with _ | _ | _ | _
  · rw [right_of_operands hfirst hsecond (by rw [hoperation]; rintro ⟨⟨⟩, -⟩),
      exact_of_add hoperation]
    have hwrapped := right_wrapped_iff
      (le_refl (equation.first.thousandths + equation.second.thousandths))
    push_cast at hwrapped
    refine hwrapped.trans ?_
    dsimp only
    split_ifs with hsum
    · exact ⟨fun _ ↦ hsum, fun _ ↦ rfl⟩
    · exact ⟨fun hdvd ↦ by omega, fun hless ↦ absurd hless hsum⟩
  · rw [right_of_operands hfirst hsecond (by rw [hoperation]; rintro ⟨⟨⟩, -⟩),
      exact_of_remove hoperation]
    have hfits : IsInt32 ((equation.first.thousandths : ℤ) - equation.second.thousandths) :=
      ⟨by omega, by omega⟩
    exact ⟨fun _ ↦ trivial, fun _ ↦ ⟨fun _ ↦ i32_of_isInt32 hfits, fun hnot ↦ absurd hfits hnot⟩⟩
  · rw [right_of_operands hfirst hsecond (by rw [hoperation]; rintro ⟨⟨⟩, -⟩),
      exact_of_epi hoperation]
    have hsplit := mul_div_eq equation.first.thousandths equation.second.thousandths 1000
    unfold calculate
    dsimp only
    rw [mathEpi_natCast, right_wrapped_iff (by rw [hsplit]; exact Nat.le_add_right _ _)]
    split_ifs with hexact
    · rw [hsplit]
      exact add_div_eq_self_iff (by decide)
    · exact Iff.rfl
  · unfold calculate
    dsimp only
    rcases Nat.eq_zero_or_pos equation.second.thousandths with hzero | hpos
    · rw [right_of_not_fits fun hfits ↦ hfits.2.2.1 ⟨hoperation, hzero⟩]
      exact ⟨fun _ ↦ .inl hzero, fun _ ↦ if_pos (by rw [hzero]; rfl)⟩
    · rw [right_of_operands hfirst hsecond fun hboth ↦ hpos.ne' hboth.2, exact_of_dia hoperation]
      have hsplit := mul_div_eq equation.first.thousandths 1000 equation.second.thousandths
      rw [mathDia_natCast hpos, right_wrapped_iff (by rw [hsplit]; exact Nat.le_add_right _ _)]
      split_ifs with hexact
      · rw [hsplit, add_div_eq_self_iff hpos]
        exact ⟨.inr, fun hor ↦ hor.resolve_left hpos.ne'⟩
      · exact ⟨fun hdvd ↦ .inr (by omega), fun hor ↦ by
          have hdvd := hor.resolve_left hpos.ne'
          omega⟩

theorem dvd_wrapped_iff {quotient : ℤ} :
    (4294967296 : ℤ) ∣ i32 quotient * 1000 ↔ 536870912 ∣ quotient := by
  have hwrapped := (i32_modEq quotient).dvd
  have hsame : 536870912 ∣ i32 quotient ↔ (536870912 : ℤ) ∣ quotient := by omega
  rw [← hsame]
  omega

/-- The results of operands that are not refused and do not both fit. -/
theorem calculate_zero_iff (operation : Operation) (a b : ℕ) :
    calculate operation (i32 a) (i32 b) = 0 ↔ operation.Cancels a b := by
  have hfirst := (i32_modEq a).dvd
  have hsecond := (i32_modEq b).dvd
  unfold Operation.Cancels
  cases operation
  · unfold calculate mathAdd
    dsimp only
    rw [i32_eq_zero_iff]
    omega
  · unfold calculate mathRemove
    dsimp only
    rw [i32_eq_zero_iff]
    omega
  · unfold calculate mathEpi
    dsimp only
    rw [i32_eq_zero_iff]
  · unfold calculate mathDia
    dsimp only
    by_cases hzero : i32 b = 0
    · rw [if_pos hzero]
      have hdvd := i32_eq_zero_iff.mp hzero
      exact ⟨fun _ ↦ .inl (by omega), fun _ ↦ rfl⟩
    · have hdvd := i32_eq_zero_iff.not.mp hzero
      rw [if_neg hzero, i32_eq_zero_iff, dvd_wrapped_iff]
      exact ⟨.inr, fun hor ↦ hor.resolve_left fun hb ↦ hdvd (by omega)⟩

theorem Equation.Fits.operands (hfits : equation.Fits) :
    equation.first.thousandths < 2147483648 ∧ equation.second.thousandths < 2147483648 := by
  obtain ⟨⟨-, hfirst⟩, ⟨-, hsecond⟩, -⟩ := hfits
  exact ⟨by omega, by omega⟩

/-- **The calculator.** For every equation that is written out in less than 256 characters, it
returns the exact result in thousandths, or 0 where an operand or the result does not fit or the
divisor is zero, exactly where the equation is sound. -/
theorem calculator_iff (equation : {equation : Equation // equation.chars.length < 256}) :
    equation.1.Right (mathGetCurrentEquation (some equation.1.chars)) ↔ equation.1.Sound := by
  obtain ⟨equation, hlength⟩ := equation
  dsimp only
  rw [mathGetCurrentEquation_chars hlength]
  unfold Equation.Sound
  by_cases haccepted : equation.first.Accepted ∧ equation.second.Accepted
  · rw [if_pos haccepted, or_iff_right (not_not_intro haccepted.1),
      or_iff_right (not_not_intro haccepted.2)]
    by_cases hfits : equation.first.thousandths < 2147483648 ∧
        equation.second.thousandths < 2147483648
    · have hfirst : IsInt32 equation.first.thousandths := ⟨by omega, by omega⟩
      have hsecond : IsInt32 equation.second.thousandths := ⟨by omega, by omega⟩
      rw [if_pos hfits, i32_of_isInt32 hfirst, i32_of_isInt32 hsecond]
      exact calculate_right_iff hfits.1 hfits.2
    · rw [if_neg hfits, right_of_not_fits fun hall ↦ hfits hall.operands]
      exact calculate_zero_iff equation.operation equation.first.thousandths
        equation.second.thousandths
  · have hnot : ¬ equation.Fits := fun hall ↦ haccepted
      ⟨Decimal.accepted_of_fits hall.operands.1, Decimal.accepted_of_fits hall.operands.2⟩
    rw [if_neg haccepted, right_of_not_fits hnot]
    refine ⟨fun _ ↦ ?_, fun _ ↦ rfl⟩
    rcases not_and_or.mp haccepted with hfirst | hsecond
    · exact .inl hfirst
    · exact .inr (.inl hsecond)

example : mathGetCurrentEquation (some [49, 46, 53, 32, 43, 32, 50]) = 3500 := by decide

/-- The equation `0.5*2`. -/
def halfTimesTwo : Equation where
  before := 0
  first := ⟨[0], some [5], by decide, by decide⟩
  left := 0
  operation := .epi
  right := 0
  second := ⟨[2], none, by decide, by decide⟩
  behind := 0

/-- The product of 0.5 and 2 comes out as 0. -/
theorem calculator_misses_product :
    ¬ ∀ equation : {equation : Equation // equation.chars.length < 256},
      equation.1.Right (mathGetCurrentEquation (some equation.1.chars)) := by
  intro hright
  have hproduct := (@right_of_operands halfTimesTwo _ (by decide) (by decide)
    (by decide)).mp (hright ⟨halfTimesTwo, by decide⟩)
  rw [exact_of_epi rfl] at hproduct
  exact absurd (hproduct.1 (by decide)) (by decide)

end Results

end EynOS.Utilities
