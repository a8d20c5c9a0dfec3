import EynOS.Foundation.MachineWord
import Mathlib.Data.List.TakeWhile

/-!
# The numbers that the C library reads

`strtoul` and `strtol` of the C library's `stdlib.c`, and the numbers of C: blanks, a sign, a prefix
that a digit follows, and digits of the base. `strtoul_iff`: both read the longest number that a
string begins with, exactly where it is `Plain`.

A string is its bytes before the NUL. A pointer into it is the rest of the string that it points to,
and `stop` is how many bytes are before the one that `endptr` is set to.
-/

namespace EynOS.Userland

open Foundation

/-! ### The functions -/

/-- What a function returns, and where it sets `endptr`. -/
structure Parsed where
  value : ℤ
  stop : ℕ
  deriving DecidableEq

abbrev Base := {base : ℕ // base = 0 ∨ 2 ≤ base ∧ base ≤ 36}

/-- The blanks that `strtoul` skips. -/
def isSkipped (char : UInt8) : Bool :=
  char = 32 ∨ char = 9 ∨ char = 10 ∨ char = 13

/-- The digit that `strtoul` takes a character for. -/
def hexDigit (char : UInt8) : Option ℕ :=
  if 48 ≤ char ∧ char ≤ 57 then some (char.toNat - 48)
  else if 97 ≤ char ∧ char ≤ 102 then some (char.toNat - 97 + 10)
  else if 65 ≤ char ∧ char ≤ 70 then some (char.toNat - 65 + 10)
  else none

/-- A prefix `0x` or `0X`. -/
def startsHex : List UInt8 → Bool
  | 48 :: x :: _ => x = 120 ∨ x = 88
  | _ => false

/-- The base and the start of the digits, behind the blanks. -/
def choosePrefix (base : ℕ) (p : List UInt8) : ℕ × List UInt8 :=
  if base = 0 then
    if startsHex p then (16, p.drop 2)
    else if p.head? = some 48 then (8, p.drop 1)
    else (10, p)
  else if base = 16 ∧ startsHex p then (16, p.drop 2)
  else (base, p)

def scanDigits (base : ℕ) : List UInt8 → ℕ → ℕ × List UInt8
  | [], v => (v, [])
  | char :: rest, v =>
    match hexDigit char with
    | none => (v, char :: rest)
    | some d => if base ≤ d then (v, char :: rest) else scanDigits base rest (u32 (v * base + d))

/-- `strtoul`; no string is the null pointer. -/
def strtoul (nptr : Option (List UInt8)) (base : ℕ) : Parsed :=
  match nptr with
  | none => ⟨0, 0⟩
  | some text =>
    let (base, p) := choosePrefix base (text.dropWhile isSkipped)
    let (v, p) := scanDigits base p 0
    ⟨v, text.length - p.length⟩

/-- The cast of an `unsigned long` to a `long`. -/
def toLong (value : ℤ) : ℤ := if value < 2147483648 then value else value - 4294967296

def strtol (nptr : Option (List UInt8)) (base : ℕ) : Parsed :=
  let parsed := strtoul nptr base
  { parsed with value := toLong parsed.value }

/-! ### Numbers -/

/-- The blanks of C. -/
def isSpace (char : UInt8) : Bool := char = 32 ∨ 9 ≤ char ∧ char ≤ 13

def digitValue (char : UInt8) : Option ℕ :=
  if 48 ≤ char ∧ char ≤ 57 then some (char.toNat - 48)
  else if 97 ≤ char ∧ char ≤ 122 then some (char.toNat - 97 + 10)
  else if 65 ≤ char ∧ char ≤ 90 then some (char.toNat - 65 + 10)
  else none

def isDigit (base : ℕ) (char : UInt8) : Bool := (digitValue char).any (· < base)

/-- The number that digits stand for. -/
def magnitude (base : ℕ) (digits : List UInt8) : ℕ :=
  digits.foldl (fun value char ↦ value * base + (digitValue char).getD 0) 0

/-- What follows the blanks and the sign of a number, and its value. -/
inductive Body : ℕ → List UInt8 → ℕ → Prop
  | digits {base : ℕ} {bytes : List UInt8} (hbase : base ≠ 0) (hbytes : bytes ≠ [])
    (hdigits : ∀ char ∈ bytes, isDigit base char) : Body base bytes (magnitude base bytes)
  | hexadecimal {base : ℕ} {x : UInt8} {bytes : List UInt8} (hbase : base = 0 ∨ base = 16)
    (hx : x = 120 ∨ x = 88) (hbytes : bytes ≠ []) (hdigits : ∀ char ∈ bytes, isDigit 16 char) :
    Body base (48 :: x :: bytes) (magnitude 16 bytes)
  | octal {bytes : List UInt8} (hfirst : bytes.head? = some 48)
    (hdigits : ∀ char ∈ bytes, isDigit 8 char) : Body 0 bytes (magnitude 8 bytes)
  | decimal {bytes : List UInt8} (hfirst : bytes.head? ≠ some 48) (hbytes : bytes ≠ [])
    (hdigits : ∀ char ∈ bytes, isDigit 10 char) : Body 0 bytes (magnitude 10 bytes)

/-- A number at the start of a string. -/
structure Numeral (base : ℕ) (text blanks sign body : List UInt8) (number : ℤ) : Prop where
  begins : blanks ++ sign ++ body <+: text
  blank : ∀ char ∈ blanks, isSpace char
  signed : sign = [] ∨ sign = [43] ∨ sign = [45]
  value : ∃ magnitude : ℕ, Body base body magnitude ∧
    number = if sign = [45] then -(magnitude : ℤ) else magnitude

def Longest (base : ℕ) (text blanks sign body : List UInt8) (number : ℤ) : Prop :=
  Numeral base text blanks sign body number ∧
    ∀ otherBlanks otherSign otherBody other,
      Numeral base text otherBlanks otherSign otherBody other →
        (otherBlanks ++ otherSign ++ otherBody).length ≤ (blanks ++ sign ++ body).length

/-- What a function makes of a string is the longest number: where it ends, and its value where that
is in the range of the result; and the start of the string where there is none. -/
def Reads (base : ℕ) (text : List UInt8) (least most : ℤ) (parsed : Parsed) : Prop :=
  (∀ blanks sign body number, Longest base text blanks sign body number →
    parsed.stop = (blanks ++ sign ++ body).length ∧
      (least ≤ number → number ≤ most → parsed.value = number)) ∧
    ((∀ blanks sign body number, ¬ Numeral base text blanks sign body number) → parsed.stop = 0)

/-- The strings that the functions read rightly. The longest number has no blank but those that are
skipped, no sign and no digit past `f`, and is not a `0` before an `x` that no digit follows; and a
string without a number does not begin with a blank that is skipped. -/
def Plain (base : ℕ) (text : List UInt8) : Prop :=
  (∀ blanks sign body number, Longest base text blanks sign body number →
    (∀ char ∈ blanks, isSkipped char) ∧ sign = [] ∧
      (16 < base → ∀ char ∈ body, isDigit 16 char) ∧
      ¬ ((base = 0 ∨ base = 16) ∧ body = [48] ∧ startsHex (text.drop blanks.length))) ∧
    ((∀ blanks sign body number, ¬ Numeral base text blanks sign body number) →
      ∀ char ∈ text.head?, ¬ isSkipped char)

/-! ### Prefixes of characters of one kind -/

section Prefixes

variable {α : Type} {keeps : α → Bool} {word text : List α}

theorem prefix_takeWhile (hpre : word <+: text) (hword : ∀ char ∈ word, keeps char) :
    word <+: text.takeWhile keeps := by
  obtain ⟨rest, rfl⟩ := hpre
  rw [List.takeWhile_append_of_pos hword]
  exact List.prefix_append word _

/-- Characters of a kind before one of another kind are the longest prefix. -/
theorem takeWhile_of_prefix {char : α} {rest : List α} (hpre : word ++ char :: rest <+: text)
    (hword : ∀ char ∈ word, keeps char) (hchar : keeps char = false) :
    text.takeWhile keeps = word ∧ char :: rest <+: text.dropWhile keeps := by
  obtain ⟨tail, rfl⟩ := hpre
  rw [List.append_assoc, List.takeWhile_append_of_pos hword, List.dropWhile_append_of_pos hword,
    List.cons_append, List.takeWhile_cons_of_neg (by simp [hchar]),
    List.dropWhile_cons_of_neg (by simp [hchar]), List.append_nil]
  exact ⟨rfl, List.prefix_append (char :: rest) tail⟩

/-- Where a kind is a part of another, the longest prefixes are of one length exactly when all of
the longer one is of the kind. -/
theorem length_takeWhile_eq_iff {other : α → Bool} (himp : ∀ char, keeps char → other char) :
    (text.takeWhile keeps).length = (text.takeWhile other).length ↔
      ∀ char ∈ text.takeWhile other, keeps char := by
  have hpre : text.takeWhile keeps <+: text.takeWhile other :=
    prefix_takeWhile (List.takeWhile_prefix keeps) fun char hchar ↦
      himp char (List.mem_takeWhile_imp hchar)
  constructor
  · intro hlength char hchar
    rw [← hpre.eq_of_length hlength] at hchar
    exact List.mem_takeWhile_imp hchar
  · intro hall
    exact (prefix_takeWhile (List.takeWhile_prefix other) hall).length_le.antisymm' hpre.length_le

end Prefixes

/-! ### Characters -/

section Characters

variable {base : ℕ} {char : UInt8}

theorem isSpace_of_isSkipped (hskipped : isSkipped char) : isSpace char := by
  unfold isSkipped at hskipped
  unfold isSpace
  rcases of_decide_eq_true hskipped with rfl | rfl | rfl | rfl <;> decide

theorem digitValue_eq_none_of_isSpace (hspace : isSpace char) : digitValue char = none := by
  unfold isSpace at hspace
  have hspace := of_decide_eq_true hspace
  simp only [← UInt8.toNat_inj, UInt8.le_iff_toNat_le] at hspace
  unfold digitValue
  simp only [UInt8.le_iff_toNat_le]
  have h9 : (9 : UInt8).toNat = 9 := rfl
  split_ifs <;> simp at * <;> omega

theorem hexDigit_eq : hexDigit char = if isDigit 16 char then digitValue char else none := by
  unfold hexDigit isDigit digitValue
  simp only [UInt8.le_iff_toNat_le]
  split_ifs <;> simp at * <;> omega

theorem isDigit_mono {less : ℕ} (hle : less ≤ base) (hdigit : isDigit less char) :
    isDigit base char := by
  unfold isDigit at *
  obtain ⟨value, hvalue, hless⟩ := (Option.any_eq_true ..).mp hdigit
  rw [hvalue]
  simp only [decide_eq_true_eq] at hless
  simp only [Option.any_some, decide_eq_true_eq]
  omega

theorem not_isDigit_of_digitValue_eq_none (hnone : digitValue char = none) :
    isDigit base char = false := by
  unfold isDigit
  rw [hnone, Option.any_none]

theorem not_isDigit_x {x : UInt8} (hx : x = 120 ∨ x = 88) (hbase : base ≤ 16) :
    isDigit base x = false := by
  rcases Bool.eq_false_or_eq_true (isDigit base x) with hdigit | hdigit
  · have hmost := isDigit_mono hbase hdigit
    rcases hx with rfl | rfl <;> exact absurd hmost (by decide)
  · exact hdigit

end Characters

/-! ### The loop over the digits -/

section Digits

def readOn (base value : ℕ) (digits : List UInt8) : ℕ :=
  digits.foldl (fun value char ↦ value * base + (digitValue char).getD 0) value

theorem u32_mul_add (value base digit : ℕ) :
    u32 (u32 value * base + digit) = u32 (value * base + digit) := by
  unfold u32
  rw [Nat.add_mod, Nat.mul_mod, Nat.mod_mod, ← Nat.mul_mod, ← Nat.add_mod]

theorem u32_readOn (base value : ℕ) (digits : List UInt8) :
    u32 (readOn base (u32 value) digits) = u32 (readOn base value digits) := by
  induction digits generalizing value with
  | nil => exact Nat.mod_mod value _
  | cons char rest ih =>
    unfold readOn at *
    rw [List.foldl_cons, List.foldl_cons, ← ih, u32_mul_add, ih]

/-- The loop stops at the first character that is no digit of the base up to `f`. -/
theorem scanDigits_eq (base : ℕ) (p : List UInt8) (v : ℕ) :
    (scanDigits base p v).2 = p.dropWhile (isDigit (min base 16)) ∧
      u32 (scanDigits base p v).1 =
        u32 (readOn base v (p.takeWhile (isDigit (min base 16)))) := by
  induction p generalizing v with
  | nil => exact ⟨rfl, rfl⟩
  | cons char rest ih =>
    unfold scanDigits
    rw [hexDigit_eq]
    by_cases hdigit : isDigit (min base 16) char
    · have hhex := isDigit_mono (Nat.min_le_right base 16) hdigit
      obtain ⟨d, hd, hless⟩ := (Option.any_eq_true ..).mp (show (digitValue char).any _ from hdigit)
      have hbase : ¬ base ≤ d := by
        have hmin := Nat.min_le_left base 16
        simp only [decide_eq_true_eq] at hless
        omega
      rw [if_pos hhex, hd]
      dsimp only
      rw [if_neg hbase, List.dropWhile_cons_of_pos hdigit, List.takeWhile_cons_of_pos hdigit]
      refine ⟨(ih _).1, ?_⟩
      rw [(ih _).2, u32_readOn]
      unfold readOn
      rw [List.foldl_cons, hd, Option.getD_some]
    · rw [List.dropWhile_cons_of_neg hdigit, List.takeWhile_cons_of_neg hdigit]
      by_cases hhex : isDigit 16 char
      · obtain ⟨d, hd, hless⟩ := (Option.any_eq_true ..).mp (show (digitValue char).any _ from hhex)
        have hbase : base ≤ d := by
          by_contra hmore
          refine hdigit ((Option.any_eq_true ..).mpr ⟨d, hd, ?_⟩)
          simp only [decide_eq_true_eq] at hless ⊢
          omega
        rw [if_pos hhex, hd]
        dsimp only
        rw [if_pos hbase]
        exact ⟨rfl, rfl⟩
      · rw [if_neg hhex]
        exact ⟨rfl, rfl⟩

theorem scanDigits_lt (base : ℕ) (p : List UInt8) {v : ℕ} (hv : v < 4294967296) :
    (scanDigits base p v).1 < 4294967296 := by
  induction p generalizing v with
  | nil => exact hv
  | cons char rest ih =>
    unfold scanDigits
    split
    · exact hv
    · split_ifs
      · exact hv
      · exact ih (u32_lt _)

end Digits

/-! ### The longest number -/

section Numerals

variable {base : ℕ} {text rest word : List UInt8} {value : ℕ}

def signOf (rest : List UInt8) : List UInt8 :=
  if rest.head? = some 43 then [43] else if rest.head? = some 45 then [45] else []

/-- The part of a string behind its blanks and its sign. -/
def unsignedPart (text : List UInt8) : List UInt8 :=
  (text.dropWhile isSpace).drop (signOf (text.dropWhile isSpace)).length

def bodyPrefix (base : ℕ) (rest : List UInt8) : List UInt8 × ℕ :=
  if (base = 0 ∨ base = 16) ∧ startsHex rest ∧ (rest.drop 2).head?.any (isDigit 16) then
    (rest.take 2, 16)
  else if base = 0 then ([], if rest.head? = some 48 then 8 else 10)
  else ([], base)

/-- The longest number without blanks and sign. -/
def longestBody (base : ℕ) (rest : List UInt8) : Option (List UInt8 × ℕ) :=
  let chosen := bodyPrefix base rest
  let digits := (rest.drop chosen.1.length).takeWhile (isDigit chosen.2)
  if digits = [] then none else some (chosen.1 ++ digits, magnitude chosen.2 digits)

/-- A number begins with a digit. -/
theorem Body.head (hbody : Body base word value) :
    ∃ char rest, word = char :: rest ∧ ∃ digit, digitValue char = some digit := by
  have hdigit : ∀ {base : ℕ} {bytes : List UInt8}, bytes ≠ [] →
      (∀ char ∈ bytes, isDigit base char) →
      ∃ char rest, bytes = char :: rest ∧ ∃ digit, digitValue char = some digit := by
    intro base bytes hbytes hdigits
    obtain ⟨char, rest, rfl⟩ := List.exists_cons_of_ne_nil hbytes
    obtain ⟨digit, hdigit, -⟩ := (Option.any_eq_true ..).mp
      (show (digitValue char).any _ from hdigits char List.mem_cons_self)
    exact ⟨char, rest, rfl, digit, hdigit⟩
  cases hbody with
  | digits _ hbytes hdigits => exact hdigit hbytes hdigits
  | hexadecimal _ _ _ _ => exact ⟨48, _, rfl, 0, by decide⟩
  | octal hfirst hdigits =>
    refine hdigit (fun hnil ↦ ?_) hdigits
    rw [hnil] at hfirst
    cases hfirst
  | decimal _ hbytes hdigits => exact hdigit hbytes hdigits

/-- The digits of a base at the start of a string. -/
theorem le_digits (hpre : word <+: rest) (hword : word ≠ [])
    (hdigits : ∀ char ∈ word, isDigit base char) :
    rest.takeWhile (isDigit base) ≠ [] ∧ word.length ≤ (rest.takeWhile (isDigit base)).length ∧
      (word.length = (rest.takeWhile (isDigit base)).length →
        word = rest.takeWhile (isDigit base)) := by
  have hle := prefix_takeWhile hpre hdigits
  refine ⟨fun hnil ↦ hword ?_, hle.length_le, hle.eq_of_length⟩
  rw [hnil] at hle
  exact List.prefix_nil.mp hle

/-- A string with a prefix `0x` and a digit behind it. -/
theorem exists_of_startsHex (hstarts : startsHex rest) :
    ∃ x tail, rest = 48 :: x :: tail ∧ (x = 120 ∨ x = 88) := by
  unfold startsHex at hstarts
  split at hstarts
  · rename_i x tail
    exact ⟨x, tail, rfl, of_decide_eq_true hstarts⟩
  · cases hstarts

/-- Digits before an `x` are at most a zero. -/
theorem length_le_one {x : UInt8} {tail : List UInt8} (hx : x = 120 ∨ x = 88) (hbase : base ≤ 16)
    (hpre : word <+: 48 :: x :: tail) (hdigits : ∀ char ∈ word, isDigit base char) :
    word.length ≤ 1 := by
  have hle := (prefix_takeWhile hpre hdigits).length_le
  rw [List.takeWhile_cons] at hle
  split_ifs at hle
  · rw [List.takeWhile_cons_of_neg (by rw [not_isDigit_x hx hbase]; decide)] at hle
    exact hle
  · exact hle.trans (Nat.zero_le 1)

/-- The longest number of a string with the prefix `0x` and a digit. -/
theorem longestBody_hex {x : UInt8} {tail : List UInt8} (hbase : base = 0 ∨ base = 16)
    (hx : x = 120 ∨ x = 88) (hdigit : tail.head?.any (isDigit 16)) :
    longestBody base (48 :: x :: tail) = some (48 :: x :: tail.takeWhile (isDigit 16),
        magnitude 16 (tail.takeWhile (isDigit 16))) ∧
      tail.takeWhile (isDigit 16) ≠ [] := by
  have hdigits : tail.takeWhile (isDigit 16) ≠ [] := by
    obtain ⟨char, hchar, hisDigit⟩ := (Option.any_eq_true ..).mp hdigit
    obtain ⟨rest, rfl⟩ := List.head?_eq_some_iff.mp hchar
    rw [List.takeWhile_cons_of_pos hisDigit]
    exact List.cons_ne_nil _ _
  have hstarts : startsHex (48 :: x :: tail) := decide_eq_true hx
  have hchosen : bodyPrefix base (48 :: x :: tail) = ([48, x], 16) :=
    if_pos ⟨hbase, hstarts, hdigit⟩
  unfold longestBody
  rw [hchosen]
  exact ⟨if_neg hdigits, hdigits⟩

/-- The longest number of a string without that. -/
theorem longestBody_digits
    (hnot : ¬ ((base = 0 ∨ base = 16) ∧ startsHex rest ∧ (rest.drop 2).head?.any (isDigit 16))) :
    longestBody base rest =
      if rest.takeWhile (isDigit (bodyPrefix base rest).2) = [] then none
      else some (rest.takeWhile (isDigit (bodyPrefix base rest).2),
        magnitude (bodyPrefix base rest).2
          (rest.takeWhile (isDigit (bodyPrefix base rest).2))) := by
  have hstart : (bodyPrefix base rest).1 = [] := by
    unfold bodyPrefix
    rw [if_neg hnot]
    split_ifs <;> rfl
  unfold longestBody
  simp only [hstart, List.length_nil, List.drop_zero, List.nil_append]

theorem head?_of_starts (hpre : word <+: rest) (hword : word ≠ []) :
    rest.head? = word.head? := by
  obtain ⟨tail, rfl⟩ := hpre
  obtain ⟨char, others, rfl⟩ := List.exists_cons_of_ne_nil hword
  rfl

/-- Digits at the start are inside of the longest number: where that has the prefix `0x`, they are a
zero. -/
theorem digits_le_longestBody {digitBase : ℕ} (hpre : word <+: rest) (hword : word ≠ [])
    (hdigits : ∀ char ∈ word, isDigit digitBase char)
    (hmost : base = 0 ∨ base = 16 → digitBase ≤ 16)
    (hsame : ¬ ((base = 0 ∨ base = 16) ∧ startsHex rest ∧
      (rest.drop 2).head?.any (isDigit 16)) → (bodyPrefix base rest).2 = digitBase) :
    ∃ longest most, longestBody base rest = some (longest, most) ∧
      word.length ≤ longest.length ∧
      (word.length = longest.length → word = longest ∧ magnitude digitBase word = most) := by
  by_cases hhex : (base = 0 ∨ base = 16) ∧ startsHex rest ∧ (rest.drop 2).head?.any (isDigit 16)
  · obtain ⟨hbase, hstarts, hdigit⟩ := hhex
    obtain ⟨x, tail, rfl, hx⟩ := exists_of_startsHex hstarts
    obtain ⟨hlongest, hne⟩ := longestBody_hex hbase hx hdigit
    have hlength := length_le_one hx (hmost hbase) hpre hdigits
    refine ⟨_, _, hlongest, ?_, fun heq ↦ ?_⟩
    · rw [List.length_cons]
      omega
    · rw [List.length_cons, List.length_cons] at heq
      omega
  · obtain ⟨hne, hle, heq⟩ := le_digits hpre hword hdigits
    refine ⟨rest.takeWhile (isDigit digitBase),
      magnitude digitBase (rest.takeWhile (isDigit digitBase)), ?_, hle, fun hlength ↦ ?_⟩
    · rw [longestBody_digits hhex, hsame hhex, if_neg hne]
    · rw [← heq hlength]
      exact ⟨rfl, rfl⟩

/-- Every number at the start is inside of the longest one, and it is that where it is as long. -/
theorem Body.le_longestBody (hbody : Body base word value) (hpre : word <+: rest) :
    ∃ longest most, longestBody base rest = some (longest, most) ∧
      word.length ≤ longest.length ∧
      (word.length = longest.length → word = longest ∧ value = most) := by
  cases hbody with
  | digits hbase hbytes hdigits =>
    refine digits_le_longestBody hpre hbytes hdigits (fun heq ↦ by omega) fun hhex ↦ ?_
    unfold bodyPrefix
    rw [if_neg hhex, if_neg hbase]
  | @hexadecimal _ x bytes hbase hx hbytes hdigits =>
    obtain ⟨tail, rfl⟩ := hpre
    obtain ⟨first, others, rfl⟩ := List.exists_cons_of_ne_nil hbytes
    have hdigit := hdigits first List.mem_cons_self
    obtain ⟨hlongest, -⟩ := @longestBody_hex _ _ (first :: others ++ tail) hbase hx hdigit
    obtain ⟨-, hle, heq⟩ := @le_digits _ (first :: others ++ tail) _ (List.prefix_append _ tail)
      hbytes hdigits
    refine ⟨_, _, hlongest, Nat.succ_le_succ (Nat.succ_le_succ hle), fun hlength ↦ ?_⟩
    rw [← heq (Nat.succ_injective (Nat.succ_injective hlength))]
    exact ⟨rfl, rfl⟩
  | octal hfirst hdigits =>
    have hword : word ≠ [] := by
      rintro rfl
      cases hfirst
    refine digits_le_longestBody hpre hword hdigits (fun _ ↦ by omega) fun hhex ↦ ?_
    unfold bodyPrefix
    rw [if_neg hhex, if_pos rfl, if_pos ((head?_of_starts hpre hword).trans hfirst)]
  | decimal hfirst hbytes hdigits =>
    refine digits_le_longestBody hpre hbytes hdigits (fun _ ↦ by omega) fun hhex ↦ ?_
    unfold bodyPrefix
    rw [if_neg hhex, if_pos rfl, if_neg fun heq ↦
      hfirst ((head?_of_starts hpre hbytes).symm.trans heq)]

/-- The longest number is a number. -/
theorem body_of_longestBody (hbody : longestBody base rest = some (word, value)) :
    Body base word value ∧ word <+: rest := by
  by_cases hhex : (base = 0 ∨ base = 16) ∧ startsHex rest ∧ (rest.drop 2).head?.any (isDigit 16)
  · obtain ⟨hbase, hstarts, hdigit⟩ := hhex
    obtain ⟨x, tail, rfl, hx⟩ := exists_of_startsHex hstarts
    obtain ⟨hlongest, hne⟩ := longestBody_hex hbase hx hdigit
    obtain ⟨rfl, rfl⟩ := Prod.mk.inj (Option.some.inj (hlongest.symm.trans hbody))
    refine ⟨.hexadecimal hbase hx hne fun char hchar ↦ List.mem_takeWhile_imp hchar, ?_⟩
    exact List.cons_prefix_cons.mpr ⟨rfl, List.cons_prefix_cons.mpr
      ⟨rfl, List.takeWhile_prefix _⟩⟩
  · rw [longestBody_digits hhex] at hbody
    split_ifs at hbody with hnil
    obtain ⟨rfl, rfl⟩ := Prod.mk.inj (Option.some.inj hbody)
    refine ⟨?_, List.takeWhile_prefix _⟩
    have hdigits : ∀ char ∈ rest.takeWhile (isDigit (bodyPrefix base rest).2),
        isDigit (bodyPrefix base rest).2 char := fun char hchar ↦ List.mem_takeWhile_imp hchar
    by_cases hbase : base = 0
    · subst hbase
      by_cases hhead : rest.head? = some 48
      · have height : (bodyPrefix 0 rest).2 = 8 := by
          unfold bodyPrefix
          rw [if_neg hhex, if_pos rfl, if_pos hhead]
        rw [height] at hdigits hnil ⊢
        exact .octal ((head?_of_starts (List.takeWhile_prefix _) hnil).symm.trans hhead) hdigits
      · have hten : (bodyPrefix 0 rest).2 = 10 := by
          unfold bodyPrefix
          rw [if_neg hhex, if_pos rfl, if_neg hhead]
        rw [hten] at hdigits hnil ⊢
        exact .decimal (fun heq ↦
          hhead ((head?_of_starts (List.takeWhile_prefix _) hnil).trans heq)) hnil hdigits
    · have hsame : (bodyPrefix base rest).2 = base := by
        unfold bodyPrefix
        rw [if_neg hhex, if_neg hbase]
      rw [hsame] at hdigits hnil ⊢
      exact .digits hbase hnil hdigits

theorem signOf_cases (rest : List UInt8) :
    signOf rest = [] ∨ signOf rest = [43] ∨ signOf rest = [45] := by
  unfold signOf
  split_ifs <;> simp

theorem signOf_append_drop (rest : List UInt8) :
    signOf rest ++ rest.drop (signOf rest).length = rest := by
  unfold signOf
  split_ifs with hplus hminus
  · obtain ⟨tail, rfl⟩ := List.head?_eq_some_iff.mp hplus
    rfl
  · obtain ⟨tail, rfl⟩ := List.head?_eq_some_iff.mp hminus
    rfl
  · rfl

theorem not_isSpace_of_digitValue {char : UInt8} {digit : ℕ}
    (hdigit : digitValue char = some digit) :
    isSpace char = false := by
  rcases Bool.eq_false_or_eq_true (isSpace char) with hspace | hspace
  · rw [digitValue_eq_none_of_isSpace hspace] at hdigit
    cases hdigit
  · exact hspace

/-- The parts of a string that begins with a sign, or none, and a number. -/
theorem parts_of_prefix {blanks sign : List UInt8} (hbegins : blanks ++ sign ++ word <+: text)
    (hblank : ∀ char ∈ blanks, isSpace char) (hsigned : sign = [] ∨ sign = [43] ∨ sign = [45])
    (hword : ∃ char rest, word = char :: rest ∧ ∃ digit, digitValue char = some digit) :
    text.takeWhile isSpace = blanks ∧ signOf (text.dropWhile isSpace) = sign ∧
      word <+: unsignedPart text := by
  obtain ⟨char, rest, rfl, digit, hdigit⟩ := hword
  rw [List.append_assoc] at hbegins
  unfold unsignedPart
  rcases hsigned with rfl | rfl | rfl
  · obtain ⟨hblanks, hafter⟩ := takeWhile_of_prefix hbegins hblank
      (not_isSpace_of_digitValue hdigit)
    have hsign : signOf (text.dropWhile isSpace) = [] := by
      unfold signOf
      rw [head?_of_starts hafter (List.cons_ne_nil _ _), List.head?_cons,
        if_neg (by rintro ⟨⟩; cases hdigit), if_neg (by rintro ⟨⟩; cases hdigit)]
    rw [hsign]
    exact ⟨hblanks, rfl, hafter⟩
  all_goals
    obtain ⟨hblanks, hafter⟩ := takeWhile_of_prefix hbegins hblank (by decide)
    obtain ⟨tail, htail⟩ := hafter
    rw [← htail]
    exact ⟨hblanks, rfl, List.prefix_append _ tail⟩

/-- The numbers at the start of a string: its blanks, its sign and what can follow them. -/
theorem numeral_iff {blanks sign : List UInt8} {number : ℤ} :
    Numeral base text blanks sign word number ↔
      text.takeWhile isSpace = blanks ∧ signOf (text.dropWhile isSpace) = sign ∧
        word <+: unsignedPart text ∧ ∃ magnitude : ℕ, Body base word magnitude ∧
          number = if sign = [45] then -(magnitude : ℤ) else magnitude := by
  constructor
  · rintro ⟨hbegins, hblank, hsigned, magnitude, hbody, hnumber⟩
    obtain ⟨hblanks, hsign, hpre⟩ := parts_of_prefix hbegins hblank hsigned hbody.head
    exact ⟨hblanks, hsign, hpre, magnitude, hbody, hnumber⟩
  · rintro ⟨rfl, rfl, hpre, hvalue⟩
    refine ⟨?_, fun char hchar ↦ List.mem_takeWhile_imp hchar, signOf_cases _, hvalue⟩
    have hwhole : text.takeWhile isSpace ++ signOf (text.dropWhile isSpace) ++ unsignedPart text =
        text := by
      rw [List.append_assoc, unsignedPart, signOf_append_drop, List.takeWhile_append_dropWhile]
    calc text.takeWhile isSpace ++ signOf (text.dropWhile isSpace) ++ word
        <+: text.takeWhile isSpace ++ signOf (text.dropWhile isSpace) ++ unsignedPart text :=
          (List.prefix_append_right_inj _).mpr hpre
      _ = text := hwhole

/-- The longest number at the start of a string. -/
theorem longest_iff {blanks sign : List UInt8} {number : ℤ} :
    Longest base text blanks sign word number ↔
      text.takeWhile isSpace = blanks ∧ signOf (text.dropWhile isSpace) = sign ∧
        ∃ magnitude : ℕ, longestBody base (unsignedPart text) = some (word, magnitude) ∧
          number = if sign = [45] then -(magnitude : ℤ) else magnitude := by
  constructor
  · rintro ⟨hnumeral, hlongest⟩
    obtain ⟨hblanks, hsign, hpre, magnitude, hbody, hnumber⟩ := numeral_iff.mp hnumeral
    refine ⟨hblanks, hsign, magnitude, ?_, hnumber⟩
    obtain ⟨longest, most, hmost, hle, heq⟩ := hbody.le_longestBody hpre
    obtain ⟨hlongestBody, hlongestPrefix⟩ := body_of_longestBody hmost
    have hother := hlongest blanks sign longest _
      (numeral_iff.mpr ⟨hblanks, hsign, hlongestPrefix, most, hlongestBody, rfl⟩)
    simp only [List.length_append] at hother
    obtain ⟨rfl, rfl⟩ := heq (by omega)
    exact hmost
  · rintro ⟨hblanks, hsign, magnitude, hmost, hnumber⟩
    obtain ⟨hbody, hpre⟩ := body_of_longestBody hmost
    refine ⟨numeral_iff.mpr ⟨hblanks, hsign, hpre, magnitude, hbody, hnumber⟩, ?_⟩
    intro otherBlanks otherSign otherBody other hother
    obtain ⟨hotherBlanks, hotherSign, hotherPrefix, _, hotherBody, -⟩ := numeral_iff.mp hother
    obtain ⟨longest, most, hfound, hle, -⟩ := hotherBody.le_longestBody hotherPrefix
    obtain ⟨rfl, rfl⟩ := Prod.mk.inj (Option.some.inj (hmost.symm.trans hfound))
    rw [← hblanks, ← hsign, ← hotherBlanks, ← hotherSign]
    simp only [List.length_append]
    omega

/-- The strings that begin with no number. -/
theorem no_numeral_iff :
    (∀ blanks sign body number, ¬ Numeral base text blanks sign body number) ↔
      longestBody base (unsignedPart text) = none := by
  constructor
  · intro hnone
    rcases hmost : longestBody base (unsignedPart text) with _ | ⟨word, magnitude⟩
    · rfl
    · exact absurd (longest_iff.mpr ⟨rfl, rfl, magnitude, hmost, rfl⟩).1 (hnone _ _ _ _)
  · intro hnone blanks sign body number hnumeral
    obtain ⟨-, -, hpre, magnitude, hbody, -⟩ := numeral_iff.mp hnumeral
    obtain ⟨longest, most, hmost, -, -⟩ := hbody.le_longestBody hpre
    rw [hnone] at hmost
    cases hmost

end Numerals

/-! ### What the functions pass -/

section Passed

variable {base : ℕ} {text p word : List UInt8} {value : ℕ}

/-- How many characters behind the blanks are passed. -/
def passed (base : ℕ) (p : List UInt8) : ℕ :=
  p.length - (scanDigits (choosePrefix base p).1 (choosePrefix base p).2 0).2.length

theorem length_dropWhile_add (keeps : UInt8 → Bool) (p : List UInt8) :
    (p.takeWhile keeps).length + (p.dropWhile keeps).length = p.length := by
  rw [← List.length_append, List.takeWhile_append_dropWhile]

theorem passed_of_choosePrefix {digitBase : ℕ} {start rest : List UInt8}
    (hp : p = start ++ rest) (hchosen : choosePrefix base p = (digitBase, rest)) :
    passed base p = start.length + (rest.takeWhile (isDigit (min digitBase 16))).length ∧
      u32 (scanDigits (choosePrefix base p).1 (choosePrefix base p).2 0).1 =
        u32 (magnitude digitBase (rest.takeWhile (isDigit (min digitBase 16)))) := by
  obtain ⟨hrest, hvalue⟩ := scanDigits_eq digitBase rest 0
  have hlength := length_dropWhile_add (isDigit (min digitBase 16)) rest
  unfold passed
  rw [hchosen]
  dsimp only
  rw [hrest, hp, List.length_append]
  exact ⟨by omega, hvalue⟩

theorem length_choosePrefix_le : (choosePrefix base p).2.length ≤ p.length := by
  unfold choosePrefix
  split_ifs <;> simp

theorem strtoul_stop :
    (strtoul (some text) base).stop =
      (text.takeWhile isSkipped).length + passed base (text.dropWhile isSkipped) := by
  have hlength := length_dropWhile_add isSkipped text
  have hpre := @length_choosePrefix_le base (text.dropWhile isSkipped)
  have hle := (scanDigits_eq (choosePrefix base (text.dropWhile isSkipped)).1
    (choosePrefix base (text.dropWhile isSkipped)).2 0).1 ▸ List.length_dropWhile_le _ _
  unfold strtoul passed
  dsimp only
  omega

/-- The prefix of a string that does not begin with a zero. -/
theorem choosePrefix_of_head (hhead : p.head? ≠ some 48) :
    choosePrefix base p = (if base = 0 then 10 else base, p) := by
  have hstarts : ¬ startsHex p := by
    intro hstarts
    obtain ⟨x, tail, rfl, -⟩ := exists_of_startsHex hstarts
    exact hhead rfl
  unfold choosePrefix
  by_cases hbase : base = 0
  · rw [if_pos hbase, if_pos hbase, if_neg hstarts, if_neg hhead]
  · rw [if_neg hbase, if_neg hbase, if_neg fun hboth ↦ hstarts hboth.2]

/-- Nothing is passed where no digit stands. -/
theorem passed_of_head (hhead : ∀ char ∈ p.head?, digitValue char = none) : passed base p = 0 := by
  have hzero : p.head? ≠ some 48 := fun heq ↦ absurd (hhead 48 heq) (by decide)
  have hpassed := (@passed_of_choosePrefix base _ _ _ _ p.nil_append.symm
    (choosePrefix_of_head hzero)).1
  cases p with
  | nil => exact hpassed
  | cons char rest =>
    rw [List.takeWhile_cons_of_neg (by
      rw [not_isDigit_of_digitValue_eq_none (hhead char rfl)]
      decide)] at hpassed
    exact hpassed

/-- A digit is a number. -/
theorem exists_body_singleton {char : UInt8}
    (hdigit : isDigit (if base = 0 then 10 else base) char) : ∃ value, Body base [char] value := by
  by_cases hbase : base = 0
  · subst hbase
    by_cases hzero : char = 48
    · subst hzero
      refine ⟨_, .octal rfl fun other hother ↦ ?_⟩
      rw [List.mem_singleton.mp hother]
      decide
    · refine ⟨_, .decimal (fun heq ↦ hzero (Option.some.inj heq)) (List.cons_ne_nil _ _) ?_⟩
      rintro other hother
      rw [List.mem_singleton.mp hother]
      exact hdigit
  · rw [if_neg hbase] at hdigit
    refine ⟨_, .digits hbase (List.cons_ne_nil _ _) fun other hother ↦ ?_⟩
    rw [List.mem_singleton.mp hother]
    exact hdigit

/-- Nothing is passed where no number stands. -/
theorem passed_of_none (hbase : base = 0 ∨ 2 ≤ base) (hnone : longestBody base p = none) :
    passed base p = 0 := by
  have hhead : ∀ char ∈ p.head?, isDigit (if base = 0 then 10 else base) char = false := by
    intro char hchar
    rcases Bool.eq_false_or_eq_true (isDigit (if base = 0 then 10 else base) char) with hdigit | hno
    · obtain ⟨rest, rfl⟩ := List.head?_eq_some_iff.mp hchar
      obtain ⟨value, hbody⟩ := exists_body_singleton hdigit
      obtain ⟨longest, most, hmost, -⟩ := @Body.le_longestBody _ (char :: rest) _ _ hbody
        (List.cons_prefix_cons.mpr ⟨rfl, List.nil_prefix⟩)
      rw [hnone] at hmost
      cases hmost
    · exact hno
  have hzero : p.head? ≠ some 48 := by
    intro heq
    have hno := hhead 48 heq
    have hdigit : isDigit (if base = 0 then 10 else base) 48 :=
      @isDigit_mono _ _ 2 (by split_ifs <;> omega) (by decide)
    rw [hno] at hdigit
    cases hdigit
  have hpassed := (@passed_of_choosePrefix base _ _ _ _ p.nil_append.symm
    (choosePrefix_of_head hzero)).1
  cases p with
  | nil => exact hpassed
  | cons char rest =>
    rw [List.takeWhile_cons_of_neg fun hdigit ↦ by
      have hmore := isDigit_mono (Nat.min_le_left _ 16) hdigit
      rw [hhead char rfl] at hmore
      cases hmore] at hpassed
    exact hpassed

/-- Where a string has the prefix `0x`, the digits behind it are passed too. -/
theorem passed_hex {x : UInt8} {tail : List UInt8} (hbase : base = 0 ∨ base = 16)
    (hx : x = 120 ∨ x = 88) :
    passed base (48 :: x :: tail) = 2 + (tail.takeWhile (isDigit 16)).length ∧
      u32 (scanDigits (choosePrefix base (48 :: x :: tail)).1
        (choosePrefix base (48 :: x :: tail)).2 0).1 =
          u32 (magnitude 16 (tail.takeWhile (isDigit 16))) := by
  have hstarts : startsHex (48 :: x :: tail) := decide_eq_true hx
  have hchosen : choosePrefix base (48 :: x :: tail) = (16, tail) := by
    unfold choosePrefix
    rcases hbase with rfl | rfl
    · rw [if_pos rfl, if_pos hstarts]
      rfl
    · rw [if_neg (by decide), if_pos ⟨rfl, hstarts⟩]
      rfl
  exact @passed_of_choosePrefix _ _ _ [48, x] _ rfl hchosen

/-- What is passed is the longest number, where that has no digit past `f` and is not a `0` before
an `x`; and its value is what the loop makes of it. -/
def PassesWhen (base : ℕ) (p word : List UInt8) (value : ℕ) : Prop :=
  (passed base p = word.length ↔ (16 < base → ∀ char ∈ word, isDigit 16 char) ∧
    ¬ ((base = 0 ∨ base = 16) ∧ word = [48] ∧ startsHex p)) ∧
    (passed base p = word.length →
      u32 (scanDigits (choosePrefix base p).1 (choosePrefix base p).2 0).1 = u32 value)

/-- A string with the prefix `0x`. -/
theorem passesWhen_hex {x : UInt8} {tail : List UInt8} (hbase : base = 0 ∨ base = 16)
    (hx : x = 120 ∨ x = 88) (hbody : longestBody base (48 :: x :: tail) = some (word, value)) :
    PassesWhen base (48 :: x :: tail) word value := by
  obtain ⟨hpassed, hvalue⟩ := @passed_hex _ _ tail hbase hx
  unfold PassesWhen
  rw [hpassed, hvalue]
  by_cases hdigit : tail.head?.any (isDigit 16)
  · obtain ⟨hlongest, hne⟩ := longestBody_hex hbase hx hdigit
    obtain ⟨rfl, rfl⟩ := Prod.mk.inj (Option.some.inj (hlongest.symm.trans hbody))
    refine ⟨⟨fun _ ↦ ⟨fun hlarge ↦ by omega, fun hbare ↦ ?_⟩, fun _ ↦ ?_⟩, fun _ ↦ rfl⟩
    · cases hbare.2.1
    · simp only [List.length_cons]
      omega
  · -- The number is the zero, and the `x` is passed with it.
    have hnot : ¬ ((base = 0 ∨ base = 16) ∧ startsHex (48 :: x :: tail) ∧
        ((48 :: x :: tail).drop 2).head?.any (isDigit 16)) := fun hhex ↦ hdigit hhex.2.2
    have hless : (bodyPrefix base (48 :: x :: tail)).2 = 8 ∨
        (bodyPrefix base (48 :: x :: tail)).2 = 16 := by
      unfold bodyPrefix
      rw [if_neg hnot]
      rcases hbase with rfl | rfl
      · exact .inl rfl
      · exact .inr rfl
    have hzero : (48 :: x :: tail).takeWhile
        (isDigit (bodyPrefix base (48 :: x :: tail)).2) = [48] := by
      rcases hless with hbase | hbase <;> rw [hbase] <;>
        rw [List.takeWhile_cons_of_pos (by decide),
          List.takeWhile_cons_of_neg (by rw [not_isDigit_x hx (by decide)]; decide)]
    rw [longestBody_digits hnot, hzero, if_neg (List.cons_ne_nil _ _)] at hbody
    obtain ⟨rfl, rfl⟩ := Prod.mk.inj (Option.some.inj hbody)
    refine ⟨⟨fun hlength ↦ ?_, fun hcondition ↦ ?_⟩, fun hlength ↦ ?_⟩
    · rw [List.length_singleton] at hlength
      omega
    · exact absurd ⟨hbase, rfl, decide_eq_true hx⟩ hcondition.2
    · rw [List.length_singleton] at hlength
      omega

/-- A string with the prefix `0`. -/
theorem passesWhen_octal {rest : List UInt8} (hstarts : ¬ startsHex (48 :: rest))
    (hbody : longestBody 0 (48 :: rest) = some (word, value)) :
    PassesWhen 0 (48 :: rest) word value := by
  have hnot : ¬ (((0 : ℕ) = 0 ∨ (0 : ℕ) = 16) ∧ startsHex (48 :: rest) ∧
      ((48 :: rest).drop 2).head?.any (isDigit 16)) := fun hhex ↦ hstarts hhex.2.1
  have hchosen : choosePrefix 0 (48 :: rest) = (8, rest) := by
    unfold choosePrefix
    rw [if_pos rfl, if_neg hstarts]
    rfl
  have hbodyPrefix : (bodyPrefix 0 (48 :: rest)).2 = 8 := by
    unfold bodyPrefix
    rw [if_neg hnot]
    rfl
  have hdigits : (48 :: rest).takeWhile (isDigit 8) = 48 :: rest.takeWhile (isDigit 8) :=
    List.takeWhile_cons_of_pos (by decide)
  obtain ⟨hpassed, hvalue⟩ := @passed_of_choosePrefix _ _ _ [48] _ rfl hchosen
  rw [longestBody_digits hnot, hbodyPrefix, hdigits, if_neg (List.cons_ne_nil _ _)] at hbody
  obtain ⟨rfl, rfl⟩ := Prod.mk.inj (Option.some.inj hbody)
  refine ⟨⟨fun _ ↦ ⟨fun hlarge ↦ by omega, fun hbare ↦ hstarts hbare.2.2⟩, fun _ ↦ ?_⟩,
    fun _ ↦ hvalue⟩
  calc passed 0 (48 :: rest) = 1 + (rest.takeWhile (isDigit 8)).length := hpassed
    _ = (48 :: rest.takeWhile (isDigit 8)).length := Nat.add_comm _ _

/-- A string of digits alone. -/
theorem passesWhen_digits (hstarts : ¬ ((base = 0 ∨ base = 16) ∧ startsHex p))
    (hhead : ¬ (base = 0 ∧ p.head? = some 48))
    (hbody : longestBody base p = some (word, value)) : PassesWhen base p word value := by
  have hchosen : choosePrefix base p = (if base = 0 then 10 else base, p) := by
    unfold choosePrefix
    by_cases hbase : base = 0
    · rw [if_pos hbase, if_pos hbase, if_neg fun hhex ↦ hstarts ⟨.inl hbase, hhex⟩,
        if_neg fun hzero ↦ hhead ⟨hbase, hzero⟩]
    · rw [if_neg hbase, if_neg hbase, if_neg fun hboth ↦ hstarts ⟨.inr hboth.1, hboth.2⟩]
  have hnot : ¬ ((base = 0 ∨ base = 16) ∧ startsHex p ∧ (p.drop 2).head?.any (isDigit 16)) :=
    fun hhex ↦ hstarts ⟨hhex.1, hhex.2.1⟩
  have hbodyPrefix : (bodyPrefix base p).2 = if base = 0 then 10 else base := by
    unfold bodyPrefix
    rw [if_neg hnot]
    by_cases hbase : base = 0
    · rw [if_pos hbase, if_pos hbase, if_neg fun hzero ↦ hhead ⟨hbase, hzero⟩]
    · rw [if_neg hbase, if_neg hbase]
  obtain ⟨hpassed, hvalue⟩ := passed_of_choosePrefix p.nil_append.symm hchosen
  rw [longestBody_digits hnot, hbodyPrefix] at hbody
  have hlarge : 16 < base → (if base = 0 then 10 else base) = base :=
    fun hmore ↦ if_neg (by omega)
  have hsmall : ¬ 16 < base → (if base = 0 then 10 else base) ≤ 16 := by
    intro hless
    split_ifs <;> omega
  generalize (if base = 0 then 10 else base) = digitBase at *
  split_ifs at hbody with hnil
  obtain ⟨rfl, rfl⟩ := Prod.mk.inj (Option.some.inj hbody)
  have hkeeps : ∀ char, isDigit (min digitBase 16) char → isDigit digitBase char :=
    fun char ↦ isDigit_mono (Nat.min_le_left digitBase 16)
  have hlengths : passed base p = (p.takeWhile (isDigit digitBase)).length ↔
      ∀ char ∈ p.takeWhile (isDigit digitBase), isDigit (min digitBase 16) char := by
    rw [hpassed, List.length_nil, Nat.zero_add]
    exact length_takeWhile_eq_iff hkeeps
  refine ⟨hlengths.trans ⟨fun hall ↦ ⟨fun _ char hchar ↦ ?_, fun hbare ↦ ?_⟩, ?_⟩, fun hlength ↦ ?_⟩
  · exact isDigit_mono (Nat.min_le_right digitBase 16) (hall char hchar)
  · exact hstarts ⟨hbare.1, hbare.2.2⟩
  · rintro ⟨hall, -⟩ char hchar
    by_cases hmore : 16 < base
    · rw [Nat.min_eq_right (by rw [hlarge hmore]; omega)]
      exact hall hmore char hchar
    · rw [Nat.min_eq_left (hsmall hmore)]
      exact List.mem_takeWhile_imp hchar
  · have hpre := @prefix_takeWhile _ (isDigit (min digitBase 16)) _ _
      (List.takeWhile_prefix (isDigit digitBase)) (hlengths.mp hlength)
    have hother : p.takeWhile (isDigit (min digitBase 16)) <+: p.takeWhile (isDigit digitBase) :=
      prefix_takeWhile (List.takeWhile_prefix _) fun char hchar ↦
        hkeeps char (List.mem_takeWhile_imp hchar)
    rw [hvalue, hother.eq_of_length (hother.length_le.antisymm hpre.length_le)]

/-- The longest number of any string. -/
theorem passesWhen (hbody : longestBody base p = some (word, value)) :
    PassesWhen base p word value := by
  by_cases hstarts : (base = 0 ∨ base = 16) ∧ startsHex p
  · obtain ⟨x, tail, rfl, hx⟩ := exists_of_startsHex hstarts.2
    exact passesWhen_hex hstarts.1 hx hbody
  · by_cases hhead : base = 0 ∧ p.head? = some 48
    · obtain ⟨rfl, hhead⟩ := hhead
      obtain ⟨rest, rfl⟩ := List.head?_eq_some_iff.mp hhead
      exact passesWhen_octal (fun hhex ↦ hstarts ⟨.inl rfl, hhex⟩) hbody
    · exact passesWhen_digits hstarts hhead hbody

/-! ### The blanks -/

theorem drop_length_takeWhile (keeps : UInt8 → Bool) (text : List UInt8) :
    text.drop (text.takeWhile keeps).length = text.dropWhile keeps := by
  conv_lhs => rw [← List.takeWhile_append_dropWhile (p := keeps) (l := text)]
  rw [List.drop_left' (by rw [List.takeWhile_append_dropWhile])]

/-- Blanks that are all skipped. -/
theorem skips_all (hall : ∀ char ∈ text.takeWhile isSpace, isSkipped char) :
    text.takeWhile isSkipped = text.takeWhile isSpace ∧
      text.dropWhile isSkipped = text.dropWhile isSpace := by
  have hlength := (length_takeWhile_eq_iff fun char ↦ isSpace_of_isSkipped).mpr hall
  have hsame : text.takeWhile isSkipped = text.takeWhile isSpace :=
    (prefix_takeWhile (List.takeWhile_prefix isSkipped) fun char hchar ↦
      isSpace_of_isSkipped (List.mem_takeWhile_imp hchar)).eq_of_length hlength
  refine ⟨hsame, ?_⟩
  rw [← drop_length_takeWhile, ← drop_length_takeWhile, hsame]

/-- Blanks that are not all skipped: another blank stands where the digits are looked for. -/
theorem skips_some (hsome : ¬ ∀ char ∈ text.takeWhile isSpace, isSkipped char) :
    (text.takeWhile isSkipped).length < (text.takeWhile isSpace).length ∧
      ∀ char ∈ (text.dropWhile isSkipped).head?, digitValue char = none := by
  induction text with
  | nil => exact absurd (fun char hchar ↦ by cases hchar) hsome
  | cons first rest ih =>
    by_cases hspace : isSpace first
    · rw [List.takeWhile_cons_of_pos hspace] at hsome ⊢
      by_cases hskipped : isSkipped first
      · rw [List.takeWhile_cons_of_pos hskipped, List.dropWhile_cons_of_pos hskipped]
        have hrest := ih fun hall ↦ hsome (List.forall_mem_cons.mpr ⟨hskipped, hall⟩)
        exact ⟨Nat.succ_lt_succ hrest.1, hrest.2⟩
      · rw [List.takeWhile_cons_of_neg hskipped, List.dropWhile_cons_of_neg hskipped]
        refine ⟨Nat.succ_pos _, fun char hchar ↦ ?_⟩
        obtain rfl := Option.some.inj hchar
        exact digitValue_eq_none_of_isSpace hspace
    · rw [List.takeWhile_cons_of_neg hspace] at hsome
      exact absurd (fun char hchar ↦ by cases hchar) hsome

theorem length_skipped_eq_zero_iff :
    (text.takeWhile isSkipped).length = 0 ↔ ∀ char ∈ text.head?, ¬ isSkipped char := by
  cases text with
  | nil => simp
  | cons first rest => by_cases hskipped : isSkipped first <;> simp [hskipped]

/-- Behind the blanks a sign is not passed. -/
theorem passed_of_sign (hsign : signOf p ≠ []) : passed base p = 0 := by
  refine passed_of_head fun char hchar ↦ ?_
  have hwhole := signOf_append_drop p
  rcases signOf_cases p with hnone | hplus | hminus
  · exact absurd hnone hsign
  · rw [hplus] at hwhole
    rw [← hwhole] at hchar
    obtain rfl := Option.some.inj hchar
    decide
  · rw [hminus] at hwhole
    rw [← hwhole] at hchar
    obtain rfl := Option.some.inj hchar
    decide

/-- Where no number stands, only blanks are passed. -/
theorem stop_of_none (hbase : base = 0 ∨ 2 ≤ base)
    (hnone : longestBody base (unsignedPart text) = none) :
    (strtoul (some text) base).stop = (text.takeWhile isSkipped).length := by
  suffices hpassed : passed base (text.dropWhile isSkipped) = 0 by
    rw [strtoul_stop, hpassed, Nat.add_zero]
  by_cases hall : ∀ char ∈ text.takeWhile isSpace, isSkipped char
  · rw [(skips_all hall).2]
    by_cases hsign : signOf (text.dropWhile isSpace) = []
    · have hunsigned : unsignedPart text = text.dropWhile isSpace := by
        unfold unsignedPart
        rw [hsign]
        rfl
      exact passed_of_none hbase (hunsigned ▸ hnone)
    · exact passed_of_sign hsign
  · exact passed_of_head (skips_some hall).2

/-- Where a number stands, what is passed is that number exactly in a plain string. -/
theorem stop_of_some (hbody : longestBody base (unsignedPart text) = some (word, value)) :
    (strtoul (some text) base).stop =
        (text.takeWhile isSpace ++ signOf (text.dropWhile isSpace) ++ word).length ↔
      (∀ char ∈ text.takeWhile isSpace, isSkipped char) ∧ signOf (text.dropWhile isSpace) = [] ∧
        (16 < base → ∀ char ∈ word, isDigit 16 char) ∧
        ¬ ((base = 0 ∨ base = 16) ∧ word = [48] ∧ startsHex (text.dropWhile isSpace)) := by
  rw [strtoul_stop, List.length_append, List.length_append]
  by_cases hall : ∀ char ∈ text.takeWhile isSpace, isSkipped char
  · obtain ⟨htake, hdrop⟩ := skips_all hall
    rw [htake, hdrop]
    by_cases hsign : signOf (text.dropWhile isSpace) = []
    · have hunsigned : unsignedPart text = text.dropWhile isSpace := by
        unfold unsignedPart
        rw [hsign]
        rfl
      rw [hunsigned] at hbody
      have hpasses := (passesWhen hbody).1
      rw [hsign, List.length_nil, Nat.add_zero, Nat.add_left_cancel_iff, hpasses]
      exact ⟨fun hcondition ↦ ⟨hall, rfl, hcondition⟩, fun hplain ↦ hplain.2.2⟩
    · rw [passed_of_sign hsign]
      have hlength := List.length_pos_iff.mpr hsign
      exact ⟨fun heq ↦ by omega, fun hplain ↦ absurd hplain.2.1 hsign⟩
  · obtain ⟨hless, hhead⟩ := skips_some hall
    rw [passed_of_head hhead]
    exact ⟨fun heq ↦ by omega, fun hplain ↦ absurd hplain.1 hall⟩

/-- The value of a number that is passed. -/
theorem value_of_some (hbody : longestBody base (unsignedPart text) = some (word, value))
    (hall : ∀ char ∈ text.takeWhile isSpace, isSkipped char)
    (hsign : signOf (text.dropWhile isSpace) = [])
    (hstop : (strtoul (some text) base).stop =
      (text.takeWhile isSpace ++ signOf (text.dropWhile isSpace) ++ word).length) :
    (strtoul (some text) base).value = u32 value := by
  obtain ⟨htake, hdrop⟩ := skips_all hall
  have hunsigned : unsignedPart text = text.dropWhile isSpace := by
    unfold unsignedPart
    rw [hsign]
    rfl
  rw [hunsigned] at hbody
  rw [strtoul_stop, htake, hdrop, hsign, List.append_nil, List.length_append,
    Nat.add_left_cancel_iff] at hstop
  have hvalue := (passesWhen hbody).2 hstop
  rw [u32_of_lt _ (scanDigits_lt _ _ (by decide))] at hvalue
  unfold strtoul
  dsimp only
  rw [hdrop, hvalue]

end Passed

/-! ### The functions and the numbers -/

section Reading

variable {text : List UInt8}

/-- What both functions make of a string. -/
theorem reads_iff (base : Base) (text : List UInt8) {least most : ℤ} {cast : ℤ → ℤ}
    (hcast : ∀ value : ℕ, least ≤ value → (value : ℤ) ≤ most → cast (u32 value : ℕ) = value) :
    Reads base text least most
        ⟨cast (strtoul (some text) base).value, (strtoul (some text) base).stop⟩ ↔
      Plain base text := by
  unfold Reads Plain
  rcases hbody : longestBody base (unsignedPart text) with _ | ⟨word, value⟩
  · have hnone := no_numeral_iff.mpr hbody
    have hno : ∀ {blanks sign body number}, ¬ Longest base text blanks sign body number :=
      fun hlongest ↦ hnone _ _ _ _ hlongest.1
    have hstop := stop_of_none (base.2.imp_right And.left) hbody
    constructor
    · rintro ⟨-, hzero⟩
      refine ⟨fun _ _ _ _ hlongest ↦ absurd hlongest hno, fun _ ↦ ?_⟩
      exact length_skipped_eq_zero_iff.mp (hstop.symm.trans (hzero hnone))
    · rintro ⟨-, hhead⟩
      refine ⟨fun _ _ _ _ hlongest ↦ absurd hlongest hno, fun _ ↦ ?_⟩
      exact hstop.trans (length_skipped_eq_zero_iff.mpr (hhead hnone))
  · have hlongest := longest_iff.mpr ⟨rfl, rfl, value, hbody, rfl⟩
    have hsome : ¬ ∀ blanks sign body number, ¬ Numeral base text blanks sign body number :=
      fun hnone ↦ hnone _ _ _ _ hlongest.1
    constructor
    · rintro ⟨hreads, -⟩
      refine ⟨fun blanks sign body number hother ↦ ?_, fun hnone ↦ absurd hnone hsome⟩
      obtain ⟨rfl, rfl, other, hotherBody, -⟩ := longest_iff.mp hother
      obtain ⟨rfl, rfl⟩ := Prod.mk.inj (Option.some.inj (hbody.symm.trans hotherBody))
      rw [drop_length_takeWhile]
      exact (stop_of_some hbody).mp (hreads _ _ _ _ hlongest).1
    · rintro ⟨hplain, -⟩
      have hcondition := hplain _ _ _ _ hlongest
      rw [drop_length_takeWhile] at hcondition
      have hstop := (stop_of_some hbody).mpr hcondition
      refine ⟨fun blanks sign body number hother ↦ ?_, fun hnone ↦ absurd hnone hsome⟩
      obtain ⟨rfl, rfl, other, hotherBody, hnumber⟩ := longest_iff.mp hother
      obtain ⟨rfl, rfl⟩ := Prod.mk.inj (Option.some.inj (hbody.symm.trans hotherBody))
      rw [hcondition.2.1, if_neg (List.cons_ne_nil _ _).symm] at hnumber
      refine ⟨hstop, fun hleast hmost ↦ ?_⟩
      dsimp only
      rw [value_of_some hbody hcondition.1 hcondition.2.1 hstop, hnumber]
      rw [hnumber] at hleast hmost
      exact hcast value hleast hmost

/-- **Numbers.** Both functions read the longest number at the start of a string, and set `endptr`
behind it or to the start where there is none, exactly where the string is plain. -/
theorem strtoul_iff (base : Base) (text : List UInt8) :
    (Reads base text 0 4294967295 (strtoul (some text) base) ↔ Plain base text) ∧
      (Reads base text (-2147483648) 2147483647 (strtol (some text) base) ↔ Plain base text) := by
  refine ⟨@reads_iff base text _ _ id fun value _ hmost ↦ ?_,
    @reads_iff base text _ _ toLong fun value _ hmost ↦ ?_⟩
  · rw [id_eq, u32_of_lt value (by omega)]
  · rw [u32_of_lt value (by omega)]
    exact if_pos (by omega)

example : strtoul (some [32, 48, 120, 49, 102, 32]) 0 = ⟨31, 5⟩ := by decide

/-- The number `-5` is read as no number. -/
theorem strtol_misses_sign :
    ¬ ∀ (base : Base) (text : List UInt8),
      Reads base text (-2147483648) 2147483647 (strtol (some text) base) := by
  intro hreads
  have hlongest : Longest 10 [45, 53] [] [45] [53] (-5) :=
    longest_iff.mpr ⟨by decide, by decide, 5, by decide, rfl⟩
  have hstop := ((hreads ⟨10, by decide⟩ [45, 53]).1 _ _ _ _ hlongest).1
  exact absurd hstop (by decide)

end Reading

end EynOS.Userland
