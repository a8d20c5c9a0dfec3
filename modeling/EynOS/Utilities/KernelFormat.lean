import EynOS.Foundation.MachineWord
import Mathlib.Data.List.Basic
import Mathlib.Data.List.TakeDrop

/-!
# The formatters of the kernel

`snprintf` and `vga_format_to_buffer` of `vga.c`. A format is its characters in front of the
terminator; an argument is a word of the stack together with the text that is at this address. What
is written goes to the places from zero on, one behind the other, so that a result is the characters
that were written.

`standardOutput` is what the language's standard asks for, where a format has only the conversions
that both support. `formatters_iff` is the exact condition under which both formatters are bounded
and agree with it.
-/

namespace EynOS.Utilities

open Foundation

/-! ### Arguments and results -/

/-- A word of the stack, and the text at the address that it may be. -/
structure Slot where
  word : UInt32
  text : List Char

/-- The word as an `int`. -/
def Slot.signed (slot : Slot) : ℤ := i32 slot.word.toNat

/-- The word as a `char`. -/
def Slot.char (slot : Slot) : Char := Char.ofNat (slot.word.toNat % 256)

/-- What formatting fails with: a character behind the terminator of the format is read, or the
bound on the turns of a loop is reached. -/
inductive FormatFault where
  | behindFormat
  | exhausted

/-- The characters that were written, the terminator with them, and the return value. -/
structure Written where
  chars : List Char
  returned : ℕ

/-- Characters are written while the position is below a limit. -/
def emitWhile (limit : ℕ) : List Char → List Char → List Char
  | out, [] => out
  | out, c :: text => if out.length < limit then emitWhile limit (out ++ [c]) text else out

/-- The character for a digit, which is only a digit for the numbers from zero to nine. -/
def digit (value : ℤ) : Char := Char.ofNat (48 + value).toNat

/-! ### `snprintf` -/

/-- The digits of a number from the last one on; both operators truncate. -/
def lastDigits : ℕ → ℤ → List Char
  | 0, _ => []
  | rounds + 1, v => if v = 0 then [] else digit (v.tmod 10) :: lastDigits rounds (v.tdiv 10)

def shownDigits (v : ℤ) : List Char := if v = 0 then ['0'] else (lastDigits 15 v).reverse

/-- A number with a sign: the most negative one is its own negation. -/
def signedText (v : ℤ) : List Char :=
  if v < 0 then '-' :: shownDigits (i32 (-v)) else shownDigits v

/-- What a conversion writes, and how many arguments it takes; one that is not known writes nothing
and takes none. -/
def snprintfConvert (size : ℕ) (conv : Char) (slot : Slot) (out : List Char) : List Char × ℕ :=
  if conv = 's' then (emitWhile (size - 1) out slot.text, 1)
  else if conv = 'u' then (emitWhile (size - 1) out (shownDigits slot.word.toNat), 1)
  else if conv = 'd' then (emitWhile (size - 1) out (signedText slot.signed), 1)
  else if conv = 'c' then (out ++ [slot.char], 1)
  else if conv = '%' then (out ++ ['%'], 0)
  else (out, 0)

/-- The loop over the format; behind a percent sign the next character is taken without a look at
it, and the loop goes on behind that. -/
def snprintfLoop (size : ℕ) (slots : ℕ → Slot) :
    List Char → ℕ → List Char → Except FormatFault (List Char)
  | [], _, out => .ok out
  | [c], _, out =>
    if ¬out.length + 1 < size then .ok out
    else if c = '%' then .error .behindFormat
    else .ok (out ++ [c])
  | c :: conv :: format, used, out =>
    if ¬out.length + 1 < size then .ok out
    else if c = '%' then
      let converted := snprintfConvert size conv (slots used) out
      snprintfLoop size slots format (used + converted.2) converted.1
    else snprintfLoop size slots (conv :: format) used (out ++ [c])

def snprintf (size : ℕ) (format : List Char) (slots : ℕ → Slot) : Except FormatFault Written := do
  let out ← snprintfLoop size slots format 0 []
  pure { chars := out ++ ['\x00'], returned := out.length }

/-! ### `vga_format_to_buffer` -/

/-- The next character of the format, which must not be behind the terminator. -/
def advance (p : List Char) : Except FormatFault (List Char) :=
  match p with
  | [] => .error .behindFormat
  | _ :: p => .ok p

/-- The character at the position, which may be the terminator. -/
def current (p : List Char) : Char := p.headD '\x00'

inductive LengthModifier where
  | none
  | long
  | longLong
  | size
deriving DecidableEq

/-- A conversion in front of its last character. -/
structure Specification where
  zeroPad : Bool
  fieldWidth : ℤ
  len : LengthModifier

def scanWidth : List Char → ℤ → ℤ × List Char
  | c :: p, width =>
    if c.isDigit then scanWidth p (i32 (width * 10 + (c.toNat - 48))) else (width, c :: p)
  | [], width => (width, [])

def skipZero (p : List Char) : Except FormatFault (List Char) :=
  if current p = '0' then advance p else pure p

def parseLength (p : List Char) : Except FormatFault (LengthModifier × List Char) :=
  if current p = 'l' then do
    let p ← advance p
    if current p = 'l' then do
      let p ← advance p
      pure (.longLong, p)
    else pure (.long, p)
  else if current p = 'z' then do
    let p ← advance p
    pure (.size, p)
  else pure (.none, p)

/-- What stands between the percent sign and the last character; nothing if the format ends
there. -/
def parseSpecification (p : List Char) :
    Except FormatFault (Option (Specification × List Char)) :=
  if p = [] then pure none
  else do
    let rest ← skipZero p
    let scanned := scanWidth rest 0
    if scanned.2 = [] then pure none
    else do
      let modified ← parseLength scanned.2
      if modified.2 = [] then pure none
      else pure (some (⟨current p = '0', scanned.1, modified.1⟩, modified.2))

/-- The digits of a number in some base from the last one on, at least one and at most some. -/
def countedDigits (base : ℕ) (shown : ℕ → Char) : ℕ → ℕ → List Char
  | 0, _ => []
  | rounds + 1, uv =>
    shown (uv % base) :: if uv / base ≠ 0 then countedDigits base shown rounds (uv / base) else []

def hexDigit (upper : Bool) (d : ℕ) : Char :=
  if d < 10 then Char.ofNat (48 + d)
  else Char.ofNat ((if upper then 65 else 97) + (d - 10))

/-- A sign, zeros up to a width and digits. -/
def emitPadded (limit : ℕ) (sign : List Char) (zeroPad : Bool) (width : ℤ)
    (digits out : List Char) :
    List Char :=
  let pad := if zeroPad then i32 (width - (digits.length + sign.length : ℕ)) else 0
  let out := emitWhile limit out sign
  let out := emitWhile limit out (List.replicate pad.toNat '0')
  emitWhile limit out digits

/-- The digits of a 64-bit number without the zeros at its front. -/
def longHex (upper : Bool) (low high : UInt32) : List Char :=
  let value := high.toNat * 4294967296 + low.toNat
  let digits := (List.range 16).reverse.map fun i ↦ value / 16 ^ i % 16
  ((digits.take 15).dropWhile (· = 0) ++ digits.drop 15).map (hexDigit upper)

/-- What a conversion writes, and how many words it takes. -/
def vgaConvert (limit : ℕ) (specification : Specification) (conv : Char) (slots : ℕ → Slot)
    (used : ℕ) (out : List Char) : List Char × ℕ :=
  let slot := slots used
  let words := if specification.len = .longLong then 2 else 1
  if conv = 's' then
    (emitWhile limit out (if slot.word = 0 then "(null)".toList else slot.text), 1)
  else if conv = 'c' then (out ++ [slot.char], 1)
  else if conv = '%' then (out ++ ['%'], 0)
  else if conv = 'd' ∨ conv = 'i' then
    let v := slot.signed
    let uv := (if v < 0 then i32 (-v) else v) % 4294967296
    let digits := (countedDigits 10 (fun d ↦ digit d) 16 uv.toNat).reverse
    (emitPadded limit (if v < 0 then ['-'] else []) specification.zeroPad specification.fieldWidth
      digits out, words)
  else if conv = 'u' then
    let digits := (countedDigits 10 (fun d ↦ digit d) 16 slot.word.toNat).reverse
    (emitPadded limit [] specification.zeroPad specification.fieldWidth digits out, words)
  else if conv = 'x' ∨ conv = 'X' then
    if specification.len = .longLong then
      (emitWhile limit out (longHex (conv = 'X') slot.word (slots (used + 1)).word), 2)
    else
      let digits := (countedDigits 16 (hexDigit (conv = 'X')) 8 slot.word.toNat).reverse
      (emitPadded limit [] specification.zeroPad (min specification.fieldWidth 8) digits out, 1)
  else if conv = 'p' then
    let digits := (List.range 8).reverse.map fun i ↦ hexDigit false (slot.word.toNat / 16 ^ i % 16)
    (emitWhile limit out ('0' :: 'x' :: digits), 1)
  else (emitWhile limit (out ++ ['%']) [conv], 0)

/-- The loop over the format, with a bound on its turns. -/
def vgaLoop (limit : ℕ) (slots : ℕ → Slot) :
    ℕ → List Char → ℕ → List Char → Except FormatFault (List Char)
  | 0, _, _, _ => .error .exhausted
  | turns + 1, p, used, out =>
    if p = [] ∨ ¬out.length < limit then .ok out
    else if current p ≠ '%' then do
      let rest ← advance p
      vgaLoop limit slots turns rest used (out ++ [current p])
    else do
      let p ← advance p
      match ← parseSpecification p with
      | none => .ok out
      | some (specification, p) => do
        let converted := vgaConvert limit specification (current p) slots used out
        let rest ← advance p
        vgaLoop limit slots turns rest (used + converted.2) converted.1

/-- A turn takes at least one character of the format. -/
def vgaFormatToBuffer (outCap : ℕ) (format : List Char) (slots : ℕ → Slot) :
    Except FormatFault Written := do
  if outCap = 0 then pure { chars := [], returned := 0 }
  else
    let out ← vgaLoop (outCap - 1) slots (format.length + 1) format 0 []
    pure { chars := out ++ ['\x00'], returned := out.length }

/-! ### What the formatters should do -/

def decimal (value : ℤ) : List Char :=
  if value < 0 then '-' :: Nat.toDigits 10 value.natAbs else Nat.toDigits 10 value.natAbs

/-- What the standard has a conversion write, and how many arguments it takes; nothing for other
conversions than those that both formatters share, and for a string that is not there. -/
def standardConvert (conv : Char) (slot : Slot) : Option (List Char × ℕ) :=
  if conv = 's' then if slot.word = 0 then none else some (slot.text, 1)
  else if conv = 'u' then some (decimal slot.word.toNat, 1)
  else if conv = 'd' then some (decimal slot.signed, 1)
  else if conv = 'c' then some ([slot.char], 1)
  else if conv = '%' then some (['%'], 0)
  else none

def standardOutput (slots : ℕ → Slot) : List Char → ℕ → Option (List Char)
  | [], _ => some []
  | [c], _ => if c = '%' then none else some [c]
  | c :: conv :: format, used =>
    if c = '%' then do
      let (text, words) ← standardConvert conv (slots used)
      let rest ← standardOutput slots format (used + words)
      pure (text ++ rest)
    else do
      let rest ← standardOutput slots (conv :: format) used
      pure (c :: rest)

/-- A result writes to places below the capacity only, the last one with the terminator, whose place
it returns. -/
def Bounded (capacity : ℕ) (result : Except FormatFault Written) : Prop :=
  ∃ written, result = .ok written ∧ written.chars.length ≤ capacity ∧
    ∃ text, written = ⟨text ++ ['\x00'], text.length⟩

/-- A result has the part of a text that fits. -/
def Shows (capacity : ℕ) (text : List Char) (result : Except FormatFault Written) : Prop :=
  result = .ok ⟨text.take (capacity - 1) ++ ['\x00'], (text.take (capacity - 1)).length⟩

/-- Both formatters are bounded, and they write what the standard has a common format write. -/
def Formats (capacity : ℕ) (format : List Char) (slots : ℕ → Slot) : Prop :=
  (Bounded capacity (snprintf capacity format slots) ∧
    if capacity = 0 then vgaFormatToBuffer capacity format slots = .ok ⟨[], 0⟩
    else Bounded capacity (vgaFormatToBuffer capacity format slots)) ∧
  ∀ text, standardOutput slots format 0 = some text →
    Shows capacity text (snprintf capacity format slots) ∧
    Shows capacity text (vgaFormatToBuffer capacity format slots)

/-! ### The conditions -/

/-- What a conversion of `snprintf` writes without a limit. -/
def convertedText (conv : Char) (slot : Slot) : List Char × ℕ :=
  if conv = 's' then (slot.text, 1)
  else if conv = 'u' then (shownDigits slot.word.toNat, 1)
  else if conv = 'd' then (signedText slot.signed, 1)
  else if conv = 'c' then ([slot.char], 1)
  else if conv = '%' then (['%'], 0)
  else ([], 0)

/-- No percent sign is the last character of the format, unless there is no room when it comes. -/
def Finished (slots : ℕ → Slot) : List Char → ℕ → ℕ → Prop
  | [], _, _ => True
  | [c], _, room => c = '%' → room = 0
  | c :: conv :: format, used, room =>
    if c = '%' then
      Finished slots format (used + (convertedText conv (slots used)).2)
        (room - (convertedText conv (slots used)).1.length)
    else Finished slots (conv :: format) used (room - 1)

/-- No argument of `%d` is the most negative number, unless there is room for its sign at most. -/
def Negatable (slots : ℕ → Slot) : List Char → ℕ → ℕ → Prop
  | [], _, _ => True
  | [_], _, _ => True
  | c :: conv :: format, used, room =>
    if c = '%' then
      (conv = 'd' ∧ (slots used).word = 2147483648 → room ≤ 1) ∧
      Negatable slots format (used + (convertedText conv (slots used)).2)
        (room - (convertedText conv (slots used)).1.length)
    else Negatable slots (conv :: format) used (room - 1)

/-- What `snprintf` writes without a limit. -/
def convertedOutput (slots : ℕ → Slot) : List Char → ℕ → List Char
  | [], _ => []
  | [c], _ => if c = '%' then [] else [c]
  | c :: conv :: format, used =>
    if c = '%' then
      (convertedText conv (slots used)).1 ++
        convertedOutput slots format (used + (convertedText conv (slots used)).2)
    else c :: convertedOutput slots (conv :: format) used

variable {slots : ℕ → Slot} {format p out text : List Char} {used limit room size : ℕ} {slot : Slot}
  {conv : Char}

/-! ### Writing below a limit -/

theorem emitWhile_eq (limit : ℕ) (out text : List Char) :
    emitWhile limit out text = out ++ text.take (limit - out.length) := by
  induction text generalizing out with
  | nil => rw [emitWhile, List.take_nil, List.append_nil]
  | cons c text ih =>
    rw [emitWhile]
    split_ifs with hroom
    · rw [ih, List.length_append, List.length_singleton, List.append_assoc,
        show limit - out.length = limit - (out.length + 1) + 1 by omega]
      rfl
    · rw [show limit - out.length = 0 by omega, List.take_zero, List.append_nil]

theorem length_emitWhile_le (hout : out.length ≤ limit) :
    (emitWhile limit out text).length ≤ limit := by
  rw [emitWhile_eq, List.length_append, List.length_take]
  omega

theorem emitWhile_append (limit : ℕ) (out first second : List Char) :
    emitWhile limit (emitWhile limit out first) second = emitWhile limit out (first ++ second) := by
  rw [emitWhile_eq, emitWhile_eq, emitWhile_eq, List.append_assoc, List.take_append,
    List.length_append, List.length_take]
  congr 3
  omega

theorem append_eq_emitWhile {c : Char} (hroom : out.length < limit) :
    out ++ [c] = emitWhile limit out [c] := by
  rw [emitWhile, if_pos hroom]
  rfl

/-! ### Numerals -/

theorem digit_eq {d : ℕ} (hd : d < 10) : digit d = d.digitChar := by
  rcases (show d = 0 ∨ d = 1 ∨ d = 2 ∨ d = 3 ∨ d = 4 ∨ d = 5 ∨ d = 6 ∨ d = 7 ∨ d = 8 ∨
    d = 9 by omega)
    with rfl | rfl | rfl | rfl | rfl | rfl | rfl | rfl | rfl | rfl <;> decide

/-- The digits of a number that is not negative, each counted down by a power of ten. -/
theorem reverse_lastDigits {rounds value : ℕ} (hpositive : 0 < value)
    (hvalue : value < 10 ^ rounds) :
    (lastDigits rounds value).reverse = Nat.toDigits 10 value := by
  induction rounds generalizing value with
  | zero => omega
  | succ rounds ih =>
    rw [lastDigits, if_neg (by omega), List.reverse_cons, Nat.toDigits_eq_if (by decide)]
    have hdigit : ((value : ℤ).tmod 10) = ((value % 10 : ℕ) : ℤ) := rfl
    have hrest : ((value : ℤ).tdiv 10) = ((value / 10 : ℕ) : ℤ) := rfl
    rw [hdigit, hrest, digit_eq (Nat.mod_lt value (by decide))]
    split_ifs with hsmall
    · rw [Nat.div_eq_of_lt hsmall, Nat.mod_eq_of_lt hsmall]
      cases rounds <;> rfl
    · rw [ih (by omega) (by rw [Nat.pow_succ] at hvalue; omega)]

theorem shownDigits_eq {value : ℕ} (hvalue : value < 10 ^ 15) :
    shownDigits value = Nat.toDigits 10 value := by
  unfold shownDigits
  rcases Nat.eq_zero_or_pos value with rfl | hpositive
  · rfl
  · rw [if_neg (by omega), reverse_lastDigits hpositive hvalue]

theorem reverse_countedDigits {rounds value : ℕ} (hvalue : value < 10 ^ (rounds + 1)) :
    (countedDigits 10 (fun d ↦ digit d) (rounds + 1) value).reverse = Nat.toDigits 10 value := by
  induction rounds generalizing value with
  | zero =>
    rw [countedDigits, Nat.div_eq_of_lt (by omega), Nat.mod_eq_of_lt (by omega),
      if_neg (by omega), digit_eq (by omega), Nat.toDigits_of_lt_base (by omega)]
    rfl
  | succ rounds ih =>
    rw [countedDigits, List.reverse_cons, digit_eq (Nat.mod_lt value (by decide)),
      Nat.toDigits_eq_if (by decide)]
    split_ifs with hlarge hsmall hsmall
    · exact absurd (Nat.div_eq_of_lt hsmall) hlarge
    · rw [ih (by rw [Nat.pow_succ] at hvalue; omega)]
    · rw [Nat.mod_eq_of_lt hsmall]
      rfl
    · exact absurd (Nat.div_eq_zero_iff.mp (not_not.mp hlarge)) (by omega)

theorem Slot.isInt32_signed (slot : Slot) : IsInt32 slot.signed := isInt32_i32 _

theorem Slot.signed_eq_min_iff : slot.signed = -2147483648 ↔ slot.word = 2147483648 := by
  have hword := slot.word.toNat_lt
  unfold Slot.signed
  rw [i32_eq, ← UInt32.toNat_inj]
  change _ ↔ slot.word.toNat = 2147483648
  split_ifs <;> omega

/-- A number that is not the most negative one is written as it should be. -/
theorem signedText_eq {value : ℤ} (hvalue : IsInt32 value) (hmin : value ≠ -2147483648) :
    signedText value = decimal value := by
  unfold IsInt32 at hvalue
  unfold signedText decimal
  split_ifs with hnegative
  · rw [i32_of_isInt32 ⟨by omega, by omega⟩, show -value = (value.natAbs : ℤ) by omega,
      shownDigits_eq (by omega)]
  · rw [show value = (value.natAbs : ℤ) by omega, shownDigits_eq (by omega), Int.natAbs_natCast]

/-! ### `snprintf` -/

theorem snprintfConvert_eq (conv : Char) (slot : Slot) (hroom : out.length + 1 < size) :
    snprintfConvert size conv slot out =
      (emitWhile (size - 1) out (convertedText conv slot).1, (convertedText conv slot).2) := by
  have hless : out.length < size - 1 := by omega
  unfold snprintfConvert convertedText
  split_ifs
  · dsimp only
  · dsimp only
  · dsimp only
  · rw [append_eq_emitWhile hless]
  · rw [append_eq_emitWhile hless]
  · rw [emitWhile]

theorem finished_zero (slots : ℕ → Slot) (format : List Char) (used : ℕ) :
    Finished slots format used 0 := by
  generalize hroom : 0 = room
  fun_induction Finished slots format used room with
  | case1 => trivial
  | case2 => exact fun _ ↦ hroom.symm
  | case3 _ _ _ _ ih => exact ih (by omega)
  | case4 _ _ _ _ _ _ ih => exact ih (by omega)

/-- The loop writes the part that fits, or reads behind the format. -/
theorem snprintfLoop_eq (hsize : 0 < size) (hout : out.length ≤ size - 1) :
    (Finished slots format used (size - 1 - out.length) →
      snprintfLoop size slots format used out =
        .ok (emitWhile (size - 1) out (convertedOutput slots format used))) ∧
    (¬Finished slots format used (size - 1 - out.length) →
      snprintfLoop size slots format used out = .error .behindFormat) := by
  have hfull : ∀ {format : List Char} {out : List Char} {used : ℕ}, ¬out.length + 1 < size →
      Finished slots format used (size - 1 - out.length) ∧
        out = emitWhile (size - 1) out (convertedOutput slots format used) := by
    intro format out used hroom
    rw [emitWhile_eq, show size - 1 - out.length = 0 by omega, List.take_zero, List.append_nil]
    exact ⟨finished_zero slots format used, rfl⟩
  fun_induction snprintfLoop size slots format used out with
  | case1 used out => exact ⟨fun _ ↦ rfl, fun hnot ↦ absurd trivial hnot⟩
  | case2 c used out hroom =>
    obtain ⟨hfinished, hsame⟩ := @hfull [c] out used hroom
    exact ⟨fun _ ↦ congrArg _ hsame, fun hnot ↦ absurd hfinished hnot⟩
  | case3 used out hroom =>
    refine ⟨fun hfinished ↦ ?_, fun _ ↦ rfl⟩
    have := hfinished rfl
    omega
  | case4 c used out hroom hc =>
    refine ⟨fun _ ↦ ?_, fun hnot ↦ absurd (fun hpercent ↦ absurd hpercent hc) hnot⟩
    rw [convertedOutput, if_neg hc, append_eq_emitWhile (show out.length < size - 1 by omega)]
  | case5 c conv format used out hroom =>
    obtain ⟨hfinished, hsame⟩ := @hfull (c :: conv :: format) out used hroom
    exact ⟨fun _ ↦ congrArg _ hsame, fun hnot ↦ absurd hfinished hnot⟩
  | case6 conv format used out hroom converted ih =>
    have hconverted : converted = _ := snprintfConvert_eq conv (slots used) (not_not.mp hroom)
    have hlength : size - 1 - converted.1.length =
        size - 1 - out.length - (convertedText conv (slots used)).1.length := by
      rw [hconverted]
      dsimp only
      rw [emitWhile_eq, List.length_append, List.length_take]
      omega
    rw [Finished, if_pos rfl, convertedOutput, if_pos rfl, ← emitWhile_append]
    have hbound : converted.1.length ≤ size - 1 := by
      rw [hconverted]
      exact length_emitWhile_le hout
    have hnext := ih hbound
    rw [hlength] at hnext
    rw [hconverted] at hnext ⊢
    exact hnext
  | case7 c conv format used out hroom hc ih =>
    rw [Finished, if_neg hc, convertedOutput, if_neg hc]
    have hless : out.length < size - 1 := by omega
    have hnext := ih (by rw [List.length_append, List.length_singleton]; omega)
    rw [List.length_append, List.length_singleton,
      show size - 1 - (out.length + 1) = size - 1 - out.length - 1 by omega,
      append_eq_emitWhile hless, emitWhile_append] at hnext
    rw [append_eq_emitWhile hless]
    exact hnext

/-- `snprintf` is bounded exactly if there is a place for the terminator and the format is not left
behind. -/
theorem snprintf_bounded_iff : Bounded size (snprintf size format slots) ↔
    0 < size ∧ Finished slots format 0 (size - 1) := by
  rcases Nat.eq_zero_or_pos size with rfl | hsize
  · refine iff_of_false ?_ fun hpositive ↦ Nat.lt_irrefl 0 hpositive.1
    rintro ⟨written, -, hlength, text, rfl⟩
    dsimp only at hlength
    rw [List.length_append, List.length_singleton] at hlength
    omega
  · obtain ⟨hfinished, hbehind⟩ := @snprintfLoop_eq slots format [] 0 size hsize (Nat.zero_le _)
    unfold snprintf
    constructor
    · rintro ⟨written, hwritten, -⟩
      refine ⟨hsize, ?_⟩
      by_contra hnot
      rw [hbehind hnot] at hwritten
      cases hwritten
    · rintro ⟨-, hformat⟩
      rw [hfinished hformat]
      refine ⟨_, rfl, ?_, _, rfl⟩
      dsimp only
      have := @length_emitWhile_le [] (convertedOutput slots format 0) (size - 1) (Nat.zero_le _)
      rw [List.length_append, List.length_singleton]
      omega

/-! ### The output of the standard -/

/-- A conversion that the standard knows takes the arguments that `snprintf` takes and writes as
many characters, and the same ones except for the most negative number. -/
theorem convertedText_of_standard {words : ℕ}
    (hstandard : standardConvert conv slot = some (text, words)) :
    (convertedText conv slot).2 = words ∧ (convertedText conv slot).1.length = text.length ∧
      ∀ room, (convertedText conv slot).1.take room = text.take room ↔
        (conv = 'd' ∧ slot.word = 2147483648 → room ≤ 1) := by
  have hsame : ∀ {count : ℕ}, convertedText conv slot = (text, count) → count = words →
      ¬(conv = 'd' ∧ slot.word = 2147483648) → _ := fun heq hcount hnot ↦
    (show (convertedText conv slot).2 = words ∧
      (convertedText conv slot).1.length = text.length ∧
      ∀ room, (convertedText conv slot).1.take room = text.take room ↔
        (conv = 'd' ∧ slot.word = 2147483648 → room ≤ 1) from
      ⟨by rw [heq, hcount], by rw [heq], fun room ↦
        iff_of_true (by rw [heq]) fun hmin ↦ absurd hmin hnot⟩)
  unfold standardConvert at hstandard
  by_cases hs : conv = 's'
  · subst hs
    rw [if_pos rfl] at hstandard
    split_ifs at hstandard
    obtain ⟨rfl, rfl⟩ := Prod.mk.inj (Option.some.inj hstandard)
    exact hsame rfl rfl (by simp)
  rw [if_neg hs] at hstandard
  by_cases hu : conv = 'u'
  · subst hu
    rw [if_pos rfl] at hstandard
    obtain ⟨rfl, rfl⟩ := Prod.mk.inj (Option.some.inj hstandard)
    have hword := slot.word.toNat_lt
    have hconverted : convertedText 'u' slot = (shownDigits slot.word.toNat, 1) := rfl
    have hdecimal : decimal slot.word.toNat = Nat.toDigits 10 slot.word.toNat := by
      unfold decimal
      rw [if_neg (by omega), Int.natAbs_natCast]
    refine hsame ?_ rfl (by simp)
    rw [hconverted, shownDigits_eq (by omega), hdecimal]
  rw [if_neg hu] at hstandard
  by_cases hd : conv = 'd'
  · subst hd
    rw [if_pos rfl] at hstandard
    obtain ⟨rfl, rfl⟩ := Prod.mk.inj (Option.some.inj hstandard)
    have hconverted : convertedText 'd' slot = (signedText slot.signed, 1) := rfl
    by_cases hmin : slot.word = 2147483648
    · rw [hconverted, slot.signed_eq_min_iff.mpr hmin]
      have hwrong : signedText (-2147483648) =
          ['-', '.', '/', ',', ')', ',', '(', '-', '*', ',', '('] := by decide
      have hright : decimal (-2147483648) =
          ['-', '2', '1', '4', '7', '4', '8', '3', '6', '4', '8'] := by decide
      rw [hwrong, hright]
      refine ⟨rfl, rfl, fun room ↦ ?_⟩
      rcases room with _ | _ | room
      · exact iff_of_true rfl fun _ ↦ Nat.zero_le 1
      · exact iff_of_true rfl fun _ ↦ Nat.le_refl 1
      · refine iff_of_false (fun heq ↦ ?_) fun hroom ↦ ?_
        · exact absurd (List.cons.inj (List.cons.inj heq).2).1 (by decide)
        · exact absurd (hroom ⟨rfl, hmin⟩) (by omega)
    · refine hsame ?_ rfl fun hboth ↦ hmin hboth.2
      rw [hconverted, signedText_eq slot.isInt32_signed fun hsigned ↦
        hmin (slot.signed_eq_min_iff.mp hsigned)]
  rw [if_neg hd] at hstandard
  by_cases hc : conv = 'c'
  · subst hc
    rw [if_pos rfl] at hstandard
    obtain ⟨rfl, rfl⟩ := Prod.mk.inj (Option.some.inj hstandard)
    exact hsame rfl rfl (by simp)
  rw [if_neg hc] at hstandard
  by_cases hpercent : conv = '%'
  · subst hpercent
    rw [if_pos rfl] at hstandard
    obtain ⟨rfl, rfl⟩ := Prod.mk.inj (Option.some.inj hstandard)
    exact hsame rfl rfl (by simp)
  · rw [if_neg hpercent] at hstandard
    cases hstandard

/-- A format that the standard knows is not left behind, and what is written is the same exactly
where no most negative number is. -/
theorem convertedOutput_of_standard (hstandard : standardOutput slots format used = some text)
    (room : ℕ) : Finished slots format used room ∧
      ((convertedOutput slots format used).take room = text.take room ↔
        Negatable slots format used room) := by
  fun_induction standardOutput slots format used generalizing text room with
  | case1 =>
    obtain rfl := Option.some.inj hstandard
    exact ⟨trivial, iff_of_true rfl trivial⟩
  | case2 => cases hstandard
  | case3 c used hc =>
    obtain rfl := Option.some.inj hstandard
    refine ⟨fun hpercent ↦ absurd hpercent hc, ?_⟩
    rw [convertedOutput, if_neg hc]
    exact iff_of_true rfl trivial
  | case4 conv format used ih =>
    obtain ⟨⟨front, words⟩, hfront, hbehind⟩ := Option.bind_eq_some_iff.mp hstandard
    obtain ⟨rest, hrest, heq⟩ := Option.bind_eq_some_iff.mp hbehind
    obtain rfl := Option.some.inj heq
    obtain ⟨rfl, hlength, hsame⟩ := convertedText_of_standard hfront
    obtain ⟨hfinished, hlater⟩ := ih _ hrest
      (room - (convertedText conv (slots used)).1.length)
    rw [Finished, if_pos rfl, Negatable, if_pos rfl, convertedOutput, if_pos rfl]
    refine ⟨hfinished, ?_⟩
    rw [List.take_append, List.take_append, ← hsame room, ← hlater, hlength]
    constructor
    · intro heq
      exact List.append_inj heq (by rw [List.length_take, List.length_take, hlength])
    · rintro ⟨hfirst, hsecond⟩
      rw [hfirst, hsecond]
  | case5 c conv format used hc ih =>
    obtain ⟨rest, hrest, heq⟩ := Option.bind_eq_some_iff.mp hstandard
    obtain rfl := Option.some.inj heq
    obtain ⟨hfinished, hlater⟩ := ih hrest (room - 1)
    rw [Finished, if_neg hc, Negatable, if_neg hc, convertedOutput, if_neg hc]
    refine ⟨hfinished, ?_⟩
    cases room with
    | zero =>
      rw [Nat.zero_sub] at hlater
      refine iff_of_true rfl (hlater.mp ?_)
      rw [List.take_zero, List.take_zero]
    | succ room =>
      rw [List.take_succ_cons, List.take_succ_cons, ← hlater]
      exact ⟨fun heq ↦ (List.cons.inj heq).2, congrArg _⟩

/-- `snprintf` shows what the standard asks for exactly where no most negative number is. -/
theorem snprintf_shows_iff (hsize : 0 < size)
    (hstandard : standardOutput slots format 0 = some text) :
    Shows size text (snprintf size format slots) ↔ Negatable slots format 0 (size - 1) := by
  obtain ⟨hfinished, hsame⟩ := convertedOutput_of_standard hstandard (size - 1)
  obtain ⟨hwritten, -⟩ := @snprintfLoop_eq slots format [] 0 size hsize (Nat.zero_le _)
  have hresult : snprintf size format slots =
      .ok ⟨(convertedOutput slots format 0).take (size - 1) ++ ['\x00'],
        ((convertedOutput slots format 0).take (size - 1)).length⟩ := by
    unfold snprintf
    rw [hwritten hfinished, emitWhile_eq]
    rfl
  rw [← hsame, Shows, hresult]
  constructor
  · intro heq
    have hchars := congrArg Written.chars (Except.ok.inj heq)
    exact List.append_cancel_right hchars
  · intro heq
    rw [heq]

/-! ### `vga_format_to_buffer` -/

theorem advance_of_ne_nil (hp : p ≠ []) : advance p = .ok p.tail := by
  cases p with
  | nil => exact absurd rfl hp
  | cons c p => rfl

theorem ne_nil_of_current {c : Char} (hcurrent : current p = c) (hc : c ≠ '\x00') : p ≠ [] := by
  rintro rfl
  exact hc hcurrent.symm

theorem length_scanWidth_le (p : List Char) (width : ℤ) :
    (scanWidth p width).2.length ≤ p.length := by
  fun_induction scanWidth p width with
  | case1 c p width hdigit ih =>
    rw [List.length_cons]
    omega
  | case2 => exact Nat.le_refl _
  | case3 => exact Nat.le_refl _

/-- A step over a character that is not the terminator. -/
theorem advance_of_current {c : Char} (hcurrent : current p = c) (hc : c ≠ '\x00') :
    ∃ rest, advance p = .ok rest ∧ rest.length + 1 = p.length := by
  have hp := ne_nil_of_current hcurrent hc
  refine ⟨p.tail, advance_of_ne_nil hp, ?_⟩
  rw [List.length_tail]
  have := List.length_pos_iff.mpr hp
  omega

theorem parseLength_within (p : List Char) :
    ∃ len rest, parseLength p = .ok (len, rest) ∧ rest.length ≤ p.length := by
  unfold parseLength
  split_ifs with hl hz
  · obtain ⟨rest, hrest, hlength⟩ := advance_of_current hl (by decide)
    rw [hrest]
    by_cases hsecond : current rest = 'l'
    · obtain ⟨behind, hbehind, hshorter⟩ := advance_of_current hsecond (by decide)
      refine ⟨.longLong, behind, ?_, by omega⟩
      change (if current rest = 'l' then _ else _) = _
      rw [if_pos hsecond, hbehind]
      rfl
    · refine ⟨.long, rest, ?_, by omega⟩
      change (if current rest = 'l' then _ else _) = _
      rw [if_neg hsecond]
      rfl
  · obtain ⟨rest, hrest, hlength⟩ := advance_of_current hz (by decide)
    refine ⟨.size, rest, ?_, by omega⟩
    rw [hrest]
    rfl
  · exact ⟨.none, p, rfl, Nat.le_refl _⟩

/-- What stands in front of the last character is read within the format, and a last character that
is found is not the terminator. -/
theorem parseSpecification_within (p : List Char) :
    ∃ found, parseSpecification p = .ok found ∧
      ∀ specification rest, found = some (specification, rest) →
        rest ≠ [] ∧ rest.length ≤ p.length := by
  have hnone : ∀ specification rest, (none : Option (Specification × List Char)) =
      some (specification, rest) → rest ≠ [] ∧ rest.length ≤ p.length := fun _ _ heq ↦ by cases heq
  unfold parseSpecification
  by_cases hp : p = []
  · rw [if_pos hp]
    exact ⟨none, rfl, hnone⟩
  rw [if_neg hp]
  obtain ⟨first, hfirst, hshorter⟩ : ∃ first, skipZero p = .ok first ∧ first.length ≤ p.length := by
    unfold skipZero
    split_ifs with hzero
    · obtain ⟨rest, hrest, hlength⟩ := advance_of_current hzero (by decide)
      exact ⟨rest, hrest, by omega⟩
    · exact ⟨p, rfl, Nat.le_refl _⟩
  rw [hfirst]
  have hscanned := length_scanWidth_le first 0
  change ∃ found, (if (scanWidth first 0).2 = [] then _ else _) = _ ∧ _
  by_cases hend : (scanWidth first 0).2 = []
  · rw [if_pos hend]
    exact ⟨none, rfl, hnone⟩
  rw [if_neg hend]
  obtain ⟨len, rest, hmodified, hlength⟩ := parseLength_within (scanWidth first 0).2
  rw [hmodified]
  change ∃ found, (if rest = [] then _ else _) = _ ∧ _
  by_cases hlast : rest = []
  · rw [if_pos hlast]
    exact ⟨none, rfl, hnone⟩
  · rw [if_neg hlast]
    refine ⟨_, rfl, fun specification behind heq ↦ ?_⟩
    obtain ⟨-, rfl⟩ := Prod.mk.inj (Option.some.inj heq)
    exact ⟨hlast, hlength.trans (hscanned.trans hshorter)⟩

theorem length_emitPadded_le {sign digits : List Char} {zeroPad : Bool} {width : ℤ}
    (hout : out.length ≤ limit) :
    (emitPadded limit sign zeroPad width digits out).length ≤ limit :=
  length_emitWhile_le (length_emitWhile_le (length_emitWhile_le hout))

/-- Every conversion stays below the limit. -/
theorem length_vgaConvert_le (specification : Specification) (conv : Char) (slots : ℕ → Slot)
    (used : ℕ) (hout : out.length < limit) :
    (vgaConvert limit specification conv slots used out).1.length ≤ limit := by
  have hone : ∀ c : Char, (out ++ [c]).length ≤ limit := by
    intro c
    rw [List.length_append, List.length_singleton]
    exact hout
  unfold vgaConvert
  dsimp only
  split_ifs
  all_goals first
    | exact hone _
    | exact length_emitPadded_le hout.le
    | exact length_emitWhile_le hout.le
    | exact length_emitWhile_le (hone _)

/-- The loop ends within as many turns as the format has characters, below the limit. -/
theorem vgaLoop_bounded {turns : ℕ} (hturns : p.length < turns) (hout : out.length ≤ limit) :
    ∃ written, vgaLoop limit slots turns p used out = .ok written ∧ written.length ≤ limit := by
  induction turns generalizing p used out with
  | zero => omega
  | succ turns ih =>
    rw [vgaLoop]
    by_cases hend : p = [] ∨ ¬out.length < limit
    · rw [if_pos hend]
      exact ⟨out, rfl, hout⟩
    rw [if_neg hend]
    obtain ⟨hp, hroom⟩ := not_or.mp hend
    have hshorter : p.tail.length < turns := by
      rw [List.length_tail]
      have := List.length_pos_iff.mpr hp
      omega
    rw [advance_of_ne_nil hp]
    by_cases hplain : current p ≠ '%'
    · rw [if_pos hplain]
      refine ih hshorter ?_
      rw [List.length_append, List.length_singleton]
      omega
    · rw [if_neg hplain]
      obtain ⟨found, hfound, hwithin⟩ := parseSpecification_within p.tail
      change ∃ written, (parseSpecification p.tail >>= _) = _ ∧ _
      rw [hfound]
      rcases found with _ | ⟨specification, rest⟩
      · exact ⟨out, rfl, hout⟩
      · obtain ⟨hrest, hlength⟩ := hwithin specification rest rfl
        have hfewer : rest.tail.length < turns := by
          rw [List.length_tail]
          omega
        change ∃ written, (advance rest >>= _) = _ ∧ _
        rw [advance_of_ne_nil hrest]
        exact ih hfewer (length_vgaConvert_le specification _ slots used (not_not.mp hroom))

/-- A last character directly behind the percent sign. -/
theorem parseSpecification_standard (hstandard : standardConvert conv slot ≠ none) :
    parseSpecification (conv :: format) = .ok (some (⟨false, 0, .none⟩, conv :: format)) := by
  have hconv : conv = 's' ∨ conv = 'u' ∨ conv = 'd' ∨ conv = 'c' ∨ conv = '%' := by
    by_contra hnot
    obtain ⟨hs, hu, hd, hc, hpercent⟩ :
        conv ≠ 's' ∧ conv ≠ 'u' ∧ conv ≠ 'd' ∧ conv ≠ 'c' ∧ conv ≠ '%' := by tauto
    refine hstandard ?_
    rw [standardConvert, if_neg hs, if_neg hu, if_neg hd, if_neg hc, if_neg hpercent]
  rcases hconv with rfl | rfl | rfl | rfl | rfl <;> rfl

/-- A number without a width is its sign and its digits. -/
theorem emitPadded_unpadded (limit : ℕ) (sign digits out : List Char) :
    emitPadded limit sign false 0 digits out = emitWhile limit out (sign ++ digits) :=
  emitWhile_append limit out sign digits

/-- A conversion that the standard knows is written as it should be, for the most negative number as
well. -/
theorem vgaConvert_standard {words : ℕ} (hroom : out.length < limit)
    (hstandard : standardConvert conv (slots used) = some (text, words)) :
    vgaConvert limit ⟨false, 0, .none⟩ conv slots used out = (emitWhile limit out text, words) := by
  unfold standardConvert at hstandard
  by_cases hs : conv = 's'
  · subst hs
    rw [if_pos rfl] at hstandard
    split_ifs at hstandard with hnull
    obtain ⟨rfl, rfl⟩ := Prod.mk.inj (Option.some.inj hstandard)
    change (emitWhile limit out (if (slots used).word = 0 then _ else _), 1) = _
    rw [if_neg hnull]
  rw [if_neg hs] at hstandard
  by_cases hu : conv = 'u'
  · subst hu
    rw [if_pos rfl] at hstandard
    obtain ⟨rfl, rfl⟩ := Prod.mk.inj (Option.some.inj hstandard)
    have hword := (slots used).word.toNat_lt
    have hdecimal : decimal (slots used).word.toNat = Nat.toDigits 10 (slots used).word.toNat := by
      unfold decimal
      rw [if_neg (by omega), Int.natAbs_natCast]
    unfold vgaConvert
    dsimp only
    rw [if_neg (by decide), if_neg (by decide), if_neg (by decide), if_neg (by decide), if_pos rfl,
      if_neg (by decide), reverse_countedDigits (by omega), emitPadded_unpadded, hdecimal,
      List.nil_append]
  rw [if_neg hu] at hstandard
  by_cases hd : conv = 'd'
  · subst hd
    rw [if_pos rfl] at hstandard
    obtain ⟨rfl, rfl⟩ := Prod.mk.inj (Option.some.inj hstandard)
    obtain ⟨hlow, hhigh⟩ := (slots used).isInt32_signed
    unfold vgaConvert
    dsimp only
    have hwords : (if LengthModifier.none = .longLong then 2 else 1) = 1 := if_neg (by decide)
    rw [if_neg (by decide), if_neg (by decide), if_neg (by decide), if_pos (Or.inl rfl), hwords]
    generalize (slots used).signed = v at hlow hhigh
    have hmagnitude :
        ((if v < 0 then i32 (-v) else v) % 4294967296).toNat = v.natAbs := by
      rw [i32_eq]
      split_ifs <;> omega
    rw [hmagnitude, reverse_countedDigits (by omega), emitPadded_unpadded, decimal]
    split_ifs
    · rw [List.singleton_append]
    · rw [List.nil_append]
  rw [if_neg hd] at hstandard
  by_cases hc : conv = 'c'
  · subst hc
    rw [if_pos rfl] at hstandard
    obtain ⟨rfl, rfl⟩ := Prod.mk.inj (Option.some.inj hstandard)
    rw [← append_eq_emitWhile hroom]
    rfl
  rw [if_neg hc] at hstandard
  by_cases hpercent : conv = '%'
  · subst hpercent
    rw [if_pos rfl] at hstandard
    obtain ⟨rfl, rfl⟩ := Prod.mk.inj (Option.some.inj hstandard)
    rw [← append_eq_emitWhile hroom]
    rfl
  · rw [if_neg hpercent] at hstandard
    cases hstandard

/-- The loop writes the part that fits of what the standard asks for. -/
theorem vgaLoop_standard {turns : ℕ} (hstandard : standardOutput slots p used = some text)
    (hturns : p.length < turns) (hout : out.length ≤ limit) :
    vgaLoop limit slots turns p used out = .ok (emitWhile limit out text) := by
  induction turns generalizing p used out text with
  | zero => omega
  | succ turns ih =>
    rw [vgaLoop]
    by_cases hroom : out.length < limit
    swap
    · rw [if_pos (Or.inr hroom), emitWhile_eq, show limit - out.length = 0 by omega, List.take_zero,
        List.append_nil]
    have hone : ∀ c : Char, (out ++ [c]).length ≤ limit := by
      intro c
      rw [List.length_append, List.length_singleton]
      exact hroom
    rcases p with _ | ⟨c, p⟩
    · rw [if_pos (Or.inl rfl)]
      obtain rfl := Option.some.inj hstandard
      rfl
    rw [if_neg (by simp [hroom]), show current (c :: p) = c from rfl]
    rw [List.length_cons] at hturns
    by_cases hc : c = '%'
    swap
    · rw [if_pos hc]
      obtain ⟨rest, hrest, rfl⟩ : ∃ rest, standardOutput slots p used = some rest ∧
          text = c :: rest := by
        rcases p with _ | ⟨conv, p⟩
        · rw [standardOutput, if_neg hc] at hstandard
          obtain rfl := Option.some.inj hstandard
          exact ⟨[], rfl, rfl⟩
        · rw [standardOutput, if_neg hc] at hstandard
          obtain ⟨rest, hrest, heq⟩ := Option.bind_eq_some_iff.mp hstandard
          exact ⟨rest, hrest, (Option.some.inj heq).symm⟩
      change vgaLoop limit slots turns p used (out ++ [c]) = _
      rw [ih hrest (by omega) (hone c), append_eq_emitWhile hroom, emitWhile_append]
      rfl
    · subst hc
      rw [if_neg (not_not.mpr rfl)]
      rcases p with _ | ⟨conv, p⟩
      · cases hstandard
      rw [standardOutput, if_pos rfl] at hstandard
      obtain ⟨⟨front, words⟩, hfront, hbehind⟩ := Option.bind_eq_some_iff.mp hstandard
      obtain ⟨rest, hrest, heq⟩ := Option.bind_eq_some_iff.mp hbehind
      obtain rfl := Option.some.inj heq
      have hknown : standardConvert conv (slots used) ≠ none := by
        rw [hfront]
        exact Option.some_ne_none _
      change (parseSpecification (conv :: p) >>= _) = _
      rw [parseSpecification_standard hknown]
      change vgaLoop limit slots turns p
        (used + (vgaConvert limit ⟨false, 0, .none⟩ conv slots used out).2)
        (vgaConvert limit ⟨false, 0, .none⟩ conv slots used out).1 = _
      rw [List.length_cons] at hturns
      rw [vgaConvert_standard hroom hfront,
        ih hrest (by omega) (length_emitWhile_le hout), emitWhile_append]

/-- `vga_format_to_buffer` is bounded for every format. -/
theorem vgaFormatToBuffer_bounded {outCap : ℕ} (format : List Char) (slots : ℕ → Slot)
    (hcapacity : 0 < outCap) : Bounded outCap (vgaFormatToBuffer outCap format slots) := by
  obtain ⟨written, hwritten, hlength⟩ := @vgaLoop_bounded slots format [] 0 (outCap - 1)
    (format.length + 1) (by omega) (Nat.zero_le _)
  unfold vgaFormatToBuffer
  rw [if_neg (by omega), hwritten]
  refine ⟨_, rfl, ?_, written, rfl⟩
  dsimp only
  rw [List.length_append, List.length_singleton]
  omega

/-- `vga_format_to_buffer` shows what the standard asks for. -/
theorem vgaFormatToBuffer_shows {outCap : ℕ} (hcapacity : 0 < outCap)
    (hstandard : standardOutput slots format 0 = some text) :
    Shows outCap text (vgaFormatToBuffer outCap format slots) := by
  unfold Shows vgaFormatToBuffer
  rw [if_neg (by omega), vgaLoop_standard hstandard (by omega) (Nat.zero_le _), emitWhile_eq]
  rfl

/-! ### When the formatters agree -/

/-- Both formatters are bounded and agree with the standard exactly if there is a place for the
terminator, no percent sign is left at the end of the format where there is room, and no `%d` gets
the most negative number where there is room for its digits. -/
theorem formatters_iff (capacity : ℕ) (format : List Char) (slots : ℕ → Slot) :
    Formats capacity format slots ↔
      0 < capacity ∧ Finished slots format 0 (capacity - 1) ∧
        ((standardOutput slots format 0).isSome → Negatable slots format 0 (capacity - 1)) := by
  constructor
  · rintro ⟨⟨hbounded, -⟩, hshows⟩
    obtain ⟨hcapacity, hfinished⟩ := snprintf_bounded_iff.mp hbounded
    refine ⟨hcapacity, hfinished, fun hsome ↦ ?_⟩
    obtain ⟨text, htext⟩ := Option.isSome_iff_exists.mp hsome
    exact (snprintf_shows_iff hcapacity htext).mp (hshows text htext).1
  · rintro ⟨hcapacity, hfinished, hnegatable⟩
    refine ⟨⟨snprintf_bounded_iff.mpr ⟨hcapacity, hfinished⟩, ?_⟩, fun text htext ↦ ⟨?_, ?_⟩⟩
    · rw [if_neg (by omega)]
      exact vgaFormatToBuffer_bounded format slots hcapacity
    · refine (snprintf_shows_iff hcapacity htext).mpr (hnegatable ?_)
      rw [htext]
      rfl
    · exact vgaFormatToBuffer_shows hcapacity htext

/-- A percent sign that ends the format has `snprintf` read behind the terminator. -/
theorem snprintf_reads_behind :
    ¬Formats 16 ['5', '%'] (fun _ ↦ ⟨0, []⟩) := by
  rintro ⟨⟨⟨written, hwritten, -⟩, -⟩, -⟩
  have hbehind : snprintf 16 ['5', '%'] (fun _ ↦ ⟨0, []⟩) = .error .behindFormat := rfl
  rw [hbehind] at hwritten
  cases hwritten

end EynOS.Utilities
