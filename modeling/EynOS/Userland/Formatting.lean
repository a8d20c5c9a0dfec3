import EynOS.Foundation.MachineWord
import EynOS.Foundation.Writing

/-!
# Formatting into a bounded buffer

`vsnprintf` of the C library's `stdio.c`. `vsnprintf_iff`: what it writes and returns is what a
buffer without a bound would hold, cut off at the size of the buffer, exactly where that has less
than `2 ^ 31` bytes.

The function only writes through `snbuf_putc`, so that its model is for any sink that takes bytes;
the buffer with its size and position is one, and the list of everything written another. The words
that `va_arg` takes are 32 bits wide, a `long` and a pointer among them. A string is in one region
of the user's address space, so that its length is an `int`.
-/

namespace EynOS.Userland

open Foundation

/-! ### Arguments -/

/-- A string that a pointer leads to, up to its NUL. -/
structure ArgumentString where
  bytes : List UInt8
  noNul : 0 ∉ bytes
  fits : bytes.length < 2147483648

/-- The words of a `va_list`, and the strings that pointers lead to. -/
structure Arguments where
  words : ℕ → UInt32
  strings : UInt32 → ArgumentString

/-- `va_arg(ap, int)`. -/
def Arguments.int (arguments : Arguments) (next : ℕ) : ℤ := i32 (arguments.words next).toNat

/-- The bytes of `(null)`. -/
def nullText : List UInt8 := [40, 110, 117, 108, 108, 41]

/-- The string of `va_arg(ap, const char*)`. -/
def Arguments.string (arguments : Arguments) (next : ℕ) : List UInt8 :=
  if arguments.words next = 0 then nullText else (arguments.strings (arguments.words next)).bytes

/-! ### Directives -/

/-- What is read between a percent sign and the character of a conversion. -/
structure Directive where
  leftAlign : Bool
  zeroPad : Bool
  forceSign : Bool
  width : ℤ
  precision : ℤ
  isLong : Bool
  deriving DecidableEq

def parseFlags : List UInt8 → Directive → Directive × List UInt8
  | [], directive => (directive, [])
  | char :: p, directive =>
    if char = 45 then parseFlags p { directive with leftAlign := true }
    else if char = 48 then parseFlags p { directive with zeroPad := true }
    else if char = 43 then parseFlags p { directive with forceSign := true }
    else (directive, char :: p)

/-- The loops over the digits of a width or a precision. -/
def parseDigits : List UInt8 → ℤ → ℤ × List UInt8
  | [], value => (value, [])
  | char :: p, value =>
    if 48 ≤ char ∧ char ≤ 57 then parseDigits p (i32 (i32 (value * 10) + (char.toNat - 48 : ℕ)))
    else (value, char :: p)

/-- A star or digits: the value, the rest of the format, and the next argument. -/
def parseStar (arguments : Arguments) (p : List UInt8) (next : ℕ) : ℤ × List UInt8 × ℕ :=
  if p.head? = some 42 then (arguments.int next, p.drop 1, next + 1)
  else ((parseDigits p 0).1, (parseDigits p 0).2, next)

/-- A point and what is behind it. -/
def parsePrecision (arguments : Arguments) (p : List UInt8) (next : ℕ) : ℤ × List UInt8 × ℕ :=
  if p.head? = some 46 then parseStar arguments (p.drop 1) next else (-1, p, next)

/-- The length modifier: whether it is there, and the rest of the format. -/
def parseLength (p : List UInt8) : Bool × List UInt8 :=
  if p.head? = some 108 then
    (true, if (p.drop 1).head? = some 108 then p.drop 2 else p.drop 1)
  else if p.head? = some 122 then (true, p.drop 1)
  else (false, p)

/-- What is read behind a percent sign: the directive, the rest of the format from the character of
the conversion on, and the next argument. -/
def parseDirective (arguments : Arguments) (p : List UInt8) (next : ℕ) :
    Directive × List UInt8 × ℕ :=
  let (directive, p) := parseFlags p ⟨false, false, false, 0, -1, false⟩
  let (width, p, next) := parseStar arguments p next
  let (precision, p, next) := parsePrecision arguments p next
  let (isLong, p) := parseLength p
  ({ directive with width, precision, isLong }, p, next)

/-! ### Conversions -/

/-- The loop of `snbuf_render_unsigned`, which puts the lowest digit first. -/
def renderLoop (digits : List UInt8) (base : ℕ) : ℕ → ℕ → List UInt8
  | 0, _ => []
  | rounds + 1, val =>
    if val = 0 then [] else digits.getD (val % base) 0 :: renderLoop digits base rounds (val / base)

def lowerDigits : List UInt8 :=
  [48, 49, 50, 51, 52, 53, 54, 55, 56, 57, 97, 98, 99, 100, 101, 102]

def upperDigits : List UInt8 :=
  [48, 49, 50, 51, 52, 53, 54, 55, 56, 57, 65, 66, 67, 68, 69, 70]

def snbufRenderUnsigned (val base : ℕ) (uppercase : Bool) : List UInt8 :=
  if val = 0 then [48]
  else (renderLoop (if uppercase then upperDigits else lowerDigits) base 24 val).reverse

def putsLength (s : List UInt8) (precision : ℤ) : ℤ :=
  if 0 ≤ precision ∧ precision < s.length then precision else s.length

def padCount (width length : ℤ) : ℕ := if length < width then (i32 (width - length)).toNat else 0

def precisionZeros (precision tlen : ℤ) : ℤ :=
  if tlen < precision then i32 (precision - tlen) else 0

def numberLength (precision : ℤ) (sign tmp : List UInt8) : ℤ :=
  i32 (i32 (tmp.length + precisionZeros precision tmp.length) + sign.length)

def Directive.padsZeros (directive : Directive) : Bool :=
  directive.zeroPad && !directive.leftAlign && decide (directive.precision < 0)

section Conversions

variable {Sink : Type} (put : Sink → UInt8 → Option Sink)

def snbufPuts (s : List UInt8) (width precision : ℤ) (sink : Sink) : Option Sink :=
  (emitCopies put 32 (padCount width (putsLength s precision)) sink).bind
    (emit put (s.take (putsLength s precision).toNat))

/-- The branches of the conversions to a number: padding, sign, zeros and digits. -/
def putNumber (directive : Directive) (sign tmp : List UInt8) (sink : Sink) : Option Sink :=
  let precZeros := precisionZeros directive.precision tmp.length
  let pad := padCount directive.width (numberLength directive.precision sign tmp)
  (emitCopies put 32 (if !directive.leftAlign && !directive.padsZeros then pad else 0) sink).bind
    fun sink ↦
      (emit put sign sink).bind fun sink ↦
        (emitCopies put 48 (if !directive.leftAlign && directive.padsZeros then pad else 0)
          sink).bind fun sink ↦
            (emitCopies put 48 precZeros.toNat sink).bind fun sink ↦
              (emit put tmp sink).bind fun sink ↦
                emitCopies put 32 (if directive.leftAlign then pad else 0) sink

def signBytes (directive : Directive) (val : ℤ) : List UInt8 :=
  if val < 0 then [45] else if directive.forceSign then [43] else []

/-- The chain of conversions: the sink, and the next argument. -/
def convert (arguments : Arguments) (directive : Directive) (conversion : UInt8) (next : ℕ)
    (sink : Sink) : Option (Sink × ℕ) :=
  if conversion = 37 then (put sink 37).map (·, next)
  else if conversion = 99 then
    (put sink (UInt8.ofNat (arguments.words next).toNat)).map (·, next + 1)
  else if conversion = 115 then
    (snbufPuts put (arguments.string next)
      (if directive.leftAlign then i32 (-directive.width) else directive.width)
      directive.precision sink).map (·, next + 1)
  else if conversion = 100 ∨ conversion = 105 then
    -- A `long` is as wide as an `int`.
    let val := arguments.int next
    let uv := if val < 0 then u32 ((-(val + 1)).toNat + 1) else val.toNat
    (putNumber put directive (signBytes directive val) (snbufRenderUnsigned uv 10 false) sink).map
      (·, next + 1)
  else if conversion = 117 then
    (putNumber put directive [] (snbufRenderUnsigned (arguments.words next).toNat 10 false)
      sink).map (·, next + 1)
  else if conversion = 120 ∨ conversion = 88 then
    (putNumber put directive []
      (snbufRenderUnsigned (arguments.words next).toNat 16 (conversion = 88)) sink).map
        (·, next + 1)
  else if conversion = 112 then
    (put sink 48).bind fun sink ↦
      (put sink 120).bind fun sink ↦
        (emit put (snbufRenderUnsigned (arguments.words next).toNat 16 false) sink).map
          (·, next + 1)
  else
    (put sink 37).bind fun sink ↦ (put sink conversion).map (·, next)

/-- The loop of `vsnprintf` over the format. -/
def formatLoop (arguments : Arguments) : ℕ → List UInt8 → ℕ → Sink → Option Sink
  | 0, _, _, _ => none
  | _ + 1, [], _, sink => some sink
  | rounds + 1, char :: p, next, sink =>
    if char ≠ 37 then (put sink char).bind (formatLoop arguments rounds p next)
    else
      let (directive, p, next) := parseDirective arguments p next
      match p with
      | [] => some sink
      | conversion :: p =>
        (convert put arguments directive conversion next sink).bind fun (sink, next) ↦
          formatLoop arguments rounds p next sink

end Conversions

/-! ### The buffer -/

/-- The memory from a buffer on, and the size that is given for it. -/
structure Buffer where
  bytes : List UInt8
  sz : ℕ
  inside : sz ≤ bytes.length
  word : sz < 4294967296

/-- `snbuf_putc`: a write outside of the memory is no result. -/
def snbufPutc (sz : ℕ) (state : List UInt8 × ℕ) (char : UInt8) : Option (List UInt8 × ℕ) :=
  let (buf, pos) := state
  if u32 (pos + 1) < sz then
    if pos < buf.length then some (buf.set pos char, u32 (pos + 1)) else none
  else some (buf, u32 (pos + 1))

/-- `vsnprintf`: what it returns, and the memory; no format is the null pointer. -/
def vsnprintf (buffer : Buffer) (fmt : Option (List UInt8)) (arguments : Arguments) :
    Option (ℤ × List UInt8) :=
  match fmt with
  | none => some (0, if 0 < buffer.sz then buffer.bytes.set 0 0 else buffer.bytes)
  | some fmt =>
    (formatLoop (snbufPutc buffer.sz) arguments (fmt.length + 1) fmt 0 (buffer.bytes, 0)).map
      fun (buf, pos) ↦
        (i32 pos,
          if 0 < buffer.sz then buf.set (if pos < buffer.sz then pos else buffer.sz - 1) 0 else buf)

/-- What a buffer without a bound would hold. -/
def unlimited (fmt : List UInt8) (arguments : Arguments) : Option (List UInt8) :=
  formatLoop record arguments (fmt.length + 1) fmt 0 []

/-- The law: a result is the length of the whole text, and the buffer holds as much of it as fits
before the NUL and is as before behind that. -/
def Bounded (buffer : Buffer) (text : List UInt8) (result : Option (ℤ × List UInt8)) : Prop :=
  result = some ((text.length : ℤ),
    if buffer.sz = 0 then buffer.bytes
    else splice buffer.bytes 0 (text.take (buffer.sz - 1) ++ [0]))

/-! ### The rest of the format -/

section Lengths

variable (arguments : Arguments) (p : List UInt8) (next : ℕ)

theorem length_parseFlags_le (directive : Directive) :
    (parseFlags p directive).2.length ≤ p.length := by
  induction p generalizing directive with
  | nil => exact le_rfl
  | cons char p ih =>
    unfold parseFlags
    split_ifs
    · exact (ih _).trans (Nat.le_succ _)
    · exact (ih _).trans (Nat.le_succ _)
    · exact (ih _).trans (Nat.le_succ _)
    · exact le_rfl

theorem length_parseDigits_le (value : ℤ) : (parseDigits p value).2.length ≤ p.length := by
  induction p generalizing value with
  | nil => exact le_rfl
  | cons char p ih =>
    unfold parseDigits
    split_ifs
    · exact (ih _).trans (Nat.le_succ _)
    · exact le_rfl

theorem length_parseStar_le : (parseStar arguments p next).2.1.length ≤ p.length := by
  unfold parseStar
  split_ifs
  · rw [List.length_drop]
    exact Nat.sub_le _ _
  · exact length_parseDigits_le p 0

theorem length_parsePrecision_le : (parsePrecision arguments p next).2.1.length ≤ p.length := by
  unfold parsePrecision
  split_ifs
  · refine (length_parseStar_le arguments (p.drop 1) next).trans ?_
    rw [List.length_drop]
    exact Nat.sub_le _ _
  · exact le_rfl

theorem length_parseLength_le : (parseLength p).2.length ≤ p.length := by
  unfold parseLength
  split_ifs <;> simp

theorem length_parseDirective_le : (parseDirective arguments p next).2.1.length ≤ p.length := by
  unfold parseDirective
  exact (length_parseLength_le _).trans ((length_parsePrecision_le arguments _ _).trans
    ((length_parseStar_le arguments _ _).trans (length_parseFlags_le p _)))

end Lengths

/-! ### What is written -/

section Written

/-- What `snbuf_puts` writes. -/
def putsText (s : List UInt8) (width precision : ℤ) : List UInt8 :=
  List.replicate (padCount width (putsLength s precision)) 32 ++
    s.take (putsLength s precision).toNat

def numberText (directive : Directive) (sign tmp : List UInt8) : List UInt8 :=
  let pad := padCount directive.width (numberLength directive.precision sign tmp)
  List.replicate (if !directive.leftAlign && !directive.padsZeros then pad else 0) 32 ++
    (sign ++ (List.replicate (if !directive.leftAlign && directive.padsZeros then pad else 0) 48 ++
      (List.replicate (precisionZeros directive.precision tmp.length).toNat 48 ++
        (tmp ++ List.replicate (if directive.leftAlign then pad else 0) 32))))

section Sinks

variable {Sink : Type} (put : Sink → UInt8 → Option Sink) (sink : Sink)

theorem snbufPuts_eq (s : List UInt8) (width precision : ℤ) :
    snbufPuts put s width precision sink = emit put (putsText s width precision) sink := by
  unfold snbufPuts putsText
  rw [emit_append, emitCopies_eq]

theorem putNumber_eq (directive : Directive) (sign tmp : List UInt8) :
    putNumber put directive sign tmp sink = emit put (numberText directive sign tmp) sink := by
  unfold putNumber numberText
  simp only [emit_append, emitCopies_eq]

end Sinks

variable (arguments : Arguments)

/-- What a conversion writes, and the argument it leaves next. -/
theorem convert_emits (directive : Directive) (conversion : UInt8) (next : ℕ) :
    ∃ text after, ∀ {Sink : Type} (put : Sink → UInt8 → Option Sink) (sink : Sink),
      convert put arguments directive conversion next sink =
        (emit put text sink).map (·, after) := by
  unfold convert
  split_ifs
  · exact ⟨[37], next, fun put sink ↦ by rw [emit_singleton]⟩
  · exact ⟨[_], next + 1, fun put sink ↦ by rw [emit_singleton]⟩
  · exact ⟨putsText _ _ _, next + 1, fun put sink ↦ by rw [snbufPuts_eq]⟩
  · exact ⟨putsText _ _ _, next + 1, fun put sink ↦ by rw [snbufPuts_eq]⟩
  · exact ⟨numberText _ _ _, next + 1, fun put sink ↦ by dsimp only; rw [putNumber_eq]⟩
  · exact ⟨numberText _ _ _, next + 1, fun put sink ↦ by rw [putNumber_eq]⟩
  · exact ⟨numberText _ _ _, next + 1, fun put sink ↦ by rw [putNumber_eq]⟩
  · refine ⟨48 :: 120 :: snbufRenderUnsigned (arguments.words next).toNat 16 false, next + 1,
      fun put sink ↦ ?_⟩
    rw [emit_cons, Option.map_bind]
    congr 1
    funext sink
    rw [Function.comp_apply, emit_cons, Option.map_bind]
    rfl
  · refine ⟨[37, conversion], next, fun put sink ↦ ?_⟩
    rw [emit_cons, Option.map_bind]
    congr 1
    funext sink
    rw [Function.comp_apply, emit_singleton]

/-- What the loop over the format writes: it ends, and that is the same for every sink. -/
theorem formatLoop_emits (rounds : ℕ) (p : List UInt8) (next : ℕ) (hrounds : p.length < rounds) :
    ∃ text, ∀ {Sink : Type} (put : Sink → UInt8 → Option Sink) (sink : Sink),
      formatLoop put arguments rounds p next sink = emit put text sink := by
  induction rounds generalizing p next with
  | zero => omega
  | succ rounds ih =>
    cases p with
    | nil => exact ⟨[], fun put sink ↦ rfl⟩
    | cons char p =>
      by_cases hliteral : char ≠ 37
      · obtain ⟨text, htext⟩ := ih p next (Nat.lt_of_succ_lt_succ hrounds)
        refine ⟨char :: text, fun put sink ↦ ?_⟩
        rw [formatLoop, if_pos hliteral, emit_cons]
        congr 1
        funext sink
        exact htext put sink
      · rcases hparsed : parseDirective arguments p next with ⟨directive, rest, after⟩
        cases rest with
        | nil =>
          refine ⟨[], fun put sink ↦ ?_⟩
          rw [formatLoop, if_neg hliteral, hparsed]
          rfl
        | cons conversion rest =>
          have hlength := length_parseDirective_le arguments p next
          rw [hparsed, List.length_cons] at hlength
          rw [List.length_cons] at hrounds
          obtain ⟨written, last, hwritten⟩ := convert_emits arguments directive conversion after
          obtain ⟨text, htext⟩ := ih rest last (by omega)
          refine ⟨written ++ text, fun put sink ↦ ?_⟩
          rw [formatLoop, if_neg hliteral, hparsed]
          dsimp only
          rw [hwritten, emit_append, Option.bind_map]
          congr 1
          funext sink
          exact htext put sink

/-- What a buffer without a bound would hold, and what any other sink is given. -/
theorem unlimited_spec (fmt : List UInt8) :
    ∃ text, unlimited fmt arguments = some text ∧
      ∀ {Sink : Type} (put : Sink → UInt8 → Option Sink) (sink : Sink),
        formatLoop put arguments (fmt.length + 1) fmt 0 sink = emit put text sink := by
  obtain ⟨text, htext⟩ := formatLoop_emits arguments (fmt.length + 1) fmt 0 (Nat.lt_succ_self _)
  refine ⟨text, ?_, htext⟩
  unfold unlimited
  rw [htext, emit_record, List.nil_append]

end Written

/-! ### The bounded buffer -/

section Bounded

variable {sz pos : ℕ} {buf text : List UInt8}

/-- Text written to the buffer: the part that fits before the last byte of the size. -/
theorem emit_snbufPutc (hinside : sz ≤ buf.length) (hpos : pos + text.length < 4294967296) :
    emit (snbufPutc sz) text (buf, pos) =
      some (splice buf pos (text.take (sz - 1 - pos)), pos + text.length) := by
  induction text generalizing buf pos with
  | nil =>
    rw [List.take_nil, splice_by_nil]
    rfl
  | cons char text ih =>
    rw [List.length_cons] at hpos
    have hnext : u32 (pos + 1) = pos + 1 := u32_of_lt _ (by omega)
    rw [emit_cons]
    unfold snbufPutc
    dsimp only
    rw [hnext]
    by_cases hfits : pos + 1 < sz
    · have hroom : sz - 1 - pos = sz - 1 - (pos + 1) + 1 := by omega
      rw [if_pos hfits, if_pos (by omega), Option.bind_some]
      refine (ih (by rwa [List.length_set]) (by omega)).trans ?_
      have hset : buf.set pos char = splice buf pos [char] := (splice_singleton (by omega)).symm
      have hjoin : splice (splice buf pos [char]) (pos + 1) (text.take (sz - 1 - (pos + 1))) =
          splice buf pos (char :: text.take (sz - 1 - (pos + 1))) := by
        refine @splice_splice _ _ [char] _ _ ?_
        rw [List.length_singleton, List.length_take]
        omega
      rw [hroom, List.take_succ_cons, List.length_cons, hset, hjoin, Nat.add_assoc, Nat.add_comm 1]
    · rw [if_neg hfits, Option.bind_some]
      refine (ih hinside (by omega)).trans ?_
      have hnone : sz - 1 - pos = 0 := by omega
      have hless : sz - 1 - (pos + 1) = 0 := by omega
      rw [hnone, hless, List.take_zero, List.take_zero, splice_by_nil, splice_by_nil,
        List.length_cons, Nat.add_assoc, Nat.add_comm 1]

/-- What is stored of a text, with the NUL behind it. -/
theorem set_splice_take (hpos : 0 < sz) (hinside : sz ≤ buf.length) :
    (splice buf 0 (text.take (sz - 1))).set (if text.length < sz then text.length else sz - 1) 0 =
      splice buf 0 (text.take (sz - 1) ++ [0]) := by
  have hlength : (text.take (sz - 1)).length = min (sz - 1) text.length := List.length_take ..
  have hindex : (if text.length < sz then text.length else sz - 1) =
      0 + (text.take (sz - 1)).length := by
    rw [hlength]
    split_ifs <;> omega
  have hbuf : (splice buf 0 (text.take (sz - 1))).length = buf.length :=
    length_splice (by omega)
  rw [hindex, ← splice_singleton (by omega), splice_splice]
  rw [hlength, List.length_singleton]
  omega

/-- A text whose length is returned is short. -/
theorem length_lt_of_bounded {buffer : Buffer} {fmt : List UInt8} {arguments : Arguments}
    (hlaw : Bounded buffer text (vsnprintf buffer (some fmt) arguments)) :
    text.length < 2147483648 := by
  obtain ⟨⟨buf, pos⟩, -, hresult⟩ := Option.map_eq_some_iff.mp hlaw
  have hcount := (Prod.mk.inj hresult).1
  have hint := (isInt32_i32 (pos : ℤ)).2
  omega

/-- **Bounded formatting.** For every format and arguments there is the text that a buffer without
a bound would hold; and for every buffer the function keeps the law exactly where that text has less
than `2 ^ 31` bytes. -/
theorem vsnprintf_iff (fmt : List UInt8) (arguments : Arguments) :
    ∃ text, unlimited fmt arguments = some text ∧
      ∀ buffer : Buffer,
        Bounded buffer text (vsnprintf buffer (some fmt) arguments) ↔ text.length < 2147483648 := by
  obtain ⟨text, hunlimited, htext⟩ := unlimited_spec arguments fmt
  refine ⟨text, hunlimited, fun buffer ↦ ⟨length_lt_of_bounded, fun hshort ↦ ?_⟩⟩
  have hint : i32 (text.length : ℤ) = text.length := i32_of_isInt32 ⟨by omega, by omega⟩
  unfold Bounded vsnprintf
  dsimp only
  rw [htext, emit_snbufPutc buffer.inside (by omega), Option.map_some]
  dsimp only
  rw [Nat.zero_add, Nat.sub_zero, hint]
  refine congrArg (fun bytes ↦ some ((text.length : ℤ), bytes)) ?_
  by_cases hzero : buffer.sz = 0
  · rw [if_neg (by omega), if_pos hzero, hzero, Nat.zero_sub, List.take_zero, splice_by_nil]
  · rw [if_pos (by omega), if_neg hzero, set_splice_take (by omega) buffer.inside]

def zeroArguments : Arguments := ⟨fun _ ↦ 0, fun _ ↦ ⟨[], by decide, by decide⟩⟩

/-- The format `%2147483647dx`. -/
def wideFormat : List UInt8 := [37, 50, 49, 52, 55, 52, 56, 51, 54, 52, 55, 100, 120]

def wideDirective : Directive := ⟨false, false, false, 2147483647, -1, false⟩

theorem convert_wideDirective {Sink : Type} (put : Sink → UInt8 → Option Sink) (sink : Sink) :
    convert put zeroArguments wideDirective 100 0 sink =
      (emit put (numberText wideDirective [] [48]) sink).map (·, 1) := by
  have hint : zeroArguments.int 0 = 0 := by decide
  have hsign : signBytes wideDirective 0 = [] := by decide
  have hdigits : snbufRenderUnsigned 0 10 false = [48] := by decide
  unfold convert
  rw [if_neg (by decide), if_neg (by decide), if_neg (by decide), if_pos (by decide), hint]
  dsimp only
  rw [if_neg (by decide), hsign, Int.toNat_zero, hdigits, putNumber_eq]

theorem length_numberText_wideDirective :
    (numberText wideDirective [] [48]).length = 2147483647 := by
  have hpad : padCount wideDirective.width (numberLength wideDirective.precision [] [48]) =
      2147483646 := by decide
  have hzeros : precisionZeros wideDirective.precision ([48] : List UInt8).length = 0 := by decide
  unfold numberText
  rw [hpad, hzeros]
  simp only [List.length_append, List.length_replicate, List.length_nil, List.length_singleton]
  rfl

/-- The text of that format has a zero in `2 ^ 31 - 1` columns and an `x`. -/
theorem unlimited_wideFormat :
    ∃ text, unlimited wideFormat zeroArguments = some text ∧ text.length = 2147483648 := by
  have hparsed : parseDirective zeroArguments wideFormat.tail 0 = (wideDirective, [100, 120], 0) :=
    by decide +kernel
  refine ⟨numberText wideDirective [] [48] ++ [120], ?_, ?_⟩
  · unfold unlimited
    rw [show wideFormat = 37 :: wideFormat.tail from rfl, formatLoop, if_neg (by decide), hparsed]
    dsimp only
    rw [convert_wideDirective, emit_record, Option.map_some, Option.bind_some, List.nil_append]
    rfl
  · rw [List.length_append, length_numberText_wideDirective]
    rfl

/-- A text of `2 ^ 31` bytes is not reported with its length. -/
theorem vsnprintf_misreports :
    ¬ ∀ (fmt : List UInt8) (arguments : Arguments) (buffer : Buffer), ∃ text,
      unlimited fmt arguments = some text ∧
        Bounded buffer text (vsnprintf buffer (some fmt) arguments) := by
  intro hall
  obtain ⟨wide, hwide, hlength⟩ := unlimited_wideFormat
  obtain ⟨text, htext, hlaw⟩ := hall wideFormat zeroArguments ⟨[], 0, le_rfl, by decide⟩
  obtain rfl := Option.some.inj (hwide.symm.trans htext)
  have hshort := length_lt_of_bounded hlaw
  omega

end Bounded

end EynOS.Userland
