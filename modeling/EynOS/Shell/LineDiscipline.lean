import EynOS.Foundation.Run
import Mathlib.Data.List.DropRight

/-!
# The line discipline of the terminals

A terminal keeps what is typed for the user task that reads it in one buffer, with a flag that says
whether there is something to read. In canonical mode the buffer holds the lines that are complete
and then the line that is edited; in raw mode every byte can be read at once. A `Ledger` keeps
beside a terminal what was typed, with the erase characters applied to the line that is edited, and
what was delivered.

`lawful_iff` says exactly when a run keeps to the discipline: where an erase character is typed only
when there is something to erase, a line is ended only where there is space, and the readers in
canonical mode take the complete lines all at once and nothing else. `not_lawful` types a line and
an erase character.

Not modelled: the number of the terminal, which is checked first, and the bytes behind the end of
the buffer.
-/

namespace EynOS.Shell.LineDiscipline

open Foundation

/-! ### The terminal -/

/-- `sizeof(stdin_buf)`. -/
def STDIN_SIZE : ℕ := 256

/-- The fields of `vterm_t` for the input of a user task: the first `stdin_len` bytes of
`stdin_buf`, `stdin_ready` and `stdin_raw_mode`. -/
structure Vterm where
  stdinBuf : List UInt8
  stdinReady : Bool
  stdinRawMode : Bool
  deriving DecidableEq

/-- `'\n'`. -/
def newline : UInt8 := 10

/-- `'\b'` or 127. -/
def isErase (ch : UInt8) : Bool := ch == 8 || ch == 127

/-- `'\n'` or `'\r'`. -/
def isEnd (ch : UInt8) : Bool := ch == 10 || ch == 13

/-- `vterm_stdin_putchar`. -/
def putchar (ch : UInt8) (term : Vterm) : Vterm :=
  if term.stdinRawMode then
    if term.stdinBuf.length < STDIN_SIZE - 1 then
      { term with stdinBuf := term.stdinBuf ++ [ch], stdinReady := true }
    else term
  else if isErase ch then { term with stdinBuf := term.stdinBuf.dropLast }
  else if isEnd ch then
    { term with
      stdinBuf :=
        if term.stdinBuf.length < STDIN_SIZE - 1 then term.stdinBuf ++ [newline]
        else term.stdinBuf
      stdinReady := true }
  else if term.stdinBuf.length < STDIN_SIZE - 2 then
    { term with stdinBuf := term.stdinBuf ++ [ch] }
  else term

/-- `vterm_stdin_consume`. -/
def consume (term : Vterm) : Vterm := { term with stdinBuf := [], stdinReady := false }

/-- `vterm_stdin_consume_bytes`. -/
def consumeBytes (count : ℤ) (term : Vterm) : Vterm :=
  if count ≤ 0 then term
  else if term.stdinBuf.length ≤ count then consume term
  else
    { term with
      stdinBuf := term.stdinBuf.drop count.toNat
      stdinReady := term.stdinRawMode && !(term.stdinBuf.drop count.toNat).isEmpty }

/-- `vterm_stdin_set_raw`. -/
def setRaw (enabled : Bool) (term : Vterm) : Vterm :=
  if enabled = false then { term with stdinRawMode := false, stdinReady := false }
  else if term.stdinBuf = [] then { term with stdinRawMode := true }
  else { term with stdinRawMode := true, stdinReady := true }

/-! ### Lines -/

def complete (buf : List UInt8) : List UInt8 := buf.rdropWhile (· ≠ newline)

/-- The line of a buffer that is not complete. -/
def pending (buf : List UInt8) : List UInt8 := buf.rtakeWhile (· ≠ newline)

/-- What is typed before, with an erase character applied: it erases from the pending line. -/
def erase (typed : List UInt8) (delivered : ℕ) : List UInt8 :=
  if pending (typed.drop delivered) = [] then typed else typed.dropLast

/-! ### Ledgers -/

/-- A call on a terminal. -/
inductive Call
  | putchar (ch : UInt8)
  | consume
  | consumeBytes (count : ℤ)
  | setRaw (enabled : Bool)

/-- A terminal, what was accepted with the erase characters applied, what was delivered, and what
was delivered in canonical mode of lines that were not complete. -/
structure Ledger where
  term : Vterm
  typed : List UInt8
  delivered : List UInt8
  early : List UInt8

/-- What was typed, after one more character. The end of a line is always accepted. -/
def Ledger.typedAfter (ledger : Ledger) (ch : UInt8) : List UInt8 :=
  if ledger.term.stdinRawMode then
    if ledger.term.stdinBuf.length < STDIN_SIZE - 1 then ledger.typed ++ [ch] else ledger.typed
  else if isErase ch then erase ledger.typed ledger.delivered.length
  else if isEnd ch then ledger.typed ++ [newline]
  else if ledger.term.stdinBuf.length < STDIN_SIZE - 2 then ledger.typed ++ [ch]
  else ledger.typed

def Ledger.deliver (ledger : Ledger) (count : ℕ) (after : Vterm) : Ledger where
  term := after
  typed := ledger.typed
  delivered := ledger.delivered ++ ledger.term.stdinBuf.take count
  early :=
    if ledger.term.stdinRawMode then ledger.early
    else ledger.early ++
      (ledger.term.stdinBuf.take count).drop (complete ledger.term.stdinBuf).length

def Ledger.step (ledger : Ledger) : Call → Ledger
  | .putchar ch =>
    { ledger with term := putchar ch ledger.term, typed := ledger.typedAfter ch }
  | .consume => ledger.deliver ledger.term.stdinBuf.length (consume ledger.term)
  | .consumeBytes count => ledger.deliver count.toNat (consumeBytes count ledger.term)
  | .setRaw enabled => { ledger with term := setRaw enabled ledger.term }

/-- A cleared terminal. -/
def Ledger.start (raw : Bool) : Ledger where
  term := { stdinBuf := [], stdinReady := false, stdinRawMode := raw }
  typed := []
  delivered := []
  early := []

/-- The discipline: what was delivered and what is in the buffer are together what was typed, in
canonical mode only complete lines were delivered, and the terminal is ready exactly where it holds
a complete line or, in raw mode, a byte. -/
structure Lawful (ledger : Ledger) : Prop where
  kept : ledger.delivered ++ ledger.term.stdinBuf = ledger.typed
  whole : ledger.early = []
  ready : ledger.term.stdinReady = true ↔
    if ledger.term.stdinRawMode then ledger.term.stdinBuf ≠ []
    else newline ∈ ledger.term.stdinBuf

/-- No more bytes are consumed than there are. -/
def Reported (ledger : Ledger) : Call → Prop
  | .consumeBytes count => count ≤ ledger.term.stdinBuf.length
  | _ => True

instance (ledger : Ledger) : (call : Call) → Decidable (Reported ledger call)
  | .consumeBytes count => inferInstanceAs (Decidable (count ≤ ledger.term.stdinBuf.length))
  | .putchar _ => isTrue trivial
  | .consume => isTrue trivial
  | .setRaw _ => isTrue trivial

/-- The calls that keep to the discipline. In raw mode all do. In canonical mode an erase character
finds a pending line or an empty buffer, the end of a line finds space, and what is consumed is the
complete lines; the mode is set to canonical with no complete line in the buffer. -/
def Orderly (ledger : Ledger) : Call → Prop
  | .putchar ch => ledger.term.stdinRawMode = false →
    if isErase ch then pending ledger.term.stdinBuf = [] → ledger.term.stdinBuf = []
    else isEnd ch → ledger.term.stdinBuf.length < STDIN_SIZE - 1
  | .consume => ledger.term.stdinRawMode = false → pending ledger.term.stdinBuf = []
  | .consumeBytes count => ledger.term.stdinRawMode = false →
    count ≤ 0 ∨ count = (complete ledger.term.stdinBuf).length
  | .setRaw enabled => enabled = false → newline ∉ ledger.term.stdinBuf

instance (ledger : Ledger) : (call : Call) → Decidable (Orderly ledger call)
  | .putchar _ => inferInstanceAs (Decidable (_ → ite _ _ _))
  | .consume => inferInstanceAs (Decidable (_ → _))
  | .consumeBytes _ => inferInstanceAs (Decidable (_ → _ ∨ _))
  | .setRaw _ => inferInstanceAs (Decidable (_ → _ ∉ _))

/-! ### Complete and pending lines -/

section Lines

variable {buf : List UInt8} {count : ℕ}

theorem complete_append_pending (buf : List UInt8) : complete buf ++ pending buf = buf :=
  List.rdropWhile_append_rtakeWhile

theorem drop_complete (buf : List UInt8) : buf.drop (complete buf).length = pending buf := by
  have hdrop : (complete buf ++ pending buf).drop (complete buf).length = pending buf :=
    List.drop_left
  rwa [complete_append_pending] at hdrop

theorem newline_not_mem_pending (buf : List UInt8) : newline ∉ pending buf := by
  intro hmem
  simpa using List.mem_rtakeWhile_imp hmem

/-- The bytes from some place on have the end of a line where they begin in the complete lines. -/
theorem newline_mem_drop : newline ∈ buf.drop count ↔ count < (complete buf).length := by
  constructor
  · intro hmem
    by_contra hbehind
    rw [← complete_append_pending buf, List.drop_append,
      List.drop_eq_nil_of_le (Nat.le_of_not_lt hbehind), List.nil_append] at hmem
    exact newline_not_mem_pending buf (List.mem_of_mem_drop hmem)
  · intro hbefore
    have hsome : complete buf ≠ [] := List.ne_nil_of_length_pos (Nat.zero_lt_of_lt hbefore)
    have hlast : (complete buf).getLast hsome = newline := by
      by_contra hother
      exact List.rdropWhile_last_not (· ≠ newline) buf hsome (decide_eq_true hother)
    have hmem : newline ∈ (complete buf).drop count := by
      have hdrop : (complete buf).drop count ≠ [] := by
        rw [ne_eq, List.drop_eq_nil_iff]
        omega
      rw [← hlast, ← List.getLast_drop hdrop]
      exact List.getLast_mem hdrop
    rw [← complete_append_pending buf, List.drop_append]
    exact List.mem_append_left _ hmem

/-- A buffer has a pending line where its last byte is not the end of one. -/
theorem pending_concat_eq_nil {buf : List UInt8} {ch : UInt8} :
    pending (buf ++ [ch]) = [] ↔ ch = newline := by
  rw [pending, List.rtakeWhile_concat]
  split
  · rename_i hother
    exact iff_of_false (List.concat_ne_nil _ _) (of_decide_eq_true hother)
  · rename_i hend
    exact iff_of_true rfl (by simpa using hend)

end Lines

/-! ### One call -/

section Step

variable {ledger : Ledger} {ch : UInt8} {count : ℤ}

theorem lawful_canonical (hraw : ledger.term.stdinRawMode = false) : Lawful ledger ↔
    ledger.delivered ++ ledger.term.stdinBuf = ledger.typed ∧ ledger.early = [] ∧
      (ledger.term.stdinReady = true ↔ newline ∈ ledger.term.stdinBuf) := by
  constructor
  · intro hlawful
    have hready := hlawful.ready
    rw [hraw, if_neg Bool.false_ne_true] at hready
    exact ⟨hlawful.kept, hlawful.whole, hready⟩
  · rintro ⟨hkept, hwhole, hready⟩
    refine ⟨hkept, hwhole, ?_⟩
    rwa [hraw, if_neg Bool.false_ne_true]

theorem lawful_raw (hraw : ledger.term.stdinRawMode = true) : Lawful ledger ↔
    ledger.delivered ++ ledger.term.stdinBuf = ledger.typed ∧ ledger.early = [] ∧
      (ledger.term.stdinReady = true ↔ ledger.term.stdinBuf ≠ []) := by
  constructor
  · intro hlawful
    have hready := hlawful.ready
    rw [hraw, if_pos rfl] at hready
    exact ⟨hlawful.kept, hlawful.whole, hready⟩
  · rintro ⟨hkept, hwhole, hready⟩
    refine ⟨hkept, hwhole, ?_⟩
    rwa [hraw, if_pos rfl]

section

variable (hlawful : Lawful ledger)

include hlawful

theorem lawful_putchar_raw (hraw : ledger.term.stdinRawMode = true) :
    Lawful (ledger.step (.putchar ch)) := by
  unfold Ledger.step Ledger.typedAfter putchar
  simp only [hraw, if_true]
  split
  · refine (lawful_raw (by rfl)).mpr ⟨?_, hlawful.whole, ?_⟩
    · rw [← hlawful.kept, List.append_assoc]
    · exact iff_of_true rfl (List.concat_ne_nil _ _)
  · exact hlawful

/-- An erase character in canonical mode. -/
theorem lawful_erase_iff (hraw : ledger.term.stdinRawMode = false)
    (herase : isErase ch = true) : Lawful (ledger.step (.putchar ch)) ↔
      (pending ledger.term.stdinBuf = [] → ledger.term.stdinBuf = []) := by
  obtain ⟨hkept, hwhole, hready⟩ := (lawful_canonical hraw).mp hlawful
  have hundelivered : ledger.typed.drop ledger.delivered.length = ledger.term.stdinBuf := by
    rw [← hkept, List.drop_left]
  have hstep : ledger.step (.putchar ch) =
      { ledger with
        term := { ledger.term with stdinBuf := ledger.term.stdinBuf.dropLast }
        typed := if pending ledger.term.stdinBuf = [] then ledger.typed
          else ledger.typed.dropLast } := by
    unfold Ledger.step Ledger.typedAfter putchar erase
    simp only [hraw, herase, if_true, Bool.false_eq_true, if_false, hundelivered]
  rw [hstep, lawful_canonical (by exact hraw)]
  rcases List.eq_nil_or_concat' ledger.term.stdinBuf with hempty | ⟨buf, last, hbuf⟩
  · rw [hempty] at hkept hready ⊢
    exact iff_of_true ⟨hkept, hwhole, hready⟩ fun _ ↦ rfl
  · rw [hbuf] at hkept hready ⊢
    simp only [pending_concat_eq_nil, List.dropLast_concat]
    by_cases hlast : last = newline
    · refine iff_of_false (fun hafter ↦ ?_) fun hnil ↦ absurd (hnil hlast) (List.concat_ne_nil _ _)
      have hless := hafter.1.trans (if_pos hlast)
      rw [← hkept, List.append_right_inj] at hless
      simpa using congrArg List.length hless
    · refine iff_of_true ⟨?_, hwhole, ?_⟩ fun heq ↦ absurd heq hlast
      · rw [if_neg hlast, ← hkept, ← List.append_assoc, List.dropLast_concat]
      · rw [hready, List.mem_append, List.mem_singleton, or_iff_left (Ne.symm hlast)]

/-- The end of a line in canonical mode. -/
theorem lawful_end_iff (hraw : ledger.term.stdinRawMode = false)
    (herase : isErase ch = false) (hend : isEnd ch = true) :
    Lawful (ledger.step (.putchar ch)) ↔ ledger.term.stdinBuf.length < STDIN_SIZE - 1 := by
  obtain ⟨hkept, hwhole, -⟩ := (lawful_canonical hraw).mp hlawful
  unfold Ledger.step Ledger.typedAfter putchar
  simp only [hraw, herase, hend, if_true, Bool.false_eq_true, if_false]
  rw [lawful_canonical (by rfl)]
  split
  · rename_i hspace
    refine iff_of_true ⟨?_, hwhole, ?_⟩ hspace
    · rw [← hkept, List.append_assoc]
    · exact iff_of_true rfl (List.mem_append_right _ List.mem_cons_self)
  · rename_i hfull
    refine iff_of_false (fun hafter ↦ ?_) hfull
    have hless := hafter.1
    rw [hkept] at hless
    simpa using congrArg List.length hless

/-- Another character in canonical mode. -/
theorem lawful_putchar_plain (hraw : ledger.term.stdinRawMode = false)
    (herase : isErase ch = false) (hend : isEnd ch = false) :
    Lawful (ledger.step (.putchar ch)) := by
  obtain ⟨hkept, hwhole, hready⟩ := (lawful_canonical hraw).mp hlawful
  unfold Ledger.step Ledger.typedAfter putchar
  simp only [hraw, herase, hend, Bool.false_eq_true, if_false]
  split
  · refine (lawful_canonical (by rfl)).mpr ⟨?_, hwhole, ?_⟩
    · rw [← hkept, List.append_assoc]
    · have hother : newline ≠ ch := by
        rintro rfl
        exact absurd hend (by decide)
      rw [hready, List.mem_append, List.mem_singleton, or_iff_left hother]
  · exact (lawful_canonical hraw).mpr ⟨hkept, hwhole, hready⟩

/-- Setting the mode. -/
theorem lawful_setRaw_iff (enabled : Bool) :
    Lawful (ledger.step (.setRaw enabled)) ↔
      (enabled = false → newline ∉ ledger.term.stdinBuf) := by
  change Lawful { ledger with term := setRaw enabled ledger.term } ↔ _
  cases enabled with
  | false =>
    rw [lawful_canonical (by rfl), forall_prop_of_true rfl]
    refine ⟨fun hafter hmem ↦ ?_, fun hnone ↦ ⟨hlawful.kept, hlawful.whole, ?_⟩⟩
    · exact absurd (hafter.2.2.mpr hmem) Bool.false_ne_true
    · exact iff_of_false Bool.false_ne_true hnone
  | true =>
    refine iff_of_true ?_ fun hfalse ↦ absurd hfalse (by simp)
    rw [setRaw, if_neg (by simp)]
    split
    · rename_i hempty
      refine (lawful_raw (by rfl)).mpr ⟨hlawful.kept, hlawful.whole, ?_⟩
      have hready := hlawful.ready
      simp only [hempty, ne_eq, not_true_eq_false, List.not_mem_nil, ite_self] at hready ⊢
      exact hready
    · rename_i hsome
      exact (lawful_raw (by rfl)).mpr ⟨hlawful.kept, hlawful.whole, iff_of_true rfl hsome⟩

/-- Consuming the whole buffer. -/
theorem lawful_consume_iff : Lawful (ledger.step .consume) ↔
    (ledger.term.stdinRawMode = false → pending ledger.term.stdinBuf = []) := by
  have hkept : (ledger.delivered ++ ledger.term.stdinBuf.take ledger.term.stdinBuf.length) ++ [] =
      ledger.typed := by
    rw [List.take_length, List.append_nil, hlawful.kept]
  change Lawful (ledger.deliver ledger.term.stdinBuf.length (consume ledger.term)) ↔ _
  cases hraw : ledger.term.stdinRawMode with
  | false =>
    have hearly : (ledger.deliver ledger.term.stdinBuf.length (consume ledger.term)).early =
        pending ledger.term.stdinBuf := by
      simp only [Ledger.deliver, hraw, Bool.false_eq_true, if_false, hlawful.whole, List.nil_append,
        List.take_length, drop_complete]
    rw [lawful_canonical (by exact hraw), hearly, forall_prop_of_true rfl]
    exact ⟨fun hafter ↦ hafter.2.1, fun hnone ↦ ⟨hkept, hnone, iff_of_false Bool.false_ne_true
      List.not_mem_nil⟩⟩
  | true =>
    have hearly :
        (ledger.deliver ledger.term.stdinBuf.length (consume ledger.term)).early = [] := by
      simp only [Ledger.deliver, hraw, if_true, hlawful.whole]
    refine iff_of_true ?_ fun hfalse ↦ absurd hfalse (by simp)
    exact (lawful_raw (by exact hraw)).mpr
      ⟨hkept, hearly, iff_of_false Bool.false_ne_true fun hne ↦ hne rfl⟩

/-- Consuming a part of the buffer. -/
theorem lawful_consumeBytes_iff (hcount : count ≤ ledger.term.stdinBuf.length) :
    Lawful (ledger.step (.consumeBytes count)) ↔ (ledger.term.stdinRawMode = false →
      count ≤ 0 ∨ count = (complete ledger.term.stdinBuf).length) := by
  have hlength := congrArg List.length (complete_append_pending ledger.term.stdinBuf)
  rw [List.length_append] at hlength
  change Lawful (ledger.deliver count.toNat (consumeBytes count ledger.term)) ↔ _
  by_cases hnone : count ≤ 0
  · have hsame : ledger.deliver count.toNat (consumeBytes count ledger.term) = ledger := by
      rw [Int.toNat_eq_zero.mpr hnone, consumeBytes, if_pos hnone, Ledger.deliver]
      simp
    rw [hsame]
    exact iff_of_true hlawful fun _ ↦ Or.inl hnone
  · obtain ⟨bytes, rfl⟩ := Int.eq_ofNat_of_zero_le (Int.le_of_lt (Int.not_le.mp hnone))
    rw [consumeBytes, if_neg hnone, Int.toNat_natCast]
    by_cases hwhole : (ledger.term.stdinBuf.length : ℤ) ≤ bytes
    · have hbytes : bytes = ledger.term.stdinBuf.length := by omega
      rw [if_pos hwhole, hbytes]
      refine (lawful_consume_iff hlawful).trans (imp_congr_right fun _ ↦ ?_)
      rw [← List.length_eq_zero_iff]
      omega
    · rw [if_neg hwhole]
      have hkept : ledger.delivered ++ ledger.term.stdinBuf.take bytes ++
          ledger.term.stdinBuf.drop bytes = ledger.typed := by
        rw [List.append_assoc, List.take_append_drop, hlawful.kept]
      cases hraw : ledger.term.stdinRawMode with
      | false =>
        have hearly : (ledger.term.stdinBuf.take bytes).drop
            (complete ledger.term.stdinBuf).length = [] ↔
              bytes ≤ (complete ledger.term.stdinBuf).length := by
          rw [List.drop_eq_nil_iff, List.length_take]
          omega
        rw [lawful_canonical (by rfl), forall_prop_of_true rfl]
        simp only [Ledger.deliver, hraw, hlawful.whole, Bool.false_eq_true, if_false,
          List.nil_append, Bool.false_and, false_iff, hearly, newline_mem_drop]
        constructor
        · rintro ⟨-, hle, hless⟩
          omega
        · intro hcomplete
          exact ⟨hkept, by omega, by omega⟩
      | true =>
        refine iff_of_true ?_ fun hfalse ↦ absurd hfalse (by simp)
        have hleft : ledger.term.stdinBuf.drop bytes ≠ [] := by
          rw [ne_eq, List.drop_eq_nil_iff]
          omega
        refine (lawful_raw (by rfl)).mpr ⟨hkept, ?_, iff_of_true ?_ hleft⟩
        · simp only [Ledger.deliver, hraw, if_true, hlawful.whole]
        · simp [Ledger.deliver, List.isEmpty_eq_false_iff.mpr hleft]

/-- A character. -/
theorem lawful_putchar_iff : Lawful (ledger.step (.putchar ch)) ↔
    (ledger.term.stdinRawMode = false →
      if isErase ch then pending ledger.term.stdinBuf = [] → ledger.term.stdinBuf = []
      else isEnd ch → ledger.term.stdinBuf.length < STDIN_SIZE - 1) := by
  cases hraw : ledger.term.stdinRawMode with
  | true => exact iff_of_true (lawful_putchar_raw hlawful hraw) fun hfalse ↦ absurd hfalse (by simp)
  | false =>
    rw [forall_prop_of_true rfl]
    cases herase : isErase ch with
    | true =>
      rw [if_pos rfl]
      exact lawful_erase_iff hlawful hraw herase
    | false =>
      rw [if_neg Bool.false_ne_true]
      cases hend : isEnd ch with
      | true =>
        rw [forall_prop_of_true rfl]
        exact lawful_end_iff hlawful hraw herase hend
      | false =>
        exact iff_of_true (lawful_putchar_plain hlawful hraw herase hend)
          fun hfalse ↦ absurd hfalse Bool.false_ne_true

/-- A call keeps to the discipline exactly if it is orderly. -/
theorem Lawful.step_iff (call : Call) (hreported : Reported ledger call) :
    Lawful (ledger.step call) ↔ Orderly ledger call := by
  cases call with
  | putchar ch => exact lawful_putchar_iff hlawful
  | consume => exact lawful_consume_iff hlawful
  | consumeBytes count => exact lawful_consumeBytes_iff hlawful hreported
  | setRaw enabled => exact lawful_setRaw_iff hlawful enabled

end

end Step

/-! ### Runs -/

/-- A cleared terminal keeps to the discipline. -/
theorem lawful_start (raw : Bool) : Lawful (.start raw) := by
  refine ⟨rfl, rfl, iff_of_false Bool.false_ne_true ?_⟩
  cases raw <;> simp [Ledger.start]

/-- Every state of a run keeps to the discipline exactly if every call of it is orderly. -/
theorem lawful_iff (raw : Bool) (calls : List Call)
    (hreported : Allowed Reported Ledger.step (.start raw) calls) :
    (∀ count, Lawful ((calls.take count).foldl Ledger.step (.start raw))) ↔
      Allowed Orderly Ledger.step (.start raw) calls :=
  allowed_iff (fun _ call hlawful ↦ hlawful.step_iff call) (lawful_start raw) hreported

/-- A line is typed with a mistake in it, and read. -/
def correctedCalls : List Call :=
  [.putchar 108, .putchar 100, .putchar 8, .putchar 115, .putchar 13, .consumeBytes 3, .putchar 8]

theorem lawful_iff_corrected :
    Lawful ((correctedCalls.take 7).foldl Ledger.step (.start false)) :=
  (lawful_iff false correctedCalls (by decide)).mpr (by decide) 7

/-- An erase character after the end of a line erases the end of the line. -/
theorem not_lawful :
    ¬∀ (raw : Bool) (calls : List Call), Allowed Reported Ledger.step (.start raw) calls →
      ∀ count, Lawful ((calls.take count).foldl Ledger.step (.start raw)) := by
  intro hclaim
  have hlawful := hclaim false [.putchar 97, .putchar 10, .putchar 8] (by decide) 3
  exact absurd hlawful.kept (by decide)

end EynOS.Shell.LineDiscipline
