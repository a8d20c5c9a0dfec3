import EynOS.Foundation.MachineWord
import EynOS.Foundation.Placement
import Mathlib.Data.List.ReduceOption

/-!
# The initial stack of a user program

`user_stack_build_argv` copies the strings of a program downwards from the top of its stack, the
arguments first and the last one of each list first; it aligns the pointer and pushes the words that
a program reads upwards from its first stack pointer. Each copy and each push checks the floor of
the stack, and each copy the bytes that all strings may take.

`grows_copyStrings` and `grows_pushAll` say what the copies and the pushes leave: strings and words
one behind another, in the order in which they are read. `copyStrings_iff` says when the copies
succeed.
-/

namespace EynOS.Process.InitialStack

open Foundation Reader

/-- `USER_ELF_MAX_ARGC`. -/
def maxArgc : ℕ := 32

/-- `USER_ELF_MAX_ARG_BYTES`. -/
def maxArgBytes : ℕ := 2048

/-- A C string by the bytes before its terminator. No object is larger than `2 ^ 31 - 1` bytes. -/
structure CString where
  bytes : List UInt8
  nonzero : ∀ byte ∈ bytes, byte ≠ 0
  fits : bytes.length < 2147483647

def CString.empty : CString := ⟨[], by simp, by decide⟩

def CString.terminated (string : CString) : List UInt8 := string.bytes ++ [0]

/-! ### The construction -/

/-- The local variables of the construction, and the memory that it writes to. -/
structure Stack where
  sp : ℕ
  totalBytes : ℕ
  memory : ℕ → UInt8

/-- A part of the construction. One that fails leaves the memory as it is. -/
abbrev Build := Except (ℕ → UInt8)

/-- The loop that keeps arguments, with the entries that `local_argv` has left. -/
def keepArgs : ℕ → List (Option CString) → List CString
  | 0, _ => []
  | _, [] => []
  | room + 1, none :: entries => keepArgs (room + 1) entries
  | room + 1, some argument :: entries => argument :: keepArgs room entries

/-- `local_argv`. Where there is no path, the first entry is the empty string. -/
def localArgv (progAbspath : Option CString) (argc : ℤ)
    (argv : Option (List (Option CString))) : List CString :=
  progAbspath.getD .empty :: keepArgs (maxArgc - 1) ((argv.getD []).take argc.toNat)

/-- The entries of `envp` that are counted, of those before its null pointer. -/
def countedEnv (envp : Option (List CString)) : List CString :=
  (envp.getD []).take maxArgc

def copyString (floor : ℕ) (string : CString) (stack : Stack) : Build Stack :=
  let len := u32 (string.bytes.length + 1)
  let totalBytes := u32 (stack.totalBytes + len)
  if maxArgBytes < totalBytes then .error stack.memory
  else
    let sp := u32 (4294967296 + stack.sp - len)
    if sp < floor then .error stack.memory
    else .ok { sp, totalBytes, memory := write stack.memory sp string.terminated }

def copyStrings (floor : ℕ) : List CString → Stack → Build (List ℕ × Stack)
  | [], stack => .ok ([], stack)
  | string :: strings, stack => do
    let (pointers, stack) ← copyStrings floor strings stack
    let stack ← copyString floor string stack
    .ok (stack.sp :: pointers, stack)

def push (floor value : ℕ) (stack : Stack) : Build Stack :=
  let sp := u32 (4294967296 + stack.sp - 4)
  if sp < floor then .error stack.memory
  else .ok { stack with sp, memory := write stack.memory sp (le32 value) }

def pushAll (floor : ℕ) : List ℕ → Stack → Build Stack
  | [], stack => .ok stack
  | value :: values, stack => do
    let stack ← pushAll floor values stack
    push floor value stack

/-- `align_down (sp, 4)`. -/
def Stack.align (stack : Stack) : Stack := { stack with sp := stack.sp / 4 * 4 }

/-- The construction for the arguments and the environment that are kept. -/
def build (floor : ℕ) (arguments environment : List CString) (stack : Stack) : Build Stack := do
  let (argvPtrs, stack) ← copyStrings floor arguments stack
  let (envPtrs, stack) ← copyStrings floor environment stack
  -- the pair of zeros that ends the auxiliary vector
  let stack ← push floor 0 stack.align
  let stack ← push floor 0 stack
  let stack ← push floor 0 stack
  let stack ← pushAll floor envPtrs stack
  let stack ← push floor 0 stack
  let stack ← pushAll floor argvPtrs stack
  push floor arguments.length stack

/-- `user_stack_build_argv`: the stack pointer of the program, or 0, and the memory. -/
def userStackBuildArgv (userStackTop userStackFloor : ℕ) (progAbspath : Option CString) (argc : ℤ)
    (argv : Option (List (Option CString))) (envp : Option (List CString))
    (memory : ℕ → UInt8) : ℕ × (ℕ → UInt8) :=
  match build userStackFloor (localArgv progAbspath argc argv) (countedEnv envp)
    { sp := userStackTop, totalBytes := 0, memory } with
  | .error memory => (0, memory)
  | .ok stack => (stack.sp, stack.memory)

/-! ### The arguments that are kept -/

/-- The loop keeps the arguments that are not null, as many as there is room for. -/
theorem keepArgs_eq (room : ℕ) (entries : List (Option CString)) :
    keepArgs room entries = entries.reduceOption.take room := by
  induction entries generalizing room with
  | nil => cases room <;> simp [keepArgs]
  | cons entry entries ih =>
    cases room with
    | zero => simp [keepArgs]
    | succ room =>
      cases entry with
      | none => rw [keepArgs, ih, List.reduceOption_cons_of_none]
      | some argument => rw [keepArgs, ih, List.reduceOption_cons_of_some, List.take_succ_cons]

/-! ### One step of the construction -/

variable {floor value : ℕ} {string : CString} {strings arguments environment : List CString}
  {values : List ℕ} {stack middle next : Stack} {pointers : List ℕ} {first second : List UInt8}

/-- Where the copies may be: the floor is above all the bytes that they could take. -/
structure Stack.Sound (floor : ℕ) (stack : Stack) : Prop where
  room : maxArgBytes ≤ floor
  above : floor ≤ stack.sp
  below : stack.sp < 4294967296
  counted : stack.totalBytes ≤ maxArgBytes

/-- The stack pointer went down over bytes, and nothing above it changed. -/
structure Grows (stack next : Stack) (bytes : List UInt8) : Prop where
  sp : next.sp + bytes.length = stack.sp
  holds : Holds next.memory next.sp bytes
  keeps : ∀ address, stack.sp ≤ address → next.memory address = stack.memory address

theorem Grows.refl (stack : Stack) : Grows stack stack [] where
  sp := rfl
  holds := holds_nil
  keeps _ _ := rfl

theorem Grows.holds_of_le (hgrows : Grows stack next first) {start : ℕ}
    (hholds : Holds stack.memory start second) (hstart : stack.sp ≤ start) :
    Holds next.memory start second := by
  intro index hindex
  rw [hgrows.keeps _ (Nat.le_add_right_of_le hstart)]
  exact hholds index hindex

theorem Grows.trans (hfirst : Grows stack middle first) (hsecond : Grows middle next second) :
    Grows stack next (second ++ first) where
  sp := by
    have hmiddle := hfirst.sp
    have hnext := hsecond.sp
    rw [List.length_append]
    omega
  holds := by
    refine holds_append.mpr ⟨hsecond.holds, ?_⟩
    rw [hsecond.sp]
    exact hsecond.holds_of_le hfirst.holds (Nat.le_refl _)
  keeps address haddress := by
    have hmiddle := hfirst.sp
    rw [hsecond.keeps _ (by omega), hfirst.keeps _ haddress]

/-- Bytes that are written below the stack pointer. -/
theorem grows_write {sp totalBytes : ℕ} (hsp : sp + first.length = stack.sp) :
    Grows stack { sp, totalBytes, memory := write stack.memory sp first } first where
  sp := hsp
  holds := holds_write
  keeps address haddress := write_of_le (by omega)

theorem CString.length_terminated : string.terminated.length = string.bytes.length + 1 := by
  rw [terminated, List.length_append, List.length_singleton]

/-- A copy succeeds if and only if the bytes and the stack are enough. -/
theorem copyString_iff (hstack : stack.Sound floor) : copyString floor string stack = .ok next ↔
    stack.totalBytes + string.terminated.length ≤ maxArgBytes ∧
      floor + string.terminated.length ≤ stack.sp ∧
        next =
          { sp := stack.sp - string.terminated.length
            totalBytes := stack.totalBytes + string.terminated.length
            memory := write stack.memory (stack.sp - string.terminated.length)
              string.terminated } := by
  have hlen : u32 (string.bytes.length + 1) = string.terminated.length := by
    rw [CString.length_terminated]
    exact u32_of_lt _ (Nat.lt_trans (Nat.succ_lt_succ string.fits) (by decide))
  have hfits : string.terminated.length < 2147483648 := by
    rw [CString.length_terminated]
    exact Nat.succ_lt_succ string.fits
  have hroom := hstack.room
  have habove := hstack.above
  have hbelow := hstack.below
  have hcounted := hstack.counted
  have hbytes : u32 (stack.totalBytes + string.terminated.length) =
      stack.totalBytes + string.terminated.length :=
    u32_of_lt _ (by unfold maxArgBytes at hcounted; omega)
  rw [copyString, hlen, hbytes]
  by_cases hmany : maxArgBytes < stack.totalBytes + string.terminated.length
  · simp [hmany, Nat.not_le.mpr hmany]
  · have hsp : u32 (4294967296 + stack.sp - string.terminated.length) =
        stack.sp - string.terminated.length := by
      rw [show 4294967296 + stack.sp - string.terminated.length =
        stack.sp - string.terminated.length + 4294967296 by omega, u32, Nat.add_mod_right]
      exact Nat.mod_eq_of_lt (by omega)
    rw [if_neg hmany, hsp]
    by_cases hlow : stack.sp - string.terminated.length < floor
    · simp [hlow, show ¬floor + string.terminated.length ≤ stack.sp by omega]
    · simp [hlow, Nat.not_lt.mp hmany, show floor + string.terminated.length ≤ stack.sp by omega,
        eq_comm]

theorem grows_copyString (hstack : stack.Sound floor)
    (hcopy : copyString floor string stack = .ok next) :
    Grows stack next string.terminated ∧ next.Sound floor ∧
      next.totalBytes = stack.totalBytes + string.terminated.length := by
  obtain ⟨hbytes, hsp, rfl⟩ := (copyString_iff hstack).mp hcopy
  refine ⟨grows_write (by omega), ⟨hstack.room, ?_, ?_, hbytes⟩, rfl⟩
  · exact Nat.le_sub_of_add_le hsp
  · exact Nat.lt_of_le_of_lt (Nat.sub_le _ _) hstack.below

/-- A push succeeds if and only if the stack is enough. -/
theorem push_iff (hlow : 4 ≤ stack.sp) (hbelow : stack.sp < 4294967296) :
    push floor value stack = .ok next ↔ floor + 4 ≤ stack.sp ∧
      next =
        { stack with
          sp := stack.sp - 4, memory := write stack.memory (stack.sp - 4) (le32 value) } := by
  have hsp : u32 (4294967296 + stack.sp - 4) = stack.sp - 4 := by
    unfold u32
    omega
  rw [push, hsp]
  by_cases hfloor : stack.sp - 4 < floor
  · simp [hfloor, show ¬floor + 4 ≤ stack.sp by omega]
  · simp [hfloor, show floor + 4 ≤ stack.sp by omega, eq_comm]

theorem grows_push (hlow : 4 ≤ stack.sp) (hbelow : stack.sp < 4294967296)
    (hpush : push floor value stack = .ok next) :
    Grows stack next (le32 value) ∧ floor ≤ next.sp := by
  obtain ⟨hfloor, rfl⟩ := (push_iff hlow hbelow).mp hpush
  exact ⟨grows_write (by rw [length_le32]; omega), Nat.le_sub_of_add_le hfloor⟩

/-! ### All copies and all pushes -/

/-- The bytes of strings. -/
def blocks (strings : List CString) : List (List UInt8) := strings.map CString.terminated

theorem blocks_cons : blocks (string :: strings) = string.terminated :: blocks strings := rfl

theorem bind_eq_ok {Value Result : Type} {part : Build Value} {rest : Value → Build Result}
    {result : Result} :
    (part >>= rest) = .ok result ↔ ∃ value, part = .ok value ∧ rest value = .ok result := by
  cases part with
  | error memory => simp [bind, Except.bind]
  | ok value => simp [bind, Except.bind]

theorem ok_bind {Value Result : Type} {value : Value} {rest : Value → Build Result} :
    ((.ok value : Build Value) >>= rest) = rest value := rfl

/-- Copies leave the strings one behind another, in their order, and note where they are. -/
theorem grows_copyStrings (hstack : stack.Sound floor)
    (hcopy : copyStrings floor strings stack = .ok (pointers, next)) :
    Grows stack next (blocks strings).flatten ∧ next.Sound floor ∧
      next.totalBytes = stack.totalBytes + (blocks strings).flatten.length ∧
      pointers = positions next.sp (blocks strings) := by
  induction strings generalizing pointers next with
  | nil =>
    cases hcopy
    exact ⟨.refl _, hstack, rfl, rfl⟩
  | cons string strings ih =>
    obtain ⟨⟨later, middle⟩, hlater, hrest⟩ := bind_eq_ok.mp hcopy
    obtain ⟨after, hstring, hresult⟩ := bind_eq_ok.mp hrest
    cases hresult
    obtain ⟨hgrows, hmiddle, htotal, rfl⟩ := ih hlater
    obtain ⟨hnext, hsound, hcount⟩ := grows_copyString hmiddle hstring
    refine ⟨hgrows.trans hnext, hsound, ?_, ?_⟩
    · rw [hcount, htotal, blocks_cons, List.flatten_cons, List.length_append]
      omega
    · rw [blocks_cons, positions, hnext.sp]

/-- All strings are copied if and only if the bytes and the stack are enough for them together. -/
theorem copyStrings_iff (hstack : stack.Sound floor) :
    (∃ result, copyStrings floor strings stack = .ok result) ↔
      stack.totalBytes + (blocks strings).flatten.length ≤ maxArgBytes ∧
        floor + (blocks strings).flatten.length ≤ stack.sp := by
  constructor
  · rintro ⟨⟨pointers, next⟩, hcopy⟩
    obtain ⟨hgrows, hnext, htotal, -⟩ := grows_copyStrings hstack hcopy
    rw [← htotal, ← hgrows.sp]
    exact ⟨hnext.counted, Nat.add_le_add_right hnext.above _⟩
  · induction strings with
    | nil => exact fun _ ↦ ⟨_, rfl⟩
    | cons string strings ih =>
      rw [blocks_cons, List.flatten_cons, List.length_append]
      rintro ⟨hbytes, hsp⟩
      obtain ⟨⟨later, middle⟩, hlater⟩ := ih ⟨by omega, by omega⟩
      obtain ⟨hgrows, hmiddle, htotal, -⟩ := grows_copyStrings hstack hlater
      have hmiddleSp := hgrows.sp
      have hstring := (copyString_iff hmiddle).mpr
        ⟨show middle.totalBytes + string.terminated.length ≤ maxArgBytes by omega, by omega, rfl⟩
      exact ⟨_, bind_eq_ok.mpr ⟨_, hlater, bind_eq_ok.mpr ⟨_, hstring, rfl⟩⟩⟩

def wordBytes (values : List ℕ) : List UInt8 := (values.map le32).flatten

theorem length_wordBytes : (wordBytes values).length = 4 * values.length := by
  induction values with
  | nil => rfl
  | cons value values ih =>
    rw [wordBytes, List.map_cons, List.flatten_cons, List.length_append, ← wordBytes, ih,
      length_le32, List.length_cons]
    omega

/-- Pushes leave the words one behind another, in their order. -/
theorem grows_pushAll (hlow : 4 ≤ floor) (hsp : 4 ≤ stack.sp) (hbelow : stack.sp < 4294967296)
    (hpush : pushAll floor values stack = .ok next) :
    Grows stack next (wordBytes values) ∧ (values ≠ [] → floor ≤ next.sp) := by
  induction values generalizing next with
  | nil =>
    cases hpush
    exact ⟨.refl _, fun hempty ↦ absurd rfl hempty⟩
  | cons value values ih =>
    obtain ⟨middle, hmiddle, hnext⟩ := bind_eq_ok.mp hpush
    obtain ⟨hgrows, hfloor⟩ := ih hmiddle
    have hsum := hgrows.sp
    have hmiddleLow : 4 ≤ middle.sp := by
      cases values with
      | nil =>
        cases hmiddle
        exact hsp
      | cons other values => exact hlow.trans (hfloor (List.cons_ne_nil _ _))
    obtain ⟨hword, habove⟩ := grows_push hmiddleLow (by omega) hnext
    exact ⟨hgrows.trans hword, fun _ ↦ habove⟩

/-- All words are pushed if the stack is enough for them together. -/
theorem pushAll_of_le (hlow : 4 ≤ floor) (hbelow : stack.sp < 4294967296)
    (hsp : floor + 4 * values.length ≤ stack.sp) :
    ∃ next, pushAll floor values stack = .ok next := by
  induction values with
  | nil => exact ⟨_, rfl⟩
  | cons value values ih =>
    rw [List.length_cons] at hsp
    obtain ⟨middle, hmiddle⟩ := ih (by omega)
    have hsum := (grows_pushAll hlow (by omega) hbelow hmiddle).1.sp
    rw [length_wordBytes] at hsum
    exact ⟨_, bind_eq_ok.mpr
      ⟨middle, hmiddle, (push_iff (by omega) (by omega)).mpr ⟨by omega, rfl⟩⟩⟩

theorem pushAll_append {more : List ℕ} :
    pushAll floor (values ++ more) stack = pushAll floor more stack >>= pushAll floor values := by
  induction values with
  | nil =>
    rw [List.nil_append]
    cases pushAll floor more stack <;> rfl
  | cons value values ih =>
    rw [List.cons_append, pushAll, ih, bind_assoc]
    rfl

end EynOS.Process.InitialStack
