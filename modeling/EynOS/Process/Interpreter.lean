import EynOS.Foundation.PartialIteration
import EynOS.Process.ElfLoader
import EynOS.Process.EntryLayout
import Mathlib.Data.List.DropRight

/-!
# Running the interpreter of a program

`user_elf_run_argv` runs, in the place of a program whose file names an interpreter, that
interpreter: it resolves the path, puts the path of the program before its arguments and calls
itself, as the last thing it does. A run is a loop over such calls, each of which opens a file and
loads it (`runTurn`).

A null path, which is refused, is not modelled; neither are messages and the cost that is accounted
to the command.
-/

namespace EynOS.Process.Interpreter

open Foundation ElfLoader InitialStack

/-! ### The system -/

/-- What `vfs_stat` finds. -/
structure Stat where
  isFile : Bool
  size : ℤ

/-- What a run finds around it: the files, which of them the command may read and whether it may
allocate, the sizes that are to be had, and what memory holds before it is written to. -/
structure System where
  mayReadFs : Bool
  mayAllocMemory : Bool
  vfsStat : CString → Option Stat
  malloc : ℕ → Bool
  vfsReadFile : CString → Option (List UInt8)
  environment : Environment
  buffer : ℕ → UInt8
  stack : ℕ → UInt8

/-- The file in its buffer, where it is found, small enough and read. -/
def System.openFile (system : System) (abspath : CString) : Option Image :=
  if abspath.bytes = [] then none
  else if ¬system.mayReadFs then none
  else
    match system.vfsStat abspath with
    | none => none
    | some stat =>
      if ¬stat.isFile ∨ stat.size ≤ 0 then none
      else if hlarge : maxFileBytes < stat.size.toNat then none
      else if ¬system.mayAllocMemory then none
      else if ¬system.malloc stat.size.toNat then none
      else if ¬system.mayReadFs then none
      else
        match system.vfsReadFile abspath with
        | none => none
        | some contents =>
          some
            { size := (contents.take stat.size.toNat).length
              byte := fun index ↦
                (contents.take stat.size.toNat).getD index (system.buffer index)
              bounded := by
                rw [List.length_take]
                omega }

/-! ### The path of the interpreter -/

def slash : UInt8 := 47

def dot : UInt8 := 46

/-- The string in a buffer of the size of `interp_path`. -/
def ofBuffer (buffer : List UInt8) : CString where
  bytes := (buffer.take (interpPathSize - 1)).takeWhile (· ≠ 0)
  nonzero byte hbyte := by simpa using List.mem_takeWhile_imp hbyte
  fits := by
    refine Nat.lt_of_le_of_lt (List.takeWhile_prefix _).length_le ?_
    rw [List.length_take]
    exact Nat.lt_of_le_of_lt (Nat.min_le_left _ _) (by decide)

/-- A path up to its last slash. -/
def directory (path : List UInt8) : List UInt8 := path.rdropWhile (· ≠ slash)

/-- A path without a leading `./`. -/
def withoutDot (path : List UInt8) : List UInt8 :=
  if path.take 2 = [dot, slash] then path.drop 2 else path

/-- What `user_elf_resolve_interp_path` writes to a buffer of a given size. -/
def resolvedBytes (outSize : ℕ) (progAbspath interpPath : List UInt8) : List UInt8 :=
  if interpPath = [] then []
  else if interpPath.head? = some slash then interpPath.take (outSize - 1)
  else if progAbspath.head? ≠ some slash then interpPath.take (outSize - 1)
  else
    let out := (directory progAbspath).take (outSize - 1)
    out ++ (withoutDot interpPath).take (outSize - 1 - out.length)

variable {outSize : ℕ} {progAbspath interpPath path : List UInt8} {byte : UInt8}

theorem mem_of_mem_withoutDot (hbyte : byte ∈ withoutDot path) : byte ∈ path := by
  rw [withoutDot] at hbyte
  split_ifs at hbyte
  · exact List.mem_of_mem_drop hbyte
  · exact hbyte

/-- Every byte of the result comes from one of the two paths. -/
theorem mem_resolvedBytes (hbyte : byte ∈ resolvedBytes outSize progAbspath interpPath) :
    byte ∈ progAbspath ∨ byte ∈ interpPath := by
  rw [resolvedBytes] at hbyte
  split_ifs at hbyte
  · exact absurd hbyte List.not_mem_nil
  · exact .inr (List.mem_of_mem_take hbyte)
  · exact .inr (List.mem_of_mem_take hbyte)
  · rcases List.mem_append.mp hbyte with hout | hrel
    · exact .inl ((List.rdropWhile_prefix _ _).subset (List.mem_of_mem_take hout))
    · exact .inr (mem_of_mem_withoutDot (List.mem_of_mem_take hrel))

theorem length_resolvedBytes_le :
    (resolvedBytes outSize progAbspath interpPath).length ≤ outSize - 1 := by
  rw [resolvedBytes]
  split_ifs <;> simp only [List.length_nil, List.length_append, List.length_take] <;> omega

/-- `user_elf_resolve_interp_path` with a buffer of the size of `interp_path`. -/
def resolveInterpPath (progAbspath interpPath : CString) : CString where
  bytes := resolvedBytes interpPathSize progAbspath.bytes interpPath.bytes
  nonzero byte hbyte :=
    (mem_resolvedBytes hbyte).elim (progAbspath.nonzero byte) (interpPath.nonzero byte)
  fits := Nat.lt_of_le_of_lt length_resolvedBytes_le (by decide)

/-- The path that is run in the place of a program. -/
def interpAbspath (progAbspath : CString) (buffer : List UInt8) : CString :=
  if (resolveInterpPath progAbspath (ofBuffer buffer)).bytes ≠ [] then
    resolveInterpPath progAbspath (ofBuffer buffer)
  else ofBuffer buffer

/-! ### The run -/

/-- The parameters of a call of `user_elf_run_argv`. -/
structure Call where
  abspath : CString
  argc : ℤ
  argv : Option (List (Option CString))
  envp : Option (List CString)

def Call.interpreter (call : Call) (buffer : List UInt8) : Call where
  abspath := interpAbspath call.abspath buffer
  argc := (localArgv (some call.abspath) call.argc call.argv).length - 1
  argv := some ((localArgv (some call.abspath) call.argc call.argv).map some)
  envp := none

/-- A program that is started: the path that it was loaded from, its first instruction, its first
stack pointer, and what memory holds there. -/
structure Started where
  abspath : CString
  entry : ℕ
  esp : ℕ
  memory : ℕ → UInt8

inductive Outcome
  | failed
  | started (program : Started)

/-- `user_stack_page`, the lowest address of the stack. -/
def stackPage : ℕ := userStackTop - initialStackPages * pageSize

/-- `user_stack_top`. -/
def stackTop : ℕ := userStackTop - 0x10

/-- Build the stack of a program that is loaded, and enter it. -/
def start (system : System) (call : Call) (entry : ℕ) : Outcome :=
  let (esp, memory) := userStackBuildArgv stackTop stackPage (some call.abspath) call.argc
    call.argv call.envp system.stack
  if esp = 0 then .failed
  else .started { abspath := call.abspath, entry, esp, memory }

/-- `user_elf_run_argv`, up to the call of itself. -/
def runTurn (system : System) (call : Call) : Outcome ⊕ Call :=
  match system.openFile call.abspath with
  | none => .inl .failed
  | some image =>
    match (userElfRunArgv system.environment image).outcome with
    | .error _ => .inl .failed
    | .ok (.interpreter buffer) => .inr (call.interpreter buffer)
    | .ok (.program entry _ _) => .inl (start system call entry)

end EynOS.Process.Interpreter
