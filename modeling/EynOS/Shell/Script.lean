import Mathlib.Data.Int.Notation
import Mathlib.Data.List.Basic

/-!
# The interpreter of shell scripts

`interpret` cuts a script into lines and goes through them with a stack of the blocks that are
open, as the source does; texts are lists of characters without their terminating zero. What the
script does to the rest of the system goes through `System`: the shell command dispatcher, the
console and the file system, with an arbitrary type for their states. A `Machine` also records an
event for each statement line that is executed and for each command that is run for its output,
with the index of the line; nothing reads this record.

Not modelled: finding, measuring and reading the script file, and the watchdog.
-/

namespace EynOS.Shell.Script

/-! ### What a script acts on -/

/-- A text on the console, in a colour where it has one. -/
structure Printed where
  colour : Option (ℕ × ℕ × ℕ)
  text : List Char
  deriving DecidableEq

/-- What the interpreter uses of the system: `handle_shell_command`, the same with its output caught
by `start_shell_redirect` and `stop_shell_redirect`, `printf`, `resolve_path` for the shell's
current path, and `vfs_stat`, which says whether a path is there and is a file. -/
structure System (World : Type) where
  handleShellCommand : List Char → World → World
  redirected : List Char → World → List Char × World
  print : Printed → World → World
  resolvePath : List Char → World → List Char
  vfsStat : List Char → World → Option Bool

def MAX_VARS : ℕ := 64

def MAX_LINE : ℕ := 512

def MAX_DEPTH : ℕ := 16

def MAX_LINES : ℕ := 2048

/-- `script_env_t`: the variables with their values, and the script's path with its arguments. -/
structure Env where
  vars : List (List Char × List Char)
  args : List (List Char)

/-- What is recorded about a line. -/
inductive Event
  /-- A line outside of suppressed blocks that is no keyword of a block is executed. -/
  | statement (line : ℕ)
  /-- A command is run for its output. -/
  | substitution (line : ℕ)
  deriving DecidableEq

def Event.line : Event → ℕ
  | .statement line => line
  | .substitution line => line

/-- The variables, the rest of the system and the record. -/
structure Machine (World : Type) where
  env : Env
  world : World
  trace : List Event

variable {World : Type} (system : System World)

def Machine.record (machine : Machine World) (event : Event) : Machine World :=
  { machine with trace := machine.trace ++ [event] }

def Machine.print (machine : Machine World) (printed : Printed) : Machine World :=
  { machine with world := system.print printed machine.world }

def lineMessage (colour : ℕ × ℕ × ℕ) (message : String) (line : ℕ) : Printed where
  colour := some colour
  text := message.toList ++ "(line ".toList ++ (toString (line + 1)).toList ++ ")\n".toList

/-- The colour of errors. -/
def red : ℕ × ℕ × ℕ := (255, 0, 0)

/-- The colour of warnings. -/
def orange : ℕ × ℕ × ℕ := (255, 128, 0)

/-! ### Variables -/

/-- Blanks and tabulators. -/
def isWs (c : Char) : Bool := c == ' ' || c == '\t'

def skipWs (text : List Char) : List Char := text.dropWhile isWs

def envGet (env : Env) (name : List Char) : Option (List Char) :=
  match name with
  | [digit] =>
    if '0' ≤ digit ∧ digit ≤ '9' then some ((env.args[digit.toNat - '0'.toNat]?).getD [])
    else (env.vars.find? fun var ↦ var.1 == name).map Prod.snd
  | _ => (env.vars.find? fun var ↦ var.1 == name).map Prod.snd

/-- Overwrite the value of the first variable with a name. -/
def overwrite (name value : List Char) : List (List Char × List Char) → List (List Char × List Char)
  | [] => []
  | var :: vars =>
    if var.1 = name then (var.1, value.take 127) :: vars else var :: overwrite name value vars

/-- `env_set`, or nothing where there is no room for another variable. -/
def envSet (env : Env) (name value : List Char) : Option Env :=
  if env.vars.any fun var ↦ var.1 == name then
    some { env with vars := overwrite name value env.vars }
  else if MAX_VARS ≤ env.vars.length then none
  else some { env with vars := env.vars ++ [(name.take 63, value.take 127)] }

/-! ### Variable expansion -/

/-- Letters, digits and the underscore. -/
def isNameChar (c : Char) : Bool :=
  ('a' ≤ c && c ≤ 'z') || ('A' ≤ c && c ≤ 'Z') || ('0' ≤ c && c ≤ '9') || c == '_'

/-- The command up to the parenthesis that closes it, with what follows that. The command has less
than `MAX_LINE` characters; what is longer is left over. -/
def scanCommand : ℕ → List Char → List Char → List Char × List Char
  | _, command, [] => (command, [])
  | depth, command, c :: rest =>
    if MAX_LINE - 1 ≤ command.length then (command, c :: rest)
    else if c = '(' then scanCommand (depth + 1) (command ++ [c]) rest
    else if c = ')' then
      if depth = 1 then (command, rest) else scanCommand (depth - 1) (command ++ [c]) rest
    else scanCommand depth (command ++ [c]) rest

/-- Take the line ends off the end of a text. -/
def stripNewlines (text : List Char) : List Char :=
  (text.reverse.dropWhile fun c ↦ c == '\n' || c == '\r').reverse

def appendTo (dst more : List Char) : List Char := dst ++ more.take (MAX_LINE - 1 - dst.length)

/-- `expand_variables` for a line, with what it has written so far. The result has what is left to
read. Every round reads a character, so that as many rounds suffice as there are characters. -/
def expandVariables (line : ℕ) :
    ℕ → List Char → List Char → Machine World → (List Char × List Char) × Machine World
  | 0, src, dst, machine => ((dst, src), machine)
  | rounds + 1, src, dst, machine =>
    if MAX_LINE - 1 ≤ dst.length then ((dst, src), machine)
    else
      match src with
      | [] => ((dst, []), machine)
      | '$' :: '(' :: rest =>
        let (command, later) := scanCommand 1 [] rest
        let ((expanded, _), machine) := expandVariables line rounds command [] machine
        let (output, world) := system.redirected expanded machine.world
        let machine := { machine with world := world }.record (.substitution line)
        expandVariables line rounds later (appendTo dst (stripNewlines output)) machine
      | '$' :: '{' :: rest =>
        let name := (rest.takeWhile (· != '}')).take 63
        let later := rest.drop name.length
        let later := if later.head? = some '}' then later.tail else later
        expandVariables line rounds later
          (appendTo dst ((envGet machine.env name).getD [])) machine
      | '$' :: rest =>
        let name := (rest.takeWhile isNameChar).take 63
        if name = [] then expandVariables line rounds rest (dst ++ ['$']) machine
        else
          expandVariables line rounds (rest.drop name.length)
            (appendTo dst ((envGet machine.env name).getD [])) machine
      | c :: rest => expandVariables line rounds rest (dst ++ [c]) machine

/-- `expand_variables` for a whole text. -/
def expanded (line : ℕ) (src : List Char) (machine : Machine World) :
    (List Char × List Char) × Machine World :=
  expandVariables system line src.length src [] machine

/-! ### Conditions -/

/-- Take blanks and tabulators off the end of a text. -/
def trimEnd (text : List Char) : List Char := (text.reverse.dropWhile isWs).reverse

/-- What an expanded condition says. -/
def conditionHolds (world : World) (condition : List Char) : Bool :=
  match condition with
  | '-' :: test :: blank :: rest =>
    if (test = 'e' ∨ test = 'f') ∧ isWs blank then
      let path := ((skipWs rest).takeWhile (!isWs ·)).take 127
      match system.vfsStat (system.resolvePath path world) world with
      | none => false
      | some isFile => if test = 'f' then isFile else true
    else comparison
  | _ => comparison
where
  /-- The comparison of two operands, or whether there is a word other than 0. -/
  comparison : Bool :=
    let scan := skipWs (condition.dropWhile (!isWs ·))
    let left := trimEnd ((condition.take (condition.length - scan.length)).take 127)
    let right := ((skipWs (scan.drop 2)).takeWhile fun c ↦ !isWs c && c != '\n').take 127
    if scan.take 2 = ['=', '='] then decide (left = right)
    else if scan.take 2 = ['!', '='] then decide (left ≠ right)
    else !(condition.isEmpty || condition == ['0'])

def evalCondition (line : ℕ) (condition : List Char) (machine : Machine World) :
    Bool × Machine World :=
  let ((text, _), machine) := expanded system line (skipWs condition) machine
  (conditionHolds system machine.world (skipWs text), machine)

/-! ### Statements -/

def startsWithKw (text : List Char) (keyword : String) : Bool :=
  keyword.toList.isPrefixOf text &&
    match (text.drop keyword.length).head? with
    | none => true
    | some c => isWs c

/-- The line `set VAR=value`. -/
def executeSet (line : ℕ) (text : List Char) (machine : Machine World) : Machine World :=
  let rest := skipWs (text.drop 3)
  let name := rest.takeWhile (· != '=')
  if name = [] ∨ name = rest then
    machine.print system (lineMessage red "[script] Error: invalid 'set' syntax " line)
  else
    match envSet machine.env (name.take 63) (rest.drop (name.length + 1)) with
    | none => machine.print system (lineMessage red "[script] Error: too many variables " line)
    | some env => { machine with env := env }

/-- A line that is no keyword of a block, and whether it ends the script. -/
def executeStatement (line : ℕ) (trimmed : List Char) (machine : Machine World) :
    Bool × Machine World :=
  let ((text, left), machine) := expanded system line trimmed (machine.record (.statement line))
  let machine :=
    if MAX_LINE - 1 ≤ text.length ∧ left ≠ [] then
      machine.print system
        { colour := some orange
          text := "[script] Warning: line ".toList ++ (toString (line + 1)).toList ++
            " truncated after expansion\n".toList }
    else machine
  let text := skipWs text
  if text = [] then (false, machine)
  else if startsWithKw text "set" then (false, executeSet system line text machine)
  else if startsWithKw text "echo" then
    (false, machine.print system { colour := none, text := skipWs (text.drop 4) ++ ['\n'] })
  else if startsWithKw text "exit" then (true, machine)
  else
    (false, { machine with
      world := system.handleShellCommand (text.take (MAX_LINE - 1)) machine.world })

/-! ### Blocks -/

/-- `block_type_t`. -/
inductive BlockType
  | blockIf
  | blockWhile
  deriving DecidableEq

/-- `block_entry_t`. -/
structure BlockEntry where
  type : BlockType
  executing : Bool
  anyTaken : Bool
  lineStart : ℕ
  deriving DecidableEq

/-- `block_stack_t`. -/
structure BlockStack where
  stack : ℕ → BlockEntry
  depth : ℕ

def BlockStack.zero : BlockStack where
  stack := fun _ ↦ { type := .blockIf, executing := false, anyTaken := false, lineStart := 0 }
  depth := 0

/-- Change one entry. -/
def BlockStack.modify (blocks : BlockStack) (index : ℕ) (change : BlockEntry → BlockEntry) :
    BlockStack :=
  { blocks with
    stack := fun other ↦ if other = index then change (blocks.stack other) else blocks.stack other }

/-- Some of the lowest entries is not executing. -/
def suppressedBelow (blocks : BlockStack) (depth : ℕ) : Bool :=
  (List.range depth).any fun index ↦ !(blocks.stack index).executing

def blockIsSuppressed (blocks : BlockStack) : Bool := suppressedBelow blocks blocks.depth

/-- Open a block: the entry keeps what the last block in its place has left in the other fields. -/
def BlockStack.push (blocks : BlockStack) (change : BlockEntry → BlockEntry) : BlockStack :=
  { blocks.modify blocks.depth change with depth := blocks.depth + 1 }

/-! ### Lines -/

/-- What a line is before it is expanded. -/
inductive Kind
  | blank
  | ifLine (condition : List Char)
  | elifLine (condition : List Char)
  | elseLine
  | endifLine
  | whileLine (condition : List Char)
  | endwhileLine
  | statement (trimmed : List Char)
  deriving DecidableEq

def kindOf (rawLine : List Char) : Kind :=
  let trimmed := skipWs rawLine
  if trimmed = [] ∨ trimmed.head? = some '#' then .blank
  else if startsWithKw trimmed "if" then .ifLine (skipWs (trimmed.drop 2))
  else if startsWithKw trimmed "elif" then .elifLine (skipWs (trimmed.drop 4))
  else if startsWithKw trimmed "else" then .elseLine
  else if startsWithKw trimmed "endif" then .endifLine
  else if startsWithKw trimmed "while" then .whileLine (skipWs (trimmed.drop 5))
  else if startsWithKw trimmed "endwhile" then .endwhileLine
  else .statement trimmed

/-- The line index for a number of lines that there is room for. The last line that there is room
for goes up to the end of the script. -/
def lineIndex : ℕ → List Char → List (List Char)
  | 0, _ => []
  | 1, text => [text.takeWhile (· != '\x00')]
  | room + 2, text =>
    let line := text.takeWhile (· != '\n')
    let rest := text.drop (line.length + 1)
    line.takeWhile (fun c ↦ c != '\r' && c != '\x00') ::
      if rest = [] then [] else lineIndex (room + 1) rest

/-- What comes after a line. -/
inductive Progress (World : Type)
  | continues (line : ℕ) (blocks : BlockStack) (machine : Machine World)
  | exits (blocks : BlockStack) (machine : Machine World)
  | fails (machine : Machine World)

def innermost (blocks : BlockStack) (type : BlockType) : Bool :=
  blocks.depth != 0 && (blocks.stack (blocks.depth - 1)).type == type

/-- One round of the loop of `interpret`. -/
def interpretLine (line : ℕ) (blocks : BlockStack) (machine : Machine World) :
    Kind → Progress World
  | .blank => .continues (line + 1) blocks machine
  | .ifLine condition =>
    if MAX_DEPTH ≤ blocks.depth then
      .fails (machine.print system (lineMessage red "[script] Error: too many nested blocks " line))
    else
      let top := blocks.depth
      let blocks := blocks.push fun entry ↦ { entry with type := .blockIf }
      if blockIsSuppressed blocks then
        .continues (line + 1)
          (blocks.modify top fun entry ↦
            { entry with executing := false, anyTaken := true }) machine
      else
        let (result, machine) := evalCondition system line condition machine
        .continues (line + 1)
          (blocks.modify top fun entry ↦ { entry with executing := result, anyTaken := result })
          machine
  | .elifLine condition =>
    if innermost blocks .blockIf = false then
      .fails (machine.print system
        (lineMessage red "[script] Error: 'elif' without matching 'if' " line))
    else
      let top := blocks.depth - 1
      if suppressedBelow blocks top then
        .continues (line + 1)
          (blocks.modify top fun entry ↦ { entry with executing := false }) machine
      else if (blocks.stack top).anyTaken then
        .continues (line + 1)
          (blocks.modify top fun entry ↦ { entry with executing := false }) machine
      else
        let (result, machine) := evalCondition system line condition machine
        .continues (line + 1)
          (blocks.modify top fun entry ↦
            { entry with
              executing := result
              anyTaken := if result then true else entry.anyTaken }) machine
  | .elseLine =>
    if innermost blocks .blockIf = false then
      .fails (machine.print system
        (lineMessage red "[script] Error: 'else' without matching 'if' " line))
    else
      let top := blocks.depth - 1
      if suppressedBelow blocks top then
        .continues (line + 1)
          (blocks.modify top fun entry ↦ { entry with executing := false }) machine
      else
        .continues (line + 1)
          (blocks.modify top fun entry ↦ { entry with executing := !entry.anyTaken }) machine
  | .endifLine =>
    if innermost blocks .blockIf = false then
      .fails (machine.print system
        (lineMessage red "[script] Error: 'endif' without matching 'if' " line))
    else .continues (line + 1) { blocks with depth := blocks.depth - 1 } machine
  | .whileLine condition =>
    if MAX_DEPTH ≤ blocks.depth then
      .fails (machine.print system (lineMessage red "[script] Error: too many nested blocks " line))
    else
      let top := blocks.depth
      let blocks := blocks.push fun entry ↦ { entry with type := .blockWhile, lineStart := line }
      if blockIsSuppressed blocks then
        .continues (line + 1)
          (blocks.modify top fun entry ↦ { entry with executing := false }) machine
      else
        let (result, machine) := evalCondition system line condition machine
        .continues (line + 1) (blocks.modify top fun entry ↦ { entry with executing := result })
          machine
  | .endwhileLine =>
    if innermost blocks .blockWhile = false then
      .fails (machine.print system
        (lineMessage red "[script] Error: 'endwhile' without matching 'while' " line))
    else
      let entry := blocks.stack (blocks.depth - 1)
      let popped := { blocks with depth := blocks.depth - 1 }
      if entry.executing then .continues entry.lineStart popped machine
      else .continues (line + 1) popped machine
  | .statement trimmed =>
    if blockIsSuppressed blocks then .continues (line + 1) blocks machine
    else
      let (exitRequested, machine) := executeStatement system line trimmed machine
      if exitRequested then .exits blocks machine else .continues (line + 1) blocks machine

/-- What `interpret` does after its loop. -/
def interpretEnd (blocks : BlockStack) (machine : Machine World) : ℤ × Machine World :=
  if 0 < blocks.depth then
    (0, machine.print system
      { colour := some orange
        text := "[script] Warning: ".toList ++ (toString blocks.depth).toList ++
          " unclosed block(s) at end of script\n".toList })
  else (0, machine)

/-- Some rounds of the loop of `interpret`, from a line. There is no result after them where the
loop has not come to an end. -/
def interpretLoop (kinds : List Kind) :
    ℕ → ℕ → BlockStack → Machine World → Option (ℤ × Machine World)
  | 0, _, _, _ => none
  | rounds + 1, line, blocks, machine =>
    match kinds[line]? with
    | none => some (interpretEnd system blocks machine)
    | some kind =>
      match interpretLine system line blocks machine kind with
      | .continues line blocks machine => interpretLoop kinds rounds line blocks machine
      | .exits blocks machine => some (interpretEnd system blocks machine)
      | .fails machine => some (-1, machine)

/-- `interpret` returns a code and leaves a machine behind. -/
def Interprets (text : List Char) (machine : Machine World) (result : ℤ × Machine World) : Prop :=
  ∃ rounds, interpretLoop system ((lineIndex MAX_LINES text).map kindOf) rounds 0 .zero machine =
    some result

end EynOS.Shell.Script
