import EynOS.Shell.Script

/-!
# The structured reading of shell scripts

`Block` is a well-nested script: statements, `if` blocks with their branches and `while` blocks.
`Block.lines` writes it down line by line, and `Block.read` is its structured reading, which may
not come to an end. `Block.outside` runs only the lines outside of all blocks. `Block.Silent` says
that a reading in a given machine executes no line and runs no command, and `Block.Conforms` that
every block met while the lines outside are run is silent.
-/

namespace EynOS.Shell.Script

mutual

/-- A well-nested part of a script. -/
inductive Block
  | done
  | blank (rest : Block)
  | statement (trimmed : List Char) (rest : Block)
  | ifThen (condition : List Char) (body : Block) (branches : Branches) (rest : Block)
  | whileDo (condition : List Char) (body : Block) (rest : Block)

/-- What follows the first branch of an `if`. -/
inductive Branches
  | endif
  | elseThen (body : Block)
  | elifThen (condition : List Char) (body : Block) (branches : Branches)

end

mutual

def Block.lines : Block → List Kind
  | .done => []
  | .blank rest => .blank :: rest.lines
  | .statement trimmed rest => .statement trimmed :: rest.lines
  | .ifThen condition body branches rest =>
    .ifLine condition :: (body.lines ++ (branches.lines ++ rest.lines))
  | .whileDo condition body rest =>
    .whileLine condition :: (body.lines ++ (.endwhileLine :: rest.lines))

/-- The lines of the branches that follow, up to `endif`. -/
def Branches.lines : Branches → List Kind
  | .endif => [.endifLine]
  | .elseThen body => .elseLine :: (body.lines ++ [.endifLine])
  | .elifThen condition body branches => .elifLine condition :: (body.lines ++ branches.lines)

end

mutual

def Block.depth : Block → ℕ
  | .done => 0
  | .blank rest => rest.depth
  | .statement _ rest => rest.depth
  | .ifThen _ body branches rest => max (1 + max body.depth branches.depth) rest.depth
  | .whileDo _ body rest => max (1 + body.depth) rest.depth

/-- How deep the blocks in the branches are nested. -/
def Branches.depth : Branches → ℕ
  | .endif => 0
  | .elseThen body => body.depth
  | .elifThen _ body branches => max body.depth branches.depth

end

variable {World : Type} (system : System World)

/-! ### Structured reading -/

/-- Go on after a part that came to an end, unless the script exits there. -/
def andThen (part : Option (Machine World × Bool))
    (rest : Machine World → Option (Machine World × Bool)) : Option (Machine World × Bool) :=
  match part with
  | none => none
  | some (machine, true) => some (machine, true)
  | some (machine, false) => rest machine

mutual

/-- Read a block that starts at a line, as far as some fuel goes: the machine at the end, and
whether the script exits. -/
def Block.read : ℕ → Block → ℕ → Machine World → Option (Machine World × Bool)
  | 0, _, _, _ => none
  | _ + 1, .done, _, machine => some (machine, false)
  | fuel + 1, .blank rest, line, machine => Block.read fuel rest (line + 1) machine
  | fuel + 1, .statement trimmed rest, line, machine =>
    let (exitRequested, machine) := executeStatement system line trimmed machine
    if exitRequested then some (machine, true) else Block.read fuel rest (line + 1) machine
  | fuel + 1, .ifThen condition body branches rest, line, machine =>
    andThen (Branches.read fuel (.elifThen condition body branches) line machine)
      (Block.read fuel rest (line + 1 + body.lines.length + branches.lines.length))
  | fuel + 1, .whileDo condition body rest, line, machine =>
    andThen (readWhile fuel condition body line machine)
      (Block.read fuel rest (line + 1 + body.lines.length + 1))

/-- Read the first branch whose condition holds, where the branches start at a line. -/
def Branches.read : ℕ → Branches → ℕ → Machine World → Option (Machine World × Bool)
  | 0, _, _, _ => none
  | _ + 1, .endif, _, machine => some (machine, false)
  | fuel + 1, .elseThen body, line, machine => Block.read fuel body (line + 1) machine
  | fuel + 1, .elifThen condition body branches, line, machine =>
    let (result, machine) := evalCondition system line condition machine
    if result then Block.read fuel body (line + 1) machine
    else Branches.read fuel branches (line + 1 + body.lines.length) machine

/-- Read a body as long as a condition holds. -/
def readWhile : ℕ → List Char → Block → ℕ → Machine World → Option (Machine World × Bool)
  | 0, _, _, _, _ => none
  | fuel + 1, condition, body, line, machine =>
    let (result, machine) := evalCondition system line condition machine
    if result then
      andThen (Block.read fuel body (line + 1) machine) (readWhile fuel condition body line)
    else some (machine, false)

end

/-- The structured reading of a script comes to an end with a machine. -/
def Reads (block : Block) (start machine : Machine World) : Prop :=
  ∃ fuel exits, block.read system fuel 0 start = some (machine, exits)

/-! ### What happens outside of blocks -/

/-- Run the lines outside of all blocks: the machine at the end, and whether the script exits. -/
def Block.outside : Block → ℕ → Machine World → Machine World × Bool
  | .done, _, machine => (machine, false)
  | .blank rest, line, machine => rest.outside (line + 1) machine
  | .statement trimmed rest, line, machine =>
    let (exitRequested, machine) := executeStatement system line trimmed machine
    if exitRequested then (machine, true) else rest.outside (line + 1) machine
  | .ifThen _ body branches rest, line, machine =>
    rest.outside (line + 1 + body.lines.length + branches.lines.length) machine
  | .whileDo _ body rest, line, machine =>
    rest.outside (line + 1 + body.lines.length + 1) machine

mutual

/-- A reading in a machine executes no line and runs no command. -/
def Block.Silent (machine : Machine World) : Block → ℕ → Prop
  | .done, _ => True
  | .blank rest, line => rest.Silent machine (line + 1)
  | .statement _ _, _ => False
  | .ifThen condition body branches rest, line =>
    (evalCondition system line condition machine).2.trace = machine.trace ∧
      (if (evalCondition system line condition machine).1 then body.Silent machine (line + 1)
      else branches.Silent machine (line + 1 + body.lines.length)) ∧
      rest.Silent machine (line + 1 + body.lines.length + branches.lines.length)
  | .whileDo condition body rest, line =>
    (evalCondition system line condition machine).2.trace = machine.trace ∧
      (evalCondition system line condition machine).1 = false ∧
      rest.Silent machine (line + 1 + body.lines.length + 1)

/-- A reading of the branches in a machine executes no line and runs no command. -/
def Branches.Silent (machine : Machine World) : Branches → ℕ → Prop
  | .endif, _ => True
  | .elseThen body, line => body.Silent machine (line + 1)
  | .elifThen condition body branches, line =>
    (evalCondition system line condition machine).2.trace = machine.trace ∧
      (if (evalCondition system line condition machine).1 then body.Silent machine (line + 1)
      else branches.Silent machine (line + 1 + body.lines.length))

end

/-- While the lines outside of all blocks are run, every block that is met is silent: the conditions
that are evaluated run no command, the branch that is chosen has no line to execute, and a `while`
condition is false. -/
def Block.Conforms : Block → ℕ → Machine World → Prop
  | .done, _, _ => True
  | .blank rest, line, machine => rest.Conforms (line + 1) machine
  | .statement trimmed rest, line, machine =>
    (executeStatement system line trimmed machine).1 = true ∨
      rest.Conforms (line + 1) (executeStatement system line trimmed machine).2
  | .ifThen condition body branches rest, line, machine =>
    (Branches.elifThen condition body branches).Silent system machine line ∧
      rest.Conforms (line + 1 + body.lines.length + branches.lines.length) machine
  | .whileDo condition body rest, line, machine =>
    ((evalCondition system line condition machine).2.trace = machine.trace ∧
      (evalCondition system line condition machine).1 = false) ∧
      rest.Conforms (line + 1 + body.lines.length + 1) machine

end EynOS.Shell.Script
