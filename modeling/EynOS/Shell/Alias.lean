import EynOS.Foundation.Text

/-!
# Aliases of the shell

The table of aliases, the configuration file that it is kept in, and the expansion of a line. A
table is changed by `shell_alias_define` and `shell_alias_remove`, which write the file, and is read
back from the file when it is first used. Texts are lists of characters without their terminating
zero.

Every call finds its own surroundings: what the capabilities of the command allow, the file, and
whether a write succeeds. Not modelled: that the directory of the file is made where it is missing.
-/

namespace EynOS.Shell.Alias

open Foundation

/-! ### Characters and names -/

def ALIAS_MAX_COUNT : ℕ := 32

def ALIAS_MAX_NAME : ℕ := 64

def ALIAS_MAX_TMPL : ℕ := 200

def ALIAS_FILE_MAX : ℕ := 4096

def isAliasWs (c : Char) : Bool := c == ' ' || c == '\t' || c == '\r' || c == '\n'

def isNameChar (c : Char) : Bool :=
  ('a' ≤ c && c ≤ 'z') || ('A' ≤ c && c ≤ 'Z') || ('0' ≤ c && c ≤ '9') || c == '_'

/-- The loop of `alias_normalize_key`, with what it has put out. -/
def normalizeFrom (outCap : ℕ) : List Char → List Char → Bool → Bool → Option (List Char)
  | [], out, sawWord, _ => if sawWord then some out else none
  | c :: rest, out, sawWord, pendingSpace =>
    if isAliasWs c then normalizeFrom outCap rest out sawWord true
    else if ¬isNameChar c then none
    else if pendingSpace && sawWord then
      if outCap ≤ out.length + 1 then none
      else if outCap ≤ out.length + 2 then none
      else normalizeFrom outCap rest (out ++ [' ', c]) true false
    else if outCap ≤ out.length + 1 then none
    else normalizeFrom outCap rest (out ++ [c]) true false

/-- `alias_normalize_key` with a buffer of the size of a name. -/
def aliasNormalizeKey (input : List Char) : Option (List Char) :=
  normalizeFrom ALIAS_MAX_NAME (input.dropWhile isAliasWs) [] false false

def containsMetaChars (text : List Char) : Bool :=
  text.any fun c ↦ c == '|' || c == '<' || c == '>' || c == '&'

/-! ### The table -/

/-- `alias_entry_t`. -/
structure Entry where
  name : List Char
  tmpl : List Char
  deriving DecidableEq

/-- `alias_find_mut`. -/
def aliasFind (entries : List Entry) (name : List Char) : Option Entry :=
  entries.find? fun entry ↦ entry.name == name

/-! ### Reading the file -/

/-- The first `=` with a blank on each side, and what is in front of it and behind it. -/
def splitSeparator : Option Char → List Char → Option (List Char × List Char)
  | _, [] => none
  | previous, c :: rest =>
    if c = '=' ∧ previous.any isAliasWs ∧ rest.head?.any isAliasWs then some ([], rest)
    else (splitSeparator (some c) rest).map fun (left, right) ↦ (c :: left, right)

/-- The end of `alias_parse_config_line`: check a name and a template. -/
def parsed (nameSrc tmplSrc : List Char) : Option (List Char × List Char) :=
  match aliasNormalizeKey (nameSrc.rdropWhile isAliasWs) with
  | none => none
  | some name =>
    let tmpl := tmplSrc.rdropWhile isAliasWs
    if tmpl = [] then none
    else if ALIAS_MAX_TMPL ≤ tmpl.length then none
    else some (name, tmpl)

/-- A template without the `=` that it begins with. -/
def dropEquals (tmplSrc : List Char) : List Char :=
  match tmplSrc with
  | '=' :: later => later.dropWhile isAliasWs
  | _ => tmplSrc

/-- A line with a name in quotes, from behind the first quote on. -/
def parseQuoted (rest : List Char) : Option (List Char × List Char) :=
  match rest.dropWhile (· != '"') with
  | [] => none
  | _ :: behind => parsed (rest.takeWhile (· != '"')) (dropEquals (behind.dropWhile isAliasWs))

/-- A line with a name that is not in quotes. -/
def parseUnquoted (line : List Char) : Option (List Char × List Char) :=
  match splitSeparator none line with
  | some (left, right) => parsed (trim isAliasWs left) (right.dropWhile isAliasWs)
  | none =>
    match line.dropWhile (!isAliasWs ·) with
    | [] => none
    | _ :: behind => parsed (line.takeWhile (!isAliasWs ·)) (behind.dropWhile isAliasWs)

def aliasParseConfigLine (line : List Char) : Option (List Char × List Char) :=
  match trim isAliasWs line with
  | [] => none
  | '#' :: _ => none
  | '"' :: rest => parseQuoted rest
  | line => parseUnquoted line

def loadLine (entries : List Entry) (line : List Char) : List Entry :=
  match aliasParseConfigLine line with
  | none => entries
  | some (name, tmpl) =>
    if containsMetaChars tmpl then entries
    else if (aliasFind entries name).isSome then entries
    else if ALIAS_MAX_COUNT ≤ entries.length then entries
    else entries ++ [{ name, tmpl }]

def loadFile (contents : List Char) : List Entry :=
  (((contents.take (ALIAS_FILE_MAX - 1)).takeWhile (· != '\x00')).splitOn '\n').foldl loadLine []

/-! ### Writing the file -/

/-- The line of an alias. A name of several words is put in quotes. -/
def lineOf (entry : Entry) : List Char :=
  (if entry.name.any isAliasWs then '"' :: (entry.name ++ ['"']) else entry.name) ++
    ' ' :: (entry.tmpl ++ ['\n'])

/-- What `alias_save` puts into its buffer from a position on. -/
def saveFrom : ℕ → List Entry → List Char
  | _, [] => []
  | pos, entry :: entries =>
    if ALIAS_FILE_MAX - 1 ≤ pos + (lineOf entry).length then []
    else lineOf entry ++ saveFrom (pos + (lineOf entry).length) entries

/-- The text that `alias_save` writes. -/
def saveText (entries : List Entry) : List Char := saveFrom 0 entries

/-! ### The calls -/

/-- What a call finds around it. -/
structure Surroundings where
  mayReadFs : Bool
  mayWriteFs : Bool
  file : Option (List Char)
  writeFile : List Char → Bool

/-- The table, and whether it has been loaded. -/
structure State where
  entries : List Entry
  loaded : Bool

def aliasLoadIfNeeded (around : Surroundings) (state : State) : State :=
  if state.loaded then state
  else if ¬around.mayReadFs then state
  else { entries := (around.file.map loadFile).getD [], loaded := true }

/-- `alias_save`: its result, and the text that was written. -/
def aliasSave (around : Surroundings) (entries : List Entry) : ℤ × Option (List Char) :=
  if ¬(around.mayReadFs ∧ around.mayWriteFs) then (-1, none)
  else if around.writeFile (saveText entries) then (0, some (saveText entries))
  else (-1, none)

/-- `shell_alias_define`: its result, and the table. -/
def shellAliasDefine (around : Surroundings) (name templateCmd : List Char) (state : State) :
    ℤ × State :=
  let state := aliasLoadIfNeeded around state
  if name = "__lazy_load_guard__".toList then (-1, state)
  else
    match aliasNormalizeKey name with
    | none => (-1, state)
    | some normName =>
      if templateCmd = [] then (-1, state)
      else if ALIAS_MAX_TMPL ≤ templateCmd.length then (-1, state)
      else if containsMetaChars templateCmd then (-1, state)
      else if (aliasFind state.entries normName).isSome then (-3, state)
      else if ALIAS_MAX_COUNT ≤ state.entries.length then (-4, state)
      else
        let entries := state.entries ++ [{ name := normName, tmpl := templateCmd }]
        ((aliasSave around entries).1, { state with entries })

/-- `shell_alias_remove`: its result, and the table. -/
def shellAliasRemove (around : Surroundings) (name : List Char) (state : State) : ℤ × State :=
  let state := aliasLoadIfNeeded around state
  match aliasNormalizeKey name with
  | none => (-1, state)
  | some normName =>
    if (aliasFind state.entries normName).isSome then
      let entries := state.entries.eraseP fun entry ↦ entry.name == normName
      ((aliasSave around entries).1, { state with entries })
    else (-2, state)

end EynOS.Shell.Alias
