import EynOS.Foundation.Loop
import EynOS.Storage.GrubModule
import EynOS.Storage.PathWalk
import Mathlib.Data.List.DropRight

/-!
# What the boot loader's reader finds and where it writes

The functions of the GRUB module on one disk. The module splits a path into `pieces`, looks each of
them up in the directory that the one before it leads to, and `walk` is what it ends with.
`walk_eq_ok` says which entries it finds, and `walk_eq_endless` when it does not come back:
where a directory on its way has an endless chain without the name it looks for. `endless_lookUp` is
what this means for all bounds together.

`throughout_read` and its companions list the writes: only the superblock is put where it does not
fit.
-/

namespace EynOS.Storage.Grub

open Foundation Interaction

variable {device : Device} {mount : Mount} {name path comp buf : List UInt8}
  {names : List (List UInt8)} {entry : DirEntry} {block dir : UInt32} {rounds offset len : ℕ}

/-! ### Requests -/

theorem run_readSector (out : Destination) (lba : ℕ) :
    run (answer device) (readSector out lba) buf =
      (match device lba with
        | some sector => .ok sector
        | none => .error .disk, buf) := by
  rw [readSector, run_bind, diskRead, run_request]
  simp only [answer]
  cases device lba <;> rfl

/-! ### The superblock -/

/-- What `eynfs_load_superblock` finds. -/
def mountOf (device : Device) : Except Failure Mount :=
  match (device 0).filter isSuperblock with
  | some sector => .ok { sb := superblockOf sector, sbLba := 0 }
  | none =>
    match device EYNFS_LEGACY_SUPERBLOCK_LBA with
    | none => .error .disk
    | some sector =>
      if isSuperblock sector then
        .ok { sb := superblockOf sector, sbLba := EYNFS_LEGACY_SUPERBLOCK_LBA }
      else .error (.error .badFs "not an EYNFS volume")

/-- `eynfs_load_superblock`. -/
theorem run_loadSuperblock : run (answer device) loadSuperblock buf = (mountOf device, buf) := by
  rw [loadSuperblock, run_bind, diskRead, run_request]
  simp only [answer, mountOf]
  cases (device 0).filter isSuperblock with
  | some sector => rfl
  | none =>
    simp only [run_bind, run_readSector]
    cases device EYNFS_LEGACY_SUPERBLOCK_LBA with
    | none => rfl
    | some sector =>
      cases hsuperblock : isSuperblock sector with
      | true => simp only [hsuperblock, if_true, run_pure]
      | false => simp only [hsuperblock, Bool.false_eq_true, if_false, run_fail]

/-- `eynfs_load_superblock` follows no chain. -/
theorem mountOf_ne_endless : mountOf device ≠ .error .endless := by
  unfold mountOf
  split
  · simp
  · split
    · simp
    · split <;> simp

/-! ### Directories -/

/-- What `eynfs_find_in_dir` does with one block. -/
def lookBlock (device : Device) (mount : Mount) (name : List UInt8) (block : UInt32) :
    Except Failure DirEntry ⊕ UInt32 :=
  if block = 0 then .inl (.error (.error .fileNotFound "entry not found"))
  else
    match device (mount.blockToLba block) with
    | none => .inl (.error .disk)
    | some sector =>
      match entryNamed name sector with
      | some entry => .inl (.ok entry)
      | none => .inr (nextBlock sector)

/-- What `eynfs_find_in_dir` ends with, followed for a number of blocks. -/
def findOn (device : Device) (mount : Mount) (rounds : ℕ) (name : List UInt8) (dir : UInt32) :
    Except Failure DirEntry :=
  (turns (lookBlock device mount name) rounds dir).getD (.error .endless)

/-- `eynfs_find_in_dir`. -/
theorem run_findInDir : run (answer device) (findInDir mount name rounds dir) buf =
    (findOn device mount rounds name dir, buf) := by
  unfold findOn
  induction rounds generalizing dir with
  | zero => rfl
  | succ rounds ih =>
    rw [findInDir, turns, lookBlock]
    by_cases hzero : dir = 0
    · simp only [if_pos hzero, run_fail, Option.getD_some]
    · simp only [if_neg hzero, run_bind, run_readSector]
      cases device (mount.blockToLba dir) with
      | none => rfl
      | some sector =>
        cases hnamed : entryNamed name sector with
        | some entry => simp only [hnamed, run_pure, Option.getD_some]
        | none => simp only [hnamed, ih]

/-- The loop of one lookup does not report that it is endless. -/
theorem not_exits_endless {count : ℕ} :
    ¬Exits (lookBlock device mount name) count dir (.error .endless) := by
  intro hexits
  generalize hresult : (Except.error Failure.endless : Except Failure DirEntry) = result at hexits
  induction hexits with
  | leave hbody =>
    rw [← hresult] at hbody
    unfold lookBlock at hbody
    split at hbody
    · simp at hbody
    · split at hbody
      · simp at hbody
      · split at hbody <;> simp at hbody
  | turn _ _ ih => exact ih hresult

theorem findOn_eq_ok : findOn device mount rounds name dir = .ok entry ↔
    ∃ count < rounds, Exits (lookBlock device mount name) count dir (.ok entry) := by
  rw [← turns_eq_some, findOn]
  cases turns (lookBlock device mount name) rounds dir <;> simp

/-- The lookups that do not come back. -/
theorem findOn_eq_endless : findOn device mount rounds name dir = .error .endless ↔
    ∀ count result, Exits (lookBlock device mount name) count dir result → rounds ≤ count := by
  constructor
  · intro hfind count result hexits
    by_contra hcount
    rw [findOn, turns_eq_some.mpr ⟨count, Nat.lt_of_not_le hcount, hexits⟩, Option.getD_some]
      at hfind
    exact not_exits_endless (hfind ▸ hexits)
  · intro hlong
    rw [findOn]
    cases hturns : turns (lookBlock device mount name) rounds dir with
    | none => rfl
    | some result =>
      obtain ⟨count, hcount, hexits⟩ := turns_eq_some.mp hturns
      exact absurd (hlong count result hexits) (Nat.not_le_of_lt hcount)

/-! ### Walks -/

/-- Look names up, each in the directory that the one before it leads to. -/
def walk (find : List UInt8 → UInt32 → Except Failure DirEntry) :
    List (List UInt8) → UInt32 → Except Failure DirEntry
  | [], _ => .error (.error .badFilename "empty path component")
  | name :: names, dir =>
    match find name dir with
    | .error failure => .error failure
    | .ok entry =>
      if names = [] then .ok entry
      else if entry.type ≠ EYNFS_TYPE_DIR then
        .error (.error .badFileType "path component is not a directory")
      else walk find names entry.firstBlock

/-- The entries that a walk ends with. -/
theorem walk_eq_ok {find : List UInt8 → UInt32 → Except Failure DirEntry} :
    walk find names dir = .ok entry ↔
      Leads (fun name dir entry ↦ find name dir = .ok entry) names dir entry := by
  induction names generalizing dir with
  | nil =>
    refine ⟨fun hwalk ↦ by simp [walk] at hwalk, fun hleads ↦ ?_⟩
    cases hleads
  | cons name names ih =>
    rw [walk]
    cases hfind : find name dir with
    | error failure =>
      refine ⟨fun hwalk ↦ by simp at hwalk, fun hleads ↦ ?_⟩
      cases hleads with
      | last hholds => exact absurd (hholds.symm.trans hfind) (by simp)
      | next hholds _ _ _ => exact absurd (hholds.symm.trans hfind) (by simp)
    | ok first =>
      by_cases hnames : names = []
      · simp only [hnames, if_true, leads_singleton, hfind]
      · simp only [if_neg hnames, leads_cons hnames, hfind, Except.ok.injEq]
        by_cases htype : first.type = EYNFS_TYPE_DIR
        · rw [if_neg (not_not.mpr htype), ih]
          constructor
          · exact fun hrest ↦ ⟨first, rfl, htype, hrest⟩
          · rintro ⟨_, rfl, -, hrest⟩
            exact hrest
        · rw [if_pos htype]
          refine ⟨fun hwalk ↦ by simp at hwalk, ?_⟩
          rintro ⟨_, rfl, hdir, -⟩
          exact absurd hdir htype

/-- The walks that do not come back. -/
theorem walk_eq_endless {find : List UInt8 → UInt32 → Except Failure DirEntry} :
    walk find names dir = .error .endless ↔
      Stalls (fun name dir entry ↦ find name dir = .ok entry)
        (fun name dir ↦ find name dir = .error .endless) names dir := by
  induction names generalizing dir with
  | nil => exact ⟨fun hwalk ↦ by simp [walk] at hwalk, fun hstalls ↦ absurd hstalls not_stalls_nil⟩
  | cons name names ih =>
    rw [walk, stalls_cons]
    cases hfind : find name dir with
    | error failure => simp
    | ok first =>
      simp only [reduceCtorEq, false_or, Except.ok.injEq]
      by_cases hnames : names = []
      · simp only [hnames, if_true, reduceCtorEq, false_iff]
        rintro ⟨_, -, -, hrest⟩
        exact not_stalls_nil hrest
      · rw [if_neg hnames]
        by_cases htype : first.type = EYNFS_TYPE_DIR
        · rw [if_neg (not_not.mpr htype), ih]
          constructor
          · exact fun hrest ↦ ⟨first, rfl, htype, hrest⟩
          · rintro ⟨_, rfl, -, hrest⟩
            exact hrest
        · rw [if_pos htype]
          refine ⟨fun hwalk ↦ by simp at hwalk, ?_⟩
          rintro ⟨_, rfl, hdir, -⟩
          exact absurd hdir htype

/-! ### Paths -/

/-- What one turn of the loop copies to `comp`, and the rest of the path. -/
def cutComponent : List UInt8 → List UInt8 → List UInt8 × List UInt8
  | [], comp => (comp, [])
  | char :: path, comp =>
    if char ≠ slash ∧ comp.length + 1 < compSize then cutComponent path (comp ++ [char])
    else (comp, char :: path)

/-- Copying a component changes only `comp`. -/
theorem run_copyComponent : run (answer device) (copyComponent path comp) buf =
    (.ok (cutComponent path comp), buf) := by
  induction path generalizing comp with
  | nil => rfl
  | cons char path ih =>
    rw [copyComponent, cutComponent]
    by_cases hroom : char ≠ slash ∧ comp.length + 1 < compSize
    · simp only [if_pos hroom]
      exact ih
    · simp only [if_neg hroom]
      rfl

/-- What is left of a path is not longer than the path. -/
theorem length_cutComponent_le : (cutComponent path comp).2.length ≤ path.length := by
  induction path generalizing comp with
  | nil => exact Nat.le_refl _
  | cons char path ih =>
    rw [cutComponent]
    split
    · exact Nat.le_succ_of_le ih
    · exact Nat.le_refl _

/-- Cutting a component never takes back what was copied. -/
theorem cutComponent_ne_nil (hcomp : comp ≠ []) : (cutComponent path comp).1 ≠ [] := by
  induction path generalizing comp with
  | nil => exact hcomp
  | cons char path ih =>
    rw [cutComponent]
    split
    · exact ih (List.append_ne_nil_of_left_ne_nil hcomp _)
    · exact hcomp

theorem skipSlashes_skipSlashes : skipSlashes (skipSlashes path) = skipSlashes path :=
  List.dropWhile_idempotent (· == slash) path

theorem length_skipSlashes_le : (skipSlashes path).length ≤ path.length :=
  (List.dropWhile_sublist _).length_le

/-- The slashes a path starts with do not matter. -/
theorem pieces_skipSlashes : pieces compSize (skipSlashes path) = pieces compSize path := by
  induction path with
  | nil => rfl
  | cons char path ih =>
    rw [skipSlashes, List.dropWhile_cons]
    by_cases hchar : char = slash
    · rw [if_pos (beq_iff_eq.mpr hchar), pieces, pieces, piecesFrom, if_pos hchar, if_pos rfl]
      exact ih
    · rw [if_neg (by simpa using hchar)]

/-- A path that has been started is cut where the module cuts it. -/
theorem piecesFrom_eq (hcomp : comp ≠ []) : piecesFrom compSize comp path =
    (cutComponent path comp).1 :: pieces compSize (skipSlashes (cutComponent path comp).2) := by
  induction path generalizing comp with
  | nil =>
    rw [piecesFrom, if_neg hcomp]
    rfl
  | cons char path ih =>
    rw [piecesFrom, cutComponent]
    by_cases hchar : char = slash
    · rw [if_pos hchar, if_neg hcomp, if_neg (fun hgoes ↦ hgoes.1 hchar), pieces_skipSlashes]
      rw [pieces, piecesFrom, if_pos hchar, if_pos rfl]
    · rw [if_neg hchar]
      by_cases hroom : comp.length + 1 < compSize
      · rw [if_pos hroom, if_pos ⟨hchar, hroom⟩]
        exact ih (List.append_ne_nil_of_left_ne_nil hcomp _)
      · rw [if_neg hroom, if_neg (fun hgoes ↦ hroom hgoes.2), pieces_skipSlashes]
        rw [pieces, piecesFrom, if_neg hchar, if_pos (by decide : ([] : List UInt8).length + 1 < _)]
        rfl

theorem skipSlashes_eq_cons {char : UInt8} (hskip : skipSlashes path = char :: comp) :
    char ≠ slash := by
  have hhead := List.head?_dropWhile_not (· == slash) path
  rw [← skipSlashes, hskip] at hhead
  simpa using hhead

/-- The pieces of a path that does not only have slashes. -/
theorem pieces_eq_cons (hskip : skipSlashes path ≠ []) :
    pieces compSize path = (cutComponent (skipSlashes path) []).1 ::
      pieces compSize (skipSlashes (cutComponent (skipSlashes path) []).2) ∧
      (cutComponent (skipSlashes path) []).1 ≠ [] ∧
      (skipSlashes (cutComponent (skipSlashes path) []).2).length < path.length := by
  obtain ⟨char, rest, hcons⟩ := List.exists_cons_of_ne_nil hskip
  have hchar := skipSlashes_eq_cons hcons
  have hroom : char ≠ slash ∧ ([] : List UInt8).length + 1 < compSize := ⟨hchar, by decide⟩
  have hcut : cutComponent (skipSlashes path) [] = cutComponent rest [char] := by
    rw [hcons, cutComponent, if_pos hroom]
    rfl
  rw [hcut]
  refine ⟨?_, cutComponent_ne_nil (List.cons_ne_nil char []), ?_⟩
  · rw [← pieces_skipSlashes, hcons, pieces, piecesFrom, if_neg hchar, if_pos hroom.2]
    exact piecesFrom_eq (List.cons_ne_nil char [])
  · calc (skipSlashes (cutComponent rest [char]).2).length
        ≤ (cutComponent rest [char]).2.length := length_skipSlashes_le
      _ ≤ rest.length := length_cutComponent_le
      _ < (skipSlashes path).length := by rw [hcons]; exact Nat.lt_succ_self _
      _ ≤ path.length := length_skipSlashes_le

theorem pieces_eq_nil : pieces compSize path = [] ↔ skipSlashes path = [] := by
  constructor
  · intro hpieces
    by_contra hskip
    rw [(pieces_eq_cons hskip).1] at hpieces
    exact List.cons_ne_nil _ _ hpieces
  · intro hskip
    rw [← pieces_skipSlashes, hskip]
    rfl

/-- The loop of `eynfs_traverse_path` looks up the pieces of the path. -/
theorem run_traverseLoop {count : ℕ} (hcount : path.length ≤ count)
    (hpath : skipSlashes path ≠ []) :
    run (answer device) (traverseLoop mount rounds count path dir) buf =
      (walk (findOn device mount rounds) (pieces compSize path) dir, buf) := by
  induction count generalizing path dir with
  | zero =>
    obtain rfl : path = [] := List.length_eq_zero_iff.mp (Nat.le_zero.mp hcount)
    exact absurd rfl hpath
  | succ count ih =>
    obtain ⟨hpieces, hcomp, hlength⟩ := pieces_eq_cons hpath
    rw [traverseLoop, run_bind, run_copyComponent, hpieces, walk]
    generalize cutComponent (skipSlashes path) [] = cut at hcomp hlength
    obtain ⟨comp, rest⟩ := cut
    simp only [if_neg hcomp, run_bind, run_findInDir]
    cases findOn device mount rounds comp dir with
    | error failure => rfl
    | ok entry =>
      simp only [pieces_skipSlashes, pieces_eq_nil]
      by_cases hrest : skipSlashes rest = []
      · simp only [if_pos hrest, run_pure]
      · simp only [if_neg hrest]
        by_cases htype : entry.type = EYNFS_TYPE_DIR
        · simp only [if_neg (not_not.mpr htype)]
          have hskip : skipSlashes (skipSlashes rest) ≠ [] := by rwa [skipSlashes_skipSlashes]
          rw [ih (Nat.le_of_lt_succ (Nat.lt_of_lt_of_le hlength hcount)) hskip,
            pieces_skipSlashes]
        · simp only [if_pos htype, run_fail]

/-- `eynfs_traverse_path`. -/
theorem run_traversePath : run (answer device) (traversePath mount rounds path) buf =
    (if pieces compSize (cString path) = [] then .ok (rootEntry mount.sb)
      else walk (findOn device mount rounds) (pieces compSize (cString path)) mount.sb.rootDirBlock,
      buf) := by
  simp only [traversePath, pieces_eq_nil]
  by_cases hskip : skipSlashes (cString path) = []
  · rw [if_pos hskip, if_pos hskip, run_pure]
  · have hagain : skipSlashes (skipSlashes (cString path)) ≠ [] := by rwa [skipSlashes_skipSlashes]
    rw [if_neg hskip, if_neg hskip,
      run_traverseLoop length_skipSlashes_le hagain, pieces_skipSlashes]

/-- What a lookup of a path ends with. -/
def lookedUp (device : Device) (rounds : ℕ) (path : List UInt8) (mount : Mount) :
    Except Failure DirEntry :=
  if pieces compSize (cString path) = [] then .ok (rootEntry mount.sb)
  else walk (findOn device mount rounds) (pieces compSize (cString path)) mount.sb.rootDirBlock

theorem run_lookUp : run (answer device) (lookUp rounds path) buf =
    ((mountOf device).bind (lookedUp device rounds path), buf) := by
  rw [lookUp, run_bind, run_loadSuperblock]
  cases mountOf device with
  | error failure => rfl
  | ok mount => exact run_traversePath

/-- What `eynfs_open` makes of an entry. -/
def opened (mount : Mount) (entry : DirEntry) : Except Failure File :=
  if entry.type ≠ EYNFS_TYPE_FILE then .error (.error .badFileType "not a regular file")
  else .ok { mount := mount, fileFirstBlock := entry.firstBlock, size := entry.size }

/-- `eynfs_open`. -/
theorem run_openFile : run (answer device) (openFile rounds path) buf =
    ((mountOf device).bind fun mount ↦ (lookedUp device rounds path mount).bind (opened mount),
      buf) := by
  rw [openFile, run_bind, run_loadSuperblock]
  cases mountOf device with
  | error failure => rfl
  | ok mount =>
    simp only [run_bind, run_traversePath, Except.bind, ← lookedUp.eq_1]
    cases lookedUp device rounds path mount with
    | error failure => rfl
    | ok entry =>
      by_cases htype : entry.type = EYNFS_TYPE_FILE
      · simp only [opened, if_neg (not_not.mpr htype), run_pure]
      · simp only [opened, if_pos htype, run_fail]

/-! ### Reads come back -/

/-- A sequence comes back where both parts do. -/
theorem bind_ne_endless {Result Next : Type} {program : Program Result}
    {continuation : Result → Program Next}
    (hprogram : (run (answer device) program buf).1 ≠ .error .endless)
    (hrest : ∀ result after, (run (answer device) (continuation result) after).1 ≠
      .error .endless) :
    (run (answer device) (program >>= continuation) buf).1 ≠ .error .endless := by
  rw [run_bind]
  generalize run (answer device) program buf = outcome at hprogram ⊢
  obtain ⟨result | result, after⟩ := outcome
  · intro hendless
    obtain rfl := Except.error.inj hendless
    exact hprogram rfl
  · exact hrest result after

theorem readSector_ne_endless (out : Destination) (lba : ℕ) :
    (run (answer device) (readSector out lba) buf).1 ≠ .error .endless := by
  rw [run_readSector]
  cases device lba <;> simp

/-- Skipping blocks comes back. -/
theorem skipLoop_ne_endless {count start : ℕ} :
    (run (answer device) (skipLoop mount count block start) buf).1 ≠ .error .endless := by
  induction count generalizing block start buf with
  | zero => simp [skipLoop]
  | succ count ih =>
    rw [skipLoop]
    split
    · simp
    · exact bind_ne_endless (readSector_ne_endless _ _) fun _ _ ↦ ih

/-- Copying blocks comes back. -/
theorem copyLoop_ne_endless {count start remaining copied : ℕ} :
    (run (answer device) (copyLoop mount count block start remaining copied) buf).1 ≠
      .error .endless := by
  induction count generalizing block start remaining copied buf with
  | zero => simp [copyLoop]
  | succ count ih =>
    rw [copyLoop]
    split
    · simp
    · refine bind_ne_endless (readSector_ne_endless _ _) fun _ _ ↦ ?_
      exact bind_ne_endless (by simp [copy]) fun _ _ ↦ ih

/-- `eynfs_read` comes back. -/
theorem read_ne_endless {file : File} :
    (run (answer device) (read file offset len) buf).1 ≠ .error .endless := by
  rw [read]
  split
  · simp
  · exact bind_ne_endless skipLoop_ne_endless fun _ _ ↦ copyLoop_ne_endless

/-! ### What does not come back -/

/-- A name is in a directory of the disk. -/
def Holds (device : Device) (mount : Mount) (name : List UInt8) (dir : UInt32) (entry : DirEntry) :
    Prop :=
  ∃ count, Exits (lookBlock device mount name) count dir (.ok entry)

/-- A directory of the disk has a chain that does not end, and not the name. -/
def Endless (device : Device) (mount : Mount) (name : List UInt8) (dir : UInt32) : Prop :=
  ¬Ends (lookBlock device mount name) dir

/-- A lookup with a bound finds what is there, or does not come back. -/
theorem Holds.findOn (rounds : ℕ) (hholds : Holds device mount name dir entry) :
    findOn device mount rounds name dir = .ok entry ∨
      findOn device mount rounds name dir = .error .endless := by
  obtain ⟨count, hexits⟩ := hholds
  rcases Nat.lt_or_ge count rounds with hcount | hcount
  · exact Or.inl (findOn_eq_ok.mpr ⟨count, hcount, hexits⟩)
  · refine Or.inr (findOn_eq_endless.mpr fun other result hother ↦ ?_)
    rw [← (hexits.unique hother).1]
    exact hcount

theorem Endless.findOn (rounds : ℕ) (hendless : Endless device mount name dir) :
    findOn device mount rounds name dir = .error .endless :=
  findOn_eq_endless.mpr fun count result hexits ↦ absurd ⟨count, result, hexits⟩ hendless

theorem holds_of_findOn (hfind : findOn device mount rounds name dir = .ok entry) :
    Holds device mount name dir entry := by
  obtain ⟨count, -, hexits⟩ := findOn_eq_ok.mp hfind
  exact ⟨count, hexits⟩

/-- A walk with a bound finds what the names lead to, or does not come back. -/
theorem walk_of_leads (rounds : ℕ) (hleads : Leads (Holds device mount) names dir entry) :
    walk (findOn device mount rounds) names dir = .ok entry ∨
      walk (findOn device mount rounds) names dir = .error .endless := by
  induction hleads with
  | last hholds =>
    rw [walk]
    rcases hholds.findOn rounds with hfind | hfind
    · simp [hfind]
    · simp [hfind]
  | next hholds htype hnames _ ih =>
    rw [walk]
    rcases hholds.findOn rounds with hfind | hfind
    · simpa [hfind, hnames, htype] using ih
    · simp [hfind]

theorem walk_eq_ok_iff (hends : walk (findOn device mount rounds) names dir ≠ .error .endless) :
    walk (findOn device mount rounds) names dir = .ok entry ↔
      Leads (Holds device mount) names dir entry := by
  constructor
  · exact fun hwalk ↦ (walk_eq_ok.mp hwalk).mono fun _ _ _ ↦ holds_of_findOn
  · exact fun hleads ↦ (walk_of_leads rounds hleads).resolve_right hends

/-- A walk whose lookups all end comes back where each of them is followed for long enough. -/
theorem exists_rounds (hwalk : ¬Stalls (Holds device mount) (Endless device mount) names dir) :
    ∃ enough, ∀ rounds, enough ≤ rounds →
      walk (findOn device mount rounds) names dir ≠ .error .endless := by
  induction names generalizing dir with
  | nil => exact ⟨0, fun rounds _ ↦ by simp [walk]⟩
  | cons name names ih =>
    rw [stalls_cons, not_or, Endless, not_not] at hwalk
    obtain ⟨⟨count, result, hexits⟩, hlater⟩ := hwalk
    -- the lookup of the first name ends after `count` blocks; what it finds decides about the rest
    have hfind (rounds : ℕ) (hrounds : count < rounds) :
        findOn device mount rounds name dir = result := by
      rw [findOn, turns_eq_some.mpr ⟨count, hrounds, hexits⟩, Option.getD_some]
    cases result with
    | error failure =>
      refine ⟨count + 1, fun rounds hrounds ↦ ?_⟩
      rw [walk, hfind rounds hrounds]
      intro hendless
      obtain rfl := Except.error.inj hendless
      exact not_exits_endless hexits
    | ok entry =>
      by_cases htype : entry.type = EYNFS_TYPE_DIR
      · obtain ⟨enough, henough⟩ := ih fun hrest ↦ hlater ⟨entry, ⟨count, hexits⟩, htype, hrest⟩
        refine ⟨max (count + 1) enough, fun rounds hrounds ↦ ?_⟩
        rw [walk, hfind rounds (Nat.le_trans (Nat.le_max_left _ _) hrounds)]
        by_cases hnames : names = []
        · simp [hnames]
        · simp only [if_neg hnames, if_neg (not_not.mpr htype)]
          exact henough rounds (Nat.le_trans (Nat.le_max_right _ _) hrounds)
      · refine ⟨count + 1, fun rounds hrounds ↦ ?_⟩
        rw [walk, hfind rounds hrounds]
        simp only [if_pos htype]
        split <;> simp

/-- No directory that the module looks in has an endless chain without the name. -/
def Searchable (device : Device) (path : List UInt8) : Prop :=
  ∀ mount, mountOf device = .ok mount → ¬Stalls (Holds device mount) (Endless device mount)
    (pieces compSize (cString path)) mount.sb.rootDirBlock

/-- Opening a path and reading comes back just where looking up the path does. -/
theorem readPath_eq_endless :
    (run (answer device) (readPath rounds path offset len) buf).1 = .error .endless ↔
      (run (answer device) (lookUp rounds path) buf).1 = .error .endless := by
  rw [readPath, run_bind, run_openFile, run_lookUp]
  cases mountOf device with
  | error failure => simp only [Except.bind, Except.error.injEq]
  | ok mount =>
    simp only [Except.bind]
    cases lookedUp device rounds path mount with
    | error failure => simp only [Except.error.injEq]
    | ok entry =>
      simp only [opened]
      by_cases htype : entry.type = EYNFS_TYPE_FILE
      · simp only [if_neg (not_not.mpr htype), reduceCtorEq, iff_false]
        exact read_ne_endless
      · simp [if_pos htype]

/-- The module comes back from a path just where no directory on its way has an endless chain
without the name that is looked up there. -/
theorem readPath_ends_iff :
    (∃ rounds, (run (answer device) (readPath rounds path offset len) buf).1 ≠ .error .endless) ↔
      Searchable device path := by
  simp only [ne_eq, readPath_eq_endless, run_lookUp]
  constructor
  · rintro ⟨rounds, hends⟩ mount hmount hstalls
    refine hends ?_
    have hpieces : pieces compSize (cString path) ≠ [] := by
      intro hnil
      exact not_stalls_nil (hnil ▸ hstalls)
    rw [hmount, Except.bind, lookedUp, if_neg hpieces, walk_eq_endless]
    exact hstalls.weaken (fun name dir entry hholds ↦ hholds.findOn rounds)
      (fun name dir hendless ↦ hendless.findOn rounds)
  · intro hsearchable
    cases hmount : mountOf device with
    | error failure =>
      refine ⟨0, fun hendless ↦ mountOf_ne_endless (hmount.trans ?_)⟩
      rw [Except.bind, Except.error.injEq] at hendless
      rw [hendless]
    | ok mount =>
      obtain ⟨enough, henough⟩ := exists_rounds (hsearchable mount hmount)
      refine ⟨enough, ?_⟩
      rw [Except.bind, lookedUp]
      split
      · simp
      · exact henough enough (Nat.le_refl _)

/-! ### Buffers -/

/-- A request writes only inside the buffers of the module and of its caller: a sector that is read
fits where it is put, an index is inside `comp`, and a copy inside the bytes that were asked for. -/
def Inside (device : Device) (len : ℕ) (_ : List UInt8) : Request → Prop
  | .diskRead out lba => device lba = none ∨ EYNFS_BLOCK_SIZE ≤ out.size
  | .setComp index _ => index < compSize
  | .copy offset data => offset + data.length ≤ len

theorem throughout_readSector (lba : ℕ) :
    Throughout (answer device) (Inside device len) (readSector .sector lba) buf := by
  refine (throughout_bind _).mpr ⟨⟨Or.inr (Nat.le_refl _), trivial⟩, fun answered after _ ↦ ?_⟩
  cases answered <;> trivial

/-- `eynfs_find_in_dir` only reads sectors. -/
theorem throughout_findInDir :
    Throughout (answer device) (Inside device len) (findInDir mount name rounds dir) buf := by
  induction rounds generalizing dir buf with
  | zero => trivial
  | succ rounds ih =>
    rw [findInDir]
    split
    · trivial
    · refine (throughout_bind _).mpr ⟨throughout_readSector _, fun sector after _ ↦ ?_⟩
      cases hnamed : entryNamed name sector with
      | some entry => trivial
      | none => exact ih

/-- A component is cut where `comp` ends. -/
theorem throughout_copyComponent (hcomp : comp.length < compSize) :
    Throughout (answer device) (Inside device len) (copyComponent path comp) buf := by
  induction path generalizing comp buf with
  | nil => exact (throughout_bind _).mpr ⟨⟨hcomp, trivial⟩, fun _ _ _ ↦ trivial⟩
  | cons char path ih =>
    rw [copyComponent]
    split
    · rename_i hroom
      refine (throughout_bind _).mpr ⟨⟨hcomp, trivial⟩, fun _ _ _ ↦ ih ?_⟩
      rw [List.length_append, List.length_singleton]
      exact hroom.2
    · exact (throughout_bind _).mpr ⟨⟨hcomp, trivial⟩, fun _ _ _ ↦ trivial⟩

/-- The loop of `eynfs_traverse_path` stays in its buffers. -/
theorem throughout_traverseLoop {count : ℕ} :
    Throughout (answer device) (Inside device len) (traverseLoop mount rounds count path dir)
      buf := by
  induction count generalizing path dir buf with
  | zero => trivial
  | succ count ih =>
    rw [traverseLoop]
    refine (throughout_bind _).mpr ⟨throughout_copyComponent (by decide), fun cut after _ ↦ ?_⟩
    obtain ⟨comp, rest⟩ := cut
    dsimp only
    split
    · trivial
    · refine (throughout_bind _).mpr ⟨throughout_findInDir, fun entry after _ ↦ ?_⟩
      split
      · trivial
      · split
        · trivial
        · exact ih

/-- `eynfs_traverse_path` stays in its buffers. -/
theorem throughout_traversePath :
    Throughout (answer device) (Inside device len) (traversePath mount rounds path) buf := by
  rw [traversePath]
  split
  · trivial
  · exact throughout_traverseLoop

/-- Skipping blocks only reads sectors. -/
theorem throughout_skipLoop {count start : ℕ} :
    Throughout (answer device) (Inside device len) (skipLoop mount count block start) buf := by
  induction count generalizing block start buf with
  | zero => trivial
  | succ count ih =>
    rw [skipLoop]
    split
    · trivial
    · exact (throughout_bind _).mpr ⟨throughout_readSector _, fun _ _ _ ↦ ih⟩

/-- The bytes that are copied and those that are left fit in what was asked for. -/
theorem throughout_copyLoop {count start remaining copied : ℕ} (hfits : copied + remaining ≤ len) :
    Throughout (answer device) (Inside device len)
      (copyLoop mount count block start remaining copied) buf := by
  induction count generalizing block start remaining copied buf with
  | zero => trivial
  | succ count ih =>
    rw [copyLoop]
    split
    · trivial
    · refine (throughout_bind _).mpr ⟨throughout_readSector _, fun sector after _ ↦ ?_⟩
      have htake : (if remaining < dataPerBlock - start then remaining else dataPerBlock - start) ≤
          remaining := by split <;> omega
      refine (throughout_bind _).mpr ⟨⟨?_, trivial⟩, fun _ _ _ ↦ ih ?_⟩
      · rw [Inside, dataOf, List.length_map, List.length_range]
        exact Nat.le_trans (Nat.add_le_add_left htake copied) hfits
      · omega

/-- `eynfs_read` stays in the bytes that were asked for. -/
theorem throughout_read {file : File} :
    Throughout (answer device) (Inside device len) (read file offset len) buf := by
  rw [read]
  split
  · trivial
  · refine (throughout_bind _).mpr ⟨throughout_skipLoop, fun found after _ ↦ ?_⟩
    refine throughout_copyLoop ?_
    split <;> omega

/-- `eynfs_load_superblock` stays in its buffer only where it reads nothing. -/
theorem throughout_loadSuperblock :
    Throughout (answer device) (Inside device len) loadSuperblock buf ↔
      device 0 = none ∧ device EYNFS_LEGACY_SUPERBLOCK_LBA = none := by
  have hsmall : ¬EYNFS_BLOCK_SIZE ≤ Destination.superblock.size := by decide
  constructor
  · intro hinside
    obtain ⟨hfirst, hrest⟩ := hinside
    obtain hnone := hfirst.resolve_right hsmall
    refine ⟨hnone, ?_⟩
    simp only [answer, hnone] at hrest
    exact hrest.1.resolve_right hsmall
  · rintro ⟨hfirst, hsecond⟩
    refine ⟨Or.inl hfirst, ?_⟩
    simp only [answer, hfirst]
    refine ⟨Or.inl hsecond, ?_⟩
    simp only [answer, hsecond]
    trivial

/-- Opening a path and reading stays in the buffers only where no superblock can be read. -/
theorem throughout_readPath :
    Throughout (answer device) (Inside device len) (readPath rounds path offset len) buf ↔
      device 0 = none ∧ device EYNFS_LEGACY_SUPERBLOCK_LBA = none := by
  constructor
  · intro hinside
    obtain ⟨hopen, -⟩ := (throughout_bind _).mp hinside
    exact throughout_loadSuperblock.mp ((throughout_bind _).mp hopen).1
  · intro hnone
    refine (throughout_bind _).mpr ⟨?_, fun _ _ _ ↦ throughout_read⟩
    refine (throughout_bind _).mpr ⟨throughout_loadSuperblock.mpr hnone, fun _ _ _ ↦ ?_⟩
    refine (throughout_bind _).mpr ⟨throughout_traversePath, fun entry _ _ ↦ ?_⟩
    split <;> trivial

end EynOS.Storage.Grub
