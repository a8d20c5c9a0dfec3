import EynOS.Shell.AliasFile
import Mathlib.Data.Finset.Max

/-!
# Tables of aliases saved and loaded

`shell_alias_define` and `shell_alias_remove` run one after another in any surroundings keep a table
sound (`sound_of_reachable`). What is saved of a table is the lines of its first entries
(`saveFrom_cases`), and `restores_iff` says which tables the file gives back: those that fit into
the buffer of the save and of which every entry is `Readable`.
-/

namespace EynOS.Shell.Alias

open Foundation

variable {entries saved rest : List Entry} {entry : Entry} {name : List Char}

/-! ### Runs of calls -/

/-- A call on the table, with what it finds around it. A template is a text of C, which ends at its
first zero. -/
inductive Call
  | define (around : Surroundings) (name : List Char)
      (templateCmd : { text : List Char // '\x00' ∉ text })
  | remove (around : Surroundings) (name : List Char)

def step (state : State) : Call → State
  | .define around name templateCmd => (shellAliasDefine around name templateCmd.1 state).2
  | .remove around name => (shellAliasRemove around name state).2

/-- The table before the first call. -/
def start : State := { entries := [], loaded := false }

/-- The tables that calls reach. -/
def Reachable (state : State) : Prop := ∃ calls, Run (Moves step) start calls state

theorem sound_aliasLoadIfNeeded {state : State} (hstate : Sound state.entries)
    (around : Surroundings) : Sound (aliasLoadIfNeeded around state).entries := by
  rw [aliasLoadIfNeeded]
  split_ifs with hloaded hread
  · exact hstate
  · cases around.file with
    | none => exact sound_nil
    | some contents => exact sound_loadFile contents
  · exact hstate

theorem Sound.sublist (hentries : Sound entries) (hsub : saved.Sublist entries) : Sound saved where
  sound entry hentry := hentries.sound entry (hsub.subset hentry)
  names := hentries.names.sublist (hsub.map Entry.name)
  count := hsub.length_le.trans hentries.count

theorem sound_shellAliasDefine {state : State} (hstate : Sound state.entries)
    (around : Surroundings) (name : List Char)
    (templateCmd : { text : List Char // '\x00' ∉ text }) :
    Sound (shellAliasDefine around name templateCmd.1 state).2.entries := by
  have hload := sound_aliasLoadIfNeeded hstate around
  rw [shellAliasDefine]
  dsimp only
  by_cases hguard : name = "__lazy_load_guard__".toList
  · rw [if_pos hguard]
    exact hload
  rw [if_neg hguard]
  split
  · exact hload
  next normName hname =>
    split_ifs with hempty hlong hmeta hfind hroom
    · exact hload
    · exact hload
    · exact hload
    · exact hload
    · exact hload
    · refine hload.concat ⟨isKey_of_normalizeKey hname, hempty, Nat.not_le.mp hlong, ?_,
        templateCmd.2⟩ ?_ (Nat.not_le.mp hroom)
      · exact eq_false_of_ne_true hmeta
      · exact Option.not_isSome_iff_eq_none.mp hfind

theorem sound_shellAliasRemove {state : State} (hstate : Sound state.entries)
    (around : Surroundings) (name : List Char) :
    Sound (shellAliasRemove around name state).2.entries := by
  have hload := sound_aliasLoadIfNeeded hstate around
  rw [shellAliasRemove]
  dsimp only
  split
  · exact hload
  · split_ifs
    · exact hload.sublist List.eraseP_sublist
    · exact hload

/-- What every call keeps. -/
def State.Sound (state : State) : Prop := Alias.Sound state.entries

theorem State.Sound.step {state : State} (hstate : state.Sound) (call : Call) :
    (step state call).Sound := by
  cases call with
  | define around name templateCmd => exact sound_shellAliasDefine hstate around name templateCmd
  | remove around name => exact sound_shellAliasRemove hstate around name

theorem sound_of_reachable {state : State} (hstate : Reachable state) : state.Sound := by
  obtain ⟨calls, hrun⟩ := hstate
  have hstart : start.Sound := sound_nil
  refine hrun.invariant ?_ hstart
  rintro before call after hbefore rfl
  exact hbefore.step call

/-! ### What is saved -/

/-- The lines of the first entries are saved, and those of all where they fit. -/
theorem saveFrom_cases (pos : ℕ) (hpos : pos < ALIAS_FILE_MAX - 1) (entries : List Entry) :
    ∃ saved rest, entries = saved ++ rest ∧ saveFrom pos entries = saved.flatMap lineOf ∧
      pos + (saved.flatMap lineOf).length < ALIAS_FILE_MAX - 1 ∧
        (rest ≠ [] → ALIAS_FILE_MAX - 1 ≤ pos + (entries.flatMap lineOf).length) := by
  induction entries generalizing pos with
  | nil => exact ⟨[], [], rfl, rfl, hpos, fun hrest ↦ absurd rfl hrest⟩
  | cons entry entries ih =>
    rw [saveFrom]
    split_ifs with hfull
    · refine ⟨[], entry :: entries, rfl, rfl, hpos, fun _ ↦ ?_⟩
      rw [List.flatMap_cons, List.length_append]
      omega
    · obtain ⟨saved, rest, rfl, hsaved, hfits, hrest⟩ :=
        ih (pos + (lineOf entry).length) (Nat.not_le.mp hfull)
      refine ⟨entry :: saved, rest, rfl, ?_, ?_, fun hne ↦ ?_⟩
      · rw [hsaved, List.flatMap_cons]
      · rw [List.flatMap_cons, List.length_append, ← Nat.add_assoc]
        exact hfits
      · have hfull := hrest hne
        rw [List.flatMap_cons, List.length_append, ← Nat.add_assoc]
        exact hfull

theorem splitOn_flatMap_lineOf (saved : List Entry) :
    (saved.flatMap lineOf).splitOn '\n' = saved.flatMap entryLines ++ [[]] := by
  induction saved with
  | nil => rfl
  | cons entry saved ih =>
    rw [List.flatMap_cons, lineOf_eq, List.append_assoc, List.singleton_append,
      List.splitOn_append_cons_self, ih, List.flatMap_cons, List.append_assoc, entryLines]

theorem zero_not_mem_lineOf (hentry : entry.Sound) : '\x00' ∉ lineOf entry := by
  have hname : '\x00' ∉ entry.name := fun hmem ↦ by
    rcases hentry.key.chars _ hmem with hname | hspace
    · exact absurd hname (by decide)
    · exact absurd hspace (by decide)
  have hlabel : '\x00' ∉ entry.label := by
    rw [Entry.label]
    split_ifs
    · simpa using hname
    · exact hname
  rw [lineOf_eq]
  simp [hlabel, hentry.terminated]

theorem loadFile_saved (hsaved : ∀ entry ∈ saved, entry.Sound)
    (hfits : (saved.flatMap lineOf).length < ALIAS_FILE_MAX - 1) :
    loadFile (saved.flatMap lineOf) = (saved.flatMap entryLines).foldl loadLine [] := by
  have hzero : ∀ c ∈ saved.flatMap lineOf, (c != '\x00') = true := by
    intro c hc
    obtain ⟨entry, hentry, hmem⟩ := List.mem_flatMap.mp hc
    rw [bne_iff_ne]
    rintro rfl
    exact zero_not_mem_lineOf (hsaved entry hentry) hmem
  rw [loadFile, List.take_of_length_le hfits.le, List.takeWhile_eq_self_iff.mpr hzero,
    splitOn_flatMap_lineOf, List.foldl_append, List.foldl_cons, List.foldl_nil]
  exact loadLine_of_none (parse_of_isBlank fun c hc ↦ absurd hc List.not_mem_nil)

/-! ### The round trip -/

/-- The template that a name is bound to, without the blanks around it. -/
def binding (entries : List Entry) (name : List Char) : Option (List Char) :=
  (aliasFind entries name).map fun entry ↦ trim isAliasWs entry.tmpl

/-- A save of the table that succeeds is loaded as the same table: whoever finds the written file
and has not loaded a table yet binds the same names to the same templates. -/
def Restores (entries : List Entry) : Prop :=
  ∀ around text, aliasSave around entries = (0, some text) →
    ∀ later stale, later.mayReadFs = true → later.file = some text → stale.loaded = false →
      ∀ name, binding (aliasLoadIfNeeded later stale).entries name = binding entries name

/-- A disk without the file, on which everything is allowed. -/
def emptyDisk : Surroundings :=
  { mayReadFs := true, mayWriteFs := true, file := none, writeFile := fun _ ↦ true }

/-- Only the saved text matters. -/
theorem restores_iff_load : Restores entries ↔
    ∀ name, binding (loadFile (saveText entries)) name = binding entries name := by
  constructor
  · intro hrestores
    exact hrestores emptyDisk (saveText entries) rfl
      { emptyDisk with file := some (saveText entries) } start rfl rfl rfl
  · intro hload around text hsave later stale hread hfile hstale name
    have htext : text = saveText entries := by
      rw [aliasSave] at hsave
      split_ifs at hsave with hallowed hwrite
      · exact (Option.some.inj (Prod.mk.inj hsave).2).symm
      · exact absurd (Prod.mk.inj hsave).1 (by decide)
      · exact absurd (Prod.mk.inj hsave).1 (by decide)
    rw [aliasLoadIfNeeded, if_neg (by simp [hstale]), if_neg (by simp [hread]), hfile, htext]
    exact hload name

theorem binding_trimmed (entries : List Entry) (name : List Char) :
    binding (entries.map Entry.trimmed) name = binding entries name := by
  rw [binding, binding, aliasFind, aliasFind, List.find?_map, Option.map_map]
  exact congrArg₂ Option.map (funext fun entry ↦ trim_trim) rfl

/-- An entry that is read as it is says nothing else. -/
theorem parse_of_readable (hsound : entry.Sound) (hreadable : entry.Readable)
    {line tmpl : List Char} (hline : line ∈ entryLines entry)
    (hparse : aliasParseConfigLine line = some (name, tmpl)) :
    tmpl = trim isAliasWs entry.tmpl := by
  obtain ⟨first, others, hlines, hfirst, hothers⟩ := entryLines_of_readable hsound hreadable
  rw [hlines, List.mem_cons] at hline
  rcases hline with rfl | hline
  · rw [hfirst] at hparse
    exact (Prod.mk.inj (Option.some.inj hparse)).2.symm
  · exact absurd hparse (by simp [parse_of_isBlank (hothers line hline)])

/-- A loaded binding comes from a line of a saved entry, and is trimmed. -/
theorem parse_of_binding {tmpl : List Char}
    (hbinding : binding ((saved.flatMap entryLines).foldl loadLine []) name = some tmpl) :
    ∃ entry ∈ saved, ∃ line ∈ entryLines entry, aliasParseConfigLine line = some (name, tmpl) := by
  obtain ⟨loaded, hfind, rfl⟩ := Option.map_eq_some_iff.mp hbinding
  have hname : loaded.name = name := by simpa using List.find?_some hfind
  obtain ⟨line, hline, hparse⟩ :=
    (parse_of_mem_load (List.mem_of_find?_eq_some hfind)).resolve_left List.not_mem_nil
  obtain ⟨entry, hentry, hmem⟩ := List.mem_flatMap.mp hline
  refine ⟨entry, hentry, line, hmem, ?_⟩
  rw [hparse, hname, (cutOut_of_parse hparse).trimmed]

/-- A table that the file gives back has no entry that was not saved and none that is read as
something else. -/
theorem readable_of_restored (hentries : Sound (saved ++ rest))
    (hload : ∀ name, binding ((saved.flatMap entryLines).foldl loadLine []) name =
      binding (saved ++ rest) name) :
    ∀ entry ∈ saved ++ rest, entry ∈ saved ∧ entry.Readable := by
  by_contra hnot
  push Not at hnot
  obtain ⟨lost, hlost, hunread⟩ := hnot
  -- among the entries that are lost, one with a longest template
  classical
  obtain ⟨longest, hlongest, hmax⟩ := Finset.exists_max_image
    ((saved ++ rest).toFinset.filter fun entry ↦ entry ∈ saved → ¬entry.Readable)
    (fun entry ↦ (trim isAliasWs entry.tmpl).length)
    ⟨lost, Finset.mem_filter.mpr ⟨List.mem_toFinset.mpr hlost, hunread⟩⟩
  obtain ⟨hlongest, hunread⟩ := Finset.mem_filter.mp hlongest
  rw [List.mem_toFinset] at hlongest
  have hbinding : binding (saved ++ rest) longest.name = some (trim isAliasWs longest.tmpl) := by
    rw [binding, hentries.find_iff.mpr ⟨hlongest, rfl⟩, Option.map_some]
  -- its name is bound by a line of another entry, which is longer or is the entry itself
  obtain ⟨entry, hentry, line, hline, hparse⟩ :=
    parse_of_binding ((hload longest.name).trans hbinding)
  have hmem := List.mem_append_left rest hentry
  rcases parse_entryLines (hentries.sound entry hmem).key hline hparse with
    ⟨hname, -, hreadable⟩ | hlonger
  · have hsame := List.inj_on_of_nodup_map hentries.names hmem hlongest hname.symm
    exact hunread (hsame ▸ hentry) (hsame ▸ hreadable)
  · by_cases hreadable : entry.Readable
    · have hsame := parse_of_readable (hentries.sound entry hmem) hreadable hline hparse
      exact absurd hlonger (by rw [hsame]; exact Nat.lt_irrefl _)
    · have hle := hmax entry (Finset.mem_filter.mpr ⟨List.mem_toFinset.mpr hmem, fun _ ↦ hreadable⟩)
      exact absurd hlonger (Nat.not_lt.mpr hle)

/-- A sound table is given back exactly if it fits and every entry can be read. -/
theorem restores_iff_of_sound (hentries : Sound entries) : Restores entries ↔
    (entries.flatMap lineOf).length < ALIAS_FILE_MAX - 1 ∧ ∀ entry ∈ entries, entry.Readable := by
  obtain ⟨saved, rest, rfl, hsaved, hfits, hrest⟩ :=
    saveFrom_cases 0 (by decide) entries
  rw [Nat.zero_add] at hfits hrest
  have hloaded : loadFile (saveText (saved ++ rest)) =
      (saved.flatMap entryLines).foldl loadLine [] := by
    rw [saveText, hsaved]
    exact loadFile_saved (fun entry hentry ↦ hentries.sound entry (List.mem_append_left _ hentry))
      hfits
  rw [restores_iff_load, hloaded]
  constructor
  · intro hload
    have hall := readable_of_restored hentries hload
    refine ⟨?_, fun entry hentry ↦ (hall entry hentry).2⟩
    have hnone : rest = [] := by
      refine List.eq_nil_iff_forall_not_mem.mpr fun entry hentry ↦ ?_
      have hmem := (hall entry (List.mem_append_right _ hentry)).1
      have hnodup := List.Nodup.of_map _ hentries.names
      exact (List.nodup_append.mp hnodup).2.2 entry hmem entry hentry rfl
    rw [hnone, List.append_nil]
    exact hfits
  · rintro ⟨hroom, hreadable⟩ name
    have hnone : rest = [] := by
      by_contra hne
      exact absurd (hrest hne) (Nat.not_le.mpr hroom)
    rw [hnone, List.append_nil] at hentries hreadable ⊢
    have hload := load_of_readable (List.nil_append _ ▸ hentries : Sound ([] ++ saved)) hreadable
    rw [List.map_nil, List.nil_append] at hload
    rw [hload, binding_trimmed]

/-- Of the tables that calls reach, the file gives back those whose lines fit into the buffer of the
save and whose entries can all be read. -/
theorem restores_iff {state : State} (hstate : Reachable state) : Restores state.entries ↔
    (state.entries.flatMap lineOf).length < ALIAS_FILE_MAX - 1 ∧
      ∀ entry ∈ state.entries, entry.Readable :=
  restores_iff_of_sound (sound_of_reachable hstate)

/-- Three aliases, of which one is removed and defined again. -/
def definedCalls : List Call :=
  [.define emptyDisk "ls".toList ⟨"dir -l".toList, by decide⟩,
    .define emptyDisk "set".toList ⟨"var x=$1 y".toList, by decide⟩,
    .define emptyDisk "ll".toList ⟨"ls -a".toList, by decide⟩,
    .remove emptyDisk "ls".toList, .define emptyDisk "ls".toList ⟨"dir".toList, by decide⟩]

/-- The file gives back the three aliases. -/
theorem restores_iff_ls :
    let state := definedCalls.foldl step start
    state.entries = [⟨"set".toList, "var x=$1 y".toList⟩, ⟨"ll".toList, "ls -a".toList⟩,
      ⟨"ls".toList, "dir".toList⟩] ∧ Restores state.entries := by
  intro state
  have hentries : state.entries = [⟨"set".toList, "var x=$1 y".toList⟩,
      ⟨"ll".toList, "ls -a".toList⟩, ⟨"ls".toList, "dir".toList⟩] := by decide +kernel
  refine ⟨hentries, (restores_iff ⟨_, Run.of_foldl step start definedCalls⟩).mpr ?_⟩
  change (state.entries.flatMap lineOf).length < _ ∧ ∀ entry ∈ state.entries, entry.Readable
  rw [hentries]
  refine ⟨by decide, ?_⟩
  simp only [List.forall_mem_cons]
  refine ⟨⟨by decide, by decide, ?_⟩, ⟨by decide, by decide, ?_⟩, ⟨by decide, by decide, ?_⟩,
    fun entry hentry ↦ absurd hentry List.not_mem_nil⟩
  all_goals
    rw [if_neg (by decide)]
    exact (@splitSeparator_eq_none _ (some ' ')).mp (by decide)

/-- The template `= y` of the alias `x` is read back as `y`. -/
theorem not_restores : ¬∀ state, Reachable state → Restores state.entries := by
  intro hall
  have hrestores := hall _ ⟨[.define emptyDisk "x".toList ⟨"= y".toList, by decide⟩],
    Run.of_foldl step start _⟩
  have hbinding := restores_iff_load.mp hrestores "x".toList
  exact absurd hbinding (by decide)

end EynOS.Shell.Alias
