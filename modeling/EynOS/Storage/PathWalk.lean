import EynOS.Storage.Eynfs

/-!
# Paths and the entries they lead to

A path is a list of names, which are looked up one after the other, each in the directory that the
one before it leads to. `Leads` says which entry that gives and `Stalls` when a lookup on the way is
one of those that do not come back; both leave open what a lookup is.

`components` cuts a path at its slashes. `pieces` cuts it as a reader does that has a buffer of a
fixed size for a name: a longer name becomes several. `piecesFrom_eq_of_components` and
`piecesFrom_eq_of_pieces` say that the two are the same where no name fills the buffer.
-/

namespace EynOS.Storage

/-! ### Walks -/

variable {holds more : List UInt8 → UInt32 → DirEntry → Prop}
  {endless longer : List UInt8 → UInt32 → Prop} {name path comp rest : List UInt8}
  {names : List (List UInt8)} {entry last : DirEntry} {dir : UInt32} {limit : ℕ}

/-- Names lead from a directory to an entry. -/
inductive Leads (holds : List UInt8 → UInt32 → DirEntry → Prop) :
    List (List UInt8) → UInt32 → DirEntry → Prop
  | last {name : List UInt8} {dir : UInt32} {entry : DirEntry} (hholds : holds name dir entry) :
    Leads holds [name] dir entry
  | next {name : List UInt8} {names : List (List UInt8)} {dir : UInt32} {entry last : DirEntry}
    (hholds : holds name dir entry) (htype : entry.type = EYNFS_TYPE_DIR) (hnames : names ≠ [])
    (hrest : Leads holds names entry.firstBlock last) : Leads holds (name :: names) dir last

/-- A lookup that does not come back is among those that names lead to. -/
inductive Stalls (holds : List UInt8 → UInt32 → DirEntry → Prop)
    (endless : List UInt8 → UInt32 → Prop) : List (List UInt8) → UInt32 → Prop
  | here {name : List UInt8} {names : List (List UInt8)} {dir : UInt32}
    (hendless : endless name dir) : Stalls holds endless (name :: names) dir
  | later {name : List UInt8} {names : List (List UInt8)} {dir : UInt32} {entry : DirEntry}
    (hholds : holds name dir entry) (htype : entry.type = EYNFS_TYPE_DIR)
    (hrest : Stalls holds endless names entry.firstBlock) :
    Stalls holds endless (name :: names) dir

/-- One name leads to the entry it finds. -/
theorem leads_singleton : Leads holds [name] dir last ↔ holds name dir last := by
  constructor
  · intro hleads
    cases hleads with
    | last hholds => exact hholds
    | next _ _ hnames _ => exact absurd rfl hnames
  · exact .last

/-- Several names lead through the directory that the first one finds. -/
theorem leads_cons (hnames : names ≠ []) : Leads holds (name :: names) dir last ↔
    ∃ entry, holds name dir entry ∧ entry.type = EYNFS_TYPE_DIR ∧
      Leads holds names entry.firstBlock last := by
  constructor
  · intro hleads
    cases hleads with
    | last _ => exact absurd rfl hnames
    | next hholds htype _ hrest => exact ⟨_, hholds, htype, hrest⟩
  · rintro ⟨entry, hholds, htype, hrest⟩
    exact .next hholds htype hnames hrest

theorem Leads.mono (hmore : ∀ name dir entry, holds name dir entry → more name dir entry)
    (hleads : Leads holds names dir last) : Leads more names dir last := by
  induction hleads with
  | last hholds => exact .last (hmore _ _ _ hholds)
  | next hholds htype hnames _ ih => exact .next (hmore _ _ _ hholds) htype hnames ih

section Inside

variable {inside : UInt32 → Prop} {proper short : List UInt8 → Prop}

/-- Names lead somewhere through lookups that find no less in the directories on the way. -/
theorem Leads.within (hmore : ∀ name dir entry, proper name → inside dir → holds name dir entry →
      more name dir entry)
    (hkeep : ∀ name dir entry, proper name → inside dir → holds name dir entry →
      entry.type = EYNFS_TYPE_DIR → inside entry.firstBlock)
    (hproper : ∀ name ∈ names, proper name) (hdir : inside dir)
    (hleads : Leads holds names dir last) : Leads more names dir last := by
  induction hleads with
  | last hholds => exact .last (hmore _ _ _ (hproper _ List.mem_cons_self) hdir hholds)
  | next hholds htype hnames _ ih =>
    have hname := hproper _ List.mem_cons_self
    refine .next (hmore _ _ _ hname hdir hholds) htype hnames
      (ih (fun name hlater ↦ hproper name (List.mem_cons_of_mem _ hlater)) ?_)
    exact hkeep _ _ _ hname hdir hholds htype

/-- What names lead to was found in some directory. -/
theorem Leads.exists_holds
    (hkeep : ∀ name dir entry, proper name → inside dir → holds name dir entry →
      entry.type = EYNFS_TYPE_DIR → inside entry.firstBlock)
    (hproper : ∀ name ∈ names, proper name) (hdir : inside dir)
    (hleads : Leads holds names dir last) :
    ∃ name parent, inside parent ∧ holds name parent last := by
  induction hleads with
  | last hholds => exact ⟨_, _, hdir, hholds⟩
  | next hholds htype _ _ ih =>
    refine ih (fun name hlater ↦ hproper name (List.mem_cons_of_mem _ hlater)) ?_
    exact hkeep _ _ _ (hproper _ List.mem_cons_self) hdir hholds htype

/-- Every name that leads somewhere was found. -/
theorem Leads.forall_names
    (hshort : ∀ name dir entry, proper name → inside dir → holds name dir entry → short name)
    (hkeep : ∀ name dir entry, proper name → inside dir → holds name dir entry →
      entry.type = EYNFS_TYPE_DIR → inside entry.firstBlock)
    (hproper : ∀ name ∈ names, proper name) (hdir : inside dir)
    (hleads : Leads holds names dir last) : ∀ name ∈ names, short name := by
  induction hleads with
  | last hholds =>
    intro name hname
    obtain rfl := List.mem_singleton.mp hname
    exact hshort _ _ _ (hproper _ hname) hdir hholds
  | next hholds htype _ _ ih =>
    intro name hname
    have hfirst := hproper _ List.mem_cons_self
    rcases List.mem_cons.mp hname with rfl | hlater
    · exact hshort _ _ _ hfirst hdir hholds
    · exact ih (fun name hlater ↦ hproper name (List.mem_cons_of_mem _ hlater))
        (hkeep _ _ _ hfirst hdir hholds htype) name hlater

/-- No walk stalls among directories in which every lookup comes back. -/
theorem not_stalls (hends : ∀ name dir, proper name → inside dir → ¬endless name dir)
    (hkeep : ∀ name dir entry, proper name → inside dir → holds name dir entry →
      entry.type = EYNFS_TYPE_DIR → inside entry.firstBlock)
    (hproper : ∀ name ∈ names, proper name) (hdir : inside dir) :
    ¬Stalls holds endless names dir := by
  intro hstalls
  induction hstalls with
  | here hendless => exact hends _ _ (hproper _ List.mem_cons_self) hdir hendless
  | later hholds htype _ ih =>
    refine ih (fun name hlater ↦ hproper name (List.mem_cons_of_mem _ hlater)) ?_
    exact hkeep _ _ _ (hproper _ List.mem_cons_self) hdir hholds htype

end Inside

theorem not_stalls_nil : ¬Stalls holds endless [] dir := by
  intro hstalls
  cases hstalls

/-- The lookup of the first name does not come back, or a later one. -/
theorem stalls_cons : Stalls holds endless (name :: names) dir ↔ endless name dir ∨
    ∃ entry, holds name dir entry ∧ entry.type = EYNFS_TYPE_DIR ∧
      Stalls holds endless names entry.firstBlock := by
  constructor
  · intro hstalls
    cases hstalls with
    | here hendless => exact Or.inl hendless
    | later hholds htype hrest => exact Or.inr ⟨_, hholds, htype, hrest⟩
  · rintro (hendless | ⟨entry, hholds, htype, hrest⟩)
    · exact .here hendless
    · exact .later hholds htype hrest

/-- A walk still stalls where every lookup finds what it found or does not come back. -/
theorem Stalls.weaken (hstalls : Stalls holds endless names dir)
    (hfind : ∀ name dir entry, holds name dir entry →
      more name dir entry ∨ longer name dir)
    (hendless : ∀ name dir, endless name dir → longer name dir) :
    Stalls more longer names dir := by
  induction hstalls with
  | here hhere => exact .here (hendless _ _ hhere)
  | later hholds htype _ ih =>
    rcases hfind _ _ _ hholds with hmore | hlonger
    · exact .later hmore htype ih
    · exact .here hlonger

/-! ### Components -/

/-- The components of nothing. -/
@[simp] theorem components_nil : components [] = [] := by
  simp [components]

/-- A slash before a path. -/
@[simp] theorem components_slash : components (slash :: path) = components path := by
  simp [components, List.splitOn_eq_splitOnP,
    List.splitOnP_cons_eq_if_modifyHead]

theorem components_name (hcomp : comp ≠ []) (hslash : slash ∉ comp) :
    components comp = [comp] := by
  rw [components, List.splitOn_eq_singleton hslash]
  simp [hcomp]

theorem components_append_slash (hcomp : comp ≠ []) (hslash : slash ∉ comp) :
    components (comp ++ slash :: rest) = comp :: components rest := by
  rw [components, List.splitOn_append_cons_self_of_not_mem hslash]
  simp [hcomp, components]

/-- The first component of a path goes on from what the path starts with. -/
theorem exists_component_ge (hcomp : comp ≠ []) (hslash : slash ∉ comp) :
    ∃ name ∈ components (comp ++ rest), comp.length ≤ name.length := by
  induction rest generalizing comp with
  | nil =>
    rw [List.append_nil, components_name hcomp hslash]
    exact ⟨comp, List.mem_singleton_self comp, Nat.le_refl _⟩
  | cons char rest ih =>
    by_cases hchar : char = slash
    · rw [hchar, components_append_slash hcomp hslash]
      exact ⟨comp, List.mem_cons_self, Nat.le_refl _⟩
    · have hlonger : slash ∉ comp ++ [char] := by
        simp [hslash, Ne.symm hchar]
      obtain ⟨name, hname, hlength⟩ :=
        ih (List.append_ne_nil_of_right_ne_nil comp (by simp)) hlonger
      rw [List.append_assoc, List.singleton_append] at hname
      rw [List.length_append, List.length_singleton] at hlength
      exact ⟨name, hname, Nat.le_of_succ_le hlength⟩

/-- A component has the characters of its path. -/
theorem mem_of_mem_component {char : UInt8} (hname : name ∈ components path) (hchar : char ∈ name) :
    char ∈ path := by
  have hsplit : name ∈ path.splitOnP (· == slash) := by
    rw [← List.splitOn_eq_splitOnP]
    exact List.mem_of_mem_filter hname
  clear hname
  induction path generalizing name with
  | nil =>
    rw [List.splitOnP_nil, List.mem_singleton] at hsplit
    exact hsplit ▸ hchar
  | cons first path ih =>
    rw [List.splitOnP_cons_eq_if_modifyHead] at hsplit
    split at hsplit
    · rcases List.mem_cons.mp hsplit with rfl | hrest
      · exact absurd hchar List.not_mem_nil
      · exact List.mem_cons_of_mem _ (ih hchar hrest)
    · obtain ⟨start, others, hparts⟩ :=
        List.exists_cons_of_ne_nil (List.splitOnP_ne_nil (· == slash) path)
      rw [hparts] at hsplit ih
      rcases List.mem_cons.mp hsplit with rfl | hrest
      · rcases List.mem_cons.mp hchar with rfl | hlater
        · exact List.mem_cons_self
        · exact List.mem_cons_of_mem _ (ih hlater List.mem_cons_self)
      · exact List.mem_cons_of_mem _ (ih hchar (List.mem_cons_of_mem _ hrest))

theorem ne_nil_of_mem_component (hname : name ∈ components path) : name ≠ [] := by
  simpa using (List.mem_filter.mp hname).2

/-! ### Pieces -/

/-- Cut a path at its slashes, and after as many characters as there is room for besides the end of
a string, with the piece that has been started. -/
def piecesFrom (limit : ℕ) : List UInt8 → List UInt8 → List (List UInt8)
  | comp, [] => if comp = [] then [] else [comp]
  | comp, char :: path =>
    if char = slash then
      if comp = [] then piecesFrom limit [] path else comp :: piecesFrom limit [] path
    else if comp.length + 1 < limit then piecesFrom limit (comp ++ [char]) path
    else comp :: piecesFrom limit [char] path

def pieces (limit : ℕ) (path : List UInt8) : List (List UInt8) := piecesFrom limit [] path

/-- Where no component fills the buffer, the pieces are the components. -/
theorem piecesFrom_eq_of_components (hslash : slash ∉ comp)
    (hshort : ∀ name ∈ components (comp ++ path), name.length < limit) :
    piecesFrom limit comp path = components (comp ++ path) := by
  induction path generalizing comp with
  | nil =>
    rw [piecesFrom, List.append_nil]
    by_cases hcomp : comp = []
    · rw [if_pos hcomp, hcomp, components_nil]
    · rw [if_neg hcomp, components_name hcomp hslash]
  | cons char path ih =>
    rw [piecesFrom]
    by_cases hchar : char = slash
    · rw [if_pos hchar, hchar]
      rw [hchar] at hshort
      by_cases hcomp : comp = []
      · rw [hcomp, List.nil_append, components_slash] at hshort
        rw [if_pos hcomp, hcomp, List.nil_append, components_slash]
        exact ih List.not_mem_nil hshort
      · rw [components_append_slash hcomp hslash] at hshort
        rw [if_neg hcomp, components_append_slash hcomp hslash]
        refine congrArg (comp :: ·) (ih List.not_mem_nil fun name hname ↦ ?_)
        exact hshort name (List.mem_cons_of_mem _ hname)
    · have hlonger : slash ∉ comp ++ [char] := by
        simp [hslash, Ne.symm hchar]
      have hsplit : comp ++ char :: path = (comp ++ [char]) ++ path := by simp
      rw [hsplit] at hshort ⊢
      rw [if_neg hchar]
      obtain ⟨name, hname, hlength⟩ := exists_component_ge
        (List.append_ne_nil_of_right_ne_nil comp (List.cons_ne_nil char [])) hlonger
      have hroom := Nat.lt_of_le_of_lt hlength (hshort name hname)
      rw [List.length_append, List.length_singleton] at hroom
      rw [if_pos hroom]
      exact ih hlonger hshort

/-- Where no piece fills the buffer, the pieces are the components. -/
theorem piecesFrom_eq_of_pieces (hslash : slash ∉ comp)
    (hshort : ∀ name ∈ piecesFrom limit comp path, name.length + 1 < limit) :
    piecesFrom limit comp path = components (comp ++ path) := by
  induction path generalizing comp with
  | nil =>
    rw [piecesFrom, List.append_nil]
    by_cases hcomp : comp = []
    · rw [if_pos hcomp, hcomp, components_nil]
    · rw [if_neg hcomp, components_name hcomp hslash]
  | cons char path ih =>
    rw [piecesFrom] at hshort ⊢
    by_cases hchar : char = slash
    · rw [if_pos hchar] at hshort ⊢
      rw [hchar]
      by_cases hcomp : comp = []
      · rw [if_pos hcomp] at hshort ⊢
        rw [hcomp, List.nil_append, components_slash]
        exact ih List.not_mem_nil hshort
      · rw [if_neg hcomp] at hshort ⊢
        rw [components_append_slash hcomp hslash]
        refine congrArg (comp :: ·) (ih List.not_mem_nil fun name hname ↦ ?_)
        exact hshort name (List.mem_cons_of_mem _ hname)
    · have hlonger : slash ∉ comp ++ [char] := by
        simp [hslash, Ne.symm hchar]
      have hsplit : comp ++ char :: path = (comp ++ [char]) ++ path := by simp
      rw [if_neg hchar] at hshort ⊢
      rw [hsplit]
      by_cases hroom : comp.length + 1 < limit
      · rw [if_pos hroom] at hshort ⊢
        exact ih hlonger hshort
      · rw [if_neg hroom] at hshort
        exact absurd (hshort comp List.mem_cons_self) hroom

/-- A piece has the characters of its path. -/
theorem mem_of_mem_piecesFrom {char : UInt8} (hname : name ∈ piecesFrom limit comp path)
    (hchar : char ∈ name) : char ∈ comp ∨ char ∈ path := by
  induction path generalizing comp with
  | nil =>
    rw [piecesFrom] at hname
    split at hname
    · exact absurd hname List.not_mem_nil
    · exact Or.inl (List.mem_singleton.mp hname ▸ hchar)
  | cons first path ih =>
    have hlater (hpath : char ∈ path) : char ∈ comp ∨ char ∈ first :: path :=
      Or.inr (List.mem_cons_of_mem _ hpath)
    rw [piecesFrom] at hname
    split at hname
    · split at hname
      · exact (ih hname).elim (fun hnil ↦ absurd hnil List.not_mem_nil) hlater
      · rcases List.mem_cons.mp hname with rfl | hrest
        · exact Or.inl hchar
        · exact (ih hrest).elim (fun hnil ↦ absurd hnil List.not_mem_nil) hlater
    · split at hname
      · rcases ih hname with hcomp | hpath
        · rcases List.mem_append.mp hcomp with hcomp | hfirst
          · exact Or.inl hcomp
          · exact Or.inr (List.mem_singleton.mp hfirst ▸ List.mem_cons_self)
        · exact hlater hpath
      · rcases List.mem_cons.mp hname with rfl | hrest
        · exact Or.inl hchar
        · rcases ih hrest with hfirst | hpath
          · exact Or.inr (List.mem_singleton.mp hfirst ▸ List.mem_cons_self)
          · exact hlater hpath

end EynOS.Storage
