import EynOS.Storage.PathWalk
import Mathlib.Algebra.Order.BigOperators.Group.List
import Mathlib.Algebra.Order.Group.Nat
import Mathlib.Data.List.Infix

/-!
# Relative and absolute paths

`resolve_path` makes an absolute path of the input of a program and of a current directory. A
relative input is joined to the directory and the components are collected on a stack, `parts`, of
64 places. `resolves_iff` is when the result is the path of the directory that the components lead
to, without any that is empty, `.` or `..`: where an absolute input is such a path already, since it
is only copied, and where no more than 64 directories are open on the way of a relative one, since
a store past the end of `parts` is not prevented.

Not modelled: strings that are null pointers.
-/

namespace EynOS.Storage

/-! ### The function -/

/-- `"."`. -/
def dot : List UInt8 := [46]

/-- `".."`. -/
def dotDot : List UInt8 := [46, 46]

/-- The places of `parts`. -/
def partsSize : ℕ := 64

/-- The bytes of `tmp`. -/
def tmpSize : ℕ := 256

/-- `strncat` of what fits into a buffer with a string in it. -/
def catWithin (size : ℕ) (dest source : List UInt8) : List UInt8 :=
  dest ++ source.take (size - dest.length - 1)

/-- The current directory and the input in `tmp`. -/
def joined (cwd input : List UInt8) : List UInt8 :=
  let base := if 1 < cwd.length ∧ cwd.getLast? = some slash then cwd.dropLast else cwd
  let tmp :=
    if base ≠ [] ∧ base.getLast? ≠ some slash then catWithin tmpSize base [slash] else base
  catWithin tmpSize tmp input

/-- The loop of `resolve_path` over the tokens, with `parts`: nothing, where one is stored past its
end. -/
def collectParts : List (List UInt8) → List (List UInt8) → Option (List (List UInt8))
  | parts, [] => some parts
  | parts, tok :: toks =>
    if tok = dot then collectParts parts toks
    else if tok = dotDot then collectParts parts.dropLast toks
    else if parts.length < partsSize then collectParts (parts ++ [tok]) toks
    else none

/-- The loop of `resolve_path` that writes the parts. -/
def writeParts (outsz : ℕ) : List (List UInt8) → List UInt8 → List UInt8
  | [], out => out
  | [part], out => catWithin outsz out part
  | part :: next :: parts, out =>
    writeParts outsz (next :: parts) (catWithin outsz (catWithin outsz out part) [slash])

/-- `resolve_path`: the string in `out`, or nothing, where the behaviour is undefined. -/
def resolvePath (input cwd : List UInt8) (outsz : ℕ) : Option (List UInt8) :=
  if input = [] then some (cwd.take (outsz - 1))
  else if input.head? = some slash then some (input.take (outsz - 1))
  else (collectParts [] (components (joined cwd input))).map fun parts ↦
    writeParts outsz parts [slash]

/-! ### Directories -/

/-- The open directories, after a component. -/
def enter (stack : List (List UInt8)) (name : List UInt8) : List (List UInt8) :=
  if name = dot then stack else if name = dotDot then stack.dropLast else stack ++ [name]

/-- The open directories, after some components. -/
def walk (stack names : List (List UInt8)) : List (List UInt8) := names.foldl enter stack

/-- The directories that an input leads to from the current directory. -/
def meaning (cwd input : List UInt8) : List (List UInt8) :=
  if input.head? = some slash then walk [] (components input)
  else walk [] (components cwd ++ components input)

/-- A component of a path without detours. -/
def Plain (name : List UInt8) : Prop := name ≠ [] ∧ slash ∉ name ∧ name ≠ dot ∧ name ≠ dotDot

def pathOf (names : List (List UInt8)) : List UInt8 := slash :: [slash].intercalate names

/-- An absolute path without components that are empty, `.` or `..`. -/
def Canonical (path : List UInt8) : Prop :=
  ∃ names, path = pathOf names ∧ ∀ name ∈ names, Plain name

/-- The result is the path, without detours, of the directories that the input leads to, and is its
own result. -/
def Resolves (input cwd : List UInt8) (outsz : ℕ) : Prop :=
  ∃ out, resolvePath input cwd outsz = some out ∧ Canonical out ∧
    components out = meaning cwd input ∧ ∀ other, resolvePath out other outsz = some out

/-- An absolute input has no detours, and a relative one leads through at most 64 open
directories. -/
def Resolvable (input cwd : List UInt8) : Prop :=
  if input.head? = some slash then Canonical input
  else ∀ names ∈ (components cwd ++ components input).inits, (walk [] names).length ≤ partsSize

variable {path cwd input front dest source name : List UInt8} {outsz size : ℕ}
  {stack names parts toks : List (List UInt8)}

/-! ### Components -/

theorem components_append (first rest : List UInt8) :
    components (first ++ slash :: rest) = components first ++ components rest := by
  rw [components, List.splitOn_append_cons_self, List.filter_append, components, components]

theorem components_pathOf (hplain : ∀ name ∈ names, Plain name) :
    components (pathOf names) = names := by
  rw [pathOf, components_slash]
  by_cases hnames : names = []
  · subst hnames
    exact components_nil
  · rw [components,
      List.splitOn_intercalate slash (fun name hname ↦ (hplain name hname).2.1) hnames]
    refine List.filter_eq_self.mpr fun name hname ↦ ?_
    simpa using (hplain name hname).1

/-- The bytes that some components take in a path, each with a slash. -/
def bytesOf (names : List (List UInt8)) : ℕ := (names.map fun name ↦ name.length + 1).sum

/-- The bytes of components with slashes between them. -/
theorem length_intercalate (hnames : names ≠ []) :
    ([slash].intercalate names).length + 1 = bytesOf names := by
  induction names with
  | nil => exact absurd rfl hnames
  | cons name names ih =>
    cases names with
    | nil => simp [bytesOf]
    | cons next names =>
      have hrest := ih (List.cons_ne_nil _ _)
      rw [List.intercalate_cons_cons]
      simp only [bytesOf, List.map_cons, List.sum_cons, List.length_append,
        List.length_singleton] at hrest ⊢
      omega

theorem bytesOf_components (path : List UInt8) : bytesOf (components path) ≤ path.length + 1 := by
  have hall := length_intercalate (List.splitOn_ne_nil slash path)
  rw [List.intercalate_splitOn] at hall
  rw [hall]
  exact ((List.filter_sublist (p := (· ≠ []))).map _).sum_le_sum fun _ _ ↦ Nat.zero_le _

theorem bytesOf_absolute (habsolute : path.head? = some slash) :
    bytesOf (components path) ≤ path.length := by
  obtain ⟨rest, rfl⟩ := List.head?_eq_some_iff.mp habsolute
  rw [components_slash, List.length_cons]
  exact bytesOf_components rest

theorem length_pathOf : (pathOf names).length = if names = [] then 1 else bytesOf names := by
  split_ifs with hnames
  · rw [hnames]
    rfl
  · rw [pathOf, List.length_cons, length_intercalate hnames]

/-- There is no slash in a component. -/
theorem slash_not_mem_component (hname : name ∈ components path) : slash ∉ name := by
  have hsplit : name ∈ path.splitOnP (· == slash) := by
    rw [← List.splitOn_eq_splitOnP]
    exact List.mem_of_mem_filter hname
  clear hname
  induction path generalizing name with
  | nil =>
    rw [List.splitOnP_nil, List.mem_singleton] at hsplit
    exact hsplit ▸ List.not_mem_nil
  | cons first path ih =>
    rw [List.splitOnP_cons_eq_if_modifyHead] at hsplit
    split at hsplit
    · rcases List.mem_cons.mp hsplit with rfl | hrest
      · exact List.not_mem_nil
      · exact ih hrest
    · rename_i hfirst
      obtain ⟨start, others, hparts⟩ :=
        List.exists_cons_of_ne_nil (List.splitOnP_ne_nil (· == slash) path)
      rw [hparts] at hsplit ih
      rcases List.mem_cons.mp hsplit with rfl | hrest
      · refine List.not_mem_cons_of_ne_of_not_mem ?_ (ih List.mem_cons_self)
        simpa using Ne.symm fun heq ↦ hfirst (by simp [heq])
      · exact ih (List.mem_cons_of_mem _ hrest)

/-! ### Walking -/

theorem walk_cons : walk stack (name :: names) = walk (enter stack name) names := rfl

/-- What is open was open or was entered. -/
theorem walk_sublist (stack names : List (List UInt8)) :
    (walk stack names).Sublist (stack ++ names) := by
  induction names generalizing stack with
  | nil => exact (List.append_nil stack).symm ▸ List.Sublist.refl _
  | cons name names ih =>
    rw [walk_cons]
    refine (ih (enter stack name)).trans ?_
    rw [enter]
    split_ifs
    · exact (List.Sublist.refl _).append (List.sublist_cons_self _ _)
    · exact (List.dropLast_sublist _).append (List.sublist_cons_self _ _)
    · rw [List.append_assoc, List.singleton_append]

/-- What is open has a name of its own. -/
theorem walk_plain (hstack : ∀ name ∈ stack, Plain name)
    (hnames : ∀ name ∈ names, name ≠ [] ∧ slash ∉ name) :
    ∀ name ∈ walk stack names, Plain name := by
  induction names generalizing stack with
  | nil => exact hstack
  | cons first names ih =>
    rw [walk_cons]
    refine ih ?_ fun name hname ↦ hnames name (List.mem_cons_of_mem _ hname)
    rw [enter]
    split_ifs with hdot hdotDot
    · exact hstack
    · exact fun name hname ↦ hstack name (List.mem_of_mem_dropLast hname)
    · intro name hname
      rcases List.mem_append.mp hname with hold | hnew
      · exact hstack name hold
      · obtain rfl := List.mem_singleton.mp hnew
        obtain ⟨hsome, hslash⟩ := hnames name List.mem_cons_self
        exact ⟨hsome, hslash, hdot, hdotDot⟩

/-- Entering directories without detours. -/
theorem walk_of_plain (hplain : ∀ name ∈ names, Plain name) :
    walk stack names = stack ++ names := by
  induction names generalizing stack with
  | nil => exact (List.append_nil stack).symm
  | cons name names ih =>
    obtain ⟨-, -, hdot, hdotDot⟩ := hplain name List.mem_cons_self
    rw [walk_cons, enter, if_neg hdot, if_neg hdotDot,
      ih fun other hother ↦ hplain other (List.mem_cons_of_mem _ hother), List.append_assoc,
      List.singleton_append]

/-- At most as many directories are open as there are places, after every component. -/
def Fits (stack toks : List (List UInt8)) : Prop :=
  ∀ names ∈ toks.inits, (walk stack names).length ≤ partsSize

theorem fits_cons {tok : List UInt8} :
    Fits stack (tok :: toks) ↔ stack.length ≤ partsSize ∧ Fits (enter stack tok) toks := by
  simp only [Fits, List.inits_cons, List.mem_cons, List.mem_map, forall_eq_or_imp,
    forall_exists_index, and_imp, forall_apply_eq_imp_iff₂]
  exact Iff.rfl

/-- The loop collects the open directories, where there are places for them. -/
theorem collectParts_of_fits (hfits : Fits parts toks) :
    collectParts parts toks = some (walk parts toks) := by
  induction toks generalizing parts with
  | nil => rfl
  | cons tok toks ih =>
    obtain ⟨-, hrest⟩ := fits_cons.mp hfits
    have hlater := ih hrest
    rw [collectParts, walk_cons]
    rw [enter] at hrest hlater ⊢
    split_ifs at hrest hlater ⊢ with hdot hdotDot hroom
    · exact hlater
    · exact hlater
    · exact hlater
    · -- the directory that is entered is open
      have hlength := hrest [] ((List.mem_inits _ _).mpr List.nil_prefix)
      rw [walk, List.foldl_nil, List.length_append, List.length_singleton] at hlength
      exact absurd hlength hroom

/-- Where the loop stores nothing past the end of the places, there are places for the open
directories. -/
theorem fits_of_collectParts (hparts : parts.length ≤ partsSize) {result : List (List UInt8)}
    (hcollect : collectParts parts toks = some result) : Fits parts toks := by
  induction toks generalizing parts with
  | nil => simpa [Fits, walk] using hparts
  | cons tok toks ih =>
    refine fits_cons.mpr ⟨hparts, ?_⟩
    rw [collectParts] at hcollect
    rw [enter]
    split_ifs at hcollect ⊢ with hdot hdotDot hroom
    · exact ih hparts hcollect
    · exact ih (((List.dropLast_sublist _).length_le).trans hparts) hcollect
    · refine ih ?_ hcollect
      rw [List.length_append, List.length_singleton]
      exact hroom

/-! ### Strings -/

theorem catWithin_eq (hroom : dest.length + source.length < size) :
    catWithin size dest source = dest ++ source := by
  rw [catWithin, List.take_of_length_le (by omega)]

/-- The parts are written with slashes between them. -/
theorem writeParts_eq (hroom : dest.length + ([slash].intercalate parts).length < outsz) :
    writeParts outsz parts dest = dest ++ [slash].intercalate parts := by
  fun_induction writeParts outsz parts dest with
  | case1 => simp
  | case2 => rw [catWithin_eq (by simpa using hroom), List.intercalate_singleton]
  | case3 part next parts out ih =>
    rw [List.intercalate_cons_cons, List.length_append, List.length_append, List.length_singleton]
      at hroom
    have hpart : catWithin outsz out part = out ++ part := catWithin_eq (by omega)
    rw [hpart, catWithin_eq (by rw [List.length_append, List.length_singleton]; omega)] at ih ⊢
    rw [ih (by simp only [List.length_append, List.length_singleton]; omega),
      List.intercalate_cons_cons, List.append_assoc, List.append_assoc, List.append_assoc]

theorem exists_slash_end {base : List UInt8} (hbase : base ≠ [])
    (hroom : base.length + 1 < tmpSize) :
    ∃ front, (if base ≠ [] ∧ base.getLast? ≠ some slash then catWithin tmpSize base [slash]
        else base) = front ++ [slash] ∧ components front = components base ∧ front <+: base := by
  by_cases hlast : base.getLast? = some slash
  · rw [if_neg fun hboth ↦ hboth.2 hlast]
    have hbaseEq := List.dropLast_append_getLast? slash hlast
    refine ⟨base.dropLast, hbaseEq.symm, ?_, List.dropLast_prefix base⟩
    rw [← hbaseEq, components_append, components_nil, List.append_nil, List.dropLast_concat]
  · rw [if_pos ⟨hbase, hlast⟩, catWithin_eq hroom]
    exact ⟨base, rfl, rfl, List.prefix_rfl⟩

/-- The path that is normalised is the current directory, a slash and the input. -/
theorem joined_eq (habsolute : cwd.head? = some slash)
    (hroom : cwd.length + input.length + 2 ≤ tmpSize) :
    ∃ front, joined cwd input = front ++ slash :: input ∧ components front = components cwd ∧
      front <+: cwd := by
  have hcwd : cwd ≠ [] := by
    rintro rfl
    simp at habsolute
  obtain ⟨base, hbase, hbaseSome, hcomponents, hpre⟩ :
      ∃ base, (if 1 < cwd.length ∧ cwd.getLast? = some slash then cwd.dropLast else cwd) = base ∧
        base ≠ [] ∧ components base = components cwd ∧ base <+: cwd := by
    split_ifs with hends
    · obtain ⟨hlong, hlast⟩ := hends
      have hcwdEq := List.dropLast_append_getLast? slash hlast
      refine ⟨cwd.dropLast, rfl, ?_, ?_, List.dropLast_prefix cwd⟩
      · intro hnil
        have hlength := congrArg List.length hnil
        rw [List.length_dropLast, List.length_nil] at hlength
        omega
      · conv_rhs => rw [← hcwdEq]
        rw [components_append, components_nil, List.append_nil]
    · exact ⟨cwd, rfl, hcwd, rfl, List.prefix_rfl⟩
  have hlength := hpre.length_le
  obtain ⟨front, hfront, hsame, hshort⟩ := exists_slash_end hbaseSome (by omega)
  have hfrontLength := hshort.length_le
  refine ⟨front, ?_, hsame.trans hcomponents, hshort.trans hpre⟩
  rw [joined]
  simp only [hbase, hfront]
  rw [catWithin_eq, List.append_assoc, List.singleton_append]
  rw [List.length_append, List.length_singleton]
  omega

/-! ### Resolution -/

theorem resolvePath_pathOf (hroom : (pathOf names).length < outsz) (other : List UInt8) :
    resolvePath (pathOf names) other outsz = some (pathOf names) := by
  have hsome : pathOf names ≠ [] := List.cons_ne_nil _ _
  have hslash : (pathOf names).head? = some slash := rfl
  rw [resolvePath, if_neg hsome, if_pos hslash, List.take_of_length_le (by omega)]

/-- The result for an absolute input has no detours just where the input has none. -/
theorem resolves_absolute (hinput : input.head? = some slash) (hroom : input.length < outsz) :
    Resolves input cwd outsz ↔ Canonical input := by
  have hsome : input ≠ [] := by
    rintro rfl
    simp at hinput
  have hcopied : resolvePath input cwd outsz = some input := by
    rw [resolvePath, if_neg hsome, if_pos hinput, List.take_of_length_le (by omega)]
  constructor
  · rintro ⟨out, hout, hcanonical, -⟩
    obtain rfl := Option.some.inj (hcopied.symm.trans hout)
    exact hcanonical
  · rintro ⟨names, rfl, hplain⟩
    refine ⟨_, hcopied, ⟨names, rfl, hplain⟩, ?_, resolvePath_pathOf hroom⟩
    rw [meaning, if_pos hinput, components_pathOf hplain, walk_of_plain hplain, List.nil_append]

/-- The result for a relative input is right just where its directories fit. -/
theorem resolves_relative (hsome : input ≠ []) (hrelative : input.head? ≠ some slash)
    (habsolute : cwd.head? = some slash) (hroom : cwd.length + input.length + 2 ≤ tmpSize)
    (hout : tmpSize ≤ outsz) :
    Resolves input cwd outsz ↔ Fits [] (components cwd ++ components input) := by
  obtain ⟨front, hjoined, hfront, hpre⟩ := joined_eq habsolute hroom
  have hnames : components (joined cwd input) = components cwd ++ components input := by
    rw [hjoined, components_append, hfront]
  have hresolve : resolvePath input cwd outsz =
      (collectParts [] (components cwd ++ components input)).map fun parts ↦
        writeParts outsz parts [slash] := by
    rw [resolvePath, if_neg hsome, if_neg hrelative, hnames]
  constructor
  · rintro ⟨out, hresult, -⟩
    rw [hresolve] at hresult
    obtain ⟨parts, hparts, -⟩ := Option.map_eq_some_iff.mp hresult
    exact fits_of_collectParts (Nat.zero_le _) hparts
  · intro hfits
    rw [collectParts_of_fits hfits, Option.map_some] at hresolve
    have hplain : ∀ name ∈ walk [] (components cwd ++ components input), Plain name := by
      refine walk_plain (by simp) fun name hname ↦ ?_
      rw [← hnames] at hname
      exact ⟨ne_nil_of_mem_component hname, slash_not_mem_component hname⟩
    have hlength : (pathOf (walk [] (components cwd ++ components input))).length < tmpSize := by
      have hsublist := walk_sublist [] (components cwd ++ components input)
      rw [List.nil_append, ← hnames] at hsublist
      have hless := (hsublist.map fun name ↦ name.length + 1).sum_le_sum fun _ _ ↦ Nat.zero_le _
      have hjoinedAbsolute : (joined cwd input).head? = some slash := by
        rw [hjoined]
        cases front with
        | nil => rfl
        | cons first front =>
          obtain ⟨rest, rfl⟩ := hpre
          exact habsolute
      have hbytes := hless.trans (bytesOf_absolute hjoinedAbsolute)
      have hfrontLength := hpre.length_le
      rw [hnames] at hbytes
      rw [hjoined, List.length_append, List.length_cons] at hbytes
      rw [length_pathOf, bytesOf]
      split_ifs
      · decide
      · omega
    rw [writeParts_eq (by
      rw [pathOf, List.length_cons] at hlength
      rw [List.length_singleton]
      omega)] at hresolve
    refine ⟨_, hresolve, ⟨_, rfl, hplain⟩, ?_, fun other ↦ ?_⟩
    · rw [meaning, if_neg hrelative]
      exact components_pathOf hplain
    · exact resolvePath_pathOf (hlength.trans_le hout) other

/-- `resolve_path` gives the path, without empty, `.` or `..` components, of the directories that an
input leads to from the current directory, and stores nothing past the end of `parts`, just where an
absolute input is such a path already and a relative one leads through at most 64 open
directories. -/
theorem resolves_iff (hsome : input ≠ []) (habsolute : cwd.head? = some slash)
    (hroom : cwd.length + input.length + 2 ≤ tmpSize) (hout : tmpSize ≤ outsz) :
    Resolves input cwd outsz ↔ Resolvable input cwd := by
  rw [Resolvable]
  split_ifs with hinput
  · exact resolves_absolute hinput (by omega)
  · exact resolves_relative hsome hinput habsolute hroom hout

/-- A directory above the current one. -/
theorem resolves_above : Resolves [46, 46, 47, 98] [47, 97] 256 := by
  refine (resolves_iff (by decide) (by decide) (by decide) (by decide)).mpr ?_
  rw [Resolvable, if_neg (by decide)]
  decide +kernel

/-- A path of as many directories as there are places, and one more. -/
def deepInput : List UInt8 := (List.replicate 65 [97, slash]).flatten

/-- The last directory of a path that is short enough is stored past the end of `parts`. -/
theorem not_resolves :
    ¬∀ (input cwd : List UInt8) (outsz : ℕ), input ≠ [] → cwd.head? = some slash →
      cwd.length + input.length + 2 ≤ tmpSize → tmpSize ≤ outsz → Resolves input cwd outsz := by
  intro hclaim
  obtain ⟨out, hresult, -⟩ :=
    hclaim deepInput [slash] 256 (by decide) (by decide) (by decide +kernel) (by decide)
  have hundefined : resolvePath deepInput [slash] 256 = none := by decide +kernel
  exact absurd (hundefined.symm.trans hresult) (by simp)

end EynOS.Storage
