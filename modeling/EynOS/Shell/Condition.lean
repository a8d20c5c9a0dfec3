import EynOS.Shell.Script
import Mathlib.Data.List.TakeWhile

/-!
# Conditions compare values

The operands of a condition are literals and references to variables. `eval_condition` looks for
the comparison in the text that is left when these have been replaced by their values: it takes the
first word of that text for the left operand, or for the test of a file. `respects_iff` says for
which values the condition still says what its operands do, and `not_respects` is a variable that is
not set.
-/

namespace EynOS.Shell.Script

variable {World : Type} {system : System World} {machine : Machine World} {line rounds : ℕ}

/-! ### Operands -/

/-- The name of a variable in a reference. -/
structure IsName (name : List Char) : Prop where
  nonempty : name ≠ []
  short : name.length ≤ 63
  chars : ∀ c ∈ name, isNameChar c = true

/-- An operand: a literal, `$NAME` or `${NAME}`. -/
inductive Operand
  | literal (text : List Char)
  | reference (name : List Char)
  | braced (name : List Char)

def Operand.text : Operand → List Char
  | literal text => text
  | reference name => '$' :: name
  | braced name => '$' :: '{' :: (name ++ ['}'])

/-- What an operand stands for. A variable that is not set stands for nothing. -/
def Operand.value (env : Env) : Operand → List Char
  | literal text => text
  | reference name => (envGet env name).getD []
  | braced name => (envGet env name).getD []

/-- A literal has no references in it. -/
def Operand.WellFormed : Operand → Prop
  | literal text => '$' ∉ text
  | reference name => IsName name
  | braced name => IsName name

/-- An operand with a short value without blanks. -/
structure Operand.Plain (env : Env) (operand : Operand) : Prop where
  wellFormed : operand.WellFormed
  blanks : ∀ c ∈ operand.value env, isWs c = false
  short : (operand.value env).length < 127

/-! ### Expansion -/

variable {text rest dst name : List Char}

/-- A character that opens no reference is copied. -/
theorem expandVariables_char {c : Char} (hc : c ≠ '$') (hroom : dst.length < MAX_LINE - 1) :
    expandVariables system line (rounds + 1) (c :: rest) dst machine =
      expandVariables system line rounds rest (dst ++ [c]) machine := by
  rw [expandVariables, if_neg (Nat.not_le.mpr hroom)]
  all_goals intros
  all_goals contradiction

/-- A text without references is copied. -/
theorem expandVariables_text (htext : '$' ∉ text) (hroom : dst.length + text.length < MAX_LINE - 1)
    (hrounds : text.length + rest.length ≤ rounds) :
    ∃ left, rest.length ≤ left ∧ expandVariables system line rounds (text ++ rest) dst machine =
      expandVariables system line left rest (dst ++ text) machine := by
  induction text generalizing dst rounds with
  | nil => exact ⟨rounds, by simpa using hrounds, by simp⟩
  | cons c text ih =>
    rw [List.mem_cons, not_or] at htext
    rw [List.length_cons] at hroom hrounds
    obtain ⟨rounds, rfl⟩ := Nat.exists_eq_add_of_le' (show 1 ≤ rounds by omega)
    have hlength : (dst ++ [c]).length = dst.length + 1 := List.length_append
    obtain ⟨left, hleft, heq⟩ := @ih rounds (dst ++ [c]) htext.2 (by omega) (by omega)
    refine ⟨left, hleft, ?_⟩
    rw [List.cons_append, expandVariables_char (Ne.symm htext.1) (by omega), heq,
      List.append_assoc, List.singleton_append]

theorem appendTo_of_lt (hroom : dst.length + text.length < MAX_LINE - 1) :
    appendTo dst text = dst ++ text := by
  rw [appendTo, List.take_of_length_le (by omega)]

/-- The scan of a name stops behind it. -/
theorem takeWhile_name (hname : IsName name) (hrest : ∀ c ∈ rest.head?, isNameChar c = false) :
    ((name ++ rest).takeWhile isNameChar).take 63 = name := by
  rw [List.takeWhile_append_of_pos hname.chars]
  cases rest with
  | nil => rw [List.takeWhile_nil, List.append_nil, List.take_of_length_le hname.short]
  | cons c rest =>
    rw [List.takeWhile_cons_of_neg (by simp [hrest c rfl]), List.append_nil,
      List.take_of_length_le hname.short]

/-- `$NAME` is replaced by the value of the variable. -/
theorem expandVariables_reference (hname : IsName name)
    (hrest : ∀ c ∈ rest.head?, isNameChar c = false) (hroom : dst.length < MAX_LINE - 1) :
    expandVariables system line (rounds + 1) ('$' :: (name ++ rest)) dst machine =
      expandVariables system line rounds rest
        (appendTo dst ((envGet machine.env name).getD [])) machine := by
  obtain ⟨first, others, hcons⟩ := List.exists_cons_of_ne_nil hname.nonempty
  have hfirst : isNameChar first = true := hname.chars first (by simp [hcons])
  rw [expandVariables, if_neg (Nat.not_le.mpr hroom)]
  · dsimp only
    rw [takeWhile_name hname hrest, if_neg hname.nonempty, List.drop_left]
  · intro later heq
    rw [hcons, List.cons_append, List.cons.injEq] at heq
    rw [heq.1] at hfirst
    exact absurd hfirst (by decide)
  · intro later heq
    rw [hcons, List.cons_append, List.cons.injEq] at heq
    rw [heq.1] at hfirst
    exact absurd hfirst (by decide)

/-- `${NAME}` is replaced by the value of the variable. -/
theorem expandVariables_braced (hname : IsName name) (hroom : dst.length < MAX_LINE - 1) :
    expandVariables system line (rounds + 1) ('$' :: '{' :: (name ++ '}' :: rest)) dst machine =
      expandVariables system line rounds rest
        (appendTo dst ((envGet machine.env name).getD [])) machine := by
  have hscan : ((name ++ '}' :: rest).takeWhile (· != '}')).take 63 = name := by
    rw [List.takeWhile_append_of_pos, List.takeWhile_cons_of_neg (by simp), List.append_nil,
      List.take_of_length_le hname.short]
    intro c hc
    have hchar := hname.chars c hc
    rw [bne_iff_ne]
    rintro rfl
    exact absurd hchar (by decide)
  rw [expandVariables, if_neg (Nat.not_le.mpr hroom)]
  dsimp only
  rw [hscan, List.drop_left]
  rfl

/-- An operand is replaced by its value. -/
theorem expandVariables_operand {operand : Operand} (hoperand : operand.Plain machine.env)
    (hrest : ∀ c ∈ rest.head?, isNameChar c = false)
    (hroom : dst.length + (operand.value machine.env).length < MAX_LINE - 1)
    (hrounds : operand.text.length + rest.length ≤ rounds) :
    ∃ left, rest.length ≤ left ∧
      expandVariables system line rounds (operand.text ++ rest) dst machine =
        expandVariables system line left rest (dst ++ operand.value machine.env) machine := by
  have hform := hoperand.wellFormed
  cases operand with
  | literal text => exact expandVariables_text hform hroom hrounds
  | reference name =>
    simp only [Operand.text, List.length_cons] at hrounds
    obtain ⟨rounds, rfl⟩ := Nat.exists_eq_add_of_le' (show 1 ≤ rounds by omega)
    refine ⟨rounds, by omega, ?_⟩
    rw [Operand.text, List.cons_append, expandVariables_reference hform hrest (by omega)]
    exact congrArg (expandVariables system line rounds rest · machine) (appendTo_of_lt hroom)
  | braced name =>
    simp only [Operand.text, List.length_cons] at hrounds
    obtain ⟨rounds, rfl⟩ := Nat.exists_eq_add_of_le' (show 1 ≤ rounds by omega)
    refine ⟨rounds, by omega, ?_⟩
    rw [Operand.text, List.cons_append, List.cons_append, List.append_assoc,
      List.singleton_append, expandVariables_braced hform (by omega)]
    exact congrArg (expandVariables system line rounds rest · machine) (appendTo_of_lt hroom)

theorem expandVariables_nil :
    expandVariables system line rounds [] dst machine = ((dst, []), machine) := by
  cases rounds with
  | zero => rfl
  | succ rounds =>
    rw [expandVariables]
    exact ite_self _

/-! ### Comparisons -/

/-- `==` and `!=`. -/
inductive Comparison
  | equal
  | different
  deriving DecidableEq

def Comparison.symbol : Comparison → List Char
  | equal => ['=', '=']
  | different => ['!', '=']

/-- What a comparison says about two values. -/
def Comparison.decides : Comparison → List Char → List Char → Bool
  | equal, left, right => decide (left = right)
  | different, left, right => decide (left ≠ right)

def comparisonText (comparison : Comparison) (left right : List Char) : List Char :=
  left ++ ' ' :: (comparison.symbol ++ ' ' :: right)

variable {comparison other : Comparison} {left right : List Char}

theorem skipWs_append (htext : ∀ c ∈ text, isWs c = false) (hempty : text ≠ []) :
    skipWs (text ++ rest) = text ++ rest := by
  obtain ⟨c, text, rfl⟩ := List.exists_cons_of_ne_nil hempty
  exact List.dropWhile_cons_of_neg (by simp [htext c List.mem_cons_self])

theorem skipWs_plain (htext : ∀ c ∈ text, isWs c = false) : skipWs text = text := by
  cases text with
  | nil => rfl
  | cons c text => exact List.dropWhile_cons_of_neg (by simp [htext c List.mem_cons_self])

theorem skipWs_symbol : skipWs (comparison.symbol ++ rest) = comparison.symbol ++ rest := by
  cases comparison <;> rfl

theorem skipWs_operand {operand : Operand} (hoperand : operand.Plain machine.env)
    (hempty : operand.text ≠ []) : skipWs (operand.text ++ rest) = operand.text ++ rest := by
  cases operand with
  | literal text => exact skipWs_append hoperand.blanks hempty
  | reference name => rfl
  | braced name => rfl

/-- The comparison and its right operand are expanded. -/
theorem expandVariables_right {operand : Operand} (hoperand : operand.Plain machine.env)
    (hroom : dst.length + 3 + (operand.value machine.env).length < MAX_LINE - 1)
    (hrounds : 3 + operand.text.length ≤ rounds) :
    expandVariables system line rounds (comparison.symbol ++ ' ' :: operand.text) dst machine =
      ((dst ++ (comparison.symbol ++ ' ' :: operand.value machine.env), []), machine) := by
  have hlength : (comparison.symbol ++ [' ']).length = 3 := by cases comparison <;> rfl
  have hdollar : '$' ∉ comparison.symbol ++ [' '] := by cases comparison <;> decide
  obtain ⟨later, hlater, hsymbol⟩ : ∃ later, operand.text.length ≤ later ∧
      expandVariables system line rounds (comparison.symbol ++ [' '] ++ operand.text) dst machine =
        expandVariables system line later operand.text (dst ++ (comparison.symbol ++ [' ']))
          machine :=
    expandVariables_text hdollar (by omega) (by omega)
  obtain ⟨last, -, hvalue⟩ : ∃ last, [].length ≤ last ∧
      expandVariables system line later (operand.text ++ []) (dst ++ (comparison.symbol ++ [' ']))
        machine = expandVariables system line last []
          (dst ++ (comparison.symbol ++ [' ']) ++ operand.value machine.env) machine :=
    expandVariables_operand hoperand (by simp) (by rw [List.length_append]; omega) hlater
  rw [List.append_assoc, List.singleton_append] at hsymbol
  rw [List.append_nil] at hvalue
  rw [hsymbol, hvalue, expandVariables_nil]
  simp

/-- A comparison is evaluated on the values of its operands. -/
theorem evalCondition_comparison {left right : Operand} (hleft : left.Plain machine.env)
    (hright : right.Plain machine.env) :
    evalCondition system line (comparisonText comparison left.text right.text) machine =
      (conditionHolds system machine.world (skipWs
        (comparisonText comparison (left.value machine.env) (right.value machine.env))),
        machine) := by
  have hleftShort := hleft.short
  have hrightShort := hright.short
  by_cases hempty : left.text = []
  · -- the blank behind an empty literal is skipped before the expansion
    have hvalue : left.value machine.env = [] := by
      cases left with
      | literal text => exact hempty
      | reference name => exact absurd hempty (List.cons_ne_nil _ _)
      | braced name => exact absurd hempty (List.cons_ne_nil _ _)
    have hskip (text : List Char) : skipWs (comparisonText comparison [] text) =
        comparison.symbol ++ ' ' :: text := skipWs_symbol
    rw [evalCondition, hempty, hvalue, hskip, hskip, expanded, expandVariables_right hright
      (by simp [MAX_LINE]; omega) (by cases comparison <;> simp [Comparison.symbol] <;> omega)]
    dsimp only
    rw [List.nil_append, skipWs_symbol]
  · obtain ⟨later, hlater, hexpanded⟩ : ∃ later,
        (' ' :: (comparison.symbol ++ ' ' :: right.text)).length ≤ later ∧
          expandVariables system line (comparisonText comparison left.text right.text).length
              (left.text ++ ' ' :: (comparison.symbol ++ ' ' :: right.text)) [] machine =
            expandVariables system line later (' ' :: (comparison.symbol ++ ' ' :: right.text))
              ([] ++ left.value machine.env) machine :=
      expandVariables_operand hleft (by simp [show isNameChar ' ' = false by decide])
        (by simp [MAX_LINE]; omega) (Nat.le_of_eq List.length_append.symm)
    have hsymbol : comparison.symbol.length = 2 := by cases comparison <;> rfl
    rw [List.length_cons, List.length_append, List.length_cons, hsymbol] at hlater
    obtain ⟨later, rfl⟩ := Nat.exists_eq_add_of_le' (show 1 ≤ later by omega)
    rw [List.nil_append, expandVariables_char (by decide) (by unfold MAX_LINE; omega),
      expandVariables_right hright (by rw [List.length_append]; simp [MAX_LINE]; omega) (by omega)]
      at hexpanded
    have hskip : skipWs (comparisonText comparison left.text right.text) =
        comparisonText comparison left.text right.text := skipWs_operand hleft hempty
    rw [evalCondition, hskip, show expanded system line _ machine = _ from hexpanded]
    simp [comparisonText]

/-- A single operand is evaluated on its value. -/
theorem evalCondition_operand {operand : Operand} (hoperand : operand.Plain machine.env) :
    evalCondition system line operand.text machine =
      (conditionHolds system machine.world (operand.value machine.env), machine) := by
  have hshort := hoperand.short
  have hskip : skipWs operand.text = operand.text := by
    by_cases hempty : operand.text = []
    · rw [hempty]
      rfl
    · have hwhole : skipWs (operand.text ++ []) = operand.text ++ [] :=
        skipWs_operand hoperand hempty
      rwa [List.append_nil] at hwhole
  obtain ⟨last, -, hexpanded⟩ : ∃ last, [].length ≤ last ∧
      expandVariables system line operand.text.length (operand.text ++ []) [] machine =
        expandVariables system line last [] ([] ++ operand.value machine.env) machine :=
    expandVariables_operand hoperand (by simp) (by simp [MAX_LINE]; omega) (Nat.le_refl _)
  rw [List.append_nil, List.nil_append, expandVariables_nil] at hexpanded
  rw [evalCondition, hskip, expanded, hexpanded]
  dsimp only
  rw [skipWs_plain hoperand.blanks]

/-! ### Values -/

def isTest (condition : List Char) : Prop :=
  ∃ test blank rest, condition = '-' :: test :: blank :: rest ∧
    ((test = 'e' ∨ test = 'f') ∧ isWs blank)

def testHolds (system : System World) (world : World) (test : Char) (path : List Char) : Bool :=
  match system.vfsStat (system.resolvePath path world) world with
  | none => false
  | some isFile => if test = 'f' then isFile else true

theorem conditionHolds_of_not_test {world : World} (htest : ¬isTest text) :
    conditionHolds system world text = conditionHolds.comparison text := by
  unfold conditionHolds
  split
  next test blank rest =>
    rw [if_neg fun hblank ↦ htest ⟨test, blank, rest, rfl, hblank⟩]
  next => rfl

def firstLine (text : List Char) : List Char := text.takeWhile (· != '\n')

theorem takeWhile_firstLine (hright : ∀ c ∈ right, isWs c = false) (hshort : right.length < 127) :
    (right.takeWhile fun c ↦ !isWs c && c != '\n').take 127 = firstLine right := by
  have hsame : (right.takeWhile fun c ↦ !isWs c && c != '\n') = firstLine right := by
    unfold firstLine
    induction right with
    | nil => rfl
    | cons c right ih =>
      have hrest := ih (fun other hother ↦ hright other (List.mem_cons_of_mem _ hother))
        (Nat.lt_of_succ_lt hshort)
      rw [List.takeWhile_cons, List.takeWhile_cons, hrest, hright c List.mem_cons_self]
      rfl
  rw [hsame, List.take_of_length_le]
  exact Nat.le_of_lt (Nat.lt_of_le_of_lt (List.takeWhile_sublist _).length_le hshort)

/-- A left operand with a value is compared with the first line of the right one. -/
theorem comparison_of_left (hleft : ∀ c ∈ left, isWs c = false) (hlength : left.length < 127)
    (hright : ∀ c ∈ right, isWs c = false) (hshort : right.length < 127) :
    conditionHolds.comparison (comparisonText comparison left right) =
      comparison.decides left (firstLine right) := by
  have hscan : skipWs ((comparisonText comparison left right).dropWhile (!isWs ·)) =
      comparison.symbol ++ ' ' :: right := by
    rw [comparisonText, List.dropWhile_append_of_pos (by simpa using hleft)]
    exact skipWs_symbol
  have htake : (comparisonText comparison left right).take
      ((comparisonText comparison left right).length - (comparison.symbol ++ ' ' :: right).length) =
        left ++ [' '] := by
    rw [show comparisonText comparison left right =
      (left ++ [' ']) ++ (comparison.symbol ++ ' ' :: right) by simp [comparisonText],
      List.length_append, Nat.add_sub_cancel, List.take_left]
  have htrim : trimEnd ((left ++ [' ']).take 127) = left := by
    rw [List.take_of_length_le (by rw [List.length_append]; exact hlength), trimEnd,
      List.reverse_append, List.reverse_singleton, List.singleton_append,
      List.dropWhile_cons_of_pos (by decide), ← skipWs,
      skipWs_plain fun c hc ↦ hleft c (List.mem_reverse.mp hc), List.reverse_reverse]
  have hdrop : skipWs ((comparison.symbol ++ ' ' :: right).drop 2) = right := by
    have hsymbol : (comparison.symbol ++ ' ' :: right).drop 2 = ' ' :: right := by
      cases comparison <;> rfl
    rw [hsymbol]
    exact skipWs_plain hright
  rw [conditionHolds.comparison, hscan, htake, htrim, hdrop, takeWhile_firstLine hright hshort]
  cases comparison <;> rfl

/-- What is read where the left value is empty: the comparison is taken for the left operand, and
the right value for the comparison. -/
theorem comparison_of_nil (hright : ∀ c ∈ right, isWs c = false) (hshort : right.length < 127) :
    conditionHolds.comparison (comparison.symbol ++ ' ' :: right) =
      if right.take 2 = Comparison.equal.symbol then
        Comparison.equal.decides comparison.symbol (firstLine (right.drop 2))
      else if right.take 2 = Comparison.different.symbol then
        Comparison.different.decides comparison.symbol (firstLine (right.drop 2))
      else true := by
  have hscan : skipWs ((comparison.symbol ++ ' ' :: right).dropWhile (!isWs ·)) = right := by
    have hdrop : (comparison.symbol ++ ' ' :: right).dropWhile (!isWs ·) = ' ' :: right := by
      cases comparison <;> rfl
    rw [hdrop]
    exact skipWs_plain hright
  have htake : (comparison.symbol ++ ' ' :: right).take
      ((comparison.symbol ++ ' ' :: right).length - right.length) = comparison.symbol ++ [' '] := by
    rw [show comparison.symbol ++ ' ' :: right = (comparison.symbol ++ [' ']) ++ right by simp,
      List.length_append, Nat.add_sub_cancel, List.take_left]
  have htrim : trimEnd ((comparison.symbol ++ [' ']).take 127) = comparison.symbol := by
    cases comparison <;> rfl
  have hdrop : skipWs (right.drop 2) = right.drop 2 :=
    skipWs_plain fun c hc ↦ hright c (List.mem_of_mem_drop hc)
  have hword : (!((comparison.symbol ++ ' ' :: right).isEmpty ||
      comparison.symbol ++ ' ' :: right == ['0'])) = true := by
    cases comparison <;> rfl
  rw [conditionHolds.comparison, hscan, htake, htrim, hdrop, hword, takeWhile_firstLine
    (fun c hc ↦ hright c (List.mem_of_mem_drop hc))
    (Nat.lt_of_le_of_lt (List.drop_sublist _ _).length_le hshort)]
  rfl

/-- A test takes the comparison for its path. -/
theorem conditionHolds_test {world : World} {test : Char} (htest : test = 'e' ∨ test = 'f') :
    conditionHolds system world (comparisonText comparison ['-', test] right) =
      testHolds system world test comparison.symbol := by
  have hpath : ((skipWs (comparison.symbol ++ ' ' :: right)).takeWhile (!isWs ·)).take 127 =
      comparison.symbol := by
    rw [skipWs_symbol]
    cases comparison <;> rfl
  rw [comparisonText]
  show (if (test = 'e' ∨ test = 'f') ∧ isWs ' ' then _ else _) = _
  rw [if_pos ⟨htest, rfl⟩, hpath]
  rfl

/-! ### Which values are compared -/

/-- A comparison says what it says about the values of its operands. -/
def Respects (system : System World) (line : ℕ) (machine : Machine World) (comparison : Comparison)
    (left right : Operand) : Prop :=
  (evalCondition system line (comparisonText comparison left.text right.text) machine).1 =
    comparison.decides (left.value machine.env) (right.value machine.env)

/-- The values that a comparison says the right thing about. -/
def Meets (system : System World) (world : World) (comparison : Comparison)
    (left right : List Char) : Prop :=
  if left = [] then
    if right.take 2 = Comparison.equal.symbol then
      comparison.symbol = firstLine (right.drop 2) ↔ comparison = .different
    else if right.take 2 = Comparison.different.symbol then
      comparison.symbol ≠ firstLine (right.drop 2) ↔ comparison = .different
    else comparison = .equal ↔ right = []
  else if left = ['-', 'e'] ∨ left = ['-', 'f'] then
    testHolds system world (left.getD 1 'e') comparison.symbol = comparison.decides left right
  else '\n' ∈ right → left ≠ right ∧ left ≠ firstLine right

theorem respects_of_nil (hright : ∀ c ∈ right, isWs c = false) (hshort : right.length < 127)
    {world : World} :
    conditionHolds system world (comparison.symbol ++ ' ' :: right) = comparison.decides [] right ↔
      Meets system world comparison [] right := by
  have htest : ¬isTest (comparison.symbol ++ ' ' :: right) := by
    rintro ⟨test, blank, rest, heq, -⟩
    cases comparison <;> exact absurd (List.cons.inj heq).1 (by decide)
  have hnil : [] = right ↔ right = [] := eq_comm
  rw [conditionHolds_of_not_test htest, comparison_of_nil hright hshort, Meets, if_pos rfl]
  by_cases hequal : right.take 2 = Comparison.equal.symbol
  · have hne : right ≠ [] := by
      rintro rfl
      exact absurd hequal (by decide)
    rw [if_pos hequal, if_pos hequal]
    cases comparison <;> simp [Comparison.decides, hne.symm]
  · rw [if_neg hequal, if_neg hequal]
    by_cases hdifferent : right.take 2 = Comparison.different.symbol
    · have hne : right ≠ [] := by
        rintro rfl
        exact absurd hdifferent (by decide)
      rw [if_pos hdifferent, if_pos hdifferent]
      cases comparison <;> simp [Comparison.decides, hne.symm]
    · rw [if_neg hdifferent, if_neg hdifferent]
      cases comparison <;> simp [Comparison.decides, hnil]

theorem respects_of_test {world : World} {test : Char} (htest : test = 'e' ∨ test = 'f') :
    conditionHolds system world (comparisonText comparison ['-', test] right) =
        comparison.decides ['-', test] right ↔
      Meets system world comparison ['-', test] right := by
  have hcases : ['-', test] = ['-', 'e'] ∨ ['-', test] = ['-', 'f'] := by
    rcases htest with rfl | rfl
    · exact .inl rfl
    · exact .inr rfl
  rw [conditionHolds_test htest, Meets, if_neg (List.cons_ne_nil _ _), if_pos hcases]
  rfl

theorem firstLine_eq_self : firstLine text = text ↔ '\n' ∉ text := by
  rw [firstLine, List.takeWhile_eq_self_iff]
  simp only [bne_iff_ne, ne_eq]
  exact ⟨fun hall hmem ↦ hall _ hmem rfl, fun hmem c hc heq ↦ hmem (heq ▸ hc)⟩

theorem respects_of_left {world : World} (hleft : ∀ c ∈ left, isWs c = false)
    (hlength : left.length < 127) (hright : ∀ c ∈ right, isWs c = false)
    (hshort : right.length < 127) (hempty : left ≠ [])
    (htest : ¬(left = ['-', 'e'] ∨ left = ['-', 'f'])) :
    conditionHolds system world (comparisonText comparison left right) =
        comparison.decides left right ↔
      Meets system world comparison left right := by
  have hno : ¬isTest (comparisonText comparison left right) := by
    rintro ⟨test, blank, rest, heq, htests, hblank⟩
    match left, hempty with
    | [_], _ =>
      -- a single character is followed by the blank
      obtain ⟨-, rfl, -⟩ : _ ∧ ' ' = test ∧ _ := by simpa [comparisonText] using heq
      exact absurd htests (by decide)
    | [first, second], _ =>
      obtain ⟨rfl, rfl, -⟩ : first = '-' ∧ second = test ∧ _ := by
        simpa [comparisonText] using heq
      exact htest (htests.imp (by rintro rfl; rfl) (by rintro rfl; rfl))
    | _ :: _ :: third :: _, _ =>
      obtain ⟨-, -, rfl, -⟩ : _ ∧ _ ∧ third = blank ∧ _ := by simpa [comparisonText] using heq
      have hplain := hleft third (by simp)
      rw [hblank] at hplain
      exact absurd hplain (by decide)
  rw [conditionHolds_of_not_test hno, comparison_of_left hleft hlength hright hshort, Meets,
    if_neg hempty, if_neg htest]
  by_cases hline : '\n' ∈ right
  · have hne : firstLine right ≠ right := fun heq ↦ firstLine_eq_self.mp heq hline
    by_cases hsame : left = right
    · have hleftNe : left ≠ firstLine right := hsame ▸ hne.symm
      cases comparison <;> simp [Comparison.decides, hline, hsame, hne.symm]
    · cases comparison <;> simp [Comparison.decides, hline, hsame]
  · rw [firstLine_eq_self.mpr hline]
    simp [hline]

/-- A word holds if and only if it is neither empty nor 0. -/
theorem conditionHolds_word {world : World} (htext : ∀ c ∈ text, isWs c = false) :
    conditionHolds system world text = true ↔ text ≠ [] ∧ text ≠ ['0'] := by
  have hno : ¬isTest text := by
    rintro ⟨test, blank, rest, rfl, -, hblank⟩
    rw [htext blank (by simp)] at hblank
    exact absurd hblank (by decide)
  have hdrop : text.dropWhile (!isWs ·) = [] := by
    rw [List.dropWhile_eq_nil_iff]
    exact fun c hc ↦ by simp [htext c hc]
  rw [conditionHolds_of_not_test hno, conditionHolds.comparison, hdrop]
  simp [skipWs]

/-- Exactly the values that the law holds of. A single operand is always read as its value says. -/
theorem respects_iff {left right : Operand} (hleft : left.Plain machine.env)
    (hright : right.Plain machine.env) :
    ((evalCondition system line left.text machine).1 = true ↔
        left.value machine.env ≠ [] ∧ left.value machine.env ≠ ['0']) ∧
      ∀ comparison, Respects system line machine comparison left right ↔
        Meets system machine.world comparison (left.value machine.env)
          (right.value machine.env) := by
  refine ⟨?_, fun comparison ↦ ?_⟩
  · rw [evalCondition_operand hleft]
    exact conditionHolds_word hleft.blanks
  rw [Respects, evalCondition_comparison hleft hright]
  by_cases hempty : left.value machine.env = []
  · have hskip : skipWs (comparisonText comparison [] (right.value machine.env)) =
        comparison.symbol ++ ' ' :: right.value machine.env := skipWs_symbol
    rw [hempty, hskip]
    exact respects_of_nil hright.blanks hright.short
  · rw [comparisonText, skipWs_append hleft.blanks hempty, ← comparisonText]
    by_cases htest : left.value machine.env = ['-', 'e'] ∨ left.value machine.env = ['-', 'f']
    · rcases htest with htest | htest
      · rw [htest]
        exact respects_of_test (.inl rfl)
      · rw [htest]
        exact respects_of_test (.inr rfl)
    · exact respects_of_left hleft.blanks hleft.short hright.blanks hright.short hempty htest

/-- A system without files. -/
def quiet : System Unit where
  handleShellCommand _ world := world
  redirected _ world := ([], world)
  print _ world := world
  resolvePath path _ := path
  vfsStat _ _ := none

/-- A script without variables. -/
def unset : Machine Unit := { env := { vars := [], args := [] }, world := (), trace := [] }

theorem isName_x : IsName ['X'] := ⟨by decide, by decide, by simp [isNameChar]⟩

theorem plain_unset : (Operand.reference ['X']).Plain unset.env :=
  ⟨isName_x, fun _ hc ↦ absurd hc List.not_mem_nil, by decide⟩

theorem plain_a : (Operand.literal ['a']).Plain unset.env :=
  ⟨by simp [Operand.WellFormed], by simp [Operand.value, isWs], by decide⟩

/-- `a == $X` and `a != $X`, where the variable is not set. -/
theorem respects_iff_a :
    ((evalCondition quiet 0 ['a'] unset).1 = true ↔ (['a'] : List Char) ≠ [] ∧ ['a'] ≠ ['0']) ∧
      ∀ comparison, Respects quiet 0 unset comparison (.literal ['a']) (.reference ['X']) ↔
        Meets quiet () comparison ['a'] [] :=
  respects_iff plain_a plain_unset

/-- `$X == a` holds where the variable is not set. -/
theorem not_respects : (Operand.reference ['X']).Plain unset.env ∧
    (Operand.literal ['a']).Plain unset.env ∧
      ¬Respects quiet 0 unset .equal (.reference ['X']) (.literal ['a']) := by
  refine ⟨plain_unset, plain_a, ?_⟩
  unfold Respects
  decide

end EynOS.Shell.Script
