import Mathlib.Data.List.Nodup

/-!
# Tables that a loop fills

A loop looks at one index after another and, at some of them, writes a value to a place of a table.
`fillM` is such a loop whose turns may fail, `fill` one whose turns do not, and `fillM_eq_some` says
that the one is the other. What a place holds afterwards is its old value where no turn writes there
(`getElem?_fill_of_forall_ne`), and the value of the turn that does where only one can
(`getElem?_fill_of_mem`).
-/

namespace EynOS.Foundation

variable {α : Type}

/-- A loop over indices that works on a table and may fail. -/
def fillM (turn : ℕ → List α → Option (List α)) : List ℕ → List α → Option (List α)
  | [], table => some table
  | index :: rest, table => (turn index table).bind (fillM turn rest)

/-- One turn: the value put at the place, at the indices that are selected. -/
def fillStep (selects : ℕ → Prop) [DecidablePred selects] (place : ℕ → ℕ) (value : ℕ → α)
    (index : ℕ) (table : List α) : List α :=
  if selects index then table.set (place index) (value index) else table

/-- A loop over indices whose turns do not fail. -/
def fill (selects : ℕ → Prop) [DecidablePred selects] (place : ℕ → ℕ) (value : ℕ → α) :
    List ℕ → List α → List α
  | [], table => table
  | index :: rest, table =>
    fill selects place value rest (fillStep selects place value index table)

variable {selects : ℕ → Prop} [DecidablePred selects] {place : ℕ → ℕ} {value : ℕ → α}
  {indices : List ℕ} {table : List α}

@[simp]
theorem length_fillStep (index : ℕ) :
    (fillStep selects place value index table).length = table.length := by
  unfold fillStep
  split <;> simp

@[simp]
theorem length_fill : (fill selects place value indices table).length = table.length := by
  induction indices generalizing table with
  | nil => rfl
  | cons index rest ih => rw [fill, ih, length_fillStep]

theorem fill_concat (index : ℕ) :
    fill selects place value (indices ++ [index]) table =
      fillStep selects place value index (fill selects place value indices table) := by
  induction indices generalizing table with
  | nil => rfl
  | cons first rest ih => rw [List.cons_append, fill, ih, fill]

/-- A loop each of whose turns is a step. -/
theorem fillM_eq_some {turn : ℕ → List α → Option (List α)} {length : ℕ}
    (hturn : ∀ index ∈ indices, ∀ table : List α, table.length = length →
      turn index table = some (fillStep selects place value index table))
    (hlength : table.length = length) :
    fillM turn indices table = some (fill selects place value indices table) := by
  induction indices generalizing table with
  | nil => rfl
  | cons index rest ih =>
    rw [fillM, hturn index List.mem_cons_self table hlength, Option.bind_some, fill]
    exact ih (fun other hother ↦ hturn other (List.mem_cons_of_mem _ hother))
      (by rw [length_fillStep, hlength])

/-- A place that no turn writes to. -/
theorem getElem?_fill_of_forall_ne {position : ℕ}
    (hne : ∀ index ∈ indices, selects index → place index ≠ position) :
    (fill selects place value indices table)[position]? = table[position]? := by
  induction indices generalizing table with
  | nil => rfl
  | cons index rest ih =>
    rw [fill, ih fun other hother ↦ hne other (List.mem_cons_of_mem _ hother)]
    unfold fillStep
    split
    · rename_i hselects
      exact List.getElem?_set_ne (hne index List.mem_cons_self hselects)
    · rfl

/-- A place that one turn writes to. -/
theorem getElem?_fill_of_mem {index : ℕ} (hnodup : (indices.map place).Nodup)
    (hmem : index ∈ indices) (hselects : selects index) (hplace : place index < table.length) :
    (fill selects place value indices table)[place index]? = some (value index) := by
  induction indices generalizing table with
  | nil => cases hmem
  | cons first rest ih =>
    rw [List.map_cons, List.nodup_cons] at hnodup
    rw [fill]
    rcases List.mem_cons.mp hmem with rfl | hrest
    · have hne : ∀ other ∈ rest, selects other → place other ≠ place index :=
        fun other hother _ heq ↦ hnodup.1 (heq ▸ List.mem_map_of_mem hother)
      rw [getElem?_fill_of_forall_ne hne, fillStep, if_pos hselects,
        List.getElem?_set_self hplace]
    · exact ih hnodup.2 hrest (by rwa [length_fillStep])

end EynOS.Foundation
