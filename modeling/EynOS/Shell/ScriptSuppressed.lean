import EynOS.Shell.ScriptReading
import Mathlib.Order.Lattice
import Mathlib.Order.Nat

/-!
# What the interpreter of shell scripts goes over

An `if` or `while` line puts its entry on the stack of open blocks before it asks whether it is
suppressed, and the entry is not yet executing. So no entry of the stack is ever executing (`Idle`),
and the interpreter goes over every block without doing anything (`skips_block`, `skips_branches`).
It ends with the machine that the lines outside of blocks lead to (`interprets_iff`).
-/

namespace EynOS.Shell.Script

variable {World : Type} {system : System World} {machine : Machine World} {line low mid high : ℕ}
  {before blocks after : BlockStack} {type : BlockType} {condition : List Char}
  {kinds : List Kind}

/-! ### The stack of open blocks -/

/-- No entry of the stack has ever been executing. -/
def Idle (blocks : BlockStack) : Prop := ∀ index, (blocks.stack index).executing = false

/-- The same blocks are open, and nothing is executing. -/
structure Unchanged (before after : BlockStack) : Prop where
  idle : Idle after
  depth_eq : after.depth = before.depth
  below : ∀ index < before.depth, after.stack index = before.stack index

/-- A block is open inside of the blocks that were open, and nothing is executing. -/
structure Opened (type : BlockType) (before after : BlockStack) : Prop where
  idle : Idle after
  depth_eq : after.depth = before.depth + 1
  below : ∀ index < before.depth, after.stack index = before.stack index
  type_eq : (after.stack before.depth).type = type
  taken : type = .blockIf → (after.stack before.depth).anyTaken = true

/-- Blocks that were gone over leave the open block as it was. -/
theorem Opened.trans (hopened : Opened type before blocks) (hunchanged : Unchanged blocks after) :
    Opened type before after := by
  have hsame (index : ℕ) (hindex : index ≤ before.depth) : after.stack index = blocks.stack index :=
    hunchanged.below index (by rw [hopened.depth_eq]; exact Nat.lt_succ_of_le hindex)
  constructor
  · exact hunchanged.idle
  · rw [hunchanged.depth_eq, hopened.depth_eq]
  · intro index hindex
    rw [hsame index hindex.le, hopened.below index hindex]
  · rw [hsame before.depth le_rfl]
    exact hopened.type_eq
  · rw [hsame before.depth le_rfl]
    exact hopened.taken

/-- Two parts leave the open blocks as they were. -/
theorem Unchanged.trans (hfirst : Unchanged before blocks) (hsecond : Unchanged blocks after) :
    Unchanged before after := by
  constructor
  · exact hsecond.idle
  · rw [hsecond.depth_eq, hfirst.depth_eq]
  · intro index hindex
    rw [hsecond.below index (hfirst.depth_eq ▸ hindex), hfirst.below index hindex]

theorem suppressedBelow_of_idle (hidle : Idle blocks) {depth : ℕ} (hdepth : 0 < depth) :
    suppressedBelow blocks depth = true := by
  unfold suppressedBelow
  rw [List.any_eq_true]
  exact ⟨0, List.mem_range.mpr hdepth, by rw [hidle 0]; rfl⟩

/-- An entry that is changed to one that is not executing. -/
theorem idle_modify (index : ℕ) (change : BlockEntry → BlockEntry)
    (hidle : ∀ other, other ≠ index → (blocks.stack other).executing = false)
    (hchange : (change (blocks.stack index)).executing = false) :
    Idle (blocks.modify index change) := by
  intro other
  unfold BlockStack.modify
  dsimp only
  split_ifs with hother
  · rw [hother]
    exact hchange
  · exact hidle other hother

/-- A fresh entry keeps what the last block in its place has left. -/
theorem idle_push (hidle : Idle blocks) (change : BlockEntry → BlockEntry)
    (hchange : (change (blocks.stack blocks.depth)).executing =
      (blocks.stack blocks.depth).executing) : Idle (blocks.push change) :=
  idle_modify blocks.depth change (fun other _ ↦ hidle other)
    (hchange.trans (hidle blocks.depth))

/-- A fresh entry that is not executing. -/
theorem opened_fresh (hidle : Idle blocks) (opening closing : BlockEntry → BlockEntry)
    (hopen : (opening (blocks.stack blocks.depth)).executing =
      (blocks.stack blocks.depth).executing)
    (hexecuting : ∀ entry, (closing entry).executing = false)
    (htype : (closing (opening (blocks.stack blocks.depth))).type = type)
    (htaken : type = .blockIf → (closing (opening (blocks.stack blocks.depth))).anyTaken = true) :
    Opened type blocks ((blocks.push opening).modify blocks.depth closing) := by
  constructor
  · exact idle_modify _ _ (fun other _ ↦ idle_push hidle opening hopen other) (hexecuting _)
  · rfl
  · intro index hindex
    simp [BlockStack.modify, BlockStack.push, hindex.ne]
  · simp only [BlockStack.modify, BlockStack.push, if_true]
    exact htype
  · simp only [BlockStack.modify, BlockStack.push, if_true]
    exact htaken

/-- An `if` line asks whether its own entry is suppressed, and finds that it is. -/
theorem opened_if (hidle : Idle blocks) (hdepth : blocks.depth < MAX_DEPTH) :
    ∃ after, interpretLine system line blocks machine (.ifLine condition) =
      .continues (line + 1) after machine ∧ Opened .blockIf blocks after := by
  refine ⟨_, ?_, opened_fresh hidle (fun entry ↦ { entry with type := .blockIf })
    (fun entry ↦ { entry with executing := false, anyTaken := true }) rfl (fun _ ↦ rfl) rfl
    fun _ ↦ rfl⟩
  have hsuppressed := suppressedBelow_of_idle
    (idle_push hidle (fun entry ↦ { entry with type := .blockIf }) rfl) (Nat.succ_pos blocks.depth)
  simp only [interpretLine]
  rw [if_neg (Nat.not_le.mpr hdepth), blockIsSuppressed]
  exact if_pos hsuppressed

/-- A `while` line asks whether its own entry is suppressed, and finds that it is. -/
theorem opened_while (hidle : Idle blocks) (hdepth : blocks.depth < MAX_DEPTH) :
    ∃ after, interpretLine system line blocks machine (.whileLine condition) =
      .continues (line + 1) after machine ∧ Opened .blockWhile blocks after := by
  refine ⟨_, ?_, opened_fresh hidle
    (fun entry ↦ { entry with type := .blockWhile, lineStart := line })
    (fun entry ↦ { entry with executing := false }) rfl (fun _ ↦ rfl) rfl
    fun hif ↦ absurd hif (by decide)⟩
  have hsuppressed := suppressedBelow_of_idle
    (idle_push hidle (fun entry ↦ { entry with type := .blockWhile, lineStart := line }) rfl)
    (Nat.succ_pos blocks.depth)
  simp only [interpretLine]
  rw [if_neg (Nat.not_le.mpr hdepth), blockIsSuppressed]
  exact if_pos hsuppressed

theorem Opened.innermost (hopened : Opened type before blocks) : innermost blocks type = true := by
  unfold Script.innermost
  rw [hopened.depth_eq, Nat.add_sub_cancel, hopened.type_eq]
  simp

/-- The entry of the open block is changed. -/
theorem Opened.modify (hopened : Opened type before blocks) (change : BlockEntry → BlockEntry)
    (hexecuting : (change (blocks.stack before.depth)).executing = false)
    (htype : (change (blocks.stack before.depth)).type = (blocks.stack before.depth).type)
    (htaken : (change (blocks.stack before.depth)).anyTaken =
      (blocks.stack before.depth).anyTaken) :
    Opened type before (blocks.modify before.depth change) := by
  constructor
  · exact idle_modify _ _ (fun other _ ↦ hopened.idle other) hexecuting
  · exact hopened.depth_eq
  · intro index hindex
    rw [← hopened.below index hindex]
    simp [BlockStack.modify, hindex.ne]
  · simp only [BlockStack.modify, if_true, htype]
    exact hopened.type_eq
  · simp only [BlockStack.modify, if_true, htaken]
    exact hopened.taken

/-- An `elif` line finds a branch that was taken, or a block around it that is suppressed. -/
theorem Opened.elif (hopened : Opened .blockIf before blocks) :
    ∃ after, interpretLine system line blocks machine (.elifLine condition) =
      .continues (line + 1) after machine ∧ Opened .blockIf before after := by
  have htop : blocks.depth - 1 = before.depth := by rw [hopened.depth_eq, Nat.add_sub_cancel]
  refine ⟨_, ?_, hopened.modify (fun entry ↦ { entry with executing := false }) rfl rfl rfl⟩
  simp only [interpretLine]
  rw [if_neg (by rw [hopened.innermost]; decide), htop, if_pos (hopened.taken rfl), ite_self]

/-- An `else` line finds a branch that was taken, or a block around it that is suppressed. -/
theorem Opened.elseLine (hopened : Opened .blockIf before blocks) :
    ∃ after, interpretLine system line blocks machine .elseLine =
      .continues (line + 1) after machine ∧ Opened .blockIf before after := by
  have htop : blocks.depth - 1 = before.depth := by rw [hopened.depth_eq, Nat.add_sub_cancel]
  by_cases hsuppressed : suppressedBelow blocks before.depth = true
  · refine ⟨_, ?_, hopened.modify (fun entry ↦ { entry with executing := false }) rfl rfl rfl⟩
    simp only [interpretLine]
    rw [if_neg (by rw [hopened.innermost]; decide), htop, if_pos hsuppressed]
  · refine ⟨_, ?_, hopened.modify (fun entry ↦ { entry with executing := !entry.anyTaken })
      (by rw [hopened.taken rfl]; rfl) rfl rfl⟩
    simp only [interpretLine]
    rw [if_neg (by rw [hopened.innermost]; decide), htop, if_neg hsuppressed]

theorem Opened.popped (hopened : Opened type before blocks) :
    Unchanged before { blocks with depth := blocks.depth - 1 } := by
  constructor
  · exact hopened.idle
  · rw [hopened.depth_eq, Nat.add_sub_cancel]
  · exact hopened.below

/-- An `endif` line closes the block. -/
theorem Opened.endif (hopened : Opened .blockIf before blocks) :
    ∃ after, interpretLine system line blocks machine .endifLine =
      .continues (line + 1) after machine ∧ Unchanged before after := by
  refine ⟨_, ?_, hopened.popped⟩
  simp only [interpretLine]
  rw [if_neg (by rw [hopened.innermost]; decide)]

/-- An `endwhile` line closes the block and does not go back. -/
theorem Opened.endwhile (hopened : Opened .blockWhile before blocks) :
    ∃ after, interpretLine system line blocks machine .endwhileLine =
      .continues (line + 1) after machine ∧ Unchanged before after := by
  refine ⟨_, ?_, hopened.popped⟩
  simp only [interpretLine]
  rw [if_neg (by rw [hopened.innermost]; decide), if_neg (by rw [hopened.idle]; decide)]

/-! ### What the interpreter goes over -/

/-- The interpreter goes over some lines without doing anything. -/
def Skips (system : System World) (kinds : List Kind) (machine : Machine World) (low : ℕ)
    (before : BlockStack) (high : ℕ) (after : BlockStack) : Prop :=
  ∃ taken, ∀ rounds, interpretLoop system kinds (rounds + taken) low before machine =
    interpretLoop system kinds rounds high after machine

theorem interpretLoop_continues {kind : Kind} {start : Machine World}
    (hkind : kinds[line]? = some kind)
    (hline : interpretLine system line before start kind = .continues mid after machine)
    (rounds : ℕ) :
    interpretLoop system kinds (rounds + 1) line before start =
      interpretLoop system kinds rounds mid after machine := by
  simp only [interpretLoop, hkind, hline]

theorem skips_line {kind : Kind} (hkind : kinds[line]? = some kind)
    (hline : interpretLine system line before machine kind = .continues mid after machine) :
    Skips system kinds machine line before mid after :=
  ⟨1, interpretLoop_continues hkind hline⟩

/-- Go over one part after another. -/
theorem Skips.trans (hfirst : Skips system kinds machine low before mid blocks)
    (hsecond : Skips system kinds machine mid blocks high after) :
    Skips system kinds machine low before high after := by
  obtain ⟨first, hfirst⟩ := hfirst
  obtain ⟨second, hsecond⟩ := hsecond
  refine ⟨second + first, fun rounds ↦ ?_⟩
  rw [← Nat.add_assoc, hfirst, hsecond]

/-- Go over an `if` block. -/
theorem skips_if (hidle : Idle blocks) (hdepth : blocks.depth < MAX_DEPTH)
    (hkind : kinds[line]? = some (.ifLine condition))
    (hbody : ∀ opened, Opened .blockIf blocks opened →
      ∃ after, Skips system kinds machine (line + 1) opened mid after ∧ Unchanged opened after)
    (hbranches : ∀ opened, Opened .blockIf blocks opened →
      ∃ after, Skips system kinds machine mid opened high after ∧ Unchanged blocks after) :
    ∃ after, Skips system kinds machine line blocks high after ∧ Unchanged blocks after := by
  obtain ⟨opened, hline, hopened⟩ := opened_if hidle hdepth
  obtain ⟨passed, hpassed, hsame⟩ := hbody opened hopened
  obtain ⟨after, hafter, hunchanged⟩ := hbranches passed (hopened.trans hsame)
  exact ⟨after, ((skips_line hkind hline).trans hpassed).trans hafter, hunchanged⟩

/-- Go over a `while` block. -/
theorem skips_while (hidle : Idle blocks) (hdepth : blocks.depth < MAX_DEPTH)
    (hkind : kinds[line]? = some (.whileLine condition)) (hend : kinds[mid]? = some .endwhileLine)
    (hbody : ∀ opened, Opened .blockWhile blocks opened →
      ∃ after, Skips system kinds machine (line + 1) opened mid after ∧ Unchanged opened after) :
    ∃ after, Skips system kinds machine line blocks (mid + 1) after ∧ Unchanged blocks after := by
  obtain ⟨opened, hline, hopened⟩ := opened_while hidle hdepth
  obtain ⟨passed, hpassed, hsame⟩ := hbody opened hopened
  obtain ⟨after, hclosed, hunchanged⟩ := (hopened.trans hsame).endwhile
  exact ⟨after, ((skips_line hkind hline).trans hpassed).trans (skips_line hend hclosed),
    hunchanged⟩

/-- The first of some lines. -/
theorem kind_of_drop {kind : Kind} {tail : List Kind} (hlines : kinds.drop line = kind :: tail) :
    kinds[line]? = some kind ∧ kinds.drop (line + 1) = tail := by
  constructor
  · rw [← Nat.add_zero line, ← List.getElem?_drop, hlines]
    rfl
  · rw [← List.drop_drop, hlines]
    rfl

theorem drop_of_append {lines tail : List Kind} (hlines : kinds.drop line = lines ++ tail) :
    kinds.drop (line + lines.length) = tail := by
  rw [← List.drop_drop, hlines, List.drop_left]

mutual

/-- Where a block is open, the interpreter goes over the blocks inside of it. -/
theorem skips_block (block : Block) (line : ℕ) (blocks : BlockStack) (tail : List Kind)
    (hidle : Idle blocks) (hopen : 0 < blocks.depth)
    (hdepth : blocks.depth + block.depth ≤ MAX_DEPTH)
    (hlines : kinds.drop line = block.lines ++ tail) :
    ∃ after, Skips system kinds machine line blocks (line + block.lines.length) after ∧
      Unchanged blocks after := by
  cases block with
  | done => exact ⟨blocks, ⟨0, fun _ ↦ rfl⟩, hidle, rfl, fun _ _ ↦ rfl⟩
  | blank rest =>
    obtain ⟨hkind, htail⟩ := kind_of_drop hlines
    obtain ⟨after, hafter, hunchanged⟩ :=
      skips_block rest (line + 1) blocks tail hidle hopen hdepth htail
    refine ⟨after, ?_, hunchanged⟩
    rw [Block.lines, List.length_cons, Nat.add_comm rest.lines.length, ← Nat.add_assoc]
    exact (skips_line hkind rfl).trans hafter
  | statement trimmed rest =>
    obtain ⟨hkind, htail⟩ := kind_of_drop hlines
    obtain ⟨after, hafter, hunchanged⟩ :=
      skips_block rest (line + 1) blocks tail hidle hopen hdepth htail
    refine ⟨after, ?_, hunchanged⟩
    rw [Block.lines, List.length_cons, Nat.add_comm rest.lines.length, ← Nat.add_assoc]
    exact (skips_line hkind (if_pos (suppressedBelow_of_idle hidle hopen))).trans hafter
  | ifThen condition body branches rest =>
    rw [Block.depth] at hdepth
    rw [Block.lines, List.cons_append, List.append_assoc, List.append_assoc] at hlines
    obtain ⟨hkind, htail⟩ := kind_of_drop hlines
    have hbranchesAt := drop_of_append htail
    have hrestAt := drop_of_append hbranchesAt
    obtain ⟨passed, hpassed, hsame⟩ : ∃ passed, Skips system kinds machine line blocks
        (line + 1 + body.lines.length + branches.lines.length) passed ∧ Unchanged blocks passed :=
      skips_if hidle (by omega) hkind
        (fun opened hopened ↦ skips_block body (line + 1) opened _ hopened.idle
          (by rw [hopened.depth_eq]; omega) (by rw [hopened.depth_eq]; omega) htail)
        (fun opened hopened ↦
          skips_branches branches _ blocks opened _ hopened (by omega) hbranchesAt)
    obtain ⟨after, hafter, hunchanged⟩ := skips_block rest _ passed tail hsame.idle
      (by rw [hsame.depth_eq]; exact hopen) (by rw [hsame.depth_eq]; omega) hrestAt
    refine ⟨after, ?_, hsame.trans hunchanged⟩
    have hend : line + (Block.ifThen condition body branches rest).lines.length =
        line + 1 + body.lines.length + branches.lines.length + rest.lines.length := by
      simp only [Block.lines, List.length_cons, List.length_append]
      omega
    rw [hend]
    exact hpassed.trans hafter
  | whileDo condition body rest =>
    rw [Block.depth] at hdepth
    rw [Block.lines, List.cons_append, List.append_assoc] at hlines
    obtain ⟨hkind, htail⟩ := kind_of_drop hlines
    obtain ⟨hend, hrestAt⟩ := kind_of_drop (drop_of_append htail)
    obtain ⟨passed, hpassed, hsame⟩ : ∃ passed, Skips system kinds machine line blocks
        (line + 1 + body.lines.length + 1) passed ∧ Unchanged blocks passed :=
      skips_while hidle (by omega) hkind hend
        (fun opened hopened ↦ skips_block body (line + 1) opened _ hopened.idle
          (by rw [hopened.depth_eq]; omega) (by rw [hopened.depth_eq]; omega) htail)
    obtain ⟨after, hafter, hunchanged⟩ := skips_block rest _ passed tail hsame.idle
      (by rw [hsame.depth_eq]; exact hopen) (by rw [hsame.depth_eq]; omega) hrestAt
    refine ⟨after, ?_, hsame.trans hunchanged⟩
    have hlength : line + (Block.whileDo condition body rest).lines.length =
        line + 1 + body.lines.length + 1 + rest.lines.length := by
      simp only [Block.lines, List.length_cons, List.length_append]
      omega
    rw [hlength]
    exact hpassed.trans hafter

/-- The interpreter goes over the branches of an `if`. -/
theorem skips_branches (branches : Branches) (line : ℕ) (before blocks : BlockStack)
    (tail : List Kind) (hopened : Opened .blockIf before blocks)
    (hdepth : before.depth + 1 + branches.depth ≤ MAX_DEPTH)
    (hlines : kinds.drop line = branches.lines ++ tail) :
    ∃ after, Skips system kinds machine line blocks (line + branches.lines.length) after ∧
      Unchanged before after := by
  obtain ⟨hidle, hopenDepth⟩ := And.intro hopened.idle hopened.depth_eq
  cases branches with
  | endif =>
    obtain ⟨hkind, _⟩ := kind_of_drop hlines
    obtain ⟨after, hline, hunchanged⟩ := hopened.endif
    exact ⟨after, skips_line hkind hline, hunchanged⟩
  | elseThen body =>
    rw [Branches.lines, List.cons_append, List.append_assoc] at hlines
    obtain ⟨hkind, htail⟩ := kind_of_drop hlines
    obtain ⟨hend, _⟩ := kind_of_drop (drop_of_append htail)
    obtain ⟨turned, hturned, hopened⟩ :
      ∃ turned, interpretLine system line blocks machine .elseLine =
        .continues (line + 1) turned machine ∧ Opened .blockIf before turned := hopened.elseLine
    obtain ⟨passed, hpassed, hsame⟩ := skips_block body (line + 1) turned _ hopened.idle
      (by rw [hopened.depth_eq]; omega) (by rw [hopened.depth_eq]; exact hdepth) htail
    obtain ⟨after, hclosed, hunchanged⟩ := (hopened.trans hsame).endif
    refine ⟨after, ?_, hunchanged⟩
    have hlength : line + (Branches.elseThen body).lines.length =
        line + 1 + body.lines.length + 1 := by
      simp only [Branches.lines, List.length_cons, List.length_append, List.length_nil]
      omega
    rw [hlength]
    exact ((skips_line hkind hturned).trans hpassed).trans (skips_line hend hclosed)
  | elifThen condition body branches =>
    rw [Branches.depth] at hdepth
    rw [Branches.lines, List.cons_append, List.append_assoc] at hlines
    obtain ⟨hkind, htail⟩ := kind_of_drop hlines
    obtain ⟨turned, hturned, hopened⟩ : ∃ turned, interpretLine system line blocks machine
        (.elifLine condition) = .continues (line + 1) turned machine ∧
          Opened .blockIf before turned := hopened.elif
    obtain ⟨passed, hpassed, hsame⟩ := skips_block body (line + 1) turned _ hopened.idle
      (by rw [hopened.depth_eq]; omega) (by rw [hopened.depth_eq]; omega) htail
    obtain ⟨after, hafter, hunchanged⟩ := skips_branches branches _ before passed tail
      (hopened.trans hsame) (by omega) (drop_of_append htail)
    refine ⟨after, ?_, hunchanged⟩
    have hlength : line + (Branches.elifThen condition body branches).lines.length =
        line + 1 + body.lines.length + branches.lines.length := by
      simp only [Branches.lines, List.length_cons, List.length_append]
      omega
    rw [hlength]
    exact ((skips_line hkind hturned).trans hpassed).trans hafter

end

/-! ### The lines outside of blocks -/

/-- Go over a part, and come to an end after it. -/
theorem Skips.interprets {result : ℤ × Machine World}
    (hskips : Skips system kinds machine line blocks mid after)
    (hresult : ∃ rounds, interpretLoop system kinds rounds mid after machine = some result) :
    ∃ rounds, interpretLoop system kinds rounds line blocks machine = some result := by
  obtain ⟨taken, hskips⟩ := hskips
  obtain ⟨rounds, hresult⟩ := hresult
  exact ⟨rounds + taken, (hskips rounds).trans hresult⟩

theorem interpretEnd_closed (hclosed : blocks.depth = 0) :
    interpretEnd system blocks machine = (0, machine) := by
  unfold interpretEnd
  rw [hclosed]
  rfl

/-- The interpreter runs the lines outside of all blocks. -/
theorem interprets_outside (block : Block) (line : ℕ) (blocks : BlockStack)
    (machine : Machine World)
    (hidle : Idle blocks) (hclosed : blocks.depth = 0) (hdepth : block.depth ≤ MAX_DEPTH)
    (hlines : kinds.drop line = block.lines) :
    ∃ rounds, interpretLoop system kinds rounds line blocks machine =
      some (0, (block.outside system line machine).1) := by
  cases block with
  | done =>
    have hend : kinds[line]? = none := by
      rw [List.getElem?_eq_none_iff]
      exact List.drop_eq_nil_iff.mp hlines
    refine ⟨1, ?_⟩
    simp only [interpretLoop, hend, interpretEnd_closed hclosed]
    rfl
  | blank rest =>
    obtain ⟨hkind, htail⟩ := kind_of_drop hlines
    exact (skips_line hkind rfl).interprets
      (interprets_outside rest (line + 1) blocks machine hidle hclosed hdepth htail)
  | statement trimmed rest =>
    obtain ⟨hkind, htail⟩ := kind_of_drop hlines
    have hexecuted : blockIsSuppressed blocks = false := by
      unfold blockIsSuppressed suppressedBelow
      rw [hclosed]
      rfl
    by_cases hexit : (executeStatement system line trimmed machine).1 = true
    · have hline : interpretLine system line blocks machine (.statement trimmed) =
          .exits blocks (executeStatement system line trimmed machine).2 := by
        simp only [interpretLine, hexecuted]
        rw [if_neg (by decide), if_pos hexit]
      refine ⟨1, ?_⟩
      simp only [interpretLoop, hkind, hline, interpretEnd_closed hclosed, Block.outside,
        if_pos hexit]
    · obtain ⟨rounds, hrest⟩ := interprets_outside rest (line + 1) blocks
        (executeStatement system line trimmed machine).2 hidle hclosed hdepth htail
      have hline : interpretLine system line blocks machine (.statement trimmed) =
          .continues (line + 1) blocks (executeStatement system line trimmed machine).2 := by
        simp only [interpretLine, hexecuted]
        rw [if_neg (by decide), if_neg hexit]
      refine ⟨rounds + 1, ?_⟩
      simp only [Block.outside, if_neg hexit]
      exact (interpretLoop_continues hkind hline rounds).trans hrest
  | ifThen condition body branches rest =>
    rw [Block.depth] at hdepth
    rw [Block.lines] at hlines
    obtain ⟨hkind, htail⟩ := kind_of_drop hlines
    have hbranchesAt := drop_of_append htail
    obtain ⟨passed, hpassed, hsame⟩ : ∃ passed, Skips system kinds machine line blocks
        (line + 1 + body.lines.length + branches.lines.length) passed ∧ Unchanged blocks passed :=
      skips_if hidle (by omega) hkind
        (fun opened hopened ↦ skips_block body (line + 1) opened _ hopened.idle
          (by rw [hopened.depth_eq]; omega) (by rw [hopened.depth_eq]; omega) htail)
        (fun opened hopened ↦ skips_branches branches _ blocks opened _ hopened (by omega)
          hbranchesAt)
    exact hpassed.interprets (interprets_outside rest _ passed machine hsame.idle
      (hsame.depth_eq.trans hclosed) ((Nat.le_max_right _ _).trans hdepth)
      (drop_of_append hbranchesAt))
  | whileDo condition body rest =>
    rw [Block.depth] at hdepth
    rw [Block.lines] at hlines
    obtain ⟨hkind, htail⟩ := kind_of_drop hlines
    obtain ⟨hend, hrestAt⟩ := kind_of_drop (drop_of_append htail)
    obtain ⟨passed, hpassed, hsame⟩ : ∃ passed, Skips system kinds machine line blocks
        (line + 1 + body.lines.length + 1) passed ∧ Unchanged blocks passed :=
      skips_while hidle (by omega) hkind hend
        (fun opened hopened ↦ skips_block body (line + 1) opened _ hopened.idle
          (by rw [hopened.depth_eq]; omega) (by rw [hopened.depth_eq]; omega) htail)
    exact hpassed.interprets (interprets_outside rest _ passed machine hsame.idle
      (hsame.depth_eq.trans hclosed) ((Nat.le_max_right _ _).trans hdepth) hrestAt)

/-- More rounds than the loop needs change nothing. -/
theorem interpretLoop_mono {result : ℤ × Machine World} (more : ℕ) :
    ∀ (rounds line : ℕ) (blocks : BlockStack) (machine : Machine World),
      interpretLoop system kinds rounds line blocks machine = some result →
        interpretLoop system kinds (rounds + more) line blocks machine = some result := by
  intro rounds
  induction rounds with
  | zero => exact fun _ _ _ hresult ↦ absurd hresult (Option.some_ne_none _).symm
  | succ rounds ih =>
    intro line blocks machine hresult
    rw [Nat.succ_add]
    unfold interpretLoop at hresult ⊢
    split
    · rename_i hend
      rw [hend] at hresult
      exact hresult
    · rename_i kind hkind
      simp only [hkind] at hresult
      split
      · rename_i hline
        simp only [hline] at hresult
        exact ih _ _ _ hresult
      · rename_i hline
        simp only [hline] at hresult
        exact hresult
      · rename_i hline
        simp only [hline] at hresult
        exact hresult

/-- The result of `interpret` for a well-nested script. -/
theorem interprets_iff {text : List Char} {block : Block}
    (hlines : (lineIndex MAX_LINES text).map kindOf = block.lines)
    (hdepth : block.depth ≤ MAX_DEPTH) (start : Machine World) (result : ℤ × Machine World) :
    Interprets system text start result ↔ result = (0, (block.outside system 0 start).1) := by
  obtain ⟨rounds, hrounds⟩ : ∃ rounds, interpretLoop system
      ((lineIndex MAX_LINES text).map kindOf) rounds 0 .zero start = some _ :=
    interprets_outside block 0 .zero start (fun _ ↦ rfl) rfl hdepth (List.drop_zero.trans hlines)
  constructor
  · rintro ⟨others, hothers⟩
    have hmore := interpretLoop_mono rounds others 0 _ start hothers
    rw [Nat.add_comm, interpretLoop_mono others rounds 0 _ start hrounds] at hmore
    exact (Option.some.inj hmore).symm
  · rintro rfl
    exact ⟨rounds, hrounds⟩

end EynOS.Shell.Script
