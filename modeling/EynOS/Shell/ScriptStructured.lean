import EynOS.Shell.ScriptSuppressed

/-!
# When the interpreter follows the structured reading

`structured_iff` is the exact condition under which `interpret` ends with the machine that the
structured reading of a well-nested script ends with: every block that is met while the lines
outside of blocks are run is silent. `not_structured` is a script whose one branch is lost.
-/

namespace EynOS.Shell.Script

variable {World : Type} {system : System World} {start middle machine : Machine World}
  {line low mid high : ℕ}

/-! ### What is recorded -/

/-- What is recorded from one machine to another is about lines of a range. -/
def Within (low high : ℕ) (before after : Machine World) : Prop :=
  ∃ events, after.trace = before.trace ++ events ∧
    ∀ event ∈ events, low ≤ event.line ∧ event.line < high

namespace Within

theorem of_trace_eq (htrace : machine.trace = start.trace) : Within low high start machine :=
  ⟨[], by rw [htrace, List.append_nil], fun _ hevent ↦ absurd hevent List.not_mem_nil⟩

theorem record {event : Event} (hlow : low ≤ event.line) (hhigh : event.line < high) :
    Within low high start (start.record event) := by
  refine ⟨[event], rfl, fun other hother ↦ ?_⟩
  rw [List.mem_singleton.mp hother]
  exact ⟨hlow, hhigh⟩

/-- Two parts follow one another. -/
theorem trans (hfirst : Within low high start middle) (hsecond : Within low high middle machine) :
    Within low high start machine := by
  obtain ⟨first, hfirst, hfirstRange⟩ := hfirst
  obtain ⟨second, hsecond, hsecondRange⟩ := hsecond
  refine ⟨first ++ second, by rw [hsecond, hfirst, List.append_assoc], fun event hevent ↦ ?_⟩
  rcases List.mem_append.mp hevent with hevent | hevent
  · exact hfirstRange event hevent
  · exact hsecondRange event hevent

theorem mono {lower higher : ℕ} (hwithin : Within low high start machine) (hlow : lower ≤ low)
    (hhigh : high ≤ higher) : Within lower higher start machine := by
  obtain ⟨events, hevents, hrange⟩ := hwithin
  exact ⟨events, hevents, fun event hevent ↦
    ⟨hlow.trans (hrange event hevent).1, (hrange event hevent).2.trans_le hhigh⟩⟩

/-- What has been recorded stays recorded. -/
theorem trace_ne (hfirst : Within low high start middle) (hne : middle.trace ≠ start.trace)
    (hsecond : Within low high middle machine) : machine.trace ≠ start.trace := by
  obtain ⟨first, hfirst, _⟩ := hfirst
  obtain ⟨second, hsecond, _⟩ := hsecond
  intro hsame
  rw [hsecond, hfirst, List.append_assoc, List.append_right_eq_self,
    List.append_eq_nil_iff] at hsame
  rw [hfirst, hsame.1, List.append_nil] at hne
  exact hne rfl

/-- What is recorded next is about lines of one range only. -/
theorem disjoint (hfirst : Within low mid start middle) (hne : middle.trace ≠ start.trace)
    (hsecond : Within low high middle machine) (hboth : Within mid high start machine) : False := by
  obtain ⟨first, hfirst, hfirstRange⟩ := hfirst
  obtain ⟨second, hsecond, _⟩ := hsecond
  obtain ⟨both, hboth, hbothRange⟩ := hboth
  rw [hsecond, hfirst, List.append_assoc] at hboth
  have hevents := List.append_cancel_left hboth
  cases first with
  | nil =>
    rw [List.append_nil] at hfirst
    exact hne hfirst
  | cons event first =>
    rw [List.cons_append] at hevents
    have hbelow := (hfirstRange event List.mem_cons_self).2
    have habove := hbothRange event (hevents ▸ List.mem_cons_self)
    omega

end Within

/-! ### Lines -/

/-- Expanding a text records the commands that it runs, and changes nothing else than running them
does. -/
theorem expandVariables_within (system : System World) (line rounds : ℕ) (src dst : List Char)
    (start : Machine World) :
    Within line (line + 1) start (expandVariables system line rounds src dst start).2 ∧
      ((expandVariables system line rounds src dst start).2.trace = start.trace →
        (expandVariables system line rounds src dst start).2 = start) := by
  have hsame (start : Machine World) :
      Within line (line + 1) start start ∧ (start.trace = start.trace → start = start) :=
    ⟨.of_trace_eq rfl, fun _ ↦ rfl⟩
  induction rounds generalizing src dst start with
  | zero => exact hsame start
  | succ rounds ih =>
    unfold expandVariables
    split_ifs
    · exact hsame start
    · split
      · exact hsame start
      · rename_i rest
        -- a command is run for its output, which is recorded
        obtain ⟨command, later⟩ := scanCommand 1 [] rest
        have hinner := (ih command [] start).1
        generalize hresult : expandVariables system line rounds command [] start = result at hinner
        obtain ⟨⟨text, left⟩, inner⟩ := result
        simp only [hresult]
        generalize hran : Machine.record _ _ = ran
        dsimp only at hinner
        have hrecorded : Within line (line + 1) inner ran := by
          rw [← hran]
          exact Within.record le_rfl (Nat.lt_succ_self line)
        have hgrows : ran.trace ≠ start.trace := by
          obtain ⟨events, hevents, _⟩ := hinner
          rw [← hran]
          simp [Machine.record, hevents]
        have hall := hinner.trans hrecorded
        obtain ⟨hlater, _⟩ := ih later (appendTo dst (stripNewlines
          (system.redirected text inner.world).1)) ran
        exact ⟨hall.trans hlater, fun htrace ↦ absurd htrace (hall.trace_ne hgrows hlater)⟩
      · exact ih _ _ _
      · dsimp only
        split_ifs
        · exact ih _ _ _
        · exact ih _ _ _
      · exact ih _ _ _

/-- Evaluating a condition records the commands that it runs, and changes nothing else than running
them does. -/
theorem evalCondition_within (system : System World) (line : ℕ) (condition : List Char)
    (start : Machine World) :
    Within line (line + 1) start (evalCondition system line condition start).2 ∧
      ((evalCondition system line condition start).2.trace = start.trace →
        (evalCondition system line condition start).2 = start) :=
  expandVariables_within _ _ _ _ _ start

/-- What a statement does after its expansion records nothing. -/
theorem executeSet_trace (text : List Char) (start : Machine World) :
    (executeSet system line text start).trace = start.trace := by
  unfold executeSet
  dsimp only
  split_ifs
  · rfl
  · split <;> rfl

/-- A statement is recorded before the commands that it runs for their output. -/
theorem executeStatement_within (system : System World) (line : ℕ) (trimmed : List Char)
    (start : Machine World) :
    Within line (line + 1) start (executeStatement system line trimmed start).2 ∧
      (executeStatement system line trimmed start).2.trace ≠ start.trace := by
  have hrecorded : Within line (line + 1) start (start.record (.statement line)) :=
    Within.record le_rfl (Nat.lt_succ_self line)
  have hgrows : (start.record (.statement line)).trace ≠ start.trace := by
    simp [Machine.record]
  obtain ⟨hexpanded, _⟩ := expandVariables_within system line trimmed.length trimmed []
    (start.record (.statement line))
  have htrace : (executeStatement system line trimmed start).2.trace =
      (expanded system line trimmed (start.record (.statement line))).2.trace := by
    unfold executeStatement
    rcases expanded system line trimmed (start.record (.statement line)) with ⟨⟨text, left⟩, inner⟩
    dsimp only
    generalize hwarned : (if MAX_LINE - 1 ≤ text.length ∧ left ≠ [] then inner.print system _
      else inner) = warned
    have hsame : warned.trace = inner.trace := by
      rw [← hwarned]
      split_ifs <;> rfl
    rw [← hsame]
    split_ifs
    · rfl
    · exact executeSet_trace _ _
    · rfl
    · rfl
    · rfl
  have hall := hrecorded.trans hexpanded
  refine ⟨?_, ?_⟩
  · obtain ⟨events, hevents, hrange⟩ := hall
    exact ⟨events, htrace.trans hevents, hrange⟩
  · rw [htrace]
    exact hrecorded.trace_ne hgrows hexpanded

/-! ### What a reading records -/

/-- A part of a reading stays in its range, and either it does nothing or something is recorded. -/
def Settles (silent : Prop) (low high : ℕ) (start : Machine World) (result : Machine World × Bool) :
    Prop :=
  Within low high start result.1 ∧
    (silent ∧ result = (start, false) ∨ result.1.trace ≠ start.trace)

namespace Settles

variable {silent silentRest : Prop} {result : Machine World × Bool}

theorem nothing (hsilent : silent) : Settles silent low high start (start, false) :=
  ⟨.of_trace_eq rfl, Or.inl ⟨hsilent, rfl⟩⟩

/-- A wider range, and another way to say that nothing is done. -/
theorem mono {lower higher : ℕ} (hsettles : Settles silent low high start result)
    (hlow : lower ≤ low) (hhigh : high ≤ higher) (himp : silent → silentRest) :
    Settles silentRest lower higher start result :=
  ⟨hsettles.1.mono hlow hhigh, hsettles.2.imp_left fun hnothing ↦ ⟨himp hnothing.1, hnothing.2⟩⟩

/-- Two parts follow one another. -/
theorem sequence {part : Option (Machine World × Bool)}
    {rest : Machine World → Option (Machine World × Bool)}
    (hresult : andThen part rest = some result)
    (hpart : ∀ first, part = some first → Settles silent low high start first)
    (hrest : ∀ after second, rest after = some second →
      Within low high after second.1 ∧
        (after = start → Settles silentRest low high start second)) :
    Settles (silent ∧ silentRest) low high start result := by
  cases hfirst : part with
  | none =>
    rw [hfirst] at hresult
    exact absurd hresult (Option.some_ne_none _).symm
  | some first =>
    obtain ⟨after, exits⟩ := first
    obtain ⟨hwithin, hsettles⟩ := hpart _ hfirst
    rw [hfirst] at hresult
    cases exits with
    | true =>
      rw [← Option.some.inj hresult]
      refine ⟨hwithin, Or.inr ?_⟩
      rcases hsettles with ⟨_, hsame⟩ | hgrows
      · exact absurd (congrArg Prod.snd hsame) (by simp)
      · exact hgrows
    | false =>
      obtain ⟨hwithinRest, hsettlesRest⟩ := hrest after result hresult
      refine ⟨hwithin.trans hwithinRest, ?_⟩
      rcases hsettles with ⟨hsilent, hsame⟩ | hgrows
      · obtain rfl : after = start := congrArg Prod.fst hsame
        exact (hsettlesRest rfl).2.imp_left fun hnothing ↦ ⟨⟨hsilent, hnothing.1⟩, hnothing.2⟩
      · exact Or.inr (hwithin.trace_ne hgrows hwithinRest)

/-- A condition is evaluated before a part. -/
theorem condition {condition : List Char}
    (hsettles : Settles silent low high (evalCondition system line condition start).2 result)
    (hlow : low ≤ line) (hhigh : line < high) :
    Settles ((evalCondition system line condition start).2.trace = start.trace ∧ silent) low high
      start result := by
  obtain ⟨hwithin, hquiet⟩ := evalCondition_within system line condition start
  have hwider := hwithin.mono hlow hhigh
  refine ⟨hwider.trans hsettles.1, ?_⟩
  by_cases htrace : (evalCondition system line condition start).2.trace = start.trace
  · rcases hsettles.2 with ⟨hsilent, hsame⟩ | hgrows
    · rw [hquiet htrace] at hsame
      exact Or.inl ⟨⟨htrace, hsilent⟩, hsame⟩
    · rw [htrace] at hgrows
      exact Or.inr hgrows
  · exact Or.inr (hwider.trace_ne htrace hsettles.1)

end Settles

/-- Every part of a structured reading with some fuel stays in its lines, and either it is silent
and does nothing or something is recorded. -/
structure SettlesAt (system : System World) (fuel : ℕ) : Prop where
  block : ∀ (block : Block) (line : ℕ) (start : Machine World) (result : Machine World × Bool),
    block.read system fuel line start = some result →
      Settles (block.Silent system start line) line (line + block.lines.length) start result
  branches : ∀ (branches : Branches) (line : ℕ) (start : Machine World)
      (result : Machine World × Bool),
    branches.read system fuel line start = some result →
      Settles (branches.Silent system start line) line (line + branches.lines.length) start result
  whileDo : ∀ (condition : List Char) (body : Block) (line : ℕ) (start : Machine World)
      (result : Machine World × Bool),
    readWhile system fuel condition body line start = some result →
      Settles ((evalCondition system line condition start).2.trace = start.trace ∧
        (evalCondition system line condition start).1 = false) line
          (line + 1 + body.lines.length) start result

namespace SettlesAt

variable {fuel : ℕ} {condition : List Char} {body rest : Block} {branches : Branches}
  {result : Machine World × Bool}

section

variable (hfuel : SettlesAt system fuel)

include hfuel

theorem follows (hmid : line ≤ mid)
    (hhigh : mid + rest.lines.length ≤ high)
    (hread : rest.read system fuel mid middle = some result) :
    Within line high middle result.1 ∧
      (middle = start → Settles (rest.Silent system start mid) line high start result) := by
  have hrest := (hfuel.block rest mid middle result hread).mono hmid hhigh id
  refine ⟨hrest.1, ?_⟩
  rintro rfl
  exact hrest

theorem statement {trimmed : List Char}
    (hread : (Block.statement trimmed rest).read system (fuel + 1) line start = some result) :
    Settles ((Block.statement trimmed rest).Silent system start line) line
      (line + (Block.statement trimmed rest).lines.length) start result := by
  obtain ⟨hwithin, hgrows⟩ := executeStatement_within system line trimmed start
  have hend : line + 1 + rest.lines.length =
      line + (Block.statement trimmed rest).lines.length := by
    simp only [Block.lines, List.length_cons]
    omega
  have hwider := hwithin.mono le_rfl (hend ▸ Nat.le_add_right (line + 1) rest.lines.length)
  simp only [Block.read] at hread
  split_ifs at hread with hexit
  · rw [← Option.some.inj hread]
    exact ⟨hwider, Or.inr hgrows⟩
  · have hrest := (hfuel.block rest (line + 1) _ result hread).1.mono (Nat.le_succ line) hend.le
    exact ⟨hwider.trans hrest, Or.inr (hwider.trace_ne hgrows hrest)⟩

theorem ifThen
    (hread : (Block.ifThen condition body branches rest).read system (fuel + 1) line start =
      some result) :
    Settles ((Block.ifThen condition body branches rest).Silent system start line) line
      (line + (Block.ifThen condition body branches rest).lines.length) start result := by
  simp only [Block.read] at hread
  generalize hmid : line + 1 + body.lines.length + branches.lines.length = mid at hread
  have hend : mid + rest.lines.length =
      line + (Block.ifThen condition body branches rest).lines.length := by
    simp only [Block.lines, List.length_cons, List.length_append]
    omega
  have hbranchesEnd : line + (Branches.elifThen condition body branches).lines.length ≤
      line + (Block.ifThen condition body branches rest).lines.length := by
    simp only [Block.lines, Branches.lines, List.length_cons, List.length_append]
    omega
  refine (Settles.sequence hread
    (fun first hfirst ↦ (hfuel.branches _ line start first hfirst).mono le_rfl hbranchesEnd id)
    fun _ _ hsecond ↦ hfuel.follows (by omega) hend.le hsecond).mono le_rfl le_rfl ?_
  rintro ⟨⟨htrace, hchosen⟩, hsilent⟩
  rw [← hmid] at hsilent
  exact ⟨htrace, hchosen, hsilent⟩

theorem whileBlock
    (hread : (Block.whileDo condition body rest).read system (fuel + 1) line start = some result) :
    Settles ((Block.whileDo condition body rest).Silent system start line) line
      (line + (Block.whileDo condition body rest).lines.length) start result := by
  simp only [Block.read] at hread
  generalize hmid : line + 1 + body.lines.length + 1 = mid at hread
  have hend : mid + rest.lines.length =
      line + (Block.whileDo condition body rest).lines.length := by
    simp only [Block.lines, List.length_cons, List.length_append]
    omega
  refine (Settles.sequence hread
    (fun first hfirst ↦ (hfuel.whileDo condition body line start first hfirst).mono le_rfl
      (show line + 1 + body.lines.length ≤ _ by omega) id)
    fun _ _ hsecond ↦ hfuel.follows (by omega) hend.le hsecond).mono le_rfl le_rfl ?_
  rintro ⟨⟨htrace, hfalse⟩, hsilent⟩
  rw [← hmid] at hsilent
  exact ⟨htrace, hfalse, hsilent⟩

theorem elifThen
    (hread : (Branches.elifThen condition body branches).read system (fuel + 1) line start =
      some result) :
    Settles ((Branches.elifThen condition body branches).Silent system start line) line
      (line + (Branches.elifThen condition body branches).lines.length) start result := by
  have hquiet := (evalCondition_within system line condition start).2
  have hend : line + 1 + body.lines.length + branches.lines.length =
      line + (Branches.elifThen condition body branches).lines.length := by
    simp only [Branches.lines, List.length_cons, List.length_append]
    omega
  have hline : line < line + (Branches.elifThen condition body branches).lines.length := by
    omega
  simp only [Branches.read] at hread
  split_ifs at hread with hholds
  · have hbody := (hfuel.block body (line + 1) _ result hread).mono (Nat.le_succ line)
      (by omega : _ ≤ line + (Branches.elifThen condition body branches).lines.length) id
    refine (hbody.condition le_rfl hline).mono le_rfl le_rfl ?_
    rintro ⟨htrace, hsilent⟩
    rw [hquiet htrace] at hsilent
    refine ⟨htrace, ?_⟩
    rw [if_pos hholds]
    exact hsilent
  · have hnext := (hfuel.branches branches _ _ result hread).mono (by omega : line ≤ _) hend.le id
    refine (hnext.condition le_rfl hline).mono le_rfl le_rfl ?_
    rintro ⟨htrace, hsilent⟩
    rw [hquiet htrace] at hsilent
    refine ⟨htrace, ?_⟩
    rw [if_neg hholds]
    exact hsilent

theorem loop (hread : readWhile system (fuel + 1) condition body line start = some result) :
    Settles ((evalCondition system line condition start).2.trace = start.trace ∧
      (evalCondition system line condition start).1 = false) line (line + 1 + body.lines.length)
        start result := by
  have hquiet := (evalCondition_within system line condition start).2
  have hline : line < line + 1 + body.lines.length := by omega
  simp only [readWhile] at hread
  split_ifs at hread with hholds
  · have hsequence := Settles.sequence hread
      (fun first hfirst ↦
        (hfuel.block body (line + 1) _ first hfirst).mono (Nat.le_succ line) le_rfl id)
      fun after second hsecond ↦
        ⟨(hfuel.whileDo condition body line after second hsecond).1,
          fun hsame ↦ hsame ▸ hfuel.whileDo condition body line after second hsecond⟩
    refine (hsequence.condition le_rfl hline).mono le_rfl le_rfl ?_
    -- a body that is silent would be read again and again
    rintro ⟨htrace, _, _, hfalse⟩
    rw [hquiet htrace] at hfalse
    exact absurd (hfalse.symm.trans hholds) Bool.false_ne_true
  · rw [← Option.some.inj hread]
    have hnothing : Settles ((evalCondition system line condition start).1 = false) line
        (line + 1 + body.lines.length) (evalCondition system line condition start).2
          ((evalCondition system line condition start).2, false) :=
      Settles.nothing (Bool.eq_false_iff.mpr hholds)
    exact hnothing.condition le_rfl hline

end

end SettlesAt

/-- Every part of every structured reading settles. -/
theorem settles_read (system : System World) (fuel : ℕ) : SettlesAt system fuel := by
  induction fuel with
  | zero =>
    constructor
    · exact fun _ _ _ _ hread ↦ absurd hread (Option.some_ne_none _).symm
    · exact fun _ _ _ _ hread ↦ absurd hread (Option.some_ne_none _).symm
    · exact fun _ _ _ _ _ hread ↦ absurd hread (Option.some_ne_none _).symm
  | succ fuel ih =>
    refine ⟨fun block line start result hread ↦ ?_, fun branches line start result hread ↦ ?_,
      fun condition body line start result hread ↦ ih.loop hread⟩
    · cases block with
      | done =>
        rw [← Option.some.inj hread]
        exact Settles.nothing trivial
      | blank rest =>
        refine (ih.block rest (line + 1) start result hread).mono (Nat.le_succ line) ?_ id
        simp only [Block.lines, List.length_cons]
        omega
      | statement trimmed rest => exact ih.statement hread
      | ifThen condition body branches rest => exact ih.ifThen hread
      | whileDo condition body rest => exact ih.whileBlock hread
    · cases branches with
      | endif =>
        rw [← Option.some.inj hread]
        exact Settles.nothing trivial
      | elseThen body =>
        refine (ih.block body (line + 1) start result hread).mono (Nat.le_succ line) ?_ id
        simp only [Branches.lines, List.length_cons, List.length_append]
        omega
      | elifThen condition body branches => exact ih.elifThen hread

/-! ### Readings that do nothing inside of blocks -/

theorem evalCondition_of_trace {condition : List Char}
    (htrace : (evalCondition system line condition start).2.trace = start.trace) :
    (evalCondition system line condition start).2 = start :=
  (evalCondition_within system line condition start).2 htrace

theorem exists_succ {bound fuel : ℕ} (hfuel : bound + 1 ≤ fuel) :
    ∃ later, fuel = later + 1 ∧ bound ≤ later :=
  ⟨fuel - 1, by omega, by omega⟩

/-- In a silent block there is nothing outside of blocks that are silent. -/
theorem conforms_of_silent (block : Block) (line : ℕ) (start : Machine World)
    (hsilent : block.Silent system start line) :
    block.Conforms system line start ∧ block.outside system line start = (start, false) := by
  cases block with
  | done => exact ⟨trivial, rfl⟩
  | blank rest => exact conforms_of_silent rest (line + 1) start hsilent
  | statement trimmed rest => exact absurd hsilent id
  | ifThen condition body branches rest =>
    obtain ⟨htrace, hchosen, hrest⟩ := hsilent
    obtain ⟨hconforms, houtside⟩ := conforms_of_silent rest _ start hrest
    exact ⟨⟨⟨htrace, hchosen⟩, hconforms⟩, houtside⟩
  | whileDo condition body rest =>
    obtain ⟨htrace, hfalse, hrest⟩ := hsilent
    obtain ⟨hconforms, houtside⟩ := conforms_of_silent rest _ start hrest
    exact ⟨⟨⟨htrace, hfalse⟩, hconforms⟩, houtside⟩

/-- A branch with a condition is read to its end where what is chosen is. -/
theorem readElif_of_silent {condition : List Char} {body : Block} {branches : Branches}
    (hsilent : (Branches.elifThen condition body branches).Silent system start line)
    (hbody : body.Conforms system (line + 1) start → ∃ bound, ∀ fuel, bound ≤ fuel →
      body.read system fuel (line + 1) start = some (body.outside system (line + 1) start))
    (hbranches : branches.Silent system start (line + 1 + body.lines.length) →
      ∃ bound, ∀ fuel, bound ≤ fuel →
        branches.read system fuel (line + 1 + body.lines.length) start = some (start, false)) :
    ∃ bound, ∀ fuel, bound ≤ fuel →
      (Branches.elifThen condition body branches).read system fuel line start =
        some (start, false) := by
  obtain ⟨htrace, hchosen⟩ := hsilent
  have hsame := evalCondition_of_trace htrace
  by_cases hholds : (evalCondition system line condition start).1 = true
  · rw [if_pos hholds] at hchosen
    obtain ⟨hconforms, houtside⟩ := conforms_of_silent body (line + 1) start hchosen
    obtain ⟨bound, hread⟩ := hbody hconforms
    rw [houtside] at hread
    refine ⟨bound + 1, fun fuel hfuel ↦ ?_⟩
    obtain ⟨later, rfl, hlater⟩ := exists_succ hfuel
    simp only [Branches.read, hholds, hsame, if_true]
    exact hread later hlater
  · rw [if_neg hholds] at hchosen
    obtain ⟨bound, hread⟩ := hbranches hchosen
    refine ⟨bound + 1, fun fuel hfuel ↦ ?_⟩
    obtain ⟨later, rfl, hlater⟩ := exists_succ hfuel
    simp only [Branches.read, hholds, hsame]
    rw [if_neg (by simp), hread later hlater]

mutual

/-- Where every block that is met is silent, the reading runs the lines outside of blocks. -/
theorem read_of_conforms (block : Block) (line : ℕ) (start : Machine World)
    (hconforms : block.Conforms system line start) :
    ∃ bound, ∀ fuel, bound ≤ fuel →
      block.read system fuel line start = some (block.outside system line start) := by
  cases block with
  | done =>
    refine ⟨1, fun fuel hfuel ↦ ?_⟩
    obtain ⟨later, rfl, _⟩ := exists_succ hfuel
    rfl
  | blank rest =>
    obtain ⟨bound, hread⟩ := read_of_conforms rest (line + 1) start hconforms
    refine ⟨bound + 1, fun fuel hfuel ↦ ?_⟩
    obtain ⟨later, rfl, hlater⟩ := exists_succ hfuel
    exact hread later hlater
  | statement trimmed rest =>
    by_cases hexit : (executeStatement system line trimmed start).1 = true
    · refine ⟨1, fun fuel hfuel ↦ ?_⟩
      obtain ⟨later, rfl, _⟩ := exists_succ hfuel
      simp only [Block.read, Block.outside, hexit, if_true]
    · obtain ⟨bound, hread⟩ := read_of_conforms rest _ _ (hconforms.resolve_left hexit)
      refine ⟨bound + 1, fun fuel hfuel ↦ ?_⟩
      obtain ⟨later, rfl, hlater⟩ := exists_succ hfuel
      simp only [Block.read, Block.outside, if_neg hexit]
      exact hread later hlater
  | ifThen condition body branches rest =>
    obtain ⟨hsilent, hrest⟩ := hconforms
    obtain ⟨bound, hread⟩ := readElif_of_silent hsilent (read_of_conforms body (line + 1) start)
      (readBranches_of_silent branches _ start)
    obtain ⟨boundRest, hreadRest⟩ := read_of_conforms rest _ start hrest
    refine ⟨bound + boundRest + 1, fun fuel hfuel ↦ ?_⟩
    obtain ⟨later, rfl, hlater⟩ := exists_succ hfuel
    simp only [Block.read, Block.outside]
    rw [hread later (by omega), andThen, hreadRest later (by omega)]
  | whileDo condition body rest =>
    obtain ⟨⟨htrace, hfalse⟩, hrest⟩ := hconforms
    have hsame := evalCondition_of_trace htrace
    obtain ⟨bound, hread⟩ := read_of_conforms rest _ start hrest
    refine ⟨bound + 1 + 1, fun fuel hfuel ↦ ?_⟩
    obtain ⟨outer, rfl, houter⟩ := exists_succ hfuel
    obtain ⟨inner, rfl, hinner⟩ := exists_succ houter
    simp only [Block.read, readWhile, Block.outside, hfalse, hsame]
    rw [if_neg (by simp), andThen, hread (inner + 1) (by omega)]

/-- Silent branches are read to their end. -/
theorem readBranches_of_silent (branches : Branches) (line : ℕ) (start : Machine World)
    (hsilent : branches.Silent system start line) :
    ∃ bound, ∀ fuel, bound ≤ fuel → branches.read system fuel line start = some (start, false) := by
  cases branches with
  | endif =>
    refine ⟨1, fun fuel hfuel ↦ ?_⟩
    obtain ⟨later, rfl, _⟩ := exists_succ hfuel
    rfl
  | elseThen body =>
    obtain ⟨hconforms, houtside⟩ := conforms_of_silent body (line + 1) start hsilent
    rw [← houtside]
    obtain ⟨bound, hread⟩ := read_of_conforms body (line + 1) start hconforms
    refine ⟨bound + 1, fun fuel hfuel ↦ ?_⟩
    obtain ⟨later, rfl, hlater⟩ := exists_succ hfuel
    exact hread later hlater
  | elifThen condition body branches =>
    exact readElif_of_silent hsilent (read_of_conforms body (line + 1) start)
      (readBranches_of_silent branches _ start)

end

/-- What is recorded about the lines outside of blocks. -/
theorem outside_within (block : Block) (line : ℕ) (start : Machine World) :
    Within line (line + block.lines.length) start (block.outside system line start).1 := by
  cases block with
  | done => exact .of_trace_eq rfl
  | blank rest =>
    refine (outside_within rest (line + 1) start).mono (Nat.le_succ line) ?_
    simp only [Block.lines, List.length_cons]
    omega
  | statement trimmed rest =>
    have hend : line + 1 + rest.lines.length =
        line + (Block.statement trimmed rest).lines.length := by
      simp only [Block.lines, List.length_cons]
      omega
    have hwithin := (executeStatement_within system line trimmed start).1.mono le_rfl
      (hend ▸ Nat.le_add_right (line + 1) rest.lines.length)
    simp only [Block.outside]
    split_ifs
    · exact hwithin
    · exact hwithin.trans ((outside_within rest (line + 1) _).mono (Nat.le_succ line) hend.le)
  | ifThen condition body branches rest =>
    refine (outside_within rest _ start).mono ?_ ?_
    · omega
    · simp only [Block.lines, List.length_cons, List.length_append]
      omega
  | whileDo condition body rest =>
    refine (outside_within rest _ start).mono ?_ ?_
    · omega
    · simp only [Block.lines, List.length_cons, List.length_append]
      omega

/-- A part that records something is not followed by a reading that ends as if it were not there. -/
theorem silent_of_read {part : Option (Machine World × Bool)} {silent : Prop} {rest : Block}
    {fuel : ℕ} {result : Machine World × Bool}
    (hresult : andThen part (rest.read system fuel mid) = some result)
    (hpart : ∀ first, part = some first → Settles silent low mid start first) (hlow : low ≤ mid)
    (hsame : result.1 = (rest.outside system mid start).1) :
    silent ∧ rest.read system fuel mid start = some result := by
  have hboth : Within mid (mid + rest.lines.length) start result.1 := by
    rw [hsame]
    exact outside_within rest mid start
  cases hfirst : part with
  | none =>
    rw [hfirst] at hresult
    exact absurd hresult (Option.some_ne_none _).symm
  | some first =>
    obtain ⟨after, exits⟩ := first
    obtain ⟨hwithin, hsettles⟩ := hpart _ hfirst
    rw [hfirst] at hresult
    rcases hsettles with ⟨hsilent, hnothing⟩ | hgrows
    · obtain ⟨rfl, rfl⟩ := Prod.mk.inj hnothing
      exact ⟨hsilent, hresult⟩
    · exfalso
      have hend : Within low (mid + rest.lines.length) after result.1 := by
        cases exits with
        | true =>
          rw [← Option.some.inj hresult]
          exact .of_trace_eq rfl
        | false =>
          exact ((settles_read system fuel).block rest mid after result hresult).1.mono hlow le_rfl
      exact hwithin.disjoint hgrows hend (hboth.mono le_rfl le_rfl)

/-- A reading that ends as the lines outside of blocks do only meets blocks that are silent. -/
theorem conforms_of_read (block : Block) (fuel line : ℕ) (start : Machine World)
    (result : Machine World × Bool) (hread : block.read system fuel line start = some result)
    (hsame : result.1 = (block.outside system line start).1) :
    block.Conforms system line start := by
  cases fuel with
  | zero => exact absurd hread (Option.some_ne_none _).symm
  | succ fuel =>
    cases block with
    | done => exact trivial
    | blank rest => exact conforms_of_read rest fuel (line + 1) start result hread hsame
    | statement trimmed rest =>
      simp only [Block.read] at hread
      simp only [Block.outside] at hsame
      split_ifs at hread hsame with hexit
      · exact Or.inl hexit
      · exact Or.inr (conforms_of_read rest fuel (line + 1) _ result hread hsame)
    | ifThen condition body branches rest =>
      simp only [Block.read] at hread
      simp only [Block.outside] at hsame
      have hpart (first : Machine World × Bool)
          (hfirst : Branches.read system fuel (.elifThen condition body branches) line start =
            some first) :
          Settles ((Branches.elifThen condition body branches).Silent system start line) line
            (line + 1 + body.lines.length + branches.lines.length) start first := by
        refine ((settles_read system fuel).branches _ line start first hfirst).mono le_rfl ?_ id
        simp only [Branches.lines, List.length_cons, List.length_append]
        omega
      obtain ⟨hsilent, hrest⟩ := silent_of_read hread hpart (by omega) hsame
      exact ⟨hsilent, conforms_of_read rest fuel _ start result hrest hsame⟩
    | whileDo condition body rest =>
      simp only [Block.read] at hread
      simp only [Block.outside] at hsame
      have hpart (first : Machine World × Bool)
          (hfirst : readWhile system fuel condition body line start = some first) :=
        ((settles_read system fuel).whileDo condition body line start first hfirst).mono le_rfl
          (Nat.le_succ (line + 1 + body.lines.length)) id
      obtain ⟨hsilent, hrest⟩ := silent_of_read hread hpart (by omega) hsame
      exact ⟨hsilent, conforms_of_read rest fuel _ start result hrest hsame⟩

/-! ### The interpreter and the structured reading -/

/-- For a well-nested script, `interpret` succeeds and leaves behind the machine that the structured
reading ends with, with the same record of executed lines, exactly where every block that is met
while the lines outside of blocks are run is silent. -/
theorem structured_iff (system : System World) (text : List Char) (block : Block)
    (start : Machine World) (hlines : (lineIndex MAX_LINES text).map kindOf = block.lines)
    (hdepth : block.depth ≤ MAX_DEPTH) :
    (∃ machine, Interprets system text start (0, machine) ∧ Reads system block start machine) ↔
      block.Conforms system 0 start := by
  constructor
  · rintro ⟨machine, hinterprets, fuel, exits, hread⟩
    have hmachine := (interprets_iff hlines hdepth start _).mp hinterprets
    exact conforms_of_read block fuel 0 start _ hread (congrArg Prod.snd hmachine)
  · intro hconforms
    obtain ⟨bound, hread⟩ := read_of_conforms block 0 start hconforms
    exact ⟨_, (interprets_iff hlines hdepth start _).mpr rfl, bound, _, hread bound le_rfl⟩

/-- A system that is a console without files and commands. -/
def console : System (List Printed) where
  handleShellCommand := fun _ world ↦ world
  redirected := fun _ world ↦ ([], world)
  print := fun printed world ↦ world ++ [printed]
  resolvePath := fun path _ ↦ path
  vfsStat := fun _ _ ↦ none

/-- A script starts without variables and arguments on an empty console. -/
def fresh : Machine (List Printed) where
  env := { vars := [], args := [] }
  world := []
  trace := []

/-- An `if` block that is not entered, with a line after it. -/
theorem structured_skipped :
    ∃ machine, Interprets console "if 0\nset a=1\nendif\necho x\n".toList fresh (0, machine) ∧
      Reads console (.ifThen ['0'] (.statement "set a=1".toList .done) .endif
        (.statement "echo x".toList .done)) fresh machine := by
  refine (structured_iff console _ _ fresh (by decide) (by decide)).mpr ⟨⟨rfl, trivial⟩, ?_⟩
  exact Or.inr trivial

/-- The only branch of an `if` whose condition holds is lost. -/
theorem not_structured :
    (lineIndex MAX_LINES "if 1\necho x\nendif\n".toList).map kindOf =
        (Block.ifThen ['1'] (.statement "echo x".toList .done) .endif .done).lines ∧
      ¬ ∃ machine, Interprets console "if 1\necho x\nendif\n".toList fresh (0, machine) ∧
        Reads console (.ifThen ['1'] (.statement "echo x".toList .done) .endif .done) fresh
          machine := by
  have hlines : (lineIndex MAX_LINES "if 1\necho x\nendif\n".toList).map kindOf =
      (Block.ifThen ['1'] (.statement "echo x".toList .done) .endif .done).lines := by decide
  refine ⟨hlines, ?_⟩
  rintro ⟨machine, hinterprets, fuel, exits, hread⟩
  have hmachine := (interprets_iff hlines (by decide) fresh _).mp hinterprets
  exact (conforms_of_read _ fuel 0 fresh _ hread (congrArg Prod.snd hmachine)).1.2

end EynOS.Shell.Script
