import Mathlib.Algebra.GroupWithZero.Nat
import Mathlib.Data.List.Chain
import Mathlib.Order.Nat

/-!
# Rows of adjacent segments

A row of segments covers an interval from left to right without gaps: each segment has a size
and is used or free. This is the shape of a first-come heap seen from above. `usedBlocks` lists
the used segments with the offsets they start at, `pairwise_usedBlocks` says that they are
disjoint, and `coalesce` joins neighbouring free segments: it keeps every used segment where it is
(`usedBlocks_coalesce`) and leaves no two free neighbours (`noFreePair_coalesce`).
-/

namespace EynOS.Foundation

/-- A piece of a row: its size and whether it is in use. -/
structure Segment where
  size : ℕ
  used : Bool
deriving DecidableEq, Repr

def rowSize (row : List Segment) : ℕ := (row.map Segment.size).sum

@[simp] theorem rowSize_nil : rowSize [] = 0 := rfl

@[simp] theorem rowSize_cons (segment : Segment) (row : List Segment) :
    rowSize (segment :: row) = segment.size + rowSize row := by
  simp [rowSize]

@[simp] theorem rowSize_append (first second : List Segment) :
    rowSize (first ++ second) = rowSize first + rowSize second := by
  simp [rowSize]

/-- The used segments of a row that starts at `base`, each with its offset and its size. -/
def usedBlocks (base : ℕ) : List Segment → List (ℕ × ℕ)
  | [] => []
  | segment :: row =>
    if segment.used then (base, segment.size) :: usedBlocks (base + segment.size) row
    else usedBlocks (base + segment.size) row

theorem usedBlocks_append (base : ℕ) (first second : List Segment) :
    usedBlocks base (first ++ second) =
      usedBlocks base first ++ usedBlocks (base + rowSize first) second := by
  induction first generalizing base with
  | nil => simp [usedBlocks]
  | cons segment first ih =>
    by_cases hused : segment.used <;> simp [usedBlocks, hused, ih, Nat.add_assoc]

/-- A used segment lies inside its row. -/
theorem usedBlocks_bounds {base : ℕ} {row : List Segment} {block : ℕ × ℕ}
    (hblock : block ∈ usedBlocks base row) :
    base ≤ block.1 ∧ block.1 + block.2 ≤ base + rowSize row := by
  induction row generalizing base with
  | nil => simp [usedBlocks] at hblock
  | cons segment row ih =>
    by_cases hused : segment.used
    · simp only [usedBlocks, hused, if_true, List.mem_cons] at hblock
      rcases hblock with rfl | hblock
      · simp only [rowSize_cons]
        omega
      · have hbounds := ih hblock
        simp only [rowSize_cons]
        omega
    · simp only [usedBlocks, hused] at hblock
      have hbounds := ih hblock
      simp only [rowSize_cons]
      omega

/-- The used segments of a row are disjoint and listed from left to right. -/
theorem pairwise_usedBlocks (base : ℕ) (row : List Segment) :
    (usedBlocks base row).Pairwise fun first second ↦ first.1 + first.2 ≤ second.1 := by
  induction row generalizing base with
  | nil => simp [usedBlocks]
  | cons segment row ih =>
    by_cases hused : segment.used
    · simp only [usedBlocks, hused, if_true, List.pairwise_cons]
      exact ⟨fun block hblock ↦ (usedBlocks_bounds hblock).1, ih _⟩
    · simpa [usedBlocks, hused] using ih (base + segment.size)

/-- Two used segments that start at one offset of a row of non-empty segments are the same. -/
theorem usedBlocks_eq_of_offset {base : ℕ} {row : List Segment}
    (hsizes : ∀ segment ∈ row, 0 < segment.size) {first second : ℕ × ℕ}
    (hfirst : first ∈ usedBlocks base row) (hsecond : second ∈ usedBlocks base row)
    (hoffset : first.1 = second.1) : first = second := by
  induction row generalizing base with
  | nil => simp [usedBlocks] at hfirst
  | cons segment row ih =>
    have hpositive := hsizes segment List.mem_cons_self
    have hrest : ∀ other ∈ row, 0 < other.size := fun other hother ↦
      hsizes other (List.mem_cons_of_mem _ hother)
    by_cases hused : segment.used
    · simp only [usedBlocks, hused, if_true, List.mem_cons] at hfirst hsecond
      rcases hfirst with rfl | hfirst <;> rcases hsecond with rfl | hsecond
      · rfl
      · have hbounds := usedBlocks_bounds hsecond
        omega
      · have hbounds := usedBlocks_bounds hfirst
        omega
      · exact ih hrest hfirst hsecond
    · simp only [usedBlocks, hused] at hfirst hsecond
      exact ih hrest hfirst hsecond

def blockOffsets (base : ℕ) : List Segment → List ℕ
  | [] => []
  | segment :: row => base :: blockOffsets (base + segment.size) row

theorem blockOffsets_append (base : ℕ) (first second : List Segment) :
    blockOffsets base (first ++ second) =
      blockOffsets base first ++ blockOffsets (base + rowSize first) second := by
  induction first generalizing base with
  | nil => simp [blockOffsets]
  | cons segment first ih => simp [blockOffsets, ih, Nat.add_assoc]

/-- A segment starts inside its row. -/
theorem le_of_mem_blockOffsets {base : ℕ} {row : List Segment} {offset : ℕ}
    (hoffset : offset ∈ blockOffsets base row) : base ≤ offset := by
  induction row generalizing base with
  | nil => simp [blockOffsets] at hoffset
  | cons segment row ih =>
    rcases List.mem_cons.mp hoffset with rfl | hrest
    · exact le_refl offset
    · exact le_trans (Nat.le_add_right base segment.size) (ih hrest)

/-- Non-empty segments start at increasing offsets. -/
theorem pairwise_blockOffsets (base : ℕ) {row : List Segment}
    (hsizes : ∀ segment ∈ row, 0 < segment.size) :
    (blockOffsets base row).Pairwise fun first second ↦ first < second := by
  induction row generalizing base with
  | nil => simp [blockOffsets]
  | cons segment row ih =>
    have hpositive := hsizes segment List.mem_cons_self
    refine List.pairwise_cons.mpr ⟨fun offset hoffset ↦ ?_, ih _ fun other hother ↦
      hsizes other (List.mem_cons_of_mem segment hother)⟩
    exact lt_of_lt_of_le (Nat.lt_add_of_pos_right hpositive) (le_of_mem_blockOffsets hoffset)

/-- A used segment splits its row into what is before it and what is after it. -/
theorem exists_split_of_mem_usedBlocks {base : ℕ} {row : List Segment} {block : ℕ × ℕ}
    (hblock : block ∈ usedBlocks base row) :
    ∃ before after, row = before ++ ⟨block.2, true⟩ :: after ∧
      block.1 = base + rowSize before := by
  induction row generalizing base with
  | nil => simp [usedBlocks] at hblock
  | cons segment row ih =>
    have hlater (hrest : block ∈ usedBlocks (base + segment.size) row) :
        ∃ before after, segment :: row = before ++ ⟨block.2, true⟩ :: after ∧
          block.1 = base + rowSize before := by
      obtain ⟨before, after, hsplit, hoffset⟩ := ih hrest
      refine ⟨segment :: before, after, by simp [hsplit], ?_⟩
      simp only [rowSize_cons]
      omega
    by_cases hused : segment.used
    · simp only [usedBlocks, hused, if_true, List.mem_cons] at hblock
      rcases hblock with rfl | hblock
      · exact ⟨[], row, by simp [← hused], by simp⟩
      · exact hlater hblock
    · simp only [usedBlocks, hused] at hblock
      exact hlater hblock

/-- No two neighbouring segments are both free. -/
def NoFreePair (row : List Segment) : Prop :=
  row.IsChain fun first second ↦ first.used = true ∨ second.used = true

/-- Using one segment of a row, and leaving a free remainder or none after it, keeps free
neighbours apart. -/
theorem NoFreePair.occupy {before after tail : List Segment} {size used : ℕ}
    (hrow : NoFreePair (before ++ ⟨size, false⟩ :: after))
    (htail : tail = [] ∨ ∃ rest, tail = [⟨rest, false⟩]) :
    NoFreePair (before ++ ⟨used, true⟩ :: (tail ++ after)) := by
  obtain ⟨hbefore, hafter, hjoin⟩ := List.isChain_append.mp hrow
  have hhead := List.isChain_cons.mp hafter
  refine List.isChain_append.mpr ⟨hbefore, ?_, ?_⟩
  · rcases htail with rfl | ⟨rest, rfl⟩
    · exact List.isChain_cons.mpr ⟨fun _ _ ↦ Or.inl rfl, hhead.2⟩
    · refine List.isChain_cons_cons.mpr ⟨Or.inl rfl, List.isChain_cons.mpr ⟨?_, hhead.2⟩⟩
      exact fun next hnext ↦ hhead.1 next hnext
  · intro last _ first hfirst
    simp only [List.head?_cons, Option.mem_def, Option.some.injEq] at hfirst
    exact Or.inr (hfirst ▸ rfl)

/-- A segment joined with the free segments that follow it, and the row left over. A used segment
joins nothing. -/
def absorb (segment : Segment) : List Segment → Segment × List Segment
  | [] => (segment, [])
  | next :: row =>
    if !segment.used && !next.used then absorb ⟨segment.size + next.size, false⟩ row
    else (segment, next :: row)

/-- A segment and the row after it with every run of free neighbours joined into one. -/
def coalesce (segment : Segment) : List Segment → List Segment
  | [] => [segment]
  | next :: row =>
    if !segment.used && !next.used then coalesce ⟨segment.size + next.size, false⟩ row
    else segment :: coalesce next row

def coalesceRow : List Segment → List Segment
  | [] => []
  | segment :: row => coalesce segment row

/-- Coalescing is absorbing into the first segment and coalescing what is left over. -/
theorem coalesce_eq_absorb (segment : Segment) (row : List Segment) :
    coalesce segment row = (absorb segment row).1 :: coalesceRow (absorb segment row).2 := by
  induction row generalizing segment with
  | nil => rfl
  | cons next row ih =>
    by_cases hfree : (!segment.used && !next.used) = true
    · simp only [coalesce, absorb, hfree, if_true]
      exact ih _
    · simp [coalesce, absorb, hfree, coalesceRow]

theorem length_absorb_le (segment : Segment) (row : List Segment) :
    (absorb segment row).2.length ≤ row.length := by
  induction row generalizing segment with
  | nil => simp [absorb]
  | cons next row ih =>
    by_cases hfree : (!segment.used && !next.used) = true
    · simp only [absorb, hfree, if_true, List.length_cons]
      exact Nat.le_succ_of_le (ih _)
    · simp [absorb, hfree]

/-- Coalescing keeps every used segment at its offset and with its size. -/
theorem usedBlocks_coalesce (base : ℕ) (segment : Segment) (row : List Segment) :
    usedBlocks base (coalesce segment row) = usedBlocks base (segment :: row) := by
  induction row generalizing base segment with
  | nil => rfl
  | cons next row ih =>
    by_cases hfree : (!segment.used && !next.used) = true
    · simp only [coalesce, hfree, if_true, ih]
      simp only [Bool.and_eq_true, Bool.not_eq_true'] at hfree
      simp [usedBlocks, hfree.1, hfree.2, Nat.add_assoc]
    · have hnext := ih (base + segment.size) next
      simp only [coalesce, hfree]
      by_cases hused : segment.used <;> simp [usedBlocks, hused, hnext]

/-- The first segment of a coalesced row is used exactly when the segment it grew from is. -/
theorem head_coalesce (segment : Segment) (row : List Segment) :
    ∃ size rest, coalesce segment row = ⟨size, segment.used⟩ :: rest := by
  induction row generalizing segment with
  | nil => exact ⟨segment.size, [], rfl⟩
  | cons next row ih =>
    by_cases hfree : (!segment.used && !next.used) = true
    · obtain ⟨size, rest, hrest⟩ := ih ⟨segment.size + next.size, false⟩
      simp only [Bool.and_eq_true, Bool.not_eq_true'] at hfree
      refine ⟨size, rest, ?_⟩
      simp [coalesce, hfree.1, hfree.2, hrest]
    · exact ⟨segment.size, coalesce next row, by simp [coalesce, hfree]⟩

/-- A coalesced row has no two free neighbours. -/
theorem noFreePair_coalesce (segment : Segment) (row : List Segment) :
    NoFreePair (coalesce segment row) := by
  induction row generalizing segment with
  | nil => simp [coalesce, NoFreePair]
  | cons next row ih =>
    by_cases hfree : (!segment.used && !next.used) = true
    · simpa only [coalesce, hfree, if_true] using ih _
    · obtain ⟨size, rest, hhead⟩ := head_coalesce next row
      have hrest := ih next
      simp only [coalesce, hfree, NoFreePair] at hrest ⊢
      rw [hhead] at hrest ⊢
      refine List.isChain_cons_cons.mpr ⟨?_, hrest⟩
      simpa [Bool.and_eq_true, or_iff_not_imp_left] using hfree

end EynOS.Foundation
