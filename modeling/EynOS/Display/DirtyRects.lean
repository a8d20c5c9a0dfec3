import EynOS.Display.Line
import EynOS.Foundation.Run

/-!
# The dirty rectangles of a frame

`vga_mark_dirty_rect` of `vga.c` with its table of rectangles. A rectangle that overlaps a stored
one is joined with it, and the joined one absorbs others, each of which is removed by moving the
last entry into its place. `Sound` is the invariant of the table and `Covers` what a frame must
keep.

`AbsorbsSafely` says of the absorption that it removes nothing while the joined entry is the last
one. Then nothing is lost (`absorbLoop_covers`); otherwise nothing of the new rectangle is stored
(`absorbLoop_loses`).
-/

namespace EynOS.Display

open Foundation

/-! ### Rectangles -/

structure DirtyRect where
  x : ℤ
  y : ℤ
  w : ℤ
  h : ℤ

/-- Whether two rectangles overlap, each without its right and lower edge. -/
def rectsOverlapOrTouch (a b : DirtyRect) : Bool :=
  ¬(a.x + a.w ≤ b.x ∨ b.x + b.w ≤ a.x ∨ a.y + a.h ≤ b.y ∨ b.y + b.h ≤ a.y)

/-- The least rectangle around two. -/
def rectUnion (dst src : DirtyRect) : DirtyRect :=
  let x1 := min dst.x src.x
  let y1 := min dst.y src.y
  let x2 := max (dst.x + dst.w) (src.x + src.w)
  let y2 := max (dst.y + dst.h) (src.y + src.h)
  ⟨x1, y1, x2 - x1, y2 - y1⟩

/-- A pixel of a rectangle. -/
def DirtyRect.Holds (rect : DirtyRect) (x y : ℤ) : Prop :=
  rect.x ≤ x ∧ x < rect.x + rect.w ∧ rect.y ≤ y ∧ y < rect.y + rect.h

/-- A rectangle with a pixel, whose pixels are all on the screen. -/
structure DirtyRect.OnScreen (screen : Screen) (rect : DirtyRect) : Prop where
  left : 0 ≤ rect.x
  top : 0 ≤ rect.y
  wide : 0 < rect.w
  high : 0 < rect.h
  right : rect.x + rect.w ≤ screen.width
  bottom : rect.y + rect.h ≤ screen.height

/-! ### The table -/

def MAX_DIRTY_RECTS : ℕ := 128

/-- The array of rectangles, of which the first `count` are in use. -/
structure DirtyTable where
  rects : ℕ → DirtyRect
  count : ℕ

/-- The entry at `i` is joined with the one at `j`, whose place the last entry takes. -/
def DirtyTable.absorb (table : DirtyTable) (i j : ℕ) : DirtyTable :=
  let rects := Function.update table.rects i (rectUnion (table.rects i) (table.rects j))
  { rects := Function.update rects j (rects (table.count - 1)), count := table.count - 1 }

/-- The loop over the entries from `j` on, of which `left` are still to be looked at: an absorption
takes one away and a step goes past one. -/
def absorbLoop (i : ℕ) : ℕ → DirtyTable → ℕ → DirtyTable
  | 0, table, _ => table
  | left + 1, table, j =>
    if j ≠ i ∧ rectsOverlapOrTouch (table.rects i) (table.rects j) then
      absorbLoop i left (table.absorb i j) j
    else absorbLoop i left table (j + 1)

/-- The rectangle around a rectangle and all entries of a table. -/
def bounding (table : DirtyTable) (rect : DirtyRect) : DirtyRect :=
  (List.range table.count).foldl (fun box i ↦ rectUnion box (table.rects i)) rect

/-- What is marked: coordinates and sizes whose sums do not wrap. -/
structure Mark where
  x : ℤ
  y : ℤ
  w : ℤ
  h : ℤ
  isInt32_x : IsInt32 x
  isInt32_y : IsInt32 y
  isInt32_w : IsInt32 w
  isInt32_h : IsInt32 h
  isInt32_right : IsInt32 (x + w)
  isInt32_bottom : IsInt32 (y + h)

def clipAxis (position size limit : ℤ) : ℤ × ℤ :=
  let size := if position < 0 then i32 (size + position) else size
  let position := if position < 0 then 0 else position
  (position, if limit < i32 (position + size) then i32 (limit - position) else size)

def clipToScreen (screen : Screen) (mark : Mark) : Option DirtyRect :=
  if mark.w ≤ 0 ∨ mark.h ≤ 0 then none
  else
    let (x, w) := clipAxis mark.x mark.w screen.width
    let (y, h) := clipAxis mark.y mark.h screen.height
    if w ≤ 0 ∨ h ≤ 0 then none else some ⟨x, y, w, h⟩

def firstOverlap (table : DirtyTable) (nr : DirtyRect) : Option ℕ :=
  (List.range table.count).find? fun i ↦ rectsOverlapOrTouch (table.rects i) nr

def DirtyTable.join (table : DirtyTable) (i : ℕ) (nr : DirtyRect) : DirtyTable :=
  { table with rects := Function.update table.rects i (rectUnion (table.rects i) nr) }

def vgaMarkDirtyRect (screen : Screen) (table : DirtyTable) (mark : Mark) : DirtyTable :=
  match clipToScreen screen mark with
  | none => table
  | some nr =>
    match firstOverlap table nr with
    | some i => absorbLoop i table.count (table.join i nr) 0
    | none =>
      if table.count < MAX_DIRTY_RECTS then
        { rects := Function.update table.rects table.count nr, count := table.count + 1 }
      else { rects := Function.update table.rects 0 (bounding table nr), count := 1 }

def vgaBeginFrame (table : DirtyTable) : DirtyTable := { table with count := 0 }

/-! ### What must be kept -/

/-- The number of entries is in its range, and each is on the screen. -/
structure DirtyTable.Sound (screen : Screen) (table : DirtyTable) : Prop where
  count_le : table.count ≤ MAX_DIRTY_RECTS
  onScreen : ∀ i < table.count, (table.rects i).OnScreen screen

/-- A pixel is in an entry of the table. -/
def DirtyTable.Covers (table : DirtyTable) (x y : ℤ) : Prop :=
  ∃ i < table.count, (table.rects i).Holds x y

def Mark.Shows (screen : Screen) (mark : Mark) (x y : ℤ) : Prop :=
  mark.x ≤ x ∧ x < mark.x + mark.w ∧ mark.y ≤ y ∧ y < mark.y + mark.h ∧ screen.holds x y

def AbsorbsSafely (i : ℕ) : ℕ → DirtyTable → ℕ → Prop
  | 0, _, _ => True
  | left + 1, table, j =>
    if j ≠ i ∧ rectsOverlapOrTouch (table.rects i) (table.rects j) then
      i + 1 < table.count ∧ AbsorbsSafely i left (table.absorb i j) j
    else AbsorbsSafely i left table (j + 1)

/-- What is marked overlaps no entry, or is joined with one that absorbs safely. -/
def MergesSafely (screen : Screen) (table : DirtyTable) (mark : Mark) : Prop :=
  ∀ nr ∈ clipToScreen screen mark, ∀ i ∈ firstOverlap table nr,
    AbsorbsSafely i table.count (table.join i nr) 0

variable {screen : Screen} {table : DirtyTable} {a b c nr : DirtyRect} {mark : Mark}
  {i j left : ℕ} {x y : ℤ}

/-! ### Joining rectangles -/

theorem rectsOverlapOrTouch_iff : rectsOverlapOrTouch a b = true ↔
    b.x < a.x + a.w ∧ a.x < b.x + b.w ∧ b.y < a.y + a.h ∧ a.y < b.y + b.h := by
  unfold rectsOverlapOrTouch
  rw [decide_eq_true_iff]
  omega

theorem overlap_of_holds (ha : a.Holds x y) (hb : b.Holds x y) :
    rectsOverlapOrTouch a b = true := by
  unfold DirtyRect.Holds at ha hb
  rw [rectsOverlapOrTouch_iff]
  omega

theorem holds_union_left (hholds : a.Holds x y) : (rectUnion a b).Holds x y := by
  unfold DirtyRect.Holds rectUnion at *
  dsimp only
  omega

theorem holds_union_right (hholds : b.Holds x y) : (rectUnion a b).Holds x y := by
  unfold DirtyRect.Holds rectUnion at *
  dsimp only
  omega

theorem overlap_union_left (hoverlap : rectsOverlapOrTouch a c = true) :
    rectsOverlapOrTouch (rectUnion a b) c = true := by
  rw [rectsOverlapOrTouch_iff] at *
  unfold rectUnion
  dsimp only
  omega

theorem overlap_union_right (hoverlap : rectsOverlapOrTouch b c = true) :
    rectsOverlapOrTouch (rectUnion a b) c = true := by
  rw [rectsOverlapOrTouch_iff] at *
  unfold rectUnion
  dsimp only
  omega

theorem DirtyRect.OnScreen.union (ha : a.OnScreen screen) (hb : b.OnScreen screen) :
    (rectUnion a b).OnScreen screen := by
  obtain ⟨_, _, _, _, _, _⟩ := ha
  obtain ⟨_, _, _, _, _, _⟩ := hb
  unfold rectUnion
  refine ⟨?_, ?_, ?_, ?_, ?_, ?_⟩ <;> dsimp only <;> omega

/-! ### Absorbing -/

/-- The entries after one was absorbed that stands in front of the last one. -/
theorem absorb_rects (hi : i + 1 < table.count) (hne : j ≠ i) (k : ℕ) :
    (table.absorb i j).rects k =
      if k = i then rectUnion (table.rects i) (table.rects j)
      else if k = j then table.rects (table.count - 1) else table.rects k := by
  unfold DirtyTable.absorb
  dsimp only
  simp only [Function.update_apply]
  rw [if_neg (show ¬table.count - 1 = i by omega)]
  split_ifs <;> first | rfl | omega

/-- An absorption keeps what the table covers. -/
theorem absorb_covers (hi : i + 1 < table.count) (hj : j < table.count) (hne : j ≠ i)
    (hcovers : table.Covers x y) : (table.absorb i j).Covers x y := by
  obtain ⟨k, hk, hholds⟩ := hcovers
  have hjoined : (table.rects i).Holds x y ∨ (table.rects j).Holds x y →
      (table.absorb i j).Covers x y := by
    intro hpart
    refine ⟨i, show i < table.count - 1 by omega, ?_⟩
    rw [absorb_rects hi hne, if_pos rfl]
    exact hpart.elim holds_union_left holds_union_right
  by_cases hki : k = i
  · exact hjoined (Or.inl (hki ▸ hholds))
  by_cases hkj : k = j
  · exact hjoined (Or.inr (hkj ▸ hholds))
  by_cases hlast : k = table.count - 1
  · -- the last entry has moved to where the absorbed one was
    refine ⟨j, show j < table.count - 1 by omega, ?_⟩
    rw [absorb_rects hi hne, if_neg hne, if_pos rfl, ← hlast]
    exact hholds
  · refine ⟨k, show k < table.count - 1 by omega, ?_⟩
    rw [absorb_rects hi hne, if_neg hki, if_neg hkj]
    exact hholds

theorem absorb_sound (hi : i + 1 < table.count) (hj : j < table.count) (hne : j ≠ i)
    (hsound : table.Sound screen) : (table.absorb i j).Sound screen := by
  refine ⟨?_, fun k hk ↦ ?_⟩
  · have := hsound.count_le
    change table.count - 1 ≤ MAX_DIRTY_RECTS
    omega
  · change k < table.count - 1 at hk
    rw [absorb_rects hi hne]
    split_ifs
    · exact (hsound.onScreen i (by omega)).union (hsound.onScreen j hj)
    · exact hsound.onScreen _ (by omega)
    · exact hsound.onScreen k (by omega)

/-- A safe absorption keeps the invariant and what the table covers. -/
theorem absorbLoop_covers (hleft : j + left = table.count) (hsafe : AbsorbsSafely i left table j)
    (hsound : table.Sound screen) :
    (absorbLoop i left table j).Sound screen ∧
      ∀ x y, table.Covers x y → (absorbLoop i left table j).Covers x y := by
  induction left generalizing table j with
  | zero => exact ⟨hsound, fun _ _ hcovers ↦ hcovers⟩
  | succ left ih =>
    unfold AbsorbsSafely at hsafe
    unfold absorbLoop
    by_cases hoverlap : j ≠ i ∧ rectsOverlapOrTouch (table.rects i) (table.rects j) = true
    · rw [if_pos hoverlap] at hsafe ⊢
      obtain ⟨hi, hrest⟩ := hsafe
      have hj : j < table.count := by omega
      obtain ⟨hafter, hkept⟩ := ih (show j + left = table.count - 1 by omega) hrest
        (absorb_sound hi hj hoverlap.1 hsound)
      exact ⟨hafter, fun x y hcovers ↦ hkept x y (absorb_covers hi hj hoverlap.1 hcovers)⟩
    · rw [if_neg hoverlap] at hsafe ⊢
      exact ih (by omega) hsafe hsound

theorem overlap_absorb (hne : j ≠ i) (hoverlap : rectsOverlapOrTouch nr c = true →
    rectsOverlapOrTouch (table.rects i) c = true) (hnr : rectsOverlapOrTouch nr c = true) :
    rectsOverlapOrTouch ((table.absorb i j).rects i) c = true := by
  unfold DirtyTable.absorb
  dsimp only
  rw [Function.update_of_ne hne.symm, Function.update_self]
  exact overlap_union_left (hoverlap hnr)

/-- Where the absorbing entry falls behind the entries in use, all that are left are apart from
it. -/
theorem absorbLoop_loses (hleft : j + left = table.count)
    (hrisky : table.count ≤ i ∨ ¬AbsorbsSafely i left table j)
    (hcontains : ∀ c, rectsOverlapOrTouch nr c = true →
      rectsOverlapOrTouch (table.rects i) c = true)
    (hpassed : ∀ k < j, k ≠ i → rectsOverlapOrTouch nr (table.rects k) = false) :
    ∀ k < (absorbLoop i left table j).count,
      rectsOverlapOrTouch nr ((absorbLoop i left table j).rects k) = false := by
  induction left generalizing table j with
  | zero =>
    intro k hk
    change k < table.count at hk
    have hbehind : table.count ≤ i := hrisky.elim id fun hsafe ↦ absurd trivial hsafe
    exact hpassed k (by omega) (by omega)
  | succ left ih =>
    unfold AbsorbsSafely at hrisky
    unfold absorbLoop
    by_cases hoverlap : j ≠ i ∧ rectsOverlapOrTouch (table.rects i) (table.rects j) = true
    · rw [if_pos hoverlap] at hrisky ⊢
      refine ih (show j + left = table.count - 1 by omega) ?_
        (fun c hnr ↦ overlap_absorb hoverlap.1 (hcontains c) hnr) fun k hk hne ↦ ?_
      · change table.count - 1 ≤ i ∨ _
        rcases hrisky with hbehind | hrisky
        · exact Or.inl (by omega)
        · by_cases hlast : i + 1 < table.count
          · exact Or.inr fun hrest ↦ hrisky ⟨hlast, hrest⟩
          · exact Or.inl (by omega)
      · unfold DirtyTable.absorb
        dsimp only
        rw [Function.update_of_ne (by omega), Function.update_of_ne hne]
        exact hpassed k hk hne
    · rw [if_neg hoverlap] at hrisky ⊢
      refine ih (by omega) hrisky hcontains fun k hk hne ↦ ?_
      rcases Nat.lt_succ_iff_lt_or_eq.mp hk with hless | rfl
      · exact hpassed k hless hne
      · by_contra hnr
        exact hoverlap ⟨hne, hcontains _ (Bool.eq_true_of_not_eq_false hnr)⟩

/-! ### Clipping -/

theorem clipAxis_spec {position size limit : ℤ} (hposition : IsInt32 position)
    (hsize : IsInt32 size)
    (hsum : IsInt32 (position + size)) (hlimit : IsInt32 limit) (hnonneg : 0 ≤ limit)
    (hpositive : 0 < size) :
    (clipAxis position size limit).1 = max 0 position ∧
      (clipAxis position size limit).1 + (clipAxis position size limit).2 =
        min limit (position + size) := by
  unfold IsInt32 at *
  unfold clipAxis
  dsimp only
  by_cases hnegative : position < 0
  · have hshort : i32 (size + position) = size + position := i32_of_isInt32 ⟨by omega, by omega⟩
    have hsame : i32 (0 + (size + position)) = size + position := by rw [Int.zero_add, hshort]
    have hwhole : i32 (limit - 0) = limit := by rw [Int.sub_zero, i32_of_isInt32 hlimit]
    rw [if_pos hnegative, if_pos hnegative, hshort, hsame, hwhole]
    split_ifs <;> omega
  · have hrest : i32 (limit - position) = limit - position := i32_of_isInt32 ⟨by omega, by omega⟩
    rw [if_neg hnegative, if_neg hnegative, i32_of_isInt32 hsum, hrest]
    split_ifs <;> omega

/-- What is clipped is on the screen and has the marked pixels of the screen. -/
theorem clipToScreen_eq_some (hclip : clipToScreen screen mark = some nr) :
    nr.OnScreen screen ∧ ∀ x y, nr.Holds x y ↔ mark.Shows screen x y := by
  unfold clipToScreen at hclip
  by_cases hempty : mark.w ≤ 0 ∨ mark.h ≤ 0
  · rw [if_pos hempty] at hclip
    cases hclip
  · rw [if_neg hempty] at hclip
    obtain ⟨hw, hh⟩ := not_or.mp hempty
    obtain ⟨hx, hright⟩ := clipAxis_spec mark.isInt32_x mark.isInt32_w mark.isInt32_right
      screen.isInt32_width screen.width_nonneg (by omega)
    obtain ⟨hy, hbottom⟩ := clipAxis_spec mark.isInt32_y mark.isInt32_h mark.isInt32_bottom
      screen.isInt32_height screen.height_nonneg (by omega)
    dsimp only at hclip
    generalize clipAxis mark.x mark.w screen.width = across at hclip hx hright
    generalize clipAxis mark.y mark.h screen.height = down at hclip hy hbottom
    by_cases hnone : across.2 ≤ 0 ∨ down.2 ≤ 0
    · rw [if_pos hnone] at hclip
      cases hclip
    · rw [if_neg hnone] at hclip
      obtain rfl := Option.some.inj hclip
      refine ⟨⟨?_, ?_, ?_, ?_, ?_, ?_⟩, fun x y ↦ ?_⟩
      iterate 6 dsimp only; omega
      unfold DirtyRect.Holds Mark.Shows Screen.holds
      dsimp only
      rw [decide_eq_true_iff]
      omega

/-- Nothing is clipped where nothing marked is on the screen. -/
theorem clipToScreen_eq_none (hclip : clipToScreen screen mark = none) :
    ¬mark.Shows screen x y := by
  unfold clipToScreen at hclip
  unfold Mark.Shows Screen.holds
  rw [decide_eq_true_iff]
  by_cases hempty : mark.w ≤ 0 ∨ mark.h ≤ 0
  · omega
  · rw [if_neg hempty] at hclip
    obtain ⟨hw, hh⟩ := not_or.mp hempty
    obtain ⟨hx, hright⟩ := clipAxis_spec mark.isInt32_x mark.isInt32_w mark.isInt32_right
      screen.isInt32_width screen.width_nonneg (by omega)
    obtain ⟨hy, hbottom⟩ := clipAxis_spec mark.isInt32_y mark.isInt32_h mark.isInt32_bottom
      screen.isInt32_height screen.height_nonneg (by omega)
    dsimp only at hclip
    generalize clipAxis mark.x mark.w screen.width = across at hclip hx hright
    generalize clipAxis mark.y mark.h screen.height = down at hclip hy hbottom
    by_cases hnone : across.2 ≤ 0 ∨ down.2 ≤ 0
    · omega
    · rw [if_neg hnone] at hclip
      cases hclip

/-! ### One call -/

theorem firstOverlap_eq_some (hfirst : firstOverlap table nr = some i) :
    i < table.count ∧ rectsOverlapOrTouch (table.rects i) nr = true := by
  unfold firstOverlap at hfirst
  refine ⟨List.mem_range.mp (List.mem_of_find?_eq_some hfirst), ?_⟩
  have hfound := List.find?_some hfirst
  exact hfound

/-- The rectangle around some entries. -/
theorem foldl_union (indices : List ℕ) (rects : ℕ → DirtyRect) (box : DirtyRect) :
    (∀ x y, box.Holds x y ∨ (∃ i ∈ indices, (rects i).Holds x y) →
      (indices.foldl (fun box i ↦ rectUnion box (rects i)) box).Holds x y) ∧
    (box.OnScreen screen → (∀ i ∈ indices, (rects i).OnScreen screen) →
      (indices.foldl (fun box i ↦ rectUnion box (rects i)) box).OnScreen screen) := by
  induction indices generalizing box with
  | nil =>
    refine ⟨fun x y hholds ↦ hholds.elim id ?_, fun hbox _ ↦ hbox⟩
    rintro ⟨i, hi, -⟩
    cases hi
  | cons index indices ih =>
    obtain ⟨hholds, hscreen⟩ := ih (rectUnion box (rects index))
    rw [List.foldl_cons]
    refine ⟨fun x y hpart ↦ hholds x y ?_, fun hbox hall ↦ ?_⟩
    · rcases hpart with hbox | ⟨i, hi, hentry⟩
      · exact Or.inl (holds_union_left hbox)
      · rcases List.mem_cons.mp hi with rfl | hi
        · exact Or.inl (holds_union_right hentry)
        · exact Or.inr ⟨i, hi, hentry⟩
    · obtain ⟨hindex, hrest⟩ := List.forall_mem_cons.mp hall
      exact hscreen (hbox.union hindex) hrest

/-- A rectangle joined to an entry that it overlaps. -/
theorem join_spec (hsound : table.Sound screen) (hnr : nr.OnScreen screen) (hi : i < table.count) :
    (table.join i nr).Sound screen ∧
      ∀ x y, table.Covers x y ∨ nr.Holds x y → (table.join i nr).Covers x y := by
  refine ⟨⟨hsound.count_le, fun k hk ↦ ?_⟩, fun x y hpart ↦ ?_⟩
  · unfold DirtyTable.join
    dsimp only
    rw [Function.update_apply]
    split_ifs
    · exact (hsound.onScreen i hi).union hnr
    · exact hsound.onScreen k hk
  · rcases hpart with ⟨k, hk, hholds⟩ | hholds
    · refine ⟨k, hk, ?_⟩
      unfold DirtyTable.join
      dsimp only
      rw [Function.update_apply]
      split_ifs with hsame
      · exact holds_union_left (hsame ▸ hholds)
      · exact hholds
    · refine ⟨i, hi, ?_⟩
      unfold DirtyTable.join
      dsimp only
      rw [Function.update_self]
      exact holds_union_right hholds

/-- A rectangle that overlaps no entry is stored, alone or with all entries in one. -/
theorem store_spec (hsound : table.Sound screen) (hnr : nr.OnScreen screen) {next : DirtyTable}
    (hnext : next = if table.count < MAX_DIRTY_RECTS then
        { rects := Function.update table.rects table.count nr, count := table.count + 1 }
      else { rects := Function.update table.rects 0 (bounding table nr), count := 1 }) :
    next.Sound screen ∧ ∀ x y, table.Covers x y ∨ nr.Holds x y → next.Covers x y := by
  by_cases hroom : table.count < MAX_DIRTY_RECTS
  · rw [if_pos hroom] at hnext
    subst hnext
    refine ⟨⟨hroom, fun k hk ↦ ?_⟩, fun x y hpart ↦ ?_⟩
    · dsimp only at hk ⊢
      rw [Function.update_apply]
      split_ifs
      · exact hnr
      · exact hsound.onScreen k (by omega)
    · rcases hpart with ⟨k, hk, hholds⟩ | hholds
      · refine ⟨k, Nat.lt_succ_of_lt hk, ?_⟩
        dsimp only
        rwa [Function.update_of_ne (Nat.ne_of_lt hk)]
      · refine ⟨table.count, Nat.lt_succ_self _, ?_⟩
        dsimp only
        rwa [Function.update_self]
  · rw [if_neg hroom] at hnext
    subst hnext
    obtain ⟨hholds, hscreen⟩ := @foldl_union screen (List.range table.count) table.rects nr
    refine ⟨⟨Nat.succ_le_succ (Nat.zero_le _), fun k hk ↦ ?_⟩, fun x y hpart ↦ ⟨0, Nat.one_pos, ?_⟩⟩
    · dsimp only at hk ⊢
      rw [Nat.lt_one_iff.mp hk, Function.update_self]
      exact hscreen hnr fun i hi ↦ hsound.onScreen i (List.mem_range.mp hi)
    · dsimp only
      rw [Function.update_self]
      refine hholds x y ?_
      rcases hpart with ⟨k, hk, hentry⟩ | hnr
      · exact Or.inr ⟨k, List.mem_range.mpr hk, hentry⟩
      · exact Or.inl hnr

/-- What one call does to the table: where it merges safely the invariant, what was covered and what
is marked are kept, otherwise nothing of what is marked is covered, and there is something. -/
theorem vgaMarkDirtyRect_spec (hsound : table.Sound screen) :
    (MergesSafely screen table mark → (vgaMarkDirtyRect screen table mark).Sound screen ∧
      ∀ x y, table.Covers x y ∨ mark.Shows screen x y →
        (vgaMarkDirtyRect screen table mark).Covers x y) ∧
    (¬MergesSafely screen table mark →
      ∃ x y, mark.Shows screen x y ∧ ¬(vgaMarkDirtyRect screen table mark).Covers x y) := by
  unfold vgaMarkDirtyRect MergesSafely
  cases hclip : clipToScreen screen mark with
  | none =>
    refine ⟨fun _ ↦ ⟨hsound, fun x y hpart ↦ hpart.resolve_right (clipToScreen_eq_none hclip)⟩, ?_⟩
    exact fun hrisky ↦ absurd (fun nr hnr ↦ nomatch hnr) hrisky
  | some nr =>
    obtain ⟨hnr, hshows⟩ := clipToScreen_eq_some hclip
    simp only [← hshows, Option.mem_some_iff, forall_eq']
    cases hfirst : firstOverlap table nr with
    | none =>
      refine ⟨fun _ ↦ store_spec hsound hnr rfl, ?_⟩
      exact fun hrisky ↦ absurd (fun i hi ↦ nomatch hi) hrisky
    | some i =>
      obtain ⟨hi, hoverlap⟩ := firstOverlap_eq_some hfirst
      obtain ⟨hjoined, hcovers⟩ := join_spec hsound hnr hi
      simp only [Option.mem_some_iff, forall_eq']
      constructor
      · intro hsafe
        obtain ⟨hafter, hkept⟩ := absorbLoop_covers (Nat.zero_add _) hsafe hjoined
        exact ⟨hafter, fun x y hpart ↦ hkept x y (hcovers x y hpart)⟩
      · intro hrisky
        have hcorner : nr.Holds nr.x nr.y := by
          have := hnr.wide
          have := hnr.high
          unfold DirtyRect.Holds
          omega
        refine ⟨nr.x, nr.y, hcorner, ?_⟩
        rintro ⟨k, hk, hholds⟩
        have hcontains : ∀ c, rectsOverlapOrTouch nr c = true →
            rectsOverlapOrTouch ((table.join i nr).rects i) c = true := by
          intro c hc
          unfold DirtyTable.join
          dsimp only
          rw [Function.update_self]
          exact overlap_union_right hc
        have hapart : rectsOverlapOrTouch nr
            ((absorbLoop i table.count (table.join i nr) 0).rects k) = false :=
          absorbLoop_loses (show 0 + table.count = (table.join i nr).count from Nat.zero_add _)
            (Or.inr hrisky) hcontains (fun k hk ↦ absurd hk (Nat.not_lt_zero k)) k hk
        rw [overlap_of_holds hcorner hholds] at hapart
        cases hapart

end EynOS.Display
