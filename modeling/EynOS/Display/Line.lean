import EynOS.Foundation.MachineWord
import Mathlib.Data.List.Nodup

/-!
# Drawing a line

`drawLine` of `vga.c`. Its two loops are one walk along the longer axis, whose other coordinate is
`minorAt`; `Spans` says of the pixels of a walk that they are the line between two points.
`spans_walk_iff` is the exact condition for one axis: the slope is computed before the end points
are exchanged, and only one coordinate of each is exchanged, so that a walk against the axis is
right only where the line is parallel to it.
-/

namespace EynOS.Display

open Foundation

/-- The size of the screen, as the `int`s that drawing compares with. -/
structure Screen where
  width : ℤ
  height : ℤ
  width_nonneg : 0 ≤ width
  height_nonneg : 0 ≤ height
  isInt32_width : IsInt32 width
  isInt32_height : IsInt32 height

/-- A point of the screen. -/
structure Screen.Point (screen : Screen) where
  x : ℤ
  y : ℤ
  hx : 0 ≤ x ∧ x < screen.width
  hy : 0 ≤ y ∧ y < screen.height

/-- A pixel that is drawn. -/
structure Pixel where
  x : ℤ
  y : ℤ
  r : ℤ
  g : ℤ
  b : ℤ

/-- What drawing fails with. -/
inductive DrawFault where
  | divisionByZero

def drawPixel (screen : Screen) (x y r g b : ℤ) : List Pixel :=
  if x < 0 ∨ y < 0 ∨ screen.width ≤ x ∨ screen.height ≤ y then [] else [⟨x, y, r, g, b⟩]

def absolute (distance : ℤ) : ℤ := if distance < 0 then i32 (-distance) else distance

/-- The other coordinate of a line, where the first coordinate is `position`. -/
def minorAt (start distance major first position : ℤ) : Except DrawFault ℤ :=
  let product := i32 (distance * i32 (position - first))
  if major = 0 then .error .divisionByZero else .ok (i32 (start + product.tdiv major))

/-- A loop from one coordinate to another; neither is the largest `int`, so that it ends. -/
def along (first last : ℤ) (draw : ℤ → Except DrawFault (List Pixel)) :
    Except DrawFault (List Pixel) := do
  let drawn ← (List.range (last + 1 - first).toNat).mapM fun turn : ℕ ↦ draw (first + turn)
  pure drawn.flatten

def drawLine (screen : Screen) (x1 y1 x2 y2 r g b : ℤ) : Except DrawFault (List Pixel) :=
  let dx := i32 (x2 - x1)
  let dy := i32 (y2 - y1)
  let dxabs := absolute dx
  let dyabs := absolute dy
  if dyabs ≤ dxabs then
    let first := if x2 < x1 then x2 else x1
    let last := if x2 < x1 then x1 else x2
    along first last fun px ↦ do
      let py ← minorAt y1 dy dxabs first px
      pure (drawPixel screen px py r g b)
  else
    let first := if y2 < y1 then y2 else y1
    let last := if y2 < y1 then y1 else y2
    along first last fun py ↦ do
      let px ← minorAt x1 dx dyabs first py
      pure (drawPixel screen px py r g b)

/-! ### The line between two points -/

/-- Points given by their coordinates on the longer axis and on the other one are a line: both end
points are there, every coordinate of the longer axis between them has exactly one point and there
are no others, and each point is at most one pixel away from the segment along the other axis. -/
structure Spans (a1 b1 a2 b2 : ℤ) (points : List (ℤ × ℤ)) : Prop where
  first : (a1, b1) ∈ points
  last : (a2, b2) ∈ points
  once : ∀ a, (points.map Prod.fst).count a =
    if min a1 a2 ≤ a ∧ a ≤ max a1 a2 then 1 else 0
  close : ∀ point ∈ points,
    |(point.2 - b1) * (a2 - a1) - (b2 - b1) * (point.1 - a1)| ≤ |a2 - a1|

/-- Drawing ends without a fault and with the pixels of the line, all of one colour. -/
def Drawn (x1 y1 x2 y2 r g b : ℤ) (result : Except DrawFault (List Pixel)) : Prop :=
  ∃ pixels, result = .ok pixels ∧ (∀ pixel ∈ pixels, pixel.r = r ∧ pixel.g = g ∧ pixel.b = b) ∧
    if |y2 - y1| ≤ |x2 - x1| then Spans x1 y1 x2 y2 (pixels.map fun pixel ↦ (pixel.x, pixel.y))
    else Spans y1 x1 y2 x2 (pixels.map fun pixel ↦ (pixel.y, pixel.x))

/-- When the walk from one point to another is a line: the longer axis is walked upwards, or the
other coordinate is the same, and no product of the slope is out of range. -/
def Straight (a1 b1 a2 b2 : ℤ) : Prop :=
  (a1 < a2 ∨ a1 ≠ a2 ∧ b1 = b2) ∧ IsInt32 ((b2 - b1) * |a2 - a1|)

/-! ### One walk -/

variable {a1 b1 a2 b2 distance major start : ℤ}

/-- A quotient is less than one away from the fraction. -/
theorem tdiv_close (product : ℤ) (hmajor : 0 < major) :
    |product.tdiv major * major - product| < major := by
  have hsum := Int.mul_tdiv_add_tmod product major
  have hless := Int.tmod_lt_of_pos product hmajor
  have hgreater := Int.lt_tmod_of_pos product hmajor
  rw [Int.mul_comm] at hsum
  rw [abs_lt]
  omega

/-- The product at a place of the walk lies between zero and the one at its end. -/
theorem product_between (distance : ℤ) {place : ℤ} (hplace : 0 ≤ place) (hmajor : place ≤ major) :
    min 0 (distance * major) ≤ distance * place ∧ distance * place ≤ max 0 (distance * major) := by
  rcases le_total 0 distance with hdistance | hdistance
  · have hless := Int.mul_le_mul_of_nonneg_left hmajor hdistance
    have hpositive := Int.mul_nonneg hdistance hplace
    omega
  · have hless := Int.mul_le_mul_of_nonpos_left hdistance hmajor
    have hnegative := Int.mul_nonpos_of_nonpos_of_nonneg hdistance hplace
    omega

/-- The quotient at a place of the walk lies between zero and the whole distance. -/
theorem quotient_between (distance : ℤ) {place : ℤ} (hpositive : 0 < major) (hplace : 0 ≤ place)
    (hmajor : place ≤ major) :
    min 0 distance ≤ (distance * place).tdiv major ∧
      (distance * place).tdiv major ≤ max 0 distance := by
  have hclose := abs_lt.mp (tdiv_close (distance * place) hpositive)
  have hbetween := product_between distance hplace hmajor
  generalize (distance * place).tdiv major = quotient at hclose ⊢
  rcases le_total 0 distance with hdistance | hdistance
  · have hproduct := Int.mul_nonneg hdistance (Int.le_of_lt hpositive)
    have hlow : -1 * major < quotient * major := by omega
    have hhigh : quotient * major < (distance + 1) * major := by
      rw [Int.add_mul]
      omega
    have := Int.lt_of_mul_lt_mul_right hlow (Int.le_of_lt hpositive)
    have := Int.lt_of_mul_lt_mul_right hhigh (Int.le_of_lt hpositive)
    omega
  · have hproduct := Int.mul_nonpos_of_nonpos_of_nonneg hdistance (Int.le_of_lt hpositive)
    have hlow : (distance - 1) * major < quotient * major := by
      rw [Int.sub_mul]
      omega
    have hhigh : quotient * major < 1 * major := by omega
    have := Int.lt_of_mul_lt_mul_right hlow (Int.le_of_lt hpositive)
    have := Int.lt_of_mul_lt_mul_right hhigh (Int.le_of_lt hpositive)
    omega

/-- The coordinates of a screen are `int`s whose differences are. -/
def IsCoordinate (value : ℤ) : Prop := 0 ≤ value ∧ value < 2147483647

/-- The other coordinate at a place of the walk. -/
def minorValue (start distance major place : ℤ) : ℤ :=
  i32 (start + (i32 (distance * place)).tdiv major)

def walk (a1 b1 a2 b2 : ℤ) : List (ℤ × ℤ) :=
  (List.range (|a2 - a1|.toNat + 1)).map fun place : ℕ ↦
    (min a1 a2 + place, minorValue b1 (b2 - b1) |a2 - a1| place)

theorem mem_walk {a b : ℤ} : (a, b) ∈ walk a1 b1 a2 b2 ↔ min a1 a2 ≤ a ∧ a ≤ max a1 a2 ∧
    minorValue b1 (b2 - b1) |a2 - a1| (a - min a1 a2) = b := by
  have habs : |a2 - a1| = max a1 a2 - min a1 a2 := by
    rw [abs_eq_max_neg]
    omega
  unfold walk
  rw [List.mem_map]
  constructor
  · rintro ⟨place, hplace, heq⟩
    have hless := List.mem_range.mp hplace
    obtain ⟨rfl, rfl⟩ := Prod.mk.inj heq
    refine ⟨by omega, by omega, ?_⟩
    rw [show min a1 a2 + (place : ℤ) - min a1 a2 = place by omega]
  · rintro ⟨hlow, hhigh, rfl⟩
    refine ⟨(a - min a1 a2).toNat, List.mem_range.mpr (by omega), ?_⟩
    rw [Int.toNat_of_nonneg (by omega), Prod.mk.injEq]
    exact ⟨by omega, rfl⟩

/-- Where no product wraps, the other coordinate is between those of the end points and close to the
segment. -/
theorem minorValue_spec (hb1 : IsCoordinate b1) (hb2 : IsCoordinate b2) (hmajor : 0 < major)
    (hproduct : IsInt32 ((b2 - b1) * major)) {place : ℤ} (hplace : 0 ≤ place)
    (hless : place ≤ major) :
    minorValue b1 (b2 - b1) major place = b1 + ((b2 - b1) * place).tdiv major ∧
      min b1 b2 ≤ minorValue b1 (b2 - b1) major place ∧
      minorValue b1 (b2 - b1) major place ≤ max b1 b2 := by
  have hbetween := product_between (b2 - b1) hplace hless
  have hquotient := quotient_between (b2 - b1) hmajor hplace hless
  unfold IsCoordinate at hb1 hb2
  unfold IsInt32 at hproduct
  have hvalue : minorValue b1 (b2 - b1) major place = b1 + ((b2 - b1) * place).tdiv major := by
    unfold minorValue
    have hfits : IsInt32 ((b2 - b1) * place) := ⟨by omega, by omega⟩
    rw [i32_of_isInt32 hfits, i32_of_isInt32 ⟨by omega, by omega⟩]
  rw [hvalue]
  exact ⟨rfl, by omega, by omega⟩

/-- At the end of the walk, a product that wraps leads to another place. -/
theorem isInt32_of_minorValue (hb1 : IsCoordinate b1) (hb2 : IsCoordinate b2) (hmajor : 0 < major)
    (hless : major < 2147483648) (hend : minorValue b1 (b2 - b1) major major = b2) :
    IsInt32 ((b2 - b1) * major) := by
  have hwrapped := isInt32_i32 ((b2 - b1) * major)
  have hclass := i32_modEq ((b2 - b1) * major)
  unfold minorValue at hend
  generalize i32 ((b2 - b1) * major) = product at hend hwrapped hclass
  have hclose := abs_lt.mp (tdiv_close product hmajor)
  have hbound : (product.tdiv major).natAbs ≤ product.natAbs := Int.natAbs_tdiv_le_natAbs _ _
  have hsum := i32_modEq (b1 + product.tdiv major)
  unfold IsCoordinate at hb1 hb2
  unfold IsInt32 at hwrapped
  unfold Int.ModEq at hclass hsum
  rw [hend] at hsum
  have hquotient : product.tdiv major = b2 - b1 := by omega
  rw [hquotient] at hclose
  have hsame : product = (b2 - b1) * major := by omega
  rw [← hsame]
  exact hwrapped

/-- Each coordinate between two has exactly one point. -/
theorem count_walk (a1 b1 a2 b2 a : ℤ) : ((walk a1 b1 a2 b2).map Prod.fst).count a =
    if min a1 a2 ≤ a ∧ a ≤ max a1 a2 then 1 else 0 := by
  have hnodup : ((walk a1 b1 a2 b2).map Prod.fst).Nodup := by
    unfold walk
    rw [List.map_map]
    refine List.Nodup.map (fun one other heq ↦ ?_) List.nodup_range
    simp only [Function.comp_apply] at heq
    omega
  rw [hnodup.count]
  refine if_congr ?_ rfl rfl
  rw [List.mem_map]
  constructor
  · rintro ⟨⟨_, b⟩, hpoint, rfl⟩
    obtain ⟨hlow, hhigh, -⟩ := mem_walk.mp hpoint
    exact ⟨hlow, hhigh⟩
  · rintro ⟨hlow, hhigh⟩
    exact ⟨(a, _), mem_walk.mpr ⟨hlow, hhigh, rfl⟩, rfl⟩

/-- The part of a walk that is on the screen is the line exactly where the walk is straight. -/
theorem spans_walk_iff (inside : ℤ × ℤ → Bool) (ha1 : IsCoordinate a1) (ha2 : IsCoordinate a2)
    (hb1 : IsCoordinate b1) (hb2 : IsCoordinate b2) (hne : a1 ≠ a2)
    (hinside : ∀ a b, min a1 a2 ≤ a ∧ a ≤ max a1 a2 → min b1 b2 ≤ b ∧ b ≤ max b1 b2 →
      inside (a, b)) :
    Spans a1 b1 a2 b2 ((walk a1 b1 a2 b2).filter inside) ↔ Straight a1 b1 a2 b2 := by
  have habs : |a2 - a1| = max a1 a2 - min a1 a2 := by
    rw [abs_eq_max_neg]
    omega
  unfold IsCoordinate at ha1 ha2
  constructor
  · intro hspans
    obtain ⟨-, -, hfirst⟩ := mem_walk.mp (List.mem_filter.mp hspans.first).1
    obtain ⟨-, -, hlast⟩ := mem_walk.mp (List.mem_filter.mp hspans.last).1
    rcases lt_or_gt_of_ne hne with hless | hgreater
    · rw [show a2 - min a1 a2 = |a2 - a1| by omega] at hlast
      exact ⟨Or.inl hless, isInt32_of_minorValue hb1 hb2 (by omega) (by omega) hlast⟩
    · -- the walk starts at the second point with the other coordinate of the first one
      have hstart : minorValue b1 (b2 - b1) |a2 - a1| 0 = b1 := by
        unfold minorValue
        have hzero : i32 0 = 0 := i32_of_isInt32 (by decide)
        rw [Int.mul_zero, hzero, Int.zero_tdiv, Int.add_zero]
        unfold IsCoordinate at hb1
        exact i32_of_isInt32 ⟨by omega, by omega⟩
      rw [show a2 - min a1 a2 = 0 by omega, hstart] at hlast
      refine ⟨Or.inr ⟨hne, hlast⟩, ?_⟩
      rw [hlast, Int.sub_self, Int.zero_mul]
      decide
  · rintro ⟨hdirection, hproduct⟩
    have hspec {a : ℤ} (hlow : min a1 a2 ≤ a) (hhigh : a ≤ max a1 a2) :=
      @minorValue_spec b1 b2 |a2 - a1| hb1 hb2 (by omega) hproduct (a - min a1 a2) (by omega)
        (by omega)
    have hall : (walk a1 b1 a2 b2).filter inside = walk a1 b1 a2 b2 := by
      refine List.filter_eq_self.mpr fun point hpoint ↦ ?_
      obtain ⟨hlow, hhigh, heq⟩ := mem_walk.mp hpoint
      exact hinside _ _ ⟨hlow, hhigh⟩ (heq ▸ (hspec hlow hhigh).2)
    rw [hall]
    have hdistance : (b2 - b1) * |a2 - a1| = (b2 - b1) * (a2 - a1) := by
      rcases hdirection with hless | ⟨-, hsame⟩
      · rw [show |a2 - a1| = a2 - a1 by omega]
      · rw [hsame, Int.sub_self, Int.zero_mul, Int.zero_mul]
    refine ⟨mem_walk.mpr ⟨by omega, by omega, ?_⟩, mem_walk.mpr ⟨by omega, by omega, ?_⟩,
      count_walk a1 b1 a2 b2, fun point hpoint ↦ ?_⟩
    · rw [(hspec (by omega) (by omega)).1]
      rcases hdirection with hless | ⟨-, hsame⟩
      · rw [show a1 - min a1 a2 = 0 by omega, Int.mul_zero, Int.zero_tdiv, Int.add_zero]
      · rw [hsame, Int.sub_self, Int.zero_mul, Int.zero_tdiv, Int.add_zero]
    · rw [(hspec (by omega) (by omega)).1]
      rcases hdirection with hless | ⟨-, hsame⟩
      · rw [show a2 - min a1 a2 = |a2 - a1| by omega, Int.mul_tdiv_cancel _ (by omega)]
        omega
      · rw [hsame, Int.sub_self, Int.zero_mul, Int.zero_tdiv, Int.add_zero]
    · obtain ⟨hlow, hhigh, heq⟩ := mem_walk.mp hpoint
      rw [← heq, (hspec hlow hhigh).1]
      have hclose := tdiv_close ((b2 - b1) * (point.1 - min a1 a2))
        (show 0 < |a2 - a1| by omega)
      rcases hdirection with hless | ⟨-, hsame⟩
      · rw [show |a2 - a1| = a2 - a1 by omega, show min a1 a2 = a1 by omega] at hclose ⊢
        rw [show ∀ quotient : ℤ, b1 + quotient - b1 = quotient from fun quotient ↦ by omega]
        exact Int.le_of_lt hclose
      · rw [hsame, Int.sub_self, Int.zero_mul, Int.zero_mul, Int.zero_tdiv, Int.add_zero,
          Int.sub_self, Int.zero_mul, Int.sub_zero, abs_zero]
        exact abs_nonneg _

/-! ### The two loops -/

variable {screen : Screen} {x y r g b : ℤ}

def Screen.holds (screen : Screen) (x y : ℤ) : Bool :=
  ¬(x < 0 ∨ y < 0 ∨ screen.width ≤ x ∨ screen.height ≤ y)

theorem Screen.Point.isCoordinate_x (point : screen.Point) : IsCoordinate point.x := by
  have hwidth := screen.isInt32_width.2
  have hx := point.hx
  exact ⟨hx.1, by omega⟩

theorem Screen.Point.isCoordinate_y (point : screen.Point) : IsCoordinate point.y := by
  have hheight := screen.isInt32_height.2
  have hy := point.hy
  exact ⟨hy.1, by omega⟩

/-- Between two points of the screen there are points of the screen only. -/
theorem holds_between (one other : screen.Point)
    (hx : min one.x other.x ≤ x ∧ x ≤ max one.x other.x)
    (hy : min one.y other.y ≤ y ∧ y ≤ max one.y other.y) : screen.holds x y := by
  have := one.hx
  have := one.hy
  have := other.hx
  have := other.hy
  refine decide_eq_true ?_
  omega

theorem i32_sub {first last : ℤ} (hfirst : IsCoordinate first) (hlast : IsCoordinate last) :
    i32 (last - first) = last - first := by
  unfold IsCoordinate at hfirst hlast
  exact i32_of_isInt32 ⟨by omega, by omega⟩

theorem absolute_sub {first last : ℤ} (hfirst : IsCoordinate first) (hlast : IsCoordinate last) :
    absolute (last - first) = |last - first| := by
  unfold absolute
  rw [abs_eq_max_neg]
  split_ifs
  · rw [show -(last - first) = first - last by omega, i32_sub hlast hfirst]
    omega
  · omega

/-- A loop whose turns do not fail. -/
theorem along_eq {first last : ℤ} {draw : ℤ → Except DrawFault (List Pixel)}
    {drawn : ℕ → List Pixel}
    (hdraw : ∀ turn : ℕ, first + turn ≤ last → draw (first + turn) = .ok (drawn turn)) :
    along first last draw = .ok ((List.range (last + 1 - first).toNat).flatMap drawn) := by
  have hall : ∀ turns : List ℕ, (∀ turn ∈ turns, first + turn ≤ last) →
      turns.mapM (fun turn : ℕ ↦ draw (first + turn)) = .ok (turns.map drawn) := by
    intro turns hturns
    induction turns with
    | nil => rfl
    | cons turn turns ih =>
      obtain ⟨hturn, hrest⟩ := List.forall_mem_cons.mp hturns
      rw [List.mapM_cons, hdraw turn hturn, ih hrest]
      rfl
  unfold along
  rw [hall _ fun turn hturn ↦ by
    have := List.mem_range.mp hturn
    omega, List.flatMap_def]
  rfl

/-- Where the pixels are that are drawn at given places, in coordinates of any kind. -/
theorem map_flatMap_drawPixel {coordinates : ℤ → ℤ → ℤ × ℤ} {inside : ℤ × ℤ → Bool}
    (hinside : ∀ x y, inside (coordinates x y) = screen.holds x y) (xs ys : ℕ → ℤ)
    (turns : List ℕ) :
    (turns.flatMap fun turn ↦ drawPixel screen (xs turn) (ys turn) r g b).map
        (fun pixel ↦ coordinates pixel.x pixel.y) =
      (turns.map fun turn ↦ coordinates (xs turn) (ys turn)).filter inside := by
  induction turns with
  | nil => rfl
  | cons turn turns ih =>
    rw [List.flatMap_cons, List.map_append, ih, List.map_cons, List.filter_cons, hinside]
    by_cases houtside : xs turn < 0 ∨ ys turn < 0 ∨ screen.width ≤ xs turn ∨
      screen.height ≤ ys turn
    · rw [drawPixel, if_pos houtside, Screen.holds, decide_eq_false (not_not_intro houtside)]
      rfl
    · rw [drawPixel, if_neg houtside, Screen.holds, decide_eq_true houtside]
      rfl

theorem coloured (xs ys : ℕ → ℤ) (turns : List ℕ) :
    ∀ pixel ∈ turns.flatMap fun turn ↦ drawPixel screen (xs turn) (ys turn) r g b,
      pixel.r = r ∧ pixel.g = g ∧ pixel.b = b := by
  intro pixel hpixel
  obtain ⟨turn, -, hdrawn⟩ := List.mem_flatMap.mp hpixel
  unfold drawPixel at hdrawn
  split_ifs at hdrawn
  · cases hdrawn
  · rw [List.mem_singleton.mp hdrawn]
    exact ⟨rfl, rfl, rfl⟩

/-- The other coordinate in a turn of a loop over the places between two points. -/
theorem minorAt_eq {first last : ℤ} (hfirst : IsCoordinate first) (hlast : IsCoordinate last)
    (hmajor : major ≠ 0) {turn : ℕ} (hturn : first + turn ≤ last) :
    minorAt start distance major first (first + turn) =
      .ok (minorValue start distance major turn) := by
  unfold IsCoordinate at hfirst hlast
  have hfits : IsInt32 (turn : ℤ) := ⟨by omega, by omega⟩
  unfold minorAt minorValue
  rw [if_neg hmajor, show first + (turn : ℤ) - first = turn by omega, i32_of_isInt32 hfits]

theorem turns_eq {first last : ℤ} :
    ((if last < first then first else last) + 1 - if last < first then last else first).toNat =
      |last - first|.toNat + 1 := by
  rw [abs_eq_max_neg]
  split_ifs <;> omega

/-- One of the two loops, for the axis that it goes along. -/
theorem loop_iff {plot : ℤ → ℤ → List Pixel} {axes : Pixel → ℤ × ℤ} {inside : ℤ × ℤ → Bool}
    (hplot : ∀ (majors minors : ℕ → ℤ) (turns : List ℕ),
      (turns.flatMap fun turn ↦ plot (majors turn) (minors turn)).map axes =
        (turns.map fun turn ↦ (majors turn, minors turn)).filter inside)
    (hcolour : ∀ (majors minors : ℕ → ℤ) (turns : List ℕ),
      ∀ pixel ∈ turns.flatMap fun turn ↦ plot (majors turn) (minors turn),
        pixel.r = r ∧ pixel.g = g ∧ pixel.b = b)
    (hinside : ∀ a b, min a1 a2 ≤ a ∧ a ≤ max a1 a2 → min b1 b2 ≤ b ∧ b ≤ max b1 b2 →
      inside (a, b))
    (ha1 : IsCoordinate a1) (ha2 : IsCoordinate a2) (hb1 : IsCoordinate b1)
      (hb2 : IsCoordinate b2) :
    (∃ pixels, along (if a2 < a1 then a2 else a1) (if a2 < a1 then a1 else a2) (fun position ↦ do
        let minor ← minorAt b1 (b2 - b1) |a2 - a1| (if a2 < a1 then a2 else a1) position
        pure (plot position minor)) = .ok pixels ∧
      (∀ pixel ∈ pixels, pixel.r = r ∧ pixel.g = g ∧ pixel.b = b) ∧
      Spans a1 b1 a2 b2 (pixels.map axes)) ↔ Straight a1 b1 a2 b2 := by
  by_cases hsame : a1 = a2
  · -- the loop has one turn, which divides by zero
    subst hsame
    refine iff_of_false ?_ ?_
    · rintro ⟨pixels, hpixels, -⟩
      unfold along at hpixels
      rw [if_neg (Int.lt_irrefl a1), show (a1 + 1 - a1).toNat = 1 by omega] at hpixels
      unfold minorAt at hpixels
      rw [Int.sub_self, abs_zero] at hpixels
      exact absurd hpixels (by simp [List.range_succ, Bind.bind, Except.bind])
    · rintro ⟨hless | ⟨hne, -⟩, -⟩
      · exact Int.lt_irrefl a1 hless
      · exact hne rfl
  · have hfirst : IsCoordinate (if a2 < a1 then a2 else a1) := by split_ifs <;> assumption
    have hlast : IsCoordinate (if a2 < a1 then a1 else a2) := by split_ifs <;> assumption
    have hpositive : |a2 - a1| ≠ 0 := abs_ne_zero.mpr (by omega)
    have hturns : ∀ turn : ℕ,
        (if a2 < a1 then a2 else a1) + (turn : ℤ) ≤ (if a2 < a1 then a1 else a2) →
        (do
          let minor ← minorAt b1 (b2 - b1) |a2 - a1| (if a2 < a1 then a2 else a1)
            ((if a2 < a1 then a2 else a1) + turn)
          pure (plot ((if a2 < a1 then a2 else a1) + turn) minor)) =
        Except.ok (plot ((if a2 < a1 then a2 else a1) + turn)
          (minorValue b1 (b2 - b1) |a2 - a1| turn)) := by
      intro turn hturn
      rw [minorAt_eq hfirst hlast hpositive hturn]
      rfl
    rw [along_eq hturns, turns_eq]
    rw [← spans_walk_iff inside ha1 ha2 hb1 hb2 hsame hinside]
    have hwalk : walk a1 b1 a2 b2 = (List.range (|a2 - a1|.toNat + 1)).map fun turn : ℕ ↦
        ((if a2 < a1 then a2 else a1) + (turn : ℤ), minorValue b1 (b2 - b1) |a2 - a1| turn) := by
      unfold walk
      rw [show min a1 a2 = if a2 < a1 then a2 else a1 by split_ifs <;> omega]
    rw [hwalk, ← hplot]
    constructor
    · rintro ⟨pixels, hpixels, -, hspans⟩
      obtain rfl := Except.ok.inj hpixels
      exact hspans
    · exact fun hspans ↦ ⟨_, rfl, hcolour _ _ _, hspans⟩

/-! ### The line -/

/-- A line between two points of the screen is drawn as it should be exactly where its walk is
straight. -/
theorem drawLine_iff (screen : Screen) (one other : screen.Point) (r g b : ℤ) :
    Drawn one.x one.y other.x other.y r g b
        (drawLine screen one.x one.y other.x other.y r g b) ↔
      if |other.y - one.y| ≤ |other.x - one.x| then Straight one.x one.y other.x other.y
      else Straight one.y one.x other.y other.x := by
  have hx1 := one.isCoordinate_x
  have hx2 := other.isCoordinate_x
  have hy1 := one.isCoordinate_y
  have hy2 := other.isCoordinate_y
  unfold Drawn drawLine
  dsimp only
  rw [i32_sub hx1 hx2, i32_sub hy1 hy2, absolute_sub hx1 hx2, absolute_sub hy1 hy2]
  by_cases hlonger : |other.y - one.y| ≤ |other.x - one.x|
  · rw [if_pos hlonger, if_pos hlonger]
    simp only [if_pos hlonger]
    have hplot : ∀ (xs ys : ℕ → ℤ) (turns : List ℕ),
        (turns.flatMap fun turn ↦ drawPixel screen (xs turn) (ys turn) r g b).map
            (fun pixel ↦ (pixel.x, pixel.y)) =
          (turns.map fun turn ↦ (xs turn, ys turn)).filter fun point ↦
            screen.holds point.1 point.2 :=
      fun xs ys turns ↦ map_flatMap_drawPixel (fun _ _ ↦ rfl) xs ys turns
    exact loop_iff hplot coloured (fun _ _ hx hy ↦ holds_between one other hx hy) hx1 hx2 hy1 hy2
  · rw [if_neg hlonger, if_neg hlonger]
    simp only [if_neg hlonger]
    have hplot : ∀ (ys xs : ℕ → ℤ) (turns : List ℕ),
        (turns.flatMap fun turn ↦ drawPixel screen (xs turn) (ys turn) r g b).map
            (fun pixel ↦ (pixel.y, pixel.x)) =
          (turns.map fun turn ↦ (ys turn, xs turn)).filter fun point ↦
            screen.holds point.2 point.1 :=
      fun ys xs turns ↦ @map_flatMap_drawPixel _ _ _ _ (fun x y ↦ (y, x)) _ (fun _ _ ↦ rfl) xs ys
        turns
    exact loop_iff hplot (fun ys xs turns ↦ coloured xs ys turns)
      (fun _ _ hy hx ↦ holds_between one other hx hy) hy1 hy2 hx1 hx2

/-- A line from a point to itself divides by zero. -/
theorem drawLine_point_fails :
    let screen : Screen := ⟨640, 480, by decide, by decide, by decide, by decide⟩
    let point : screen.Point := ⟨5, 5, by decide, by decide⟩
    drawLine screen point.x point.y point.x point.y 255 255 255 = .error .divisionByZero ∧
      ¬Drawn point.x point.y point.x point.y 255 255 255
        (drawLine screen point.x point.y point.x point.y 255 255 255) := by
  refine ⟨rfl, ?_⟩
  rintro ⟨pixels, hpixels, -⟩
  cases hpixels

end EynOS.Display
