import EynOS.Display.DirtyRects

/-!
# Bringing a frame to the screen

`vga_swap_buffers` of `vga.c`: the dirty rectangles are copied from the backbuffer to the
framebuffer, bottom-up and around the rectangle that is excluded. `SamePixel` says that a pixel has
the same colour in both; `copySpan_same` is the step, and `vgaSwapBuffers_same` the whole copy.

`vgaMarkDirtyRect_tracked_iff` puts it together with the table: what is marked in a frame reaches
the screen, at every point of the frame, exactly as long as every call merges safely.
-/

namespace EynOS.Display

open Foundation

/-! ### The copy -/

/-- A framebuffer: the bytes of a row and those of a pixel. -/
structure Framebuffer where
  screen : Screen
  pitch : ℕ
  bpp : ℕ
  width_le_pitch : screen.width.toNat * bpp ≤ pitch

/-- What the copy reads and writes: the bytes of both buffers, the table, the strategy and the
rectangle that is excluded. -/
structure Buffers where
  fb : ℕ → UInt8
  bb : ℕ → UInt8
  table : DirtyTable
  strategy : ℤ
  exclude : DirtyRect

/-- The colour of one pixel is copied, with full opacity where there is a fourth byte. -/
def copyPixel (bpp : ℕ) (bb : ℕ → UInt8) (dst src : ℕ) (fb : ℕ → UInt8) : ℕ → UInt8 :=
  let fb := Function.update fb dst (bb src)
  let fb := Function.update fb (dst + 1) (bb (src + 1))
  let fb := Function.update fb (dst + 2) (bb (src + 2))
  if 4 ≤ bpp then Function.update fb (dst + 3) 0xFF else fb

/-- A span of a row is copied, at once where both buffers have the same layout. -/
def copySpan (buffer : Framebuffer) (bb : ℕ → UInt8) (absY startX span : ℤ) (fb : ℕ → UInt8) :
    ℕ → UInt8 :=
  let src := (absY.toNat * buffer.screen.width.toNat + startX.toNat) * 4
  let dst := absY.toNat * buffer.pitch + startX.toNat * buffer.bpp
  if buffer.bpp = 4 ∧ buffer.pitch = buffer.screen.width.toNat * 4 then
    fun place ↦ if dst ≤ place ∧ place < dst + span.toNat * 4 then bb (src + (place - dst))
      else fb place
  else
    (List.range span.toNat).foldl
      (fun fb c ↦ copyPixel buffer.bpp bb (dst + c * buffer.bpp) (src + c * 4) fb) fb

/-- A row of a rectangle is copied, without the part that is excluded. -/
def copyRow (buffer : Framebuffer) (exclude : DirtyRect) (bb : ℕ → UInt8) (x0 x1 absY : ℤ)
    (fb : ℕ → UInt8) : ℕ → UInt8 :=
  if 0 < exclude.w ∧ 0 < exclude.h ∧ exclude.y ≤ absY ∧ absY < i32 (exclude.y + exclude.h) then
    let ex0 := exclude.x
    let ex1 := i32 (exclude.x + exclude.w)
    let seg0 := min (if x0 < ex0 then ex0 else x0) x1
    let fb := copySpan buffer bb absY x0 (seg0 - x0) fb
    let seg1 := max (if ex1 < x1 then ex1 else x1) x0
    copySpan buffer bb absY seg1 (x1 - seg1) fb
  else copySpan buffer bb absY x0 (x1 - x0) fb

/-- A rectangle is copied from its last row upwards. -/
def copyRect (buffer : Framebuffer) (exclude : DirtyRect) (bb : ℕ → UInt8) (rect : DirtyRect)
    (fb : ℕ → UInt8) : ℕ → UInt8 :=
  let x0 := max 0 rect.x
  let y0 := max 0 rect.y
  let x1 := min buffer.screen.width (rect.x + rect.w)
  let y1 := min buffer.screen.height (rect.y + rect.h)
  if x1 ≤ x0 ∨ y1 ≤ y0 then fb
  else
    (List.range (y1 - y0).toNat).foldl
      (fun fb (turn : ℕ) ↦ copyRow buffer exclude bb x0 x1 (y1 - 1 - turn) fb) fb

/-- All entries put together in the first one. -/
def DirtyTable.collapse (table : DirtyTable) : DirtyTable :=
  let box := (List.range' 1 (table.count - 1)).foldl (fun box i ↦ rectUnion box (table.rects i))
    (table.rects 0)
  { rects := Function.update table.rects 0 box, count := 1 }

def vgaSwapBuffers (buffer : Framebuffer) (buffers : Buffers) : Buffers :=
  if buffer.pitch = 0 ∨ buffer.bpp < 3 then buffers
  else if buffers.table.count = 0 then buffers
  else
    let table := if buffers.strategy = 1 ∧ 1 < buffers.table.count then buffers.table.collapse
      else buffers.table
    let fb := (List.range table.count).foldl
      (fun fb rix ↦ copyRect buffer buffers.exclude buffers.bb (table.rects rix) fb) buffers.fb
    { buffers with fb := fb, table := { table with count := 0 } }

/-! ### The same colour -/

def SamePixel (buffer : Framebuffer) (bb fb : ℕ → UInt8) (x y : ℤ) : Prop :=
  ∀ channel < 3, fb (y.toNat * buffer.pitch + x.toNat * buffer.bpp + channel) =
    bb ((y.toNat * buffer.screen.width.toNat + x.toNat) * 4 + channel)

variable {buffer : Framebuffer} {bb fb : ℕ → UInt8} {x y : ℤ}

/-- The bytes of two pixels are apart. -/
theorem place_inj {width bpp pitch x x' y y' channel channel' : ℕ} (hpitch : width * bpp ≤ pitch)
    (hx : x < width) (hx' : x' < width) (hchannel : channel < bpp) (hchannel' : channel' < bpp)
    (hsame : y * pitch + x * bpp + channel = y' * pitch + x' * bpp + channel') :
    x = x' ∧ y = y' ∧ channel = channel' := by
  have hinside : ∀ {x channel : ℕ}, x < width → channel < bpp → x * bpp + channel < pitch := by
    intro x channel hx hchannel
    have hrow := Nat.mul_le_mul_right bpp (Nat.succ_le_of_lt hx)
    rw [Nat.succ_mul] at hrow
    omega
  have hfirst := hinside hx hchannel
  have hsecond := hinside hx' hchannel'
  have hy : y = y' := by
    rcases Nat.lt_trichotomy y y' with hless | heq | hgreater
    · have hrow := Nat.mul_le_mul_right pitch (Nat.succ_le_of_lt hless)
      rw [Nat.succ_mul] at hrow
      omega
    · exact heq
    · have hrow := Nat.mul_le_mul_right pitch (Nat.succ_le_of_lt hgreater)
      rw [Nat.succ_mul] at hrow
      omega
  subst hy
  have hx : x = x' := by
    rcases Nat.lt_trichotomy x x' with hless | heq | hgreater
    · have hcolumn := Nat.mul_le_mul_right bpp (Nat.succ_le_of_lt hless)
      rw [Nat.succ_mul] at hcolumn
      omega
    · exact heq
    · have hcolumn := Nat.mul_le_mul_right bpp (Nat.succ_le_of_lt hgreater)
      rw [Nat.succ_mul] at hcolumn
      omega
  subst hx
  exact ⟨rfl, rfl, by omega⟩

/-- One pixel is copied, and all that were the same stay so. -/
theorem copyPixel_same {x' y' : ℕ} (hbpp : 3 ≤ buffer.bpp)
    (hx : x.toNat < buffer.screen.width.toNat)
    (hx' : x' < buffer.screen.width.toNat)
    (hsame : SamePixel buffer bb fb x y ∨ x.toNat = x' ∧ y.toNat = y') :
    SamePixel buffer bb (copyPixel buffer.bpp bb (y' * buffer.pitch + x' * buffer.bpp)
      ((y' * buffer.screen.width.toNat + x') * 4) fb) x y := by
  intro channel hchannel
  have hapart : ∀ other < buffer.bpp, ¬(x.toNat = x' ∧ y.toNat = y' ∧ channel = other) →
      y.toNat * buffer.pitch + x.toNat * buffer.bpp + channel ≠
        y' * buffer.pitch + x' * buffer.bpp + other := fun other hother hne heq ↦
    hne (place_inj buffer.width_le_pitch hx hx' (by omega) hother heq)
  have hfirst : ∀ {bytes : ℕ → UInt8}, 4 ≤ buffer.bpp →
      Function.update bytes (y' * buffer.pitch + x' * buffer.bpp + 3) 0xFF
        (y.toNat * buffer.pitch + x.toNat * buffer.bpp + channel) =
      bytes (y.toNat * buffer.pitch + x.toNat * buffer.bpp + channel) := fun hfour ↦
    Function.update_of_ne (hapart 3 hfour (by omega)) _ _
  have hrest : copyPixel buffer.bpp bb (y' * buffer.pitch + x' * buffer.bpp)
      ((y' * buffer.screen.width.toNat + x') * 4) fb
        (y.toNat * buffer.pitch + x.toNat * buffer.bpp + channel) =
      Function.update (Function.update (Function.update fb (y' * buffer.pitch + x' * buffer.bpp)
        (bb ((y' * buffer.screen.width.toNat + x') * 4)))
        (y' * buffer.pitch + x' * buffer.bpp + 1)
        (bb ((y' * buffer.screen.width.toNat + x') * 4 + 1)))
        (y' * buffer.pitch + x' * buffer.bpp + 2)
        (bb ((y' * buffer.screen.width.toNat + x') * 4 + 2))
        (y.toNat * buffer.pitch + x.toNat * buffer.bpp + channel) := by
    unfold copyPixel
    split_ifs with hfour
    · exact hfirst hfour
    · rfl
  rw [hrest]
  by_cases hpixel : x.toNat = x' ∧ y.toNat = y'
  · obtain ⟨rfl, rfl⟩ := hpixel
    simp only [Function.update_apply]
    rcases (show channel = 0 ∨ channel = 1 ∨ channel = 2 by omega) with rfl | rfl | rfl
    · rw [if_neg (by omega), if_neg (by omega), if_pos (by omega), Nat.add_zero]
    · rw [if_neg (by omega), if_pos rfl]
    · rw [if_pos rfl]
  · rw [Function.update_of_ne (hapart 2 (by omega) (by omega)),
      Function.update_of_ne (hapart 1 (by omega) (by omega)),
      Function.update_of_ne (by
        have := hapart 0 (by omega) (by omega)
        rwa [Nat.add_zero] at this)]
    exact hsame.resolve_right hpixel channel hchannel

/-- A fold keeps what each of its steps keeps, and has at its end what one of them brings. -/
theorem foldl_reaches {Item Value : Type} {property : Value → Prop} {step : Value → Item → Value}
    {brings : Item → Prop} {items : List Item} {value : Value}
    (hstep : ∀ item ∈ items, ∀ value, property value ∨ brings item → property (step value item))
    (hvalue : property value ∨ ∃ item ∈ items, brings item) :
    property (items.foldl step value) := by
  induction items generalizing value with
  | nil =>
    rcases hvalue with hvalue | ⟨item, hitem, -⟩
    · exact hvalue
    · cases hitem
  | cons item items ih =>
    obtain ⟨hfirst, hrest⟩ := List.forall_mem_cons.mp hstep
    refine ih hrest ?_
    rcases hvalue with hvalue | ⟨other, hother, hbrings⟩
    · exact Or.inl (hfirst value (Or.inl hvalue))
    · rcases List.mem_cons.mp hother with rfl | hlater
      · exact Or.inl (hfirst value (Or.inr hbrings))
      · exact Or.inr ⟨other, hlater, hbrings⟩

/-- The pixels of a span of the screen are copied, and all that were the same stay so. -/
theorem copySpan_same {absY startX span : ℤ} (hbpp : 3 ≤ buffer.bpp)
    (hpixel : buffer.screen.holds x y) (hy : 0 ≤ absY) (hstart : 0 ≤ startX)
    (hend : startX + span ≤ buffer.screen.width)
    (hsame : SamePixel buffer bb fb x y ∨ y = absY ∧ startX ≤ x ∧ x < startX + span) :
    SamePixel buffer bb (copySpan buffer bb absY startX span fb) x y := by
  have hscreen := of_decide_eq_true hpixel
  unfold copySpan
  dsimp only
  split_ifs with hlayout
  · intro channel hchannel
    obtain ⟨hfour, hrow⟩ := hlayout
    dsimp only
    rw [hfour, hrow, Nat.add_mul, Nat.mul_assoc]
    by_cases hinside : absY.toNat * (buffer.screen.width.toNat * 4) + startX.toNat * 4 ≤
        y.toNat * (buffer.screen.width.toNat * 4) + x.toNat * 4 + channel ∧
        y.toNat * (buffer.screen.width.toNat * 4) + x.toNat * 4 + channel <
          absY.toNat * (buffer.screen.width.toNat * 4) + startX.toNat * 4 + span.toNat * 4
    · rw [if_pos hinside]
      refine congrArg bb ?_
      rw [Nat.add_mul, Nat.mul_assoc]
      omega
    · rw [if_neg hinside, Nat.add_mul, Nat.mul_assoc]
      have hbefore : SamePixel buffer bb fb x y := by
        refine hsame.resolve_right ?_
        rintro ⟨rfl, hleft, hright⟩
        omega
      have := hbefore channel hchannel
      rw [hfour, hrow, Nat.add_mul, Nat.mul_assoc] at this
      exact this
  · have hplace (c : ℕ) : absY.toNat * buffer.pitch + startX.toNat * buffer.bpp + c * buffer.bpp =
        absY.toNat * buffer.pitch + (startX.toNat + c) * buffer.bpp := by
      rw [Nat.add_mul, Nat.add_assoc]
    have hsource (c : ℕ) : (absY.toNat * buffer.screen.width.toNat + startX.toNat) * 4 + c * 4 =
        (absY.toNat * buffer.screen.width.toNat + (startX.toNat + c)) * 4 := by
      rw [← Nat.add_mul, Nat.add_assoc]
    simp only [hplace, hsource]
    refine @foldl_reaches _ _ (fun fb ↦ SamePixel buffer bb fb x y) _
      (fun c : ℕ ↦ x.toNat = startX.toNat + c ∧ y.toNat = absY.toNat) _ _
      (fun c hc fb hpart ↦ ?_) ?_
    · have := List.mem_range.mp hc
      exact copyPixel_same hbpp (by omega) (by omega) hpart
    · rcases hsame with hsame | ⟨rfl, hleft, hright⟩
      · exact Or.inl hsame
      · exact Or.inr ⟨x.toNat - startX.toNat, List.mem_range.mpr (by omega), by omega, rfl⟩

/-- The pixels of a rectangle are copied where nothing is excluded. -/
theorem copyRect_same {exclude rect : DirtyRect} (hbpp : 3 ≤ buffer.bpp)
    (hexclude : exclude.w ≤ 0 ∨ exclude.h ≤ 0) (hpixel : buffer.screen.holds x y)
    (hsame : SamePixel buffer bb fb x y ∨ rect.Holds x y) :
    SamePixel buffer bb (copyRect buffer exclude bb rect fb) x y := by
  have hscreen := of_decide_eq_true hpixel
  unfold DirtyRect.Holds at hsame
  unfold copyRect
  dsimp only
  split_ifs with hempty
  · exact hsame.resolve_right (by omega)
  · refine @foldl_reaches _ _ (fun fb ↦ SamePixel buffer bb fb x y) _
      (fun turn : ℕ ↦ y = min buffer.screen.height (rect.y + rect.h) - 1 - turn ∧ rect.x ≤ x ∧
        x < rect.x + rect.w) _ _ (fun turn hturn fb hpart ↦ ?_) ?_
    · have := List.mem_range.mp hturn
      unfold copyRow
      rw [if_neg (by omega)]
      exact copySpan_same hbpp hpixel (by omega) (by omega) (by omega)
        (hpart.imp_right fun hrow ↦ ⟨hrow.1, by omega, by omega⟩)
    · rcases hsame with hsame | hholds
      · exact Or.inl hsame
      · refine Or.inr ⟨(min buffer.screen.height (rect.y + rect.h) - 1 - y).toNat,
          List.mem_range.mpr (by omega), by omega, by omega, by omega⟩

/-- Putting the entries together loses none of their pixels. -/
theorem collapse_covers (screen : Screen) {table : DirtyTable} (hcovers : table.Covers x y) :
    table.collapse.Covers x y := by
  obtain ⟨k, hk, hholds⟩ := hcovers
  obtain ⟨hbox, -⟩ := @foldl_union screen (List.range' 1 (table.count - 1)) table.rects
    (table.rects 0)
  refine ⟨0, Nat.one_pos, ?_⟩
  unfold DirtyTable.collapse
  dsimp only
  rw [Function.update_self]
  refine hbox x y ?_
  rcases Nat.eq_zero_or_pos k with rfl | hpositive
  · exact Or.inl hholds
  · exact Or.inr ⟨k, List.mem_range'_1.mpr (by omega), hholds⟩

/-- Every pixel that the table covers is the same after the copy. -/
theorem vgaSwapBuffers_same {buffers : Buffers} (hbpp : 3 ≤ buffer.bpp)
    (hexclude : buffers.exclude.w ≤ 0 ∨ buffers.exclude.h ≤ 0) (hpixel : buffer.screen.holds x y)
    (hcovers : buffers.table.Covers x y) :
    SamePixel buffer (vgaSwapBuffers buffer buffers).bb (vgaSwapBuffers buffer buffers).fb x y := by
  have hscreen := of_decide_eq_true hpixel
  obtain ⟨i, hi, -⟩ := id hcovers
  have hpitch : buffer.pitch ≠ 0 := by
    have hwidth := Nat.mul_le_mul (show 1 ≤ buffer.screen.width.toNat by omega) hbpp
    have := buffer.width_le_pitch
    omega
  unfold vgaSwapBuffers
  rw [if_neg (by omega), if_neg (by omega)]
  dsimp only
  have htable : (if buffers.strategy = 1 ∧ 1 < buffers.table.count then buffers.table.collapse
      else buffers.table).Covers x y := by
    split_ifs
    · exact collapse_covers buffer.screen hcovers
    · exact hcovers
  obtain ⟨k, hk, hholds⟩ := htable
  exact @foldl_reaches _ _ (fun fb ↦ SamePixel buffer buffers.bb fb x y) _
    (fun rix : ℕ ↦ DirtyRect.Holds ((if buffers.strategy = 1 ∧ 1 < buffers.table.count then
      buffers.table.collapse else buffers.table).rects rix) x y) _ _
    (fun rix _ fb hpart ↦ copyRect_same hbpp hexclude hpixel hpart)
    (Or.inr ⟨k, List.mem_range.mpr hk, hholds⟩)

/-! ### Frames -/

/-- A frame: the table, and what was marked since it began. -/
structure Frame where
  table : DirtyTable
  marked : List Mark

def beginFrame (table : DirtyTable) : Frame := ⟨vgaBeginFrame table, []⟩

def Frame.mark (screen : Screen) (frame : Frame) (mark : Mark) : Frame :=
  ⟨vgaMarkDirtyRect screen frame.table mark, frame.marked ++ [mark]⟩

/-- Dirty tracking has lost nothing: the table is sound and covers every marked pixel of the screen,
and copying the buffers now, whatever they hold, brings each of them to the screen. -/
structure Tracked (buffer : Framebuffer) (frame : Frame) : Prop where
  sound : frame.table.Sound buffer.screen
  covers : ∀ mark ∈ frame.marked, ∀ x y, mark.Shows buffer.screen x y → frame.table.Covers x y
  swaps : ∀ buffers : Buffers, buffers.table = frame.table →
    buffers.exclude.w ≤ 0 ∨ buffers.exclude.h ≤ 0 →
    ∀ mark ∈ frame.marked, ∀ x y, mark.Shows buffer.screen x y →
      SamePixel buffer (vgaSwapBuffers buffer buffers).bb (vgaSwapBuffers buffer buffers).fb x y

/-- A call loses nothing: it merges safely, and the pixels have at least three bytes or there is
nothing marked on the screen. -/
def Keeps (buffer : Framebuffer) (frame : Frame) (mark : Mark) : Prop :=
  MergesSafely buffer.screen frame.table mark ∧
    (3 ≤ buffer.bpp ∨ ∀ x y, ¬mark.Shows buffer.screen x y)

variable {frame : Frame} {mark : Mark}

/-- Nothing is copied where pixels have fewer than three bytes. -/
theorem Tracked.three_le (htracked : Tracked buffer frame) (hmark : mark ∈ frame.marked)
    (hshows : mark.Shows buffer.screen x y) : 3 ≤ buffer.bpp := by
  by_contra hbpp
  have hsame := htracked.swaps ⟨fun _ ↦ 0, fun _ ↦ 1, frame.table, 0, ⟨0, 0, 0, 0⟩⟩ rfl
    (Or.inl (Int.le_refl 0)) mark hmark x y hshows 0 (by omega)
  unfold vgaSwapBuffers at hsame
  rw [if_pos (Or.inr (by omega))] at hsame
  exact absurd (show (0 : UInt8) = 1 from hsame) (by decide)

theorem tracked_beginFrame (table : DirtyTable) : Tracked buffer (beginFrame table) where
  sound := ⟨Nat.zero_le _, fun i hi ↦ absurd hi (Nat.not_lt_zero i)⟩
  covers _ hmark := nomatch hmark
  swaps _ _ _ _ hmark := nomatch hmark

/-- A call keeps that nothing is lost exactly where it loses nothing. -/
theorem tracked_mark_iff (htracked : Tracked buffer frame) :
    Tracked buffer (frame.mark buffer.screen mark) ↔ Keeps buffer frame mark := by
  obtain ⟨hsafe, hrisky⟩ := @vgaMarkDirtyRect_spec _ _ mark htracked.sound
  have hlast : mark ∈ (frame.mark buffer.screen mark).marked :=
    List.mem_append_right _ (List.mem_singleton_self mark)
  constructor
  · intro hnext
    constructor
    · by_contra hmerge
      obtain ⟨x, y, hshows, hlost⟩ := hrisky hmerge
      exact hlost (hnext.covers mark hlast x y hshows)
    · by_contra hfew
      obtain ⟨hbpp, hvisible⟩ := not_or.mp hfew
      refine hvisible fun x y hshows ↦ hbpp (hnext.three_le hlast hshows)
  · rintro ⟨hmerge, hvisible⟩
    obtain ⟨hsound, hkept⟩ := hsafe hmerge
    have hcovers : ∀ other ∈ (frame.mark buffer.screen mark).marked, ∀ x y,
        other.Shows buffer.screen x y → (frame.mark buffer.screen mark).table.Covers x y := by
      intro other hother x y hshows
      rcases List.mem_append.mp hother with hbefore | hsame
      · exact hkept x y (Or.inl (htracked.covers other hbefore x y hshows))
      · obtain rfl := List.mem_singleton.mp hsame
        exact hkept x y (Or.inr hshows)
    refine ⟨hsound, hcovers, fun buffers htable hexclude other hother x y hshows ↦ ?_⟩
    refine vgaSwapBuffers_same ?_ hexclude hshows.2.2.2.2
      (htable ▸ hcovers other hother x y hshows)
    rcases List.mem_append.mp hother with hbefore | hsame
    · exact htracked.three_le hbefore hshows
    · obtain rfl := List.mem_singleton.mp hsame
      exact hvisible.resolve_right fun hnone ↦ hnone x y hshows

/-- Nothing is lost at any point of a frame exactly if no call of it loses something. -/
theorem vgaMarkDirtyRect_tracked_iff (buffer : Framebuffer) (table : DirtyTable)
    (marks : List Mark) :
    (∀ count, Tracked buffer ((marks.take count).foldl (Frame.mark buffer.screen)
      (beginFrame table))) ↔
      Allowed (Keeps buffer) (Frame.mark buffer.screen) (beginFrame table) marks := by
  have hpromised : ∀ frame : Frame,
      Allowed (fun _ _ ↦ True) (Frame.mark buffer.screen) frame marks := by
    induction marks with
    | nil => exact fun _ ↦ trivial
    | cons mark marks ih => exact fun frame ↦ ⟨trivial, ih _⟩
  exact allowed_iff (fun _ _ htracked _ ↦ tracked_mark_iff htracked) (tracked_beginFrame table)
    (hpromised _)

/-- The third mark is joined with the last entry, which absorbs the first one: the table is left
empty. -/
theorem vgaMarkDirtyRect_loses_last :
    let screen : Screen := ⟨640, 480, by decide, by decide, by decide, by decide⟩
    let buffer : Framebuffer := ⟨screen, 2560, 4, by decide⟩
    let point : Mark :=
      ⟨5, 5, 1, 1, by decide, by decide, by decide, by decide, by decide, by decide⟩
    let bar : Mark :=
      ⟨0, 0, 10, 2, by decide, by decide, by decide, by decide, by decide, by decide⟩
    let post : Mark :=
      ⟨0, 1, 2, 10, by decide, by decide, by decide, by decide, by decide, by decide⟩
    let frame := [point, bar, post].foldl (Frame.mark screen)
      (beginFrame ⟨fun _ ↦ ⟨0, 0, 0, 0⟩, 0⟩)
    frame.table.count = 0 ∧ ¬Tracked buffer frame := by
  refine ⟨by decide, fun htracked ↦ ?_⟩
  obtain ⟨i, hi, -⟩ := htracked.covers _ (List.mem_cons_self) 5 5 (by unfold Mark.Shows; decide)
  exact absurd hi (by
    rw [show DirtyTable.count _ = 0 by decide]
    exact Nat.not_lt_zero i)

end EynOS.Display
