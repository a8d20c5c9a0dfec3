import EynOS.Display.Fonts

/-!
# References to fonts

Each font that is loaded counts the places that hold its handle: the system font, the fonts of the
windows and their slots. `Sound` is what acquiring, releasing and writing a handle keep, with the
handles that are in flight, and `Tidy` says that a place which is written without a look holds
nothing. SYSCALL_GUI_LOAD_FONT asks the register of its result whether the font was found in a slot,
and that register holds the number of the call. So a font that is acquired for a slot and is in none
of them comes to no slot, and its reference is lost: `fontCounts_iff` says that the counts are right
and the slots that are returned hold their fonts exactly as long as no LOAD_FONT acquires a font
that its window has not.
-/

namespace EynOS.Display

open Foundation

variable {state : FontState} {pending : List ℕ} {handle : ℕ} {holder : Holder}

/-! ### Places -/

theorem holders_nodup : holders.Nodup := by decide

theorem holders_length : holders.length = 73 := rfl

theorem system_mem : Holder.system ∈ holders := by
  unfold holders
  exact List.mem_cons_self

theorem window_mem {w : ℕ} (hw : w < USER_GUI_MAX) (hholder : holder ∈ windowHolders w) :
    holder ∈ holders :=
  List.mem_cons_of_mem _ (List.mem_flatMap.mpr ⟨w, List.mem_range.mpr hw, hholder⟩)

theorem extra_mem {w slot : ℕ} (hw : w < USER_GUI_MAX) (hslot : slot < USER_GUI_EXTRA_FONTS) :
    Holder.extra w slot ∈ holders :=
  window_mem hw (List.mem_cons_of_mem _ (List.mem_map_of_mem (List.mem_range.mpr hslot)))

/-- A handle is in the place that it was written to. -/
theorem held_put (state : FontState) (handle : ℕ) (holder : Holder) :
    (state.put handle holder).held = Function.update state.held holder handle := by
  funext other
  cases holder with
  | system =>
    cases other with
    | system => rw [Function.update_self]; rfl
    | window w => rw [Function.update_of_ne (by simp)]; rfl
    | extra w slot => rw [Function.update_of_ne (by simp)]; rfl
  | window w =>
    cases other with
    | system => rw [Function.update_of_ne (by simp)]; rfl
    | window v =>
      by_cases hv : v = w
      · subst hv
        rw [Function.update_self]
        simp only [FontState.held, FontState.put, Function.update_self]
      · rw [Function.update_of_ne (by simpa using hv)]
        simp only [FontState.held, FontState.put, Function.update_of_ne hv]
    | extra v slot =>
      rw [Function.update_of_ne (by simp)]
      by_cases hv : v = w
      · subst hv
        simp only [FontState.held, FontState.put, Function.update_self]
      · simp only [FontState.held, FontState.put, Function.update_of_ne hv]
  | extra w slot =>
    cases other with
    | system => rw [Function.update_of_ne (by simp)]; rfl
    | window v =>
      rw [Function.update_of_ne (by simp)]
      by_cases hv : v = w
      · subst hv
        simp only [FontState.held, FontState.put, Function.update_self]
      · simp only [FontState.held, FontState.put, Function.update_of_ne hv]
    | extra v other =>
      by_cases hv : v = w
      · subst hv
        by_cases hother : other = slot
        · subst hother
          rw [Function.update_self]
          simp only [FontState.held, FontState.put, Function.update_self]
        · rw [Function.update_of_ne (by simpa using hother)]
          simp only [FontState.held, FontState.put, Function.update_self,
            Function.update_of_ne hother]
      · rw [Function.update_of_ne (by simp [hv])]
        simp only [FontState.held, FontState.put, Function.update_of_ne hv]

/-! ### Counts -/

def FontState.count (state : FontState) (handle : ℕ) : ℕ :=
  match state.entryFromHandle handle with
  | some i => (state.fonts i).refcount
  | none => 0

/-- Every font counts its references, with those in flight; a font that is loaded has one, and no
other is loaded from where it is. -/
structure FontState.Sound (state : FontState) (pending : List ℕ) : Prop where
  balanced : Foundation.Balanced holders 0 state.held state.count pending
  alive : ∀ i < VGA_FONT_MAX, (state.fonts i).used → 0 < (state.fonts i).refcount
  distinct : ∀ i < VGA_FONT_MAX, ∀ j < VGA_FONT_MAX, (state.fonts i).used → (state.fonts j).used →
    (state.fonts i).drive = (state.fonts j).drive →
    (state.fonts i).path = (state.fonts j).path → i = j

theorem entryFromHandle_eq_some {i : ℕ} : state.entryFromHandle handle = some i ↔
    handle = i + 1 ∧ i < VGA_FONT_MAX ∧ (state.fonts i).used := by
  unfold FontState.entryFromHandle
  constructor
  · intro hentry
    split_ifs at hentry with hhandle hused
    obtain rfl := Option.some.inj hentry
    exact ⟨by omega, by omega, hused⟩
  · rintro ⟨rfl, hi, hused⟩
    rw [if_neg (by omega), Nat.add_sub_cancel, if_pos hused]

theorem entryFromHandle_eq_none : state.entryFromHandle handle = none ↔
    ∀ i, handle = i + 1 → i < VGA_FONT_MAX → (state.fonts i).used = false := by
  constructor
  · intro hnone i hhandle hi
    by_contra hused
    rw [Bool.not_eq_false] at hused
    rw [entryFromHandle_eq_some.mpr ⟨hhandle, hi, hused⟩] at hnone
    cases hnone
  · intro hunused
    match hentry : state.entryFromHandle handle with
    | none => rfl
    | some i =>
      obtain ⟨hhandle, hi, hused⟩ := entryFromHandle_eq_some.mp hentry
      rw [hunused i hhandle hi] at hused
      cases hused

@[simp] theorem fonts_writeEntry_self (state : FontState) (index : ℕ) (entry : FontEntry) :
    (state.writeEntry index entry).fonts index = entry := Function.update_self _ _ _

theorem fonts_writeEntry_of_ne {index other : ℕ} (hne : other ≠ index) (entry : FontEntry) :
    (state.writeEntry index entry).fonts other = state.fonts other := Function.update_of_ne hne _ _

theorem count_succ {i : ℕ} (hi : i < VGA_FONT_MAX) :
    state.count (i + 1) = if (state.fonts i).used then (state.fonts i).refcount else 0 := by
  unfold FontState.count
  split_ifs with hused
  · rw [entryFromHandle_eq_some.mpr ⟨rfl, hi, hused⟩]
  · rw [entryFromHandle_eq_none.mpr]
    intro j hj _
    rw [← Nat.succ.inj hj]
    exact Bool.eq_false_iff.mpr hused

theorem count_writeEntry {index : ℕ} (hindex : index < VGA_FONT_MAX) (entry : FontEntry)
    (handle : ℕ) :
    (state.writeEntry index entry).count handle =
      if handle = index + 1 then if entry.used then entry.refcount else 0
        else state.count handle := by
  split_ifs with hhandle
  all_goals first | subst hhandle | skip
  · rw [count_succ hindex, fonts_writeEntry_self, if_pos ‹_›]
  · rw [count_succ hindex, fonts_writeEntry_self, if_neg ‹_›]
  · by_cases hrange : handle = 0 ∨ VGA_FONT_MAX < handle
    · unfold FontState.count FontState.entryFromHandle
      rw [if_pos hrange, if_pos hrange]
    · obtain ⟨i, rfl⟩ : ∃ i, handle = i + 1 := ⟨handle - 1, by omega⟩
      rw [count_succ (by omega), count_succ (by omega), fonts_writeEntry_of_ne (by omega)]

/-- The references of a font that is loaded, if they are all in places. -/
theorem exactCounts_iff : state.Exact ↔ Foundation.Balanced holders 0 state.held state.count [] ∧
    ∀ i < VGA_FONT_MAX, (state.fonts i).used → 0 < (state.fonts i).refcount := by
  unfold FontState.Exact Foundation.Balanced FontState.count
  constructor
  · intro hexact
    refine ⟨fun handle hhandle ↦ ?_, fun i hi hused ↦ ?_⟩
    · have := hexact handle hhandle
      rw [List.count_nil, Nat.add_zero]
      cases hentry : state.entryFromHandle handle with
      | none =>
        rw [hentry] at this
        exact this.symm
      | some i =>
        rw [hentry] at this
        exact this.2
    · have := hexact (i + 1) (Nat.succ_ne_zero i)
      rw [entryFromHandle_eq_some.mpr ⟨rfl, hi, hused⟩] at this
      dsimp only at this
      rw [this.2]
      exact this.1
  · rintro ⟨hbalanced, halive⟩ handle hhandle
    have hcount := hbalanced handle hhandle
    rw [List.count_nil, Nat.add_zero] at hcount
    split
    · next i hentry =>
      rw [hentry] at hcount
      obtain ⟨-, hi, hused⟩ := entryFromHandle_eq_some.mp hentry
      refine ⟨?_, hcount⟩
      rw [FontState.holding, ← hcount]
      exact halive i hi hused
    · next hentry =>
      rw [hentry] at hcount
      exact hcount.symm

namespace FontState.Sound

theorem cons_zero_iff : state.Sound (0 :: pending) ↔ state.Sound pending := by
  constructor
  · rintro ⟨hbalanced, halive, hdistinct⟩
    exact ⟨Foundation.Balanced.cons_nothing_iff.mp hbalanced, halive, hdistinct⟩
  · rintro ⟨hbalanced, halive, hdistinct⟩
    exact ⟨Foundation.Balanced.cons_nothing_iff.mpr hbalanced, halive, hdistinct⟩

/-- A reference in flight comes to a place. -/
theorem put (hsound : state.Sound (handle :: pending)) (hholder : holder ∈ holders) :
    (state.put handle holder).Sound (state.held holder :: pending) := by
  have hfonts : (state.put handle holder).fonts = state.fonts := by cases holder <;> rfl
  have hcount : (state.put handle holder).count = state.count := by
    unfold FontState.count FontState.entryFromHandle
    rw [hfonts]
  refine ⟨?_, ?_, ?_⟩
  · rw [held_put, hcount]
    exact hsound.balanced.move holders_nodup hholder
  · rw [hfonts]
    exact hsound.alive
  · rw [hfonts]
    exact hsound.distinct

/-- An entry of the registry is written. -/
theorem writeEntry {i : ℕ} {entry : FontEntry} {later : List ℕ} (hsound : state.Sound pending)
    (hbalanced : Foundation.Balanced holders 0 state.held (state.writeEntry i entry).count later)
    (halive : entry.used → 0 < entry.refcount)
    (hdistinct : entry.used → ∀ j < VGA_FONT_MAX, (state.fonts j).used →
      (state.fonts j).drive = entry.drive → (state.fonts j).path = entry.path → j = i) :
    (state.writeEntry i entry).Sound later := by
  refine ⟨hbalanced, fun j hj hused ↦ ?_, fun j hj k hk hused hother hdrive hpath ↦ ?_⟩
  · by_cases hne : j = i
    · subst hne
      rw [fonts_writeEntry_self] at hused ⊢
      exact halive hused
    · rw [fonts_writeEntry_of_ne hne] at hused ⊢
      exact hsound.alive j hj hused
  · by_cases hj' : j = i
    · by_cases hk' : k = i
      · rw [hj', hk']
      · rw [hj', fonts_writeEntry_self] at hused hdrive hpath
        rw [fonts_writeEntry_of_ne hk'] at hother hdrive hpath
        rw [hj', hdistinct hused k hk hother hdrive.symm hpath.symm]
    · rw [fonts_writeEntry_of_ne hj'] at hused hdrive hpath
      by_cases hk' : k = i
      · rw [hk', fonts_writeEntry_self] at hother hdrive hpath
        rw [hk', hdistinct hother j hj hused hdrive hpath]
      · rw [fonts_writeEntry_of_ne hk'] at hother hdrive hpath
        exact hsound.distinct j hj k hk hused hother hdrive hpath

/-- A reference in flight is released. -/
theorem release (hsound : state.Sound (handle :: pending)) :
    (vgaFontRelease handle state).Sound pending := by
  unfold vgaFontRelease
  match hentry : state.entryFromHandle handle with
  | none =>
    refine ⟨hsound.balanced.drop fun other hother ↦ ?_, hsound.alive, hsound.distinct⟩
    by_cases hsame : handle = other
    · subst hsame
      have hzero : state.count handle = 0 := by
        unfold FontState.count
        rw [hentry]
      dsimp only
      rw [hzero, Nat.zero_sub]
    · rw [if_neg hsame]
      rfl
  | some i =>
    obtain ⟨rfl, hi, hused⟩ := entryFromHandle_eq_some.mp hentry
    -- the count of the entry that is written is one less
    have hdrop : ∀ entry : FontEntry,
        (if entry.used then entry.refcount else 0) = (state.fonts i).refcount - 1 →
        Foundation.Balanced holders 0 state.held (state.writeEntry i entry).count pending := by
      intro entry hcount
      refine hsound.balanced.drop fun other hother ↦ ?_
      rw [count_writeEntry hi, hcount]
      by_cases hsame : i + 1 = other
      · subst hsame
        rw [if_pos rfl, if_pos rfl, count_succ hi, if_pos hused]
      · rw [if_neg (Ne.symm hsame), if_neg hsame, Nat.sub_zero]
    dsimp only
    split_ifs with hlast
    · exact hsound.writeEntry (hdrop _ hlast.symm) (fun hnot ↦ (by cases hnot)) fun hnot ↦
        (by cases hnot)
    · refine hsound.writeEntry (hdrop _ (if_pos hused)) (fun _ ↦ Nat.pos_of_ne_zero hlast) ?_
      exact fun _ j hj hother hdrive hpath ↦ hsound.distinct j hj i hi hother hused hdrive hpath

end FontState.Sound

/-! ### Acquiring -/

variable {luck : Luck} {drive : UInt8} {path : List Char}

theorem findLoaded_eq_some {i : ℕ} (hfound : state.findLoaded drive path = some i) :
    i < VGA_FONT_MAX ∧ (state.fonts i).used ∧ (state.fonts i).drive = drive ∧
      (state.fonts i).path = path := by
  have hi := List.mem_range.mp (List.mem_of_find?_eq_some hfound)
  have hloaded := List.find?_some hfound
  simp only [Bool.and_eq_true, decide_eq_true_eq] at hloaded
  exact ⟨hi, hloaded.1.1, hloaded.1.2, hloaded.2⟩

theorem findLoaded_eq_none : state.findLoaded drive path = none ↔
    ∀ i < VGA_FONT_MAX, (state.fonts i).used → (state.fonts i).drive = drive →
      (state.fonts i).path ≠ path := by
  unfold FontState.findLoaded
  rw [List.find?_eq_none]
  simp only [List.mem_range, Bool.and_eq_true, decide_eq_true_eq, not_and, and_imp, ne_eq]

theorem findFree_eq_some {i : ℕ} (hfound : state.findFree = some i) :
    i < VGA_FONT_MAX ∧ (state.fonts i).used = false := by
  have hi := List.mem_range.mp (List.mem_of_find?_eq_some hfound)
  have hfree := List.find?_some hfound
  rw [Bool.not_eq_true'] at hfree
  exact ⟨hi, hfree⟩

theorem findFree_eq_none : state.findFree = none ↔ ∀ i < VGA_FONT_MAX, (state.fonts i).used := by
  unfold FontState.findFree
  rw [List.find?_eq_none]
  simp only [List.mem_range, Bool.not_eq_true', Bool.not_eq_false]

/-- Acquiring changes the registry only. -/
theorem acquire_fonts (luck : Luck) (drive : UInt8) (path : List Char) (state : FontState) :
    ∃ fonts, (vgaFontAcquireHex luck drive path state).1 = { state with fonts := fonts } := by
  unfold vgaFontAcquireHex
  split
  · exact ⟨state.fonts, rfl⟩
  · split
    · exact ⟨state.fonts, rfl⟩
    · split
      · dsimp only
        split_ifs
        · exact ⟨_, rfl⟩
        · exact ⟨state.fonts, rfl⟩
      · split
        · exact ⟨state.fonts, rfl⟩
        · split_ifs <;> exact ⟨_, rfl⟩

theorem release_fonts (handle : ℕ) (state : FontState) :
    ∃ fonts, vgaFontRelease handle state = { state with fonts := fonts } := by
  unfold vgaFontRelease
  split
  · exact ⟨state.fonts, rfl⟩
  · dsimp only
    split_ifs <;> exact ⟨_, rfl⟩

/-- A handle that is written is none of the registry's business. -/
theorem release_put (handle other : ℕ) (holder : Holder) (state : FontState) :
    vgaFontRelease handle (state.put other holder) =
      (vgaFontRelease handle state).put other holder := by
  have hentry : (state.put other holder).entryFromHandle handle = state.entryFromHandle handle := by
    cases holder <;> rfl
  have hfonts : (state.put other holder).fonts = state.fonts := by cases holder <;> rfl
  have hwrite : ∀ index entry,
      (state.put other holder).writeEntry index entry =
      (state.writeEntry index entry).put other holder := by
    intro index entry
    cases holder <;> rfl
  unfold vgaFontRelease
  rw [hentry, hfonts]
  split
  · rfl
  · dsimp only
    rw [hwrite, hwrite]
    split_ifs <;> rfl

/-- A handle that is acquired names the font that was asked for. -/
theorem acquire_some (hacquired : (vgaFontAcquireHex luck drive path state).2 = some handle) :
    ∃ i, (vgaFontAcquireHex luck drive path state).1.entryFromHandle handle = some i ∧
      ((vgaFontAcquireHex luck drive path state).1.fonts i).drive = drive ∧
      ((vgaFontAcquireHex luck drive path state).1.fonts i).path = path := by
  revert hacquired
  unfold vgaFontAcquireHex
  split
  · exact fun hnot ↦ (by cases hnot)
  · split
    · exact fun hnot ↦ (by cases hnot)
    · split
      · next i hfound =>
        intro hacquired
        obtain ⟨hi, hused, hdrive, hpath⟩ := findLoaded_eq_some hfound
        obtain rfl := Option.some.inj hacquired
        refine ⟨i, entryFromHandle_eq_some.mpr ⟨rfl, hi, ?_⟩, ?_⟩
        all_goals dsimp only
        all_goals split_ifs
        · rwa [fonts_writeEntry_self]
        · exact hused
        · rw [fonts_writeEntry_self]
          exact ⟨hdrive, hpath⟩
        · exact ⟨hdrive, hpath⟩
      · split
        · exact fun hnot ↦ (by cases hnot)
        · next slot hfree =>
          obtain ⟨hslot, -⟩ := findFree_eq_some hfree
          split_ifs
          · intro hacquired
            obtain rfl := Option.some.inj hacquired
            refine ⟨slot, entryFromHandle_eq_some.mpr ⟨rfl, hslot, ?_⟩, ?_⟩
            · rw [fonts_writeEntry_self]
            · rw [fonts_writeEntry_self]
              exact ⟨rfl, rfl⟩
          · exact fun hnot ↦ (by cases hnot)

/-- A font is acquired exactly if it can be. -/
theorem acquire_isSome_iff :
    (vgaFontAcquireHex luck drive path state).2.isSome ↔ state.Obtainable luck drive path := by
  unfold vgaFontAcquireHex FontState.Obtainable
  by_cases hgranted : luck.granted = true
  case neg =>
    rw [if_pos (by simpa using hgranted)]
    exact ⟨fun hsome ↦ (by cases hsome), fun hobtainable ↦ absurd hobtainable.1 hgranted⟩
  rw [if_neg (by simpa using hgranted)]
  by_cases hpath : isFontPath path = true
  case neg =>
    rw [if_pos (by simpa using hpath)]
    exact ⟨fun hsome ↦ (by cases hsome), fun hobtainable ↦ absurd hobtainable.2.1 hpath⟩
  · rw [if_neg (by simpa using hpath)]
    split
    · next i hfound =>
      obtain ⟨hi, hused, hdrive, hsame⟩ := findLoaded_eq_some hfound
      exact ⟨fun _ ↦ ⟨hgranted, hpath, .inl ⟨i, hi, hused, hdrive, hsame⟩⟩, fun _ ↦ rfl⟩
    · next hnone =>
      rw [findLoaded_eq_none] at hnone
      split
      · next hfull =>
        rw [findFree_eq_none] at hfull
        refine ⟨fun hsome ↦ (by cases hsome), ?_⟩
        rintro ⟨-, -, ⟨i, hi, hused, hdrive, hsame⟩ | ⟨-, i, hi, hunused⟩⟩
        · exact absurd hsame (hnone i hi hused hdrive)
        · rw [hfull i hi] at hunused
          cases hunused
      · next slot hfree =>
        obtain ⟨hslot, hunused⟩ := findFree_eq_some hfree
        split_ifs with hloads
        · exact ⟨fun _ ↦ ⟨hgranted, hpath, .inr ⟨hloads, slot, hslot, hunused⟩⟩, fun _ ↦ rfl⟩
        · refine ⟨fun hsome ↦ (by cases hsome), ?_⟩
          rintro ⟨-, -, ⟨i, hi, hused, hdrive, hsame⟩ | ⟨hloads', -⟩⟩
          · exact absurd hsame (hnone i hi hused hdrive)
          · exact absurd hloads' hloads

/-- A font that is acquired has a reference in flight. -/
theorem FontState.Sound.acquire (hsound : state.Sound []) (luck : Luck) (drive : UInt8)
    (path : List Char) :
    (vgaFontAcquireHex luck drive path state).1.Sound
      [(vgaFontAcquireHex luck drive path state).2.getD 0] := by
  unfold vgaFontAcquireHex
  split
  · exact Sound.cons_zero_iff.mpr hsound
  split
  · exact Sound.cons_zero_iff.mpr hsound
  · split
    · next i hfound =>
      obtain ⟨hi, hused, hdrive, hpath⟩ := findLoaded_eq_some hfound
      -- no more than the places there are
      have hfew : (state.fonts i).refcount < 0xFFFF := by
        have hcount := hsound.balanced (i + 1) (Nat.succ_ne_zero i)
        rw [count_succ hi, if_pos hused, List.count_nil] at hcount
        have := references_le holders state.held (i + 1)
        rw [holders_length] at this
        omega
      dsimp only
      rw [if_pos hfew]
      refine hsound.writeEntry (hsound.balanced.take fun other _ ↦ ?_) (fun _ ↦ Nat.succ_pos _) ?_
      · rw [count_writeEntry hi, if_pos hused, Option.getD_some]
        by_cases hsame : other = i + 1
        · rw [if_pos hsame, if_pos hsame.symm, hsame, count_succ hi, if_pos hused]
        · rw [if_neg hsame, if_neg (Ne.symm hsame)]
          rfl
      · exact fun _ j hj hother hdrive hpath ↦ hsound.distinct j hj i hi hother hused hdrive hpath
    · next hnone =>
      rw [findLoaded_eq_none] at hnone
      split
      · exact Sound.cons_zero_iff.mpr hsound
      · next slot hfree =>
        obtain ⟨hslot, hunused⟩ := findFree_eq_some hfree
        have hbefore : state.count (slot + 1) = 0 := by
          rw [count_succ hslot, if_neg (Bool.eq_false_iff.mp hunused)]
        split_ifs
        · refine hsound.writeEntry (hsound.balanced.take fun other _ ↦ ?_) (fun _ ↦ Nat.one_pos) ?_
          · dsimp only
            rw [count_writeEntry hslot, Option.getD_some]
            by_cases hsame : other = slot + 1
            · rw [if_pos hsame, if_pos hsame.symm, hsame, hbefore]
              rfl
            · rw [if_neg hsame, if_neg (Ne.symm hsame)]
              rfl
          · exact fun _ j hj hother hdrive hpath ↦ absurd hpath (hnone j hj hother hdrive)
        · refine Sound.cons_zero_iff.mpr (hsound.writeEntry (fun other hother ↦ ?_)
            (fun hnot ↦ (by cases hnot)) fun hnot ↦ (by cases hnot))
          rw [count_writeEntry hslot, ← hsound.balanced other hother]
          by_cases hsame : other = slot + 1
          · rw [if_pos hsame, hsame, hbefore]
            rfl
          · rw [if_neg hsame]

/-- A font that is loaded is found by where it is from. -/
theorem FontState.Sound.acquire_loaded {i : ℕ} (hsound : state.Sound pending)
    (hi : i < VGA_FONT_MAX)
    (hused : (state.fonts i).used) (hdrive : (state.fonts i).drive = drive)
    (hpath : (state.fonts i).path = path)
    (hacquired : (vgaFontAcquireHex luck drive path state).2 = some handle) : handle = i + 1 := by
  revert hacquired
  unfold vgaFontAcquireHex
  split
  · exact fun hnot ↦ (by cases hnot)
  · split
    · exact fun hnot ↦ (by cases hnot)
    · split
      · next j hfound =>
        intro hacquired
        obtain ⟨hj, hother, hdrive', hpath'⟩ := findLoaded_eq_some hfound
        rw [hsound.distinct i hi j hj hused hother (hdrive.trans hdrive'.symm)
          (hpath.trans hpath'.symm)]
        exact (Option.some.inj hacquired).symm
      · next hnone => exact absurd hpath (findLoaded_eq_none.mp hnone i hi hused hdrive)

/-- A font with another reference is there after a release. -/
theorem release_kept {i : ℕ} (hentry : state.entryFromHandle handle = some i)
    (hmore : 1 < (state.fonts i).refcount) :
    (vgaFontRelease handle state).entryFromHandle handle = some i ∧
      ((vgaFontRelease handle state).fonts i).drive = (state.fonts i).drive ∧
      ((vgaFontRelease handle state).fonts i).path = (state.fonts i).path := by
  obtain ⟨hhandle, hi, hused⟩ := entryFromHandle_eq_some.mp hentry
  unfold vgaFontRelease
  rw [hentry]
  dsimp only
  rw [if_neg (by omega), entryFromHandle_eq_some, fonts_writeEntry_self]
  exact ⟨⟨hhandle, hi, hused⟩, rfl, rfl⟩

/-! ### The system font -/

/-- The system font is not there before it was looked for, and a window that is not used has no
font. -/
structure FontState.Tidy (state : FontState) : Prop where
  unlooked : state.attempted = false → state.systemHandle = 0
  bare : ∀ w, (state.windows w).used = false → (state.windows w).fontHandle = 0

/-- What the counts say is about the fonts and the places. -/
theorem FontState.Sound.congr {other : FontState} (hsound : state.Sound pending)
    (hfonts : other.fonts = state.fonts) (hheld : other.held = state.held) :
    other.Sound pending := by
  have hcount : other.count = state.count := by
    unfold FontState.count FontState.entryFromHandle
    rw [hfonts]
  refine ⟨?_, ?_, ?_⟩
  · rw [hheld, hcount]
    exact hsound.balanced
  · rw [hfonts]
    exact hsound.alive
  · rw [hfonts]
    exact hsound.distinct

theorem acquire_tidy (htidy : state.Tidy) (luck : Luck) (drive : UInt8) (path : List Char) :
    (vgaFontAcquireHex luck drive path state).1.Tidy := by
  obtain ⟨fonts, hfonts⟩ := acquire_fonts luck drive path state
  rw [hfonts]
  exact ⟨htidy.unlooked, htidy.bare⟩

theorem release_tidy (htidy : state.Tidy) (handle : ℕ) : (vgaFontRelease handle state).Tidy := by
  obtain ⟨fonts, hfonts⟩ := release_fonts handle state
  rw [hfonts]
  exact ⟨htidy.unlooked, htidy.bare⟩

/-- The system font is looked for once, and is not there before. -/
theorem tryInit_sound (hsound : state.Sound []) (htidy : state.Tidy) (luck : SystemLuck) :
    (vgaTryInitSystemFont luck state).Sound [] ∧ (vgaTryInitSystemFont luck state).Tidy ∧
      (vgaTryInitSystemFont luck state).windows = state.windows := by
  unfold vgaTryInitSystemFont
  split
  · exact ⟨hsound, htidy, rfl⟩
  · next hlook =>
    simp only [Bool.or_eq_true, not_or, Bool.not_eq_true] at hlook
    have hnone := htidy.unlooked hlook.1.1
    have hmarked : ({ state with attempted := true } : FontState).Sound [] := hsound.congr rfl rfl
    have hmarked' : ({ state with attempted := true } : FontState).Tidy :=
      ⟨fun hnot ↦ (by cases hnot), htidy.bare⟩
    have hacquired := hmarked.acquire luck.first state.systemDrive state.systemPath
    have htidied := acquire_tidy hmarked' luck.first state.systemDrive state.systemPath
    obtain ⟨fonts, hfonts⟩ := acquire_fonts luck.first state.systemDrive state.systemPath
      { state with attempted := true }
    dsimp only
    split
    · next hfailed =>
      rw [hfailed] at hacquired
      refine ⟨FontState.Sound.cons_zero_iff.mp hacquired, htidied, ?_⟩
      rw [hfonts]
    · next handle hhandle =>
      rw [hhandle] at hacquired
      have hput := hacquired.put system_mem
      have hheld : (vgaFontAcquireHex luck.first state.systemDrive state.systemPath
          { state with attempted := true }).1.held .system = 0 := by
        rw [hfonts]
        exact hnone
      rw [hheld] at hput
      refine ⟨FontState.Sound.cons_zero_iff.mp hput, ⟨fun hnot ↦ ?_, htidied.bare⟩, ?_⟩
      · rw [hfonts] at hnot
        cases hnot
      · rw [hfonts]
        rfl

/-- The system font is acquired for a caller, with a reference in flight. -/
theorem systemAcquire_sound (hsound : state.Sound []) (htidy : state.Tidy) (luck : SystemLuck) :
    (vgaSystemFontAcquire luck state).1.Sound [(vgaSystemFontAcquire luck state).2.getD 0] ∧
      (vgaSystemFontAcquire luck state).1.Tidy ∧
      (vgaSystemFontAcquire luck state).1.windows = state.windows := by
  obtain ⟨hready, htidied, hwindows⟩ := tryInit_sound hsound htidy luck
  unfold vgaSystemFontAcquire
  generalize vgaTryInitSystemFont luck state = ready at hready htidied hwindows
  dsimp only
  split
  · refine ⟨hready.acquire _ _ _, acquire_tidy htidied _ _ _, ?_⟩
    obtain ⟨fonts, hfonts⟩ := acquire_fonts luck.second ready.systemDrive ready.systemPath ready
    rw [hfonts]
    exact hwindows
  · exact ⟨FontState.Sound.cons_zero_iff.mpr hready, htidied, hwindows⟩

/-- Another system font is set, and the one before is released. -/
theorem systemFontSet_sound (hsound : state.Sound []) (htidy : state.Tidy) (luck : Luck)
    (drive : UInt8) (path : List Char) :
    (vgaSystemFontSet luck drive path state).1.Sound [] ∧
      (vgaSystemFontSet luck drive path state).1.Tidy := by
  -- a handle in flight is set, and the one that was set is dropped
  have hset : ∀ (before : FontState) (handle : ℕ) (path : List Char), before.Sound [handle] →
      before.Tidy →
      (if before.systemHandle ≠ 0 then
          vgaFontRelease before.systemHandle (before.setSystem handle drive path)
        else before.setSystem handle drive path).Sound [] ∧
      (if before.systemHandle ≠ 0 then
          vgaFontRelease before.systemHandle (before.setSystem handle drive path)
        else before.setSystem handle drive path).Tidy := by
    intro before handle path hbefore htidied
    have hput : (before.setSystem handle drive path).Sound [before.systemHandle] :=
      (hbefore.put system_mem).congr rfl rfl
    have hnext : (before.setSystem handle drive path).Tidy :=
      ⟨fun hnot ↦ (by cases hnot), htidied.bare⟩
    split_ifs with hold
    · exact ⟨hput.release, release_tidy hnext _⟩
    · rw [not_not] at hold
      rw [hold] at hput
      exact ⟨FontState.Sound.cons_zero_iff.mp hput, hnext⟩
  unfold vgaSystemFontSet
  split
  · exact hset state 0 [] (FontState.Sound.cons_zero_iff.mpr hsound) htidy
  · have hacquired := hsound.acquire luck drive path
    have htidied := acquire_tidy htidy luck drive path
    dsimp only
    split
    · next hfailed =>
      rw [hfailed] at hacquired
      exact ⟨FontState.Sound.cons_zero_iff.mp hacquired, htidied⟩
    · next handle hhandle =>
      rw [hhandle] at hacquired
      exact hset _ handle path hacquired htidied

/-! ### Windows -/

/-- A mark on a window is none of its fonts. -/
theorem held_marked (state : FontState) (w : ℕ) (used active : Bool) :
    ({ state with
      windows := Function.update state.windows w
        { state.windows w with used := used, active := active } } : FontState).held =
          state.held := by
  funext holder
  cases holder with
  | system => rfl
  | window v =>
    by_cases hv : v = w
    · subst hv
      simp only [FontState.held, Function.update_self]
    · simp only [FontState.held, Function.update_of_ne hv]
  | extra v slot =>
    by_cases hv : v = w
    · subst hv
      simp only [FontState.held, Function.update_self]
    · simp only [FontState.held, Function.update_of_ne hv]

theorem FontState.Sound.mark (hsound : state.Sound pending) (w : ℕ) (used active : Bool) :
    ({ state with
      windows := Function.update state.windows w
        { state.windows w with used := used, active := active } } : FontState).Sound pending :=
  hsound.congr rfl (held_marked state w used active)

theorem held_release (handle : ℕ) (state : FontState) :
    (vgaFontRelease handle state).held = state.held := by
  obtain ⟨fonts, hfonts⟩ := release_fonts handle state
  rw [hfonts]
  rfl

theorem windows_release (handle : ℕ) (state : FontState) :
    (vgaFontRelease handle state).windows = state.windows := by
  obtain ⟨fonts, hfonts⟩ := release_fonts handle state
  rw [hfonts]

/-- A handle in flight comes to a place, and the one that was there is released. -/
theorem FontState.Sound.exchange (hsound : state.Sound [handle]) (hholder : holder ∈ holders) :
    ((if state.held holder ≠ 0 then vgaFontRelease (state.held holder) state else state).put
      handle holder).Sound [] := by
  have hput := hsound.put hholder
  split_ifs with hold
  · rw [← release_put]
    exact hput.release
  · rw [not_not] at hold
    rw [hold] at hput
    exact cons_zero_iff.mp hput

/-- A place that gave its handle up holds nothing, and the others hold what they held. -/
theorem held_relinquish (state : FontState) (holder : Holder) :
    (relinquish state holder).held = Function.update state.held holder 0 := by
  unfold relinquish
  split_ifs with hheld
  · rw [held_put, held_release]
  · rw [not_not] at hheld
    rw [← hheld, Function.update_eq_self]

theorem FontState.Sound.relinquish (hsound : state.Sound []) (hholder : holder ∈ holders) :
    (relinquish state holder).Sound [] := by
  have hexchange := (cons_zero_iff.mpr hsound).exchange hholder
  unfold Display.relinquish
  split_ifs with hheld
  · rwa [if_pos hheld] at hexchange
  · exact hsound

theorem relinquish_marks (state : FontState) (holder : Holder) (w : ℕ) :
    ((relinquish state holder).windows w).used = (state.windows w).used ∧
      (relinquish state holder).attempted = state.attempted := by
  unfold relinquish
  split_ifs with hheld
  · obtain ⟨fonts, hfonts⟩ := release_fonts (state.held holder) state
    rw [hfonts]
    cases holder with
    | system => exact ⟨rfl, rfl⟩
    | window v =>
      refine ⟨?_, rfl⟩
      by_cases hw : w = v
      · subst hw
        simp only [FontState.put, Function.update_self]
      · simp only [FontState.put, Function.update_of_ne hw]
    | extra v slot =>
      refine ⟨?_, rfl⟩
      by_cases hw : w = v
      · subst hw
        simp only [FontState.put, Function.update_self]
      · simp only [FontState.put, Function.update_of_ne hw]
  · exact ⟨rfl, rfl⟩

/-- Places give their handles up, one after another. -/
theorem relinquish_all {places : List Holder} (hsound : state.Sound [])
    (hplaces : ∀ place ∈ places, place ∈ holders) :
    (places.foldl relinquish state).Sound [] ∧
      (∀ other, (places.foldl relinquish state).held other =
        if other ∈ places then 0 else state.held other) ∧
      (∀ w, ((places.foldl relinquish state).windows w).used = (state.windows w).used) ∧
      (places.foldl relinquish state).attempted = state.attempted := by
  induction places generalizing state with
  | nil => exact ⟨hsound, fun _ ↦ rfl, fun _ ↦ rfl, rfl⟩
  | cons place places ih =>
    obtain ⟨hlater, hheld, hused, hattempted⟩ :=
      ih (hsound.relinquish (hplaces place List.mem_cons_self))
      fun other hother ↦ hplaces other (List.mem_cons_of_mem _ hother)
    refine ⟨hlater, fun other ↦ ?_, fun w ↦ ?_, ?_⟩
    · rw [List.foldl_cons, hheld, held_relinquish]
      by_cases hother : other ∈ places
      · rw [if_pos hother, if_pos (List.mem_cons_of_mem _ hother)]
      · rw [if_neg hother]
        by_cases hplace : other = place
        · rw [hplace, Function.update_self, if_pos List.mem_cons_self]
        · rw [Function.update_of_ne hplace, if_neg fun hmem ↦
          (List.mem_cons.mp hmem).elim hplace hother]
    · rw [List.foldl_cons, hused, (relinquish_marks state place w).1]
    · rw [List.foldl_cons, hattempted, (relinquish_marks state place 0).2]

/-- A window is closed. -/
theorem freeEntry_sound {w : ℕ} (hsound : state.Sound []) (htidy : state.Tidy)
    (hw : w < USER_GUI_MAX) :
    (userGuiFreeEntry w state).Sound [] ∧ (userGuiFreeEntry w state).Tidy := by
  obtain ⟨hlater, hheld, hused, hattempted⟩ :=
    relinquish_all hsound fun place (hplace : place ∈ windowHolders w) ↦ window_mem hw hplace
  unfold userGuiFreeEntry userGuiReleaseFonts
  generalize (windowHolders w).foldl relinquish state = released at hlater hheld hused hattempted
  dsimp only
  refine ⟨hlater.mark w false false, fun hnot ↦ ?_, fun v hunused ↦ ?_⟩
  · have := hheld .system
    rw [if_neg (by simp [windowHolders])] at this
    exact this.trans (htidy.unlooked (hattempted.symm.trans hnot))
  · have hv := congrFun (held_marked released w false false) (.window v)
    refine hv.trans ?_
    rw [hheld]
    split_ifs with hmem
    · rfl
    · have hne : v ≠ w := by
        rintro rfl
        exact hmem List.mem_cons_self
      dsimp only at hunused
      rw [Function.update_of_ne hne, hused] at hunused
      exact htidy.bare v hunused

/-- A window is made, or is not there again. -/
theorem guiCreate_sound (hsound : state.Sound []) (htidy : state.Tidy) (luck : SystemLuck)
    (title window : Bool) :
    (guiCreate luck title window state).1.Sound [] ∧
      (guiCreate luck title window state).1.Tidy := by
  unfold guiCreate
  split
  · exact ⟨hsound, htidy⟩
  · next w hfound =>
    have hw : w < USER_GUI_MAX := by
      have hmem := List.mem_range'_1.mp (List.mem_of_find?_eq_some hfound)
      unfold USER_GUI_MAX at hmem ⊢
      omega
    have hunused : (state.windows w).used = false := by
      have := List.find?_some hfound
      rwa [Bool.not_eq_true'] at this
    have hmarked := hsound.mark w true false
    have htidied : ({ state with
        windows := Function.update state.windows w
          { state.windows w with used := true, active := false } } : FontState).Tidy := by
      refine ⟨htidy.unlooked, fun v hv ↦ ?_⟩
      dsimp only at hv ⊢
      by_cases hne : v = w
      · rw [hne, Function.update_self] at hv
        cases hv
      · rw [Function.update_of_ne hne] at hv ⊢
        exact htidy.bare v hv
    obtain ⟨hacquired, hlater, hwindows⟩ := systemAcquire_sound hmarked htidied luck
    dsimp only at hacquired hlater hwindows ⊢
    generalize vgaSystemFontAcquire luck _ = acquired at hacquired hlater hwindows ⊢
    have hplace : Holder.window w ∈ holders := window_mem hw List.mem_cons_self
    have hwindow : acquired.1.windows w =
        { state.windows w with used := true, active := false } := by
      rw [hwindows, Function.update_self]
    -- the window had no font when it was not used
    have hput : (acquired.1.put (acquired.2.getD 0) (.window w)).Sound [] := by
      have := hacquired.put hplace
      rw [show acquired.1.held (.window w) = 0 from
        (congrArg GuiWindow.fontHandle hwindow).trans (htidy.bare w hunused)] at this
      exact FontState.Sound.cons_zero_iff.mp this
    have hused : ∀ v, ((acquired.1.put (acquired.2.getD 0) (.window w)).windows v).used = false →
        v ≠ w ∧ (acquired.1.put (acquired.2.getD 0) (.window w)).windows v =
          acquired.1.windows v := by
      intro v hv
      have hne : v ≠ w := by
        rintro rfl
        rw [FontState.put] at hv
        dsimp only at hv
        rw [Function.update_self, hwindow] at hv
        cases hv
      exact ⟨hne, Function.update_of_ne hne _ _⟩
    have hput' : (acquired.1.put (acquired.2.getD 0) (.window w)).Tidy := by
      refine ⟨hlater.unlooked, fun v hv ↦ ?_⟩
      have hsame := (hused v hv).2
      rw [hsame] at hv ⊢
      exact hlater.bare v hv
    split
    · exact freeEntry_sound hput hput' hw
    · refine ⟨hput.mark w _ true, hput'.unlooked, fun v hv ↦ ?_⟩
      generalize acquired.1.put (acquired.2.getD 0) (.window w) = made at hput' hv
      dsimp only at hv ⊢
      by_cases hne : v = w
      · subst hne
        rw [Function.update_self] at hv ⊢
        exact hput'.bare v hv
      · rw [Function.update_of_ne hne] at hv ⊢
        exact hput'.bare v hv

theorem active_window {w : ℕ} (hactive : userGuiActive w state = true) :
    w < USER_GUI_MAX ∧ (state.windows w).used := by
  unfold userGuiActive at hactive
  simp only [Bool.and_eq_true, decide_eq_true_eq] at hactive
  exact hactive.1

/-- A window gets another font, and the one before is released. -/
theorem guiSetFont_sound (hsound : state.Sound []) (htidy : state.Tidy) (granted : Bool) (w : ℕ)
    (request : FontRequest) :
    (guiSetFont granted w request state).1.Sound [] ∧
      (guiSetFont granted w request state).1.Tidy := by
  unfold guiSetFont
  split
  · exact ⟨hsound, htidy⟩
  · next hrefused =>
    simp only [Bool.or_eq_true, not_or, Bool.not_eq_true', Bool.not_eq_false] at hrefused
    obtain ⟨hw, hused⟩ := active_window hrefused.2
    have hplace : Holder.window w ∈ holders := window_mem hw List.mem_cons_self
    -- what is acquired, from whatever path, comes to the window
    have hgiven : ∀ acquired : FontState × Option ℕ, acquired.1.Sound [acquired.2.getD 0] →
        acquired.1.Tidy → acquired.1.windows = state.windows →
        (acquired.2 = none → acquired.1.Sound [] ∧ acquired.1.Tidy) ∧
          ∀ new, acquired.2 = some new → ∀ result : FontState × ℤ,
            result = (let state := acquired.1
              let old := state.held (.window w)
              if old ≠ new then
                ((if old ≠ 0 then vgaFontRelease old state else state).put new (.window w), 0)
              else (vgaFontRelease new state, 0)) → result.1.Sound [] ∧ result.1.Tidy := by
      refine fun acquired hacquired hlater hwindows ↦ ⟨fun hfailed ↦ ?_, ?_⟩
      · rw [hfailed] at hacquired
        exact ⟨FontState.Sound.cons_zero_iff.mp hacquired, hlater⟩
      · rintro new hnew _ rfl
        rw [hnew, Option.getD_some] at hacquired
        dsimp only
        split
        · refine ⟨hacquired.exchange hplace, ?_⟩
          have hreleased : (if acquired.1.held (.window w) ≠ 0 then
              vgaFontRelease (acquired.1.held (.window w)) acquired.1 else acquired.1).Tidy ∧
              (if acquired.1.held (.window w) ≠ 0 then
                vgaFontRelease (acquired.1.held (.window w)) acquired.1 else acquired.1).windows =
                  state.windows := by
            split_ifs
            · exact ⟨release_tidy hlater _, (windows_release _ _).trans hwindows⟩
            · exact ⟨hlater, hwindows⟩
          generalize (if acquired.1.held (.window w) ≠ 0 then
              vgaFontRelease (acquired.1.held (.window w)) acquired.1 else acquired.1) = released
            at hreleased
          refine ⟨hreleased.1.unlooked, fun v hv ↦ ?_⟩
          rw [FontState.put] at hv ⊢
          dsimp only at hv ⊢
          have hne : v ≠ w := by
            rintro rfl
            rw [Function.update_self, hreleased.2] at hv
            dsimp only at hv
            rw [hused] at hv
            cases hv
          rw [Function.update_of_ne hne] at hv ⊢
          exact hreleased.1.bare v hv
        · exact ⟨hacquired.release, release_tidy hlater new⟩
    cases request with
    | system luck =>
      obtain ⟨hacquired, hlater, hwindows⟩ := systemAcquire_sound hsound htidy luck
      obtain ⟨hnone, hsome⟩ := hgiven _ hacquired hlater hwindows
      dsimp only
      split
      · next hfailed => exact hnone hfailed
      · next new hnew => exact hsome new hnew _ rfl
    | custom luck drive path =>
      obtain ⟨fonts, hfonts⟩ := acquire_fonts luck drive path state
      obtain ⟨hnone, hsome⟩ := hgiven _ (hsound.acquire luck drive path)
        (acquire_tidy htidy luck drive path) (by rw [hfonts])
      dsimp only
      split
      · next hfailed => exact hnone hfailed
      · next new hnew => exact hsome new hnew _ rfl

/-! ### The slots of a window -/

theorem findSlot_eq_some {w slot : ℕ}
    (hfound : ((List.range USER_GUI_EXTRA_FONTS).find? fun i ↦ state.held (.extra w i) = handle) =
      some slot) :
    slot < USER_GUI_EXTRA_FONTS ∧ state.held (.extra w slot) = handle := by
  refine ⟨List.mem_range.mp (List.mem_of_find?_eq_some hfound), ?_⟩
  have hslot := List.find?_some hfound
  exact of_decide_eq_true hslot

theorem findSlot_eq_none {w : ℕ} :
    ((List.range USER_GUI_EXTRA_FONTS).find? fun i ↦ state.held (.extra w i) = handle) = none ↔
      ∀ slot < USER_GUI_EXTRA_FONTS, state.held (.extra w slot) ≠ handle := by
  rw [List.find?_eq_none]
  simp only [List.mem_range, decide_eq_true_eq, ne_eq]

theorem held_acquire (luck : Luck) (drive : UInt8) (path : List Char) (state : FontState) :
    (vgaFontAcquireHex luck drive path state).1.held = state.held := by
  obtain ⟨fonts, hfonts⟩ := acquire_fonts luck drive path state
  rw [hfonts]
  rfl

section LoadFont

variable {granted : Bool} {w : ℕ} {asked : Option (List Char)}

/-- A LOAD_FONT that is not asked for a font of a window, or does not get it, fails and changes no
count. -/
theorem loadFont_refused (eax : ℤ) (hsound : state.Sound []) (htidy : state.Tidy)
    (hrefused : ∀ path, granted → userGuiActive w state → asked = some path → path ≠ [] →
      ¬state.Obtainable luck 0 path) :
    (guiLoadFont eax granted luck w asked state).1.Sound [] ∧
      (guiLoadFont eax granted luck w asked state).1.Tidy ∧
      (guiLoadFont eax granted luck w asked state).2 = -1 := by
  unfold guiLoadFont
  split
  · exact ⟨hsound, htidy, rfl⟩
  · next hallowed =>
    simp only [Bool.or_eq_true, not_or, Bool.not_eq_true', Bool.not_eq_false] at hallowed
    split
    · exact ⟨hsound, htidy, rfl⟩
    · next path =>
      split
      · exact ⟨hsound, htidy, rfl⟩
      · next hpath =>
        have hnone : (vgaFontAcquireHex luck 0 path state).2 = none := by
          have := mt acquire_isSome_iff.mp (hrefused path hallowed.1 hallowed.2 rfl hpath)
          rwa [Bool.not_eq_true, Option.isSome_eq_false_iff, Option.isNone_iff_eq_none] at this
        have hacquired := hsound.acquire luck 0 path
        rw [hnone] at hacquired
        dsimp only
        rw [hnone]
        exact ⟨FontState.Sound.cons_zero_iff.mp hacquired, acquire_tidy htidy luck 0 path, rfl⟩

/-- A LOAD_FONT that gets its font asks the slots, and the register of its result. -/
theorem loadFont_obtained {path : List Char} (hgranted : granted) (hactive : userGuiActive w state)
    (hpath : path ≠ []) (hacquired : (vgaFontAcquireHex luck 0 path state).2 = some handle) :
    guiLoadFont SYSCALL_GUI_LOAD_FONT granted luck w (some path) state =
      match (List.range USER_GUI_EXTRA_FONTS).find? fun i ↦ state.held (.extra w i) = handle with
      | some slot => (vgaFontRelease handle (vgaFontAcquireHex luck 0 path state).1, slot + 1)
      | none => ((vgaFontAcquireHex luck 0 path state).1, SYSCALL_GUI_LOAD_FONT) := by
  unfold guiLoadFont
  rw [hgranted, hactive]
  dsimp only
  rw [if_neg (by decide), if_neg hpath, hacquired]
  dsimp only
  rw [held_acquire]
  match (List.range USER_GUI_EXTRA_FONTS).find? fun i ↦ state.held (.extra w i) = handle with
  | some slot =>
    dsimp only
    rw [if_pos (by omega)]
  | none =>
    dsimp only
    rw [if_pos (by decide)]

/-- A LOAD_FONT for a font in a slot of the window returns that slot. -/
theorem loadFont_slotted {path : List Char} (hsound : state.Sound []) (htidy : state.Tidy)
    (hgranted : granted) (hactive : userGuiActive w state) (hpath : path ≠ [])
    (hobtainable : state.Obtainable luck 0 path) (hslotted : state.Slotted w path) :
    (guiLoadFont SYSCALL_GUI_LOAD_FONT granted luck w (some path) state).1.Sound [] ∧
      (guiLoadFont SYSCALL_GUI_LOAD_FONT granted luck w (some path) state).1.Tidy ∧
      ∃ slot i : ℕ, (guiLoadFont SYSCALL_GUI_LOAD_FONT granted luck w (some path) state).2 =
        slot + 1 ∧
        slot < USER_GUI_EXTRA_FONTS ∧
        (guiLoadFont SYSCALL_GUI_LOAD_FONT granted luck w (some path) state).1.entryFromHandle
          ((guiLoadFont SYSCALL_GUI_LOAD_FONT granted luck w (some path) state).1.held
            (.extra w slot)) =
            some i ∧
        ((guiLoadFont SYSCALL_GUI_LOAD_FONT granted luck w (some path) state).1.fonts i).drive = 0 ∧
        ((guiLoadFont SYSCALL_GUI_LOAD_FONT granted luck w (some path) state).1.fonts i).path =
          path := by
  obtain ⟨handle, hacquired⟩ := Option.isSome_iff_exists.mp (acquire_isSome_iff.mpr hobtainable)
  obtain ⟨slot, hslot, i, hentry, hdrive, hsame⟩ := hslotted
  obtain ⟨hheld, hi, hused⟩ := entryFromHandle_eq_some.mp hentry
  have hhandle := hsound.acquire_loaded hi hused hdrive hsame hacquired
  rw [loadFont_obtained hgranted hactive hpath hacquired]
  have hflight := hsound.acquire luck 0 path
  rw [hacquired, Option.getD_some] at hflight
  split
  · next found hfound =>
    obtain ⟨hrange, hfound⟩ := findSlot_eq_some hfound
    obtain ⟨j, hloaded, hfrom, hwhere⟩ := acquire_some hacquired
    obtain ⟨hj, hj', hthere⟩ := entryFromHandle_eq_some.mp hloaded
    -- the slot has a reference besides that in flight
    have hmore : 1 < ((vgaFontAcquireHex luck 0 path state).1.fonts j).refcount := by
      have hcount := hflight.balanced handle (by omega)
      have hplace := @references_pos _ _ _ holders state.held _
        (extra_mem (active_window hactive).1 hrange)
      rw [hj, count_succ hj', if_pos hthere, ← hj, held_acquire, List.count_cons_self,
        List.count_nil]
        at hcount
      rw [hfound] at hplace
      omega
    obtain ⟨hkept, hfrom', hwhere'⟩ := release_kept hloaded hmore
    refine ⟨hflight.release, release_tidy (acquire_tidy htidy luck 0 path) handle, found, j,
      rfl, hrange,
      ?_, hfrom'.trans hfrom, hwhere'.trans hwhere⟩
    dsimp only
    rw [held_release, held_acquire, hfound]
    exact hkept
  · next hnone =>
    rw [findSlot_eq_none] at hnone
    exact absurd (hheld.trans hhandle.symm) (hnone slot hslot)

/-- A font that is acquired and was loaded before is from where it was. -/
theorem acquire_used {i : ℕ} (hused : (state.fonts i).used)
    (hacquired : (vgaFontAcquireHex luck drive path state).2 = some (i + 1)) :
    (state.fonts i).drive = drive ∧ (state.fonts i).path = path := by
  revert hacquired
  unfold vgaFontAcquireHex
  split
  · exact fun hnot ↦ (by cases hnot)
  · split
    · exact fun hnot ↦ (by cases hnot)
    · split
      · next j hfound =>
        intro hacquired
        obtain rfl := Nat.succ.inj (Option.some.inj hacquired)
        exact (findLoaded_eq_some hfound).2.2
      · split
        · exact fun hnot ↦ (by cases hnot)
        · next slot hfree =>
          split_ifs
          · intro hacquired
            obtain rfl := Nat.succ.inj (Option.some.inj hacquired)
            rw [(findFree_eq_some hfree).2] at hused
            cases hused
          · exact fun hnot ↦ (by cases hnot)

/-- A LOAD_FONT that gets a font which no slot of the window holds returns the number of its
call. -/
theorem loadFont_unslotted {path : List Char} (hsound : state.Sound []) (hgranted : granted)
    (hactive : userGuiActive w state) (hpath : path ≠ [])
    (hobtainable : state.Obtainable luck 0 path)
    (hunslotted : ¬state.Slotted w path) :
    (guiLoadFont SYSCALL_GUI_LOAD_FONT granted luck w (some path) state).2 =
      SYSCALL_GUI_LOAD_FONT := by
  obtain ⟨handle, hacquired⟩ := Option.isSome_iff_exists.mp (acquire_isSome_iff.mpr hobtainable)
  rw [loadFont_obtained hgranted hactive hpath hacquired]
  split
  · next found hfound =>
    -- the slot holds a font that was loaded, so it is the one from the path
    obtain ⟨hrange, hfound⟩ := findSlot_eq_some hfound
    obtain ⟨j, hloaded, -, -⟩ := acquire_some hacquired
    obtain ⟨rfl, hj, -⟩ := entryFromHandle_eq_some.mp hloaded
    have hused : (state.fonts j).used := by
      have hcount := hsound.balanced (j + 1) (Nat.succ_ne_zero j)
      have hplace := @references_pos _ _ _ holders state.held _
        (extra_mem (active_window hactive).1 hrange)
      rw [hfound] at hplace
      rw [count_succ hj, List.count_nil] at hcount
      by_contra hunused
      rw [if_neg hunused] at hcount
      omega
    have hfrom := acquire_used hused hacquired
    refine absurd ⟨found, hrange, j, ?_, hfrom⟩ hunslotted
    rw [hfound]
    exact entryFromHandle_eq_some.mpr ⟨rfl, hj, hused⟩
  · rfl

end LoadFont

/-! ### Runs -/

/-- What the steps keep: the counts are right, the places are tidy, and the last LOAD_FONT returned
what it should. -/
structure FontSession.Kept (session : FontSession) : Prop where
  sound : session.state.Sound []
  tidy : session.state.Tidy
  answered : session.Answered

theorem kept_boot : FontSession.boot.Kept where
  sound := by
    refine ⟨fun handle hhandle ↦ ?_, fun i _ hused ↦ (by cases hused),
      fun i _ j _ hused ↦ (by cases hused)⟩
    have hnone : FontSession.boot.state.entryFromHandle handle = none :=
      entryFromHandle_eq_none.mpr fun _ _ _ ↦ rfl
    have hheld : references holders FontSession.boot.state.held handle = 0 := by
      unfold references
      rw [List.countP_eq_zero]
      intro holder _
      have hzero : FontSession.boot.state.held holder = 0 := by cases holder <;> rfl
      rw [hzero, decide_eq_true_eq]
      exact Ne.symm hhandle
    unfold FontState.count
    rw [hnone, hheld]
    rfl
  tidy := ⟨fun _ ↦ rfl, fun _ _ ↦ rfl⟩
  answered := fun _ hanswer ↦ (by cases hanswer)

/-- A harmless action keeps the counts. -/
theorem FontSession.Kept.step {session : FontSession} (hkept : session.Kept) {action : FontAction}
    (hharmless : session.Harmless action) : (session.step action).Kept := by
  cases action with
  | create luck title window =>
    obtain ⟨hsound, htidy⟩ := guiCreate_sound hkept.sound hkept.tidy luck title window
    exact ⟨hsound, htidy, fun _ hanswer ↦ (by cases hanswer)⟩
  | setFont granted w request =>
    obtain ⟨hsound, htidy⟩ := guiSetFont_sound hkept.sound hkept.tidy granted w request
    exact ⟨hsound, htidy, fun _ hanswer ↦ (by cases hanswer)⟩
  | loadFont granted luck w path =>
    by_cases hrefused : ∀ asked, granted → userGuiActive w session.state → path = some asked →
        asked ≠ [] → ¬session.state.Obtainable luck 0 asked
    · obtain ⟨hsound, htidy, hfailed⟩ :=
        loadFont_refused SYSCALL_GUI_LOAD_FONT hkept.sound hkept.tidy hrefused
      refine ⟨hsound, htidy, fun answer hanswer hresult ↦ ?_⟩
      obtain rfl := Option.some.inj hanswer
      exact absurd hfailed hresult
    · push Not at hrefused
      obtain ⟨asked, hgranted, hactive, rfl, hpath, hobtainable⟩ := hrefused
      have hslotted := hharmless asked hgranted hactive rfl hpath hobtainable
      obtain ⟨hsound, htidy, slot, i, hresult, hslot, hentry, hdrive, hsame⟩ :=
        loadFont_slotted hkept.sound hkept.tidy hgranted hactive hpath hobtainable hslotted
      refine ⟨hsound, htidy, fun answer hanswer _ ↦ ?_⟩
      obtain rfl := Option.some.inj hanswer
      exact ⟨slot, i, hresult, hslot, hentry, hdrive, congrArg some hsame.symm⟩
  | close w =>
    have hclosed : (session.step (.close w)).state.Sound [] ∧
        (session.step (.close w)).state.Tidy := by
      unfold FontSession.step
      dsimp only
      split_ifs with hactive
      · exact freeEntry_sound hkept.sound hkept.tidy (active_window hactive).1
      · exact ⟨hkept.sound, hkept.tidy⟩
    exact ⟨hclosed.1, hclosed.2, fun _ hanswer ↦ (by cases hanswer)⟩
  | systemFontSet luck drive path =>
    obtain ⟨hsound, htidy⟩ := systemFontSet_sound hkept.sound hkept.tidy luck drive path
    exact ⟨hsound, htidy, fun _ hanswer ↦ (by cases hanswer)⟩

/-- A LOAD_FONT that returns a slot is harmless. -/
theorem FontSession.Kept.harmless {session : FontSession} (hkept : session.Kept)
    {action : FontAction}
    (hanswered : (session.step action).Answered) : session.Harmless action := by
  cases action with
  | loadFont granted luck w path =>
    rintro asked hgranted hactive rfl hpath hobtainable
    by_contra hunslotted
    have hresult := loadFont_unslotted hkept.sound hgranted hactive hpath hobtainable hunslotted
    obtain ⟨slot, -, hslot, hrange, -⟩ := hanswered _ rfl (by
      dsimp only
      rw [hresult]
      decide)
    have hslot : (137 : ℤ) = slot + 1 := hresult.symm.trans hslot
    unfold USER_GUI_EXTRA_FONTS at hrange
    omega
  | create luck title window => trivial
  | setFont granted w request => trivial
  | close w => trivial
  | systemFontSet luck drive path => trivial

/-- The counts are those of the places that hold a handle, and each LOAD_FONT that does not fail
returns a slot with its font. -/
def FontSession.Correct (session : FontSession) : Prop := session.state.Exact ∧ session.Answered

/-- The counts and the slots are right all along exactly as long as no LOAD_FONT acquires a font
that no slot of its window holds. -/
theorem fontCounts_iff (actions : List FontAction) :
    (∀ count, ((actions.take count).foldl FontSession.step .boot).Correct) ↔
      Allowed FontSession.Harmless FontSession.step .boot actions :=
  forall_iff_allowed
    (fun _ hkept ↦ ⟨exactCounts_iff.mpr ⟨hkept.sound.balanced, hkept.sound.alive⟩, hkept.answered⟩)
    (fun _ _ hkept hcorrect ↦ FontSession.Kept.harmless hkept hcorrect.2)
    (fun _ _ hkept hharmless ↦ hkept.step hharmless) kept_boot

def firstLoad : List FontAction :=
  [.create ⟨false, ⟨false, false⟩, ⟨false, false⟩⟩ true true,
    .loadFont true ⟨true, true⟩ 1 (some "/fonts/unscii-8.hex".toList)]

/-- The first font that a window loads comes to no slot of it. -/
theorem firstLoad_leaks :
    ¬∀ count, ((firstLoad.take count).foldl FontSession.step .boot).Correct := by
  intro hall
  have hanswer : (firstLoad.foldl FontSession.step .boot).answer =
      some ⟨1, some "/fonts/unscii-8.hex".toList, SYSCALL_GUI_LOAD_FONT⟩ := rfl
  obtain ⟨slot, -, hslot, hrange, -⟩ := (hall 2).2 _ hanswer (by decide)
  have hslot : (137 : ℤ) = slot + 1 := hslot
  unfold USER_GUI_EXTRA_FONTS at hrange
  omega

end EynOS.Display
