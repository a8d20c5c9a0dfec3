import EynOS.Foundation.References
import EynOS.Foundation.Run
import Mathlib.Data.Int.Notation

/-!
# Loaded fonts

The registry of fonts of `vga.c` with `vga_font_acquire_hex`, `vga_font_release` and the system
font, and what `isr.c` does with it: windows are made, get fonts by SYSCALL_GUI_SET_FONT and
SYSCALL_GUI_LOAD_FONT, and are closed. Handle 0 is no font. Reading a font file and taking memory
for it either succeeds or fails.
-/

namespace EynOS.Display

open Foundation

def VGA_FONT_MAX : ℕ := 12

def USER_GUI_MAX : ℕ := 8

def USER_GUI_EXTRA_FONTS : ℕ := 8

def VGA_SCALABLE_GLYPH_H_MIN : ℕ := 6

def VGA_SCALABLE_GLYPH_H_MAX : ℕ := 64

/-! ### Paths -/

def vgaAsciiToLower (c : Char) : Char :=
  if 'A' ≤ c ∧ c ≤ 'Z' then Char.ofNat (c.toNat + 32) else c

def vgaStrEndsWithICase (s suffix : List Char) : Bool :=
  if suffix.length = 0 ∨ s.length < suffix.length then false
  else (s.drop (s.length - suffix.length)).map vgaAsciiToLower = suffix.map vgaAsciiToLower

/-- The number that digits stand for, none if another character is there or it gets too large. -/
def glyphHeight : List Char → ℕ → Option ℕ
  | [], glyphH => some glyphH
  | c :: digits, glyphH =>
    if ¬c.isDigit then none
    else
      let glyphH := glyphH * 10 + (c.toNat - 48)
      if VGA_SCALABLE_GLYPH_H_MAX < glyphH then none else glyphHeight digits glyphH

/-- A path without the height behind its last at sign, if one is given. -/
def vgaFontPrepareOpenPath (path : List Char) : Option (List Char) :=
  if 127 < path.length then none
  else
    let hint := (path.reverse.takeWhile (· ≠ '@')).reverse
    if hint.length = path.length ∨ hint = [] then some path
    else
      match glyphHeight hint 0 with
      | none => some path
      | some glyphH =>
        if VGA_SCALABLE_GLYPH_H_MIN ≤ glyphH ∧ glyphH ≤ VGA_SCALABLE_GLYPH_H_MAX then
          some (path.take (path.length - hint.length - 1))
        else some path

def isFontPath (path : List Char) : Bool :=
  match vgaFontPrepareOpenPath path with
  | none => false
  | some openPath =>
    path ≠ [] ∧ (vgaStrEndsWithICase openPath ".hex".toList ∨
      vgaStrEndsWithICase openPath ".otf".toList ∨ vgaStrEndsWithICase openPath ".ttf".toList)

/-! ### The registry -/

structure FontEntry where
  used : Bool
  drive : UInt8
  refcount : ℕ
  path : List Char

structure GuiWindow where
  used : Bool
  active : Bool
  fontHandle : ℕ
  extraFontHandles : ℕ → ℕ

structure FontState where
  fonts : ℕ → FontEntry
  windows : ℕ → GuiWindow
  systemHandle : ℕ
  attempted : Bool
  systemDrive : UInt8
  systemPath : List Char

/-- What holds a handle: the system font, the font of a window, or one of its slots. -/
inductive Holder where
  | system
  | window (w : ℕ)
  | extra (w slot : ℕ)
deriving DecidableEq

def FontState.held (state : FontState) : Holder → ℕ
  | .system => state.systemHandle
  | .window w => (state.windows w).fontHandle
  | .extra w slot => (state.windows w).extraFontHandles slot

/-- A handle is written to its holder. -/
def FontState.put (state : FontState) (handle : ℕ) : Holder → FontState
  | .system => { state with systemHandle := handle }
  | .window w =>
    { state with
      windows := Function.update state.windows w { state.windows w with fontHandle := handle } }
  | .extra w slot =>
    { state with
      windows := Function.update state.windows w { state.windows w with
        extraFontHandles := Function.update (state.windows w).extraFontHandles slot handle } }

def FontState.entryFromHandle (state : FontState) (handle : ℕ) : Option ℕ :=
  if handle = 0 ∨ VGA_FONT_MAX < handle then none
  else if (state.fonts (handle - 1)).used then some (handle - 1)
  else none

def FontState.writeEntry (state : FontState) (index : ℕ) (entry : FontEntry) : FontState :=
  { state with fonts := Function.update state.fonts index entry }

/-- Whether the caller may, and whether the file and the memory for a font are there. -/
structure Luck where
  granted : Bool
  loads : Bool

def FontState.findLoaded (state : FontState) (drive : UInt8) (path : List Char) : Option ℕ :=
  (List.range VGA_FONT_MAX).find? fun i ↦
    (state.fonts i).used && (state.fonts i).drive = drive && (state.fonts i).path = path

def FontState.findFree (state : FontState) : Option ℕ :=
  (List.range VGA_FONT_MAX).find? fun i ↦ !(state.fonts i).used

/-- The handle of a font, with another reference to it. -/
def vgaFontAcquireHex (luck : Luck) (drive : UInt8) (path : List Char) (state : FontState) :
    FontState × Option ℕ :=
  if !luck.granted then (state, none)
  else if !isFontPath path then (state, none)
  else
    match state.findLoaded drive path with
    | some i =>
      let e := state.fonts i
      (if e.refcount < 0xFFFF then state.writeEntry i { e with refcount := e.refcount + 1 }
        else state,
        some (i + 1))
    | none =>
      match state.findFree with
      | none => (state, none)
      | some slot =>
        if luck.loads then (state.writeEntry slot ⟨true, drive, 1, path⟩, some (slot + 1))
        else (state.writeEntry slot ⟨false, 0, 0, []⟩, none)

def vgaFontRelease (handle : ℕ) (state : FontState) : FontState :=
  match state.entryFromHandle handle with
  | none => state
  | some i =>
    let e := state.fonts i
    let refcount := e.refcount - 1
    if refcount = 0 then state.writeEntry i ⟨false, 0, 0, []⟩
    else state.writeEntry i { e with refcount := refcount }

/-! ### The system font -/

/-- Whether a file system is found, and how the first load and the one after it go. -/
structure SystemLuck where
  detected : Bool
  first : Luck
  second : Luck

def vgaTryInitSystemFont (luck : SystemLuck) (state : FontState) : FontState :=
  if state.attempted || state.systemPath = [] || !luck.detected then state
  else
    let state := { state with attempted := true }
    let acquired := vgaFontAcquireHex luck.first state.systemDrive state.systemPath state
    match acquired.2 with
    | none => acquired.1
    | some handle => acquired.1.put handle .system

def vgaSystemFontAcquire (luck : SystemLuck) (state : FontState) : FontState × Option ℕ :=
  let state := vgaTryInitSystemFont luck state
  if state.systemHandle ≠ 0 then
    vgaFontAcquireHex luck.second state.systemDrive state.systemPath state
  else (state, none)

def FontState.setSystem (state : FontState) (handle : ℕ) (drive : UInt8) (path : List Char) :
    FontState :=
  { state.put handle .system with attempted := true, systemDrive := drive, systemPath := path }

def vgaSystemFontSet (luck : Luck) (drive : UInt8) (path : List Char) (state : FontState) :
    FontState × ℤ :=
  if path = [] ∨ path = "builtin".toList then
    let old := state.systemHandle
    let state := state.setSystem 0 drive []
    (if old ≠ 0 then vgaFontRelease old state else state, 0)
  else
    let acquired := vgaFontAcquireHex luck drive path state
    match acquired.2 with
    | none => (acquired.1, -1)
    | some handle =>
      let old := acquired.1.systemHandle
      let state := acquired.1.setSystem handle drive path
      (if old ≠ 0 then vgaFontRelease old state else state, 0)

/-! ### Windows -/

def windowHolders (w : ℕ) : List Holder :=
  .window w :: (List.range USER_GUI_EXTRA_FONTS).map (.extra w)

/-- A holder gives its handle up. -/
def relinquish (state : FontState) (holder : Holder) : FontState :=
  if state.held holder ≠ 0 then (vgaFontRelease (state.held holder) state).put 0 holder else state

def userGuiReleaseFonts (w : ℕ) (state : FontState) : FontState :=
  (windowHolders w).foldl relinquish state

def userGuiFreeEntry (w : ℕ) (state : FontState) : FontState :=
  let state := userGuiReleaseFonts w state
  { state with
    windows :=
      Function.update state.windows w { state.windows w with used := false, active := false } }

def userGuiActive (w : ℕ) (state : FontState) : Bool :=
  w < USER_GUI_MAX && (state.windows w).used && (state.windows w).active

/-- A window is made, with the system font; the title and the window itself may fail. -/
def guiCreate (luck : SystemLuck) (title window : Bool) (state : FontState) : FontState × ℤ :=
  match (List.range' 1 (USER_GUI_MAX - 1)).find? fun w ↦ !(state.windows w).used with
  | none => (state, -1)
  | some w =>
    let state := { state with
      windows := Function.update state.windows w
        { state.windows w with used := true, active := false } }
    let acquired := vgaSystemFontAcquire luck state
    let state := acquired.1.put (acquired.2.getD 0) (.window w)
    if !title || !window then (userGuiFreeEntry w state, -1)
    else
      ({ state with
        windows := Function.update state.windows w { state.windows w with active := true } }, w)

/-- The font that is asked for: that of the system, or one from a path. -/
inductive FontRequest where
  | system (luck : SystemLuck)
  | custom (luck : Luck) (drive : UInt8) (path : List Char)

/-- SYSCALL_GUI_SET_FONT with its path resolved. -/
def guiSetFont (granted : Bool) (w : ℕ) (request : FontRequest) (state : FontState) :
    FontState × ℤ :=
  if !granted || !userGuiActive w state then (state, -1)
  else
    let acquired := match request with
      | .system luck => vgaSystemFontAcquire luck state
      | .custom luck drive path => vgaFontAcquireHex luck drive path state
    match acquired.2 with
    | none => (acquired.1, -1)
    | some new =>
      let state := acquired.1
      let old := state.held (.window w)
      if old ≠ new then
        ((if old ≠ 0 then vgaFontRelease old state else state).put new (.window w), 0)
      else (vgaFontRelease new state, 0)

def SYSCALL_GUI_LOAD_FONT : ℤ := 137

/-- SYSCALL_GUI_LOAD_FONT: `eax` is what the register of the result holds at the beginning, which is
the number of the call; no path is a null pointer or a copy that fails. -/
def guiLoadFont (eax : ℤ) (granted : Bool) (luck : Luck) (w : ℕ) (path : Option (List Char))
    (state : FontState) : FontState × ℤ :=
  if !granted || !userGuiActive w state then (state, -1)
  else
    match path with
    | none => (state, -1)
    | some path =>
      if path = [] then (state, -1)
      else
        let acquired := vgaFontAcquireHex luck 0 path state
        match acquired.2 with
        | none => (acquired.1, -1)
        | some new =>
          let state := acquired.1
          let found := (List.range USER_GUI_EXTRA_FONTS).find? fun i ↦ state.held (.extra w i) = new
          let (state, eax) : FontState × ℤ := match found with
            | some i => (vgaFontRelease new state, i + 1)
            | none => (state, eax)
          if 0 < eax then (state, eax)
          else
            match (List.range USER_GUI_EXTRA_FONTS).find? fun i ↦ state.held (.extra w i) = 0 with
            | none => (vgaFontRelease new state, -1)
            | some slot => (state.put new (.extra w slot), slot + 1)

/-! ### Runs -/

inductive FontAction where
  | create (luck : SystemLuck) (title window : Bool)
  | setFont (granted : Bool) (w : ℕ) (request : FontRequest)
  | loadFont (granted : Bool) (luck : Luck) (w : ℕ) (path : Option (List Char))
  | close (w : ℕ)
  | systemFontSet (luck : Luck) (drive : UInt8) (path : List Char)

/-- The window and the path of a LOAD_FONT, and what it returned. -/
structure LoadAnswer where
  w : ℕ
  path : Option (List Char)
  result : ℤ

/-- The fonts and windows, and the answer if the last action was a LOAD_FONT. -/
structure FontSession where
  state : FontState
  answer : Option LoadAnswer

def FontSession.step (session : FontSession) : FontAction → FontSession
  | .create luck title window => ⟨(guiCreate luck title window session.state).1, none⟩
  | .setFont granted w request => ⟨(guiSetFont granted w request session.state).1, none⟩
  | .loadFont granted luck w path =>
    let loaded := guiLoadFont SYSCALL_GUI_LOAD_FONT granted luck w path session.state
    ⟨loaded.1, some ⟨w, path, loaded.2⟩⟩
  | .close w =>
    ⟨if userGuiActive w session.state then userGuiFreeEntry w session.state
      else session.state, none⟩
  | .systemFontSet luck drive path => ⟨(vgaSystemFontSet luck drive path session.state).1, none⟩

/-- The start: no font is loaded, no window is there, and the system font was not looked for. -/
def FontSession.boot : FontSession where
  state :=
    { fonts := fun _ ↦ ⟨false, 0, 0, []⟩
      windows := fun _ ↦ ⟨false, false, 0, fun _ ↦ 0⟩
      systemHandle := 0
      attempted := false
      systemDrive := 0
      systemPath := "/fonts/unscii-16.hex".toList }
  answer := none

def holders : List Holder := .system :: (List.range USER_GUI_MAX).flatMap windowHolders

/-- The number of holders that name a handle. -/
def FontState.holding (state : FontState) (handle : ℕ) : ℕ := references holders state.held handle

/-- The references of a font that is loaded are those that hold its handle, and one of them is
there; only loaded fonts are held. -/
def FontState.Exact (state : FontState) : Prop :=
  ∀ handle, handle ≠ 0 →
    match state.entryFromHandle handle with
    | some i => 0 < state.holding handle ∧ (state.fonts i).refcount = state.holding handle
    | none => state.holding handle = 0

/-- A LOAD_FONT that did not fail has returned a slot that holds the font it was asked for. -/
def FontSession.Answered (session : FontSession) : Prop :=
  ∀ answer, session.answer = some answer → answer.result ≠ -1 →
    ∃ slot i : ℕ, answer.result = slot + 1 ∧ slot < USER_GUI_EXTRA_FONTS ∧
      session.state.entryFromHandle (session.state.held (.extra answer.w slot)) = some i ∧
      (session.state.fonts i).drive = 0 ∧ answer.path = some (session.state.fonts i).path

/-- Whether a font can be acquired: it is loaded, or there is room for it and it loads. -/
def FontState.Obtainable (state : FontState) (luck : Luck) (drive : UInt8)
    (path : List Char) : Prop :=
  luck.granted ∧ isFontPath path ∧
    ((∃ i < VGA_FONT_MAX, (state.fonts i).used ∧ (state.fonts i).drive = drive ∧
        (state.fonts i).path = path) ∨
      luck.loads ∧ ∃ i < VGA_FONT_MAX, (state.fonts i).used = false)

/-- Whether a slot of a window holds the font of a path. -/
def FontState.Slotted (state : FontState) (w : ℕ) (path : List Char) : Prop :=
  ∃ slot < USER_GUI_EXTRA_FONTS, ∃ i,
    state.entryFromHandle (state.held (.extra w slot)) = some i ∧ (state.fonts i).drive = 0 ∧
      (state.fonts i).path = path

/-- A LOAD_FONT for a window that is there cannot acquire its font, or the window has it in a
slot. -/
def FontSession.Harmless (session : FontSession) : FontAction → Prop
  | .loadFont granted luck w path =>
    ∀ asked, granted → userGuiActive w session.state → path = some asked → asked ≠ [] →
      session.state.Obtainable luck 0 asked → session.state.Slotted w asked
  | .create _ _ _ => True
  | .setFont _ _ _ => True
  | .close _ => True
  | .systemFontSet _ _ _ => True

end EynOS.Display
