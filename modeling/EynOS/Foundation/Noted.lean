import Mathlib.Data.List.Basic

/-!
# Stateful programs that note what they observe

A noted program reads and writes a state, ends with a result and leaves the list of the notes that
it made on the way. Some notes carry what the program relies on at that moment, others what it
guarantees: `Leads assumed promised program state post` says that, from a state, each promise is
kept as long as every assumption noted before it holds, and that the program then ends as `post`
says. The rules are equivalences for the primitive programs and for sequencing, so a program is
taken apart by rewriting; `Leads.mono` weakens what holds at the end, and `Leads.all` reads the
promises off a whole execution.
-/

namespace EynOS.Foundation

/-- A program over a state that notes observations. -/
def Noted (State Note Result : Type) : Type := State → List Note × Result × State

namespace Noted

variable {State Note Result Next Item : Type}

instance : Monad (Noted State Note) where
  pure result := fun state ↦ ([], result, state)
  bind program continuation := fun state ↦
    match program state with
    | (notes, result, middle) =>
      match continuation result middle with
      | (later, ending) => (notes ++ later, ending)

/-- The state. -/
def look : Noted State Note State := fun state ↦ ([], state, state)

def change (update : State → State) : Noted State Note Unit := fun state ↦ ([], (), update state)

def note (observe : State → Note) : Noted State Note Unit :=
    fun state ↦ ([observe state], (), state)

/-- Each promise is kept while the assumptions noted before it hold, and so is what comes last. -/
def Kept (assumed promised : Note → Prop) : List Note → Prop → Prop
  | [], last => last
  | note :: notes, last => assumed note → promised note ∧ Kept assumed promised notes last

/-- A program keeps its promises from a state, under its assumptions, and ends as described. -/
structure Leads (assumed promised : Note → Prop) (program : Noted State Note Result)
    (state : State) (post : Result → State → Prop) : Prop where
  kept : Kept assumed promised (program state).1 (post (program state).2.1 (program state).2.2)

variable {assumed promised : Note → Prop} {program : Noted State Note Result}
  {continuation : Result → Noted State Note Next} {state : State}
  {post : Result → State → Prop}

theorem look_bind (continuation : State → Noted State Note Next) (state : State) :
    (look >>= continuation) state = continuation state state :=
  rfl

theorem kept_append {notes later : List Note} {last : Prop} :
    Kept assumed promised (notes ++ later) last ↔
      Kept assumed promised notes (Kept assumed promised later last) := by
  induction notes with
  | nil => exact Iff.rfl
  | cons note notes ih => exact imp_congr_right fun _ ↦ and_congr_right fun _ ↦ ih

theorem Kept.mono {notes : List Note} {first last : Prop} (hlast : first → last)
    (hkept : Kept assumed promised notes first) : Kept assumed promised notes last := by
  induction notes with
  | nil => exact hlast hkept
  | cons note notes ih => exact fun hnote ↦ ⟨(hkept hnote).1, ih (hkept hnote).2⟩

/-- Where every assumption holds, every promise and the last statement do. -/
theorem Kept.all {notes : List Note} {last : Prop} (hkept : Kept assumed promised notes last)
    (hassumed : ∀ note ∈ notes, assumed note) : (∀ note ∈ notes, promised note) ∧ last := by
  induction notes with
  | nil => exact ⟨fun _ hnote ↦ absurd hnote List.not_mem_nil, hkept⟩
  | cons note notes ih =>
    obtain ⟨hfirst, hrest⟩ := hkept (hassumed note List.mem_cons_self)
    obtain ⟨hnotes, hlast⟩ := ih hrest fun other hother ↦
      hassumed other (List.mem_cons_of_mem note hother)
    exact ⟨List.forall_mem_cons.mpr ⟨hfirst, hnotes⟩, hlast⟩

@[simp] theorem leads_pure (result : Result) :
    Leads assumed promised (pure result) state post ↔ post result state :=
  ⟨fun hleads ↦ hleads.kept, fun hpost ↦ ⟨hpost⟩⟩

@[simp] theorem leads_look {post : State → State → Prop} :
    Leads assumed promised look state post ↔ post state state :=
  ⟨fun hleads ↦ hleads.kept, fun hpost ↦ ⟨hpost⟩⟩

@[simp] theorem leads_change (update : State → State) {post : Unit → State → Prop} :
    Leads assumed promised (change update) state post ↔ post () (update state) :=
  ⟨fun hleads ↦ hleads.kept, fun hpost ↦ ⟨hpost⟩⟩

@[simp] theorem leads_note (observe : State → Note) {post : Unit → State → Prop} :
    Leads assumed promised (note observe) state post ↔
      (assumed (observe state) → promised (observe state) ∧ post () state) :=
  ⟨fun hleads ↦ hleads.kept, fun hpost ↦ ⟨hpost⟩⟩

/-- Sequencing: the second part is taken from where the first one ends. -/
@[simp] theorem leads_bind {post : Next → State → Prop} :
    Leads assumed promised (program >>= continuation) state post ↔
      Leads assumed promised program state fun result middle ↦
        Leads assumed promised (continuation result) middle post := by
  constructor
  · intro hleads
    exact ⟨(kept_append.mp hleads.kept).mono .mk⟩
  · intro hleads
    exact ⟨kept_append.mpr (hleads.kept.mono Leads.kept)⟩

@[simp] theorem leads_ite (condition : Prop) [Decidable condition]
    (first second : Noted State Note Result) :
    Leads assumed promised (if condition then first else second) state post ↔
      (condition → Leads assumed promised first state post) ∧
        (¬condition → Leads assumed promised second state post) := by
  by_cases hcondition : condition <;> simp [hcondition]

theorem Leads.mono {weaker : Result → State → Prop}
    (hleads : Leads assumed promised program state post)
    (hpost : ∀ result after, post result after → weaker result after) :
    Leads assumed promised program state weaker :=
  ⟨hleads.kept.mono (hpost _ _)⟩

/-- What a program guarantees in an execution in which all its assumptions hold. -/
theorem Leads.all (hleads : Leads assumed promised program state post)
    (hassumed : ∀ note ∈ (program state).1, assumed note) :
    (∀ note ∈ (program state).1, promised note) ∧
      post (program state).2.1 (program state).2.2 :=
  hleads.kept.all hassumed

end Noted

end EynOS.Foundation
