import EynOS.Foundation.MachineWord
import EynOS.Foundation.Traced
import Mathlib.Data.List.GetD
import Mathlib.Data.Nat.Init

/-!
# Programs that read a buffer

A reader is a traced program whose accesses are the indices of the bytes that it reads.
`ReadsBelow` is the total correctness of one: it reads nothing at or behind a bound, and it ends
with a result that has a property. There is one rule for each way to put readers together. A loop
without a bound of its own is given a number of turns; `ReadsBelow.turns` proves it inside that
number by a measure that every further turn makes smaller.
-/

namespace EynOS.Foundation

open Traced

/-- Why a reader may end without a result. -/
inductive Unfinished
  | turns

/-- A program that reads bytes by their indices. -/
abbrev Reader (Result : Type) := Traced ℕ Unfinished Result

namespace Reader

variable {Result Next State : Type}

/-! ### Reading -/

def readByte (buffer : ℕ → UInt8) (index : ℕ) : Reader UInt8 :=
  accessing index (buffer index)

def readBytes (buffer : ℕ → UInt8) (start count : ℕ) : Reader (List UInt8) :=
  { accesses := List.range' start count
    outcome := .ok ((List.range' start count).map buffer) }

/-- Read a 16-bit value, the high byte first. -/
def readBe16 (buffer : ℕ → UInt8) (index : ℕ) : Reader ℕ := do
  let high ← readByte buffer index
  let low ← readByte buffer (index + 1)
  pure (word high low)

/-- Read a 32-bit value, the high byte first. -/
def readBe32 (buffer : ℕ → UInt8) (index : ℕ) : Reader ℕ := do
  let first ← readByte buffer index
  let second ← readByte buffer (index + 1)
  let third ← readByte buffer (index + 2)
  let fourth ← readByte buffer (index + 3)
  pure (doubleWord first second third fourth)

/-- A loop that leaves with a result, with a bound on its turns. -/
def turns (body : State → Reader (Result ⊕ State)) : ℕ → State → Reader Result
  | 0, _ => fail .turns
  | bound + 1, state => do
    match ← body state with
    | .inl result => pure result
    | .inr next => turns body bound next

/-! ### What is read -/

variable {buffer : ℕ → UInt8} {start count index len bound : ℕ} {result : Result}

@[simp] theorem yields_readByte {byte : UInt8} :
    (readByte buffer index).Yields byte ↔ buffer index = byte :=
  yields_accessing _ _ _

@[simp] theorem yields_readBytes {bytes : List UInt8} :
    (readBytes buffer start count).Yields bytes ↔ (List.range' start count).map buffer = bytes := by
  simp [Yields, readBytes]

@[simp] theorem yields_readBe16 {value : ℕ} :
    (readBe16 buffer index).Yields value ↔ word (buffer index) (buffer (index + 1)) = value := by
  simp [readBe16, yields_bind]

@[simp] theorem yields_readBe32 {value : ℕ} :
    (readBe32 buffer index).Yields value ↔
      doubleWord (buffer index) (buffer (index + 1)) (buffer (index + 2)) (buffer (index + 3)) =
        value := by
  simp [readBe32, yields_bind]

/-! ### Bytes in a buffer -/

/-- A buffer holds bytes from an index on. -/
def Holds (buffer : ℕ → UInt8) (start : ℕ) (bytes : List UInt8) : Prop :=
  ∀ index, (h : index < bytes.length) → buffer (start + index) = bytes[index]

variable {byte : UInt8} {bytes first second : List UInt8}

theorem holds_nil : Holds buffer start [] :=
  fun _ hindex ↦ absurd hindex (Nat.not_lt_zero _)

theorem holds_cons :
    Holds buffer start (byte :: bytes) ↔ buffer start = byte ∧ Holds buffer (start + 1) bytes := by
  constructor
  · refine fun hholds ↦ ⟨hholds 0 (Nat.succ_pos _), fun index hindex ↦ ?_⟩
    rw [Nat.add_assoc, Nat.add_comm 1 index]
    exact hholds (index + 1) (Nat.succ_lt_succ hindex)
  · rintro ⟨hbyte, hholds⟩ index hindex
    cases index with
    | zero => exact hbyte
    | succ index =>
      have hrest := hholds index (Nat.lt_of_succ_lt_succ hindex)
      rwa [Nat.add_assoc, Nat.add_comm 1 index] at hrest

theorem holds_append :
    Holds buffer start (first ++ second) ↔
      Holds buffer start first ∧ Holds buffer (start + first.length) second := by
  induction first generalizing start with
  | nil => simp [holds_nil]
  | cons byte first ih =>
    rw [List.cons_append, holds_cons, holds_cons, ih, List.length_cons, and_assoc, Nat.add_assoc,
      Nat.add_comm 1 first.length]

/-- A list is held by the buffer that it is the start of. -/
theorem holds_getD (bytes : List UInt8) : Holds (bytes.getD · 0) 0 bytes := fun index hindex ↦ by
  rw [Nat.zero_add]
  exact List.getD_eq_getElem _ _ hindex

theorem Holds.readBytes (hholds : Holds buffer start bytes) :
    (Reader.readBytes buffer start bytes.length).Yields bytes := by
  rw [yields_readBytes]
  refine List.ext_getElem (by simp) fun index hindex hbound ↦ ?_
  rw [List.getElem_map, List.getElem_range', Nat.one_mul]
  exact hholds index hbound

theorem Holds.readBe16 {value : ℕ} (hholds : Holds buffer start (be16 value))
    (hvalue : value < 65536) : (Reader.readBe16 buffer start).Yields value := by
  obtain ⟨hhigh, hrest⟩ := holds_cons.mp hholds
  rw [yields_readBe16, hhigh, (holds_cons.mp hrest).1, word_be16, Nat.mod_eq_of_lt hvalue]

/-! ### Total correctness -/

/-- A reader stays below a bound and ends with a result that has a property. -/
def ReadsBelow (len : ℕ) (program : Reader Result) (post : Result → Prop) : Prop :=
  program.Satisfies (· < len) ∧ ∃ result, program.Yields result ∧ post result

namespace ReadsBelow

variable {program : Reader Result} {continuation : Result → Reader Next} {post : Result → Prop}
  {later : Next → Prop}

theorem pure (hresult : post result) : ReadsBelow len (pure result : Reader Result) post :=
  ⟨satisfies_pure result, result, rfl, hresult⟩

/-- Sequencing: the second part starts from what the first one yields. -/
theorem bind (hprogram : ReadsBelow len program post)
    (hcontinuation : ∀ result, post result → ReadsBelow len (continuation result) later) :
    ReadsBelow len (program >>= continuation) later := by
  obtain ⟨hreads, result, hyields, hpost⟩ := hprogram
  obtain ⟨hnext, next, hnextYields, hlater⟩ := hcontinuation result hpost
  refine ⟨satisfies_bind.mpr ⟨hreads, fun other hother ↦ ?_⟩, next,
    yields_bind.mpr ⟨result, hyields, hnextYields⟩, hlater⟩
  rwa [hother.unique hyields]

theorem mono {weaker : Result → Prop} (hprogram : ReadsBelow len program post)
    (hweaker : ∀ result, post result → weaker result) : ReadsBelow len program weaker := by
  obtain ⟨hreads, result, hyields, hpost⟩ := hprogram
  exact ⟨hreads, result, hyields, hweaker result hpost⟩

theorem ite {condition : Prop} [Decidable condition] {other : Reader Result}
    (hthen : condition → ReadsBelow len program post)
    (helse : ¬condition → ReadsBelow len other post) :
    ReadsBelow len (if condition then program else other) post := by
  by_cases hcondition : condition
  · rw [if_pos hcondition]
    exact hthen hcondition
  · rw [if_neg hcondition]
    exact helse hcondition

theorem readByte (hindex : index < len) :
    ReadsBelow len (readByte buffer index) (· = buffer index) :=
  ⟨(satisfies_accessing _ _).mpr hindex, _, rfl, rfl⟩

theorem readBytes (hcount : start + count ≤ len) :
    ReadsBelow len (readBytes buffer start count)
      (· = (List.range' start count).map buffer) := by
  refine ⟨fun index hindex ↦ ?_, _, rfl, rfl⟩
  obtain ⟨offset, hoffset, rfl⟩ := List.mem_range'.mp hindex
  omega

theorem readBe16 (hindex : index + 1 < len) :
    ReadsBelow len (readBe16 buffer index)
      (· = word (buffer index) (buffer (index + 1))) := by
  refine (readByte (Nat.lt_of_succ_lt hindex)).bind fun high hhigh ↦ ?_
  refine (readByte hindex).bind fun low hlow ↦ .pure ?_
  rw [hhigh, hlow]

theorem readBe32 (hindex : index + 3 < len) :
    ReadsBelow len (readBe32 buffer index) fun _ ↦ True := by
  refine (readByte (by omega)).bind fun _ _ ↦ (readByte (by omega)).bind fun _ _ ↦ ?_
  exact (readByte (by omega)).bind fun _ _ ↦ (readByte hindex).bind fun _ _ ↦ .pure trivial

/-- The rule of a loop: an invariant, and a measure below the number of turns that every further
turn makes smaller. -/
theorem turns {body : State → Reader (Result ⊕ State)} (invariant : State → Prop)
    (measure : State → ℕ)
    (hbody : ∀ state, invariant state → ReadsBelow len (body state) fun turn ↦
      match turn with
      | .inl result => post result
      | .inr next => invariant next ∧ measure next < measure state)
    {state : State} (hstate : invariant state) (hbound : measure state < bound) :
    ReadsBelow len (turns body bound state) post := by
  induction bound generalizing state with
  | zero => exact absurd hbound (Nat.not_lt_zero _)
  | succ bound ih =>
    refine (hbody state hstate).bind fun turn hturn ↦ ?_
    cases turn with
    | inl result => exact .pure hturn
    | inr next => exact ih hturn.1 (by omega)

end ReadsBelow

theorem yields_turns_mono {body : State → Reader (Result ⊕ State)} {state : State} {more : ℕ}
    (hyields : (turns body bound state).Yields result) (hmore : bound ≤ more) :
    (turns body more state).Yields result := by
  induction bound generalizing state more with
  | zero => exact absurd hyields (yields_fail _ _)
  | succ bound ih =>
    obtain ⟨more, rfl⟩ := Nat.exists_eq_add_of_le' (Nat.lt_of_lt_of_le (Nat.succ_pos bound) hmore)
    obtain ⟨turn, hturn, hrest⟩ := yields_bind.mp hyields
    refine yields_bind.mpr ⟨turn, hturn, ?_⟩
    cases turn with
    | inl left => exact hrest
    | inr next => exact ih hrest (Nat.le_of_succ_le_succ hmore)

end Reader

end EynOS.Foundation
