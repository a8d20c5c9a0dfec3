import Mathlib.Data.List.Basic
import Mathlib.Data.Nat.Init
import Mathlib.Order.Basic

/-!
# Packets of repeated and literal units

The packets of the PackBits coding over units of several bytes: a packet holds up to 128 units as
they are, or one unit and how often it is repeated, behind a control byte. `Packs` says that bytes
are the packets of some data, whichever way the data is cut into packets.

`slice` are the bytes of a part of a list. A list of whole units is the units one after another
(`exists_units`), and its parts of whole units are read as such (`slice_flatten`).
-/

namespace EynOS.Foundation

/-! ### Slices and units -/

section Units

variable {Item : Type} {bytes : List Item} {units : List (List Item)} {size start count : ℕ}

/-- A number of items from an index on. -/
def slice (bytes : List Item) (start count : ℕ) : List Item := (bytes.drop start).take count

theorem length_slice (hinside : start + count ≤ bytes.length) :
    (slice bytes start count).length = count := by
  rw [slice, List.length_take, List.length_drop]
  omega

theorem length_flatten_units (hunits : ∀ unit ∈ units, unit.length = size) :
    units.flatten.length = size * units.length := by
  induction units with
  | nil => rfl
  | cons unit units ih =>
    obtain ⟨hunit, hrest⟩ := List.forall_mem_cons.mp hunits
    rw [List.flatten_cons, List.length_append, hunit, ih hrest, List.length_cons, Nat.mul_succ,
      Nat.add_comm]

/-- Whole units are the units one after another. -/
theorem exists_units (hsize : size ∣ bytes.length) :
    ∃ units : List (List Item), bytes = units.flatten ∧ ∀ unit ∈ units, unit.length = size := by
  obtain ⟨count, hcount⟩ := hsize
  induction count generalizing bytes with
  | zero => exact ⟨[], List.length_eq_zero_iff.mp hcount, fun _ hmem ↦ absurd hmem List.not_mem_nil⟩
  | succ count ih =>
    rw [Nat.mul_succ] at hcount
    have hrest : (bytes.drop size).length = size * count := by
      rw [List.length_drop]
      omega
    obtain ⟨units, hunits, hlengths⟩ := ih hrest
    refine ⟨bytes.take size :: units, ?_, List.forall_mem_cons.mpr ⟨?_, hlengths⟩⟩
    · rw [List.flatten_cons, ← hunits, List.take_append_drop]
    · rw [List.length_take]
      omega

section

variable (hunits : ∀ unit ∈ units, unit.length = size)

include hunits

theorem drop_flatten (start : ℕ) :
    units.flatten.drop (size * start) = (units.drop start).flatten := by
  induction units generalizing start with
  | nil => rw [List.drop_nil, List.flatten_nil, List.drop_nil]
  | cons unit units ih =>
    obtain ⟨hunit, hrest⟩ := List.forall_mem_cons.mp hunits
    cases start with
    | zero => rfl
    | succ start =>
      rw [List.drop_succ_cons, List.flatten_cons, ← ih hrest, List.drop_append, hunit,
        List.drop_eq_nil_of_le (by rw [hunit, Nat.mul_succ]; omega), List.nil_append, Nat.mul_succ,
        Nat.add_sub_cancel]

theorem take_flatten (count : ℕ) :
    units.flatten.take (size * count) = (units.take count).flatten := by
  induction units generalizing count with
  | nil => rw [List.take_nil, List.flatten_nil, List.take_nil]
  | cons unit units ih =>
    obtain ⟨hunit, hrest⟩ := List.forall_mem_cons.mp hunits
    cases count with
    | zero => rfl
    | succ count =>
      rw [List.take_succ_cons, List.flatten_cons, List.flatten_cons, ← ih hrest, List.take_append,
        hunit, List.take_of_length_le (by rw [hunit, Nat.mul_succ]; omega), Nat.mul_succ,
        Nat.add_sub_cancel]

theorem slice_flatten (start count : ℕ) :
    slice units.flatten (size * start) (size * count) =
      ((units.drop start).take count).flatten := by
  rw [slice, drop_flatten hunits, take_flatten fun unit hunit ↦
    hunits unit (List.mem_of_mem_drop hunit)]

end

end Units

/-! ### Packets -/

/-- Units as they are, or a unit that is repeated. -/
inductive Packet
  | literal (units : List (List UInt8))
  | repeated (unit : List UInt8) (count : ℕ)

def Packet.expand : Packet → List UInt8
  | .literal units => units.flatten
  | .repeated unit count => (List.replicate count unit).flatten

/-- The bytes of a packet: the number of units less one, or one less the number of repetitions as
a signed byte, and the units. -/
def Packet.encode : Packet → List UInt8
  | .literal units => UInt8.ofNat (units.length - 1) :: units.flatten
  | .repeated unit count => UInt8.ofNat (257 - count) :: unit

/-- A packet of units of one size, whose number is one that a control byte has. -/
def Packet.Valid (size : ℕ) : Packet → Prop
  | .literal units => 0 < units.length ∧ units.length ≤ 128 ∧ ∀ unit ∈ units, unit.length = size
  | .repeated unit count => 2 ≤ count ∧ count ≤ 128 ∧ unit.length = size

/-- Bytes are the packets of some data. -/
inductive Packs (size : ℕ) : List UInt8 → List UInt8 → Prop
  | nil : Packs size [] []
  | packet {packet : Packet} {encoded data : List UInt8} (hvalid : packet.Valid size)
    (hrest : Packs size encoded data) :
    Packs size (packet.encode ++ encoded) (packet.expand ++ data)

theorem Packet.Valid.length_expand {size : ℕ} {packet : Packet} (hvalid : packet.Valid size) :
    ∃ count, 0 < count ∧ count ≤ 128 ∧ packet.expand.length = size * count := by
  cases packet with
  | literal units =>
    obtain ⟨hsome, hmost, hunits⟩ := hvalid
    exact ⟨units.length, hsome, hmost, length_flatten_units hunits⟩
  | repeated unit count =>
    obtain ⟨hsome, hmost, hunit⟩ := hvalid
    refine ⟨count, Nat.lt_of_lt_of_le (by decide) hsome, hmost, ?_⟩
    have hunits : ∀ other ∈ List.replicate count unit, other.length = size :=
      fun other hother ↦ List.eq_of_mem_replicate hother ▸ hunit
    rw [Packet.expand, length_flatten_units hunits, List.length_replicate]

end EynOS.Foundation
