import Mathlib.Data.List.Basic
import Mathlib.Data.Nat.ModEq

/-!
# Ring buffers with valid bits

A ring of slots, each marked valid or not, that a producer fills at the tail and a consumer empties
by scanning from the head for a valid slot. `RingBuffer.Holds` says that the valid slots are those
from the head up to the tail and carry a list in order. Under it `enqueue` appends to the list, or
refuses when every slot is taken, `dequeue` takes the first packet and `toList` reads the list.
-/

namespace EynOS.Foundation

variable {Packet : Type*}

/-- A slot of a ring. The packet of a slot that is not valid means nothing. -/
structure Slot (Packet : Type*) where
  valid : Bool
  packet : Packet

/-- The slots of a ring by index, the slot to scan from and the slot to fill next. -/
structure RingBuffer (Packet : Type*) where
  slot : ℕ → Slot Packet
  head : ℕ
  tail : ℕ

namespace RingBuffer

/-- Fill the slot at the tail, unless it is taken. -/
def enqueue (capacity : ℕ) (ring : RingBuffer Packet) (packet : Packet) :
    Option (RingBuffer Packet) :=
  if (ring.slot ring.tail).valid then none
  else some { ring with
    slot := Function.update ring.slot ring.tail { valid := true, packet := packet }
    tail := (ring.tail + 1) % capacity }

/-- The first valid slot among a number of slots from the `n`-th after the head. -/
def firstValid (capacity : ℕ) (ring : RingBuffer Packet) : ℕ → ℕ → Option ℕ
  | 0, _ => none
  | remaining + 1, n =>
    let index := (ring.head + n) % capacity
    if (ring.slot index).valid then some index else firstValid capacity ring remaining (n + 1)

/-- Take the packet of the first valid slot from the head. -/
def dequeue (capacity : ℕ) (ring : RingBuffer Packet) : Option (Packet × RingBuffer Packet) :=
  (ring.firstValid capacity capacity 0).map fun index ↦
    ((ring.slot index).packet,
      { ring with
        slot := Function.update ring.slot index { ring.slot index with valid := false }
        head := (index + 1) % capacity })

/-- Take the packet of the slot at the head, if it is valid. -/
def takeHead (capacity : ℕ) (ring : RingBuffer Packet) : Option (Packet × RingBuffer Packet) :=
  if (ring.slot ring.head).valid then
    some ((ring.slot ring.head).packet,
      { ring with
        slot := Function.update ring.slot ring.head { ring.slot ring.head with valid := false }
        head := (ring.head + 1) % capacity })
  else none

/-- The packets of the valid slots in the order of a scan from the head. -/
def toList (capacity : ℕ) (ring : RingBuffer Packet) : List Packet :=
  (List.range capacity).filterMap fun n ↦
    let slot := ring.slot ((ring.head + n) % capacity)
    if slot.valid then some slot.packet else none

/-- The valid slots of the ring are those from the head up to the tail, and hold a list. -/
structure Holds (capacity : ℕ) (ring : RingBuffer Packet) (contents : List Packet) : Prop where
  head_lt : ring.head < capacity
  length_le : contents.length ≤ capacity
  tail_eq : ring.tail = (ring.head + contents.length) % capacity
  filled : ∀ n packet, contents[n]? = some packet →
    ring.slot ((ring.head + n) % capacity) = ⟨true, packet⟩
  vacant : ∀ n, contents.length ≤ n → n < capacity →
    (ring.slot ((ring.head + n) % capacity)).valid = false

variable {capacity : ℕ} {ring : RingBuffer Packet} {contents : List Packet} {packet : Packet}

/-- Different places of the ring are different slots. -/
theorem index_injective {start first second : ℕ} (hfirst : first < capacity)
    (hsecond : second < capacity)
    (hindex : (start + first) % capacity = (start + second) % capacity) : first = second :=
  Nat.ModEq.eq_of_lt_of_lt (Nat.ModEq.add_left_cancel' start hindex) hfirst hsecond

/-- A ring whose slots are all invalid and whose head and tail agree is empty. -/
theorem holds_nil (hhead : ring.head < capacity) (htail : ring.tail = ring.head)
    (hslots : ∀ index < capacity, (ring.slot index).valid = false) : Holds capacity ring [] where
  head_lt := hhead
  length_le := Nat.zero_le capacity
  tail_eq := by rw [htail, List.length_nil, Nat.add_zero, Nat.mod_eq_of_lt hhead]
  filled := by simp
  vacant := fun _ _ _ ↦ hslots _ (Nat.mod_lt _ (Nat.zero_lt_of_lt hhead))

/-- A ring with a slot left takes a packet at the end of its list. -/
theorem Holds.enqueue (hholds : Holds capacity ring contents) (hroom : contents.length < capacity)
    (packet : Packet) :
    ∃ filled, ring.enqueue capacity packet = some filled ∧
      Holds capacity filled (contents ++ [packet]) := by
  have htail : (ring.slot ring.tail).valid = false := by
    rw [hholds.tail_eq]
    exact hholds.vacant _ (le_refl _) hroom
  refine ⟨{ ring with
    slot := Function.update ring.slot ring.tail { valid := true, packet := packet }
    tail := (ring.tail + 1) % capacity }, ?_, hholds.head_lt, ?_, ?_, ?_, ?_⟩
  · rw [RingBuffer.enqueue, htail]
    rfl
  · rw [List.length_append, List.length_singleton]
    exact hroom
  · simp only [hholds.tail_eq, List.length_append, List.length_singleton, Nat.mod_add_mod,
      Nat.add_assoc]
  · intro n other hother
    by_cases hlast : n = contents.length
    · subst hlast
      rw [List.getElem?_append_right (le_refl _), Nat.sub_self, List.getElem?_cons_zero,
        Option.some.injEq] at hother
      simp [hholds.tail_eq, hother]
    · have hold : contents[n]? = some other := by
        have hbound := (List.getElem?_eq_some_iff.mp hother).1
        rw [List.length_append, List.length_singleton] at hbound
        rwa [List.getElem?_append_left (by omega)] at hother
      have hn := (List.getElem?_eq_some_iff.mp hold).1
      simp only [Function.update_apply, hholds.tail_eq]
      rw [if_neg fun hsame ↦ hlast (index_injective (by omega) hroom hsame)]
      exact hholds.filled n other hold
  · intro n hlow hhigh
    rw [List.length_append, List.length_singleton] at hlow
    simp only [Function.update_apply, hholds.tail_eq]
    rw [if_neg fun hsame ↦ by have := index_injective hhigh hroom hsame; omega]
    exact hholds.vacant n (by omega) hhigh

/-- A ring whose slots are all taken refuses. -/
theorem Holds.enqueue_full (hholds : Holds capacity ring contents)
    (hfull : contents.length = capacity) (packet : Packet) :
    ring.enqueue capacity packet = none := by
  have hpositive : 0 < contents.length := by
    have := hholds.head_lt
    omega
  have hfirst := hholds.filled 0 contents[0] (List.getElem?_eq_getElem hpositive)
  have htail : ring.tail = (ring.head + 0) % capacity := by
    rw [hholds.tail_eq, hfull, Nat.add_mod_right, Nat.add_zero]
  rw [RingBuffer.enqueue, htail, hfirst]
  rfl

/-- There is nothing to take from an empty ring. -/
theorem Holds.dequeue_nil (hholds : Holds capacity ring []) : ring.dequeue capacity = none := by
  have hscan (remaining : ℕ) : ∀ n, n + remaining = capacity →
      ring.firstValid capacity remaining n = none := by
    induction remaining with
    | zero => exact fun _ _ ↦ rfl
    | succ remaining ih =>
      intro n hn
      rw [firstValid, hholds.vacant n (Nat.zero_le n) (by omega)]
      exact ih (n + 1) (by omega)
  rw [RingBuffer.dequeue, hscan capacity 0 (Nat.zero_add capacity)]
  rfl

/-- The first packet of the list is taken first. -/
theorem Holds.dequeue_cons (hholds : Holds capacity ring (packet :: contents)) :
    ∃ rest, ring.dequeue capacity = some (packet, rest) ∧ Holds capacity rest contents := by
  have hhead := hholds.head_lt
  have hlength := hholds.length_le
  rw [List.length_cons] at hlength
  have hslot : ring.slot ring.head = ⟨true, packet⟩ := by
    have hfirst := hholds.filled 0 packet rfl
    rwa [Nat.add_zero, Nat.mod_eq_of_lt hhead] at hfirst
  have hscan : ring.firstValid capacity capacity 0 = some ring.head := by
    obtain ⟨slots, rfl⟩ : ∃ slots, capacity = slots + 1 := ⟨capacity - 1, by omega⟩
    rw [firstValid, Nat.add_zero, Nat.mod_eq_of_lt hhead, hslot]
    rfl
  have hshift (n : ℕ) : ((ring.head + 1) % capacity + n) % capacity =
      (ring.head + (n + 1)) % capacity := by
    rw [Nat.mod_add_mod, Nat.add_assoc, Nat.add_comm 1 n]
  have hother {n : ℕ} (hn : n + 1 < capacity) : (ring.head + (n + 1)) % capacity ≠ ring.head := by
    intro hsame
    have hindex : (ring.head + (n + 1)) % capacity = (ring.head + 0) % capacity := by
      rw [hsame, Nat.add_zero, Nat.mod_eq_of_lt hhead]
    exact Nat.succ_ne_zero n (index_injective hn (by omega) hindex)
  refine ⟨_, by rw [RingBuffer.dequeue, hscan, Option.map_some, hslot], ?_, by omega, ?_, ?_, ?_⟩
  · exact Nat.mod_lt _ (by omega)
  · dsimp only
    rw [hshift, hholds.tail_eq, List.length_cons]
  · intro n other hentry
    have hn := (List.getElem?_eq_some_iff.mp hentry).1
    dsimp only
    rw [hshift, Function.update_of_ne (hother (by omega))]
    exact hholds.filled (n + 1) other (by rwa [List.getElem?_cons_succ])
  · intro n hlow hhigh
    dsimp only
    rw [hshift]
    by_cases hlast : n + 1 = capacity
    · have hwrap : (ring.head + (n + 1)) % capacity = ring.head := by
        rw [hlast, Nat.add_mod_right, Nat.mod_eq_of_lt hhead]
      rw [hwrap, Function.update_self]
    · rw [Function.update_of_ne (hother (by omega))]
      exact hholds.vacant (n + 1) (by rw [List.length_cons]; omega) (by omega)

/-- In a ring that holds a list, a scan for a valid slot ends at the head. -/
theorem Holds.takeHead_eq (hholds : Holds capacity ring contents) :
    ring.takeHead capacity = ring.dequeue capacity := by
  have hhead := hholds.head_lt
  have hindex : (ring.head + 0) % capacity = ring.head := by
    rw [Nat.add_zero, Nat.mod_eq_of_lt hhead]
  cases contents with
  | nil =>
    have hvacant := hholds.vacant 0 (Nat.le_refl 0) (by omega)
    rw [hindex] at hvacant
    rw [hholds.dequeue_nil, takeHead, hvacant]
    exact if_neg Bool.false_ne_true
  | cons packet contents =>
    have hslot := hholds.filled 0 packet rfl
    rw [hindex] at hslot
    have hvalid : (ring.slot ring.head).valid = true := by rw [hslot]
    obtain ⟨slots, rfl⟩ : ∃ slots, capacity = slots + 1 := ⟨capacity - 1, by omega⟩
    rw [takeHead, if_pos hvalid, dequeue, firstValid, hindex, if_pos hvalid, Option.map_some]

/-- Reading a list entry by entry, past its end too, gives the list. -/
theorem filterMap_range (contents : List Packet) (extra : ℕ) :
    (List.range (contents.length + extra)).filterMap (fun n ↦ contents[n]?) = contents := by
  induction contents with
  | nil => simp
  | cons packet contents ih =>
    rw [List.length_cons, Nat.succ_add_eq_add_succ, Nat.add_succ, List.range_succ_eq_map]
    simpa [List.filterMap_map, Function.comp_def] using ih

/-- A scan reads the list that the ring holds. -/
theorem Holds.toList_eq (hholds : Holds capacity ring contents) :
    ring.toList capacity = contents := by
  have hentry : ∀ n ∈ List.range capacity,
      (if (ring.slot ((ring.head + n) % capacity)).valid then
        some (ring.slot ((ring.head + n) % capacity)).packet else none) = contents[n]? := by
    intro n hn
    rw [List.mem_range] at hn
    by_cases hshort : n < contents.length
    · rw [hholds.filled n contents[n] (List.getElem?_eq_getElem hshort),
        List.getElem?_eq_getElem hshort, if_pos rfl]
    · rw [hholds.vacant n (by omega) hn, List.getElem?_eq_none (by omega), if_neg (by simp)]
  have hextra : capacity = contents.length + (capacity - contents.length) := by
    have := hholds.length_le
    omega
  rw [toList, List.filterMap_congr hentry]
  conv_lhs => rw [hextra]
  exact filterMap_range contents _

end RingBuffer

end EynOS.Foundation
