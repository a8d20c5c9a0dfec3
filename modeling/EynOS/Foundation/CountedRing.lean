import Mathlib.Data.List.Basic
import Mathlib.Data.Nat.ModEq

/-!
# Rings of cells with a fill level

A ring with a position to read from, a position to write to and the number of cells in use. Blocks
of cells are read and written where they do not run past the end of the ring. Where the ring `Fits`
its capacity, `contents` is the list it carries: `consume` drops from its front and `fill` appends
to its end. `pieces` cuts a block at the end of the ring, so that a block that does run past it is
read or written in two pieces.
-/

namespace EynOS.Foundation

variable {Entry : Type*}

/-- The cells of a ring, where to read and to write next, and how many cells are in use. -/
structure CountedRing (Entry : Type*) where
  cells : ℕ → Entry
  readPos : ℕ
  writePos : ℕ
  used : ℕ

namespace CountedRing

/-- The cells in use in the order in which they are read. -/
def contents (capacity : ℕ) (ring : CountedRing Entry) : List Entry :=
  (List.range ring.used).map fun n ↦ ring.cells ((ring.readPos + n) % capacity)

/-- The next cells to read, where they do not run past the end of the ring. -/
def front (ring : CountedRing Entry) (count : ℕ) : List Entry :=
  (List.range count).map fun n ↦ ring.cells (ring.readPos + n)

/-- Give up the next cells to read. -/
def consume (capacity count : ℕ) (ring : CountedRing Entry) : CountedRing Entry :=
  { ring with readPos := (ring.readPos + count) % capacity, used := ring.used - count }

/-- Write entries to the next cells, where they do not run past the end of the ring. -/
def fill (capacity : ℕ) (entries : List Entry) (ring : CountedRing Entry) : CountedRing Entry :=
  { ring with
    cells := fun index ↦
      if ring.writePos ≤ index then (entries[index - ring.writePos]?).getD (ring.cells index)
      else ring.cells index
    writePos := (ring.writePos + entries.length) % capacity
    used := ring.used + entries.length }

/-- The offset and the length of the pieces of a block of cells from a position of the ring. -/
def pieces (capacity start count : ℕ) : List (ℕ × ℕ) :=
  if count = 0 then []
  else if count ≤ capacity - start then [(0, count)]
  else [(0, capacity - start), (capacity - start, count - (capacity - start))]

/-- The positions are in the ring and the fill level leads from one to the other. -/
structure Fits (capacity : ℕ) (ring : CountedRing Entry) : Prop where
  readPos_lt : ring.readPos < capacity
  used_le : ring.used ≤ capacity
  writePos_eq : ring.writePos = (ring.readPos + ring.used) % capacity

variable {capacity count : ℕ} {ring : CountedRing Entry} {entries : List Entry}

/-- A ring carries as many entries as cells are in use. -/
@[simp] theorem length_contents : (ring.contents capacity).length = ring.used := by
  simp [contents]

/-- As many entries are read as are asked for. -/
@[simp] theorem length_front : (ring.front count).length = count := by
  simp [front]

theorem contents_of_used_eq_zero (hused : ring.used = 0) : ring.contents capacity = [] := by
  rw [contents, hused]
  rfl

/-- A ring whose positions are at its start and which has no cells in use. -/
theorem fits_of_empty (hcapacity : 0 < capacity) (hread : ring.readPos = 0)
    (hwrite : ring.writePos = 0) (hused : ring.used = 0) : Fits capacity ring where
  readPos_lt := by
    rw [hread]
    exact hcapacity
  used_le := by
    rw [hused]
    exact Nat.zero_le capacity
  writePos_eq := by
    rw [hread, hwrite, hused]
    exact (Nat.zero_mod capacity).symm

theorem pieces_zero (capacity start : ℕ) : pieces capacity start 0 = [] := rfl

/-- The pieces of a block are the one up to the end of the ring and those of what follows it. -/
theorem pieces_eq_cons {start : ℕ} (hstart : start < capacity) (hpositive : 0 < count)
    (hcount : count ≤ capacity) :
    pieces capacity start count =
      (0, min count (capacity - start)) ::
        (pieces capacity ((start + min count (capacity - start)) % capacity)
          (count - min count (capacity - start))).map
            fun piece ↦ (min count (capacity - start) + piece.1, piece.2) := by
  unfold pieces
  rw [if_neg hpositive.ne']
  by_cases hone : count ≤ capacity - start
  · simp [hone]
  · have hend : start + (capacity - start) = capacity := by omega
    have hrest : count - (capacity - start) ≠ 0 := by omega
    have hfits : count - (capacity - start) ≤ capacity := by omega
    rw [if_neg hone, Nat.min_eq_right (Nat.le_of_not_le hone), hend, Nat.mod_self, if_neg hrest,
      Nat.sub_zero, if_pos hfits]
    simp

/-- The next cells to read are the first entries of the list. -/
theorem front_eq (hused : count ≤ ring.used)
    (hend : ring.readPos + count ≤ capacity) :
    ring.front count = (ring.contents capacity).take count := by
  rw [front, contents, ← List.map_take, List.take_range, Nat.min_eq_left hused]
  refine List.map_congr_left fun n hn ↦ ?_
  have hbound := List.mem_range.mp hn
  rw [Nat.mod_eq_of_lt (by omega)]

/-- What is given up is the front of the list. -/
theorem contents_consume :
    (ring.consume capacity count).contents capacity = (ring.contents capacity).drop count := by
  refine List.ext_getElem ?_ fun n _ _ ↦ ?_
  · rw [length_contents, List.length_drop, length_contents]
    rfl
  · simp only [contents, consume, List.getElem_map, List.getElem_range, List.getElem_drop,
      Nat.mod_add_mod, Nat.add_assoc]

namespace Fits

theorem writePos_lt (hfits : Fits capacity ring) : ring.writePos < capacity := by
  rw [hfits.writePos_eq]
  exact Nat.mod_lt _ (Nat.zero_lt_of_lt hfits.readPos_lt)

/-- Giving cells up leaves the positions in the ring. -/
theorem consume (hfits : Fits capacity ring) (hused : count ≤ ring.used) :
    Fits capacity (ring.consume capacity count) where
  readPos_lt := Nat.mod_lt _ (Nat.zero_lt_of_lt hfits.readPos_lt)
  used_le := (Nat.sub_le _ _).trans hfits.used_le
  writePos_eq := by
    simp only [CountedRing.consume, Nat.mod_add_mod, Nat.add_assoc, Nat.add_sub_of_le hused,
      hfits.writePos_eq]

theorem consume_zero (hfits : Fits capacity ring) : ring.consume capacity 0 = ring := by
  simp only [CountedRing.consume, Nat.add_zero, Nat.sub_zero, Nat.mod_eq_of_lt hfits.readPos_lt]

/-- Giving cells up in two steps. -/
theorem consume_consume (first second : ℕ) (ring : CountedRing Entry) :
    (ring.consume capacity first).consume capacity second =
      ring.consume capacity (first + second) := by
  simp only [CountedRing.consume, Nat.mod_add_mod, Nat.add_assoc, Nat.sub_sub]

/-- Writing entries leaves the positions in the ring. -/
theorem fill (hfits : Fits capacity ring) (hroom : ring.used + entries.length ≤ capacity) :
    Fits capacity (ring.fill capacity entries) where
  readPos_lt := hfits.readPos_lt
  used_le := hroom
  writePos_eq := by
    simp only [CountedRing.fill, hfits.writePos_eq, Nat.mod_add_mod, Nat.add_assoc]

/-- What is written is appended to the list. -/
theorem contents_fill (hfits : Fits capacity ring)
    (hroom : ring.used + entries.length ≤ capacity)
    (hend : ring.writePos + entries.length ≤ capacity) :
    (ring.fill capacity entries).contents capacity = ring.contents capacity ++ entries := by
  have hwrite := hfits.writePos_eq
  have hread := hfits.readPos_lt
  have hused := hfits.used_le
  -- the position to write to is that of the first cell that is not in use
  have hplace (n : ℕ) (hn : n < capacity) : (ring.readPos + n) % capacity =
      if ring.readPos + n < capacity then ring.readPos + n else ring.readPos + n - capacity := by
    split_ifs with hlow
    · exact Nat.mod_eq_of_lt hlow
    · rw [Nat.mod_eq_sub_mod (by omega), Nat.mod_eq_of_lt (by omega)]
  refine List.ext_getElem ?_ fun n hfilled happended ↦ ?_
  · simp [CountedRing.fill]
  · rw [length_contents] at hfilled
    have hn : n < ring.used + entries.length := hfilled
    have hcell : ((ring.fill capacity entries).contents capacity)[n] =
        (ring.fill capacity entries).cells ((ring.readPos + n) % capacity) := by
      simp [contents, CountedRing.fill]
    rw [hcell, List.getElem_append]
    split_ifs with hold
    · rw [length_contents] at hold
      have hlist : (ring.contents capacity)[n] = ring.cells ((ring.readPos + n) % capacity) := by
        simp [contents]
      rw [hlist]
      simp only [CountedRing.fill]
      split_ifs with hbehind
      · have hbeyond : entries.length ≤ (ring.readPos + n) % capacity - ring.writePos := by
          rw [hplace n (by omega)] at hbehind ⊢
          by_cases hfull : ring.used = capacity
          · omega
          · rw [hplace _ (by omega)] at hwrite
            split_ifs at hwrite hbehind ⊢ <;> omega
        rw [List.getElem?_eq_none hbeyond]
        rfl
      · rfl
    · rw [length_contents] at hold
      have hindex : (ring.readPos + n) % capacity = ring.writePos + (n - ring.used) := by
        rw [hplace n (by omega)]
        rw [hplace _ (by omega)] at hwrite
        split_ifs at hwrite ⊢ <;> omega
      simp only [CountedRing.fill, hindex]
      rw [if_pos (Nat.le_add_right _ _), Nat.add_sub_cancel_left,
        List.getElem?_eq_getElem (by omega)]
      simp

end Fits

end CountedRing

end EynOS.Foundation
