import EynOS.Foundation.Reader
import Mathlib.Data.List.Forall2

/-!
# Blocks of bytes placed in a memory

A memory is a function from addresses to bytes, and `Reader.Holds` says which bytes it holds from an
address on. `write` puts bytes into a memory; what is behind them stays (`write_of_le`).

Blocks that stand one behind another are found at their `positions`: `forall₂_positions` reads them
back one by one, and `pairwise_regions` says that no two of them overlap. `readWords` reads 32-bit
values, the lowest byte first.
-/

namespace EynOS.Foundation

open Reader

/-- Bytes are written from an address on. -/
def write (memory : ℕ → UInt8) (start : ℕ) (bytes : List UInt8) : ℕ → UInt8 := fun address ↦
  if start ≤ address then bytes.getD (address - start) (memory address) else memory address

/-- The 32-bit value at an address, the lowest byte first. -/
def wordAt (memory : ℕ → UInt8) (address : ℕ) : ℕ :=
  doubleWord (memory (address + 3)) (memory (address + 2)) (memory (address + 1)) (memory address)

/-- The 32-bit values from an address on. -/
def readWords (memory : ℕ → UInt8) : ℕ → ℕ → List ℕ
  | _, 0 => []
  | start, count + 1 => wordAt memory start :: readWords memory (start + 4) count

/-- Where blocks are that stand one behind another. -/
def positions : ℕ → List (List UInt8) → List ℕ
  | _, [] => []
  | start, block :: blocks => start :: positions (start + block.length) blocks

/-- A range of addresses: where it starts, and its length. -/
structure Region where
  start : ℕ
  length : ℕ
deriving DecidableEq

/-- Two ranges have no address in common. -/
def Region.Apart (first second : Region) : Prop :=
  first.start + first.length ≤ second.start ∨ second.start + second.length ≤ first.start

/-- The ranges of blocks at given addresses. -/
def regions (addresses : List ℕ) (blocks : List (List UInt8)) : List Region :=
  List.zipWith (fun address block ↦ { start := address, length := block.length }) addresses blocks

variable {memory : ℕ → UInt8} {start address count : ℕ} {bytes : List UInt8}
  {blocks more : List (List UInt8)} {words : List ℕ} {region : Region}

/-! ### Writing -/

theorem write_of_le (haddress : start + bytes.length ≤ address) :
    write memory start bytes address = memory address := by
  rw [write, if_pos (by omega)]
  exact List.getD_eq_default _ _ (by omega)

theorem holds_write : Holds (write memory start bytes) start bytes := by
  intro index hindex
  rw [write, if_pos (Nat.le_add_right _ _), Nat.add_sub_cancel_left]
  exact List.getD_eq_getElem _ _ hindex

/-! ### Reading words -/

theorem wordAt_of_holds {value : ℕ} (hholds : Holds memory start (le32 value))
    (hvalue : value < 4294967296) : wordAt memory start = value := by
  obtain ⟨hfirst, hrest⟩ := holds_cons.mp hholds
  obtain ⟨hsecond, hrest⟩ := holds_cons.mp hrest
  obtain ⟨hthird, hrest⟩ := holds_cons.mp hrest
  have hfourth := (holds_cons.mp hrest).1
  rw [wordAt, hfirst, hsecond, hthird, hfourth, doubleWord_be32, Nat.mod_eq_of_lt hvalue]

/-- Values that are held one behind another are read. -/
theorem readWords_of_holds (hholds : Holds memory start (words.map le32).flatten)
    (hwords : ∀ value ∈ words, value < 4294967296) :
    readWords memory start words.length = words := by
  induction words generalizing start with
  | nil => rfl
  | cons value words ih =>
    rw [List.map_cons, List.flatten_cons, holds_append] at hholds
    have hvalue := wordAt_of_holds hholds.1 (hwords value List.mem_cons_self)
    have hrest := ih hholds.2 fun other hother ↦ hwords other (List.mem_cons_of_mem _ hother)
    rw [List.length_cons, readWords, hvalue]
    exact congrArg _ hrest

theorem take_readWords {more : ℕ} :
    (readWords memory start (count + more)).take count = readWords memory start count := by
  induction count generalizing start with
  | zero => rw [List.take_zero, readWords]
  | succ count ih => rw [Nat.succ_add, readWords, List.take_succ_cons, ih, readWords]

/-! ### Blocks one behind another -/

@[simp] theorem length_positions : (positions start blocks).length = blocks.length := by
  induction blocks generalizing start with
  | nil => rfl
  | cons block blocks ih => exact congrArg Nat.succ ih

theorem positions_append : positions start (blocks ++ more) =
    positions start blocks ++ positions (start + blocks.flatten.length) more := by
  induction blocks generalizing start with
  | nil => rfl
  | cons block blocks ih =>
    rw [List.cons_append, positions, ih, positions, List.cons_append, List.flatten_cons,
      List.length_append, Nat.add_assoc]

theorem forall₂_positions (hholds : Holds memory start blocks.flatten) :
    List.Forall₂ (Holds memory) (positions start blocks) blocks := by
  induction blocks generalizing start with
  | nil => exact .nil
  | cons block blocks ih =>
    rw [List.flatten_cons, holds_append] at hholds
    exact .cons hholds.1 (ih hholds.2)

/-- Every block starts between the start of the first and the end of the last. -/
theorem within_of_mem_positions (haddress : address ∈ positions start blocks) :
    start ≤ address ∧ address ≤ start + blocks.flatten.length := by
  induction blocks generalizing start with
  | nil => exact absurd haddress List.not_mem_nil
  | cons block blocks ih =>
    rw [List.flatten_cons, List.length_append]
    rcases List.mem_cons.mp haddress with rfl | hrest
    · exact ⟨Nat.le_refl _, Nat.le_add_right _ _⟩
    · have hwithin := ih hrest
      omega

/-- A block lies between the start of the first and the end of the last. -/
theorem within_of_mem_regions (hregion : region ∈ regions (positions start blocks) blocks) :
    start ≤ region.start ∧ region.start + region.length ≤ start + blocks.flatten.length := by
  induction blocks generalizing start with
  | nil => exact absurd hregion List.not_mem_nil
  | cons block blocks ih =>
    rw [List.flatten_cons, List.length_append]
    rcases List.mem_cons.mp hregion with rfl | hrest
    · exact ⟨Nat.le_refl _, by dsimp only; omega⟩
    · have hwithin := ih hrest
      omega

/-- No two blocks overlap. -/
theorem pairwise_regions : (regions (positions start blocks) blocks).Pairwise Region.Apart := by
  induction blocks generalizing start with
  | nil => exact .nil
  | cons block blocks ih =>
    refine .cons (fun region hregion ↦ .inl ?_) ih
    exact (within_of_mem_regions hregion).1

end EynOS.Foundation
