import Mathlib.Data.List.Range

/-!
# memcpy and memmove

The functions of `util.c` that copy bytes, on a memory of 32-bit addresses. `memcpy` copies some
bytes first where one of its addresses is not at a multiple of four, words after them, and the bytes
that are left at the end; `memmove` copies backwards where the source is before a destination that
it overlaps, and calls `memcpy` otherwise.

`Copied` is the invariant of all of these loops: the bytes of a window of the destination have been
copied from the old memory and every other byte is old. A copy extends the window at either end
where what it loads is not in the window. `memmove_copies` is the result.
-/

namespace EynOS.Memory.MemoryFunctions

abbrev Bytes : Type := UInt32 → UInt8

/-- The bytes of a `uint32_t`. -/
abbrev Word : Type := Fin 4 → UInt8

def loadWord (memory : Bytes) (address : UInt32) : Word :=
  fun byte ↦ memory (address + UInt32.ofNat byte.val)

def storeWord (memory : Bytes) (address : UInt32) (word : Word) : Bytes :=
  fun other ↦
    if hbyte : (other - address).toNat < 4 then word ⟨(other - address).toNat, hbyte⟩
    else memory other

/-- `dest[i] = src[i]` for some indices, one after the other. -/
def copyBytes (dest src : UInt32) (indices : List ℕ) (memory : Bytes) : Bytes :=
  indices.foldl
    (fun memory index ↦ Function.update memory (dest + UInt32.ofNat index)
      (memory (src + UInt32.ofNat index)))
    memory

/-- `dst32[i] = src32[i]` for a number of words. -/
def copyWords (dst32 src32 : UInt32) (words : ℕ) (memory : Bytes) : Bytes :=
  (List.range words).foldl
    (fun memory index ↦ storeWord memory (dst32 + UInt32.ofNat (4 * index))
      (loadWord memory (src32 + UInt32.ofNat (4 * index))))
    memory

/-- `memcpy`: the memory after it. -/
def memcpy (dest src n : UInt32) (memory : Bytes) : Bytes :=
  let unalignedStart :=
    if src.toNat % 4 ≠ 0 ∨ dest.toNat % 4 ≠ 0 then min (4 - src.toNat % 4) n.toNat else 0
  let words := (n.toNat - unalignedStart) / 4
  let remaining := n.toNat - unalignedStart - words * 4
  let started := copyBytes dest src (List.range unalignedStart) memory
  let copied := copyWords (dest + UInt32.ofNat unalignedStart) (src + UInt32.ofNat unalignedStart)
    words started
  copyBytes dest src ((List.range remaining).map fun index ↦ unalignedStart + words * 4 + index)
    copied

/-- `memmove`: the memory after it. -/
def memmove (dest src n : UInt32) (memory : Bytes) : Bytes :=
  if n = 0 then memory
  else if src < dest ∧ dest < src + n then
    copyBytes dest src (List.range n.toNat).reverse memory
  else memcpy dest src n memory

/-! ### Windows -/

def Window (dest : UInt32) (low high : ℕ) (address : UInt32) : Prop :=
  dest.toNat + low ≤ address.toNat ∧ address.toNat < dest.toNat + high

/-- The bytes of a window have been copied, and every other byte is old. -/
structure Copied (dest src : UInt32) (old : Bytes) (low high : ℕ) (memory : Bytes) : Prop where
  inside : ∀ index, low ≤ index → index < high →
    memory (dest + UInt32.ofNat index) = old (src + UInt32.ofNat index)
  outside : ∀ address, ¬Window dest low high address → memory address = old address

variable {dest src n address : UInt32} {old memory : Bytes} {low high index count : ℕ}

theorem toNat_add_ofNat (hwrap : address.toNat + index < 4294967296) :
    (address + UInt32.ofNat index).toNat = address.toNat + index := by
  rw [UInt32.toNat_add, UInt32.toNat_ofNat', Nat.mod_eq_of_lt (by omega : index < 2 ^ 32),
    Nat.mod_eq_of_lt hwrap]

/-- The address of one index is that of another only where the indices are the same. -/
theorem add_ofNat_inj {other : ℕ} (hwrap : address.toNat + index < 4294967296)
    (hother : address.toNat + other < 4294967296) :
    address + UInt32.ofNat index = address + UInt32.ofNat other ↔ index = other := by
  refine ⟨fun heq ↦ ?_, fun heq ↦ heq ▸ rfl⟩
  have hnat := congrArg UInt32.toNat heq
  rw [toNat_add_ofNat hwrap, toNat_add_ofNat hother] at hnat
  omega

theorem add_ofNat_add (address : UInt32) (offset index : ℕ) :
    address + UInt32.ofNat offset + UInt32.ofNat index = address + UInt32.ofNat
      (offset + index) := by
  rw [UInt32.ofNat_add, UInt32.add_assoc]

theorem copied_refl (hempty : low = high) : Copied dest src old low high old where
  inside := fun index hlow hhigh ↦ by omega
  outside := fun _ _ ↦ rfl

/-- A copy of one byte at the end of the window. -/
theorem Copied.push (hcopied : Copied dest src old low high memory) (hle : low ≤ high)
    (hdest : dest.toNat + high < 4294967296)
    (hload : ¬Window dest low high (src + UInt32.ofNat high)) :
    Copied dest src old low (high + 1) (Function.update memory (dest + UInt32.ofNat high)
      (memory (src + UInt32.ofNat high))) where
  inside := by
    intro index hlow hhigh
    by_cases hlast : index = high
    · rw [hlast, Function.update_self, hcopied.outside _ hload]
    · have hother : dest + UInt32.ofNat index ≠ dest + UInt32.ofNat high := fun heq ↦
        hlast ((add_ofNat_inj (by omega) hdest).mp heq)
      rw [Function.update_of_ne hother, hcopied.inside index hlow (by omega)]
  outside := by
    intro address haddress
    have hother : address ≠ dest + UInt32.ofNat high := by
      rintro rfl
      refine haddress ⟨?_, ?_⟩
      · rw [toNat_add_ofNat hdest]
        omega
      · rw [toNat_add_ofNat hdest]
        omega
    rw [Function.update_of_ne hother]
    exact hcopied.outside address fun hwindow ↦ haddress ⟨hwindow.1, by have := hwindow.2; omega⟩

/-- A copy of one byte before the window. -/
theorem Copied.pushFront (hcopied : Copied dest src old (low + 1) high memory) (hlt : low < high)
    (hdest : dest.toNat + high ≤ 4294967296)
    (hload : ¬Window dest (low + 1) high (src + UInt32.ofNat low)) :
    Copied dest src old low high (Function.update memory (dest + UInt32.ofNat low)
      (memory (src + UInt32.ofNat low))) where
  inside := by
    intro index hlow hhigh
    by_cases hfirst : index = low
    · rw [hfirst, Function.update_self, hcopied.outside _ hload]
    · have hother : dest + UInt32.ofNat index ≠ dest + UInt32.ofNat low := fun heq ↦
        hfirst ((add_ofNat_inj (by omega) (by omega)).mp heq)
      rw [Function.update_of_ne hother, hcopied.inside index (by omega) hhigh]
  outside := by
    intro address haddress
    have hother : address ≠ dest + UInt32.ofNat low := by
      rintro rfl
      refine haddress ⟨?_, ?_⟩
      · rw [toNat_add_ofNat (by omega)]
      · rw [toNat_add_ofNat (by omega)]
        omega
    rw [Function.update_of_ne hother]
    exact hcopied.outside address fun hwindow ↦ haddress ⟨by have := hwindow.1; omega, hwindow.2⟩

theorem storeWord_apply (memory : Bytes) (address : UInt32) (word : Word) {byte : ℕ}
    (hbyte : byte < 4) : storeWord memory address word (address + UInt32.ofNat byte) =
      word ⟨byte, hbyte⟩ := by
  have hdistance : (address + UInt32.ofNat byte - address).toNat = byte := by
    rw [UInt32.add_comm, UInt32.add_sub_cancel, UInt32.toNat_ofNat', Nat.mod_eq_of_lt (by omega)]
  rw [storeWord, dif_pos (hdistance.symm ▸ hbyte)]
  exact congrArg word (Fin.ext hdistance)

theorem storeWord_of_outside {other : UInt32} {word : Word} (hwrap : address.toNat + 4 ≤ 4294967296)
    (hother : other.toNat < address.toNat ∨ address.toNat + 4 ≤ other.toNat) :
    storeWord memory address word other = memory other := by
  rw [storeWord, dif_neg]
  intro hinside
  have haddress := address.toNat_lt
  have hlast := other.toNat_lt
  rw [UInt32.toNat_sub] at hinside
  omega

/-- A copy of one word at the end of the window. -/
theorem Copied.pushWord (hcopied : Copied dest src old low high memory) (hle : low ≤ high)
    (hdest : dest.toNat + high + 4 ≤ 4294967296)
    (hload : ∀ byte < 4, ¬Window dest low high (src + UInt32.ofNat (high + byte))) :
    Copied dest src old low (high + 4) (storeWord memory (dest + UInt32.ofNat high)
      (loadWord memory (src + UInt32.ofNat high))) where
  inside := by
    intro index hlow hhigh
    by_cases hword : high ≤ index
    · obtain ⟨byte, rfl⟩ := Nat.exists_eq_add_of_le hword
      have hbyte : byte < 4 := by omega
      rw [← add_ofNat_add, storeWord_apply _ _ _ hbyte, loadWord, add_ofNat_add,
        hcopied.outside _ (hload byte hbyte)]
    · have hindex : (dest + UInt32.ofNat index).toNat = dest.toNat + index :=
        toNat_add_ofNat (by omega)
      have hstart : (dest + UInt32.ofNat high).toNat = dest.toNat + high :=
        toNat_add_ofNat (by omega)
      rw [storeWord_of_outside (by omega) (by omega), hcopied.inside index hlow (by omega)]
  outside := by
    intro address haddress
    have hstart : (dest + UInt32.ofNat high).toNat = dest.toNat + high :=
      toNat_add_ofNat (by omega)
    rw [storeWord_of_outside (by omega)]
    · exact hcopied.outside address fun hwindow ↦ haddress ⟨hwindow.1, by
        have := hwindow.2
        omega⟩
    · by_contra hinside
      exact haddress ⟨by omega, by omega⟩

/-! ### Loops -/

/-- A loop forwards over bytes, where no byte that it loads is in the window. -/
theorem Copied.bytes (hcopied : Copied dest src old 0 high memory)
    (hdest : dest.toNat + high + count ≤ 4294967296)
    (hload : ∀ index < high + count, ¬Window dest 0 index (src + UInt32.ofNat index)) :
    Copied dest src old 0 (high + count)
      (copyBytes dest src ((List.range count).map fun index ↦ high + index) memory) := by
  induction count with
  | zero => exact hcopied
  | succ count ih =>
    have hbefore := ih (by omega) fun index hindex ↦ hload index (by omega)
    rw [List.range_succ, List.map_append, copyBytes, List.foldl_append]
    exact hbefore.push (Nat.zero_le _) (by omega) (hload (high + count) (by omega))

/-- A loop forwards over words, where no byte that it loads is in the window. -/
theorem Copied.words (hcopied : Copied dest src old 0 high memory)
    (hdest : dest.toNat + high + 4 * count ≤ 4294967296)
    (hload : ∀ index byte, index + byte < high + 4 * count →
      ¬Window dest 0 index (src + UInt32.ofNat (index + byte))) :
    Copied dest src old 0 (high + 4 * count)
      (copyWords (dest + UInt32.ofNat high) (src + UInt32.ofNat high) count memory) := by
  induction count with
  | zero => exact hcopied
  | succ count ih =>
    have hbefore := ih (by omega) fun index byte hindex ↦ hload index byte (by omega)
    rw [copyWords, List.range_succ, List.foldl_append, List.foldl_cons, List.foldl_nil,
      add_ofNat_add, add_ofNat_add]
    exact hbefore.pushWord (Nat.zero_le _) (by omega) fun byte hbyte ↦
      hload (high + 4 * count) byte (by omega)

/-- The loop backwards over bytes, where no byte that it loads is in the window. -/
theorem Copied.backwards (hcopied : Copied dest src old count high memory) (hle : count ≤ high)
    (hdest : dest.toNat + high ≤ 4294967296)
    (hload : ∀ index < count, ¬Window dest (index + 1) high (src + UInt32.ofNat index)) :
    Copied dest src old 0 high (copyBytes dest src (List.range count).reverse memory) := by
  induction count generalizing memory with
  | zero => exact hcopied
  | succ count ih =>
    rw [List.range_succ, List.reverse_append, copyBytes]
    refine ih (hcopied.pushFront hle hdest (hload count (Nat.lt_succ_self count)))
      (Nat.le_of_succ_le hle) fun index hindex ↦ hload index (Nat.lt_succ_of_lt hindex)

/-! ### memcpy and memmove -/

/-- `memcpy` copies where the source is not before the destination, or ends before it. -/
theorem memcpy_copied (hdest : dest.toNat + n.toNat ≤ 4294967296)
    (hsrc : src.toNat + n.toNat ≤ 4294967296)
    (hforwards : dest ≤ src ∨ src.toNat + n.toNat ≤ dest.toNat) (memory : Bytes) :
    Copied dest src memory 0 n.toNat (memcpy dest src n memory) := by
  -- what is loaded at an index is not in the window up to it
  have hload (index byte : ℕ) (hinside : index + byte < n.toNat) :
      ¬Window dest 0 index (src + UInt32.ofNat (index + byte)) := by
    rintro ⟨hlow, hhigh⟩
    rw [toNat_add_ofNat (by omega)] at hlow hhigh
    rw [UInt32.le_iff_toNat_le] at hforwards
    omega
  rw [memcpy]
  generalize hstart : (if src.toNat % 4 ≠ 0 ∨ dest.toNat % 4 ≠ 0 then
    min (4 - src.toNat % 4) n.toNat else 0) = unalignedStart
  have hshort : unalignedStart ≤ n.toNat := by
    rw [← hstart]
    split <;> omega
  obtain ⟨words, hwords⟩ : ∃ words, words = (n.toNat - unalignedStart) / 4 := ⟨_, rfl⟩
  obtain ⟨remaining, hremaining⟩ : ∃ remaining,
      remaining = n.toNat - unalignedStart - words * 4 := ⟨_, rfl⟩
  have hwhole : unalignedStart + 4 * words + remaining = n.toNat := by omega
  simp only [← hwords, ← hremaining]
  have hempty : Copied dest src memory 0 0 memory := copied_refl rfl
  have hstarted : Copied dest src memory 0 (0 + unalignedStart)
      (copyBytes dest src ((List.range unalignedStart).map fun index ↦ 0 + index) memory) :=
    hempty.bytes (by omega) fun index hindex ↦ hload index 0 (by omega)
  simp only [Nat.zero_add, List.map_id'] at hstarted
  have hcopied : Copied dest src memory 0 (unalignedStart + 4 * words) _ :=
    hstarted.words (by omega) fun index byte hindex ↦ hload index byte (by omega)
  have hdone : Copied dest src memory 0 (unalignedStart + 4 * words + remaining) _ :=
    hcopied.bytes (by omega) fun index hindex ↦ hload index 0 (by omega)
  rw [hwhole] at hdone
  rwa [Nat.mul_comm words 4]

/-- `memmove` copies all bytes at once: each byte of the destination is the old byte of the source,
and every other byte is unchanged. -/
theorem memmove_copies (hdest : dest.toNat + n.toNat ≤ 4294967296)
    (hsrc : src.toNat + n.toNat < 4294967296) (memory : Bytes) :
    (∀ index < n.toNat, memmove dest src n memory (dest + UInt32.ofNat index) =
        memory (src + UInt32.ofNat index)) ∧
      ∀ address : UInt32, address.toNat < dest.toNat ∨ dest.toNat + n.toNat ≤ address.toNat →
        memmove dest src n memory address = memory address := by
  have hcopied : Copied dest src memory 0 n.toNat (memmove dest src n memory) := by
    rw [memmove]
    have hend : (src + n).toNat = src.toNat + n.toNat := by
      rw [UInt32.toNat_add, Nat.mod_eq_of_lt hsrc]
    split
    · rename_i hzero
      rw [hzero]
      exact copied_refl rfl
    · split
      · rename_i hoverlap
        rw [UInt32.lt_iff_toNat_lt, UInt32.lt_iff_toNat_lt, hend] at hoverlap
        have hempty : Copied dest src memory n.toNat n.toNat memory := copied_refl rfl
        refine hempty.backwards (Nat.le_refl _) hdest fun index hindex hwindow ↦ ?_
        obtain ⟨hlow, -⟩ := hwindow
        rw [toNat_add_ofNat (by omega)] at hlow
        omega
      · rename_i hoverlap
        refine memcpy_copied hdest (Nat.le_of_lt hsrc) ?_ memory
        rw [UInt32.le_iff_toNat_le]
        rw [UInt32.lt_iff_toNat_lt, UInt32.lt_iff_toNat_lt, hend] at hoverlap
        omega
  refine ⟨fun index hindex ↦ hcopied.inside index (Nat.zero_le _) hindex,
    fun address haddress ↦ hcopied.outside address fun hwindow ↦ ?_⟩
  obtain ⟨hlow, hhigh⟩ := hwindow
  omega

/-- Five bytes are moved down by one place, so that each stored word overwrites bytes that were
loaded with it. -/
theorem memmove_copies_overlap :
    (∀ index < 5, memmove 1 2 5 (fun address ↦ address.toUInt8) (1 + UInt32.ofNat index) =
        (2 + UInt32.ofNat index).toUInt8) ∧
      ∀ address : UInt32, address.toNat < 1 ∨ 1 + 5 ≤ address.toNat →
        memmove 1 2 5 (fun address ↦ address.toUInt8) address = address.toUInt8 :=
  have hdest : (1 : UInt32).toNat + (5 : UInt32).toNat ≤ 4294967296 := by decide
  have hsrc : (2 : UInt32).toNat + (5 : UInt32).toNat < 4294967296 := by decide
  memmove_copies hdest hsrc fun address ↦ address.toUInt8

end EynOS.Memory.MemoryFunctions
