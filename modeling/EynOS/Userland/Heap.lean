import EynOS.Foundation.MachineWord
import EynOS.Foundation.Placement
import EynOS.Foundation.Run
import Mathlib.Data.List.Pairwise
import Mathlib.Data.Nat.Bitwise

/-!
# The heap of a user program

`malloc`, `calloc` and `realloc` of `stdlib.c`, which take blocks from the front of an array and
never give one back. Their sums of sizes are sums of 32 bits: `served_iff` says that a program that
stays inside of its blocks is served right all along a run exactly if no such sum wraps to a number
inside of the heap.

Pointers are counted from `g_heap` on; the memory behind the heap belongs to others. Not modelled:
`errno`, which nothing here reads, and `free`, which does nothing.
-/

namespace EynOS.Userland

open Foundation Reader

/-! ### The functions -/

def USERLAND_HEAP_SIZE : ℕ := 1024 * 1024

/-- The memory from `g_heap` on, and `g_heap_used`. -/
structure Heap where
  memory : ℕ → UInt8
  used : UInt32

def alignUp (v a : UInt32) : UInt32 := (v + (a - 1)) &&& ~~~(a - 1)

def memset (memory : ℕ → UInt8) (dst : ℕ) (v : UInt8) (n : ℕ) : ℕ → UInt8 := fun place ↦
  if dst ≤ place ∧ place < dst + n then v else memory place

/-- `memcpy`, byte by byte. -/
def memcpy (memory : ℕ → UInt8) (dst src : ℕ) : ℕ → ℕ → UInt8
  | 0 => memory
  | n + 1 =>
    let copied := memcpy memory dst src n
    Function.update copied (dst + n) (copied (src + n))

def malloc (n : UInt32) (heap : Heap) : Option ℕ × Heap :=
  let n := if n = 0 then 1 else n
  let total := alignUp (4 + n) 8
  if UInt32.ofNat USERLAND_HEAP_SIZE < heap.used + total then (none, heap)
  else
    (some (heap.used.toNat + 4),
      { memory := write heap.memory heap.used.toNat (le32 n.toNat), used := heap.used + total })

def calloc (nmemb size : UInt32) (heap : Heap) : Option ℕ × Heap :=
  if nmemb = 0 ∨ size = 0 then malloc 1 heap
  else
    let n := nmemb * size
    if n / size ≠ nmemb then (none, heap)
    else
      match malloc n heap with
      | (none, after) => (none, after)
      | (some p, after) => (some p, { after with memory := memset after.memory p 0 n.toNat })

def realloc (p : Option ℕ) (n : UInt32) (heap : Heap) : Option ℕ × Heap :=
  match p with
  | none => malloc n heap
  | some p =>
    let n := if n = 0 then 1 else n
    let oldsz := wordAt heap.memory (p - 4)
    match malloc n heap with
    | (none, after) => (none, after)
    | (some np, after) =>
      let copy := if oldsz < n.toNat then oldsz else n.toNat
      (some np, { after with memory := memcpy after.memory np p copy })

/-! ### What a program may expect -/

/-- A request for memory. -/
inductive Request
  | malloc (n : UInt32)
  | calloc (nmemb size : UInt32)
  | realloc (p : Option ℕ) (n : UInt32)

def Request.perform : Request → Heap → Option ℕ × Heap
  | .malloc n => Userland.malloc n
  | .calloc nmemb size => Userland.calloc nmemb size
  | .realloc p n => Userland.realloc p n

def Request.size : Request → ℕ
  | .malloc n => n.toNat
  | .calloc nmemb size => nmemb.toNat * size.toNat
  | .realloc _ n => n.toNat

def Request.length (request : Request) : ℕ := max request.size 1

/-- The bytes of a block with its header, in whole units. -/
def needed (length : ℕ) : ℕ := (length + 11) / 8 * 8

/-- What a program does: it requests memory, or stores a byte. -/
inductive Act
  | request (request : Request)
  | store (place : ℕ) (byte : UInt8)

/-- The heap, and the blocks that were returned, the last one in front. -/
structure Usage where
  heap : Heap
  blocks : List Region

/-- Before the program does anything. -/
def Usage.start (memory : ℕ → UInt8) : Usage := { heap := { memory, used := 0 }, blocks := [] }

/-- The heap after an act. -/
def Usage.step (usage : Usage) : Act → Usage
  | .request request =>
    { heap := (request.perform usage.heap).2
      blocks := match (request.perform usage.heap).1 with
        | none => usage.blocks
        | some p => { start := p, length := request.length } :: usage.blocks }
  | .store place byte =>
    { usage with heap.memory := Function.update usage.heap.memory place byte }

/-- A program passes blocks that it was given, and stores inside of them. -/
def Proper (usage : Usage) : Act → Prop
  | .request (.realloc (some p) _) => ∃ block ∈ usage.blocks, block.start = p
  | .request _ => True
  | .store place _ =>
    ∃ block ∈ usage.blocks, block.start ≤ place ∧ place < block.start + block.length

/-- What a request promises: a block that is returned is inside of the heap and apart from those
before; what is used of the heap grows and stays inside of it; the bytes of a block that is
reallocated are in the new one; and a request that does not fit is refused. -/
structure Served (usage : Usage) (request : Request) : Prop where
  inside : ∀ p, (request.perform usage.heap).1 = some p →
    p + request.length ≤ USERLAND_HEAP_SIZE
  apart : ∀ p, (request.perform usage.heap).1 = some p → ∀ block ∈ usage.blocks,
    block.Apart { start := p, length := request.length }
  grows : usage.heap.used ≤ (request.perform usage.heap).2.used ∧
    (request.perform usage.heap).2.used.toNat ≤ USERLAND_HEAP_SIZE
  moved : ∀ old n p, request = .realloc (some old) n →
    (request.perform usage.heap).1 = some p → ∀ block ∈ usage.blocks, block.start = old →
      ∀ index < min block.length n.toNat,
        (request.perform usage.heap).2.memory (p + index) = usage.heap.memory (old + index)
  refused : USERLAND_HEAP_SIZE < usage.heap.used.toNat + needed request.length →
    request.perform usage.heap = (none, usage.heap)

def Serves (usage : Usage) : Act → Prop
  | .request request => Served usage request
  | .store _ _ => True

/-- The sum of what is used and of what a request needs does not wrap to a number inside of the
heap. -/
def Fits (usage : Usage) : Act → Prop
  | .request request =>
    request.size < 4294967296 → usage.heap.used.toNat + needed request.length < 4294967296 ∨
      4294967296 + USERLAND_HEAP_SIZE < usage.heap.used.toNat + needed request.length
  | .store _ _ => True

instance : (usage : Usage) → (act : Act) → Decidable (Proper usage act)
  | usage, .request (.realloc (some p) _) =>
    inferInstanceAs (Decidable (∃ block ∈ usage.blocks, block.start = p))
  | _, .request (.realloc none _) => isTrue trivial
  | _, .request (.malloc _) => isTrue trivial
  | _, .request (.calloc _ _) => isTrue trivial
  | usage, .store place _ =>
    inferInstanceAs (Decidable (∃ block ∈ usage.blocks, block.start ≤ place ∧ place < _))

instance : (usage : Usage) → (act : Act) → Decidable (Fits usage act)
  | _, .request _ => inferInstanceAs (Decidable (_ → _ ∨ _))
  | _, .store _ _ => isTrue trivial

/-! ### Blocks of memory -/

section Memory

variable {memory : ℕ → UInt8} {dst src n place index : ℕ} {value : UInt8}

theorem memset_of_lt (hplace : place < dst) : memset memory dst value n place = memory place :=
  if_neg fun hinside ↦ absurd hinside.1 (Nat.not_le.mpr hplace)

theorem memcpy_of_lt (hplace : place < dst) : memcpy memory dst src n place = memory place := by
  induction n with
  | zero => rfl
  | succ n ih =>
    rw [memcpy, Function.update_of_ne (by omega)]
    exact ih

/-- What is copied to behind its source. -/
theorem memcpy_of_le (hsource : src + n ≤ dst) (hindex : index < n) :
    memcpy memory dst src n (dst + index) = memory (src + index) := by
  induction n with
  | zero => exact absurd hindex (Nat.not_lt_zero _)
  | succ n ih =>
    rw [memcpy]
    rcases Nat.lt_succ_iff_lt_or_eq.mp hindex with hless | rfl
    · rw [Function.update_of_ne (by omega)]
      exact ih (by omega) hless
    · rw [Function.update_self]
      exact memcpy_of_lt (by omega)

theorem write_of_lt {bytes : List UInt8} (hplace : place < dst) :
    write memory dst bytes place = memory place := if_neg (Nat.not_le.mpr hplace)

theorem wordAt_congr {other : ℕ → UInt8}
    (hsame : ∀ address, place ≤ address → address < place + 4 → other address = memory address) :
    wordAt other place = wordAt memory place := by
  rw [wordAt, wordAt, hsame (place + 3) (by omega) (by omega),
    hsame (place + 2) (by omega) (by omega),
    hsame (place + 1) (by omega) (by omega), hsame place (by omega) (by omega)]

end Memory

/-! ### One request -/

/-- A word without its last three bits. -/
theorem toNat_and_not_seven (word : UInt32) : (word &&& ~~~7).toNat = word.toNat / 8 * 8 := by
  have hmask : (~~~7 : UInt32).toNat = 4294967288 := by decide
  have hshift : word.toNat / 8 * 8 = (word.toNat >>> 3) <<< 3 := by
    rw [Nat.shiftRight_eq_div_pow, Nat.shiftLeft_eq]
  have hbits : ∀ bit < 32, Nat.testBit 4294967288 bit = decide (3 ≤ bit) := by decide
  rw [UInt32.toNat_and, hmask, hshift]
  refine Nat.eq_of_testBit_eq fun bit ↦ ?_
  rw [Nat.testBit_and, Nat.testBit_shiftLeft, Nat.testBit_shiftRight]
  by_cases hbit : bit < 32
  · rw [hbits bit hbit]
    by_cases hlow : 3 ≤ bit <;> simp [hlow]
  · have hpower : 2 ^ 32 ≤ 2 ^ bit := Nat.pow_le_pow_right (by decide) (Nat.le_of_not_lt hbit)
    have hclear : word.toNat.testBit bit = false :=
      Nat.testBit_lt_two_pow (Nat.lt_of_lt_of_le word.toNat_lt hpower)
    have hlow : 3 ≤ bit := by omega
    simp [hlow, hclear]

section Requests

variable {heap : Heap} {n nmemb size : UInt32}

theorem toNat_alignUp (n : UInt32) : (alignUp (4 + n) 8).toNat = needed n.toNat % 4294967296 := by
  have hn := n.toNat_lt
  have hseven : (8 : UInt32) - 1 = 7 := by decide
  rw [alignUp, hseven, toNat_and_not_seven, UInt32.toNat_add, UInt32.toNat_add, needed]
  change ((4 + n.toNat) % 4294967296 + 7) % 4294967296 / 8 * 8 = _
  omega

/-- No block is empty. -/
theorem toNat_length (n : UInt32) : (if n = 0 then 1 else n).toNat = max n.toNat 1 := by
  split
  · rename_i hzero
    rw [hzero]
    rfl
  · rename_i hzero
    have hne : n.toNat ≠ 0 := fun hval ↦ hzero (UInt32.toNat_inj.mp hval)
    omega

/-- What `malloc` does, by the sum as a word. -/
theorem malloc_eq (n : UInt32) (heap : Heap) :
    malloc n heap =
      if USERLAND_HEAP_SIZE < (heap.used.toNat + needed (max n.toNat 1)) % 4294967296 then
        (none, heap)
      else
        (some (heap.used.toNat + 4),
          { memory := write heap.memory heap.used.toNat (le32 (max n.toNat 1))
            used := UInt32.ofNat ((heap.used.toNat + needed (max n.toNat 1)) % 4294967296) }) := by
  have hlength := toNat_length n
  have hsum : (heap.used + alignUp (4 + if n = 0 then 1 else n) 8).toNat =
      (heap.used.toNat + needed (max n.toNat 1)) % 4294967296 := by
    rw [UInt32.toNat_add, toNat_alignUp, hlength]
    exact Nat.add_mod_mod _ _ _
  have hword : heap.used + alignUp (4 + if n = 0 then 1 else n) 8 =
      UInt32.ofNat ((heap.used.toNat + needed (max n.toNat 1)) % 4294967296) := by
    rw [← hsum, UInt32.ofNat_toNat]
  have hsize : (UInt32.ofNat USERLAND_HEAP_SIZE).toNat = USERLAND_HEAP_SIZE := by decide
  have hback : (UInt32.ofNat ((heap.used.toNat + needed (max n.toNat 1)) % 4294967296)).toNat =
      (heap.used.toNat + needed (max n.toNat 1)) % 4294967296 :=
    UInt32.toNat_ofNat_of_lt' (Nat.mod_lt _ (by decide))
  simp only [malloc, UInt32.lt_iff_toNat_lt, hword, hback, hsize, hlength]

/-- The product of `calloc` is checked exactly. -/
theorem div_mul_ne_iff (hsize : size ≠ 0) :
    nmemb * size / size ≠ nmemb ↔ 4294967296 ≤ nmemb.toNat * size.toNat := by
  have hpositive : 0 < size.toNat := Nat.pos_of_ne_zero fun hval ↦ hsize (UInt32.toNat_inj.mp hval)
  have hnmemb := nmemb.toNat_lt
  rw [Ne, ← UInt32.toNat_inj, UInt32.toNat_div, UInt32.toNat_mul]
  change ¬_ % 4294967296 / _ = _ ↔ _
  constructor
  · intro hne
    by_contra hfits
    rw [Nat.mod_eq_of_lt (Nat.lt_of_not_le hfits), Nat.mul_div_cancel _ hpositive] at hne
    exact hne rfl
  · intro hlarge heq
    have hless : nmemb.toNat * size.toNat % 4294967296 < 4294967296 := Nat.mod_lt _ (by decide)
    have hback := Nat.div_mul_le_self (nmemb.toNat * size.toNat % 4294967296) size.toNat
    rw [heq] at hback
    omega

/-- What a request leaves in the memory: everything in front of the new block, and the length of
the block in its header. -/
structure Placed (request : Request) (heap after : Heap) : Prop where
  used : after.used =
    UInt32.ofNat ((heap.used.toNat + needed request.length) % 4294967296)
  before : ∀ place < heap.used.toNat, after.memory place = heap.memory place
  header : request.length < 4294967296 → wordAt after.memory heap.used.toNat = request.length

/-- The header of a new block is written. -/
theorem placed_write {request : Request} {after : Heap} (heap : Heap)
    (hused : after.used = UInt32.ofNat ((heap.used.toNat + needed request.length) % 4294967296))
    (hmemory : ∀ place < heap.used.toNat + 4, after.memory place =
      write heap.memory heap.used.toNat (le32 request.length) place) :
    Placed request heap after where
  used := hused
  before place hplace := by rw [hmemory place (by omega), write_of_lt hplace]
  header hlength := by
    rw [← wordAt_of_holds holds_write hlength]
    exact wordAt_congr fun address _ hless ↦ hmemory address hless

/-- `malloc` looks at the length of the block only. -/
theorem malloc_congr (n other : UInt32) (hsame : max n.toNat 1 = max other.toNat 1) :
    malloc n heap = malloc other heap := by
  rw [malloc_eq, malloc_eq, hsame]

/-- A request whose size is a word is one of `malloc`, and fills the memory from the new block
on. -/
theorem perform_eq (request : Request) (heap : Heap) (hsize : request.size < 4294967296) :
    ∃ fill : ℕ → (ℕ → UInt8) → ℕ → UInt8,
      (∀ p memory, ∀ place < p, fill p memory place = memory place) ∧
        request.perform heap =
          match malloc (UInt32.ofNat request.size) heap with
          | (none, after) => (none, after)
          | (some p, after) => (some p, { after with memory := fill p after.memory }) := by
  have hnothing (call : Option ℕ × Heap) : call =
      match call with
      | (none, after) => (none, after)
      | (some p, after) => (some p, { after with memory := after.memory }) := by
    obtain ⟨_ | _, _⟩ := call <;> rfl
  cases request with
  | malloc n =>
    refine ⟨fun _ memory ↦ memory, fun _ _ _ _ ↦ rfl, ?_⟩
    rw [Request.size, UInt32.ofNat_toNat]
    exact hnothing _
  | calloc nmemb size =>
    change nmemb.toNat * size.toNat < 4294967296 at hsize
    rw [Request.perform, calloc, Request.size]
    by_cases hzero : nmemb = 0 ∨ size = 0
    · have hempty : nmemb.toNat * size.toNat = 0 := by
        rcases hzero with rfl | rfl
        · exact Nat.zero_mul _
        · exact Nat.mul_zero _
      refine ⟨fun _ memory ↦ memory, fun _ _ _ _ ↦ rfl, ?_⟩
      rw [if_pos hzero, hempty, malloc_congr 1 (UInt32.ofNat 0) rfl]
      exact hnothing _
    · have hfits : ¬nmemb * size / size ≠ nmemb := fun hne ↦
        absurd ((div_mul_ne_iff (not_or.mp hzero).2).mp hne) (Nat.not_le.mpr hsize)
      have hproduct : nmemb * size = UInt32.ofNat (nmemb.toNat * size.toNat) := by
        rw [← UInt32.toNat_inj, UInt32.toNat_mul, UInt32.toNat_ofNat']
      refine ⟨fun p memory ↦ memset memory p 0 (nmemb * size).toNat,
        fun _ _ _ hplace ↦ memset_of_lt hplace, ?_⟩
      rw [if_neg hzero, if_neg hfits, ← hproduct]
  | realloc p n =>
    rw [Request.size, UInt32.ofNat_toNat]
    cases p with
    | none => exact ⟨fun _ memory ↦ memory, fun _ _ _ _ ↦ rfl, hnothing _⟩
    | some p =>
      refine ⟨fun np memory ↦ memcpy memory np p (if wordAt heap.memory (p - 4) <
        (if n = 0 then 1 else n).toNat then wordAt heap.memory (p - 4)
          else (if n = 0 then 1 else n).toNat), fun _ _ _ hplace ↦ memcpy_of_lt hplace, ?_⟩
      have hsame : malloc (if n = 0 then 1 else n) heap = malloc n heap := by
        split
        · rename_i hzero
          exact malloc_congr 1 n (by rw [hzero]; rfl)
        · rfl
      change realloc (some p) n heap = _
      simp only [realloc, hsame]

/-- A request whose size is a word is refused, or served from where the heap is used up to. -/
theorem perform_cases (request : Request) (heap : Heap) (hsize : request.size < 4294967296) :
    (USERLAND_HEAP_SIZE < (heap.used.toNat + needed request.length) % 4294967296 ∧
        request.perform heap = (none, heap)) ∨
      (¬USERLAND_HEAP_SIZE < (heap.used.toNat + needed request.length) % 4294967296 ∧
        ∃ after, request.perform heap = (some (heap.used.toNat + 4), after) ∧
          Placed request heap after) := by
  obtain ⟨fill, hfill, hperform⟩ := perform_eq request heap hsize
  have hlength : max (UInt32.ofNat request.size).toNat 1 = request.length := by
    rw [UInt32.toNat_ofNat_of_lt' hsize]
    rfl
  rw [malloc_eq, hlength] at hperform
  by_cases hlarge : USERLAND_HEAP_SIZE < (heap.used.toNat + needed request.length) % 4294967296
  · rw [if_pos hlarge] at hperform
    exact Or.inl ⟨hlarge, hperform⟩
  · rw [if_neg hlarge] at hperform
    exact Or.inr ⟨hlarge, _, hperform, placed_write heap rfl fun place hplace ↦ hfill _ _ _ hplace⟩

/-- `calloc` refuses a product that is no word. -/
theorem perform_of_large {request : Request} (hsize : 4294967296 ≤ request.size) :
    request.perform heap = (none, heap) := by
  cases request with
  | malloc n | realloc p n => exact absurd hsize (Nat.not_le.mpr n.toNat_lt)
  | calloc nmemb size =>
    change 4294967296 ≤ nmemb.toNat * size.toNat at hsize
    have hzero : ¬(nmemb = 0 ∨ size = 0) := by
      rintro (rfl | rfl)
      · exact absurd (hsize.trans_eq (Nat.zero_mul _)) (by decide)
      · exact absurd (hsize.trans_eq (Nat.mul_zero _)) (by decide)
    change calloc nmemb size heap = _
    rw [calloc, if_neg hzero]
    exact if_pos ((div_mul_ne_iff (not_or.mp hzero).2).mpr hsize)

/-- A block that is reallocated is copied. -/
theorem realloc_moved {old p : ℕ} (hinside : old + wordAt heap.memory (old - 4) ≤ heap.used.toNat)
    (hresult : (realloc (some old) n heap).1 = some p) :
    ∀ index < min (wordAt heap.memory (old - 4)) n.toNat,
      (realloc (some old) n heap).2.memory (p + index) = heap.memory (old + index) := by
  intro index hindex
  generalize hcount : (if wordAt heap.memory (old - 4) < max n.toNat 1 then
    wordAt heap.memory (old - 4) else max n.toNat 1) = count
  have hcopy : index < count ∧ old + count ≤ heap.used.toNat := by
    rw [← hcount]
    split <;> omega
  simp only [realloc, toNat_length, hcount, malloc_eq] at hresult ⊢
  by_cases hlarge : USERLAND_HEAP_SIZE <
      (heap.used.toNat + needed (max (max n.toNat 1) 1)) % 4294967296
  · simp only [if_pos hlarge] at hresult
    exact absurd hresult (by simp)
  · simp only [if_neg hlarge] at hresult ⊢
    obtain rfl := Option.some.inj hresult
    exact (memcpy_of_le (by omega) hcopy.1).trans (write_of_lt (by omega))

end Requests

/-! ### Every run -/

/-- What holds of a heap whose requests were served: the blocks are behind one another, each with
its header in front, and their headers have their lengths. -/
structure Sound (usage : Usage) : Prop where
  inside : usage.heap.used.toNat ≤ USERLAND_HEAP_SIZE
  blocks : ∀ block ∈ usage.blocks, 4 ≤ block.start ∧
    block.start + block.length ≤ usage.heap.used.toNat ∧
      wordAt usage.heap.memory (block.start - 4) = block.length
  behind : usage.blocks.Pairwise fun newer older ↦ older.start + older.length + 4 ≤ newer.start

section Runs

variable {usage : Usage} {request : Request} {act : Act}

theorem length_le_needed (length : ℕ) : 4 + length ≤ needed length := by
  unfold needed
  omega

section

variable (hsound : Sound usage)

include hsound

/-- A request that does not wrap is refused and leaves the heap, or is served from where the heap
is used up to. -/
theorem perform_of_fits (hfits : Fits usage (.request request)) :
    (USERLAND_HEAP_SIZE < usage.heap.used.toNat + needed request.length ∧
        request.perform usage.heap = (none, usage.heap)) ∨
      (usage.heap.used.toNat + needed request.length ≤ USERLAND_HEAP_SIZE ∧ ∃ after,
        request.perform usage.heap = (some (usage.heap.used.toNat + 4), after) ∧
          after.used.toNat = usage.heap.used.toNat + needed request.length ∧
            Placed request usage.heap after) := by
  have hinside := hsound.inside
  have hneeded := length_le_needed request.length
  have hbound : USERLAND_HEAP_SIZE = 1048576 := rfl
  rcases Nat.lt_or_ge request.size 4294967296 with hsize | hsize
  · have hlength : needed request.length ≤ 4294967304 := by
      rw [needed, Request.length]
      omega
    rcases perform_cases request usage.heap hsize
      with ⟨hlarge, hrun⟩ | ⟨hsmall, after, hrun, hplaced⟩
    · exact Or.inl ⟨hlarge.trans_le (Nat.mod_le _ _), hrun⟩
    · rcases hfits hsize with hword | hbeyond
      · rw [Nat.mod_eq_of_lt hword] at hsmall
        refine Or.inr ⟨Nat.le_of_not_lt hsmall, after, hrun, ?_, hplaced⟩
        rw [hplaced.used, Nat.mod_eq_of_lt hword]
        exact UInt32.toNat_ofNat_of_lt' hword
      · omega
  · refine Or.inl ⟨?_, perform_of_large hsize⟩
    have hlength : request.size ≤ request.length := Nat.le_max_left _ _
    omega

/-- A request that does not wrap is served. -/
theorem Sound.served (hproper : Proper usage (.request request))
    (hfits : Fits usage (.request request)) : Served usage request := by
  have hneeded := length_le_needed request.length
  rcases perform_of_fits hsound hfits with ⟨hlarge, hrun⟩ | ⟨hsmall, after, hrun, hused, hplaced⟩
  · have hnone (p : ℕ) : (request.perform usage.heap).1 ≠ some p := by simp [hrun]
    refine ⟨fun p hp ↦ absurd hp (hnone p), fun p hp ↦ absurd hp (hnone p), ?_,
      fun _ _ p _ hp ↦ absurd hp (hnone p), fun _ ↦ hrun⟩
    rw [hrun]
    exact ⟨UInt32.le_refl _, hsound.inside⟩
  · have hresult {p : ℕ} (hp : (request.perform usage.heap).1 = some p) :
        p = usage.heap.used.toNat + 4 := by
      rw [hrun] at hp
      exact (Option.some.inj hp).symm
    refine ⟨fun p hp ↦ ?_, fun p hp block hblock ↦ Or.inl ?_, ?_, fun old n p heq hp block hblock
      hstart ↦ ?_, fun hlarge ↦ absurd hlarge (Nat.not_lt.mpr hsmall)⟩
    · rw [hresult hp]
      omega
    · have hend := (hsound.blocks block hblock).2.1
      have hplace := hresult hp
      change block.start + block.length ≤ p
      omega
    · rw [hrun, UInt32.le_iff_toNat_le, hused]
      omega
    · obtain ⟨-, hend, hheader⟩ := hsound.blocks block hblock
      subst heq hstart
      rw [← hheader]
      exact realloc_moved (by rw [hheader]; exact hend) hp

/-- A request that wraps is not served: its block is longer than the heap. -/
theorem not_served (hwraps : ¬Fits usage (.request request)) :
    ¬Served usage request := by
  have hinside := hsound.inside
  have hbound : USERLAND_HEAP_SIZE = 1048576 := rfl
  intro hserved
  obtain ⟨hsize, hsum⟩ := Classical.not_imp.mp hwraps
  obtain ⟨hlow, hhigh⟩ := not_or.mp hsum
  rcases perform_cases request usage.heap hsize with ⟨hlarge, -⟩ | ⟨-, after, hrun, -⟩
  · omega
  · have hend := hserved.inside _ (congrArg Prod.fst hrun)
    rw [needed] at hlow
    omega

/-- A request that fits keeps the heap sound. -/
theorem Sound.requested (hfits : Fits usage (.request request)) :
    Sound (usage.step (.request request)) := by
  have hneeded := length_le_needed request.length
  rcases perform_of_fits hsound hfits with ⟨-, hrun⟩ | ⟨hsmall, after, hrun, hused, hplaced⟩
  · simp only [Usage.step, hrun]
    exact hsound
  · simp only [Usage.step, hrun]
    refine ⟨hused ▸ hsmall, List.forall_mem_cons.mpr ⟨⟨?_, ?_, ?_⟩, fun block hblock ↦ ?_⟩,
      List.pairwise_cons.mpr ⟨fun block hblock ↦ ?_, hsound.behind⟩⟩
    · exact Nat.le_add_left _ _
    · simp only [hused]
      omega
    · refine hplaced.header ?_
      have hbound : USERLAND_HEAP_SIZE = 1048576 := rfl
      omega
    · obtain ⟨hstart, hend, hheader⟩ := hsound.blocks block hblock
      refine ⟨hstart, ?_, ?_⟩
      · simp only [hused]
        omega
      · rw [← hheader]
        exact wordAt_congr fun address _ hless ↦ hplaced.before address (by omega)
    · have hend := (hsound.blocks block hblock).2.1
      exact Nat.add_le_add_right hend 4

/-- Two blocks are the same, or one is behind the other. -/
theorem Sound.apart {first second : Region} (hfirst : first ∈ usage.blocks)
    (hsecond : second ∈ usage.blocks) :
    first = second ∨ first.start + first.length + 4 ≤ second.start ∨
      second.start + second.length + 4 ≤ first.start := by
  have hsymm : Std.Symm fun first second : Region ↦ first.start + first.length + 4 ≤ second.start ∨
      second.start + second.length + 4 ≤ first.start := ⟨fun _ _ hor ↦ hor.symm⟩
  have hbehind := hsound.behind.imp (S := fun first second : Region ↦
    first.start + first.length + 4 ≤ second.start ∨
      second.start + second.length + 4 ≤ first.start) Or.inr
  exact or_iff_not_imp_left.mpr fun hne ↦ hbehind.forall hfirst hsecond hne

/-- A byte that is stored inside of a block keeps the heap sound. -/
theorem Sound.store {place : ℕ} {byte : UInt8}
    (hproper : Proper usage (.store place byte)) : Sound (usage.step (.store place byte)) := by
  obtain ⟨inner, hinner, hfrom, hto⟩ := hproper
  refine ⟨hsound.inside, fun block hblock ↦ ?_, hsound.behind⟩
  obtain ⟨hstart, hend, hheader⟩ := hsound.blocks block hblock
  refine ⟨hstart, hend, ?_⟩
  rw [← hheader]
  refine wordAt_congr fun address hlow hhigh ↦ Function.update_of_ne ?_ _ _
  rcases hsound.apart hinner hblock with rfl | hbefore | hbehind <;> omega

end

end Runs

theorem sound_start (memory : ℕ → UInt8) : Sound (.start memory) :=
  ⟨Nat.zero_le _, fun _ hmem ↦ absurd hmem List.not_mem_nil, List.Pairwise.nil⟩

/-- A program that stays inside of its blocks is served right all along a run exactly if none of
its requests wraps to a sum inside of the heap. -/
theorem served_iff (memory : ℕ → UInt8) (acts : List Act)
    (hproper : Allowed Proper Usage.step (.start memory) acts) :
    Allowed Serves Usage.step (.start memory) acts ↔
      Allowed Fits Usage.step (.start memory) acts := by
  have hsame (usage : Usage) (act : Act) (hsound : Sound usage) :
      Proper usage act ∧ Fits usage act ↔ Proper usage act ∧ Serves usage act := by
    refine and_congr_right fun hproper ↦ ?_
    cases act with
    | request request =>
      exact ⟨hsound.served hproper, fun hserved ↦
        by_contra fun hwraps ↦ not_served hsound hwraps hserved⟩
    | store place byte => exact Iff.rfl
  have hnext (usage : Usage) (act : Act) (hsound : Sound usage)
      (hboth : Proper usage act ∧ Fits usage act) : Sound (usage.step act) := by
    cases act with
    | request request => exact hsound.requested hboth.2
    | store place byte => exact hsound.store hboth.1
  have hruns : Allowed _ _ _ acts ↔ Allowed _ _ _ acts :=
    allowed_congr hsame hnext (sound_start memory)
  rw [allowed_and, allowed_and] at hruns
  exact ⟨fun hserves ↦ (hruns.mpr ⟨hproper, hserves⟩).2, fun hfits ↦ (hruns.mp ⟨hproper, hfits⟩).2⟩

def moving : List Act :=
  [.request (.malloc 5), .store 8 7, .request (.realloc (some 4) 9), .request (.calloc 2 3)]

/-- That run is served. -/
theorem served_moving : Allowed Serves Usage.step (.start fun _ ↦ 0) moving :=
  (served_iff (fun _ ↦ 0) moving (by decide)).mpr (by decide)

/-- A request for four bytes less than `2 ^ 32` returns a block of an empty heap. -/
theorem not_always_served : ¬∀ (memory : ℕ → UInt8) (acts : List Act),
    Allowed Proper Usage.step (.start memory) acts →
      Allowed Serves Usage.step (.start memory) acts := by
  intro hclaim
  have hserved := (hclaim (fun _ ↦ 0) [.request (.malloc 4294967292)] (by decide)).1
  exact not_served (sound_start _) (by decide) hserved

end EynOS.Userland
