import EynOS.Foundation.Loop
import EynOS.Memory.Vmm
import Mathlib.Data.Nat.Bitwise

/-!
# The check of user pointers

`user_access_ok` decides whether a system call may read or write a range of user addresses: it
computes the end of the range in 32 bits, compares the range with the bounds of the user's addresses
and looks up the page table entry of every page from the first to the last. The loop over the pages
ends on equality with the last page only.

`Accessible` says what the check is for, byte by byte: the address has a present entry of a user
page in the address space, a writable one for a write. `userAccessOk_iff` is the result: the loop
ends within one turn a page, it looks at no page behind the last one, and the answer is 1 exactly
when the range does not wrap, lies in the user's addresses and is accessible throughout.
-/

namespace EynOS.Memory.UserAccess

open Foundation Vmm

def USER_CODE_BASE : UInt32 := 0x00400000

def USER_STACK_TOP : UInt32 := 0xC0000000

def PAGE_MASK : UInt32 := 0xFFFFF000

def PAGE_SIZE : UInt32 := 4096

/-- `vmm_current_as ? vmm_current_as : &vmm_kernel_as`. -/
def currentSpace (current : Option ℕ) : ℕ := current.getD kernelSpace

def userPageOk (state : State) (current : Option ℕ) (va : UInt32) (write : Bool) : Bool :=
  if KERNEL_BASE ≤ va.toNat then false
  else if va < USER_CODE_BASE ∨ USER_STACK_TOP ≤ va then false
  else
    match (walkPageTables (currentSpace current) va.toNat false state).2.1 with
    | none => false
    | some (table, index) =>
      if !(state.memory table index).present then false
      else if !(state.memory table index).user then false
      else if write && !(state.memory table index).rw then false
      else true

/-- The body of the loop of `user_access_ok`. -/
def pageTurn (state : State) (current : Option ℕ) (write : Bool) (endPage page : UInt32) :
    Bool ⊕ UInt32 :=
  if !userPageOk state current page write then .inl false
  else if page = endPage then .inl true
  else .inr (page + PAGE_SIZE)

/-- `user_access_ok`, with a bound on the turns of its loop. -/
def userAccessOk (rounds : ℕ) (state : State) (current : Option ℕ) (ptr len : UInt32)
    (write : Bool) : Option Bool :=
  if len = 0 then some true
  else if ptr = 0 then some false
  else if ptr + len < ptr then some false
  else if ptr < USER_CODE_BASE ∨ USER_STACK_TOP < ptr + len then some false
  else turns (pageTurn state current write ((ptr + len - 1) &&& PAGE_MASK)) rounds
    (ptr &&& PAGE_MASK)

/-- An address has a present entry of a user page, a writable one for a write. -/
def Accessible (state : State) (space va : ℕ) (write : Bool) : Prop :=
  ∃ table, state.table space (pdeIndex va) = some table ∧
    (state.memory table (pteIndex va)).present = true ∧
    (state.memory table (pteIndex va)).user = true ∧
    (write = true → (state.memory table (pteIndex va)).rw = true)

variable {state : State} {current : Option ℕ} {write : Bool} {ptr len page endPage : UInt32}

/-! ### Pages -/

/-- Masking an address leaves the start of its page. -/
theorem toNat_page (va : UInt32) : (va &&& PAGE_MASK).toNat = 4096 * (va.toNat / 4096) := by
  have hmask : (PAGE_MASK).toNat = (2 ^ 20 - 1) <<< 12 := by decide
  have hva : va.toNat < 2 ^ 32 := va.toNat_lt
  rw [UInt32.toNat_and, hmask, Nat.mul_comm 4096]
  refine Nat.eq_of_testBit_eq fun bit ↦ ?_
  rw [Nat.testBit_and, Nat.testBit_shiftLeft, Nat.testBit_two_pow_sub_one,
    show 4096 = 2 ^ 12 from rfl, Nat.testBit_mul_two_pow, Nat.testBit_div_two_pow]
  by_cases hlow : 12 ≤ bit
  · rw [Nat.sub_add_cancel hlow]
    by_cases hhigh : bit < 32
    · simp [hlow, show bit - 12 < 20 by omega]
    · have hle : 2 ^ 32 ≤ 2 ^ bit := Nat.pow_le_pow_right (by decide) (Nat.le_of_not_lt hhigh)
      simp [Nat.testBit_lt_two_pow (hva.trans_le hle)]
  · simp [hlow]

/-- The check of a page. -/
theorem userPageOk_iff : userPageOk state current page write = true ↔
    USER_CODE_BASE ≤ page ∧ page < USER_STACK_TOP ∧
      Accessible state (currentSpace current) page.toNat write := by
  have hbase : KERNEL_BASE = USER_STACK_TOP.toNat := by decide
  unfold userPageOk Accessible
  rw [walkPageTables_false, hbase]
  by_cases htop : page < USER_STACK_TOP
  · rw [if_neg (Nat.not_le_of_lt (UInt32.lt_iff_toNat_lt.mp htop))]
    by_cases hcode : USER_CODE_BASE ≤ page
    · rw [if_neg (by simpa using ⟨hcode, htop⟩)]
      cases state.table (currentSpace current) (pdeIndex page.toNat) with
      | none => simp
      | some table => cases write <;> simp [hcode, htop]
    · rw [if_pos (.inl (by simpa using hcode))]
      simp [hcode]
  · rw [if_pos (Nat.le_of_not_lt fun hlt ↦ htop (UInt32.lt_iff_toNat_lt.mpr hlt))]
    simp [htop]

/-! ### The loop over the pages -/

theorem toNat_next {number : ℕ} (hpage : page.toNat = 4096 * number)
    (hnumber : 4096 * (number + 1) < 2 ^ 32) : (page + PAGE_SIZE).toNat = 4096 * (number + 1) := by
  have hsize : (PAGE_SIZE).toNat = 4096 := by decide
  rw [UInt32.toNat_add, hsize, hpage, Nat.mod_eq_of_lt (by omega)]
  omega

/-- The loop ends at the last page at the latest, and finds out whether every page is allowed. -/
theorem exits_pages (state : State) (current : Option ℕ) (write : Bool) {page endPage : UInt32}
    {first last : ℕ} (hpage : page.toNat = 4096 * first)
    (hend : endPage.toNat = 4096 * last) (hle : first ≤ last) :
    ∃ count ≤ last - first,
      ∃ answer, Exits (pageTurn state current write endPage) count page answer ∧
      (answer = true ↔ ∀ number, first ≤ number → number ≤ last →
        userPageOk state current (UInt32.ofNat (4096 * number)) write = true) := by
  have hbound : 4096 * last < 2 ^ 32 := hend ▸ endPage.toNat_lt
  have hself : UInt32.ofNat (4096 * first) = page := by
    rw [← hpage, UInt32.ofNat_toNat]
  induction hleft : last - first generalizing first page with
  | zero =>
    obtain rfl : first = last := by omega
    obtain rfl : page = endPage := UInt32.toNat_inj.mp (hpage.trans hend.symm)
    refine ⟨0, Nat.le_refl 0, userPageOk state current page write, .leave ?_, ?_⟩
    · unfold pageTurn
      cases userPageOk state current page write <;> simp
    · constructor
      · intro hok number hfirst hlast
        obtain rfl : number = first := by omega
        rw [hself]
        exact hok
      · intro hall
        rw [← hself]
        exact hall first (Nat.le_refl _) (Nat.le_refl _)
  | succ left ih =>
    have hne : page ≠ endPage := by
      rintro rfl
      omega
    cases hok : userPageOk state current page write with
    | false =>
      refine ⟨0, Nat.zero_le _, false, .leave (by simp [pageTurn, hok]), ?_⟩
      refine iff_of_false (by decide) fun hall ↦ ?_
      have hfirst := hall first (Nat.le_refl _) hle
      rw [hself, hok] at hfirst
      exact absurd hfirst (by decide)
    | true =>
      have hnext := toNat_next hpage (by omega)
      obtain ⟨count, hcount, answer, hexits, hanswer⟩ :=
        ih hnext (by omega) (by rw [← hnext, UInt32.ofNat_toNat]) (by omega)
      refine ⟨count + 1, Nat.succ_le_succ hcount, answer,
        .turn (by simp [pageTurn, hok, hne]) hexits, hanswer.trans ?_⟩
      constructor
      · intro hall number hfirst hlast
        obtain rfl | hlater := Nat.eq_or_lt_of_le hfirst
        · rw [hself]
          exact hok
        · exact hall number hlater hlast
      · intro hall number hfirst hlast
        exact hall number (Nat.le_of_succ_le hfirst) hlast

/-- The loop comes to no page behind the last one. -/
theorem visits_le {first last : ℕ} {visited : UInt32} (hpage : page.toNat = 4096 * first)
    (hend : endPage.toNat = 4096 * last) (hle : first ≤ last)
    (hvisits : Visits (pageTurn state current write endPage) page visited) :
    visited ≤ endPage := by
  have hbound : 4096 * last < 2 ^ 32 := hend ▸ endPage.toNat_lt
  have hkeep (value next : UInt32) (hvalue : ∃ number ≤ last, value.toNat = 4096 * number)
      (hturn : pageTurn state current write endPage value = .inr next) :
      ∃ number ≤ last, next.toNat = 4096 * number := by
    obtain ⟨number, hnumber, hvalue⟩ := hvalue
    unfold pageTurn at hturn
    split_ifs at hturn with hok hsame
    obtain rfl := Sum.inr.inj hturn
    have hless : number ≠ last := by
      rintro rfl
      exact hsame (UInt32.toNat_inj.mp (hvalue.trans hend.symm))
    exact ⟨number + 1, by omega, toNat_next hvalue (by omega)⟩
  obtain ⟨number, hnumber, hvisited⟩ := hvisits.keeps hkeep ⟨first, hle, hpage⟩
  rw [UInt32.le_iff_toNat_le, hvisited, hend]
  omega

/-! ### The check -/

/-- The pages from the first to the last one of a range are accessible exactly when each address of
the range is. -/
theorem accessible_pages {space start length : ℕ} (hlength : 0 < length) :
    (∀ number, start / 4096 ≤ number → number ≤ (start + length - 1) / 4096 →
        Accessible state space (4096 * number) write) ↔
      ∀ va, start ≤ va → va < start + length → Accessible state space va write := by
  have hsame (va : ℕ) : Accessible state space (4096 * (va / 4096)) write ↔
      Accessible state space va write := by
    unfold Accessible
    rw [show pdeIndex (4096 * (va / 4096)) = pdeIndex va by unfold pdeIndex; omega,
      show pteIndex (4096 * (va / 4096)) = pteIndex va by unfold pteIndex; omega]
  constructor
  · intro hpages va hstart hend
    exact (hsame va).mp (hpages (va / 4096) (by omega) (by omega))
  · intro hbytes number hfirst hlast
    have hva := hbytes (max start (4096 * number)) (by omega) (by omega)
    rw [← hsame, show max start (4096 * number) / 4096 = number by omega] at hva
    exact hva

/-- The last address of a range that does not wrap. -/
theorem toNat_end (hlen : 0 < len) (hwrap : ptr.toNat + len.toNat < 2 ^ 32) :
    (ptr + len).toNat = ptr.toNat + len.toNat ∧
      (ptr + len - 1).toNat = ptr.toNat + len.toNat - 1 := by
  have hpos : 0 < len.toNat := UInt32.lt_iff_toNat_lt.mp hlen
  have hend : (ptr + len).toNat = ptr.toNat + len.toNat := by
    rw [UInt32.toNat_add, Nat.mod_eq_of_lt hwrap]
  have hone : (1 : UInt32) ≤ ptr + len := by
    rw [UInt32.le_iff_toNat_le, hend, UInt32.toNat_one]
    omega
  exact ⟨hend, by rw [UInt32.toNat_sub_of_le _ _ hone, hend, UInt32.toNat_one]⟩

/-- The comparisons before the loop. -/
theorem range_iff (hlen : 0 < len) :
    (ptr ≠ 0 ∧ ¬ptr + len < ptr ∧ ¬(ptr < USER_CODE_BASE ∨ USER_STACK_TOP < ptr + len)) ↔
      ptr.toNat + len.toNat < 2 ^ 32 ∧ USER_CODE_BASE.toNat ≤ ptr.toNat ∧
        ptr.toNat + len.toNat ≤ USER_STACK_TOP.toNat := by
  have hpos : 0 < len.toNat := UInt32.lt_iff_toNat_lt.mp hlen
  have hbase : USER_CODE_BASE.toNat = 0x00400000 := by decide
  have hptr := ptr.toNat_lt
  have hsize := len.toNat_lt
  by_cases hwrap : ptr.toNat + len.toNat < 2 ^ 32
  · have hend := (toNat_end hlen hwrap).1
    rw [not_or, UInt32.not_lt, UInt32.not_lt, UInt32.not_lt, UInt32.le_iff_toNat_le,
      UInt32.le_iff_toNat_le, UInt32.le_iff_toNat_le, hend]
    constructor
    · rintro ⟨-, -, hcode, htop⟩
      exact ⟨hwrap, hcode, htop⟩
    · rintro ⟨-, hcode, htop⟩
      refine ⟨?_, by omega, hcode, htop⟩
      rintro rfl
      rw [hbase, UInt32.toNat_zero] at hcode
      omega
  · refine iff_of_false ?_ fun hrange ↦ hwrap hrange.1
    rintro ⟨-, hend, -⟩
    refine hend (UInt32.lt_iff_toNat_lt.mpr ?_)
    rw [UInt32.toNat_add, Nat.mod_eq_sub_mod (by omega), Nat.mod_eq_of_lt (by omega)]
    omega

theorem userPageOk_page {number : ℕ} (hcode : USER_CODE_BASE.toNat ≤ 4096 * number)
    (htop : 4096 * number < USER_STACK_TOP.toNat) :
    userPageOk state current (UInt32.ofNat (4096 * number)) write = true ↔
      Accessible state (currentSpace current) (4096 * number) write := by
  have hbound : USER_STACK_TOP.toNat < 2 ^ 32 := USER_STACK_TOP.toNat_lt
  have hpage : (UInt32.ofNat (4096 * number)).toNat = 4096 * number :=
    UInt32.toNat_ofNat_of_lt' (htop.trans hbound)
  rw [userPageOk_iff, UInt32.le_iff_toNat_le, UInt32.lt_iff_toNat_lt, hpage, and_iff_right hcode,
    and_iff_right htop]

/-- The check of a range of user addresses ends within a turn for each page that the range touches,
looks at no page behind the last one, and allows exactly the ranges that do not wrap, lie in the
user's addresses and are accessible throughout. -/
theorem userAccessOk_iff (state : State) (current : Option ℕ) (ptr len : UInt32) (write : Bool)
    (hlen : 0 < len) :
    (∃ answer,
      (∀ rounds, (ptr.toNat + len.toNat - 1) / 4096 - ptr.toNat / 4096 < rounds →
        userAccessOk rounds state current ptr len write = some answer) ∧
      (answer = true ↔
        (ptr.toNat + len.toNat < 2 ^ 32 ∧ USER_CODE_BASE.toNat ≤ ptr.toNat ∧
          ptr.toNat + len.toNat ≤ USER_STACK_TOP.toNat) ∧
        ∀ va, ptr.toNat ≤ va → va < ptr.toNat + len.toNat →
          Accessible state (currentSpace current) va write)) ∧
    (ptr.toNat + len.toNat < 2 ^ 32 → ∀ visited,
      Visits (pageTurn state current write ((ptr + len - 1) &&& PAGE_MASK)) (ptr &&& PAGE_MASK)
        visited → visited ≤ (ptr + len - 1) &&& PAGE_MASK) := by
  have hpos : 0 < len.toNat := UInt32.lt_iff_toNat_lt.mp hlen
  have hpages : ptr.toNat / 4096 ≤ (ptr.toNat + len.toNat - 1) / 4096 :=
    Nat.div_le_div_right (by omega)
  refine ⟨?_, fun hwrap visited hvisits ↦ ?_⟩
  · unfold userAccessOk
    have hne : len ≠ 0 := by
      rintro rfl
      exact absurd hpos (by decide)
    simp only [← range_iff hlen, if_neg hne]
    by_cases hnull : ptr = 0
    · exact ⟨false, fun rounds _ ↦ if_pos hnull, iff_of_false (by decide) fun hall ↦ hall.1.1 hnull⟩
    by_cases hwrap : ptr + len < ptr
    · refine ⟨false, fun rounds _ ↦ ?_, iff_of_false (by decide) fun hall ↦ hall.1.2.1 hwrap⟩
      rw [if_neg hnull, if_pos hwrap]
    by_cases hrange : ptr < USER_CODE_BASE ∨ USER_STACK_TOP < ptr + len
    · refine ⟨false, fun rounds _ ↦ ?_, iff_of_false (by decide) fun hall ↦ hall.1.2.2 hrange⟩
      rw [if_neg hnull, if_neg hwrap, if_pos hrange]
    obtain ⟨hfits, hcode, htop⟩ := (range_iff hlen).mp ⟨hnull, hwrap, hrange⟩
    have hend := (toNat_end hlen hfits).2
    obtain ⟨count, hcount, answer, hexits, hanswer⟩ :=
      exits_pages state current write (toNat_page ptr) (hend ▸ toNat_page (ptr + len - 1)) hpages
    refine ⟨answer, fun rounds hrounds ↦ ?_, hanswer.trans ?_⟩
    · rw [if_neg hnull, if_neg hwrap, if_neg hrange]
      exact turns_eq_some.mpr ⟨count, hcount.trans_lt hrounds, hexits⟩
    · rw [and_iff_right ⟨hnull, hwrap, hrange⟩, ← accessible_pages hpos]
      refine forall_congr' fun number ↦ imp_congr_right fun hfirst ↦ imp_congr_right fun hlast ↦ ?_
      have hbase : USER_CODE_BASE.toNat = 0x00400000 := by decide
      exact userPageOk_page (by omega) (by omega)
  · have hend := (toNat_end hlen hwrap).2
    exact visits_le (toNat_page ptr) (hend ▸ toNat_page (ptr + len - 1)) hpages hvisits

/-- A memory whose entries all are those of writable user pages that lead to frame 1. -/
def writableEverywhere : State :=
  { totalFrames := 0, bitmap := fun _ ↦ false, freeFrames := 0, searchHint := 0
    memory := fun _ _ ↦
      { toFlags := { noFlags with present := true, rw := true, user := true }, frame := 1 }
    spaces := fun _ ↦ some { pdPhys := 1, refcount := 1 }
    swapBitmap := fun _ ↦ false, swapFreeSlots := 0, clock := fun _ ↦ noClockEntry, clockHand := 0
    clockCount := 0, swapIo := [], held := [] }

/-- A write to the last byte of the user's addresses is allowed. -/
theorem userAccessOk_top :
    0 < (1 : UInt32) ∧ userAccessOk 1 writableEverywhere none 0xBFFFFFFF 1 true = some true := by
  have hone : 0 < (1 : UInt32) := by decide
  obtain ⟨⟨answer, hrounds, hanswer⟩, -⟩ :=
    userAccessOk_iff writableEverywhere none 0xBFFFFFFF 1 true hone
  obtain rfl : answer = true :=
    hanswer.mpr ⟨by decide, fun va _ _ ↦ ⟨1, rfl, rfl, rfl, fun _ ↦ rfl⟩⟩
  exact ⟨hone, hrounds 1 (by decide)⟩

end EynOS.Memory.UserAccess
