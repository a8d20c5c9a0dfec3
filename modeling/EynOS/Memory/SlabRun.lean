import EynOS.Foundation.Run
import EynOS.Foundation.ThreadedQueues
import EynOS.Memory.Slab

/-!
# Every history of the slabs keeps their invariant

A history is a sequence of calls of `slab_alloc`, calls of `slab_free` on objects that are live, and
stores of the holders into their objects. `Sound` is the invariant: the free list of every slab
holds each of its objects that is not live once, and the list of every class holds each slab with a
free object once. `Sound.take`, `Sound.newSlab`, `Sound.give` and `Sound.store` are the steps, and
`slab_invariant` is what they give for every history: no check of `slab_alloc` or `slab_free` fails.
-/

namespace EynOS.Memory.Slab

open Foundation

/-! ### Histories -/

/-- The slabs with the objects that are live. -/
structure Traffic where
  slab : State
  live : List ℕ

/-- What happens to the slabs: an allocation with the number of frames and the page that
`vmm_kmalloc_page` would return, a deallocation, or a store of a word. -/
inductive Event
  | alloc (frames page size : ℕ)
  | free (ptr : ℕ)
  | store (address value : ℕ)

/-- One event. -/
def step (traffic : Traffic) : Event → Option Traffic
  | .alloc frames page size =>
    (slabAlloc traffic.slab frames page size).map fun outcome ↦
      { slab := outcome.1
        live := if outcome.2 = 0 then traffic.live else outcome.2 :: traffic.live }
  | .free ptr =>
    (slabFree traffic.slab ptr).map fun outcome ↦
      { slab := outcome.1, live := traffic.live.erase ptr }
  | .store address value => some { traffic with slab := setWord traffic.slab address value }

/-- A page of the kernel: it is aligned and above `KERNEL_BASE`, and the address space does not end
with it. -/
structure Placed (page : ℕ) : Prop where
  aligned : page % pageSize = 0
  kernel : kernelBase ≤ page
  below : page + pageSize < 4294967296

/-- What the callers and the page allocator promise: a page is new, only live objects are freed,
and a holder stores only inside a live object or outside of the slabs. -/
def Promised (traffic : Traffic) : Event → Prop
  | .alloc _ page _ => page = 0 ∨ Placed page ∧ page ∉ traffic.slab.slabs
  | .free ptr => ptr = 0 ∨ ptr ∈ traffic.live
  | .store address _ =>
    (∃ object ∈ traffic.live, object ≤ address ∧
      address < object + (traffic.slab.header (pageOf object)).objSize) ∨
    pageOf address ∉ traffic.slab.slabs

/-- Nothing is allocated before the first call. -/
def idle (header : ℕ → SlabHeader) (word : ℕ → ℕ) : Traffic where
  slab := boot header word
  live := []

/-! ### The invariant -/

/-- A pointer that is not `NULL`. -/
def pointer (value : ℕ) : Option ℕ := if value = 0 then none else some value

def IsObject (state : State) (page object : ℕ) : Prop :=
  ∃ index < (state.header page).totalObjs,
    object = page + slabHeaderBytes + index * (state.header page).objSize

/-- The fields of a header that do not change are those of a slab of its class. -/
structure HeaderSound (state : State) (page : ℕ) : Prop where
  placed : Placed page
  magic : (state.header page).magic = slabMagic
  classIndex : (state.header page).classIndex < slabClassCount
  objSize : (state.header page).objSize = classSize (state.header page).classIndex
  totalObjs : (state.header page).totalObjs =
    (pageSize - slabHeaderBytes) / (state.header page).objSize

/-- The free list of a slab holds some of its objects, each once, and is as long as its counter
says. -/
structure FreeListed (state : State) (page : ℕ) (free : List ℕ) : Prop where
  path : Path (fun object ↦ pointer (state.word object)) (pointer (state.header page).freeList) free
  nodup : free.Nodup
  objects : ∀ object ∈ free, IsObject state page object
  length : free.length = (state.header page).freeObjs

/-- The objects on the free list of a slab are those that are not live. -/
structure SlabSound (state : State) (live : List ℕ) (page : ℕ) : Prop extends
    HeaderSound state page where
  free : ∃ free, FreeListed state page free ∧
    ∀ object, IsObject state page object → (object ∈ free ↔ object ∉ live)

def HasFree (state : State) (classIndex page : ℕ) : Prop :=
  page ∈ state.slabs ∧ (state.header page).classIndex = classIndex ∧
    (state.header page).freeList ≠ 0

/-- The list of a class holds its slabs with a free object, each once. -/
def Listed (state : State) (classIndex : ℕ) : Prop :=
  ∃ pages, Path (fun page ↦ pointer (state.header page).next)
    (pointer (state.partialHead classIndex)) pages ∧ pages.Nodup ∧
      ∀ page, page ∈ pages ↔ HasFree state classIndex page

/-- What every history keeps. -/
structure Sound (traffic : Traffic) : Prop where
  slabs : ∀ page ∈ traffic.slab.slabs, SlabSound traffic.slab traffic.live page
  listed : ∀ classIndex, Listed traffic.slab classIndex
  nodup : traffic.live.Nodup
  owned : ∀ object ∈ traffic.live, ∃ page ∈ traffic.slab.slabs, IsObject traffic.slab page object
  uninited : traffic.slab.inited = false → traffic.slab.slabs = []

section Objects

variable {state after : State} {page other object second place : ℕ} {live : List ℕ}

/-! ### Objects -/

theorem pointer_of_ne {value : ℕ} (hvalue : value ≠ 0) : pointer value = some value :=
  if_neg hvalue

theorem pointer_eq_some {value target : ℕ} (hpointer : pointer value = some target) :
    value = target ∧ value ≠ 0 := by
  unfold pointer at hpointer
  split_ifs at hpointer with hvalue
  exact ⟨Option.some.inj hpointer, hvalue⟩

theorem pointer_eq_none {value : ℕ} (hpointer : pointer value = none) : value = 0 := by
  by_contra hvalue
  rw [pointer_of_ne hvalue] at hpointer
  exact Option.some_ne_none _ hpointer

theorem slabIsPow2_classSize {classIndex : ℕ} (hclass : classIndex < slabClassCount) :
    slabIsPow2 (classSize classIndex) = true :=
  have hall : ∀ classIndex < slabClassCount, slabIsPow2 (classSize classIndex) = true := by decide
  hall classIndex hclass

theorem classSize_bounds {classIndex : ℕ} (hclass : classIndex < slabClassCount) :
    2 ^ slabMinShift ≤ classSize classIndex ∧ classSize classIndex ≤ 2 ^ slabMaxShift :=
  have hall : ∀ classIndex < slabClassCount,
    2 ^ slabMinShift ≤ classSize classIndex ∧ classSize classIndex ≤ 2 ^ slabMaxShift := by decide
  hall classIndex hclass

section

variable (hheader : HeaderSound state page)

include hheader

/-- The objects of a slab lie behind its header and in its page. -/
theorem HeaderSound.bounds
    (hobject : IsObject state page object) : page + slabHeaderBytes ≤ object ∧
      object + (state.header page).objSize ≤ page + pageSize := by
  obtain ⟨index, hindex, rfl⟩ := hobject
  have hlast : (index + 1) * (state.header page).objSize ≤ pageSize - slabHeaderBytes := by
    refine le_trans (Nat.mul_le_mul_right _ hindex) ?_
    rw [hheader.totalObjs]
    exact Nat.div_mul_le_self _ _
  rw [Nat.add_one_mul] at hlast
  have hroom : slabHeaderBytes ≤ pageSize := by decide
  omega

theorem HeaderSound.pageOf_place (hobject : IsObject state page object) (hfrom : object ≤ place)
    (hto : place < object + (state.header page).objSize) : pageOf place = page := by
  have hbounds := hheader.bounds hobject
  have haligned := hheader.placed.aligned
  simp only [pageOf, pageSize] at *
  omega

theorem HeaderSound.objSize_pos :
    0 < (state.header page).objSize := by
  rw [hheader.objSize]
  exact Nat.pow_pos (by decide)

section

variable (hobject : IsObject state page object)

include hobject

theorem HeaderSound.pageOf_object : pageOf object = page :=
  hheader.pageOf_place hobject le_rfl (by have := hheader.objSize_pos; omega)

theorem HeaderSound.object_ne : object ≠ 0 := by
  have hbounds := (hheader.bounds hobject).1
  have hkernel := hheader.placed.kernel
  simp only [kernelBase] at hkernel
  omega

/-- The check on pointers accepts the objects of a slab. -/
theorem HeaderSound.valid : slabObjPtrIsValid state page object = true := by
  have hbounds := hheader.bounds hobject
  have hsize := hheader.objSize_pos
  have hplaced := hheader.placed
  have hkernel : kernelBase ≤ page := hplaced.kernel
  have hbelow := hplaced.below
  have hstart : u32 (page + slabHeaderBytes) = page + slabHeaderBytes :=
    u32_of_lt _ (by simp only [pageSize, slabHeaderBytes] at *; omega)
  have hfinish : u32 (page + pageSize) = page + pageSize := u32_of_lt _ hbelow
  have hclass := classSize_bounds hheader.classIndex
  have hpow := slabIsPow2_classSize hheader.classIndex
  rw [← hheader.objSize] at hclass hpow
  have hoffset : (object - (page + slabHeaderBytes)) % (state.header page).objSize = 0 := by
    obtain ⟨index, -, rfl⟩ := hobject
    rw [Nat.add_sub_cancel_left]
    exact Nat.mul_mod_left _ _
  have hpage : page ≠ 0 := by
    simp only [kernelBase] at hkernel
    omega
  unfold slabObjPtrIsValid
  rw [if_neg (by simp [hpage, hheader.object_ne hobject]), if_neg (by simp [hheader.magic]),
    if_neg (by simp [hpow]), if_neg (by omega), hstart, hfinish, if_neg (by omega),
    if_neg (by simp [hoffset])]

theorem HeaderSound.owns : slabOwns state object = true := by
  have hbounds := hheader.bounds hobject
  have hkernel : kernelBase ≤ page := hheader.placed.kernel
  have hclass := classSize_bounds hheader.classIndex
  have hpow := slabIsPow2_classSize hheader.classIndex
  rw [← hheader.objSize] at hclass hpow
  unfold slabOwns
  rw [hheader.pageOf_object hobject]
  rw [if_neg (hheader.object_ne hobject), if_neg (by omega), if_neg (by simp [hheader.magic]),
    if_neg (not_le.mpr hheader.classIndex), if_neg (by simp [hpow]), if_neg (by omega)]

end

/-- No object starts inside of another one. -/
theorem HeaderSound.outside (hother : HeaderSound state other)
    (hobject : IsObject state page object) (hsecond : IsObject state other second)
    (hne : second ≠ object) :
    ¬(object ≤ second ∧ second < object + (state.header page).objSize) := by
  rintro ⟨hfrom, hto⟩
  have hpage : other = page := by
    rw [← hother.pageOf_object hsecond]
    exact hheader.pageOf_place hobject hfrom hto
  subst hpage
  obtain ⟨first, -, rfl⟩ := hobject
  obtain ⟨index, -, rfl⟩ := hsecond
  rcases Nat.lt_trichotomy first index with hlt | heq | hgt
  · have hmul := Nat.mul_le_mul_right (state.header other).objSize (Nat.succ_le_of_lt hlt)
    rw [Nat.succ_mul] at hmul
    omega
  · exact hne (by rw [heq])
  · have hmul := Nat.mul_le_mul_right (state.header other).objSize (Nat.succ_le_of_lt hgt)
    rw [Nat.succ_mul] at hmul
    have hsize := hother.objSize_pos
    omega

end

/-! ### Slabs that do not change -/

theorem IsObject.congr (hheader : after.header page = state.header page) :
    IsObject after page object ↔ IsObject state page object := by
  unfold IsObject
  rw [hheader]

/-- A header that keeps its fixed fields stays sound, and the slab has the same objects. -/
theorem HeaderSound.keep (hheader : HeaderSound state page) (after : State)
    (hmagic : (after.header page).magic = (state.header page).magic)
    (hclass : (after.header page).classIndex = (state.header page).classIndex)
    (hsize : (after.header page).objSize = (state.header page).objSize)
    (htotal : (after.header page).totalObjs = (state.header page).totalObjs) :
    HeaderSound after page ∧ ∀ object, IsObject after page object ↔ IsObject state page object := by
  refine ⟨⟨hheader.placed, ?_, ?_, ?_, ?_⟩, fun object ↦ ?_⟩
  · rw [hmagic, hheader.magic]
  · rw [hclass]
    exact hheader.classIndex
  · rw [hsize, hclass, hheader.objSize]
  · rw [htotal, hsize, hheader.totalObjs]
  · unfold IsObject
    rw [htotal, hsize]

/-- A slab stays sound while its header, the words of its free objects and the liveness of its
objects stay. -/
theorem SlabSound.congr {stillLive : List ℕ} (hslab : SlabSound state live page)
    (hheader : after.header page = state.header page)
    (hword : ∀ object, IsObject state page object → object ∉ live →
      after.word object = state.word object)
    (hlive : ∀ object, IsObject state page object → (object ∈ stillLive ↔ object ∈ live)) :
    SlabSound after stillLive page := by
  obtain ⟨hkept, hobjects⟩ := hslab.toHeaderSound.keep after (by rw [hheader])
    (by rw [hheader]) (by rw [hheader]) (by rw [hheader])
  obtain ⟨free, hfree, hnotLive⟩ := hslab.free
  refine ⟨hkept, free, ⟨?_, hfree.nodup, fun object hobject ↦ ?_, ?_⟩, fun object hobject ↦ ?_⟩
  · rw [hheader]
    refine hfree.path.congr fun object hobject ↦ ?_
    have hisObject := hfree.objects object hobject
    rw [hword object hisObject ((hnotLive object hisObject).mp hobject)]
  · exact (hobjects object).mpr (hfree.objects object hobject)
  · rw [hheader, hfree.length]
  · have hisObject := (hobjects object).mp hobject
    rw [hnotLive object hisObject, hlive object hisObject]

end Objects

section Lists

variable {state after : State} {classIndex page : ℕ}

/-! ### The lists of the classes -/

section

variable (hlisted : Listed state classIndex)

include hlisted

/-- A list stays while its head, the links of its slabs and what belongs on it stay. -/
theorem Listed.congr (hhead : after.partialHead classIndex = state.partialHead classIndex)
    (hnext : ∀ page, HasFree state classIndex page →
      (after.header page).next = (state.header page).next)
    (hfree : ∀ page, HasFree after classIndex page ↔ HasFree state classIndex page) :
    Listed after classIndex := by
  obtain ⟨pages, hpath, hnodup, hmem⟩ := hlisted
  refine ⟨pages, ?_, hnodup, fun page ↦ (hmem page).trans (hfree page).symm⟩
  rw [hhead]
  refine hpath.congr fun page hpage ↦ ?_
  rw [hnext page ((hmem page).mp hpage)]

theorem Listed.head (hhead : state.partialHead classIndex ≠ 0) :
    HasFree state classIndex (state.partialHead classIndex) := by
  obtain ⟨pages, hpath, -, hmem⟩ := hlisted
  rw [pointer_of_ne hhead] at hpath
  cases pages with
  | nil => exact absurd hpath (Option.some_ne_none _)
  | cons page pages =>
    rw [← hmem, Option.some.inj hpath.1]
    exact List.mem_cons_self

/-- A slab that goes off the front of its list leaves the others on it. -/
theorem Listed.pop (hpage : page ≠ 0)
    (hhead : state.partialHead classIndex = page)
    (hnewHead : after.partialHead classIndex = (state.header page).next)
    (hnext : ∀ other, other ≠ page → (after.header other).next = (state.header other).next)
    (hfree : ∀ other, HasFree after classIndex other ↔
      HasFree state classIndex other ∧ other ≠ page) :
    Listed after classIndex := by
  obtain ⟨pages, hpath, hnodup, hmem⟩ := hlisted
  rw [hhead, pointer_of_ne hpage] at hpath
  cases pages with
  | nil => exact absurd hpath (Option.some_ne_none _)
  | cons first pages =>
    obtain rfl := Option.some.inj hpath.1
    obtain ⟨hnotMem, hnodup⟩ := List.nodup_cons.mp hnodup
    refine ⟨pages, ?_, hnodup, fun other ↦ ?_⟩
    · rw [hnewHead]
      refine hpath.2.congr fun other hother ↦ ?_
      rw [hnext other (ne_of_mem_of_not_mem hother hnotMem)]
    · rw [hfree, ← hmem, List.mem_cons]
      constructor
      · exact fun hother ↦ ⟨Or.inr hother, ne_of_mem_of_not_mem hother hnotMem⟩
      · rintro ⟨rfl | hother, hne⟩
        · exact absurd rfl hne
        · exact hother

/-- A slab that goes on the front of its list joins the others. -/
theorem Listed.push (hpage : page ≠ 0)
    (habsent : ¬HasFree state classIndex page) (hhead : after.partialHead classIndex = page)
    (hlink : (after.header page).next = state.partialHead classIndex)
    (hnext : ∀ other, other ≠ page → (after.header other).next = (state.header other).next)
    (hfree : ∀ other, HasFree after classIndex other ↔
      other = page ∨ HasFree state classIndex other) :
    Listed after classIndex := by
  obtain ⟨pages, hpath, hnodup, hmem⟩ := hlisted
  have hnotMem : page ∉ pages := by
    rw [hmem]
    exact habsent
  refine ⟨page :: pages, ?_, List.nodup_cons.mpr ⟨hnotMem, hnodup⟩, fun other ↦ ?_⟩
  · rw [hhead, pointer_of_ne hpage]
    refine ⟨rfl, ?_⟩
    change Path _ (pointer (after.header page).next) pages
    rw [hlink]
    refine hpath.congr fun other hother ↦ ?_
    rw [hnext other (ne_of_mem_of_not_mem hother hnotMem)]
  · rw [List.mem_cons, hmem, hfree]

end

end Lists

section Steps

variable {state after : State} {live free : List ℕ} {classIndex page object ptr : ℕ}

/-! ### One slab -/

/-- A call that changes one slab keeps the others sound. -/
theorem SlabSound.elsewhere {stillLive : List ℕ} {other : ℕ} (hslab : SlabSound state live other)
    (hne : other ≠ page) (hheader : after.header other = state.header other)
    (hword : ∀ place, pageOf place ≠ page → after.word place = state.word place)
    (hlive : ∀ object, pageOf object ≠ page → (object ∈ stillLive ↔ object ∈ live)) :
    SlabSound after stillLive other := by
  have helsewhere {object : ℕ} (hobject : IsObject state other object) : pageOf object ≠ page := by
    rw [hslab.pageOf_object hobject]
    exact hne
  exact hslab.congr hheader (fun object hobject _ ↦ hword object (helsewhere hobject))
    fun object hobject ↦ hlive object (helsewhere hobject)

/-- A slab with a free object has a free list with a first object. -/
theorem SlabSound.exists_cons (hslab : SlabSound state live page)
    (hhead : (state.header page).freeList ≠ 0) :
    ∃ object free, FreeListed state page (object :: free) ∧
      ∀ other, IsObject state page other → (other ∈ object :: free ↔ other ∉ live) := by
  obtain ⟨free, hfree, hnotLive⟩ := hslab.free
  cases free with
  | nil => exact absurd (pointer_eq_none hfree.path) hhead
  | cons object free => exact ⟨object, free, hfree, hnotLive⟩

/-! ### Taking an object -/

/-- The state after an object was popped off the free list of a slab. -/
def taken (state : State) (classIndex page : ℕ) : State :=
  let header := state.header page
  let next := state.word header.freeList
  { state with
    header := Function.update state.header page
      { header with
        freeList := next
        freeObjs := header.freeObjs - 1
        next := if next = 0 then 0 else header.next }
    partialHead :=
      if next = 0 then Function.update state.partialHead classIndex header.next
      else state.partialHead }

/-- The fast path takes the first object of a free list of objects. -/
theorem slabTake_eq (hheader : HeaderSound state page)
    (hfree : FreeListed state page (object :: free)) :
    slabTake state classIndex page = some (taken state classIndex page, object) := by
  have hobject := hfree.objects object List.mem_cons_self
  obtain ⟨hhead, -⟩ := pointer_eq_some hfree.path.1
  have hcount : (state.header page).freeObjs ≠ 0 := by
    rw [← hfree.length]
    exact Nat.succ_ne_zero _
  have hnext :
      ¬(state.word object ≠ 0 ∧ slabObjPtrIsValid state page (state.word object) = false) := by
    rintro ⟨hne, hinvalid⟩
    have hpath : Path _ (pointer (state.word object)) free := hfree.path.2
    rw [pointer_of_ne hne] at hpath
    cases free with
    | nil => exact Option.some_ne_none _ hpath
    | cons second free =>
      have hsecond := hfree.objects second (List.mem_cons_of_mem _ List.mem_cons_self)
      rw [Option.some.inj hpath.1, hheader.valid hsecond] at hinvalid
      exact Bool.noConfusion hinvalid
  unfold slabTake taken
  dsimp only
  rw [hhead, if_neg (by simp [hheader.valid hobject]), if_neg hnext, if_pos hcount]
  by_cases hlast : state.word object = 0
  · simp [hlast, popPartial, setHeader, setPartial]
  · simp [hlast, setHeader]

/-- Popping an object makes it live and leaves the slab sound. -/
theorem SlabSound.take (hslab : SlabSound state live page)
    (hfree : FreeListed state page (object :: free))
    (hnotLive : ∀ other, IsObject state page other → (other ∈ object :: free ↔ other ∉ live)) :
    SlabSound (taken state classIndex page) (object :: live) page := by
  have hself : (taken state classIndex page).header page = _ := Function.update_self ..
  obtain ⟨hhead, -⟩ := pointer_eq_some hfree.path.1
  obtain ⟨hkept, hobjects⟩ := hslab.toHeaderSound.keep (taken state classIndex page)
    (by rw [hself]) (by rw [hself]) (by rw [hself]) (by rw [hself])
  obtain ⟨hnotMem, hnodup⟩ := List.nodup_cons.mp hfree.nodup
  refine ⟨hkept, free, ⟨?_, hnodup, fun other hother ↦ ?_, ?_⟩, fun other hother ↦ ?_⟩
  · rw [hself]
    dsimp only
    rw [hhead]
    exact hfree.path.2
  · exact (hobjects other).mpr (hfree.objects other (List.mem_cons_of_mem _ hother))
  · rw [hself]
    dsimp only
    rw [← hfree.length, List.length_cons, Nat.add_sub_cancel]
  · have hiff := hnotLive other ((hobjects other).mp hother)
    rw [List.mem_cons] at hiff
    rw [List.mem_cons, not_or, ← hiff]
    constructor
    · intro hmem
      exact ⟨ne_of_mem_of_not_mem hmem hnotMem, Or.inr hmem⟩
    · rintro ⟨hne, hmem⟩
      exact hmem.resolve_left hne

/-- The lists of the classes after an object was popped off the slab at the head of one of them. -/
theorem listed_taken (hlisted : ∀ classIndex, Listed state classIndex) (hpage : page ≠ 0)
    (hfree : HasFree state classIndex page) (hhead : state.partialHead classIndex = page)
    (otherClass : ℕ) : Listed (taken state classIndex page) otherClass := by
  have hself : (taken state classIndex page).header page = _ := Function.update_self ..
  have hothers (other : ℕ) (hne : other ≠ page) :
      (taken state classIndex page).header other = state.header other :=
    Function.update_of_ne hne ..
  have hheads : (taken state classIndex page).partialHead = if state.word _ = 0 then _ else _ := rfl
  have hsame (someClass other : ℕ) (hne : other ≠ page) :
      HasFree (taken state classIndex page) someClass other ↔ HasFree state someClass other := by
    unfold HasFree
    rw [hothers other hne]
    rfl
  by_cases hclass : otherClass = classIndex
  · subst hclass
    by_cases hlast : state.word (state.header page).freeList = 0
    · refine (hlisted otherClass).pop hpage hhead ?_ (fun other hne ↦ by rw [hothers other hne])
        fun other ↦ ?_
      · rw [hheads, if_pos hlast, Function.update_self]
      · by_cases hne : other = page
        · subst hne
          simp [HasFree, hself, hlast]
        · simp [hsame otherClass other hne, hne]
    · refine (hlisted otherClass).congr ?_ (fun other _ ↦ ?_) fun other ↦ ?_
      · rw [hheads, if_neg hlast]
      · by_cases hne : other = page
        · rw [hne, hself]
          exact if_neg hlast
        · rw [hothers other hne]
      · by_cases hne : other = page
        · subst hne
          refine iff_of_true ⟨hfree.1, ?_, ?_⟩ hfree
          · rw [hself]
            exact hfree.2.1
          · rw [hself]
            exact hlast
        · exact hsame otherClass other hne
  · have hnotPage {other : ℕ} (hother : HasFree state otherClass other) : other ≠ page := by
      rintro rfl
      exact hclass (hother.2.1.symm.trans hfree.2.1)
    refine (hlisted otherClass).congr ?_ (fun other hother ↦ ?_) fun other ↦ ?_
    · rw [hheads]
      split_ifs
      · exact Function.update_of_ne hclass ..
      · rfl
    · rw [hothers other (hnotPage hother)]
    · by_cases hne : other = page
      · subst hne
        refine iff_of_false (fun hother ↦ hclass ?_) fun hother ↦ hnotPage hother rfl
        rw [← hfree.2.1, ← hother.2.1, hself]
      · exact hsame otherClass other hne

/-- Taking an object of the slab at the head of a list keeps the invariant. -/
theorem Sound.take (hsound : Sound ⟨state, live⟩) (hfree : HasFree state classIndex page)
    (hhead : state.partialHead classIndex = page) (hinited : state.inited = true) :
    ∃ after object, slabTake state classIndex page = some (after, object) ∧ object ≠ 0 ∧
      object ∉ live ∧ Sound ⟨after, object :: live⟩ := by
  have hslab : SlabSound state live page := hsound.slabs page hfree.1
  obtain ⟨object, free, hlist, hnotLive⟩ := hslab.exists_cons hfree.2.2
  have hobject := hlist.objects object List.mem_cons_self
  have hothers (other : ℕ) (hne : other ≠ page) :
      (taken state classIndex page).header other = state.header other :=
    Function.update_of_ne hne ..
  have hself : (taken state classIndex page).header page = _ := Function.update_self ..
  have hpage : page ≠ 0 := by
    have hkernel := hslab.placed.kernel
    simp only [kernelBase] at hkernel
    omega
  have hdead : object ∉ live := (hnotLive object hobject).mp List.mem_cons_self
  refine ⟨taken state classIndex page, object, slabTake_eq hslab.toHeaderSound hlist,
    hslab.object_ne hobject, hdead, ?_⟩
  have hobjects (other third : ℕ) (hthird : IsObject state other third) :
      IsObject (taken state classIndex page) other third := by
    by_cases hne : other = page
    · unfold IsObject
      rw [hne, hself]
      exact hne ▸ hthird
    · exact (IsObject.congr (hothers other hne)).mpr hthird
  constructor
  · intro other hother
    by_cases hne : other = page
    · subst hne
      exact hslab.take hlist hnotLive
    · refine (hsound.slabs other hother).elsewhere hne (hothers other hne) (fun _ _ ↦ rfl)
        fun third hthird ↦ ?_
      rw [List.mem_cons]
      refine or_iff_right ?_
      rintro rfl
      exact hthird (hslab.pageOf_object hobject)
  · exact listed_taken hsound.listed hpage hfree hhead
  · exact List.nodup_cons.mpr ⟨hdead, hsound.nodup⟩
  · intro third hthird
    rcases List.mem_cons.mp hthird with rfl | hthird
    · exact ⟨page, hfree.1, hobjects page _ hobject⟩
    · obtain ⟨other, hother, hisObject⟩ := hsound.owned third hthird
      exact ⟨other, hother, hobjects other third hisObject⟩
  · intro huninited
    exact absurd (hinited.symm.trans huninited) Bool.noConfusion

/-! ### New slabs -/

def newObjects (base objSize count : ℕ) : List ℕ :=
  ((List.range count).map fun index ↦ base + index * objSize).reverse

theorem mem_newObjects {base objSize count object : ℕ} :
    object ∈ newObjects base objSize count ↔ ∃ index < count, object = base + index * objSize := by
  simp only [newObjects, List.mem_reverse, List.mem_map, List.mem_range]
  exact exists_congr fun index ↦ and_congr_right fun _ ↦ eq_comm

theorem newObjects_succ (base objSize count : ℕ) :
    newObjects base objSize (count + 1) =
      (base + count * objSize) :: newObjects base objSize count := by
  simp [newObjects, List.range_succ]

theorem length_newObjects (base objSize count : ℕ) :
    (newObjects base objSize count).length = count := by
  simp [newObjects]

theorem lt_of_mem_newObjects {base objSize count object : ℕ} (hsize : 0 < objSize)
    (hobject : object ∈ newObjects base objSize count) : object < base + count * objSize := by
  obtain ⟨index, hindex, rfl⟩ := mem_newObjects.mp hobject
  have hmul := Nat.mul_lt_mul_of_pos_right hindex hsize
  omega

theorem nodup_newObjects {base objSize : ℕ} (hsize : 0 < objSize) (count : ℕ) :
    (newObjects base objSize count).Nodup := by
  induction count with
  | zero => exact List.nodup_nil
  | succ count ih =>
    rw [newObjects_succ]
    exact List.nodup_cons.mpr ⟨fun hmem ↦ lt_irrefl _ (lt_of_mem_newObjects hsize hmem), ih⟩

/-- The loop of `slab_new_page` threads the objects and changes no word outside of them. -/
theorem slabNewPageLoop_spec (state : State) (base : ℕ) {objSize : ℕ} (hbase : base ≠ 0)
    (hsize : 0 < objSize) (count : ℕ) :
    ∃ word, (slabNewPageLoop state base objSize count).1 = { state with word := word } ∧
      (∀ place, place < base ∨ base + count * objSize ≤ place → word place = state.word place) ∧
      Path (fun object ↦ pointer (word object))
        (pointer (slabNewPageLoop state base objSize count).2) (newObjects base objSize count) := by
  induction count with
  | zero => exact ⟨state.word, rfl, fun _ _ ↦ rfl, rfl⟩
  | succ count ih =>
    obtain ⟨word, hstate, hword, hpath⟩ := ih
    set object := base + count * objSize with hobject
    have hnext : base + (count + 1) * objSize = object + objSize := by
      rw [Nat.add_one_mul]
      omega
    have hround : slabNewPageLoop state base objSize (count + 1) =
        (setWord (poison (slabNewPageLoop state base objSize count).1 object objSize) object
          (slabNewPageLoop state base objSize count).2, object) := rfl
    rw [hround, hstate, hnext, newObjects_succ, ← hobject]
    refine ⟨_, rfl, fun place hplace ↦ ?_, pointer_of_ne (by omega), ?_⟩
    · rw [Function.update_of_ne (by omega)]
      exact (if_neg (by omega)).trans (hword place (by omega))
    · dsimp only
      rw [Function.update_self]
      refine hpath.congr fun other hother ↦ ?_
      have hlt := lt_of_mem_newObjects hsize hother
      rw [← hobject] at hlt
      rw [Function.update_of_ne (by omega)]
      exact congrArg pointer (if_neg (by omega))

/-- The header that `slab_new_page` writes, with the link to the slabs in front of which it goes. -/
def newHeader (classIndex freeList next : ℕ) : SlabHeader where
  magic := slabMagic
  classIndex := classIndex
  objSize := classSize classIndex
  totalObjs := (pageSize - slabHeaderBytes) / classSize classIndex
  freeObjs := (pageSize - slabHeaderBytes) / classSize classIndex
  freeList := freeList
  next := next

/-- The state in which a new slab is in front of the list of its class. -/
def withSlab (state : State) (classIndex page freeList : ℕ) (word : ℕ → ℕ) : State where
  inited := state.inited
  partialHead := Function.update state.partialHead classIndex page
  header := Function.update state.header page
    (newHeader classIndex freeList (state.partialHead classIndex))
  word := word
  slabs := page :: state.slabs

/-- The fields of a new slab fit into their sixteen bits, and a page has room for an object. -/
theorem classSize_total (hclass : classIndex < slabClassCount) :
    classIndex % 65536 = classIndex ∧ classSize classIndex % 65536 = classSize classIndex ∧
      (pageSize - slabHeaderBytes) / classSize classIndex % 65536 =
        (pageSize - slabHeaderBytes) / classSize classIndex ∧
      (pageSize - slabHeaderBytes) / classSize classIndex ≠ 0 :=
  have hall : ∀ classIndex < slabClassCount,
      classIndex % 65536 = classIndex ∧ classSize classIndex % 65536 = classSize classIndex ∧
        (pageSize - slabHeaderBytes) / classSize classIndex % 65536 =
          (pageSize - slabHeaderBytes) / classSize classIndex ∧
        (pageSize - slabHeaderBytes) / classSize classIndex ≠ 0 := by decide
  hall classIndex hclass

/-- A page becomes a slab with all of its objects on its free list. -/
theorem slabNewPage_spec (state : State) (hplaced : Placed page)
    (hclass : classIndex < slabClassCount) :
    ∃ word freeList,
      (slabNewPage state page classIndex (classSize classIndex)).2 = page ∧
      pushPartial (slabNewPage state page classIndex (classSize classIndex)).1 classIndex page =
        withSlab state classIndex page freeList word ∧
      (∀ place, pageOf place ≠ page → word place = state.word place) ∧
      Path (fun object ↦ pointer (word object)) (pointer freeList)
        (newObjects (page + slabHeaderBytes) (classSize classIndex)
          ((pageSize - slabHeaderBytes) / classSize classIndex)) := by
  obtain ⟨hclassMod, hsizeMod, htotalMod, htotal⟩ := classSize_total hclass
  have hsize : 0 < classSize classIndex := Nat.pow_pos (by decide)
  have hkernel : kernelBase ≤ page := hplaced.kernel
  have haligned : page % pageSize = 0 := hplaced.aligned
  simp only [kernelBase] at hkernel
  obtain ⟨word, hstate, hword, hpath⟩ := slabNewPageLoop_spec state
    (page + slabHeaderBytes) (by omega) hsize
    ((pageSize - slabHeaderBytes) / classSize classIndex)
  have hroom := Nat.div_mul_le_self (pageSize - slabHeaderBytes) (classSize classIndex)
  refine ⟨word, _, ?_, ?_, fun place hplace ↦ hword place ?_, hpath⟩
  · unfold slabNewPage
    rw [if_neg (by omega)]
    dsimp only
    rw [if_neg htotal]
  · unfold slabNewPage
    rw [if_neg (by omega)]
    dsimp only
    rw [if_neg htotal, hclassMod, hsizeMod, htotalMod, hstate]
    simp [pushPartial, setPartial, setHeader, withSlab, newHeader]
  · simp only [pageOf, pageSize, slabHeaderBytes] at hplace haligned hroom ⊢
    omega

theorem Sound.not_live (hsound : Sound ⟨state, live⟩) (hfresh : page ∉ state.slabs)
    (hobject : object ∈ live) : pageOf object ≠ page := by
  obtain ⟨other, hother, hisObject⟩ := hsound.owned object hobject
  rw [(hsound.slabs other hother).pageOf_object hisObject]
  exact ne_of_mem_of_not_mem hother hfresh

/-- A new slab in front of the list of its class keeps the invariant. -/
theorem Sound.newSlab {freeList : ℕ} {word : ℕ → ℕ} (hsound : Sound ⟨state, live⟩)
    (hplaced : Placed page) (hfresh : page ∉ state.slabs) (hclass : classIndex < slabClassCount)
    (hinited : state.inited = true)
    (hword : ∀ place, pageOf place ≠ page → word place = state.word place)
    (hpath : Path (fun object ↦ pointer (word object)) (pointer freeList)
      (newObjects (page + slabHeaderBytes) (classSize classIndex)
        ((pageSize - slabHeaderBytes) / classSize classIndex))) :
    Sound ⟨withSlab state classIndex page freeList word, live⟩ ∧
      HasFree (withSlab state classIndex page freeList word) classIndex page := by
  have hself : (withSlab state classIndex page freeList word).header page =
      newHeader classIndex freeList (state.partialHead classIndex) := Function.update_self ..
  have hothers (other : ℕ) (hne : other ≠ page) :
      (withSlab state classIndex page freeList word).header other = state.header other :=
    Function.update_of_ne hne ..
  have hheads (otherClass : ℕ) (hne : otherClass ≠ classIndex) :
      (withSlab state classIndex page freeList word).partialHead otherClass =
        state.partialHead otherClass := Function.update_of_ne hne ..
  obtain ⟨-, -, -, htotal⟩ := classSize_total hclass
  have hpage : page ≠ 0 := by
    have hkernel := hplaced.kernel
    simp only [kernelBase] at hkernel
    omega
  have hheader : HeaderSound (withSlab state classIndex page freeList word) page := by
    constructor
    · exact hplaced
    all_goals rw [hself]
    · rfl
    · exact hclass
    · rfl
    · rfl
  have hobjects (object : ℕ) : IsObject (withSlab state classIndex page freeList word) page
      object ↔ object ∈ newObjects (page + slabHeaderBytes) (classSize classIndex)
        ((pageSize - slabHeaderBytes) / classSize classIndex) := by
    unfold IsObject
    rw [hself, mem_newObjects]
    rfl
  have hfreeList : freeList ≠ 0 := by
    rintro rfl
    have hempty := hpath.unique (show Path _ (pointer 0) [] from rfl)
    have hlength := length_newObjects (page + slabHeaderBytes) (classSize classIndex)
      ((pageSize - slabHeaderBytes) / classSize classIndex)
    rw [hempty] at hlength
    exact htotal hlength.symm
  have hhas : HasFree (withSlab state classIndex page freeList word) classIndex page := by
    refine ⟨List.mem_cons_self, ?_, ?_⟩
    · rw [hself]
      rfl
    · rw [hself]
      exact hfreeList
  have hsame (someClass other : ℕ) (hne : other ≠ page) :
      HasFree (withSlab state classIndex page freeList word) someClass other ↔
        HasFree state someClass other := by
    unfold HasFree
    rw [hothers other hne]
    exact and_congr_left fun _ ↦ List.mem_cons.trans (or_iff_right hne)
  refine ⟨⟨fun other hother ↦ ?_, fun otherClass ↦ ?_, hsound.nodup, fun object hobject ↦ ?_, ?_⟩,
    hhas⟩
  · by_cases hne : other = page
    · subst hne
      refine ⟨hheader, _, ⟨?_, ?_, fun object hobject ↦ (hobjects object).mpr hobject, ?_⟩,
        fun object hobject ↦ ?_⟩
      · rw [hself]
        exact hpath
      · exact nodup_newObjects (Nat.pow_pos (by decide)) _
      · rw [hself, length_newObjects]
        rfl
      · refine iff_of_true ((hobjects object).mp hobject) fun hlive ↦ ?_
        exact hsound.not_live hfresh hlive (hheader.pageOf_object hobject)
    · have hold : other ∈ state.slabs := (List.mem_cons.mp hother).resolve_left hne
      exact (hsound.slabs other hold).elsewhere hne (hothers other hne) hword fun _ _ ↦ Iff.rfl
  · by_cases hne : otherClass = classIndex
    · subst hne
      refine (hsound.listed otherClass).push hpage (fun hold ↦ hfresh hold.1)
        (Function.update_self ..) ?_ (fun other hother ↦ by rw [hothers other hother])
        fun other ↦ ?_
      · rw [hself]
        rfl
      · by_cases hother : other = page
        · exact iff_of_true (hother ▸ hhas) (Or.inl hother)
        · rw [hsame otherClass other hother, or_iff_right hother]
    · refine (hsound.listed otherClass).congr (hheads otherClass hne) (fun other hother ↦ ?_)
        fun other ↦ ?_
      · rw [hothers other (ne_of_mem_of_not_mem hother.1 hfresh)]
      · by_cases hother : other = page
        · subst hother
          refine iff_of_false (fun hnew ↦ hne ?_) fun hold ↦ hfresh hold.1
          rw [← hnew.2.1, hself]
          rfl
        · exact hsame otherClass other hother
  · obtain ⟨other, hother, hisObject⟩ := hsound.owned object hobject
    refine ⟨other, List.mem_cons_of_mem _ hother, ?_⟩
    exact (IsObject.congr (hothers other (ne_of_mem_of_not_mem hother hfresh))).mpr hisObject
  · intro huninited
    exact absurd (hinited.symm.trans huninited) Bool.noConfusion

/-! ### Giving an object back -/

/-- The state after an object was pushed on the free list of its slab. -/
def given (state : State) (page ptr : ℕ) : State where
  inited := state.inited
  partialHead :=
    if (state.header page).freeObjs = 0 then
      Function.update state.partialHead (state.header page).classIndex page
    else state.partialHead
  header := Function.update state.header page
    { state.header page with
      freeList := ptr
      freeObjs := (state.header page).freeObjs + 1
      next :=
        if (state.header page).freeObjs = 0 then
          state.partialHead (state.header page).classIndex
        else (state.header page).next }
  word := Function.update (poison state ptr (state.header page).objSize).word ptr
    (state.header page).freeList
  slabs := state.slabs

/-- A slab with a live object has room on its free list. -/
theorem FreeListed.lt_totalObjs (hfree : FreeListed state page free)
    (hobject : IsObject state page ptr) (habsent : ptr ∉ free) :
    (state.header page).freeObjs < (state.header page).totalObjs := by
  have hnodup : (ptr :: free).Nodup := List.nodup_cons.mpr ⟨habsent, hfree.nodup⟩
  have hsubset : ptr :: free ⊆ newObjects (page + slabHeaderBytes) (state.header page).objSize
      (state.header page).totalObjs := by
    intro object hmem
    rw [mem_newObjects]
    rcases List.mem_cons.mp hmem with rfl | hmem
    · exact hobject
    · exact hfree.objects object hmem
  have hlength := (List.subperm_of_subset hnodup hsubset).length_le
  rw [length_newObjects, List.length_cons, hfree.length] at hlength
  exact hlength

/-- The end of `slab_free` pushes the object. -/
theorem slabGive_eq (hroom : (state.header page).freeObjs < (state.header page).totalObjs) :
    slabGive state page ptr = given state page ptr := by
  unfold slabGive given
  dsimp only
  rw [if_pos hroom]
  by_cases hfull : (state.header page).freeObjs = 0
  · simp [hfull, pushPartial, setHeader, setPartial, setWord, poison]
  · simp [hfull, setHeader, setWord, poison]

/-- The loop of `slab_freelist_contains` finds nothing that is not on the list. -/
theorem slabFreelistContainsLoop_eq_false (habsent : ptr ∉ free) {current : ℕ}
    (hpath : Path (fun object ↦ pointer (state.word object)) (pointer current) free) (bound : ℕ) :
    slabFreelistContainsLoop state page ptr bound current = false := by
  induction bound generalizing current free with
  | zero => rfl
  | succ bound ih =>
    unfold slabFreelistContainsLoop
    cases free with
    | nil => rw [if_pos (pointer_eq_none hpath)]
    | cons object free =>
      obtain ⟨hcurrent, hne⟩ := pointer_eq_some hpath.1
      obtain ⟨hptr, habsent⟩ := not_or.mp (mt List.mem_cons.mpr habsent)
      rw [if_neg hne, if_neg (by rw [hcurrent]; exact Ne.symm hptr), hcurrent,
        ih habsent hpath.2]
      exact ite_self _

/-- `slab_free` passes its checks on a live object. -/
theorem Sound.slabFree_eq (hsound : Sound ⟨state, live⟩) (hlive : ptr ∈ live) :
    ∃ page, page ∈ state.slabs ∧ IsObject state page ptr ∧
      slabFree state ptr = some (given state page ptr, 1) := by
  obtain ⟨page, hpage, hobject⟩ := hsound.owned ptr hlive
  have hslab : SlabSound state live page := hsound.slabs page hpage
  obtain ⟨free, hfree, hnotLive⟩ := hslab.free
  have habsent : ptr ∉ free := fun hmem ↦ (hnotLive ptr hobject).mp hmem hlive
  have hcontains : slabFreelistContains state page ptr = false := by
    unfold slabFreelistContains
    rw [slabFreelistContainsLoop_eq_false habsent hfree.path]
    exact ite_self _
  refine ⟨page, hpage, hobject, ?_⟩
  unfold slabFree
  dsimp only
  rw [hslab.pageOf_object hobject, if_neg (hslab.object_ne hobject),
    if_neg (by simp [hslab.owns hobject]), if_neg (not_le.mpr hslab.classIndex),
    if_neg (by simp [hslab.valid hobject]), if_neg (by simp [hcontains]),
    slabGive_eq (hfree.lt_totalObjs hobject habsent)]

/-- The counter of a slab is zero just where its free list is empty. -/
theorem FreeListed.freeObjs_eq_zero (hfree : FreeListed state page free) :
    (state.header page).freeObjs = 0 ↔ (state.header page).freeList = 0 := by
  rw [← hfree.length, List.length_eq_zero_iff]
  constructor
  · rintro rfl
    exact pointer_eq_none hfree.path
  · intro hempty
    refine hfree.path.unique ?_
    rw [hempty]
    exact rfl

/-- Pushing a live object makes it free and leaves the slab sound. -/
theorem SlabSound.give (hslab : SlabSound state live page) (hobject : IsObject state page ptr)
    (hnodup : live.Nodup) (hlive : ptr ∈ live) :
    SlabSound (given state page ptr) (live.erase ptr) page := by
  have hself : (given state page ptr).header page = _ := Function.update_self ..
  obtain ⟨hkept, hobjects⟩ := hslab.toHeaderSound.keep (given state page ptr)
    (by rw [hself]) (by rw [hself]) (by rw [hself]) (by rw [hself])
  obtain ⟨free, hfree, hnotLive⟩ := hslab.free
  have habsent : ptr ∉ free := fun hmem ↦ (hnotLive ptr hobject).mp hmem hlive
  refine ⟨hkept, ptr :: free, ⟨?_, List.nodup_cons.mpr ⟨habsent, hfree.nodup⟩,
    fun other hother ↦ ?_, ?_⟩, fun other hother ↦ ?_⟩
  · rw [hself]
    refine ⟨pointer_of_ne (hslab.object_ne hobject), ?_⟩
    have hword : (given state page ptr).word ptr = (state.header page).freeList :=
      Function.update_self ..
    dsimp only
    rw [hword]
    refine hfree.path.congr fun other hother ↦ congrArg pointer ?_
    have hne : other ≠ ptr := ne_of_mem_of_not_mem hother habsent
    refine (Function.update_of_ne hne ..).trans (if_neg ?_)
    exact hslab.outside hslab.toHeaderSound hobject (hfree.objects other hother) hne
  · rw [hobjects]
    rcases List.mem_cons.mp hother with rfl | hother
    · exact hobject
    · exact hfree.objects other hother
  · rw [hself, List.length_cons, hfree.length]
  · have hiff := hnotLive other ((hobjects other).mp hother)
    rw [List.mem_cons, hnodup.mem_erase_iff, not_and_or, not_not, hiff]

/-- The lists of the classes after an object was pushed on the free list of a slab. -/
theorem listed_given (hlisted : ∀ classIndex, Listed state classIndex) (hpage : page ≠ 0)
    (hmem : page ∈ state.slabs) (hptr : ptr ≠ 0) (hfree : FreeListed state page free)
    (classIndex : ℕ) : Listed (given state page ptr) classIndex := by
  have hself : (given state page ptr).header page = _ := Function.update_self ..
  have hothers (other : ℕ) (hne : other ≠ page) :
      (given state page ptr).header other = state.header other := Function.update_of_ne hne ..
  have hheads : (given state page ptr).partialHead =
    if (state.header page).freeObjs = 0 then _ else _ := rfl
  have hsame (other : ℕ) (hne : other ≠ page) :
      HasFree (given state page ptr) classIndex other ↔ HasFree state classIndex other := by
    unfold HasFree
    rw [hothers other hne]
    rfl
  have hhas : HasFree (given state page ptr) classIndex page ↔
      (state.header page).classIndex = classIndex := by
    unfold HasFree
    rw [hself]
    exact ⟨fun hhas ↦ hhas.2.1, fun hclass ↦ ⟨hmem, hclass, hptr⟩⟩
  by_cases hfull : (state.header page).freeObjs = 0
  · have habsent (someClass : ℕ) : ¬HasFree state someClass page :=
      fun hold ↦ hold.2.2 (hfree.freeObjs_eq_zero.mp hfull)
    by_cases hclass : (state.header page).classIndex = classIndex
    · refine (hlisted classIndex).push hpage (habsent classIndex) ?_ ?_
        (fun other hne ↦ by rw [hothers other hne]) fun other ↦ ?_
      · rw [hheads, if_pos hfull, hclass, Function.update_self]
      · rw [hself, ← hclass]
        exact if_pos hfull
      · by_cases hne : other = page
        · subst hne
          exact iff_of_true (hhas.mpr hclass) (Or.inl rfl)
        · rw [hsame other hne, or_iff_right hne]
    · refine (hlisted classIndex).congr ?_ (fun other hother ↦ ?_) fun other ↦ ?_
      · rw [hheads, if_pos hfull]
        exact Function.update_of_ne (Ne.symm hclass) ..
      · have hne : other ≠ page := by
          rintro rfl
          exact habsent classIndex hother
        rw [hothers other hne]
      · by_cases hne : other = page
        · subst hne
          exact iff_of_false (mt hhas.mp hclass) (habsent classIndex)
        · exact hsame other hne
  · have hopen : (state.header page).freeList ≠ 0 := mt hfree.freeObjs_eq_zero.mpr hfull
    refine (hlisted classIndex).congr ?_ (fun other _ ↦ ?_) fun other ↦ ?_
    · rw [hheads, if_neg hfull]
    · by_cases hne : other = page
      · rw [hne, hself]
        exact if_neg hfull
      · rw [hothers other hne]
    · by_cases hne : other = page
      · subst hne
        rw [hhas]
        exact ⟨fun hclass ↦ ⟨hmem, hclass, hopen⟩, fun hold ↦ hold.2.1⟩
      · exact hsame other hne

/-- Giving a live object back keeps the invariant. -/
theorem Sound.give (hsound : Sound ⟨state, live⟩) (hpage : page ∈ state.slabs)
    (hobject : IsObject state page ptr) (hlive : ptr ∈ live) :
    Sound ⟨given state page ptr, live.erase ptr⟩ := by
  have hslab : SlabSound state live page := hsound.slabs page hpage
  have hnodup : live.Nodup := hsound.nodup
  have hself : (given state page ptr).header page = _ := Function.update_self ..
  have hothers (other : ℕ) (hne : other ≠ page) :
      (given state page ptr).header other = state.header other := Function.update_of_ne hne ..
  have hnull : page ≠ 0 := by
    have hkernel := hslab.placed.kernel
    simp only [kernelBase] at hkernel
    omega
  obtain ⟨free, hfree, -⟩ := hslab.free
  constructor
  · intro other hother
    by_cases hne : other = page
    · subst hne
      exact hslab.give hobject hnodup hlive
    · refine (hsound.slabs other hother).elsewhere hne (hothers other hne) (fun place hplace ↦ ?_)
        fun third hthird ↦ ?_
      · have houtside : ¬(ptr ≤ place ∧ place < ptr + (state.header page).objSize) :=
          fun hinside ↦ hplace (hslab.pageOf_place hobject hinside.1 hinside.2)
        have hsize := hslab.objSize_pos
        refine (Function.update_of_ne ?_ ..).trans (if_neg houtside)
        rintro rfl
        exact houtside ⟨le_rfl, by omega⟩
      · rw [hnodup.mem_erase_iff]
        refine and_iff_right ?_
        rintro rfl
        exact hthird (hslab.pageOf_object hobject)
  · exact listed_given hsound.listed hnull hpage (hslab.object_ne hobject) hfree
  · exact hnodup.erase ptr
  · intro third hthird
    obtain ⟨other, hother, hisObject⟩ := hsound.owned third (List.mem_of_mem_erase hthird)
    refine ⟨other, hother, ?_⟩
    by_cases hne : other = page
    · unfold IsObject
      rw [hne, hself]
      exact hne ▸ hisObject
    · exact (IsObject.congr (hothers other hne)).mpr hisObject
  · exact hsound.uninited

/-! ### Stores -/

/-- A store inside a live object, or outside of the slabs, keeps the invariant. -/
theorem Sound.store {address : ℕ} (hsound : Sound ⟨state, live⟩) (value : ℕ)
    (hinside : (∃ object ∈ live, object ≤ address ∧
        address < object + (state.header (pageOf object)).objSize) ∨
      pageOf address ∉ state.slabs) :
    Sound ⟨setWord state address value, live⟩ := by
  refine ⟨fun page hpage ↦ ?_, hsound.listed, hsound.nodup, hsound.owned, hsound.uninited⟩
  have hslab : SlabSound state live page := hsound.slabs page hpage
  refine hslab.congr rfl (fun object hobject hdead ↦ Function.update_of_ne ?_ ..) fun _ _ ↦ Iff.rfl
  rintro rfl
  rcases hinside with ⟨holder, hholder, hfrom, hto⟩ | houtside
  · obtain ⟨other, hother, hisObject⟩ := hsound.owned holder hholder
    have hotherSlab : SlabSound state live other := hsound.slabs other hother
    rw [hotherSlab.pageOf_object hisObject] at hto
    refine hotherSlab.outside hslab.toHeaderSound hisObject hobject ?_ ⟨hfrom, hto⟩
    rintro rfl
    exact hdead hholder
  · rw [hslab.pageOf_object hobject] at houtside
    exact houtside hpage

end Steps

section Histories

variable {state : State} {live : List ℕ} {page : ℕ}

/-! ### Every event -/

/-- Nothing is allocated before the first call. -/
theorem sound_idle (header : ℕ → SlabHeader) (word : ℕ → ℕ) : Sound (idle header word) where
  slabs := by simp [idle, boot]
  listed := fun _ ↦ ⟨[], rfl, List.nodup_nil, by simp [HasFree, idle, boot]⟩
  nodup := List.nodup_nil
  owned := by simp [idle]
  uninited := fun _ ↦ rfl

/-- `slab_init` clears the lists only while there are no slabs. -/
theorem Sound.init (hsound : Sound ⟨state, live⟩) :
    Sound ⟨slabInit state, live⟩ ∧ (slabInit state).inited = true ∧
      (slabInit state).slabs = state.slabs := by
  unfold slabInit
  cases hinited : state.inited with
  | true => exact ⟨hsound, hinited, rfl⟩
  | false =>
    rw [if_neg Bool.false_ne_true]
    have hempty : state.slabs = [] := hsound.uninited hinited
    refine ⟨⟨by simp [hempty], fun classIndex ↦ ⟨[], rfl, List.nodup_nil, fun page ↦ ?_⟩,
      hsound.nodup, hsound.owned, fun _ ↦ hempty⟩, rfl, rfl⟩
    simp [HasFree, hempty]

/-- A size that is not too large has one of the classes. -/
theorem slabClassIndexForSize_lt {size : ℕ} (hclass : slabClassIndexForSize size ≠ noClass) :
    slabClassIndexForSize size < slabClassCount := by
  unfold slabClassIndexForSize at *
  dsimp only at *
  split_ifs at * with hlarge
  · exact absurd rfl hclass
  · simp only [slabClassCount, slabMaxShift, slabMinShift] at *
    omega

theorem Sound.null_not_live (hsound : Sound ⟨state, live⟩) : 0 ∉ live := by
  intro hlive
  obtain ⟨page, hpage, hobject⟩ := hsound.owned 0 hlive
  exact (hsound.slabs page hpage).object_ne hobject rfl

/-- `slab_alloc` passes its checks, returns no live object and keeps the invariant. -/
theorem Sound.alloc (hsound : Sound ⟨state, live⟩)
    (hpage : page = 0 ∨ Placed page ∧ page ∉ state.slabs) (frames size : ℕ) :
    ∃ after object, slabAlloc state frames page size = some (after, object) ∧ object ∉ live ∧
      Sound ⟨after, if object = 0 then live else object :: live⟩ := by
  obtain ⟨hready, hinited, hslabs⟩ := hsound.init
  have hnothing : 0 ∉ live ∧ Sound ⟨slabInit state, if 0 = 0 then live else 0 :: live⟩ :=
    ⟨hsound.null_not_live, hready⟩
  rw [← hslabs] at hpage
  unfold slabAlloc
  generalize slabInit state = ready at *
  dsimp only
  by_cases hframes : frames = 0
  · rw [if_pos hframes]
    exact ⟨ready, 0, rfl, hnothing⟩
  rw [if_neg hframes]
  by_cases hsize : u32 size = 0
  · rw [if_pos hsize]
    exact ⟨ready, 0, rfl, hnothing⟩
  rw [if_neg hsize]
  by_cases hclass : slabClassIndexForSize (u32 size) = noClass
  · rw [if_pos hclass]
    exact ⟨ready, 0, rfl, hnothing⟩
  rw [if_neg hclass]
  have hclassLt := slabClassIndexForSize_lt hclass
  generalize slabClassIndexForSize (u32 size) = classIndex at *
  have htake {taker : State} {slab : ℕ} (htaker : Sound ⟨taker, live⟩)
      (hfree : HasFree taker classIndex slab) (hhead : taker.partialHead classIndex = slab)
      (htakerInited : taker.inited = true) :
      ∃ after object, slabTake taker classIndex slab = some (after, object) ∧ object ∉ live ∧
        Sound ⟨after, if object = 0 then live else object :: live⟩ := by
    obtain ⟨after, object, heq, hne, hdead, hafter⟩ := htaker.take hfree hhead htakerInited
    refine ⟨after, object, heq, hdead, ?_⟩
    rw [if_neg hne]
    exact hafter
  by_cases hhead : ready.partialHead classIndex = 0
  · rw [if_pos (Or.inl hhead)]
    rcases hpage with rfl | ⟨hplaced, hfresh⟩
    · have hnone : slabNewPage ready 0 classIndex (classSize classIndex) = (ready, 0) := rfl
      rw [hnone, if_pos rfl]
      exact ⟨ready, 0, rfl, hnothing⟩
    · obtain ⟨word, freeList, hresult, hpushed, hword, hpath⟩ :=
        slabNewPage_spec ready hplaced hclassLt
      have hnull : page ≠ 0 := by
        have hkernel := hplaced.kernel
        simp only [kernelBase] at hkernel
        omega
      rw [hresult, if_neg hnull, hpushed]
      obtain ⟨hsoundNew, hfree⟩ := hready.newSlab hplaced hfresh hclassLt hinited hword hpath
      exact htake hsoundNew hfree (Function.update_self ..) hinited
  · have hfree := (hready.listed classIndex).head hhead
    rw [if_neg (not_or.mpr ⟨hhead, hfree.2.2⟩)]
    exact htake hready hfree rfl hinited

/-- Every event that is promised keeps the invariant. -/
theorem Sound.step {traffic next : Traffic} {event : Event} (hsound : Sound traffic)
    (hpromised : Promised traffic event) (hstep : step traffic event = some next) :
    Sound next := by
  obtain ⟨state, live⟩ := traffic
  cases event with
  | alloc frames page size =>
    obtain ⟨after, object, heq, -, hafter⟩ := hsound.alloc hpromised frames size
    simp only [Slab.step, heq, Option.map_some, Option.some.injEq] at hstep
    rw [← hstep]
    exact hafter
  | free ptr =>
    rcases hpromised with rfl | hlive
    · have hnull : slabFree state 0 = some (state, 1) := rfl
      simp only [Slab.step, hnull, Option.map_some, Option.some.injEq] at hstep
      rw [← hstep, List.erase_of_not_mem hsound.null_not_live]
      exact hsound
    · obtain ⟨page, hpage, hobject, heq⟩ := hsound.slabFree_eq hlive
      simp only [Slab.step, heq, Option.map_some, Option.some.injEq] at hstep
      rw [← hstep]
      exact hsound.give hpage hobject hlive
  | store address value =>
    obtain rfl := Option.some.inj hstep
    exact hsound.store value hpromised

/-- In every history the free list of each slab holds its objects that are not live, each once, and
is as long as its counter says, and the list of each class holds its slabs with a free object, each
once. The next allocation panics nowhere and returns no live object, and a live object is freed
without a panic. -/
theorem slab_invariant {header : ℕ → SlabHeader} {word : ℕ → ℕ} {events : List Event}
    {traffic : Traffic}
    (hrun : Run (Guarded Promised (Fires step)) (idle header word) events traffic) :
    (∀ page ∈ traffic.slab.slabs, SlabSound traffic.slab traffic.live page) ∧
      (∀ classIndex < slabClassCount, Listed traffic.slab classIndex) ∧ traffic.live.Nodup ∧
      (∀ frames page size, Promised traffic (.alloc frames page size) →
        ∃ after object, slabAlloc traffic.slab frames page size = some (after, object) ∧
          object ∉ traffic.live) ∧
      ∀ ptr ∈ traffic.live, ∃ after, slabFree traffic.slab ptr = some (after, 1) := by
  have hsound : Sound traffic := hrun.guarded_invariant
    (fun _ _ _ hbefore hpromised hstep ↦ hbefore.step hpromised hstep) (sound_idle header word)
  refine ⟨hsound.slabs, fun classIndex _ ↦ hsound.listed classIndex, hsound.nodup,
    fun frames page size hpromised ↦ ?_, fun ptr hptr ↦ ?_⟩
  · obtain ⟨after, object, heq, hdead, -⟩ := hsound.alloc hpromised frames size
    exact ⟨after, object, heq, hdead⟩
  · obtain ⟨page, -, -, heq⟩ := hsound.slabFree_eq hptr
    exact ⟨_, heq⟩

/-- Memory of zeros before the first call. -/
def blank : Traffic := idle (fun _ ↦ ⟨0, 0, 0, 0, 0, 0, 0⟩) fun _ ↦ 0

/-- The one object of a slab of the largest class, which is allocated and then freed. -/
def drained : List Event := [.alloc 1 0xC0100000 2000, .free 0xC0100014]

/-- The events of the example are computed through, and the slab is back on the list of its
class. -/
theorem slab_invariant_drained : ∃ traffic, runLabels step blank drained = some traffic ∧
    traffic.slab.partialHead 7 = 0xC0100000 ∧ Listed traffic.slab 7 ∧
      SlabSound traffic.slab [] 0xC0100000 := by
  have hfirst : (step blank (.alloc 1 0xC0100000 2000)).isSome = true := by decide +kernel
  obtain ⟨allocated, hallocated⟩ := Option.isSome_iff_exists.mp hfirst
  have hlive : allocated.live = [0xC0100014] := by
    have hcomputed : (step blank (.alloc 1 0xC0100000 2000)).map (·.live) = some [0xC0100014] := by
      decide +kernel
    rw [hallocated] at hcomputed
    exact Option.some.inj hcomputed
  have hsecond : ((runLabels step blank drained).map fun traffic ↦
      (traffic.live, traffic.slab.slabs, traffic.slab.partialHead 7)) =
        some ([], [0xC0100000], 0xC0100000) := by decide +kernel
  obtain ⟨traffic, htraffic, hfields⟩ := Option.map_eq_some_iff.mp hsecond
  simp only [Prod.mk.injEq] at hfields
  obtain ⟨hdead, hslabs, hhead⟩ := hfields
  have hlast : step allocated (.free 0xC0100014) = some traffic := by
    have hcomputed := htraffic
    simp only [drained, runLabels, hallocated, Option.bind_some, Option.bind_eq_some_iff,
      Option.some.injEq] at hcomputed
    obtain ⟨next, hnext, rfl⟩ := hcomputed
    exact hnext
  have hrun : Run (Guarded Promised (Fires step)) blank drained traffic := by
    have hfresh : Promised blank (.alloc 1 0xC0100000 2000) :=
      Or.inr ⟨⟨by decide, by decide, by decide⟩, List.not_mem_nil⟩
    have hheld : Promised allocated (.free 0xC0100014) :=
      Or.inr (by rw [hlive]; exact List.mem_singleton_self _)
    exact Run.append (Run.snoc Run.refl ⟨hfresh, hallocated⟩) (Run.snoc Run.refl ⟨hheld, hlast⟩)
  obtain ⟨hslabsSound, hlisted, -⟩ := slab_invariant hrun
  refine ⟨traffic, htraffic, hhead, hlisted 7 (by decide), ?_⟩
  rw [← hdead]
  exact hslabsSound _ (by rw [hslabs]; exact List.mem_singleton_self _)

end Histories

end EynOS.Memory.Slab
