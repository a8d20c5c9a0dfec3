import Mathlib.Data.Fintype.Card

/-!
# Queues threaded through one link table

First-in first-out queues whose entries are the indices of one table: each queue has its first and
its last entry, the table has one link and one bit for each index. `Carries` says that following the
links from the heads gives a list for each queue, that no index is on two of them or twice on one,
and that the bit is set exactly for the listed indices. Under it `enqueue` appends to one list,
`remove` erases an index wherever it is and `popFrom` takes the first entry of the first queue that
has one.
-/

namespace EynOS.Foundation

variable {Level Index : Type*}

/-- Queues by level over one table of indices. -/
structure ThreadedQueues (Level Index : Type*) where
  head : Level → Option Index
  tail : Level → Option Index
  next : Index → Option Index
  queued : Index → Bool

/-- Following the links from a start gives a list. -/
def Path (next : Index → Option Index) : Option Index → List Index → Prop
  | start, [] => start = none
  | start, index :: rest => start = some index ∧ Path next (next index) rest

namespace ThreadedQueues

/-- Queues without entries. -/
def clear : ThreadedQueues Level Index where
  head := fun _ ↦ none
  tail := fun _ ↦ none
  next := fun _ ↦ none
  queued := fun _ ↦ false

section Operations

variable [DecidableEq Level] [DecidableEq Index]

/-- Link an index behind the last entry of a queue, unless its bit is set. -/
def enqueue (queues : ThreadedQueues Level Index) (level : Level) (index : Index) :
    ThreadedQueues Level Index :=
  if queues.queued index then queues
  else
    match queues.tail level with
    | some last =>
      { head := queues.head
        tail := Function.update queues.tail level (some index)
        next := Function.update (Function.update queues.next index none) last (some index)
        queued := Function.update queues.queued index true }
    | none =>
      { head := Function.update queues.head level (some index)
        tail := Function.update queues.tail level (some index)
        next := Function.update queues.next index none
        queued := Function.update queues.queued index true }

/-- Forget the link and the bit of an index. -/
def release (queues : ThreadedQueues Level Index) (index : Index) : ThreadedQueues Level Index :=
  { queues with
    next := Function.update queues.next index none
    queued := Function.update queues.queued index false }

/-- Scan for an index along the links. What is found is the entry that the scan saw before it. -/
def predecessor (next : Index → Option Index) (index : Index) :
    ℕ → Option Index → Option Index → Option (Option Index)
  | 0, _, _ => none
  | _ + 1, _, none => none
  | bound + 1, previous, some current =>
    if current = index then some previous
    else predecessor next index bound (some current) (next current)

/-- Take an index out of a queue in which it follows `previous`. -/
def unlink (queues : ThreadedQueues Level Index) (level : Level) (index : Index)
    (previous : Option Index) : ThreadedQueues Level Index :=
  release
    { head :=
        match previous with
        | some _ => queues.head
        | none => Function.update queues.head level (queues.next index)
      tail :=
        if queues.tail level = some index then Function.update queues.tail level previous
        else queues.tail
      next :=
        match previous with
        | some before => Function.update queues.next before (queues.next index)
        | none => queues.next
      queued := queues.queued } index

/-- Take an index out of the first of the queues on which a bounded scan finds it. -/
def removeFrom (bound : ℕ) (queues : ThreadedQueues Level Index) (index : Index) :
    List Level → ThreadedQueues Level Index
  | [] => queues.release index
  | level :: levels =>
    match predecessor queues.next index bound none (queues.head level) with
    | some previous => queues.unlink level index previous
    | none => removeFrom bound queues index levels

/-- Take an index out of its queue, if its bit is set. -/
def remove (bound : ℕ) (levels : List Level) (queues : ThreadedQueues Level Index)
    (index : Index) : ThreadedQueues Level Index :=
  if queues.queued index then queues.removeFrom bound index levels else queues

/-- Take the first entry of the first of the queues that has one. -/
def popFrom (queues : ThreadedQueues Level Index) :
    List Level → Option (Index × ThreadedQueues Level Index)
  | [] => none
  | level :: levels =>
    match queues.head level with
    | none => popFrom queues levels
    | some index =>
      some (index, release
        { queues with
          head := Function.update queues.head level (queues.next index)
          tail :=
            if queues.next index = none then Function.update queues.tail level none
            else queues.tail } index)

end Operations

/-- Read the bits of some indices as clear. -/
def hide [DecidableEq Index] (queues : ThreadedQueues Level Index) (hidden : List Index) :
    ThreadedQueues Level Index :=
  { queues with queued := fun index ↦ if index ∈ hidden then false else queues.queued index }

/-- The queues carry a list each, and the bits mark the listed indices. -/
structure Carries (queues : ThreadedQueues Level Index) (lists : Level → List Index) : Prop where
  path : ∀ level, Path queues.next (queues.head level) (lists level)
  tail : ∀ level, queues.tail level = (lists level).getLast?
  nodup : ∀ level, (lists level).Nodup
  disjoint : ∀ level other index, index ∈ lists level → index ∈ lists other → level = other
  queued : ∀ index, queues.queued index = true ↔ ∃ level, index ∈ lists level

end ThreadedQueues

/-! ### Paths -/

namespace Path

variable {next next' : Index → Option Index} {start : Option Index} {index : Index}
  {before rest rest' entries : List Index}

/-- A path only reads the links of its entries. -/
theorem congr (hpath : Path next start entries)
    (hnext : ∀ entry ∈ entries, next' entry = next entry) :
    Path next' start entries := by
  induction entries generalizing start with
  | nil => exact hpath
  | cons entry entries ih =>
    refine ⟨hpath.1, ?_⟩
    rw [hnext entry List.mem_cons_self]
    exact ih hpath.2 fun other hother ↦ hnext other (List.mem_cons_of_mem _ hother)

/-- What follows an entry of a path is a path from its link. -/
theorem suffix (hpath : Path next start (before ++ index :: rest)) :
    Path next (next index) rest := by
  induction before generalizing start with
  | nil => exact hpath.2
  | cons _ _ ih => exact ih hpath.2

/-- The links behind an entry may change to those of another path. -/
theorem splice (hpath : Path next start (before ++ index :: rest))
    (hnext : ∀ entry ∈ before, next' entry = next entry)
    (hrest : Path next' (next' index) rest') : Path next' start (before ++ index :: rest') := by
  induction before generalizing start with
  | nil => exact ⟨hpath.1, hrest⟩
  | cons entry before ih =>
    refine ⟨hpath.1, ?_⟩
    rw [hnext entry List.mem_cons_self]
    exact ih hpath.2 fun other hother ↦ hnext other (List.mem_cons_of_mem _ hother)

/-- The links determine the list of a path. -/
theorem unique (hpath : Path next start entries) (hother : Path next start rest) :
    entries = rest := by
  induction entries generalizing start rest with
  | nil =>
    cases rest with
    | nil => rfl
    | cons entry rest => exact absurd (hpath.symm.trans hother.1) (Option.some_ne_none entry).symm
  | cons entry entries ih =>
    cases rest with
    | nil => exact absurd (hother.symm.trans hpath.1) (Option.some_ne_none entry).symm
    | cons other rest =>
      obtain rfl : entry = other := Option.some.inj (hpath.1.symm.trans hother.1)
      rw [ih hpath.2 hother.2]

end Path

namespace ThreadedQueues

variable {queues : ThreadedQueues Level Index} {lists : Level → List Index} {level : Level}
  {levels : List Level} {index : Index} {bound : ℕ}

/-! ### Tables that carry lists -/

theorem carries_clear : (clear : ThreadedQueues Level Index).Carries fun _ ↦ [] where
  path := fun _ ↦ rfl
  tail := fun _ ↦ rfl
  nodup := fun _ ↦ List.nodup_nil
  disjoint := by simp
  queued := by simp [clear]

section

variable (hcarries : queues.Carries lists)

include hcarries

/-- An index whose bit is clear is on no list. -/
theorem Carries.not_mem (hqueued : queues.queued index = false)
    (level : Level) : index ∉ lists level := by
  intro hmem
  rw [(hcarries.queued index).mpr ⟨level, hmem⟩] at hqueued
  exact Bool.noConfusion hqueued

theorem Carries.length_le [Fintype Index] (level : Level) :
    (lists level).length ≤ Fintype.card Index :=
  (hcarries.nodup level).length_le_card

/-- A queue has a head exactly when its list has an entry. -/
theorem Carries.head_isSome (level : Level) :
    (queues.head level).isSome = true ↔ lists level ≠ [] := by
  have hpath := hcarries.path level
  cases hlist : lists level with
  | nil =>
    rw [hlist] at hpath
    have hnone : queues.head level = none := hpath
    simp [hnone]
  | cons index rest =>
    rw [hlist] at hpath
    simp [hpath.1]

theorem Carries.head_eq_none (level : Level) :
    queues.head level = none ↔ lists level = [] := by
  rw [← not_iff_not, ← ne_eq, Option.ne_none_iff_isSome]
  exact hcarries.head_isSome level

end

variable [DecidableEq Index]

/-! ### The bits -/

theorem release_queued (other : Index) :
    (queues.release index).queued other = if other = index then false else queues.queued other :=
  Function.update_apply _ _ _ _

/-- Releasing an index whose bit is clear changes no list. -/
theorem Carries.of_release (hcarries : queues.Carries lists)
    (hqueued : queues.queued index = false) :
    (queues.release index).Carries lists where
  path level := (hcarries.path level).congr fun entry hentry ↦ by
    refine Function.update_of_ne ?_ _ _
    rintro rfl
    exact hcarries.not_mem hqueued level hentry
  tail := hcarries.tail
  nodup := hcarries.nodup
  disjoint := hcarries.disjoint
  queued other := by
    rw [release_queued, ← hcarries.queued other]
    split_ifs with hother
    · simp [hother, hqueued]
    · rfl

/-- Queues without heads and tails carry no entry while all bits that are set are hidden. -/
theorem carries_hide {indices : List Index} (hhead : ∀ level, queues.head level = none)
    (htail : ∀ level, queues.tail level = none)
    (hqueued : ∀ index, queues.queued index = true → index ∈ indices) :
    (queues.hide indices).Carries fun _ ↦ [] where
  path := hhead
  tail := htail
  nodup := fun _ ↦ List.nodup_nil
  disjoint := by simp
  queued index := by
    by_cases hmem : index ∈ indices
    · simp [hide, hmem]
    · have hclear : queues.queued index = false :=
        Bool.eq_false_of_not_eq_true fun hset ↦ hmem (hqueued index hset)
      simp [hide, hclear]

theorem hide_nil : queues.hide [] = queues := by
  simp [hide]

/-- An index whose bit is clear need not be hidden. -/
theorem hide_cons_of_clear {hidden : List Index} (hqueued : queues.queued index = false) :
    queues.hide (index :: hidden) = queues.hide hidden := by
  unfold hide
  congr 1
  funext other
  by_cases hother : other = index
  · simp [hother, hqueued]
  · simp [hother]

variable [DecidableEq Level]

/-- Enqueueing sets the bit of its index. -/
theorem enqueue_queued (other : Index) :
    (queues.enqueue level index).queued other =
      if other = index then true else queues.queued other := by
  unfold enqueue
  split_ifs with hqueued hother hother
  · rw [hother, hqueued]
  · rfl
  · cases queues.tail level <;> simp [hother]
  · cases queues.tail level <;> simp [Function.update_of_ne hother]

/-- Removing clears the bit of its index. -/
theorem remove_queued (other : Index) :
    (queues.remove bound levels index).queued other =
      if other = index then false else queues.queued other := by
  have hremoveFrom : (queues.removeFrom bound index levels).queued other =
      if other = index then false else queues.queued other := by
    induction levels with
    | nil => exact release_queued other
    | cons level levels ih =>
      unfold removeFrom
      cases predecessor queues.next index bound none (queues.head level) with
      | none => exact ih
      | some previous => exact release_queued other
  unfold remove
  split_ifs with hqueued hother hother
  · simpa [hother] using hremoveFrom
  · simpa [hother] using hremoveFrom
  · rw [hother]
    exact Bool.eq_false_of_not_eq_true hqueued
  · rfl

/-! ### What the operations do to the lists -/

/-- Enqueueing appends to the list of the level. -/
theorem Carries.enqueue (hcarries : queues.Carries lists) (hqueued : queues.queued index = false) :
    (queues.enqueue level index).Carries
      (Function.update lists level (lists level ++ [index])) := by
  have hfresh := hcarries.not_mem hqueued
  have hlinks (other : Level) : Path (queues.enqueue level index).next
      ((queues.enqueue level index).head other)
      (Function.update lists level (lists level ++ [index]) other) := by
    unfold ThreadedQueues.enqueue
    rw [if_neg (by simp [hqueued])]
    have hpath := hcarries.path other
    cases htail : queues.tail level with
    | none =>
      have hempty : lists level = [] :=
        List.getLast?_eq_none_iff.mp ((hcarries.tail level).symm.trans htail)
      by_cases hother : other = level
      · subst hother
        simp [hempty, Path]
      · simp only [Function.update_of_ne hother]
        refine hpath.congr fun entry hentry ↦ Function.update_of_ne ?_ _ _
        rintro rfl
        exact hfresh other hentry
    | some last =>
      have hlast : (lists level).getLast? = some last := (hcarries.tail level).symm.trans htail
      obtain ⟨before, hbefore⟩ := List.getLast?_eq_some_iff.mp hlast
      have hlastMem : last ∈ lists level := by simp [hbefore]
      have hlastNe : last ≠ index := by
        rintro rfl
        exact hfresh level hlastMem
      by_cases hother : other = level
      · subst hother
        simp only [Function.update_self, hbefore, List.append_assoc]
        have hnodup := hcarries.nodup other
        rw [hbefore] at hpath hnodup
        refine hpath.splice (fun entry hentry ↦ ?_) ?_
        · have hentryLast : entry ≠ last := by
            rintro rfl
            exact (List.nodup_append.mp hnodup).2.2 _ hentry _ (List.mem_singleton_self _) rfl
          have hentryIndex : entry ≠ index := by
            rintro rfl
            exact hfresh other (by simp [hbefore, hentry])
          rw [Function.update_of_ne hentryLast, Function.update_of_ne hentryIndex]
        · simp [Path, Function.update_of_ne hlastNe.symm]
      · simp only [Function.update_of_ne hother]
        refine hpath.congr fun entry hentry ↦ ?_
        have hentryLast : entry ≠ last := by
          rintro rfl
          exact hother (hcarries.disjoint _ _ _ hentry hlastMem)
        have hentryIndex : entry ≠ index := by
          rintro rfl
          exact hfresh other hentry
        rw [Function.update_of_ne hentryLast, Function.update_of_ne hentryIndex]
  refine ⟨hlinks, fun other ↦ ?_, fun other ↦ ?_, ?_, fun other ↦ ?_⟩
  · have htail : (queues.enqueue level index).tail =
        Function.update queues.tail level (some index) := by
      unfold ThreadedQueues.enqueue
      rw [if_neg (by simp [hqueued])]
      cases queues.tail level <;> rfl
    rw [htail]
    by_cases hother : other = level
    · subst hother
      simp
    · simp only [Function.update_of_ne hother, hcarries.tail other]
  · by_cases hother : other = level
    · subst hother
      simp only [Function.update_self]
      exact (hcarries.nodup other).append (List.nodup_singleton index)
        (List.disjoint_singleton.mpr (hfresh other))
    · simpa only [Function.update_of_ne hother] using hcarries.nodup other
  · have hmem {other : Level} {entry : Index}
        (hentry : entry ∈ Function.update lists level (lists level ++ [index]) other) :
        entry ∈ lists other ∨ entry = index ∧ other = level := by
      by_cases hother : other = level
      · subst hother
        simpa using hentry
      · exact Or.inl (by simpa only [Function.update_of_ne hother] using hentry)
    intro first second entry hfirst hsecond
    rcases hmem hfirst with hold | ⟨hnew, hlevel⟩ <;>
      rcases hmem hsecond with hold' | ⟨hnew', hlevel'⟩
    · exact hcarries.disjoint _ _ _ hold hold'
    · exact absurd (hnew' ▸ hold) (hfresh first)
    · exact absurd (hnew ▸ hold') (hfresh second)
    · exact hlevel.trans hlevel'.symm
  · rw [enqueue_queued]
    split_ifs with hother
    · refine ⟨fun _ ↦ ⟨level, ?_⟩, fun _ ↦ rfl⟩
      simp [hother]
    · rw [hcarries.queued other]
      refine exists_congr fun entry ↦ ?_
      by_cases hentry : entry = level
      · subst hentry
        simp [hother]
      · rw [Function.update_of_ne hentry]

/-- A scan along a path that does not have the index finds nothing. -/
theorem predecessor_eq_none {next : Index → Option Index} {start previous : Option Index}
    {entries : List Index} (hpath : Path next start entries) (hindex : index ∉ entries) :
    predecessor next index bound previous start = none := by
  induction entries generalizing start previous bound with
  | nil =>
    rw [show start = none from hpath]
    cases bound <;> rfl
  | cons entry entries ih =>
    rw [hpath.1]
    cases bound with
    | zero => rfl
    | succ bound =>
      have hentry : entry ≠ index := by
        rintro rfl
        exact hindex List.mem_cons_self
      unfold predecessor
      rw [if_neg hentry]
      exact ih hpath.2 fun hmem ↦ hindex (List.mem_cons_of_mem _ hmem)

/-- A long enough scan finds what precedes the index. -/
theorem predecessor_eq_some {next : Index → Option Index} {start previous : Option Index}
    {before rest : List Index} (hpath : Path next start (before ++ index :: rest))
    (hindex : index ∉ before) (hbound : before.length < bound) :
    predecessor next index bound previous start = some (before.getLast?.or previous) := by
  induction before generalizing start previous bound with
  | nil =>
    obtain ⟨bound, rfl⟩ := Nat.exists_eq_add_of_lt hbound
    rw [hpath.1]
    simp [predecessor]
  | cons entry before ih =>
    cases bound with
    | zero => exact absurd hbound (Nat.not_lt_zero _)
    | succ bound =>
      have hentry : entry ≠ index := by
        rintro rfl
        exact hindex List.mem_cons_self
      rw [hpath.1]
      unfold predecessor
      rw [if_neg hentry, ih hpath.2 (fun hmem ↦ hindex (List.mem_cons_of_mem _ hmem))
        (Nat.lt_of_succ_lt_succ hbound)]
      cases before with
      | nil => rfl
      | cons other before => simp [List.getLast?_cons]

section

variable (hcarries : queues.Carries lists)

include hcarries

/-- A table in which one list has lost an entry, whose bit is cleared, carries the lists without
that entry. -/
theorem Carries.of_shorter {changed : ThreadedQueues Level Index} {before rest : List Index}
    (hlist : lists level = before ++ index :: rest)
    (hpath : ∀ other, Path changed.next (changed.head other)
      (Function.update lists level (before ++ rest) other))
    (htail : ∀ other, changed.tail other =
      (Function.update lists level (before ++ rest) other).getLast?)
    (hqueued : ∀ other, changed.queued other =
      if other = index then false else queues.queued other) :
    changed.Carries (Function.update lists level (before ++ rest)) := by
  have hnodup : (before ++ index :: rest).Nodup := hlist ▸ hcarries.nodup level
  have hindexRest : index ∉ before ++ rest :=
    (List.nodup_cons.mp (List.nodup_middle.mp hnodup)).1
  have hmem {other : Level} {entry : Index}
      (hentry : entry ∈ Function.update lists level (before ++ rest) other) :
      entry ∈ lists other := by
    by_cases hother : other = level
    · subst hother
      rw [Function.update_self] at hentry
      rw [hlist]
      exact List.mem_append.mpr ((List.mem_append.mp hentry).imp_right (List.mem_cons_of_mem _))
    · simpa only [Function.update_of_ne hother] using hentry
  refine ⟨hpath, htail, fun other ↦ ?_, ?_, fun other ↦ ?_⟩
  · by_cases hother : other = level
    · subst hother
      rw [Function.update_self]
      exact (List.nodup_cons.mp (List.nodup_middle.mp hnodup)).2
    · simpa only [Function.update_of_ne hother] using hcarries.nodup other
  · exact fun first second entry hfirst hsecond ↦
      hcarries.disjoint _ _ _ (hmem hfirst) (hmem hsecond)
  · rw [hqueued]
    split_ifs with hother
    · subst hother
      refine ⟨fun hfalse ↦ absurd hfalse (by simp), ?_⟩
      rintro ⟨entryLevel, hentry⟩
      obtain rfl : entryLevel = level :=
        hcarries.disjoint _ _ _ (hmem hentry) (by simp [hlist])
      rw [Function.update_self] at hentry
      exact absurd hentry hindexRest
    · rw [hcarries.queued other]
      refine exists_congr fun entryLevel ↦ ?_
      by_cases hentryLevel : entryLevel = level
      · subst hentryLevel
        rw [Function.update_self, hlist]
        simp [hother]
      · rw [Function.update_of_ne hentryLevel]

/-- Unlinking an entry behind its predecessor takes it out of the list. -/
theorem Carries.unlink {before rest : List Index}
    (hlist : lists level = before ++ index :: rest) :
    (queues.unlink level index before.getLast?).Carries
      (Function.update lists level (before ++ rest)) := by
  have hnodup : (before ++ index :: rest).Nodup := hlist ▸ hcarries.nodup level
  have hpathLevel : Path queues.next (queues.head level) (before ++ index :: rest) :=
    hlist ▸ hcarries.path level
  have htailLevel : queues.tail level = (before ++ index :: rest).getLast? :=
    hlist ▸ hcarries.tail level
  have hindexMem : index ∈ lists level := by simp [hlist]
  have hindexBefore : index ∉ before := fun hmem ↦
    (List.nodup_append.mp hnodup).2.2 _ hmem _ List.mem_cons_self rfl
  have hindexRest : index ∉ rest :=
    (List.nodup_cons.mp (List.nodup_append.mp hnodup).2.1).1
  have hrest : Path (queues.unlink level index before.getLast?).next (queues.next index) rest := by
    refine hpathLevel.suffix.congr fun entry hentry ↦ ?_
    have hentryIndex : entry ≠ index := by
      rintro rfl
      exact hindexRest hentry
    simp only [ThreadedQueues.unlink, release, Function.update_of_ne hentryIndex]
    cases hlast : before.getLast? with
    | none => rfl
    | some last =>
      have hentryLast : entry ≠ last := by
        rintro rfl
        exact (List.nodup_append.mp hnodup).2.2 _ (List.mem_of_getLast? hlast) _
          (List.mem_cons_of_mem _ hentry) rfl
      exact Function.update_of_ne hentryLast _ _
  refine hcarries.of_shorter hlist (fun other ↦ ?_) (fun other ↦ ?_) release_queued
  · by_cases hother : other = level
    · subst hother
      rw [Function.update_self]
      rcases List.eq_nil_or_concat before with rfl | ⟨front, last, rfl⟩
      · simpa [ThreadedQueues.unlink, release] using hrest
      · have hlastIndex : last ≠ index := by
          rintro rfl
          exact hindexBefore (by simp)
        have hfront {entry : Index} (hentry : entry ∈ front) : entry ≠ last := by
          rintro rfl
          rw [List.concat_eq_append, List.append_assoc] at hnodup
          exact (List.nodup_append.mp hnodup).2.2 _ hentry _ (by simp) rfl
        simp only [List.concat_eq_append, List.append_assoc, List.singleton_append] at hpathLevel ⊢
        simp only [ThreadedQueues.unlink, release, List.concat_eq_append,
          List.getLast?_append, List.getLast?_singleton, Option.some_or] at hrest ⊢
        refine hpathLevel.splice (fun entry hentry ↦ ?_) ?_
        · have hentryIndex : entry ≠ index := by
            rintro rfl
            exact hindexBefore (by simp [hentry])
          rw [Function.update_of_ne hentryIndex, Function.update_of_ne (hfront hentry)]
        · simpa [Function.update_of_ne hlastIndex] using hrest
    · rw [Function.update_of_ne hother]
      have hhead : (queues.unlink level index before.getLast?).head other = queues.head other := by
        unfold ThreadedQueues.unlink release
        cases before.getLast? with
        | none => exact Function.update_of_ne hother _ _
        | some _ => rfl
      rw [hhead]
      refine (hcarries.path other).congr fun entry hentry ↦ ?_
      have hentryIndex : entry ≠ index := by
        rintro rfl
        exact hother (hcarries.disjoint _ _ _ hentry hindexMem)
      simp only [ThreadedQueues.unlink, release, Function.update_of_ne hentryIndex]
      cases hlast : before.getLast? with
      | none => rfl
      | some last =>
        have hentryLast : entry ≠ last := by
          rintro rfl
          refine hother (hcarries.disjoint _ _ _ hentry ?_)
          rw [hlist]
          exact List.mem_append_left _ (List.mem_of_getLast? hlast)
        exact Function.update_of_ne hentryLast _ _
  · simp only [ThreadedQueues.unlink, release]
    by_cases hother : other = level
    · subst hother
      rw [Function.update_self]
      cases rest with
      | nil =>
        rw [if_pos (by simp [htailLevel])]
        simp
      | cons entry rest =>
        have hlast : (before ++ index :: entry :: rest).getLast? =
            (entry :: rest).getLast? := by
          rw [List.getLast?_append_cons, List.getLast?_cons_cons]
        have hne : queues.tail other ≠ some index := by
          rw [htailLevel, hlast]
          intro heq
          exact hindexRest (List.mem_of_getLast? heq)
        rw [if_neg hne, htailLevel, hlast, List.getLast?_append_cons]
    · rw [Function.update_of_ne hother]
      split_ifs
      · rw [Function.update_of_ne hother, hcarries.tail other]
      · exact hcarries.tail other

/-- Removing erases the index from the lists, where the scan is long enough for each of them. -/
theorem Carries.remove (hlevels : ∀ level, level ∈ levels)
    (hbound : ∀ level, (lists level).length ≤ bound) :
    (queues.remove bound levels index).Carries fun level ↦ (lists level).erase index := by
  unfold ThreadedQueues.remove
  split_ifs with hqueued
  · obtain ⟨level, hmem⟩ := (hcarries.queued index).mp hqueued
    obtain ⟨before, rest, hlist⟩ := List.append_of_mem hmem
    have hnodup : (before ++ index :: rest).Nodup := hlist ▸ hcarries.nodup level
    have hbefore : index ∉ before := fun hentry ↦
      (List.nodup_append.mp hnodup).2.2 _ hentry _ List.mem_cons_self rfl
    have hlists : (fun other ↦ (lists other).erase index) =
        Function.update lists level (before ++ rest) := by
      funext other
      by_cases hother : other = level
      · subst hother
        rw [Function.update_self, hlist, List.erase_append_right _ hbefore, List.erase_cons_head]
      · rw [Function.update_of_ne hother, List.erase_of_not_mem]
        exact fun hentry ↦ hother (hcarries.disjoint _ _ _ hentry hmem)
    have hlength := hbound level
    rw [hlist, List.length_append, List.length_cons] at hlength
    have hfound : predecessor queues.next index bound none (queues.head level) =
        some before.getLast? := by
      rw [predecessor_eq_some (hlist ▸ hcarries.path level) hbefore (by omega)]
      simp
    have hremoveFrom {scanned : List Level} (hscanned : level ∈ scanned) :
        queues.removeFrom bound index scanned = queues.unlink level index before.getLast? := by
      induction scanned with
      | nil => exact absurd hscanned List.not_mem_nil
      | cons other scanned ih =>
        unfold removeFrom
        by_cases hother : other = level
        · subst hother
          rw [hfound]
        · rw [predecessor_eq_none (hcarries.path other)
            (fun hentry ↦ hother (hcarries.disjoint _ _ _ hentry hmem))]
          exact ih ((List.mem_cons.mp hscanned).resolve_left (Ne.symm hother))
    rw [hremoveFrom (hlevels level), hlists]
    exact hcarries.unlink hlist
  · have hlists : (fun level ↦ (lists level).erase index) = lists := by
      funext level
      exact List.erase_of_not_mem
        (hcarries.not_mem (Bool.eq_false_of_not_eq_true hqueued) level)
    rw [hlists]
    exact hcarries

/-- A pop takes the first entry of the list of one of the levels. -/
theorem Carries.popFrom {popped : ThreadedQueues Level Index}
    (hpop : queues.popFrom levels = some (index, popped)) :
    ∃ level rest, level ∈ levels ∧ lists level = index :: rest ∧
      popped.Carries (Function.update lists level rest) := by
  induction levels with
  | nil => exact absurd hpop (Option.some_ne_none _).symm
  | cons level levels ih =>
    unfold ThreadedQueues.popFrom at hpop
    cases hhead : queues.head level with
    | none =>
      rw [hhead] at hpop
      obtain ⟨popLevel, rest, hmem, hrest⟩ := ih hpop
      exact ⟨popLevel, rest, List.mem_cons_of_mem _ hmem, hrest⟩
    | some first =>
      simp only [hhead, Option.some.injEq, Prod.mk.injEq] at hpop
      obtain ⟨rfl, rfl⟩ := hpop
      cases hlist : lists level with
      | nil =>
        have hnone := hcarries.path level
        rw [hlist, hhead] at hnone
        exact absurd hnone (Option.some_ne_none _)
      | cons entry rest =>
        have hpath := hcarries.path level
        rw [hlist, hhead] at hpath
        obtain rfl : first = entry := Option.some.inj hpath.1
        refine ⟨level, rest, List.mem_cons_self, hlist, ?_⟩
        have hunlink := hcarries.unlink (show lists level = [] ++ first :: rest from hlist)
        -- popping is unlinking the first entry: the links decide whether it was also the last
        have htail : queues.tail level = some first ↔ queues.next first = none := by
          have htailLevel := hcarries.tail level
          rw [hlist] at htailLevel
          rw [htailLevel]
          cases rest with
          | nil =>
            have hnext : queues.next first = none := hpath.2
            simp [hnext]
          | cons second rest =>
            have hnext : queues.next first = some second := hpath.2.1
            have hnodup := hcarries.nodup level
            rw [hlist] at hnodup
            rw [hnext, List.getLast?_cons_cons]
            refine iff_of_false (fun heq ↦ ?_) (Option.some_ne_none _)
            exact (List.nodup_cons.mp hnodup).1 (List.mem_of_getLast? heq)
        simpa [ThreadedQueues.unlink, htail] using hunlink

end

/-- The bit of a popped index was set, and only that bit is cleared. -/
theorem popFrom_queued {popped : ThreadedQueues Level Index}
    (hpop : queues.popFrom levels = some (index, popped)) (other : Index) :
    popped.queued other = if other = index then false else queues.queued other := by
  induction levels with
  | nil => exact absurd hpop (Option.some_ne_none _).symm
  | cons level levels ih =>
    unfold popFrom at hpop
    cases hhead : queues.head level with
    | none =>
      rw [hhead] at hpop
      exact ih hpop
    | some first =>
      simp only [hhead, Option.some.injEq, Prod.mk.injEq] at hpop
      obtain ⟨rfl, rfl⟩ := hpop
      exact release_queued other

/-! ### Queues that are filled anew -/

/-- Enqueueing a released index appends to the list of the level, whatever other bits are hidden. -/
theorem Carries.requeue {hidden : List Index} (hindex : index ∉ hidden)
    (hcarries : (queues.hide (index :: hidden)).Carries lists) :
    (((queues.release index).enqueue level index).hide hidden).Carries
      (Function.update lists level (lists level ++ [index])) := by
  have hclear : (queues.hide (index :: hidden)).queued index = false := by simp [hide]
  have hreleased := hcarries.of_release hclear
  have hsame : ((queues.release index).enqueue level index).hide hidden =
      ((queues.hide (index :: hidden)).release index).enqueue level index := by
    unfold ThreadedQueues.enqueue
    rw [release_queued, release_queued, if_pos rfl, if_pos rfl]
    simp only [Bool.false_eq_true, if_false]
    have htail : ((queues.hide (index :: hidden)).release index).tail level =
        (queues.release index).tail level := rfl
    rw [htail]
    have hbits (other : Index) :
        (if other ∈ hidden then false else
          Function.update (queues.release index).queued index true other) =
        Function.update ((queues.hide (index :: hidden)).release index).queued index true
          other := by
      by_cases hother : other = index
      · rw [hother, if_neg hindex, Function.update_self, Function.update_self]
      · rw [Function.update_of_ne hother, Function.update_of_ne hother, release_queued,
          release_queued, if_neg hother, if_neg hother]
        simp [hide, hother]
    cases (queues.release index).tail level with
    | none =>
      simp only [hide, mk.injEq]
      exact ⟨rfl, rfl, rfl, funext hbits⟩
    | some last =>
      simp only [hide, mk.injEq]
      exact ⟨rfl, rfl, rfl, funext hbits⟩
  rw [hsame]
  refine hreleased.enqueue ?_
  rw [release_queued, if_pos rfl]

end ThreadedQueues

end EynOS.Foundation
