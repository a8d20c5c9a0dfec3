import EynOS.Foundation.FirstLeast
import EynOS.Storage.BlockCache

/-!
# The victim of the block cache, in C and in Rust

`eynfs_block_cache_choose_victim_index` looks for the entry that is replaced by itself, or, where
the kernel is built with `CONFIG_RUST_EYNFS`, has `rust_eynfs_choose_victim_index` do it. The first
keeps a flag, a place and a last use for the best clean and for the best dirty entry, the second two
optional pairs. `victims_agree` is that both give one place and say alike whether it has to be
written back, and which place it is; `chooseVictimIndex_model` is that the operations of
`BlockCache` use the same one.
-/

namespace EynOS.Storage.VictimChoice

open Foundation

/-! ### The table -/

/-- What both functions read of `eynfs_cache_entry_t`. -/
structure Entry where
  lastUse : UInt32
  dirty : UInt8
  valid : UInt8

/-- A cache that is there, with as many entries as `g_block_cache_capacity` says. -/
structure Table where
  entries : List Entry
  enabled : entries ≠ []
  fits : entries.length < 4294967296

/-! ### The branch in C -/

/-- The best entry of a kind so far: `found_…`, `…_best_i` and `…_best_use`. -/
structure Best where
  found : Bool
  index : UInt32
  use : UInt32

/-- Before the loop. -/
def Best.initial : Best where
  found := false
  index := 0
  use := 0xFFFFFFFF

def Best.beatenBy (best : Best) (entry : Entry) : Bool := !best.found || entry.lastUse < best.use

/-- The loop of `eynfs_block_cache_choose_victim_index` and what follows it. -/
def chooseLoop : List Entry → ℕ → Best → Best → Option (UInt32 × Bool)
  | [], _, clean, dirty =>
    if clean.found then some (clean.index, false)
    else if dirty.found then some (dirty.index, true)
    else none
  | entry :: entries, index, clean, dirty =>
    if entry.valid = 0 then some (UInt32.ofNat index, false)
    else if entry.dirty ≠ 0 then
      if dirty.beatenBy entry then
        chooseLoop entries (index + 1) clean ⟨true, UInt32.ofNat index, entry.lastUse⟩
      else chooseLoop entries (index + 1) clean dirty
    else if clean.beatenBy entry then
      chooseLoop entries (index + 1) ⟨true, UInt32.ofNat index, entry.lastUse⟩ dirty
    else chooseLoop entries (index + 1) clean dirty

/-- `eynfs_block_cache_choose_victim_index`, in C. -/
def chooseVictimIndex (table : Table) : Option (UInt32 × Bool) :=
  chooseLoop table.entries 0 .initial .initial

/-! ### The function in Rust -/

/-- `RustEynfsVictimResult`. -/
inductive VictimResult
  | none
  | foundClean
  | foundDirty
  | foundInvalid

/-- The loop of `rust_eynfs_choose_victim_index` and what follows it: the result and the index,
where one is stored. -/
def rustChooseLoop : List Entry → ℕ → Option (UInt32 × UInt32) → Option (UInt32 × UInt32) →
    VictimResult × Option UInt32
  | [], _, foundClean, foundDirty =>
    match foundClean, foundDirty with
    | some (index, _), _ => (.foundClean, some index)
    | none, some (index, _) => (.foundDirty, some index)
    | none, none => (.none, none)
  | entry :: entries, index, foundClean, foundDirty =>
    if entry.valid = 0 then (.foundInvalid, some (UInt32.ofNat index))
    else if entry.dirty ≠ 0 then
      match foundDirty with
      | none =>
        rustChooseLoop entries (index + 1) foundClean (some (UInt32.ofNat index, entry.lastUse))
      | some (best, bestUse) =>
        if entry.lastUse < bestUse then
          rustChooseLoop entries (index + 1) foundClean (some (UInt32.ofNat index, entry.lastUse))
        else rustChooseLoop entries (index + 1) foundClean (some (best, bestUse))
    else
      match foundClean with
      | none =>
        rustChooseLoop entries (index + 1) (some (UInt32.ofNat index, entry.lastUse)) foundDirty
      | some (best, bestUse) =>
        if entry.lastUse < bestUse then
          rustChooseLoop entries (index + 1) (some (UInt32.ofNat index, entry.lastUse)) foundDirty
        else rustChooseLoop entries (index + 1) (some (best, bestUse)) foundDirty

/-- `rust_eynfs_choose_victim_index`. -/
def rustChooseVictimIndex (table : Table) : VictimResult × Option UInt32 :=
  if table.entries = [] then (.none, none) else rustChooseLoop table.entries 0 none none

/-- `eynfs_block_cache_choose_victim_index` with `CONFIG_RUST_EYNFS`, by the result and the index of
the function in Rust. -/
def ofVictimResult : VictimResult × Option UInt32 → Option (UInt32 × Bool)
  | (.foundInvalid, index) => index.map fun index ↦ (index, false)
  | (.foundClean, index) => index.map fun index ↦ (index, false)
  | (.foundDirty, index) => index.map fun index ↦ (index, true)
  | (.none, _) => none

/-! ### The victim -/

/-- The clock of the cache when an entry was last used. -/
def Entry.age (entry : Entry) : ℕ := entry.lastUse.toNat

def Entry.Invalid (entry : Entry) : Prop := entry.valid = 0

/-- An entry whose copy has to be written back. -/
def Entry.Dirty (entry : Entry) : Prop := entry.dirty ≠ 0

/-- An entry whose copy can be dropped. -/
def Entry.Clean (entry : Entry) : Prop := entry.dirty = 0

/-- The entry that is to be replaced: the first invalid one, else the first of the clean ones that
were used longest ago, else the first of the dirty ones that were. -/
def Chosen (entries : List Entry) (index : ℕ) (needWriteback : Bool) : Prop :=
  ∃ entry, entries[index]? = some entry ∧
    ((needWriteback = false ∧ entry.Invalid ∧
        ∀ earlier < index, ∀ other, entries[earlier]? = some other → ¬other.Invalid) ∨
      (needWriteback = false ∧ (∀ other ∈ entries, ¬other.Invalid) ∧
        FirstLeast Entry.Clean Entry.age entries index entry) ∨
      (needWriteback = true ∧ (∀ other ∈ entries, ¬other.Invalid ∧ other.Dirty) ∧
        FirstLeast Entry.Dirty Entry.age entries index entry))

/-! ### The two loops -/

section Loops

variable {entry : Entry} {best : Best}

/-- The variables of the loop in Rust, for those of the loop in C. -/
def Best.toPair (best : Best) : Option (UInt32 × UInt32) :=
  if best.found then some (best.index, best.use) else none

theorem toPair_initial : Best.initial.toPair = none := rfl

theorem toPair_found (index use : UInt32) : (Best.mk true index use).toPair = some (index, use) :=
  rfl

/-- The two loops end alike. -/
theorem chooseLoop_eq (entries : List Entry) (index : ℕ) (clean dirty : Best) :
    chooseLoop entries index clean dirty =
      ofVictimResult (rustChooseLoop entries index clean.toPair dirty.toPair) := by
  induction entries generalizing index clean dirty with
  | nil =>
    obtain ⟨cleanFound, cleanIndex, cleanUse⟩ := clean
    obtain ⟨dirtyFound, dirtyIndex, dirtyUse⟩ := dirty
    cases cleanFound <;> cases dirtyFound <;> rfl
  | cons entry entries ih =>
    rw [chooseLoop, rustChooseLoop.eq_def]
    by_cases hinvalid : entry.valid = 0
    · rw [if_pos hinvalid]
      simp only [if_pos hinvalid]
      rfl
    · rw [if_neg hinvalid]
      simp only [if_neg hinvalid]
      by_cases hkind : entry.dirty ≠ 0
      · simp only [if_pos hkind]
        obtain ⟨found, place, use⟩ := dirty
        cases found with
        | false => exact ih (index + 1) clean ⟨true, UInt32.ofNat index, entry.lastUse⟩
        | true =>
          simp only [toPair_found, Best.beatenBy, Bool.not_true, Bool.false_or, decide_eq_true_eq]
          split_ifs with hless
          · exact ih (index + 1) clean ⟨true, UInt32.ofNat index, entry.lastUse⟩
          · exact ih (index + 1) clean ⟨true, place, use⟩
      · simp only [if_neg hkind]
        obtain ⟨found, place, use⟩ := clean
        cases found with
        | false => exact ih (index + 1) ⟨true, UInt32.ofNat index, entry.lastUse⟩ dirty
        | true =>
          simp only [toPair_found, Best.beatenBy, Bool.not_true, Bool.false_or, decide_eq_true_eq]
          split_ifs with hless
          · exact ih (index + 1) ⟨true, UInt32.ofNat index, entry.lastUse⟩ dirty
          · exact ih (index + 1) ⟨true, place, use⟩ dirty

theorem Entry.clean_iff : entry.Clean ↔ ¬entry.Dirty := not_not.symm

/-- The variables of the loop in C hold the place and the last use of the best entry so far. -/
def Best.Holds (best : Best) : Option (ℕ × ℕ) → Prop
  | none => best.found = false
  | some (index, use) => best.found = true ∧ best.index = UInt32.ofNat index ∧ best.use.toNat = use

theorem holds_found (entry : Entry) (index : ℕ) :
    (Best.mk true (UInt32.ofNat index) entry.lastUse).Holds (some (index, entry.age)) :=
  ⟨rfl, rfl, rfl⟩

/-- The comparison of the loop. -/
theorem Best.Holds.beatenBy_iff {bestSoFar : Option (ℕ × ℕ)} (hbest : best.Holds bestSoFar) :
    best.beatenBy entry = true ↔ ∀ found ∈ bestSoFar, entry.age < found.2 := by
  cases bestSoFar with
  | none =>
    have hnot : best.found = false := hbest
    simp [Best.beatenBy, hnot]
  | some found =>
    obtain ⟨hfound, -, huse⟩ := hbest
    simp [Best.beatenBy, hfound, ← huse, UInt32.lt_iff_toNat_lt, Entry.age]

/-- The best entry so far, after one more of its kind. -/
theorem Best.Holds.next {kind : Entry → Prop} {seen : List Entry} {bestSoFar : Option (ℕ × ℕ)}
    (hbest : best.Holds bestSoFar) (hseen : BestSoFar kind Entry.age seen bestSoFar)
    (hkind : kind entry) :
    ∃ after, (if best.beatenBy entry then ⟨true, UInt32.ofNat seen.length, entry.lastUse⟩
        else best).Holds after ∧ BestSoFar kind Entry.age (seen ++ [entry]) after := by
  by_cases hbeaten : best.beatenBy entry = true
  · rw [if_pos hbeaten]
    exact ⟨_, holds_found entry seen.length, hseen.improve hkind (hbest.beatenBy_iff.mp hbeaten)⟩
  · rw [if_neg hbeaten]
    refine ⟨bestSoFar, hbest, ?_⟩
    cases bestSoFar with
    | none => exact absurd (hbest.beatenBy_iff.mpr (by simp)) hbeaten
    | some found =>
      exact hseen.keep fun hless ↦ hbeaten (hbest.beatenBy_iff.mpr (by simpa using hless))

/-- The loop ends with the entry that is to be replaced. -/
theorem chooseLoop_spec (rest : List Entry) :
    ∀ (seen : List Entry) (clean dirty : Best) (bestClean bestDirty : Option (ℕ × ℕ)),
      (∀ entry ∈ seen, ¬entry.Invalid) → clean.Holds bestClean → dirty.Holds bestDirty →
        BestSoFar Entry.Clean Entry.age seen bestClean →
          BestSoFar Entry.Dirty Entry.age seen bestDirty → seen ++ rest ≠ [] →
            ∃ index needed, Chosen (seen ++ rest) index needed ∧
              chooseLoop rest seen.length clean dirty = some (UInt32.ofNat index, needed) := by
  induction rest with
  | nil =>
    intro seen clean dirty bestClean bestDirty hvalid hcleanVars hdirtyVars hclean hdirty hsome
    rw [List.append_nil] at hsome ⊢
    rw [chooseLoop]
    cases bestClean with
    | some found =>
      obtain ⟨entry, hleast, -⟩ := hclean
      obtain ⟨hfound, hindex, -⟩ := hcleanVars
      rw [if_pos hfound, hindex]
      exact ⟨found.1, false, ⟨entry, hleast.place, Or.inr (Or.inl ⟨rfl, hvalid, hleast⟩)⟩, rfl⟩
    | none =>
      have hall (entry : Entry) (hentry : entry ∈ seen) : entry.Dirty :=
        not_not.mp fun hnot ↦ hclean entry hentry (Entry.clean_iff.mpr hnot)
      have hnot : clean.found = false := hcleanVars
      rw [hnot, if_neg Bool.false_ne_true]
      cases bestDirty with
      | some found =>
        obtain ⟨entry, hleast, -⟩ := hdirty
        obtain ⟨hfound, hindex, -⟩ := hdirtyVars
        rw [if_pos hfound, hindex]
        refine ⟨found.1, true, ⟨entry, hleast.place, Or.inr (Or.inr ⟨rfl, ?_, hleast⟩)⟩, rfl⟩
        exact fun other hother ↦ ⟨hvalid other hother, hall other hother⟩
      | none =>
        refine absurd (List.eq_nil_iff_forall_not_mem.mpr fun entry hentry ↦ ?_) hsome
        exact hdirty entry hentry (hall entry hentry)
  | cons entry rest ih =>
    intro seen clean dirty bestClean bestDirty hvalid hcleanVars hdirtyVars hclean hdirty _
    by_cases hinvalid : entry.valid = 0
    · refine ⟨seen.length, false, ⟨entry, by simp, Or.inl ⟨rfl, hinvalid, ?_⟩⟩, ?_⟩
      · intro earlier hearlier other hother
        rw [List.getElem?_append_left hearlier] at hother
        exact hvalid other (List.mem_of_getElem? hother)
      · rw [chooseLoop, if_pos hinvalid]
    · have hvalidAfter : ∀ other ∈ seen ++ [entry], ¬other.Invalid := by
        intro other hother
        rcases List.mem_append.mp hother with hseen | hlast
        · exact hvalid other hseen
        · rwa [List.mem_singleton.mp hlast]
      have hagain (clean dirty : Best) (bestClean bestDirty : Option (ℕ × ℕ))
          (hcleanVars : clean.Holds bestClean) (hdirtyVars : dirty.Holds bestDirty)
          (hclean : BestSoFar Entry.Clean Entry.age (seen ++ [entry]) bestClean)
          (hdirty : BestSoFar Entry.Dirty Entry.age (seen ++ [entry]) bestDirty) :
          ∃ index needed, Chosen (seen ++ entry :: rest) index needed ∧
            chooseLoop rest (seen.length + 1) clean dirty = some (UInt32.ofNat index, needed) := by
        have hrest := ih (seen ++ [entry]) clean dirty bestClean bestDirty hvalidAfter hcleanVars
          hdirtyVars hclean hdirty (by simp)
        rwa [List.length_append, List.length_singleton, List.append_assoc,
          List.singleton_append] at hrest
      rw [chooseLoop, if_neg hinvalid]
      by_cases hkind : entry.dirty ≠ 0
      · obtain ⟨after, hvars, hafter⟩ := hdirtyVars.next hdirty hkind
        rw [if_pos hkind, ← apply_ite (chooseLoop rest (seen.length + 1) clean)]
        exact hagain clean _ bestClean after hcleanVars hvars
          (hclean.skip fun hclear ↦ hkind hclear) hafter
      · obtain ⟨after, hvars, hafter⟩ := hcleanVars.next hclean (not_not.mp hkind)
        rw [if_neg hkind,
          ← apply_ite fun clean ↦ chooseLoop rest (seen.length + 1) clean dirty]
        exact hagain _ dirty after bestDirty hvars hdirtyVars hafter
          (hdirty.skip fun hset ↦ hkind hset)

end Loops

/-- The function in C and the one in Rust give the same place and say alike whether its copy has to
be written back: the first invalid entry, else the clean one used longest ago, else the dirty one
used longest ago, and the first of these. -/
theorem victims_agree (table : Table) :
    ∃ index needWriteback, index < table.entries.length ∧
      chooseVictimIndex table = some (UInt32.ofNat index, needWriteback) ∧
      ofVictimResult (rustChooseVictimIndex table) = some (UInt32.ofNat index, needWriteback) ∧
      (UInt32.ofNat index).toNat = index ∧ Chosen table.entries index needWriteback := by
  obtain ⟨index, needed, hchosen, hC⟩ :=
    chooseLoop_spec table.entries [] .initial .initial none none (by simp) rfl rfl bestSoFar_nil
      bestSoFar_nil table.enabled
  obtain ⟨entry, hplace, hcases⟩ := hchosen
  have hindex : index < table.entries.length := (List.getElem?_eq_some_iff.mp hplace).1
  refine ⟨index, needed, hindex, hC, ?_, ?_, entry, hplace, hcases⟩
  · rw [rustChooseVictimIndex, if_neg table.enabled, ← toPair_initial, ← chooseLoop_eq]
    exact hC
  · exact UInt32.toNat_ofNat_of_lt' (hindex.trans table.fits)

/-! ### The model of the cache -/

section Model

/-- The fields of an entry of the cache. -/
def ofModel (entry : CacheEntry) : Entry where
  lastUse := UInt32.ofNat entry.lastUse
  dirty := if entry.dirty then 1 else 0
  valid := if entry.valid then 1 else 0

variable {entry : CacheEntry}

theorem ofModel_valid : (ofModel entry).valid = 0 ↔ entry.valid = false := by
  cases hvalid : entry.valid <;> simp [ofModel, hvalid]

theorem ofModel_dirty : (ofModel entry).dirty ≠ 0 ↔ entry.dirty = true := by
  cases hdirty : entry.dirty <;> simp [ofModel, hdirty]

theorem age_ofModel (hclock : entry.lastUse < 4294967296) : (ofModel entry).age = entry.lastUse :=
  UInt32.toNat_ofNat_of_lt' hclock

/-- The loop of `BlockCache` is this one. -/
theorem chooseLoop_model (entries : List CacheEntry)
    (hclock : ∀ entry ∈ entries, entry.lastUse < 4294967296) :
    ∀ (index : ℕ) (clean dirty : Best) (bestClean bestDirty : Option (ℕ × ℕ)),
      clean.Holds bestClean → dirty.Holds bestDirty →
        chooseLoop (entries.map ofModel) index clean dirty =
          (chooseVictimLoop entries index bestClean bestDirty).map fun chosen ↦
            (UInt32.ofNat chosen.1, chosen.2) := by
  induction entries with
  | nil =>
    intro index clean dirty bestClean bestDirty hclean hdirty
    rw [List.map_nil, chooseLoop]
    cases bestClean with
    | some found =>
      obtain ⟨hfound, hindex, -⟩ := hclean
      rw [if_pos hfound, hindex]
      rfl
    | none =>
      rw [show clean.found = false from hclean, if_neg Bool.false_ne_true]
      cases bestDirty with
      | some found =>
        obtain ⟨hfound, hindex, -⟩ := hdirty
        rw [if_pos hfound, hindex]
        rfl
      | none =>
        rw [show dirty.found = false from hdirty, if_neg Bool.false_ne_true]
        rfl
  | cons entry entries ih =>
    intro index clean dirty bestClean bestDirty hclean hdirty
    have hrest := ih fun other hother ↦ hclock other (List.mem_cons_of_mem _ hother)
    have hage := age_ofModel (hclock entry List.mem_cons_self)
    have hstored : (Best.mk true (UInt32.ofNat index) (ofModel entry).lastUse).Holds
        (some (index, entry.lastUse)) := by
      rw [← hage]
      exact holds_found (ofModel entry) index
    have hbeaten {best : Best} {bestSoFar : Option (ℕ × ℕ)} (hbest : best.Holds bestSoFar) :
        best.beatenBy (ofModel entry) =
          bestSoFar.all fun found ↦ decide (entry.lastUse < found.2) := by
      rw [Bool.eq_iff_iff, hbest.beatenBy_iff, hage]
      cases bestSoFar <;> simp
    rw [List.map_cons, chooseLoop, chooseVictimLoop, if_congr ofModel_valid rfl rfl,
      if_congr ofModel_dirty rfl rfl, hbeaten hclean, hbeaten hdirty]
    split_ifs with hinvalid hkind hless hless
    · rfl
    · exact hrest (index + 1) clean _ bestClean _ hclean hstored
    · exact hrest (index + 1) clean dirty bestClean bestDirty hclean hdirty
    · exact hrest (index + 1) _ dirty _ bestDirty hstored hdirty
    · exact hrest (index + 1) clean dirty bestClean bestDirty hclean hdirty

/-- The operations of EYNFS use the victim that this function gives. -/
theorem chooseVictimIndex_model (table : Table) (entries : List CacheEntry)
    (hentries : table.entries = entries.map ofModel)
    (hclock : ∀ entry ∈ entries, entry.lastUse < 4294967296) :
    chooseVictimIndex table =
      (Storage.chooseVictimIndex entries).map fun chosen ↦ (UInt32.ofNat chosen.1, chosen.2) := by
  rw [chooseVictimIndex, hentries]
  exact chooseLoop_model entries hclock 0 .initial .initial none none rfl rfl

def twoClean : List CacheEntry :=
  [⟨7, 3, fun _ ↦ 0, false, true, 0⟩, ⟨8, 1, fun _ ↦ 0, false, true, 0⟩]

/-- The one that was used longer ago is chosen. -/
theorem chooseVictimIndex_model_two :
    chooseVictimIndex ⟨twoClean.map ofModel, List.cons_ne_nil _ _, by decide⟩ =
      (Storage.chooseVictimIndex twoClean).map fun chosen ↦ (UInt32.ofNat chosen.1, chosen.2) :=
  chooseVictimIndex_model _ _ rfl (by simp [twoClean])

end Model

end EynOS.Storage.VictimChoice
