import EynOS.Storage.BlockCache
import Mathlib.Data.List.Perm.Basic

/-!
# What the calls of the block cache do

One lemma for each part of the cache functions: where a copy of a block is found, which entry is
replaced, and how the valid entries change when one place of the cache is stored to
(`liveEntries_set`). The theorems about the cache use these and do not look at its places again.
-/

namespace EynOS.Storage

open Foundation

variable {entries : List CacheEntry} {entry old new victim : CacheEntry} {block : UInt32}
  {index drive : ℕ} {needed : Bool} {state : State} {data : Sector}

def liveEntries (entries : List CacheEntry) : List CacheEntry := entries.filter CacheEntry.valid

theorem mem_liveEntries : entry ∈ liveEntries entries ↔ entry ∈ entries ∧ entry.valid = true := by
  rw [liveEntries, List.mem_filter]

theorem CacheEntry.holds_iff : entry.holds block = true ↔
    entry.valid = true ∧ entry.blockNum = block := by
  rw [CacheEntry.holds, Bool.and_eq_true, beq_iff_eq]

theorem CacheEntry.unsaved_iff : entry.unsaved = true ↔
    entry.valid = true ∧ entry.dirty = true := by
  rw [CacheEntry.unsaved, Bool.and_eq_true]

theorem blockToLba_inj {first second : UInt32} :
    blockToLba first = blockToLba second ↔ first = second :=
  UInt32.add_right_inj EYNFS_SUPERBLOCK_LBA

theorem blockToLba_surj (lba : UInt32) : ∃ block, blockToLba block = lba :=
  ⟨lba - EYNFS_SUPERBLOCK_LBA, by rw [blockToLba, UInt32.add_comm, UInt32.sub_add_cancel]⟩

@[simp] theorem State.disk_setDisk (drive : ℕ) (disk : Disk) (state : State) :
    (state.setDisk drive disk).disk drive = disk :=
  Function.update_self _ _ _

/-! ### Finding a copy -/

/-- No copy is found where no valid entry has the number. -/
theorem cachedAt_eq_none :
    cachedAt block entries = none ↔ ∀ entry ∈ liveEntries entries, entry.blockNum ≠ block := by
  have hnone : cachedAt block entries = none ↔
      entries.findIdx? (CacheEntry.holds block) = none := by
    unfold cachedAt
    cases hindex : entries.findIdx? (CacheEntry.holds block) with
    | none => simp
    | some index =>
      have hfound := List.of_findIdx?_eq_some hindex
      cases hentry : entries[index]? with
      | none => simp [hentry] at hfound
      | some entry => simp [hentry]
  rw [hnone, List.findIdx?_eq_none_iff]
  constructor
  · intro hall entry hentry hblock
    obtain ⟨hmem, hvalid⟩ := mem_liveEntries.mp hentry
    exact Bool.false_ne_true
      ((hall entry hmem).symm.trans (CacheEntry.holds_iff.mpr ⟨hvalid, hblock⟩))
  · intro hall entry hmem
    by_contra hholds
    obtain ⟨hvalid, hblock⟩ := CacheEntry.holds_iff.mp (Bool.eq_true_of_not_eq_false hholds)
    exact hall entry (mem_liveEntries.mpr ⟨hmem, hvalid⟩) hblock

/-- The copy that is found is a valid entry with the number, at its place. -/
theorem cachedAt_spec (hfound : cachedAt block entries = some (index, entry)) :
    entries[index]? = some entry ∧ entry.valid = true ∧ entry.blockNum = block := by
  unfold cachedAt at hfound
  obtain ⟨place, hplace, hentry⟩ := Option.bind_eq_some_iff.mp hfound
  obtain ⟨other, hother, hpair⟩ := Option.map_eq_some_iff.mp hentry
  obtain ⟨rfl, rfl⟩ := Prod.mk.inj hpair
  have hholds := List.of_findIdx?_eq_some hplace
  rw [hother] at hholds
  exact ⟨hother, CacheEntry.holds_iff.mp hholds⟩

/-! ### Storing to a place -/

/-- Storing to a place exchanges one entry and leaves the others. -/
theorem exists_others (hold : entries[index]? = some old) (new : CacheEntry) :
    ∃ others, entries.Perm (old :: others) ∧ (entries.set index new).Perm (new :: others) := by
  obtain ⟨hindex, hvalue⟩ := List.getElem?_eq_some_iff.mp hold
  refine ⟨entries.eraseIdx index, ?_, ?_⟩
  · rw [← hvalue]
    exact (List.getElem_cons_eraseIdx_perm hindex).symm
  · exact List.set_perm_cons_eraseIdx hindex new

def CacheEntry.spares (old entry : CacheEntry) : Bool :=
  !(old.valid && entry.blockNum == old.blockNum)

theorem CacheEntry.spares_iff : old.spares entry = true ↔
    (old.valid = true → entry.blockNum ≠ old.blockNum) := by
  rw [CacheEntry.spares, Bool.not_eq_true', Bool.and_eq_false_imp, beq_eq_false_iff_ne]

/-- How the valid entries change where a place is stored to. -/
theorem liveEntries_set (hold : entries[index]? = some old) (hnew : new.valid = true)
    (hnodup : ((liveEntries entries).map CacheEntry.blockNum).Nodup) :
    (liveEntries (entries.set index new)).Perm
      (new :: (liveEntries entries).filter old.spares) := by
  obtain ⟨others, hbefore, hafter⟩ := exists_others hold new
  have hlive : (liveEntries (entries.set index new)).Perm (new :: liveEntries others) := by
    have hfilter := hafter.filter CacheEntry.valid
    rwa [List.filter_cons_of_pos hnew] at hfilter
  have hformer : (liveEntries entries).Perm (liveEntries [old] ++ liveEntries others) := by
    have hfilter := hbefore.filter CacheEntry.valid
    rwa [← List.singleton_append, List.filter_append] at hfilter
  have hothers : ((liveEntries entries).filter old.spares).Perm (liveEntries others) := by
    have hperm := hformer.filter old.spares
    by_cases hkind : old.valid = true
    · have hsingle : liveEntries [old] = [old] := by
        simp [liveEntries, hkind]
      have hdistinct := hformer.map CacheEntry.blockNum
      rw [hsingle, List.singleton_append] at hperm hdistinct
      have hnotin := (List.nodup_cons.mp (hdistinct.nodup_iff.mp hnodup)).1
      have hkept : (liveEntries others).filter old.spares = liveEntries others := by
        refine List.filter_eq_self.mpr fun entry hentry ↦ ?_
        refine CacheEntry.spares_iff.mpr fun _ hsame ↦ hnotin ?_
        exact List.mem_map.mpr ⟨entry, hentry, hsame⟩
      rwa [List.filter_cons_of_neg (by simp [CacheEntry.spares_iff, hkind]), hkept] at hperm
    · have hnone : liveEntries [old] = [] := by
        simp [liveEntries, hkind]
      have hkept (list : List CacheEntry) : list.filter old.spares = list :=
        List.filter_eq_self.mpr fun entry _ ↦
          CacheEntry.spares_iff.mpr fun hkind' ↦ absurd hkind' hkind
      rw [hnone, List.nil_append] at hformer
      rwa [hkept]
  exact hlive.trans (hothers.symm.cons new)

/-! ### The victim -/

/-- An entry that `chooseVictimIndex` may choose: an invalid one, or, where all entries are valid,
the one used longest ago of the clean ones, or of all where there is no clean one. -/
structure Victim (entries : List CacheEntry) (index : ℕ) (needed : Bool) (victim : CacheEntry) :
    Prop where
  place : entries[index]? = some victim
  oldest : (victim.valid = false ∧ needed = false) ∨
    (victim.dirty = needed ∧ (∀ entry ∈ entries, entry.valid = true) ∧
      (needed = true → ∀ entry ∈ entries, entry.dirty = true) ∧
      ∀ entry ∈ entries, entry.dirty = needed → victim.lastUse ≤ entry.lastUse)

/-- The best entry of a kind so far: none, where there is none of the kind, or the first one that
was used longest ago. -/
def Best (seen : List CacheEntry) (dirty : Bool) (best : Option (ℕ × ℕ)) : Prop :=
  match best with
  | none => ∀ entry ∈ seen, entry.dirty ≠ dirty
  | some (index, lastUse) => ∃ entry, seen[index]? = some entry ∧ entry.dirty = dirty ∧
      entry.lastUse = lastUse ∧ ∀ other ∈ seen, other.dirty = dirty → lastUse ≤ other.lastUse

/-- An entry of the other kind does not change the best one. -/
theorem Best.skip {seen : List CacheEntry} {dirty : Bool} {best : Option (ℕ × ℕ)}
    (hbest : Best seen dirty best) (hkind : entry.dirty ≠ dirty) :
    Best (seen ++ [entry]) dirty best := by
  cases best with
  | none =>
    intro other hother
    rcases List.mem_append.mp hother with hseen | hlast
    · exact hbest other hseen
    · rwa [List.mem_singleton.mp hlast]
  | some best =>
    obtain ⟨found, hfound, hdirty, huse, hleast⟩ := hbest
    refine ⟨found, ?_, hdirty, huse, fun other hother hsame ↦ ?_⟩
    · rw [List.getElem?_append_left (List.getElem?_eq_some_iff.mp hfound).1]
      exact hfound
    · rcases List.mem_append.mp hother with hseen | hlast
      · exact hleast other hseen hsame
      · exact absurd (List.mem_singleton.mp hlast ▸ hsame) hkind

/-- An entry of the kind that was not used before the best one does not change it. -/
theorem Best.keep {seen : List CacheEntry} {best : ℕ × ℕ}
    (hbest : Best seen entry.dirty (some best)) (hlater : ¬entry.lastUse < best.2) :
    Best (seen ++ [entry]) entry.dirty (some best) := by
  obtain ⟨found, hfound, hdirty, huse, hleast⟩ := hbest
  refine ⟨found, ?_, hdirty, huse, fun other hother hsame ↦ ?_⟩
  · rw [List.getElem?_append_left (List.getElem?_eq_some_iff.mp hfound).1]
    exact hfound
  · rcases List.mem_append.mp hother with hseen | hlast
    · exact hleast other hseen hsame
    · rw [List.mem_singleton.mp hlast]
      exact Nat.le_of_not_lt hlater

/-- An entry of the kind that was used before the best one is the best one. -/
theorem Best.improve {seen : List CacheEntry} {best : Option (ℕ × ℕ)}
    (hbest : Best seen entry.dirty best)
    (hearlier : (best.all fun best ↦ decide (entry.lastUse < best.2)) = true) :
    Best (seen ++ [entry]) entry.dirty (some (seen.length, entry.lastUse)) := by
  refine ⟨entry, by simp, rfl, rfl, fun other hother hsame ↦ ?_⟩
  rcases List.mem_append.mp hother with hseen | hlast
  · cases best with
    | none => exact absurd hsame (hbest other hseen)
    | some best =>
      obtain ⟨found, -, -, -, hleast⟩ := hbest
      exact (of_decide_eq_true hearlier).le.trans (hleast other hseen hsame)
  · rw [List.mem_singleton.mp hlast]

/-- The loop that looks for a victim. -/
theorem chooseVictimLoop_spec (rest : List CacheEntry) :
    ∀ (seen : List CacheEntry) (clean dirty : Option (ℕ × ℕ)),
      (∀ entry ∈ seen, entry.valid = true) → Best seen false clean → Best seen true dirty →
        match chooseVictimLoop rest seen.length clean dirty with
        | none => seen ++ rest = []
        | some (index, needed) => ∃ victim, Victim (seen ++ rest) index needed victim := by
  induction rest with
  | nil =>
    intro seen clean dirty hvalid hclean hdirty
    rw [List.append_nil]
    cases clean with
    | some best =>
      obtain ⟨victim, hplace, hkind, huse, hleast⟩ := hclean
      refine ⟨victim, hplace, Or.inr ⟨hkind, hvalid, by simp, fun entry hentry hsame ↦ ?_⟩⟩
      rw [huse]
      exact hleast entry hentry hsame
    | none =>
      have hall (entry : CacheEntry) (hentry : entry ∈ seen) : entry.dirty = true :=
        Bool.eq_true_of_not_eq_false (hclean entry hentry)
      cases dirty with
      | some best =>
        obtain ⟨victim, hplace, hkind, huse, hleast⟩ := hdirty
        refine ⟨victim, hplace, Or.inr ⟨hkind, hvalid, fun _ ↦ hall, fun entry hentry hsame ↦ ?_⟩⟩
        rw [huse]
        exact hleast entry hentry hsame
      | none =>
        change seen = []
        exact List.eq_nil_iff_forall_not_mem.mpr fun entry hentry ↦
          hdirty entry hentry (hall entry hentry)
  | cons entry rest ih =>
    intro seen clean dirty hvalid hclean hdirty
    have hagain (clean dirty : Option (ℕ × ℕ)) (hentry : entry.valid = true)
        (hclean : Best (seen ++ [entry]) false clean) (hdirty : Best (seen ++ [entry]) true dirty) :
        match chooseVictimLoop rest (seen.length + 1) clean dirty with
        | none => seen ++ entry :: rest = []
        | some (index, needed) => ∃ victim, Victim (seen ++ entry :: rest) index needed victim := by
      have hrest := ih (seen ++ [entry]) clean dirty ?_ hclean hdirty
      · rwa [List.length_append, List.length_singleton, List.append_assoc,
          List.singleton_append] at hrest
      · intro other hother
        rcases List.mem_append.mp hother with hseen | hlast
        · exact hvalid other hseen
        · rwa [List.mem_singleton.mp hlast]
    rw [chooseVictimLoop]
    split_ifs with hinvalid hkind hearlier hearlier
    · exact ⟨entry, by simp, Or.inl ⟨hinvalid, rfl⟩⟩
    · refine hagain _ _ (Bool.eq_true_of_not_eq_false hinvalid) (hclean.skip (by simp [hkind])) ?_
      rw [← hkind] at hdirty ⊢
      exact hdirty.improve hearlier
    · refine hagain _ _ (Bool.eq_true_of_not_eq_false hinvalid) (hclean.skip (by simp [hkind])) ?_
      cases dirty with
      | none => simp at hearlier
      | some best =>
        rw [← hkind] at hdirty ⊢
        exact hdirty.keep (by simpa using hearlier)
    · have hclear : entry.dirty = false := Bool.eq_false_of_not_eq_true hkind
      refine hagain _ _ (Bool.eq_true_of_not_eq_false hinvalid) ?_ (hdirty.skip (by simp [hclear]))
      rw [← hclear] at hclean ⊢
      exact hclean.improve hearlier
    · have hclear : entry.dirty = false := Bool.eq_false_of_not_eq_true hkind
      refine hagain _ _ (Bool.eq_true_of_not_eq_false hinvalid) ?_ (hdirty.skip (by simp [hclear]))
      cases clean with
      | none => simp at hearlier
      | some best =>
        rw [← hclear] at hclean ⊢
        exact hclean.keep (by simpa using hearlier)

theorem chooseVictimIndex_eq_none (hnone : chooseVictimIndex entries = none) : entries = [] := by
  have hspec := chooseVictimLoop_spec entries [] none none (by simp) (by simp [Best])
    (by simp [Best])
  rw [List.length_nil, show chooseVictimLoop entries 0 none none = none from hnone] at hspec
  exact hspec

theorem chooseVictimIndex_spec (hsome : chooseVictimIndex entries = some (index, needed)) :
    ∃ victim, Victim entries index needed victim := by
  have hspec := chooseVictimLoop_spec entries [] none none (by simp) (by simp [Best])
    (by simp [Best])
  rw [List.length_nil, show chooseVictimLoop entries 0 none none = some (index, needed) from hsome]
    at hspec
  exact hspec

theorem writeBack_eq (drive : ℕ) (needed : Bool) (victim : CacheEntry) (state : State) :
    writeBack drive needed victim state = state.setDisk drive
      (if needed then ((state.disk drive).write (blockToLba victim.blockNum) victim.data).2
        else state.disk drive) := by
  cases needed with
  | false =>
    rw [if_neg Bool.false_ne_true, State.setDisk, Function.update_eq_self]
    rfl
  | true => rfl

/-- Caching a block does nothing without a cache, and otherwise replaces a victim. -/
theorem cacheClean_cases (drive : ℕ) (block : UInt32) (data : Sector) (state : State) :
    (state.blockCache = [] ∧ cacheClean drive block data state = state) ∨
      ∃ index needed victim, Victim state.blockCache index needed victim ∧
        cacheClean drive block data state =
          { writeBack drive needed victim state with
            blockCache := state.blockCache.set index
              { blockNum := block, lastUse := state.useClock, data := data, dirty := false
                valid := true, drive := drive }
            useClock := u32 (state.useClock + 1) } := by
  unfold cacheClean
  cases hchosen : chooseVictimIndex state.blockCache with
  | none => exact Or.inl ⟨chooseVictimIndex_eq_none hchosen, rfl⟩
  | some chosen =>
    obtain ⟨index, needed⟩ := chosen
    obtain ⟨victim, hvictim⟩ := chooseVictimIndex_spec hchosen
    refine Or.inr ⟨index, needed, victim, hvictim, ?_⟩
    simp only [hvictim.place]

theorem takeFreeBlock_cases (state : State) :
    (state.freeBlockCacheValid = true ∧ ∃ block blocks, state.freeBlockCache = block :: blocks ∧
      takeFreeBlock state = (some block, { state with freeBlockCache := blocks })) ∨
    ((state.freeBlockCacheValid = true → state.freeBlockCache = []) ∧
      takeFreeBlock state = (none, { state with freeBlockCache := [] })) := by
  unfold takeFreeBlock
  cases hvalid : state.freeBlockCacheValid with
  | false => exact Or.inr ⟨fun htrue ↦ absurd htrue Bool.false_ne_true, rfl⟩
  | true =>
    cases hblocks : state.freeBlockCache with
    | nil => exact Or.inr ⟨fun _ ↦ rfl, rfl⟩
    | cons block blocks => exact Or.inl ⟨rfl, block, blocks, rfl, rfl⟩

end EynOS.Storage
