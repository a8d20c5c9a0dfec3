import EynOS.Storage.BlockCacheSteps
import Mathlib.Data.List.Nodup

/-!
# The block cache in the order of use

`Recent` lists the valid entries of the block cache, those used longest ago first. The calls of the
cache act on this list in a simple way: a use moves an entry to the end (`Recent.replace`), the
victim is the first clean entry or the first one (`Recent.oldest`), a flush cleans all of them and
an invalidation removes some. This holds while the clock of the cache does not wrap around.
-/

namespace EynOS.Storage

open Foundation

variable {state : State} {recent : List CacheEntry} {entry old new victim : CacheEntry}
  {index drive : ℕ} {block : UInt32} {needed : Bool}

/-! ### The cache in the order of use -/

def CacheEntry.content (entry : CacheEntry) : UInt32 × Sector × Bool :=
  (entry.blockNum, entry.data, entry.dirty)

/-- The valid entries of the cache, those used longest ago first. -/
structure Recent (state : State) (recent : List CacheEntry) : Prop where
  perm : recent.Perm (liveEntries state.blockCache)
  sorted : recent.Pairwise fun first second ↦ first.lastUse < second.lastUse
  before : ∀ entry ∈ recent, entry.lastUse < state.useClock
  nodup : (recent.map CacheEntry.blockNum).Nodup

section

variable (hrecent : Recent state recent)

include hrecent

/-- The valid entries are those in the order of use. -/
theorem Recent.mem :
    entry ∈ recent ↔ entry ∈ state.blockCache ∧ entry.valid = true := by
  rw [hrecent.perm.mem_iff, mem_liveEntries]

theorem Recent.unique {first second : CacheEntry}
    (hfirst : first ∈ recent) (hsecond : second ∈ recent)
    (hsame : first.blockNum = second.blockNum) : first = second :=
  List.inj_on_of_nodup_map hrecent.nodup hfirst hsecond hsame

/-- A change that leaves the cache and its clock alone. -/
theorem Recent.congr {after : State}
    (hcache : after.blockCache = state.blockCache) (hclock : after.useClock = state.useClock) :
    Recent after recent where
  perm := hcache ▸ hrecent.perm
  sorted := hrecent.sorted
  before := hclock ▸ hrecent.before
  nodup := hrecent.nodup

/-- Using an entry for a block moves it to the end, in the place of what it replaces. -/
theorem Recent.replace {after : State}
    (hold : state.blockCache[index]? = some old) (hvalid : new.valid = true)
    (huse : new.lastUse = state.useClock) (hclock : state.useClock + 1 < 4294967296)
    (hfresh : ∀ entry ∈ recent, old.spares entry = true → entry.blockNum ≠ new.blockNum)
    (hafter : after.blockCache = state.blockCache.set index new)
    (hafterClock : after.useClock = u32 (state.useClock + 1)) :
    Recent after (recent.filter old.spares ++ [new]) := by
  rw [u32_of_lt _ hclock] at hafterClock
  have hlive : (liveEntries (state.blockCache.set index new)).Perm
      (new :: (liveEntries state.blockCache).filter old.spares) :=
    liveEntries_set hold hvalid ((hrecent.perm.map CacheEntry.blockNum).nodup_iff.mp hrecent.nodup)
  constructor
  · rw [hafter]
    exact (List.perm_append_singleton _ _).trans
      (((hrecent.perm.filter _).cons new).trans hlive.symm)
  · refine List.pairwise_append.mpr ⟨hrecent.sorted.filter _, List.pairwise_singleton _ _, ?_⟩
    intro entry hentry last hlast
    rw [List.mem_singleton.mp hlast, huse]
    exact hrecent.before entry (List.mem_filter.mp hentry).1
  · intro entry hentry
    rw [hafterClock]
    rcases List.mem_append.mp hentry with hkept | hlast
    · exact (hrecent.before entry (List.mem_filter.mp hkept).1).trans (Nat.lt_succ_self _)
    · rw [List.mem_singleton.mp hlast, huse]
      exact Nat.lt_succ_self _
  · rw [List.map_append, List.nodup_append]
    refine ⟨hrecent.nodup.sublist (List.filter_sublist.map _), List.nodup_singleton _, ?_⟩
    intro number hnumber last hlast hsame
    obtain ⟨entry, hentry, rfl⟩ := List.mem_map.mp hnumber
    rw [List.map_singleton, List.mem_singleton] at hlast
    obtain ⟨hmem, hspares⟩ := List.mem_filter.mp hentry
    exact hfresh entry hmem hspares (hsame.trans hlast)

/-- Of a cache whose entries are all valid, the victim is the first clean entry in the order of use,
or the first entry where there is no clean one. -/
theorem Recent.oldest (hfull : ∀ entry ∈ state.blockCache, entry.valid = true)
    (hvictim : Victim state.blockCache index needed victim) :
    (if needed then recent.find? (fun entry ↦ !entry.dirty) = none ∧ recent.head? = some victim
      else recent.find? (fun entry ↦ !entry.dirty) = some victim) := by
  have hmem : victim ∈ recent := by
    have hplace := List.mem_of_getElem? hvictim.place
    exact hrecent.mem.mpr ⟨hplace, hfull victim hplace⟩
  rcases hvictim.oldest with ⟨hinvalid, -⟩ | ⟨hkind, -, hall, hleast⟩
  · exact absurd (hrecent.mem.mp hmem).2 (by simp [hinvalid])
  · -- the entries before the victim in the order of use are of the other kind
    have hfirst (entry : CacheEntry) (hentry : entry ∈ recent) (hsame : entry.dirty = needed)
        (hle : entry = victim ∨ entry.lastUse < victim.lastUse) : entry = victim := by
      rcases hle with heq | hlt
      · exact heq
      · exact absurd hlt (Nat.not_lt.mpr (hleast entry (hrecent.mem.mp hentry).1 hsame))
    obtain ⟨before, after, rfl⟩ := List.append_of_mem hmem
    have hearlier (entry : CacheEntry) (hentry : entry ∈ before) : entry.dirty ≠ needed := by
      intro hsame
      have hlt := (List.pairwise_append.mp hrecent.sorted).2.2 entry hentry victim
        List.mem_cons_self
      have heq := hfirst entry (List.mem_append_left _ hentry) hsame (Or.inr hlt)
      exact absurd (heq ▸ hlt) (lt_irrefl _)
    cases needed with
    | false =>
      rw [if_neg Bool.false_ne_true, List.find?_append, List.find?_eq_none.mpr]
      · rw [Option.none_or, List.find?_cons_of_pos]
        rw [hkind]
        rfl
      · intro entry hentry
        simpa using hearlier entry hentry
    | true =>
      have hempty : before = [] := by
        refine List.eq_nil_iff_forall_not_mem.mpr fun entry hentry ↦ hearlier entry hentry ?_
        exact hall rfl entry (hrecent.mem.mp (List.mem_append_left _ hentry)).1
      rw [if_pos rfl, hempty, List.nil_append, List.find?_eq_none]
      refine ⟨fun entry hentry ↦ ?_, rfl⟩
      have hdirty := hall rfl entry (hrecent.mem.mp (List.mem_append_right _ hentry)).1
      simp [hdirty]

end

/-! ### Flushing -/

/-- Writes to two sectors can be exchanged. -/
theorem Disk.write_comm {first second : UInt32} (hdistinct : first ≠ second) (data last : Sector)
    (disk : Disk) : ((disk.write first data).2.write second last).2 =
      ((disk.write second last).2.write first data).2 := by
  have haccesses : Function.update (Function.update disk.accesses first (disk.accesses first + 1))
      second (disk.accesses second + 1) = Function.update
        (Function.update disk.accesses second (disk.accesses second + 1)) first
          (disk.accesses first + 1) :=
    Function.update_comm hdistinct _ _ _
  cases hfirst : disk.fails first (disk.accesses first) <;>
    cases hsecond : disk.fails second (disk.accesses second) <;>
    simp only [Disk.write, Disk.failing, Disk.count, Function.update_of_ne hdistinct,
      Function.update_of_ne hdistinct.symm, hfirst, hsecond, haccesses, Bool.false_eq_true, if_true,
      if_false, Function.update_comm hdistinct]

def writeAll (contents : List (UInt32 × Sector × Bool)) (disk : Disk) : Disk :=
  contents.foldl (fun disk content ↦ (disk.write (blockToLba content.1) content.2.1).2) disk

/-- The order in which different blocks are written does not matter. -/
theorem writeAll_perm {first second : List (UInt32 × Sector × Bool)} (hperm : first.Perm second)
    (hnodup : (first.map Prod.fst).Nodup) (disk : Disk) :
    writeAll first disk = writeAll second disk := by
  refine hperm.foldl_eq' (fun content hcontent last hlast disk ↦ ?_) disk
  by_cases hsame : content.1 = last.1
  · rw [List.inj_on_of_nodup_map hnodup hcontent hlast hsame]
  · exact Disk.write_comm (fun heq ↦ hsame (blockToLba_inj.mp heq)) _ _ _

theorem foldl_flushEntry (entries : List CacheEntry) (state : State) :
    entries.foldl (flushEntry drive) state =
      state.setDisk drive (writeAll (entries.map CacheEntry.content) (state.disk drive)) := by
  induction entries generalizing state with
  | nil =>
    rw [State.setDisk, List.map_nil, writeAll, List.foldl_nil, List.foldl_nil,
      Function.update_eq_self]
  | cons entry entries ih =>
    rw [List.foldl_cons, ih]
    simp only [flushEntry, ataWriteSector, State.setDisk, Function.update_self,
      Function.update_idem]
    rfl

def CacheEntry.saved (entry : CacheEntry) : CacheEntry :=
  if entry.unsaved then { entry with dirty := false } else entry

theorem CacheEntry.saved_valid (entry : CacheEntry) : entry.saved.valid = entry.valid := by
  unfold CacheEntry.saved
  split_ifs <;> rfl

theorem CacheEntry.saved_blockNum (entry : CacheEntry) :
    entry.saved.blockNum = entry.blockNum := by
  unfold CacheEntry.saved
  split_ifs <;> rfl

theorem CacheEntry.saved_lastUse (entry : CacheEntry) : entry.saved.lastUse = entry.lastUse := by
  unfold CacheEntry.saved
  split_ifs <;> rfl

theorem CacheEntry.saved_drive (entry : CacheEntry) : entry.saved.drive = entry.drive := by
  unfold CacheEntry.saved
  split_ifs <;> rfl

/-- A valid entry is clean after a flush. -/
theorem CacheEntry.saved_content (hvalid : entry.valid = true) :
    entry.saved.content = (entry.blockNum, entry.data, false) := by
  unfold CacheEntry.saved
  split_ifs with hunsaved
  · rfl
  · rw [CacheEntry.unsaved_iff] at hunsaved
    have hclean : entry.dirty = false := Bool.eq_false_of_not_eq_true fun hdirty ↦
      hunsaved ⟨hvalid, hdirty⟩
    rw [CacheEntry.content, hclean]

/-- A flush does not change which entries are valid, nor the order of their use. -/
theorem Recent.flush {after : State} (hrecent : Recent state recent)
    (hcache : after.blockCache = state.blockCache.map CacheEntry.saved)
    (hclock : after.useClock = state.useClock) : Recent after (recent.map CacheEntry.saved) where
  perm := by
    rw [hcache, liveEntries, List.filter_map]
    have hsame : CacheEntry.valid ∘ CacheEntry.saved = CacheEntry.valid :=
      funext CacheEntry.saved_valid
    rw [hsame]
    exact hrecent.perm.map _
  sorted := by
    rw [List.pairwise_map]
    refine hrecent.sorted.imp fun hless ↦ ?_
    rwa [CacheEntry.saved_lastUse, CacheEntry.saved_lastUse]
  before := by
    intro entry hentry
    obtain ⟨former, hformer, rfl⟩ := List.mem_map.mp hentry
    rw [CacheEntry.saved_lastUse, hclock]
    exact hrecent.before former hformer
  nodup := by
    rw [List.map_map, show CacheEntry.blockNum ∘ CacheEntry.saved = CacheEntry.blockNum from
      funext CacheEntry.saved_blockNum]
    exact hrecent.nodup

/-- The blocks that a flush writes, in the order of use. -/
theorem Recent.unsaved_perm (hrecent : Recent state recent) :
    ((recent.map CacheEntry.content).filter (·.2.2)).Perm
      ((state.blockCache.filter CacheEntry.unsaved).map CacheEntry.content) := by
  have hboth : state.blockCache.filter CacheEntry.unsaved =
      (liveEntries state.blockCache).filter CacheEntry.dirty := by
    rw [liveEntries, List.filter_filter]
    refine List.filter_congr fun entry _ ↦ ?_
    rw [CacheEntry.unsaved, Bool.and_comm]
  rw [hboth, List.filter_map]
  exact ((hrecent.perm.filter CacheEntry.dirty)).map CacheEntry.content

/-! ### Invalidating -/

/-- Invalidating a block removes its copies from the valid entries. -/
theorem liveEntries_invalidate (block : UInt32) (state : State) :
    liveEntries (cacheInvalidateBlock block state).blockCache =
      (liveEntries state.blockCache).filter (·.blockNum ≠ block) := by
  rw [cacheInvalidateBlock, liveEntries, liveEntries, List.filter_map, List.filter_filter]
  refine (List.map_congr_left fun entry hentry ↦ ?_).trans ((List.map_id _).trans ?_)
  · refine if_neg fun hholds ↦ ?_
    have hvalid := (List.mem_filter.mp hentry).2
    rw [Function.comp_apply, if_pos hholds] at hvalid
    exact Bool.false_ne_true hvalid
  · refine List.filter_congr fun entry _ ↦ ?_
    rw [Function.comp_apply]
    cases hvalid : entry.valid <;> by_cases hblock : entry.blockNum = block <;>
      simp [CacheEntry.holds, hvalid, hblock]

/-- Invalidating a block leaves the others in the order of their use. -/
theorem Recent.invalidate (hrecent : Recent state recent) (block : UInt32) :
    Recent (cacheInvalidateBlock block state) (recent.filter (·.blockNum ≠ block)) where
  perm := by
    rw [liveEntries_invalidate]
    exact hrecent.perm.filter _
  sorted := hrecent.sorted.filter _
  before := fun entry hentry ↦ hrecent.before entry (List.mem_filter.mp hentry).1
  nodup := hrecent.nodup.sublist (List.filter_sublist.map _)

/-- No entry is valid after the caches were cleared. -/
theorem Recent.reset (state : State) : Recent (cacheReset state) [] where
  perm := by
    rw [cacheReset, liveEntries, List.filter_map, List.filter_eq_nil_iff.mpr]
    · exact List.Perm.refl _
    · exact fun entry _ ↦ Bool.false_ne_true
  sorted := List.Pairwise.nil
  before := fun _ hentry ↦ absurd hentry List.not_mem_nil
  nodup := List.nodup_nil

end EynOS.Storage
