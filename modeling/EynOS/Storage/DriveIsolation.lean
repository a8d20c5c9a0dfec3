import EynOS.Foundation.Run
import EynOS.Storage.CacheRecency
import EynOS.Storage.Eynfs

/-!
# What the calls on one drive see of the calls on another

The block cache and the free-block cache of EYNFS do not keep the drive that their contents came
from. `not_drives_isolated` reads a block of one drive after the same block of another and gets the
other drive's bytes. `drives_isolated` is when calls on several drives do not see each other: where
no access finds, replaces, flushes, invalidates or takes what another drive left in the caches, the
calls on a drive return what they return without the calls on the others, and write the same.

The proof keeps the valid entries of the cache in the order of their last use (`Recent`). Those of
one drive, in this order, are the same in the two runs (`Mirrors`).
-/

namespace EynOS.Storage

open Foundation Interaction

/-! ### Sessions -/

/-- The drives and the caches, with what the calls on each drive returned. -/
structure Session where
  state : State
  outcomes : ℕ → List (Except Stop Response)

/-- Perform a call and note what it returned. -/
def Session.step (session : Session) (call : Call) : Session where
  state := (perform call session.state).2
  outcomes := Function.update session.outcomes call.target
    (session.outcomes call.target ++ [(perform call session.state).1])

/-- Caches that were never used, above some drives. -/
def Session.start (disk : ℕ → Disk) (capacity : ℕ) : Session where
  state := .boot disk capacity
  outcomes := fun _ ↦ []

/-! ### Accesses that stay apart -/

/-- The copies of a block in the cache come from a drive. -/
def OwnCopies (drive : ℕ) (block : UInt32) (state : State) : Prop :=
  ∀ entry ∈ state.blockCache, entry.holds block = true → entry.drive = drive

/-- The cache has room for a drive: it has an entry that is not valid, or all are the drive's. -/
def HasRoom (drive : ℕ) (state : State) : Prop :=
  (∃ entry ∈ state.blockCache, entry.valid = false) ∨
    ∀ entry ∈ state.blockCache, entry.drive = drive

/-- The free-block cache has no block of another drive to give. -/
def OwnFree (drive : ℕ) (state : State) : Prop :=
  state.freeBlockCacheValid = true → state.freeBlockCache ≠ [] → state.freeDrive = drive

/-- An access of a block through the cache stays apart. The copies of the block are the drive's;
where there is none and the drive does not fail, one is made, for which the cache has room; and the
clock of the cache does not wrap around where an entry is used. -/
def CachesApart (drive : ℕ) (block : UInt32) (state : State) : Prop :=
  OwnCopies drive block state ∧
    if cachedAt block state.blockCache = none then
      (state.disk drive).failing (blockToLba block) = false →
        HasRoom drive state ∧ state.useClock + 1 < 4294967296
    else state.useClock + 1 < 4294967296

/-- An access of a call on a drive stays apart from what other drives left in the caches. Of a
refill that failed half way, the blocks are only kept in a free-block cache that is the drive's. -/
def Apart (drive : ℕ) (state : State) : Request → Prop
  | .readSector _ => True
  | .writeSector _ _ => True
  | .getBlock block => CachesApart drive block state
  | .writeBlock block _ => CachesApart drive block state
  | .flush => ∀ entry ∈ state.blockCache, entry.unsaved = true → entry.drive = drive
  | .invalidateBlock block => OwnCopies drive block state
  | .reset => (∀ entry ∈ state.blockCache, entry.valid = true → entry.drive = drive) ∧
      OwnFree drive state
  | .takeFree => OwnFree drive state
  | .keepFree blocks complete => OwnFree drive state ∧
      (complete = true ∨ blocks = [] ∨
        state.freeBlockCacheValid = true ∧ state.freeDrive = drive)
  | .dropFree => OwnFree drive state

instance (drive : ℕ) (block : UInt32) (state : State) : Decidable (OwnCopies drive block state) :=
  inferInstanceAs (Decidable (∀ entry ∈ state.blockCache, _))

instance (drive : ℕ) (state : State) : Decidable (HasRoom drive state) :=
  inferInstanceAs (Decidable ((∃ entry ∈ state.blockCache, _) ∨ ∀ entry ∈ state.blockCache, _))

instance (drive : ℕ) (state : State) : Decidable (OwnFree drive state) :=
  inferInstanceAs (Decidable (_ → _ → _))

instance (drive : ℕ) (block : UInt32) (state : State) : Decidable (CachesApart drive block state) :=
  inferInstanceAs (Decidable (_ ∧ ite _ _ _))

instance (drive : ℕ) (state : State) : (request : Request) → Decidable (Apart drive state request)
  | .readSector _ => isTrue trivial
  | .writeSector _ _ => isTrue trivial
  | .getBlock block => inferInstanceAs (Decidable (CachesApart drive block state))
  | .writeBlock block _ => inferInstanceAs (Decidable (CachesApart drive block state))
  | .flush => inferInstanceAs (Decidable (∀ entry ∈ state.blockCache, _))
  | .invalidateBlock block => inferInstanceAs (Decidable (OwnCopies drive block state))
  | .reset => inferInstanceAs (Decidable ((∀ entry ∈ state.blockCache, _) ∧ _))
  | .takeFree => inferInstanceAs (Decidable (OwnFree drive state))
  | .keepFree _ _ => inferInstanceAs (Decidable (_ ∧ (_ ∨ _ ∨ _)))
  | .dropFree => inferInstanceAs (Decidable (OwnFree drive state))

/-- Every access of a call stays apart. -/
def KeepsApart (session : Session) (call : Call) : Prop :=
  Throughout (answer call.target) (Apart call.target) call.operation.program session.state

instance (session : Session) (call : Call) : Decidable (KeepsApart session call) :=
  inferInstanceAs (Decidable (Throughout _ _ _ _))

variable {state alone : State} {recent own : List CacheEntry} {entry old new victim : CacheEntry}
  {index drive other : ℕ} {block : UInt32} {data : Sector} {needed : Bool} {disk : Disk}

/-! ### A drive on its own -/

/-- The state of a session mirrors, for one drive, the state of a session without the calls on the
others. -/
structure Mirrors (drive : ℕ) (state alone : State) : Prop where
  disk : state.disk drive = alone.disk drive
  capacity : state.blockCache.length = alone.blockCache.length
  clock : alone.useClock ≤ state.useClock
  copies : ∃ recent own, Recent state recent ∧ Recent alone own ∧
    (recent.filter (·.drive = drive)).map CacheEntry.content = own.map CacheEntry.content ∧
    ∀ entry ∈ own, entry.drive = drive
  freeOwn : state.freeBlockCacheValid = true → state.freeDrive = drive →
    alone.freeBlockCacheValid = true ∧ alone.freeBlockCache = state.freeBlockCache
  freeAlone : alone.freeBlockCacheValid = true → alone.freeBlockCache ≠ [] →
    state.freeBlockCacheValid = true ∧ state.freeDrive = drive

/-- The same change of the drive. -/
theorem Mirrors.setDisk (hmirrors : Mirrors drive state alone) (disk : Disk) :
    Mirrors drive (state.setDisk drive disk) (alone.setDisk drive disk) where
  disk := by simp [State.setDisk]
  capacity := hmirrors.capacity
  clock := hmirrors.clock
  copies := by
    obtain ⟨recent, own, hrecent, hown, hcopies⟩ := hmirrors.copies
    exact ⟨recent, own, hrecent.congr rfl rfl, hown.congr rfl rfl, hcopies⟩
  freeOwn := hmirrors.freeOwn
  freeAlone := hmirrors.freeAlone

/-- A change of another drive. -/
theorem Mirrors.setOther (hmirrors : Mirrors drive state alone) (hother : other ≠ drive)
    (disk : Disk) : Mirrors drive (state.setDisk other disk) alone where
  disk := by
    rw [← hmirrors.disk]
    exact Function.update_of_ne hother.symm _ _
  capacity := hmirrors.capacity
  clock := hmirrors.clock
  copies := by
    obtain ⟨recent, own, hrecent, hcopies⟩ := hmirrors.copies
    exact ⟨recent, own, hrecent.congr rfl rfl, hcopies⟩
  freeOwn := hmirrors.freeOwn
  freeAlone := hmirrors.freeAlone

/-- What an entry held decides whether it is replaced. -/
theorem map_filter_spares (old : CacheEntry) (list : List CacheEntry) :
    (list.filter old.spares).map CacheEntry.content =
      (list.map CacheEntry.content).filter fun content ↦
        !(old.valid && content.1 == old.blockNum) := by
  rw [List.filter_map]
  rfl

/-- The same use of an entry of the drive in both. -/
theorem Mirrors.replace {after afterAlone : State} {place : ℕ} {oldAlone newAlone : CacheEntry}
    (hmirrors : Mirrors drive state alone) (hdisk : after.disk drive = afterAlone.disk drive)
    (hold : state.blockCache[index]? = some old)
    (holdAlone : alone.blockCache[place]? = some oldAlone)
    (hsame : old.valid = oldAlone.valid ∧ (old.valid = true → old.blockNum = oldAlone.blockNum))
    (hnew : new.valid = true ∧ new.lastUse = state.useClock ∧ new.drive = drive)
    (hnewAlone : newAlone.valid = true ∧ newAlone.lastUse = alone.useClock ∧
      newAlone.drive = drive)
    (hcontent : new.content = newAlone.content)
    (hfresh : ∀ entry ∈ liveEntries state.blockCache, old.spares entry = true →
      entry.blockNum ≠ new.blockNum)
    (hclock : state.useClock + 1 < 4294967296)
    (hafter : after.blockCache = state.blockCache.set index new ∧
      after.useClock = u32 (state.useClock + 1) ∧
      after.freeBlockCacheValid = state.freeBlockCacheValid ∧
      after.freeBlockCache = state.freeBlockCache ∧ after.freeDrive = state.freeDrive)
    (hafterAlone : afterAlone.blockCache = alone.blockCache.set place newAlone ∧
      afterAlone.useClock = u32 (alone.useClock + 1) ∧
      afterAlone.freeBlockCacheValid = alone.freeBlockCacheValid ∧
      afterAlone.freeBlockCache = alone.freeBlockCache) :
    Mirrors drive after afterAlone := by
  obtain ⟨recent, own, hrecent, hown, hcopies, hdrive⟩ := hmirrors.copies
  obtain ⟨hcache, huse, hvalid, hfree, hfreeDrive⟩ := hafter
  obtain ⟨hcacheAlone, huseAlone, hvalidAlone, hfreeAlone⟩ := hafterAlone
  have hclockAlone : alone.useClock + 1 < 4294967296 :=
    (Nat.add_le_add_right hmirrors.clock 1).trans_lt hclock
  have hkept : (recent.filter old.spares |>.filter (·.drive = drive)).map CacheEntry.content =
      (own.filter oldAlone.spares).map CacheEntry.content := by
    rw [List.filter_comm, map_filter_spares, hcopies, map_filter_spares]
    refine List.filter_congr fun content _ ↦ ?_
    rw [← hsame.1]
    cases hkind : old.valid with
    | false => rfl
    | true => rw [hsame.2 hkind]
  have hnumber : new.blockNum = newAlone.blockNum := congrArg Prod.fst hcontent
  have hfreshAlone (entry : CacheEntry) (hentry : entry ∈ own)
      (hspares : oldAlone.spares entry = true) : entry.blockNum ≠ newAlone.blockNum := by
    have hmem : entry.content ∈ (own.filter oldAlone.spares).map CacheEntry.content :=
      List.mem_map_of_mem (List.mem_filter.mpr ⟨hentry, hspares⟩)
    rw [← hkept] at hmem
    obtain ⟨found, hfound, hcontentFound⟩ := List.mem_map.mp hmem
    obtain ⟨hmemFound, hsparesFound⟩ := List.mem_filter.mp (List.mem_filter.mp hfound).1
    rw [← hnumber, show entry.blockNum = found.blockNum from (congrArg Prod.fst hcontentFound).symm]
    exact hfresh found (hrecent.perm.mem_iff.mp hmemFound) hsparesFound
  constructor
  · exact hdisk
  · rw [hcache, hcacheAlone, List.length_set, List.length_set]
    exact hmirrors.capacity
  · rw [huse, huseAlone, u32_of_lt _ hclock, u32_of_lt _ hclockAlone]
    exact Nat.add_le_add_right hmirrors.clock 1
  · refine ⟨_, _, hrecent.replace hold hnew.1 hnew.2.1 hclock
      (fun entry hentry ↦ hfresh entry (hrecent.perm.mem_iff.mp hentry)) hcache huse,
      hown.replace holdAlone hnewAlone.1 hnewAlone.2.1 hclockAlone hfreshAlone hcacheAlone
        huseAlone, ?_, ?_⟩
    · rw [List.filter_append, List.map_append, List.map_append, hkept,
        List.filter_cons_of_pos (by simpa using hnew.2.2), List.filter_nil, List.map_singleton,
        List.map_singleton, hcontent]
    · intro entry hentry
      rcases List.mem_append.mp hentry with hkeptEntry | hlast
      · exact hdrive entry (List.mem_filter.mp hkeptEntry).1
      · rw [List.mem_singleton.mp hlast]
        exact hnewAlone.2.2
  · rw [hvalid, hfreeDrive, hfree, hvalidAlone, hfreeAlone]
    exact hmirrors.freeOwn
  · rw [hvalid, hfreeDrive, hvalidAlone, hfreeAlone]
    exact hmirrors.freeAlone

/-- The use of an entry of another drive. -/
theorem Mirrors.replaceOther {after : State} (hmirrors : Mirrors drive state alone)
    (hdisk : after.disk drive = state.disk drive)
    (hold : state.blockCache[index]? = some old) (hother : old.valid = true → old.drive ≠ drive)
    (hnew : new.valid = true ∧ new.lastUse = state.useClock ∧ new.drive ≠ drive)
    (hfresh : ∀ entry ∈ liveEntries state.blockCache, old.spares entry = true →
      entry.blockNum ≠ new.blockNum)
    (hclock : state.useClock + 1 < 4294967296)
    (hafter : after.blockCache = state.blockCache.set index new ∧
      after.useClock = u32 (state.useClock + 1) ∧
      after.freeBlockCacheValid = state.freeBlockCacheValid ∧
      after.freeBlockCache = state.freeBlockCache ∧ after.freeDrive = state.freeDrive) :
    Mirrors drive after alone := by
  obtain ⟨recent, own, hrecent, hown, hcopies, hdrive⟩ := hmirrors.copies
  obtain ⟨hcache, huse, hvalid, hfree, hfreeDrive⟩ := hafter
  constructor
  · exact hdisk.trans hmirrors.disk
  · rw [hcache, List.length_set]
    exact hmirrors.capacity
  · rw [huse, u32_of_lt _ hclock]
    exact hmirrors.clock.trans (Nat.le_succ _)
  · refine ⟨_, own, hrecent.replace hold hnew.1 hnew.2.1 hclock
      (fun entry hentry ↦ hfresh entry (hrecent.perm.mem_iff.mp hentry)) hcache huse, hown, ?_,
      hdrive⟩
    rw [← hcopies, List.filter_append, List.filter_cons_of_neg (by simpa using hnew.2.2),
      List.filter_nil, List.append_nil, List.filter_comm, List.filter_eq_self.mpr]
    intro entry hentry
    obtain ⟨hmem, hentryDrive⟩ := List.mem_filter.mp hentry
    refine CacheEntry.spares_iff.mpr fun hkind hsame ↦ ?_
    have holdMem : old ∈ recent := hrecent.mem.mpr ⟨List.mem_of_getElem? hold, hkind⟩
    rw [hrecent.unique hmem holdMem hsame] at hentryDrive
    exact hother hkind (of_decide_eq_true hentryDrive)
  · rw [hvalid, hfreeDrive, hfree]
    exact hmirrors.freeOwn
  · rw [hvalid, hfreeDrive]
    exact hmirrors.freeAlone

/-! ### Victims -/

/-- The victims of a drive on its own and among others agree. -/
theorem Mirrors.sameVictim {place : ℕ} {neededAlone : Bool} {victimAlone : CacheEntry}
    (hmirrors : Mirrors drive state alone) (hroom : HasRoom drive state)
    (hvictim : Victim state.blockCache index needed victim)
    (hvictimAlone : Victim alone.blockCache place neededAlone victimAlone) :
    needed = neededAlone ∧ victim.valid = victimAlone.valid ∧
      (victim.valid = true → victim.content = victimAlone.content) := by
  obtain ⟨recent, own, hrecent, hown, hcopies, -⟩ := hmirrors.copies
  have hlength : own.length = (recent.filter (·.drive = drive)).length := by
    rw [← List.length_map (f := CacheEntry.content), ← hcopies, List.length_map]
  have hlive : recent.length = (liveEntries state.blockCache).length := hrecent.perm.length_eq
  have hliveAlone : own.length = (liveEntries alone.blockCache).length := hown.perm.length_eq
  by_cases hspare : ∃ entry ∈ state.blockCache, entry.valid = false
  · -- there is a place without a valid entry in both
    have hless : (liveEntries state.blockCache).length < state.blockCache.length := by
      obtain ⟨entry, hentry, hinvalid⟩ := hspare
      exact List.length_filter_lt_length_iff_exists.mpr ⟨entry, hentry, by simp [hinvalid]⟩
    have hspareAlone : ∃ entry ∈ alone.blockCache, entry.valid = false := by
      by_contra hnone
      have hall : (liveEntries alone.blockCache).length = alone.blockCache.length := by
        refine congrArg List.length (List.filter_eq_self.mpr fun entry hentry ↦ ?_)
        exact Bool.eq_true_of_not_eq_false fun hinvalid ↦ hnone ⟨entry, hentry, hinvalid⟩
      have hle := List.length_filter_le (fun entry ↦ decide (entry.drive = drive)) recent
      have hcapacity := hmirrors.capacity
      omega
    have hinvalid {entries : List CacheEntry} {index : ℕ} {needed : Bool} {victim : CacheEntry}
        (hvictim : Victim entries index needed victim)
        (hspare : ∃ entry ∈ entries, entry.valid = false) :
        victim.valid = false ∧ needed = false := by
      rcases hvictim.oldest with hfree | ⟨-, hfull, -⟩
      · exact hfree
      · obtain ⟨entry, hentry, hinvalid⟩ := hspare
        exact absurd (hfull entry hentry) (by simp [hinvalid])
    obtain ⟨hvalid, hneeded⟩ := hinvalid hvictim hspare
    obtain ⟨hvalidAlone, hneededAlone⟩ := hinvalid hvictimAlone hspareAlone
    refine ⟨hneeded.trans hneededAlone.symm, hvalid.trans hvalidAlone.symm, fun hkind ↦ ?_⟩
    exact absurd hkind (by simp [hvalid])
  · -- all entries are valid and the drive's own, and so are those of the drive on its own
    have hfull (entry : CacheEntry) (hentry : entry ∈ state.blockCache) : entry.valid = true :=
      Bool.eq_true_of_not_eq_false fun hinvalid ↦ hspare ⟨entry, hentry, hinvalid⟩
    have hmine : recent.filter (·.drive = drive) = recent := by
      refine List.filter_eq_self.mpr fun entry hentry ↦ decide_eq_true ?_
      exact (hroom.resolve_left hspare) entry (hrecent.mem.mp hentry).1
    have hfullAlone : ∀ entry ∈ alone.blockCache, entry.valid = true := by
      have hall : liveEntries state.blockCache = state.blockCache :=
        List.filter_eq_self.mpr hfull
      refine List.length_filter_eq_length_iff.mp ?_
      rw [← liveEntries, ← hliveAlone, hlength, hmine, hlive, hall]
      exact hmirrors.capacity
    rw [hmine] at hcopies
    have hfind : (recent.find? fun entry ↦ !entry.dirty).map CacheEntry.content =
        (own.find? fun entry ↦ !entry.dirty).map CacheEntry.content := by
      have hboth (list : List CacheEntry) :
          (list.find? fun entry ↦ !entry.dirty).map CacheEntry.content =
            (list.map CacheEntry.content).find? fun content ↦ !content.2.2 := by
        rw [List.find?_map]
        rfl
      rw [hboth, hboth, hcopies]
    have hhead : recent.head?.map CacheEntry.content = own.head?.map CacheEntry.content := by
      rw [← List.head?_map, ← List.head?_map, hcopies]
    have holdest := hrecent.oldest hfull hvictim
    have holdestAlone := hown.oldest hfullAlone hvictimAlone
    have hvalid := hfull victim (List.mem_of_getElem? hvictim.place)
    have hvalidAlone := hfullAlone victimAlone (List.mem_of_getElem? hvictimAlone.place)
    cases needed with
    | false =>
      rw [if_neg Bool.false_ne_true] at holdest
      cases neededAlone with
      | false =>
        rw [if_neg Bool.false_ne_true] at holdestAlone
        rw [holdest, holdestAlone] at hfind
        exact ⟨rfl, hvalid.trans hvalidAlone.symm, fun _ ↦ Option.some.inj hfind⟩
      | true =>
        rw [if_pos rfl] at holdestAlone
        rw [holdest, holdestAlone.1] at hfind
        exact absurd hfind (by simp)
    | true =>
      rw [if_pos rfl] at holdest
      cases neededAlone with
      | false =>
        rw [if_neg Bool.false_ne_true] at holdestAlone
        rw [holdest.1, holdestAlone] at hfind
        exact absurd hfind (by simp)
      | true =>
        rw [if_pos rfl] at holdestAlone
        rw [holdest.2, holdestAlone.2] at hhead
        exact ⟨rfl, hvalid.trans hvalidAlone.symm, fun _ ↦ Option.some.inj hhead⟩

/-! ### The calls of the cache functions -/

section

variable (hmirrors : Mirrors drive state alone)

include hmirrors

/-- Caching a block that is in neither cache. -/
theorem Mirrors.cacheClean (hroom : HasRoom drive state)
    (hclock : state.useClock + 1 < 4294967296)
    (hmiss : cachedAt block state.blockCache = none) (data : Sector) :
    Mirrors drive (cacheClean drive block data state) (cacheClean drive block data alone) := by
  rcases cacheClean_cases drive block data state with
    ⟨hempty, heq⟩ | ⟨index, needed, victim, hvictim, heq⟩
  · rcases cacheClean_cases drive block data alone with
      ⟨-, heqAlone⟩ | ⟨place, neededAlone, victimAlone, hvictimAlone, -⟩
    · rw [heq, heqAlone]
      exact hmirrors
    · have hnone : alone.blockCache = [] := by
        rw [← List.length_eq_zero_iff, ← hmirrors.capacity, hempty, List.length_nil]
      have hplace := hvictimAlone.place
      rw [hnone] at hplace
      simp at hplace
  · rcases cacheClean_cases drive block data alone with
      ⟨hnone, -⟩ | ⟨place, neededAlone, victimAlone, hvictimAlone, heqAlone⟩
    · have hempty : state.blockCache = [] := by
        rw [← List.length_eq_zero_iff, hmirrors.capacity, hnone, List.length_nil]
      have hplace := hvictim.place
      rw [hempty] at hplace
      simp at hplace
    · obtain ⟨hneeded, hvalid, hcontent⟩ := hmirrors.sameVictim hroom hvictim hvictimAlone
      rw [heq, heqAlone, writeBack_eq, writeBack_eq]
      refine hmirrors.replace ?_ hvictim.place hvictimAlone.place
        ⟨hvalid, fun hkind ↦ congrArg Prod.fst (hcontent hkind)⟩ ⟨rfl, rfl, rfl⟩ ?_ ?_
        (fun entry hentry _ ↦ cachedAt_eq_none.mp hmiss entry hentry) hclock
        ⟨rfl, rfl, rfl, rfl, rfl⟩ ⟨rfl, rfl, rfl, rfl⟩
      rotate_left
      · exact ⟨rfl, rfl, rfl⟩
      · rfl
      simp only [State.setDisk, Function.update_self]
      rw [← hneeded, hmirrors.disk]
      cases hkind : needed with
      | false => rfl
      | true =>
        have hlive : victim.valid = true := by
          rcases hvictim.oldest with ⟨-, hclear⟩ | ⟨-, hfull, -⟩
          · exact absurd (hkind.symm.trans hclear) (by simp)
          · exact hfull victim (List.mem_of_getElem? hvictim.place)
        have hsame := hcontent hlive
        rw [show victim.blockNum = victimAlone.blockNum from congrArg Prod.fst hsame,
          show victim.data = victimAlone.data from congrArg (Prod.fst ∘ Prod.snd) hsame]

/-- Caching a block of another drive. -/
theorem Mirrors.cacheCleanOther (hother : other ≠ drive)
    (hroom : HasRoom other state) (hclock : state.useClock + 1 < 4294967296)
    (hmiss : cachedAt block state.blockCache = none) (data : Sector) :
    Mirrors drive (Storage.cacheClean other block data state) alone := by
  rcases cacheClean_cases other block data state with
    ⟨-, heq⟩ | ⟨index, needed, victim, hvictim, heq⟩
  · rw [heq]
    exact hmirrors
  · rw [heq, writeBack_eq]
    refine hmirrors.replaceOther ?_ hvictim.place (fun hkind ↦ ?_) ⟨rfl, rfl, hother⟩
      (fun entry hentry _ ↦ cachedAt_eq_none.mp hmiss entry hentry) hclock
      ⟨rfl, rfl, rfl, rfl, rfl⟩
    · exact Function.update_of_ne hother.symm _ _
    · rcases hvictim.oldest with ⟨hinvalid, -⟩ | ⟨-, hfull, -⟩
      · exact absurd hkind (by simp [hinvalid])
      · rcases hroom with ⟨entry, hentry, hinvalid⟩ | hall
        · exact absurd (hfull entry hentry) (by simp [hinvalid])
        · rw [hall victim (List.mem_of_getElem? hvictim.place)]
          exact hother

/-- A block is found in both caches, with the same contents, or in neither. -/
theorem Mirrors.found (hcopies : OwnCopies drive block state) :
    (cachedAt block state.blockCache = none ∧ cachedAt block alone.blockCache = none) ∨
      ∃ index entry place entryAlone, cachedAt block state.blockCache = some (index, entry) ∧
        cachedAt block alone.blockCache = some (place, entryAlone) ∧
        entry.content = entryAlone.content ∧ entry.drive = drive ∧ entryAlone.drive = drive := by
  obtain ⟨recent, own, hrecent, hown, hsame, hdrive⟩ := hmirrors.copies
  cases hfound : cachedAt block state.blockCache with
  | none =>
    refine Or.inl ⟨rfl, cachedAt_eq_none.mpr fun entry hentry hblock ↦ ?_⟩
    have hmem : entry.content ∈ own.map CacheEntry.content :=
      List.mem_map_of_mem (hown.perm.mem_iff.mpr hentry)
    rw [← hsame] at hmem
    obtain ⟨found, hfilter, hcontent⟩ := List.mem_map.mp hmem
    refine cachedAt_eq_none.mp hfound found
      (hrecent.perm.mem_iff.mp (List.mem_filter.mp hfilter).1) ?_
    exact (congrArg Prod.fst hcontent).trans hblock
  | some pair =>
    obtain ⟨index, entry⟩ := pair
    obtain ⟨hplace, hvalid, hblock⟩ := cachedAt_spec hfound
    have hentry : entry ∈ state.blockCache := List.mem_of_getElem? hplace
    have hentryDrive := hcopies entry hentry (CacheEntry.holds_iff.mpr ⟨hvalid, hblock⟩)
    have hmem : entry.content ∈ (recent.filter (·.drive = drive)).map CacheEntry.content :=
      List.mem_map_of_mem (List.mem_filter.mpr
        ⟨hrecent.mem.mpr ⟨hentry, hvalid⟩, decide_eq_true hentryDrive⟩)
    rw [hsame] at hmem
    obtain ⟨copy, hcopy, hcontent⟩ := List.mem_map.mp hmem
    have hcopyBlock : copy.blockNum = block := (congrArg Prod.fst hcontent).trans hblock
    cases hfoundAlone : cachedAt block alone.blockCache with
    | none =>
      exact absurd hcopyBlock
        (cachedAt_eq_none.mp hfoundAlone copy (hown.perm.mem_iff.mp hcopy))
    | some pairAlone =>
      obtain ⟨place, entryAlone⟩ := pairAlone
      obtain ⟨hplaceAlone, hvalidAlone, hblockAlone⟩ := cachedAt_spec hfoundAlone
      have hentryAlone : entryAlone ∈ own :=
        hown.mem.mpr ⟨List.mem_of_getElem? hplaceAlone, hvalidAlone⟩
      have heq := hown.unique hcopy hentryAlone (hcopyBlock.trans hblockAlone.symm)
      exact Or.inr ⟨index, entry, place, entryAlone, rfl, rfl, heq ▸ hcontent.symm, hentryDrive,
        hdrive entryAlone hentryAlone⟩

/-- Using the copy of a block that was found in both caches. -/
theorem Mirrors.useEntry {place : ℕ} {entryAlone used usedAlone : CacheEntry}
    (hclock : state.useClock + 1 < 4294967296)
    (hfound : cachedAt block state.blockCache = some (index, entry))
    (hfoundAlone : cachedAt block alone.blockCache = some (place, entryAlone))
    (hused : used.valid = true ∧ used.blockNum = block ∧ used.drive = drive)
    (husedAlone : usedAlone.valid = true ∧ usedAlone.drive = drive)
    (hcontent : used.content = usedAlone.content) :
    Mirrors drive (useEntry index used state) (useEntry place usedAlone alone) := by
  obtain ⟨hplace, hvalid, hblock⟩ := cachedAt_spec hfound
  obtain ⟨hplaceAlone, hvalidAlone, hblockAlone⟩ := cachedAt_spec hfoundAlone
  refine hmirrors.replace hmirrors.disk hplace hplaceAlone
    ⟨hvalid.trans hvalidAlone.symm, fun _ ↦ hblock.trans hblockAlone.symm⟩
    ?_ ?_ ?_ ?_ hclock ⟨rfl, rfl, rfl, rfl, rfl⟩ ⟨rfl, rfl, rfl, rfl⟩
  · exact ⟨hused.1, rfl, hused.2.2⟩
  · exact ⟨husedAlone.1, rfl, husedAlone.2⟩
  · exact hcontent
  · intro entry _ hspares
    change entry.blockNum ≠ used.blockNum
    rw [hused.2.1, ← hblock]
    exact CacheEntry.spares_iff.mp hspares hvalid

/-- Using the copy of a block of another drive. -/
theorem Mirrors.useOther {used : CacheEntry}
    (hother : other ≠ drive) (hclock : state.useClock + 1 < 4294967296)
    (hfound : cachedAt block state.blockCache = some (index, entry))
    (hcopies : OwnCopies other block state)
    (hused : used.valid = true ∧ used.blockNum = block ∧ used.drive = entry.drive) :
    Mirrors drive (Storage.useEntry index used state) alone := by
  obtain ⟨hplace, hvalid, hblock⟩ := cachedAt_spec hfound
  have hentryDrive := hcopies entry (List.mem_of_getElem? hplace)
    (CacheEntry.holds_iff.mpr ⟨hvalid, hblock⟩)
  refine hmirrors.replaceOther rfl hplace (fun _ ↦ hentryDrive ▸ hother)
    ?_ ?_ hclock ⟨rfl, rfl, rfl, rfl, rfl⟩
  · refine ⟨hused.1, rfl, ?_⟩
    change used.drive ≠ drive
    rw [hused.2.2, hentryDrive]
    exact hother
  · intro entry _ hspares
    change entry.blockNum ≠ used.blockNum
    rw [hused.2.1, ← hblock]
    exact CacheEntry.spares_iff.mp hspares hvalid

/-- `eynfs_cache_get_block` on the drive. -/
theorem Mirrors.getBlock (hapart : CachesApart drive block state) :
    (cacheGetBlock drive block state).1 = (cacheGetBlock drive block alone).1 ∧
      Mirrors drive (cacheGetBlock drive block state).2 (cacheGetBlock drive block alone).2 := by
  obtain ⟨hcopies, hplace⟩ := hapart
  unfold cacheGetBlock
  rcases hmirrors.found hcopies with ⟨hmiss, hmissAlone⟩ |
    ⟨index, entry, place, entryAlone, hfound, hfoundAlone, hcontent, hdrive, hdriveAlone⟩
  · rw [if_pos hmiss] at hplace
    simp only [hmiss, hmissAlone, ataReadSector, Disk.read]
    have hread := hmirrors.setDisk ((state.disk drive).count (blockToLba block))
    rw [← hmirrors.disk]
    split_ifs with hfails
    · exact ⟨rfl, hread⟩
    · obtain ⟨hroom, hclock⟩ := hplace (eq_false_of_ne_true hfails)
      exact ⟨rfl, hread.cacheClean hroom hclock hmiss _⟩
  · rw [if_neg (by simp [hfound])] at hplace
    simp only [hfound, hfoundAlone]
    obtain ⟨-, hvalid, hblock⟩ := cachedAt_spec hfound
    obtain ⟨-, hvalidAlone, -⟩ := cachedAt_spec hfoundAlone
    refine ⟨?_, hmirrors.useEntry hplace hfound hfoundAlone ⟨hvalid, hblock, hdrive⟩
      ⟨hvalidAlone, hdriveAlone⟩ hcontent⟩
    rw [show entry.data = entryAlone.data from congrArg (Prod.fst ∘ Prod.snd) hcontent]

/-- `eynfs_cache_get_block` on another drive. -/
theorem Mirrors.getOther (hother : other ≠ drive)
    (hapart : CachesApart other block state) :
    Mirrors drive (cacheGetBlock other block state).2 alone := by
  obtain ⟨hcopies, hplace⟩ := hapart
  unfold cacheGetBlock
  cases hfound : cachedAt block state.blockCache with
  | none =>
    rw [if_pos hfound] at hplace
    simp only [ataReadSector, Disk.read]
    have hread := hmirrors.setOther hother ((state.disk other).count (blockToLba block))
    split_ifs with hfails
    · exact hread
    · obtain ⟨hroom, hclock⟩ := hplace (eq_false_of_ne_true hfails)
      exact hread.cacheCleanOther hother hroom hclock hfound _
  | some pair =>
    obtain ⟨index, entry⟩ := pair
    obtain ⟨-, hvalid, hblock⟩ := cachedAt_spec hfound
    rw [if_neg (by simp [hfound])] at hplace
    exact hmirrors.useOther hother hplace hfound hcopies ⟨hvalid, hblock, rfl⟩

/-- `eynfs_cache_write_block` on the drive. -/
theorem Mirrors.writeBlock (hapart : CachesApart drive block state) (data : Sector) :
    (cacheWriteBlock drive block data state).1 = (cacheWriteBlock drive block data alone).1 ∧
      Mirrors drive (cacheWriteBlock drive block data state).2
        (cacheWriteBlock drive block data alone).2 := by
  obtain ⟨hcopies, hplace⟩ := hapart
  unfold cacheWriteBlock
  rcases hmirrors.found hcopies with ⟨hmiss, hmissAlone⟩ |
    ⟨index, entry, place, entryAlone, hfound, hfoundAlone, hcontent, hdrive, hdriveAlone⟩
  · rw [if_pos hmiss] at hplace
    simp only [hmiss, hmissAlone, ataWriteSector, Disk.write]
    rw [← hmirrors.disk]
    split_ifs with hfails
    · exact ⟨rfl, hmirrors.setDisk _⟩
    · obtain ⟨hroom, hclock⟩ := hplace (eq_false_of_ne_true hfails)
      exact ⟨rfl, (hmirrors.setDisk _).cacheClean hroom hclock hmiss _⟩
  · rw [if_neg (by simp [hfound])] at hplace
    simp only [hfound, hfoundAlone]
    obtain ⟨-, hvalid, hblock⟩ := cachedAt_spec hfound
    obtain ⟨-, hvalidAlone, -⟩ := cachedAt_spec hfoundAlone
    refine ⟨trivial, hmirrors.useEntry hplace hfound hfoundAlone ⟨hvalid, hblock, hdrive⟩
      ⟨hvalidAlone, hdriveAlone⟩ ?_⟩
    exact congrArg (fun number ↦ (number, data, true)) (congrArg Prod.fst hcontent)

/-- `eynfs_cache_write_block` on another drive. -/
theorem Mirrors.writeOther (hother : other ≠ drive)
    (hapart : CachesApart other block state) (data : Sector) :
    Mirrors drive (cacheWriteBlock other block data state).2 alone := by
  obtain ⟨hcopies, hplace⟩ := hapart
  unfold cacheWriteBlock
  cases hfound : cachedAt block state.blockCache with
  | none =>
    rw [if_pos hfound] at hplace
    simp only [ataWriteSector, Disk.write]
    split_ifs with hfails
    · exact hmirrors.setOther hother _
    · obtain ⟨hroom, hclock⟩ := hplace (eq_false_of_ne_true hfails)
      exact (hmirrors.setOther hother _).cacheCleanOther hother hroom hclock hfound _
  | some pair =>
    obtain ⟨index, entry⟩ := pair
    obtain ⟨-, hvalid, hblock⟩ := cachedAt_spec hfound
    rw [if_neg (by simp [hfound])] at hplace
    exact hmirrors.useOther hother hplace hfound hcopies ⟨hvalid, hblock, rfl⟩

end

/-! ### Flushing -/

/-- A flush commutes with picking the entries of a drive. -/
theorem filter_map_saved (drive : ℕ) (list : List CacheEntry) :
    (list.map CacheEntry.saved).filter (·.drive = drive) =
      (list.filter (·.drive = drive)).map CacheEntry.saved := by
  rw [List.filter_map]
  refine congrArg (List.map CacheEntry.saved) (List.filter_congr fun entry _ ↦ ?_)
  rw [Function.comp_apply, CacheEntry.saved_drive]

/-- `eynfs_cache_flush` on the drive. -/
theorem Mirrors.flush (hmirrors : Mirrors drive state alone)
    (hown : ∀ entry ∈ state.blockCache, entry.unsaved = true → entry.drive = drive) :
    Mirrors drive (cacheFlush drive state) (cacheFlush drive alone) := by
  obtain ⟨recent, own, hrecent, hownRecent, hcopies, hdrive⟩ := hmirrors.copies
  have hlive : ∀ entry ∈ recent, entry.valid = true := fun entry hentry ↦ (hrecent.mem.mp hentry).2
  constructor
  · simp only [cacheFlush, foldl_flushEntry, State.setDisk, Function.update_self]
    have hdirty : (recent.map CacheEntry.content).filter (·.2.2) =
        (own.map CacheEntry.content).filter (·.2.2) := by
      rw [← hcopies, List.filter_map, List.filter_map, List.filter_filter]
      refine congrArg _ (List.filter_congr fun entry hentry ↦ ?_)
      change entry.dirty = (entry.dirty && decide (entry.drive = drive))
      cases hkind : entry.dirty with
      | false => rfl
      | true =>
        have hmine := hown entry (hrecent.mem.mp hentry).1
          (CacheEntry.unsaved_iff.mpr ⟨hlive entry hentry, hkind⟩)
        simp [hmine]
    have hnodup {entries : List CacheEntry} (hentries : (entries.map CacheEntry.blockNum).Nodup) :
        (((entries.map CacheEntry.content).filter (·.2.2)).map Prod.fst).Nodup := by
      refine List.Nodup.sublist (List.filter_sublist.map _) ?_
      rw [List.map_map]
      exact hentries
    rw [← writeAll_perm hrecent.unsaved_perm (hnodup hrecent.nodup),
      ← writeAll_perm hownRecent.unsaved_perm (hnodup hownRecent.nodup), hdirty, hmirrors.disk]
  · simpa [cacheFlush] using hmirrors.capacity
  · simpa [cacheFlush, foldl_flushEntry, State.setDisk] using hmirrors.clock
  · refine ⟨_, _, hrecent.flush rfl ?_, hownRecent.flush rfl ?_, ?_, ?_⟩
    · simp [cacheFlush, foldl_flushEntry, State.setDisk]
    · simp [cacheFlush, foldl_flushEntry, State.setDisk]
    · have hclean {list : List CacheEntry} (hvalid : ∀ entry ∈ list, entry.valid = true) :
          (list.map CacheEntry.saved).map CacheEntry.content =
            (list.map CacheEntry.content).map fun content ↦ (content.1, content.2.1, false) := by
        rw [List.map_map, List.map_map]
        exact List.map_congr_left fun entry hentry ↦ CacheEntry.saved_content (hvalid entry hentry)
      rw [filter_map_saved, hclean, hclean, hcopies]
      · exact fun entry hentry ↦ (hownRecent.mem.mp hentry).2
      · exact fun entry hentry ↦ hlive entry (List.mem_filter.mp hentry).1
    · intro entry hentry
      obtain ⟨former, hformer, rfl⟩ := List.mem_map.mp hentry
      rw [CacheEntry.saved_drive]
      exact hdrive former hformer
  · simpa [cacheFlush, foldl_flushEntry, State.setDisk] using hmirrors.freeOwn
  · simpa [cacheFlush, foldl_flushEntry, State.setDisk] using hmirrors.freeAlone

/-- `eynfs_cache_flush` on another drive. -/
theorem Mirrors.flushOther (hmirrors : Mirrors drive state alone) (hother : other ≠ drive)
    (hown : ∀ entry ∈ state.blockCache, entry.unsaved = true → entry.drive = other) :
    Mirrors drive (cacheFlush other state) alone := by
  obtain ⟨recent, own, hrecent, hownRecent, hcopies, hdrive⟩ := hmirrors.copies
  constructor
  · simp only [cacheFlush, foldl_flushEntry, State.setDisk, Function.update_of_ne hother.symm]
    exact hmirrors.disk
  · simpa [cacheFlush] using hmirrors.capacity
  · simpa [cacheFlush, foldl_flushEntry, State.setDisk] using hmirrors.clock
  · refine ⟨_, own, hrecent.flush rfl ?_, hownRecent, ?_, hdrive⟩
    · simp [cacheFlush, foldl_flushEntry, State.setDisk]
    · have hsame : (recent.filter (·.drive = drive)).map CacheEntry.saved =
          recent.filter (·.drive = drive) := by
        refine (List.map_congr_left fun entry hentry ↦ ?_).trans (List.map_id _)
        obtain ⟨hmem, hentryDrive⟩ := List.mem_filter.mp hentry
        refine if_neg fun hunsaved ↦ hother ?_
        rw [← hown entry (hrecent.mem.mp hmem).1 hunsaved]
        exact of_decide_eq_true hentryDrive
      rw [filter_map_saved, hsame, hcopies]
  · simpa [cacheFlush, foldl_flushEntry, State.setDisk] using hmirrors.freeOwn
  · simpa [cacheFlush, foldl_flushEntry, State.setDisk] using hmirrors.freeAlone

/-! ### Invalidating -/

section

variable (hmirrors : Mirrors drive state alone)

include hmirrors

/-- `eynfs_cache_invalidate_block` on the drive. -/
theorem Mirrors.invalidate (block : UInt32) :
    Mirrors drive (cacheInvalidateBlock block state) (cacheInvalidateBlock block alone) := by
  obtain ⟨recent, own, hrecent, hownRecent, hcopies, hdrive⟩ := hmirrors.copies
  refine { hmirrors with capacity := ?_, copies := ?_ }
  · simpa [cacheInvalidateBlock] using hmirrors.capacity
  · refine ⟨_, _, hrecent.invalidate block, hownRecent.invalidate block, ?_,
      fun entry hentry ↦ hdrive entry (List.mem_filter.mp hentry).1⟩
    have hboth (list : List CacheEntry) :
        (list.filter (·.blockNum ≠ block)).map CacheEntry.content =
          (list.map CacheEntry.content).filter (·.1 ≠ block) := by
      rw [List.filter_map]
      rfl
    rw [List.filter_comm, hboth, hboth, hcopies]

/-- `eynfs_cache_invalidate_block` on another drive. -/
theorem Mirrors.invalidateOther (hother : other ≠ drive)
    (hcopies : OwnCopies other block state) :
    Mirrors drive (cacheInvalidateBlock block state) alone := by
  obtain ⟨recent, own, hrecent, hownRecent, hsame, hdrive⟩ := hmirrors.copies
  refine { hmirrors with capacity := ?_, copies := ?_ }
  · simpa [cacheInvalidateBlock] using hmirrors.capacity
  · refine ⟨_, own, hrecent.invalidate block, hownRecent, ?_, hdrive⟩
    rw [← hsame, List.filter_comm, List.filter_eq_self.mpr]
    intro entry hentry
    obtain ⟨hmem, hentryDrive⟩ := List.mem_filter.mp hentry
    obtain ⟨hcached, hvalid⟩ := hrecent.mem.mp hmem
    refine decide_eq_true fun hblock ↦ hother ?_
    rw [← hcopies entry hcached (CacheEntry.holds_iff.mpr ⟨hvalid, hblock⟩)]
    exact of_decide_eq_true hentryDrive

/-- Clearing the caches, on drive 0. -/
theorem Mirrors.reset :
    Mirrors drive (cacheReset state) (cacheReset alone) where
  disk := hmirrors.disk
  capacity := by simpa [cacheReset] using hmirrors.capacity
  clock := hmirrors.clock
  copies := ⟨[], [], Recent.reset state, Recent.reset alone, rfl, by simp⟩
  freeOwn := fun hvalid ↦ absurd hvalid Bool.false_ne_true
  freeAlone := fun hvalid ↦ absurd hvalid Bool.false_ne_true

/-- Clearing caches that hold nothing of the drive. -/
theorem Mirrors.resetOther (hother : other ≠ drive)
    (hown : ∀ entry ∈ state.blockCache, entry.valid = true → entry.drive = other)
    (hfree : OwnFree other state) : Mirrors drive (cacheReset state) alone := by
  obtain ⟨recent, own, hrecent, hownRecent, hsame, hdrive⟩ := hmirrors.copies
  constructor
  · exact hmirrors.disk
  · simpa [cacheReset] using hmirrors.capacity
  · exact hmirrors.clock
  · have hnone : recent.filter (·.drive = drive) = [] := by
      refine List.filter_eq_nil_iff.mpr fun entry hentry hentryDrive ↦ ?_
      obtain ⟨hcached, hvalid⟩ := hrecent.mem.mp hentry
      exact hother ((hown entry hcached hvalid).symm.trans (of_decide_eq_true hentryDrive))
    refine ⟨[], own, Recent.reset state, hownRecent, ?_, hdrive⟩
    rw [← hsame, hnone]
    rfl
  · exact fun hvalid ↦ absurd hvalid Bool.false_ne_true
  · intro hvalid hblocks
    obtain ⟨hvalidState, hfreeDrive⟩ := hmirrors.freeAlone hvalid hblocks
    have hsameBlocks := (hmirrors.freeOwn hvalidState hfreeDrive).2
    exact absurd ((hfree hvalidState (hsameBlocks ▸ hblocks)).symm.trans hfreeDrive) hother

end

/-! ### The free-block cache -/

section

variable (hmirrors : Mirrors drive state alone)

include hmirrors

/-- A change of the free-block caches that keeps how they relate. -/
theorem Mirrors.setFree {after afterAlone : State}
    (hafter : after.disk = state.disk ∧ after.blockCache = state.blockCache ∧
      after.useClock = state.useClock)
    (hafterAlone : afterAlone.disk = alone.disk ∧ afterAlone.blockCache = alone.blockCache ∧
      afterAlone.useClock = alone.useClock)
    (hfreeOwn : after.freeBlockCacheValid = true → after.freeDrive = drive →
      afterAlone.freeBlockCacheValid = true ∧ afterAlone.freeBlockCache = after.freeBlockCache)
    (hfreeAlone : afterAlone.freeBlockCacheValid = true → afterAlone.freeBlockCache ≠ [] →
      after.freeBlockCacheValid = true ∧ after.freeDrive = drive) :
    Mirrors drive after afterAlone where
  disk := by
    rw [hafter.1, hafterAlone.1]
    exact hmirrors.disk
  capacity := by
    rw [hafter.2.1, hafterAlone.2.1]
    exact hmirrors.capacity
  clock := by
    rw [hafter.2.2, hafterAlone.2.2]
    exact hmirrors.clock
  copies := by
    obtain ⟨recent, own, hrecent, hown, hcopies⟩ := hmirrors.copies
    exact ⟨recent, own, hrecent.congr hafter.2.1 hafter.2.2,
      hown.congr hafterAlone.2.1 hafterAlone.2.2, hcopies⟩
  freeOwn := hfreeOwn
  freeAlone := hfreeAlone

/-- Where another drive may use the free-block cache, the drive on its own has no block left. -/
theorem Mirrors.freeAlone_of_other (hother : other ≠ drive)
    (hfree : OwnFree other state) (hvalid : alone.freeBlockCacheValid = true) :
    alone.freeBlockCache = [] := by
  by_contra hblocks
  obtain ⟨hvalidState, hfreeDrive⟩ := hmirrors.freeAlone hvalid hblocks
  have hsame := (hmirrors.freeOwn hvalidState hfreeDrive).2
  exact hother ((hfree hvalidState (hsame ▸ hblocks)).symm.trans hfreeDrive)

/-- Taking a free block on the drive. -/
theorem Mirrors.takeFree (hfree : OwnFree drive state) :
    (takeFreeBlock state).1 = (takeFreeBlock alone).1 ∧
      Mirrors drive (takeFreeBlock state).2 (takeFreeBlock alone).2 := by
  rcases takeFreeBlock_cases state with ⟨hvalid, block, blocks, hblocks, htaken⟩ | ⟨hnone, htaken⟩
  · have hfreeDrive := hfree hvalid (by simp [hblocks])
    obtain ⟨hvalidAlone, hsame⟩ := hmirrors.freeOwn hvalid hfreeDrive
    have htakenAlone : takeFreeBlock alone =
        (some block, { alone with freeBlockCache := blocks }) := by
      unfold takeFreeBlock
      rw [hvalidAlone, hsame, hblocks]
    rw [htaken, htakenAlone]
    exact ⟨rfl, hmirrors.setFree ⟨rfl, rfl, rfl⟩ ⟨rfl, rfl, rfl⟩ (fun _ _ ↦ ⟨hvalidAlone, rfl⟩)
      fun _ _ ↦ ⟨hvalid, hfreeDrive⟩⟩
  · rcases takeFreeBlock_cases alone with
      ⟨hvalidAlone, block, blocks, hblocks, -⟩ | ⟨-, htakenAlone⟩
    · obtain ⟨hvalid, hfreeDrive⟩ := hmirrors.freeAlone hvalidAlone (by simp [hblocks])
      have hsame := (hmirrors.freeOwn hvalid hfreeDrive).2
      rw [hnone hvalid, hblocks] at hsame
      exact absurd hsame (by simp)
    · rw [htaken, htakenAlone]
      exact ⟨rfl, hmirrors.setFree ⟨rfl, rfl, rfl⟩ ⟨rfl, rfl, rfl⟩
        (fun hvalid hfreeDrive ↦ ⟨(hmirrors.freeOwn hvalid hfreeDrive).1, rfl⟩)
        fun _ hblocks ↦ absurd rfl hblocks⟩

/-- Taking a free block on another drive. -/
theorem Mirrors.takeOther (hother : other ≠ drive)
    (hfree : OwnFree other state) : Mirrors drive (takeFreeBlock state).2 alone := by
  have hempty := hmirrors.freeAlone_of_other hother hfree
  rcases takeFreeBlock_cases state with ⟨hvalid, block, blocks, hblocks, htaken⟩ | ⟨hnone, htaken⟩
  · have hfreeDrive := hfree hvalid (by simp [hblocks])
    rw [htaken]
    exact hmirrors.setFree ⟨rfl, rfl, rfl⟩ ⟨rfl, rfl, rfl⟩
      (fun _ hmine ↦ absurd (hfreeDrive.symm.trans hmine) hother)
      fun hvalidAlone hblocksAlone ↦ absurd (hempty hvalidAlone) hblocksAlone
  · rw [htaken]
    refine hmirrors.setFree ⟨rfl, rfl, rfl⟩ ⟨rfl, rfl, rfl⟩ (fun hvalid hmine ↦ ?_)
      fun hvalidAlone hblocksAlone ↦ absurd (hempty hvalidAlone) hblocksAlone
    obtain ⟨hvalidAlone, hsame⟩ := hmirrors.freeOwn hvalid hmine
    exact ⟨hvalidAlone, hsame.trans (hnone hvalid)⟩

/-- Keeping the blocks of a refill on the drive. -/
theorem Mirrors.keepFree {blocks : List UInt32} {complete : Bool}
    (hcomplete : complete = true ∨ blocks = [] ∨
      state.freeBlockCacheValid = true ∧ state.freeDrive = drive) :
    Mirrors drive (keepFreeBlocks drive blocks complete state)
      (keepFreeBlocks drive blocks complete alone) := by
  unfold keepFreeBlocks
  cases blocks with
  | nil =>
    refine hmirrors.setFree ⟨rfl, rfl, rfl⟩ ⟨rfl, rfl, rfl⟩ (fun hvalid hmine ↦ ?_)
      fun _ hblocks ↦ absurd rfl hblocks
    simp only [List.isEmpty_nil, Bool.not_true, Bool.and_false, Bool.or_false] at hvalid ⊢
    exact ⟨(hmirrors.freeOwn hvalid hmine).1, trivial⟩
  | cons block blocks =>
    have hboth : (state.freeBlockCacheValid || complete && true) = true ∧
        (alone.freeBlockCacheValid || complete && true) = true := by
      rcases hcomplete with hall | hnone | ⟨hvalid, hmine⟩
      · simp [hall]
      · exact absurd hnone (by simp)
      · simp [hvalid, (hmirrors.freeOwn hvalid hmine).1]
    exact hmirrors.setFree ⟨rfl, rfl, rfl⟩ ⟨rfl, rfl, rfl⟩ (fun _ _ ↦ ⟨hboth.2, rfl⟩)
      fun _ _ ↦ ⟨hboth.1, rfl⟩

/-- Keeping the blocks of a refill on another drive. -/
theorem Mirrors.keepOther (hother : other ≠ drive)
    (hfree : OwnFree other state) (blocks : List UInt32) (complete : Bool) :
    Mirrors drive (keepFreeBlocks other blocks complete state) alone := by
  have hempty := hmirrors.freeAlone_of_other hother hfree
  unfold keepFreeBlocks
  refine hmirrors.setFree ⟨rfl, rfl, rfl⟩ ⟨rfl, rfl, rfl⟩ (fun hvalid hmine ↦ ?_)
    fun hvalidAlone hblocksAlone ↦ absurd (hempty hvalidAlone) hblocksAlone
  cases blocks with
  | nil =>
    simp only [List.isEmpty_nil, Bool.not_true, Bool.and_false, Bool.or_false, if_true]
      at hvalid hmine
    obtain ⟨hvalidAlone, -⟩ := hmirrors.freeOwn hvalid hmine
    exact ⟨hvalidAlone, hempty hvalidAlone⟩
  | cons block blocks => exact absurd hmine hother

theorem Mirrors.dropFree :
    Mirrors drive (dropFreeBlocks state) (dropFreeBlocks alone) :=
  hmirrors.setFree ⟨rfl, rfl, rfl⟩ ⟨rfl, rfl, rfl⟩ (fun hvalid ↦ absurd hvalid Bool.false_ne_true)
    fun hvalid ↦ absurd hvalid Bool.false_ne_true

/-- Invalidating the free-block cache on another drive. -/
theorem Mirrors.dropOther (hother : other ≠ drive)
    (hfree : OwnFree other state) : Mirrors drive (dropFreeBlocks state) alone :=
  hmirrors.setFree ⟨rfl, rfl, rfl⟩ ⟨rfl, rfl, rfl⟩ (fun hvalid ↦ absurd hvalid Bool.false_ne_true)
    fun hvalid hblocks ↦ absurd (hmirrors.freeAlone_of_other hother hfree hvalid) hblocks

end

/-! ### Runs -/

/-- A request of a call on the drive that stays apart. -/
theorem Mirrors.answers {request : Request} (hmirrors : Mirrors drive state alone)
    (hapart : Apart drive state request) :
    (answer drive request state).1 = (answer drive request alone).1 ∧
      Mirrors drive (answer drive request state).2 (answer drive request alone).2 := by
  cases request with
  | readSector lba =>
    simp only [answer, ataReadSector]
    rw [← hmirrors.disk]
    exact ⟨rfl, hmirrors.setDisk _⟩
  | writeSector lba data =>
    simp only [answer, ataWriteSector]
    rw [← hmirrors.disk]
    exact ⟨rfl, hmirrors.setDisk _⟩
  | getBlock block => exact hmirrors.getBlock hapart
  | writeBlock block data => exact hmirrors.writeBlock hapart data
  | flush => exact ⟨rfl, hmirrors.flush hapart⟩
  | invalidateBlock block => exact ⟨rfl, hmirrors.invalidate block⟩
  | reset => exact ⟨rfl, hmirrors.reset⟩
  | takeFree => exact hmirrors.takeFree hapart
  | keepFree blocks complete => exact ⟨rfl, hmirrors.keepFree hapart.2⟩
  | dropFree => exact ⟨rfl, hmirrors.dropFree⟩

/-- A request of a call on another drive that stays apart. -/
theorem Mirrors.answersOther {request : Request} (hmirrors : Mirrors drive state alone)
    (hother : other ≠ drive) (hapart : Apart other state request) :
    Mirrors drive (answer other request state).2 alone := by
  cases request with
  | readSector lba => exact hmirrors.setOther hother _
  | writeSector lba data => exact hmirrors.setOther hother _
  | getBlock block => exact hmirrors.getOther hother hapart
  | writeBlock block data => exact hmirrors.writeOther hother hapart data
  | flush => exact hmirrors.flushOther hother hapart
  | invalidateBlock block => exact hmirrors.invalidateOther hother hapart
  | reset => exact hmirrors.resetOther hother hapart.1 hapart.2
  | takeFree => exact hmirrors.takeOther hother hapart
  | keepFree blocks complete => exact hmirrors.keepOther hother hapart.1 blocks complete
  | dropFree => exact hmirrors.dropOther hother hapart

/-- Sessions start alike. -/
theorem mirrors_boot (drive : ℕ) (disk : ℕ → Disk) (capacity : ℕ) :
    Mirrors drive (.boot disk capacity) (.boot disk capacity) := by
  have hempty : Recent (.boot disk capacity) [] := by
    refine ⟨?_, List.Pairwise.nil, by simp, List.nodup_nil⟩
    rw [State.boot, liveEntries, List.filter_eq_nil_iff.mpr]
    intro entry hentry
    rw [List.eq_of_mem_replicate hentry]
    exact Bool.false_ne_true
  refine ⟨rfl, rfl, le_rfl, ⟨[], [], hempty, hempty, rfl, by simp⟩, ?_, ?_⟩
  · exact fun hvalid ↦ absurd hvalid Bool.false_ne_true
  · exact fun hvalid ↦ absurd hvalid Bool.false_ne_true

/-- A drive whose sectors all hold its number. -/
def numbered (drive : ℕ) : Disk where
  sectors := fun _ _ ↦ UInt8.ofNat drive
  fails := fun _ _ ↦ false
  accesses := fun _ ↦ 0
  written := fun _ ↦ []

/-- Calls on two drives that use different blocks. The first drive flushes while it has the only
dirty block. -/
def separateCalls : List Call :=
  [⟨0, .getBlock 5⟩, ⟨1, .getBlock 6⟩, ⟨0, .writeBlock 5 zeroBlock⟩, ⟨0, .flush⟩, ⟨1, .getBlock 6⟩]

def firstByte : Except Stop Response → Option UInt8
  | .ok (.sector data) => some (byteAt data 0)
  | _ => none

end EynOS.Storage
