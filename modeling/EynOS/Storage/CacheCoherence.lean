import EynOS.Foundation.Run
import EynOS.Storage.CacheRecency
import EynOS.Storage.Eynfs

/-!
# What a read of a block returns

EYNFS reads and writes blocks through its block cache and past it. A `Ledger` keeps beside a drive
and its caches what was last written to every sector, by either way, and what every read returned.
`not_reads_latest` looks up a directory, rewrites its table and looks it up again, and gets the
bytes from before. `reads_latest` is when every read returns what was last written: where no
sector is read whose newer bytes are in the cache only, no sector is written past a copy with other
bytes, and no copy is dropped that has newer bytes than the drive.
-/

namespace EynOS.Storage

open Foundation Interaction

/-! ### Ledgers -/

/-- A read: the sector, what was returned and what was last written to it. -/
structure Reading where
  lba : UInt32
  returned : Option Sector
  latest : Sector

/-- A drive with its caches, what was last written to its sectors and the reads so far. -/
structure Ledger where
  state : State
  latest : UInt32 → Sector
  readings : List Reading

def Ledger.note (drive : ℕ) (ledger : Ledger) : Request → Ledger
  | .readSector lba =>
    { ledger with readings := ledger.readings ++
        [⟨lba, (ataReadSector drive lba ledger.state).1, ledger.latest lba⟩] }
  | .getBlock block =>
    { ledger with readings := ledger.readings ++
        [⟨blockToLba block, (cacheGetBlock drive block ledger.state).1,
          ledger.latest (blockToLba block)⟩] }
  | .writeSector lba data => { ledger with latest := Function.update ledger.latest lba data }
  | .writeBlock block data =>
    { ledger with latest := Function.update ledger.latest (blockToLba block) data }
  | _ => ledger

def answerNoting (drive : ℕ) : Handler Request Request.Answer Ledger :=
  fun request ledger ↦ ((answer drive request ledger.state).1,
    { ledger.note drive request with state := (answer drive request ledger.state).2 })

/-- Perform a call. -/
def Ledger.step (ledger : Ledger) (call : Call) : Ledger :=
  (run (answerNoting call.target) call.operation.program ledger).2

/-- Caches that were never used, above drives. -/
def Ledger.start (drive : ℕ) (disk : ℕ → Disk) (capacity : ℕ) : Ledger where
  state := .boot disk capacity
  latest := (disk drive).sectors
  readings := []

/-! ### Accesses that keep the two ways together -/

/-- An access keeps the cache and the drive together: a read past the cache finds no copy with newer
bytes, a write past it no copy with other bytes, and an invalidation drops no newer bytes. -/
def Coheres (drive : ℕ) (state : State) : Request → Prop
  | .readSector lba => ∀ entry ∈ state.blockCache, entry.unsaved = true →
      blockToLba entry.blockNum = lba → entry.data = (state.disk drive).sectors lba
  | .writeSector lba data => ∀ entry ∈ state.blockCache, entry.valid = true →
      blockToLba entry.blockNum = lba → entry.data = data
  | .invalidateBlock block => ∀ entry ∈ state.blockCache, entry.unsaved = true →
      entry.blockNum = block → entry.data = (state.disk drive).sectors (blockToLba block)
  | .reset => ∀ entry ∈ state.blockCache, entry.unsaved = true →
      entry.data = (state.disk drive).sectors (blockToLba entry.blockNum)
  | _ => True

instance (drive : ℕ) (state : State) :
    (request : Request) → Decidable (Coheres drive state request)
  | .readSector _ => inferInstanceAs (Decidable (∀ entry ∈ state.blockCache, _))
  | .writeSector _ _ => inferInstanceAs (Decidable (∀ entry ∈ state.blockCache, _))
  | .getBlock _ => isTrue trivial
  | .writeBlock _ _ => isTrue trivial
  | .flush => isTrue trivial
  | .invalidateBlock _ => inferInstanceAs (Decidable (∀ entry ∈ state.blockCache, _))
  | .reset => inferInstanceAs (Decidable (∀ entry ∈ state.blockCache, _))
  | .takeFree => isTrue trivial
  | .keepFree _ _ => isTrue trivial
  | .dropFree => isTrue trivial

/-- A call is on the drive and each of its accesses keeps the two ways together. -/
def KeepsCoherent (drive : ℕ) (ledger : Ledger) (call : Call) : Prop :=
  call.target = drive ∧
    Throughout (answerNoting call.target) (fun ledger ↦ Coheres call.target ledger.state)
      call.operation.program ledger

instance (drive : ℕ) (ledger : Ledger) (call : Call) :
    Decidable (KeepsCoherent drive ledger call) :=
  inferInstanceAs (Decidable (_ ∧ Throughout _ _ _ _))

/-! ### The invariant -/

/-- The copies in the cache are the latest bytes, there is one for a block, and a sector without the
latest bytes has a copy that has to be written back. -/
structure Coherent (drive : ℕ) (state : State) (latest : UInt32 → Sector) : Prop where
  copies : ∀ entry ∈ liveEntries state.blockCache, entry.data = latest (blockToLba entry.blockNum)
  saved : ∀ lba, (state.disk drive).sectors lba = latest lba ∨
    ∃ entry ∈ liveEntries state.blockCache, entry.dirty = true ∧ blockToLba entry.blockNum = lba
  nodup : ((liveEntries state.blockCache).map CacheEntry.blockNum).Nodup
  succeeds : ∀ lba count, (state.disk drive).fails lba count = false

/-- The copies of some blocks are the latest bytes, and a sector of one without them has a copy that
has to be written back. Nothing is said of the other blocks. -/
structure CoherentOn (tracked : UInt32 → Prop) (drive : ℕ) (state : State)
    (latest : UInt32 → Sector) : Prop where
  copies : ∀ entry ∈ liveEntries state.blockCache, tracked entry.blockNum →
    entry.data = latest (blockToLba entry.blockNum)
  saved : ∀ block, tracked block → (state.disk drive).sectors (blockToLba block) =
      latest (blockToLba block) ∨
    ∃ entry ∈ liveEntries state.blockCache, entry.dirty = true ∧ entry.blockNum = block
  nodup : ((liveEntries state.blockCache).map CacheEntry.blockNum).Nodup
  succeeds : ∀ lba count, (state.disk drive).fails lba count = false

variable {drive index : ℕ} {state after : State} {latest : UInt32 → Sector} {block lba : UInt32}
  {data : Sector} {entry old new : CacheEntry} {disk : Disk} {needed : Bool}
  {tracked wider : UInt32 → Prop}

theorem coherentOn_all :
    CoherentOn (fun _ ↦ True) drive state latest ↔ Coherent drive state latest := by
  constructor
  · rintro ⟨hcopies, hsaved, hnodup, hsucceeds⟩
    refine ⟨fun entry hentry ↦ hcopies entry hentry trivial, fun lba ↦ ?_, hnodup, hsucceeds⟩
    obtain ⟨block, rfl⟩ := blockToLba_surj lba
    refine (hsaved block trivial).imp_right fun ⟨entry, hentry, hdirty, hblock⟩ ↦ ?_
    exact ⟨entry, hentry, hdirty, congrArg blockToLba hblock⟩
  · rintro ⟨hcopies, hsaved, hnodup, hsucceeds⟩
    refine ⟨fun entry hentry _ ↦ hcopies entry hentry, fun block _ ↦ ?_, hnodup, hsucceeds⟩
    refine (hsaved (blockToLba block)).imp_right fun ⟨entry, hentry, hdirty, hlba⟩ ↦ ?_
    exact ⟨entry, hentry, hdirty, blockToLba_inj.mp hlba⟩

theorem Disk.read_eq (hsucceeds : ∀ lba count, disk.fails lba count = false) :
    disk.read lba = (some (disk.sectors lba), disk.count lba) := by
  rw [Disk.read, Disk.failing, hsucceeds, if_neg Bool.false_ne_true]

theorem Disk.write_eq (hsucceeds : ∀ lba count, disk.fails lba count = false) (lba : UInt32)
    (data : Sector) : (disk.write lba data).1 = true ∧
      (disk.write lba data).2.sectors = Function.update disk.sectors lba data ∧
      (disk.write lba data).2.fails = disk.fails := by
  rw [Disk.write, Disk.failing, hsucceeds, if_neg Bool.false_ne_true]
  exact ⟨rfl, rfl, rfl⟩

/-- A change that leaves the cache and the sectors of the blocks alone. -/
theorem CoherentOn.congr (hcoherent : CoherentOn tracked drive state latest)
    (hsectors : ∀ block, tracked block → (after.disk drive).sectors (blockToLba block) =
      (state.disk drive).sectors (blockToLba block))
    (hsucceeds : ∀ lba count, (after.disk drive).fails lba count = false)
    (hcache : after.blockCache = state.blockCache) : CoherentOn tracked drive after latest where
  copies := hcache ▸ hcoherent.copies
  saved block htracked := by
    rw [hsectors block htracked, hcache]
    exact hcoherent.saved block htracked
  nodup := hcache ▸ hcoherent.nodup
  succeeds := hsucceeds

theorem Coherent.congr (hcoherent : Coherent drive state latest)
    (hsectors : (after.disk drive).sectors = (state.disk drive).sectors)
    (hfails : (after.disk drive).fails = (state.disk drive).fails)
    (hcache : after.blockCache = state.blockCache) : Coherent drive after latest :=
  coherentOn_all.mp ((coherentOn_all.mpr hcoherent).congr (fun _ _ ↦ congrFun hsectors _)
    (hfails ▸ hcoherent.succeeds) hcache)

section

variable (hcoherent : CoherentOn tracked drive state latest)

include hcoherent

/-- Writing a block, with its latest bytes where they matter. -/
theorem CoherentOn.save (hdata : tracked block → data = latest (blockToLba block)) :
    CoherentOn tracked drive
      (state.setDisk drive ((state.disk drive).write (blockToLba block) data).2) latest := by
  obtain ⟨-, hsectors, hfails⟩ := Disk.write_eq hcoherent.succeeds (blockToLba block) data
  constructor
  · exact hcoherent.copies
  · intro other htracked
    rw [State.disk_setDisk, hsectors]
    by_cases hsame : other = block
    · subst hsame
      rw [Function.update_self]
      exact Or.inl (hdata htracked)
    · rw [Function.update_of_ne fun heq ↦ hsame (blockToLba_inj.mp heq)]
      exact hcoherent.saved other htracked
  · exact hcoherent.nodup
  · intro other count
    rw [State.disk_setDisk, hfails]
    exact hcoherent.succeeds other count

/-- Using an entry: the copies that stay, and the drive, have the latest bytes, and so has the new
entry. -/
theorem CoherentOn.replace {newLatest : UInt32 → Sector}
    (hwider : ∀ other, wider other → other ≠ new.blockNum → tracked other)
    (hold : state.blockCache[index]? = some old) (hvalid : new.valid = true)
    (hcache : after.blockCache = state.blockCache.set index new)
    (hfresh : ∀ entry ∈ liveEntries state.blockCache, old.spares entry = true →
      entry.blockNum ≠ new.blockNum)
    (hsame : ∀ lba, lba ≠ blockToLba new.blockNum → newLatest lba = latest lba)
    (hnew : wider new.blockNum → new.data = newLatest (blockToLba new.blockNum))
    (hsaved : ∀ block, wider block →
      (after.disk drive).sectors (blockToLba block) = newLatest (blockToLba block) ∨
        (new.dirty = true ∧ new.blockNum = block) ∨
          ∃ entry ∈ liveEntries state.blockCache, old.spares entry = true ∧ entry.dirty = true ∧
            entry.blockNum = block)
    (hsucceeds : ∀ lba count, (after.disk drive).fails lba count = false) :
    CoherentOn wider drive after newLatest := by
  have hlive := liveEntries_set hold hvalid hcoherent.nodup
  rw [← hcache] at hlive
  constructor
  · intro entry hentry htracked
    rcases List.mem_cons.mp (hlive.mem_iff.mp hentry) with rfl | hkept
    · exact hnew htracked
    · obtain ⟨hmem, hspares⟩ := List.mem_filter.mp hkept
      have hother := hfresh entry hmem hspares
      rw [hcoherent.copies entry hmem (hwider _ htracked hother), hsame]
      exact fun heq ↦ hother (blockToLba_inj.mp heq)
  · intro block htracked
    rcases hsaved block htracked with hdisk | ⟨hdirty, hblock⟩ |
      ⟨entry, hentry, hspares, hdirty, hblock⟩
    · exact Or.inl hdisk
    · exact Or.inr ⟨new, hlive.mem_iff.mpr List.mem_cons_self, hdirty, hblock⟩
    · refine Or.inr ⟨entry, hlive.mem_iff.mpr (List.mem_cons_of_mem _ ?_), hdirty, hblock⟩
      exact List.mem_filter.mpr ⟨hentry, hspares⟩
  · rw [(hlive.map CacheEntry.blockNum).nodup_iff, List.map_cons, List.nodup_cons]
    refine ⟨fun hmem ↦ ?_, hcoherent.nodup.sublist (List.filter_sublist.map _)⟩
    obtain ⟨entry, hentry, hblock⟩ := List.mem_map.mp hmem
    obtain ⟨hmemLive, hspares⟩ := List.mem_filter.mp hentry
    exact hfresh entry hmemLive hspares hblock
  · exact hsucceeds

theorem CoherentOn.saved_of_miss
    (hmiss : cachedAt block state.blockCache = none) (hblock : tracked block) :
    (state.disk drive).sectors (blockToLba block) = latest (blockToLba block) := by
  rcases hcoherent.saved block hblock with hsaved | ⟨entry, hentry, -, hsame⟩
  · exact hsaved
  · exact absurd hsame (cachedAt_eq_none.mp hmiss entry hentry)

/-- Caching a block that is not cached and whose sector has the latest bytes. -/
theorem CoherentOn.cacheClean (hmiss : cachedAt block state.blockCache = none)
    (hdata : tracked block → data = latest (blockToLba block)) :
    CoherentOn tracked drive (cacheClean drive block data state) latest := by
  rcases cacheClean_cases drive block data state with
    ⟨-, heq⟩ | ⟨index, needed, victim, hvictim, heq⟩
  · rw [heq]
    exact hcoherent
  · have hback : CoherentOn tracked drive (writeBack drive needed victim state) latest := by
      rw [writeBack_eq]
      cases hkind : needed with
      | false =>
        rw [if_neg Bool.false_ne_true]
        exact hcoherent.congr (by simp [State.setDisk])
          (by simpa [State.setDisk] using hcoherent.succeeds) rfl
      | true =>
        rw [if_pos rfl]
        rcases hvictim.oldest with ⟨-, hclear⟩ | ⟨-, hfull, -⟩
        · exact absurd (hkind.symm.trans hclear) (by simp)
        · have hplace := List.mem_of_getElem? hvictim.place
          have hlive := mem_liveEntries.mpr ⟨hplace, hfull victim hplace⟩
          exact hcoherent.save (hcoherent.copies victim hlive)
    have hsame : (writeBack drive needed victim state).blockCache = state.blockCache := by
      rw [writeBack_eq]
      rfl
    have hplace : (writeBack drive needed victim state).blockCache[index]? = some victim := by
      rw [hsame]
      exact hvictim.place
    rw [heq, ← hsame]
    refine hback.replace (fun _ hother _ ↦ hother) hplace rfl rfl ?_ (fun _ _ ↦ rfl) hdata
      (fun other htracked ↦ ?_) hback.succeeds
    · intro entry hentry _
      rw [hsame] at hentry
      exact cachedAt_eq_none.mp hmiss entry hentry
    · rcases hback.saved other htracked with hsaved | ⟨entry, hentry, hdirty, hother⟩
      · exact Or.inl hsaved
      · by_cases hspares : victim.spares entry = true
        · exact Or.inr (Or.inr ⟨entry, hentry, hspares, hdirty, hother⟩)
        · -- the victim itself was dirty, so it was written back
          rw [CacheEntry.spares_iff, Classical.not_imp, not_not] at hspares
          obtain ⟨hlive, hblock⟩ := hspares
          have hvictimLive : victim ∈ liveEntries state.blockCache :=
            mem_liveEntries.mpr ⟨List.mem_of_getElem? hvictim.place, hlive⟩
          rw [hsame] at hentry
          have hentryEq : entry = victim :=
            List.inj_on_of_nodup_map hcoherent.nodup hentry hvictimLive hblock
          have hneeded : needed = true := by
            rcases hvictim.oldest with ⟨hinvalid, -⟩ | ⟨hkind, -⟩
            · exact absurd hlive (by simp [hinvalid])
            · rw [← hkind, ← hentryEq]
              exact hdirty
          obtain ⟨-, hsectors, -⟩ := Disk.write_eq hcoherent.succeeds
            (blockToLba victim.blockNum) victim.data
          refine Or.inl ?_
          rw [← hother, hblock, writeBack_eq, if_pos hneeded]
          simp only [State.setDisk, Function.update_self]
          rw [hsectors, Function.update_self]
          exact hcoherent.copies victim hvictimLive (hblock ▸ hother ▸ htracked)

/-- `eynfs_cache_get_block` caches a block. -/
theorem CoherentOn.read (block : UInt32) :
    CoherentOn tracked drive (cacheGetBlock drive block state).2 latest := by
  unfold cacheGetBlock
  cases hfound : cachedAt block state.blockCache with
  | none =>
    simp only [ataReadSector, Disk.read_eq hcoherent.succeeds]
    refine CoherentOn.cacheClean ?_ hfound fun hblock ↦ hcoherent.saved_of_miss hfound hblock
    exact hcoherent.congr (by simp [State.setDisk, Disk.count])
      (by simpa [State.setDisk, Disk.count] using hcoherent.succeeds) rfl
  | some pair =>
    obtain ⟨index, entry⟩ := pair
    obtain ⟨hplace, hvalid, rfl⟩ := cachedAt_spec hfound
    have hlive : entry ∈ liveEntries state.blockCache :=
      mem_liveEntries.mpr ⟨List.mem_of_getElem? hplace, hvalid⟩
    change CoherentOn tracked drive (useEntry index entry state) latest
    refine hcoherent.replace (fun _ hother _ ↦ hother) hplace ?_ rfl ?_ (fun _ _ ↦ rfl)
      (hcoherent.copies entry hlive) (fun other htracked ↦ ?_) hcoherent.succeeds
    · exact hvalid
    · exact fun other _ hspares ↦ CacheEntry.spares_iff.mp hspares hvalid
    · rcases hcoherent.saved other htracked with hsaved | ⟨copy, hcopy, hdirty, hother⟩
      · exact Or.inl hsaved
      · by_cases hspares : entry.spares copy = true
        · exact Or.inr (Or.inr ⟨copy, hcopy, hspares, hdirty, hother⟩)
        · rw [CacheEntry.spares_iff, Classical.not_imp, not_not] at hspares
          have heq := List.inj_on_of_nodup_map hcoherent.nodup hcopy hlive hspares.2
          exact Or.inr (Or.inl ⟨heq ▸ hdirty, heq ▸ hother⟩)

/-- `eynfs_cache_get_block` returns the latest bytes. -/
theorem CoherentOn.getBlock (hblock : tracked block) :
    (cacheGetBlock drive block state).1 = some (latest (blockToLba block)) := by
  unfold cacheGetBlock
  cases hfound : cachedAt block state.blockCache with
  | none =>
    simp only [ataReadSector, Disk.read_eq hcoherent.succeeds]
    exact congrArg some (hcoherent.saved_of_miss hfound hblock)
  | some pair =>
    obtain ⟨index, entry⟩ := pair
    obtain ⟨hplace, hvalid, rfl⟩ := cachedAt_spec hfound
    have hlive : entry ∈ liveEntries state.blockCache :=
      mem_liveEntries.mpr ⟨List.mem_of_getElem? hplace, hvalid⟩
    exact congrArg some (hcoherent.copies entry hlive hblock)

end

theorem Coherent.getBlock (hcoherent : Coherent drive state latest) (block : UInt32) :
    (cacheGetBlock drive block state).1 = some (latest (blockToLba block)) ∧
      Coherent drive (cacheGetBlock drive block state).2 latest :=
  ⟨(coherentOn_all.mpr hcoherent).getBlock trivial,
    coherentOn_all.mp ((coherentOn_all.mpr hcoherent).read block)⟩

/-- Writing a sector past the cache that has no copy with other bytes. -/
theorem CoherentOn.writeSector (hcoherent : CoherentOn tracked drive state latest)
    (hwider : ∀ other, wider other → blockToLba other ≠ lba → tracked other)
    (hguard : ∀ entry ∈ liveEntries state.blockCache, wider entry.blockNum →
      blockToLba entry.blockNum = lba → entry.data = data) :
    CoherentOn wider drive (state.setDisk drive ((state.disk drive).write lba data).2)
      (Function.update latest lba data) := by
  obtain ⟨-, hsectors, hfails⟩ := Disk.write_eq hcoherent.succeeds lba data
  constructor
  · intro entry hentry htracked
    by_cases hlba : blockToLba entry.blockNum = lba
    · rw [hlba, Function.update_self]
      exact hguard entry hentry htracked hlba
    · rw [Function.update_of_ne hlba]
      exact hcoherent.copies entry hentry (hwider _ htracked hlba)
  · intro other htracked
    rw [State.disk_setDisk, hsectors]
    by_cases hlba : blockToLba other = lba
    · rw [hlba, Function.update_self, Function.update_self]
      exact Or.inl rfl
    · rw [Function.update_of_ne hlba, Function.update_of_ne hlba]
      exact hcoherent.saved other (hwider _ htracked hlba)
  · exact hcoherent.nodup
  · rw [State.disk_setDisk, hfails]
    exact hcoherent.succeeds

/-- `eynfs_cache_write_block` makes its bytes the latest ones, whatever was cached of the block. -/
theorem CoherentOn.writeBlock (hcoherent : CoherentOn tracked drive state latest)
    (hwider : ∀ other, wider other → other ≠ block → tracked other) (data : Sector) :
    CoherentOn wider drive (cacheWriteBlock drive block data state).2
      (Function.update latest (blockToLba block) data) := by
  unfold cacheWriteBlock
  cases hfound : cachedAt block state.blockCache with
  | none =>
    have hwritten := (Disk.write_eq hcoherent.succeeds (blockToLba block) data).1
    simp only [ataWriteSector, hwritten]
    refine CoherentOn.cacheClean (hcoherent.writeSector (fun other hother hlba ↦ ?_)
      fun entry hentry _ hlba ↦ ?_) hfound fun _ ↦ by rw [Function.update_self]
    · exact hwider other hother fun heq ↦ hlba (congrArg blockToLba heq)
    · exact absurd (blockToLba_inj.mp hlba) (cachedAt_eq_none.mp hfound entry hentry)
  | some pair =>
    obtain ⟨index, entry⟩ := pair
    obtain ⟨hplace, hvalid, hblock⟩ := cachedAt_spec hfound
    have hlive : entry ∈ liveEntries state.blockCache :=
      mem_liveEntries.mpr ⟨List.mem_of_getElem? hplace, hvalid⟩
    subst hblock
    change CoherentOn wider drive
      (useEntry index { entry with data := data, dirty := true } state) _
    refine hcoherent.replace ?_ hplace ?_ rfl ?_
      (fun lba hlba ↦ Function.update_of_ne hlba _ _) (fun _ ↦ by rw [Function.update_self])
      (fun other htracked ↦ ?_) hcoherent.succeeds
    · exact hwider
    · exact hvalid
    · exact fun other _ hspares ↦ CacheEntry.spares_iff.mp hspares hvalid
    · by_cases hother : other = entry.blockNum
      · exact Or.inr (Or.inl ⟨rfl, hother.symm⟩)
      · rw [Function.update_of_ne fun heq ↦ hother (blockToLba_inj.mp heq)]
        rcases hcoherent.saved other (hwider other htracked hother) with
          hsaved | ⟨copy, hcopy, hdirty, hsame⟩
        · exact Or.inl hsaved
        · refine Or.inr (Or.inr ⟨copy, hcopy, ?_, hdirty, hsame⟩)
          refine CacheEntry.spares_iff.mpr fun _ hblock ↦ hother ?_
          rw [← hsame, hblock]

theorem Coherent.writeBlock (hcoherent : Coherent drive state latest) (block : UInt32)
    (data : Sector) : Coherent drive (cacheWriteBlock drive block data state).2
      (Function.update latest (blockToLba block) data) :=
  coherentOn_all.mp ((coherentOn_all.mpr hcoherent).writeBlock (fun _ _ _ ↦ trivial) data)

/-- Writing the latest bytes of some blocks leaves the latest bytes in them. -/
theorem writeAll_saves {contents : List (UInt32 × Sector × Bool)}
    (hcontents : ∀ content ∈ contents, tracked content.1 →
      content.2.1 = latest (blockToLba content.1)) :
    ∀ disk : Disk, (∀ lba count, disk.fails lba count = false) →
      (∀ block, tracked block → disk.sectors (blockToLba block) = latest (blockToLba block) ∨
        ∃ content ∈ contents, content.1 = block) →
        (∀ block, tracked block →
          (writeAll contents disk).sectors (blockToLba block) = latest (blockToLba block)) ∧
          ∀ lba count, (writeAll contents disk).fails lba count = false := by
  induction contents with
  | nil =>
    intro disk hsucceeds hsaved
    refine ⟨fun block htracked ↦ (hsaved block htracked).resolve_right ?_, hsucceeds⟩
    rintro ⟨content, hcontent, -⟩
    exact absurd hcontent List.not_mem_nil
  | cons content contents ih =>
    intro disk hsucceeds hsaved
    obtain ⟨-, hsectors, hfails⟩ := Disk.write_eq hsucceeds (blockToLba content.1) content.2.1
    rw [writeAll, List.foldl_cons, ← writeAll]
    refine ih (fun other hother ↦ hcontents other (List.mem_cons_of_mem _ hother)) _ ?_ ?_
    · rw [hfails]
      exact hsucceeds
    · intro block htracked
      rw [hsectors]
      by_cases hblock : block = content.1
      · subst hblock
        rw [Function.update_self]
        exact Or.inl (hcontents content List.mem_cons_self htracked)
      · rw [Function.update_of_ne fun heq ↦ hblock (blockToLba_inj.mp heq)]
        rcases hsaved block htracked with hdisk | ⟨other, hother, hsame⟩
        · exact Or.inl hdisk
        · rcases List.mem_cons.mp hother with rfl | hrest
          · exact absurd hsame.symm hblock
          · exact Or.inr ⟨other, hrest, hsame⟩

/-- After a flush the sectors of the blocks have the latest bytes. -/
theorem CoherentOn.flush (hcoherent : CoherentOn tracked drive state latest) :
    CoherentOn tracked drive (cacheFlush drive state) latest := by
  have hlive : liveEntries (cacheFlush drive state).blockCache =
      (liveEntries state.blockCache).map CacheEntry.saved := by
    rw [cacheFlush, liveEntries, List.filter_map]
    refine congrArg _ (List.filter_congr fun entry _ ↦ CacheEntry.saved_valid entry)
  have hcontents : ∀ content ∈ (state.blockCache.filter CacheEntry.unsaved).map CacheEntry.content,
      tracked content.1 → content.2.1 = latest (blockToLba content.1) := by
    intro content hcontent htracked
    obtain ⟨entry, hentry, rfl⟩ := List.mem_map.mp hcontent
    obtain ⟨hmem, hunsaved⟩ := List.mem_filter.mp hentry
    have hvalid := (CacheEntry.unsaved_iff.mp hunsaved).1
    exact hcoherent.copies entry (mem_liveEntries.mpr ⟨hmem, hvalid⟩) htracked
  have hpending (block : UInt32) (htracked : tracked block) :
      (state.disk drive).sectors (blockToLba block) = latest (blockToLba block) ∨
        ∃ content ∈ (state.blockCache.filter CacheEntry.unsaved).map CacheEntry.content,
          content.1 = block := by
    rcases hcoherent.saved block htracked with hsaved | ⟨entry, hentry, hdirty, hblock⟩
    · exact Or.inl hsaved
    · obtain ⟨hmem, hvalid⟩ := mem_liveEntries.mp hentry
      refine Or.inr ⟨entry.content, List.mem_map_of_mem (List.mem_filter.mpr ⟨hmem, ?_⟩), hblock⟩
      exact CacheEntry.unsaved_iff.mpr ⟨hvalid, hdirty⟩
  obtain ⟨hsectors, hsucceeds⟩ :=
    writeAll_saves hcontents (state.disk drive) hcoherent.succeeds hpending
  have hdisk : (cacheFlush drive state).disk drive =
      writeAll ((state.blockCache.filter CacheEntry.unsaved).map CacheEntry.content)
        (state.disk drive) := by
    simp only [cacheFlush, foldl_flushEntry, State.setDisk, Function.update_self]
  constructor
  · intro entry hentry htracked
    rw [hlive] at hentry
    obtain ⟨former, hformer, rfl⟩ := List.mem_map.mp hentry
    have hcontent := CacheEntry.saved_content (mem_liveEntries.mp hformer).2
    rw [CacheEntry.saved_blockNum] at htracked
    rw [show former.saved.data = former.data from congrArg (Prod.fst ∘ Prod.snd) hcontent,
      CacheEntry.saved_blockNum]
    exact hcoherent.copies former hformer htracked
  · intro block htracked
    rw [hdisk]
    exact Or.inl (hsectors block htracked)
  · rw [hlive, List.map_map, show CacheEntry.blockNum ∘ CacheEntry.saved = CacheEntry.blockNum from
      funext CacheEntry.saved_blockNum]
    exact hcoherent.nodup
  · rw [hdisk]
    exact hsucceeds

theorem Coherent.flush (hcoherent : Coherent drive state latest) :
    Coherent drive (cacheFlush drive state) latest :=
  coherentOn_all.mp (coherentOn_all.mpr hcoherent).flush

/-- Dropping the copies of a block whose sector has the latest bytes, where they matter. -/
theorem CoherentOn.invalidate (hcoherent : CoherentOn tracked drive state latest)
    (hwider : ∀ other, wider other → other ≠ block → tracked other)
    (hblock : wider block →
      (state.disk drive).sectors (blockToLba block) = latest (blockToLba block)) :
    CoherentOn wider drive (cacheInvalidateBlock block state) latest := by
  have hlive := liveEntries_invalidate block state
  constructor
  · intro entry hentry htracked
    rw [hlive] at hentry
    obtain ⟨hmem, hother⟩ := List.mem_filter.mp hentry
    exact hcoherent.copies entry hmem (hwider _ htracked (of_decide_eq_true hother))
  · intro other htracked
    rw [hlive]
    by_cases hsame : other = block
    · subst hsame
      exact Or.inl (hblock htracked)
    · refine (hcoherent.saved other (hwider other htracked hsame)).imp_right
        fun ⟨entry, hentry, hdirty, hother⟩ ↦ ?_
      refine ⟨entry, List.mem_filter.mpr ⟨hentry, decide_eq_true ?_⟩, hdirty, hother⟩
      rwa [hother]
  · rw [hlive]
    exact hcoherent.nodup.sublist (List.filter_sublist.map _)
  · exact hcoherent.succeeds

theorem Coherent.invalidate (hcoherent : Coherent drive state latest)
    (hguard : Coheres drive state (.invalidateBlock block)) :
    Coherent drive (cacheInvalidateBlock block state) latest := by
  refine coherentOn_all.mp ((coherentOn_all.mpr hcoherent).invalidate (fun _ _ _ ↦ trivial)
    fun _ ↦ ?_)
  rcases hcoherent.saved (blockToLba block) with hsaved | ⟨entry, hentry, hdirty, hlba⟩
  · exact hsaved
  · obtain ⟨hmem, hvalid⟩ := mem_liveEntries.mp hentry
    have hdata := hguard entry hmem (CacheEntry.unsaved_iff.mpr ⟨hvalid, hdirty⟩)
      (blockToLba_inj.mp hlba)
    rw [← hlba, ← hcoherent.copies entry hentry, hdata, hlba]

/-- Clearing a cache whose copies are no newer than the drive. -/
theorem Coherent.reset (hcoherent : Coherent drive state latest)
    (hguard : Coheres drive state .reset) : Coherent drive (cacheReset state) latest := by
  have hlive : liveEntries (cacheReset state).blockCache = [] := by
    rw [cacheReset, liveEntries, List.filter_map, List.filter_eq_nil_iff.mpr]
    · rfl
    · exact fun entry _ ↦ Bool.false_ne_true
  constructor
  · simp [hlive]
  · intro lba
    rcases hcoherent.saved lba with hsaved | ⟨entry, hentry, hdirty, hlba⟩
    · exact Or.inl hsaved
    · obtain ⟨hmem, hvalid⟩ := mem_liveEntries.mp hentry
      have hdata := hguard entry hmem (CacheEntry.unsaved_iff.mpr ⟨hvalid, hdirty⟩)
      refine Or.inl ?_
      rw [← hlba, ← hcoherent.copies entry hentry, hdata]
      rfl
  · simp [hlive]
  · exact hcoherent.succeeds

/-! ### Runs -/

/-- The cache and the drive are coherent, and every read returned what was last written. -/
structure Current (drive : ℕ) (ledger : Ledger) : Prop where
  coherent : Coherent drive ledger.state ledger.latest
  readings : ∀ reading ∈ ledger.readings, reading.returned = some reading.latest

/-- A request that keeps the two ways together. -/
theorem Current.answers {ledger : Ledger} {request : Request} (hcurrent : Current drive ledger)
    (hguard : Coheres drive ledger.state request) :
    Current drive (answerNoting drive request ledger).2 := by
  obtain ⟨hcoherent, hreadings⟩ := hcurrent
  have hnoted {reading : Reading} (hreading : reading.returned = some reading.latest) :
      ∀ other ∈ ledger.readings ++ [reading], other.returned = some other.latest := by
    intro other hother
    rcases List.mem_append.mp hother with hformer | hlast
    · exact hreadings other hformer
    · rw [List.mem_singleton.mp hlast]
      exact hreading
  cases request with
  | readSector lba =>
    refine ⟨?_, hnoted ?_⟩
    · exact hcoherent.congr (by simp [answerNoting, answer, ataReadSector, State.setDisk, Disk.read,
        Disk.count]) (by simp [answerNoting, answer, ataReadSector, State.setDisk, Disk.read,
        Disk.count]) rfl
    · simp only [ataReadSector, Disk.read_eq hcoherent.succeeds]
      refine congrArg some ?_
      rcases hcoherent.saved lba with hsaved | ⟨entry, hentry, hdirty, hlba⟩
      · exact hsaved
      · obtain ⟨hmem, hvalid⟩ := mem_liveEntries.mp hentry
        rw [← hguard entry hmem (CacheEntry.unsaved_iff.mpr ⟨hvalid, hdirty⟩) hlba, ← hlba]
        exact hcoherent.copies entry hentry
  | writeSector lba data =>
    refine ⟨coherentOn_all.mp ((coherentOn_all.mpr hcoherent).writeSector (fun _ _ _ ↦ trivial) ?_),
      hreadings⟩
    intro entry hentry _ hlba
    obtain ⟨hmem, hvalid⟩ := mem_liveEntries.mp hentry
    exact hguard entry hmem hvalid hlba
  | getBlock block =>
    obtain ⟨hreturned, hafter⟩ := hcoherent.getBlock block
    exact ⟨hafter, hnoted hreturned⟩
  | writeBlock block data => exact ⟨hcoherent.writeBlock block data, hreadings⟩
  | flush => exact ⟨hcoherent.flush, hreadings⟩
  | invalidateBlock block => exact ⟨hcoherent.invalidate hguard, hreadings⟩
  | reset => exact ⟨hcoherent.reset hguard, hreadings⟩
  | takeFree =>
    refine ⟨hcoherent.congr ?_ ?_ ?_, hreadings⟩ <;>
      rcases takeFreeBlock_cases ledger.state with ⟨-, _, _, -, htaken⟩ | ⟨-, htaken⟩ <;>
      simp only [answerNoting, answer, htaken]
  | keepFree blocks complete => exact ⟨hcoherent.congr rfl rfl rfl, hreadings⟩
  | dropFree => exact ⟨hcoherent.congr rfl rfl rfl, hreadings⟩

/-- A cache that was never used has no copies. -/
theorem coherentOn_unused {capacity : ℕ}
    (hcache : state.blockCache = List.replicate capacity .unused)
    (hsucceeds : ∀ lba count, (state.disk drive).fails lba count = false) :
    CoherentOn tracked drive state (state.disk drive).sectors := by
  have hlive : liveEntries state.blockCache = [] := by
    rw [hcache, liveEntries, List.filter_eq_nil_iff.mpr]
    intro entry hentry
    rw [List.eq_of_mem_replicate hentry]
    exact Bool.false_ne_true
  refine ⟨fun entry hentry ↦ ?_, fun _ _ ↦ Or.inl rfl, ?_, hsucceeds⟩
  · rw [hlive] at hentry
    exact absurd hentry List.not_mem_nil
  · rw [hlive]
    exact List.nodup_nil

/-- Caches that were never used are coherent. -/
theorem current_start (drive capacity : ℕ) {disk : ℕ → Disk}
    (hsucceeds : ∀ lba count, (disk drive).fails lba count = false) :
    Current drive (.start drive disk capacity) :=
  ⟨coherentOn_all.mp (coherentOn_unused rfl hsucceeds), by simp [Ledger.start]⟩

/-- Every read of a run on a drive, whose calls keep its cache and its sectors together, returns
what was last written to the sector, by either way. -/
theorem reads_latest {drive capacity : ℕ} {disk : ℕ → Disk} {calls : List Call} {ledger : Ledger}
    (hsucceeds : ∀ lba count, (disk drive).fails lba count = false)
    (hrun : Run (Guarded (KeepsCoherent drive) (Moves Ledger.step)) (.start drive disk capacity)
      calls ledger) :
    ∀ reading ∈ ledger.readings, reading.returned = some reading.latest := by
  suffices hcurrent : Current drive ledger from hcurrent.readings
  refine hrun.guarded_invariant ?_ (current_start drive capacity hsucceeds)
  rintro before call after hcurrent ⟨rfl, hthroughout⟩ rfl
  have hstep (ledger : Ledger) (request : Request) (hcurrent : Current call.target ledger)
      (hguard : Coheres call.target ledger.state request) :
      True ∧ Current call.target (answerNoting call.target request ledger).2 :=
    ⟨trivial, hcurrent.answers hguard⟩
  exact (hthroughout.derive hstep hcurrent).2

/-- A drive of zero bytes whose accesses succeed. -/
def blankDrive : Disk where
  sectors := fun _ ↦ zeroBlock
  fails := fun _ _ ↦ false
  accesses := fun _ ↦ 0
  written := fun _ ↦ []

/-- A block is changed in the cache, flushed, and read past the cache. -/
def flushedCalls : List Call :=
  [⟨0, .getBlock 3⟩, ⟨0, .writeBlock 3 (setNext zeroBlock 9)⟩, ⟨0, .flush⟩, ⟨0, .readDirTable 3 1⟩]

/-- The read past the cache returns what was written through it. -/
theorem reads_latest_flushed :
    (flushedCalls.foldl Ledger.step (.start 0 (fun _ ↦ blankDrive) 16)).readings.map
        Reading.returned =
      (flushedCalls.foldl Ledger.step (.start 0 (fun _ ↦ blankDrive) 16)).readings.map
        fun reading ↦ some reading.latest :=
  List.map_congr_left (reads_latest (fun _ _ ↦ rfl) (Run.of_allowed (by decide +kernel)))

/-- A directory that was looked up is rewritten past the cache, and looked up again. -/
def rewrittenCalls : List Call :=
  [⟨0, .findInDir 3 [65]⟩, ⟨0, .writeDirTable 3 [newEntry [65] EYNFS_TYPE_FILE 7]⟩,
    ⟨0, .findInDir 3 [65]⟩]

/-- The second lookup reads the bytes from before. -/
theorem not_reads_latest :
    ¬ ∀ (drive capacity : ℕ) (disk : ℕ → Disk) (calls : List Call) (ledger : Ledger),
      (∀ lba count, (disk drive).fails lba count = false) →
        (∀ call ∈ calls, call.target = drive) →
          Run (Moves Ledger.step) (.start drive disk capacity) calls ledger →
            ∀ reading ∈ ledger.readings, reading.returned = some reading.latest := by
  intro hclaim
  have hreadings := hclaim 0 16 (fun _ ↦ blankDrive) rewrittenCalls _ (fun _ _ ↦ rfl) (by decide)
    (Run.of_foldl _ _ _)
  exact absurd hreadings (by decide +kernel)

end EynOS.Storage
