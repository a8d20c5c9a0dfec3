import EynOS.Foundation.ThreadedQueues
import EynOS.Storage.Fat32Table

/-!
# Allocation stays in the volume where there is room

`fat32_allocate_chain_sector_all` scans the table for free entries without a bound at the end of the
volume, and a table of `fat32_format_partition` has entries for more clusters than the volume has.
`allocated_iff` is when the chain that it returns is one of clusters of the volume: where enough of
these were free. `Partway` is what the scan has done up to a cluster. `freed_of_allocated` frees a
chain again, which gives all entries their values back.
-/

namespace EynOS.Storage.Fat32

open Foundation Interaction

/-! ### Clusters of the volume -/

/-- The cluster that follows in a chain. -/
def link (partLba : UInt32) (bpb : Bpb) (sectors : UInt32 → Sector) (clus : UInt32) :
    Option UInt32 :=
  if endOfChain ≤ entryValue partLba bpb sectors 0 clus then none
  else some (entryValue partLba bpb sectors 0 clus)

/-- The number of clusters whose sectors are all below `TotSec32`. -/
def dataClusters (bpb : Bpb) : ℕ :=
  (bpb.totSec32.toNat - bpb.firstDataSec.toNat) / bpb.secPerClus.toNat

/-- A cluster is free in the first copy of the table. -/
def IsFree (partLba : UInt32) (bpb : Bpb) (sectors : UInt32 → Sector) (clus : UInt32) : Prop :=
  entryValue partLba bpb sectors 0 clus = 0

instance (partLba : UInt32) (bpb : Bpb) (sectors : UInt32 → Sector) (clus : UInt32) :
    Decidable (IsFree partLba bpb sectors clus) :=
  inferInstanceAs (Decidable (_ = _))

/-- The free ones of `count` clusters from a cluster on. -/
def freeClusters (partLba : UInt32) (bpb : Bpb) (sectors : UInt32 → Sector) (start count : ℕ) :
    List ℕ :=
  (List.range' start count).filter fun clus ↦ IsFree partLba bpb sectors (UInt32.ofNat clus)

/-- There are enough free clusters in the volume. -/
def EnoughFree (partLba : UInt32) (bpb : Bpb) (sectors : UInt32 → Sector)
    (needed : UInt32) : Prop :=
  needed.toNat ≤ (freeClusters partLba bpb sectors 2 (dataClusters bpb)).length

def chainStart (first : UInt32) : Option UInt32 := if first = 0 then none else some first

/-- What `fat32_allocate_chain_sector_all` should do: the clusters of its chain are as many as are
needed, in the volume, and were free. The copies of the table agree on them, and no other entry is
changed. -/
structure Allocated (partLba : UInt32) (bpb : Bpb) (before after : UInt32 → Sector)
    (first needed : UInt32) (clusters : List UInt32) : Prop where
  chain : Path (link partLba bpb after) (chainStart first) clusters
  length : clusters.length = needed.toNat
  nodup : clusters.Nodup
  free : ∀ clus ∈ clusters, IsFree partLba bpb before clus
  agree : ∀ clus ∈ clusters, ∀ copy < bpb.numFats,
    entryValue partLba bpb after copy clus = entryValue partLba bpb after 0 clus
  others : ∀ copy < bpb.numFats, ∀ clus, InTable bpb clus → clus ∉ clusters →
    entryWord partLba bpb after copy clus = entryWord partLba bpb before copy clus
  inside : ∀ clus ∈ clusters, 2 ≤ clus.toNat ∧ ∀ sec < bpb.secPerClus.toNat,
    bpb.firstDataSec.toNat + (clus.toNat - 2) * bpb.secPerClus.toNat + sec < bpb.totSec32.toNat

section Scan

variable {partLba : UInt32} {bpb : Bpb} {before now after : UInt32 → Sector}
  {clus first prev needed : UInt32} {taken : List UInt32} {disk ended : Disk}

/-! ### The clusters that were taken so far -/

/-- What the scan has done up to a cluster: the clusters taken so far are a chain, the copies agree
on them, they were free, and no other entry is changed. -/
structure Partway (partLba : UInt32) (bpb : Bpb) (before now : UInt32 → Sector) (upTo : ℕ)
    (first prev : UInt32) (taken : List UInt32) : Prop where
  chain : Path (link partLba bpb now) (chainStart first) taken
  last : taken.getLast?.getD 0 = prev
  nodup : taken.Nodup
  free : ∀ clus ∈ taken, IsFree partLba bpb before clus
  agree : ∀ clus ∈ taken, ∀ copy < bpb.numFats,
    entryValue partLba bpb now copy clus = entryValue partLba bpb now 0 clus
  others : ∀ copy < bpb.numFats, ∀ clus, InTable bpb clus → clus ∉ taken →
    entryWord partLba bpb now copy clus = entryWord partLba bpb before copy clus
  inside : ∀ clus ∈ taken, 2 ≤ clus.toNat ∧ clus.toNat < upTo
  elsewhere : ∀ lba, OutsideTable partLba bpb lba → now lba = before lba

/-- Nothing is taken before the scan. -/
theorem partway_start (partLba : UInt32) (bpb : Bpb) (before : UInt32 → Sector) :
    Partway partLba bpb before before 2 0 0 [] where
  chain := rfl
  last := rfl
  nodup := List.nodup_nil
  free := by simp
  agree := by simp
  others := fun _ _ _ _ _ ↦ rfl
  inside := by simp
  elsewhere := fun _ _ ↦ rfl

theorem Partway.mono {upTo later : ℕ}
    (hpartway : Partway partLba bpb before now upTo first prev taken) (hle : upTo ≤ later) :
    Partway partLba bpb before now later first prev taken :=
  { hpartway with
    inside := fun clus hclus ↦
      ⟨(hpartway.inside clus hclus).1, lt_of_lt_of_le (hpartway.inside clus hclus).2 hle⟩ }

theorem Geometry.zero_lt (hgeometry : Geometry bpb) : (0 : UInt32) < bpb.numFats :=
  UInt32.pos_iff_ne_zero.mpr hgeometry.copies

theorem entryValue_write {other : UInt32} {val : UInt32} (hval : val &&& fatMask = val)
    {copy : UInt32} (hwritten : entryWord partLba bpb after copy other =
      withValue (entryWord partLba bpb now copy other) val) :
    entryValue partLba bpb after copy other = val := by
  unfold entryValue
  rw [hwritten, withValue_mask, hval]

/-- The entries after a cluster was linked behind the last one of a chain. -/
theorem linkCluster_ok (hgeometry : Geometry bpb) (hclus : InTable bpb clus)
    (hprev : prev ≠ 0 → InTable bpb prev) (hne : prev ≠ clus)
    (hmask : clus &&& fatMask = clus)
    (hrun : run answer (linkCluster partLba bpb prev clus) disk = (.ok (), ended)) :
    (∀ lba, OutsideTable partLba bpb lba → ended.sectors lba = disk.sectors lba) ∧
    ∀ copy < bpb.numFats,
      entryValue partLba bpb ended.sectors copy clus = endOfChain ∧
      (prev ≠ 0 → entryValue partLba bpb ended.sectors copy prev = clus) ∧
      ∀ other, InTable bpb other → other ≠ clus → (prev ≠ 0 → other ≠ prev) →
        entryWord partLba bpb ended.sectors copy other =
          entryWord partLba bpb disk.sectors copy other := by
  unfold linkCluster at hrun
  obtain ⟨_, linked, hlink, hend⟩ := run_bind_eq_ok.mp hrun
  obtain ⟨houtside, hended⟩ := writeFatEntryAll_ok hgeometry hclus hend
  refine ⟨fun lba hlba ↦ ?_, fun copy hcopy ↦ ?_⟩
  · rw [houtside lba fun copy hcopy ↦ hlba copy hcopy clus hclus]
    split_ifs at hlink with hlinked
    · exact (writeFatEntryAll_ok hgeometry (hprev hlinked) hlink).1 lba fun copy hcopy ↦
        hlba copy hcopy prev (hprev hlinked)
    · simp only [run_pure, Prod.mk.injEq, true_and] at hlink
      rw [hlink]
  have hlast : entryValue partLba bpb ended.sectors copy clus = endOfChain :=
    entryValue_write (by decide) ((hended copy hcopy clus hclus).trans (if_pos rfl))
  have hbehind {other : UInt32} (hother : InTable bpb other) (hotherNe : other ≠ clus) :
      entryWord partLba bpb ended.sectors copy other =
        entryWord partLba bpb linked.sectors copy other :=
    (hended copy hcopy other hother).trans (if_neg hotherNe)
  refine ⟨hlast, fun hlinked ↦ ?_, fun other hother hotherNe hotherPrev ↦ ?_⟩
  · rw [if_pos hlinked] at hlink
    have hwritten := (writeFatEntryAll_ok hgeometry (hprev hlinked) hlink).2 copy hcopy prev
      (hprev hlinked)
    rw [if_pos rfl] at hwritten
    have hvalue : entryValue partLba bpb linked.sectors copy prev = clus :=
      entryValue_write hmask hwritten
    unfold entryValue at hvalue ⊢
    rw [hbehind (hprev hlinked) hne, hvalue]
  · rw [hbehind hother hotherNe]
    split_ifs at hlink with hlinked
    · have hwritten := (writeFatEntryAll_ok hgeometry (hprev hlinked) hlink).2 copy hcopy other
        hother
      rwa [if_neg (hotherPrev hlinked)] at hwritten
    · simp only [run_pure, Prod.mk.injEq, true_and] at hlink
      rw [hlink]

/-- The last cluster of a chain that is not empty. -/
theorem Partway.getLast {upTo : ℕ}
    (hpartway : Partway partLba bpb before now upTo first prev taken) (hlinked : prev ≠ 0) :
    taken.getLast? = some prev := by
  have hlast := hpartway.last
  cases htaken : taken.getLast? with
  | none =>
    rw [htaken] at hlast
    exact absurd hlast.symm hlinked
  | some last =>
    rw [htaken] at hlast
    exact congrArg some hlast

/-- A cluster that is in none of the changed entries keeps its link. -/
theorem link_congr {other : UInt32} (hgeometry : Geometry bpb)
    (hword : ∀ copy < bpb.numFats, entryWord partLba bpb after copy other =
      entryWord partLba bpb now copy other) :
    link partLba bpb after other = link partLba bpb now other := by
  unfold link entryValue
  rw [hword 0 hgeometry.zero_lt]

/-- Linking a free cluster behind the chain so far takes it. -/
theorem Partway.take (hgeometry : Geometry bpb)
    (hpartway : Partway partLba bpb before disk.sectors clus.toNat first prev taken)
    (hclus : InTable bpb clus) (hsmall : clus.toNat < 0x0FFFFFF0) (htwo : 2 ≤ clus.toNat)
    (hfree : IsFree partLba bpb before clus)
    (hrun : run answer (linkCluster partLba bpb prev clus) disk = (.ok (), ended)) :
    Partway partLba bpb before ended.sectors (clus.toNat + 1)
      (if prev ≠ 0 then first else clus) clus (taken ++ [clus]) := by
  have hmem {other : UInt32} (hother : other ∈ taken) :
      InTable bpb other ∧ other ≠ clus ∧ other ≠ 0 := by
    obtain ⟨hfrom, hto⟩ := hpartway.inside other hother
    refine ⟨lt_trans hto hclus, ?_, ?_⟩
    · rintro rfl
      exact lt_irrefl _ hto
    · rintro rfl
      exact absurd hfrom (by decide)
  have hfresh : clus ∉ taken := fun hclusMem ↦ (hmem hclusMem).2.1 rfl
  have hprev (hlinked : prev ≠ 0) : prev ∈ taken :=
    List.mem_of_getLast? (hpartway.getLast hlinked)
  have hmask : clus &&& fatMask = clus := by
    have hvalue : (clus &&& fatMask).toNat = clus.toNat := by
      rw [UInt32.toNat_and]
      have hpower : fatMask.toNat = 2 ^ 28 - 1 := rfl
      rw [hpower, Nat.and_two_pow_sub_one_eq_mod]
      exact Nat.mod_eq_of_lt (by omega)
    exact UInt32.toNat_inj.mp hvalue
  have hprevNe : prev ≠ clus := by
    intro hsame
    have hlinked : prev ≠ 0 := by
      rintro rfl
      rw [← hsame] at htwo
      exact absurd htwo (by decide)
    exact (hmem (hprev hlinked)).2.1 hsame
  obtain ⟨houtside, hwritten⟩ := linkCluster_ok hgeometry hclus
    (fun hlinked ↦ (hmem (hprev hlinked)).1) hprevNe hmask hrun
  have hothers {other : UInt32} (hother : InTable bpb other) (hotherNe : other ≠ clus)
      (hotherPrev : prev ≠ 0 → other ≠ prev) (copy : UInt32) (hcopy : copy < bpb.numFats) :
      entryWord partLba bpb ended.sectors copy other =
        entryWord partLba bpb disk.sectors copy other :=
    (hwritten copy hcopy).2.2 other hother hotherNe hotherPrev
  have hend : link partLba bpb ended.sectors clus = none := by
    unfold link
    rw [(hwritten 0 hgeometry.zero_lt).1, if_pos (by decide)]
  constructor
  · by_cases hlinked : prev ≠ 0
    · rw [if_pos hlinked]
      obtain ⟨init, rfl⟩ := List.getLast?_eq_some_iff.mp (hpartway.getLast hlinked)
      rw [List.append_assoc]
      refine hpartway.chain.splice (fun other hother ↦ ?_) ?_
      · have hotherMem : other ∈ init ++ [prev] := List.mem_append_left _ hother
        obtain ⟨hotherTable, hotherNe, -⟩ := hmem hotherMem
        refine link_congr hgeometry (hothers hotherTable hotherNe fun _ ↦ ?_)
        rintro rfl
        have hnodup := hpartway.nodup
        rw [List.nodup_append] at hnodup
        exact hnodup.2.2 _ hother _ (List.mem_singleton_self _) rfl
      · have hvalue := (hwritten 0 hgeometry.zero_lt).2.1 hlinked
        have hlink : link partLba bpb ended.sectors prev = some clus := by
          unfold link
          rw [hvalue, if_neg]
          rw [UInt32.le_iff_toNat_le, not_le]
          exact lt_of_lt_of_le hsmall (by decide)
        rw [hlink]
        exact ⟨rfl, hend⟩
    · rw [if_neg hlinked]
      have hempty : taken = [] := by
        rw [not_not] at hlinked
        by_contra hne
        have hlast := hpartway.last
        rw [List.getLast?_eq_some_getLast hne, Option.getD_some, hlinked] at hlast
        have hmemLast := List.getLast_mem hne
        rw [hlast] at hmemLast
        exact (hmem hmemLast).2.2 rfl
      rw [hempty]
      have hnull : clus ≠ 0 := by
        rintro rfl
        exact absurd htwo (by decide)
      exact ⟨if_neg hnull, hend⟩
  · rw [List.getLast?_append]
    rfl
  · refine List.nodup_append.mpr ⟨hpartway.nodup, List.nodup_singleton _, ?_⟩
    intro other hother last hlast
    rw [List.mem_singleton.mp hlast]
    exact (hmem hother).2.1
  · intro other hother
    rcases List.mem_append.mp hother with hother | hother
    · exact hpartway.free other hother
    · rw [List.mem_singleton.mp hother]
      exact hfree
  · intro other hother copy hcopy
    rcases List.mem_append.mp hother with hother | hother
    · obtain ⟨hotherTable, hotherNe, -⟩ := hmem hother
      by_cases hbehind : prev ≠ 0 ∧ other = prev
      · obtain ⟨hlinked, rfl⟩ := hbehind
        rw [(hwritten copy hcopy).2.1 hlinked, (hwritten 0 hgeometry.zero_lt).2.1 hlinked]
      · have hkept := hothers hotherTable hotherNe (not_and.mp hbehind)
        unfold entryValue
        rw [hkept copy hcopy, hkept 0 hgeometry.zero_lt]
        exact hpartway.agree other hother copy hcopy
    · rw [List.mem_singleton.mp hother, (hwritten copy hcopy).1,
        (hwritten 0 hgeometry.zero_lt).1]
  · intro copy hcopy other hother hnotMem
    rw [List.mem_append, List.mem_singleton, not_or] at hnotMem
    rw [hothers hother hnotMem.2 ?_ copy hcopy]
    · exact hpartway.others copy hcopy other hother hnotMem.1
    · rintro hlinked rfl
      exact hnotMem.1 (hprev hlinked)
  · intro other hother
    rcases List.mem_append.mp hother with hother | hother
    · obtain ⟨hfrom, hto⟩ := hpartway.inside other hother
      exact ⟨hfrom, by omega⟩
    · rw [List.mem_singleton.mp hother]
      exact ⟨htwo, Nat.lt_succ_self _⟩
  · intro lba hlba
    rw [houtside lba hlba, hpartway.elsewhere lba hlba]

/-! ### The scan -/

/-- The label `fail` returns an error. -/
theorem allocateFail_not_ok (result : UInt32) :
    run answer (allocateFail partLba bpb first) disk ≠ (.ok result, ended) := by
  intro hrun
  obtain ⟨_, middle, -, hfail⟩ := run_bind_eq_ok.mp hrun
  exact absurd (congrArg Prod.fst hfail) (by simp [failWith])

/-- A sector that was read has the entries from a cluster on as they were before the scan. -/
def Fresh (partLba : UInt32) (bpb : Bpb) (before : UInt32 → Sector) (upTo : ℕ) (number : UInt32)
    (sector : Sector) : Prop :=
  ∀ other, upTo ≤ other.toNat → InTable bpb other → fatSector bpb 0 other = number →
    fatAt bpb sector other = entryWord partLba bpb before 0 other

/-- The sector of the table that is looked at is fresh, and reading it changes nothing. -/
theorem readTable_ok {number : UInt32} {last : Option (UInt32 × Sector)} {sector : Sector}
    {upTo : ℕ} (hgeometry : Geometry bpb)
    (hpartway : Partway partLba bpb before disk.sectors upTo first prev taken)
    (hlast : ∀ cached ∈ last, Fresh partLba bpb before upTo cached.1 cached.2)
    (hrun : run answer (readTable partLba number last) disk = (.ok sector, ended)) :
    Fresh partLba bpb before upTo number sector ∧ ended.sectors = disk.sectors := by
  have hread (hrun : run answer (readSector (partLba + number)) disk = (.ok sector, ended)) :
      Fresh partLba bpb before upTo number sector ∧ ended.sectors = disk.sectors := by
    obtain ⟨rfl, hsectors⟩ := readSector_ok hrun
    refine ⟨fun other hfrom hother hnumber ↦ ?_, hsectors⟩
    rw [← hnumber]
    refine hpartway.others 0 hgeometry.zero_lt other hother fun hmem ↦ ?_
    exact absurd (hpartway.inside other hmem).2 (not_lt.mpr hfrom)
  unfold readTable at hrun
  cases last with
  | none => exact hread hrun
  | some cached =>
    dsimp only at hrun
    split_ifs at hrun with hnumber
    · simp only [run_pure, Prod.mk.injEq, Except.ok.injEq] at hrun
      obtain ⟨rfl, rfl⟩ := hrun
      exact ⟨hnumber ▸ hlast cached rfl, rfl⟩
    · exact hread hrun

theorem freeClusters_succ (start count : ℕ) :
    freeClusters partLba bpb before start (count + 1) =
      if IsFree partLba bpb before (UInt32.ofNat start) then
        start :: freeClusters partLba bpb before (start + 1) count
      else freeClusters partLba bpb before (start + 1) count := by
  unfold freeClusters
  rw [List.range'_succ, List.filter_cons]
  simp

/-- Where enough clusters of the volume are free the scan does not leave it. -/
theorem allocateLoop_ok {count rounds : ℕ} {result : UInt32}
    {last : Option (UInt32 × Sector)} (hgeometry : Geometry bpb)
    (htable : dataClusters bpb + 2 ≤ bpb.fatSz32.toNat * 128)
    (hsmall : dataClusters bpb + 2 ≤ 0x0FFFFFF0)
    (hcount : clus.toNat + count = dataClusters bpb + 2) (hrounds : count ≤ rounds)
    (htwo : 2 ≤ clus.toNat)
    (hpartway : Partway partLba bpb before disk.sectors clus.toNat first prev taken)
    (hlast : ∀ cached ∈ last, Fresh partLba bpb before clus.toNat cached.1 cached.2)
    (henough : needed.toNat ≤ (freeClusters partLba bpb before clus.toNat count).length)
    (hrun : run answer (allocateLoop partLba bpb rounds clus needed first prev last) disk =
      (.ok result, ended)) :
    ∃ clusters final, clusters.length = taken.length + needed.toNat ∧
      Partway partLba bpb before ended.sectors (dataClusters bpb + 2) result final clusters := by
  have hdone (clus : UInt32) (first prev : UInt32) (taken : List UInt32) (disk : Disk)
      (last : Option (UInt32 × Sector)) (rounds count : ℕ)
      (hcount : clus.toNat + count = dataClusters bpb + 2)
      (hpartway : Partway partLba bpb before disk.sectors clus.toNat first prev taken)
      (hrun : run answer (allocateLoop partLba bpb rounds clus 0 first prev last) disk =
        (.ok result, ended)) :
      ∃ clusters final, clusters.length = taken.length + (0 : UInt32).toNat ∧
        Partway partLba bpb before ended.sectors (dataClusters bpb + 2) result final clusters := by
    have hstop : allocateLoop partLba bpb rounds clus 0 first prev last = pure first := by
      cases rounds <;> exact if_pos rfl
    rw [hstop] at hrun
    simp only [run_pure, Prod.mk.injEq, Except.ok.injEq] at hrun
    obtain ⟨rfl, rfl⟩ := hrun
    exact ⟨taken, prev, rfl, hpartway.mono (by omega)⟩
  induction count generalizing clus needed first prev taken last rounds disk with
  | zero =>
    obtain rfl : needed = 0 := UInt32.toNat_inj.mp (Nat.le_zero.mp henough)
    exact hdone clus first prev taken disk last rounds 0 hcount hpartway hrun
  | succ count ih =>
    by_cases hneeded : needed = 0
    · subst hneeded
      exact hdone clus first prev taken disk last rounds (count + 1) hcount hpartway hrun
    · obtain ⟨rounds, rfl⟩ := Nat.exists_eq_succ_of_ne_zero (show rounds ≠ 0 by omega)
      have hclus : InTable bpb clus := lt_of_lt_of_le (by omega) htable
      have hnext : (clus + 1).toNat = clus.toNat + 1 := by
        have hone : (1 : UInt32).toNat = 1 := rfl
        rw [UInt32.toNat_add, hone]
        omega
      unfold allocateLoop at hrun
      rw [if_neg hneeded] at hrun
      obtain ⟨read, looked, hread, hrest⟩ := run_bind_eq_ok.mp hrun
      cases read with
      | none => exact absurd hrest (allocateFail_not_ok result)
      | some sector =>
        obtain ⟨hfresh, hsectors⟩ := readTable_ok hgeometry hpartway hlast (attempt_ok hread)
        rw [← hsectors] at hpartway
        have hfreshNext : ∀ cached ∈ some (fatSector bpb 0 clus, sector),
            Fresh partLba bpb before (clus + 1).toNat cached.1 cached.2 := by
          rintro cached hcached other hfrom
          cases hcached
          exact hfresh other (by omega)
        have hvalue : fatAt bpb sector clus &&& fatMask = 0 ↔ IsFree partLba bpb before clus := by
          rw [hfresh clus le_rfl hclus rfl]
          exact Iff.rfl
        rw [freeClusters_succ, UInt32.ofNat_toNat] at henough
        dsimp only at hrest
        by_cases hfree : IsFree partLba bpb before clus
        · rw [if_pos (hvalue.mpr hfree)] at hrest
          rw [if_pos hfree, List.length_cons] at henough
          obtain ⟨linked, written, hlink, hloop⟩ := run_bind_eq_ok.mp hrest
          cases linked with
          | none => exact absurd hloop (allocateFail_not_ok result)
          | some _ =>
            have htaken := hpartway.take hgeometry hclus (by omega) htwo hfree (attempt_ok hlink)
            have hpos : 1 ≤ needed.toNat :=
              Nat.one_le_iff_ne_zero.mpr fun hzero ↦ hneeded (UInt32.toNat_inj.mp hzero)
            have hleft : (needed - 1).toNat = needed.toNat - 1 :=
              UInt32.toNat_sub_of_le needed 1 (UInt32.le_iff_toNat_le.mpr hpos)
            rw [← hnext] at htaken henough
            obtain ⟨clusters, final, hlength, hfinal⟩ := ih (by omega) (by omega) (by omega) htaken
              hfreshNext (by omega) hloop
            refine ⟨clusters, final, ?_, hfinal⟩
            rw [hlength, List.length_append, List.length_singleton, hleft]
            omega
        · rw [if_neg (mt hvalue.mp hfree)] at hrest
          rw [if_neg hfree, ← hnext] at henough
          refine ih (by omega) (by omega) (by omega) (hpartway.mono (by omega)) hfreshNext henough
            hrest

/-- Where enough clusters of the volume are free the clusters of the chain are some of them. -/
theorem allocateChain_ok (hgeometry : Geometry bpb) (hperClus : bpb.secPerClus ≠ 0)
    (htable : dataClusters bpb + 2 ≤ bpb.fatSz32.toNat * 128)
    (hsmall : dataClusters bpb + 2 ≤ 0x0FFFFFF0)
    (henough : EnoughFree partLba bpb disk.sectors needed)
    (hrun : run answer (fat32AllocateChainSectorAll partLba bpb needed) disk = (.ok first, ended)) :
    ∃ clusters final, clusters.length = needed.toNat ∧
      Partway partLba bpb disk.sectors ended.sectors
        (dataClusters bpb + 2) first final clusters := by
  have htwo : (2 : UInt32).toNat = 2 := rfl
  have hscan : run answer (allocateLoop partLba bpb (0x0FFFFFF0 - 2) 2 needed 0 0 none) disk =
      (.ok first, ended) := by
    unfold fat32AllocateChainSectorAll at hrun
    rw [if_neg (by simp [hgeometry.usable, hperClus])] at hrun
    by_cases hneeded : needed = 0
    · rw [if_pos hneeded] at hrun
      rw [hneeded]
      exact hrun
    · rwa [if_neg hneeded] at hrun
  have hcounted : needed.toNat ≤ (freeClusters partLba bpb disk.sectors (2 : UInt32).toNat
      (dataClusters bpb)).length := henough
  obtain ⟨clusters, final, hlength, hpartway⟩ := allocateLoop_ok hgeometry htable hsmall
    (by rw [htwo]; exact Nat.add_comm _ _) (by omega) le_rfl
    (partway_start partLba bpb disk.sectors) (by simp) hcounted hscan
  exact ⟨clusters, final, by rw [hlength]; exact Nat.zero_add _, hpartway⟩

/-! ### Freeing -/

theorem readFatEntry_ok (hgeometry : Geometry bpb) {next : UInt32}
    (hrun : run answer (fat32ReadFatEntry partLba bpb clus) disk = (.ok next, ended)) :
    next = entryValue partLba bpb disk.sectors 0 clus ∧ ended.sectors = disk.sectors := by
  unfold fat32ReadFatEntry at hrun
  rw [if_neg (by simp [hgeometry.usable])] at hrun
  obtain ⟨sector, middle, hread, hend⟩ := run_bind_eq_ok.mp hrun
  obtain ⟨rfl, hsectors⟩ := readSector_ok hread
  simp only [run_pure, Prod.mk.injEq, Except.ok.injEq] at hend
  obtain ⟨rfl, rfl⟩ := hend
  exact ⟨rfl, hsectors⟩

/-- The entries after one is set free. -/
theorem writeZero_ok (hgeometry : Geometry bpb) (hclus : InTable bpb clus)
    (hrun : run answer (fat32WriteFatEntryAll partLba bpb clus 0) disk = (.ok (), ended)) :
    ∀ copy < bpb.numFats, ∀ other, InTable bpb other →
      entryValue partLba bpb ended.sectors copy other =
        if other = clus then 0 else entryValue partLba bpb disk.sectors copy other := by
  intro copy hcopy other hother
  have hwritten := (writeFatEntryAll_ok hgeometry hclus hrun).2 copy hcopy other hother
  by_cases hsame : other = clus
  · subst hsame
    rw [if_pos rfl] at hwritten ⊢
    exact entryValue_write (by decide) hwritten
  · rw [if_neg hsame] at hwritten ⊢
    unfold entryValue
    rw [hwritten]

/-- A chain that ends is freed: its entries are zero, and all others stay. -/
theorem freeChainLoop_ok (hgeometry : Geometry bpb) {cur : UInt32} {clusters : List UInt32}
    {guard : ℕ}
    (hpath : Path (link partLba bpb disk.sectors) (some cur) clusters) (hnodup : clusters.Nodup)
    (hinside : ∀ other ∈ clusters, InTable bpb other) (hguard : clusters.length ≤ guard)
    (hrun : run answer (fat32FreeChainLoop partLba bpb guard cur) disk = (.ok (), ended)) :
    ∀ copy < bpb.numFats, ∀ other, InTable bpb other →
      entryValue partLba bpb ended.sectors copy other =
        if other ∈ clusters then 0 else entryValue partLba bpb disk.sectors copy other := by
  induction clusters generalizing guard cur disk with
  | nil => exact absurd hpath (Option.some_ne_none cur)
  | cons head rest ih =>
    obtain ⟨hhead, hpath⟩ := hpath
    obtain rfl := Option.some.inj hhead
    obtain ⟨hfresh, hnodup⟩ := List.nodup_cons.mp hnodup
    have hcur : InTable bpb cur := hinside cur List.mem_cons_self
    obtain ⟨guard, rfl⟩ := Nat.exists_eq_succ_of_ne_zero (Nat.ne_zero_of_lt hguard)
    obtain ⟨next, read, hread, hrest⟩ := run_bind_eq_ok.mp hrun
    obtain ⟨rfl, hsectors⟩ := readFatEntry_ok hgeometry (orFail_ok hread)
    obtain ⟨_, written, hwrite, hrest⟩ := run_bind_eq_ok.mp hrest
    have hvalue := writeZero_ok hgeometry hcur (orFail_ok hwrite)
    rw [hsectors] at hvalue
    intro copy hcopy other hother
    by_cases hend : endOfChain ≤ entryValue partLba bpb disk.sectors 0 cur
    · have hlast : link partLba bpb disk.sectors cur = none := if_pos hend
      rw [hlast] at hpath
      cases rest with
      | cons => exact absurd hpath.1.symm (Option.some_ne_none _)
      | nil =>
        rw [if_pos hend] at hrest
        simp only [run_pure, Prod.mk.injEq, true_and] at hrest
        rw [← hrest, hvalue copy hcopy other hother]
        simp
    · have hnext : link partLba bpb disk.sectors cur = some _ := if_neg hend
      rw [hnext] at hpath
      rw [if_neg hend] at hrest
      have hkept : ∀ entry ∈ rest, link partLba bpb written.sectors entry =
          link partLba bpb disk.sectors entry := by
        intro entry hentry
        unfold link
        rw [hvalue 0 hgeometry.zero_lt entry (hinside entry (List.mem_cons_of_mem _ hentry)),
          if_neg fun hsame : entry = cur ↦ hfresh (hsame ▸ hentry)]
      rw [ih (hpath.congr hkept) hnodup
        (fun entry hentry ↦ hinside entry (List.mem_cons_of_mem _ hentry))
        (Nat.le_of_succ_le_succ hguard) hrest copy hcopy other hother,
        hvalue copy hcopy other hother]
      by_cases hsame : other = cur <;> simp [hsame]

/-- The clusters of a chain that was freed hold 0, and no other entry changed. -/
theorem freeChain_ok (hgeometry : Geometry bpb) {clusters : List UInt32}
    (hchain : Path (link partLba bpb disk.sectors) (chainStart first) clusters)
    (hnodup : clusters.Nodup) (hinside : ∀ clus ∈ clusters, 2 ≤ clus.toNat ∧ InTable bpb clus)
    (hguard : clusters.length ≤ 16777216)
    (hrun : run answer (fat32FreeChainSectorAll partLba bpb first) disk = (.ok (), ended)) :
    ∀ copy < bpb.numFats, ∀ clus, InTable bpb clus →
      entryValue partLba bpb ended.sectors copy clus =
        if clus ∈ clusters then 0 else entryValue partLba bpb disk.sectors copy clus := by
  unfold chainStart at hchain
  unfold fat32FreeChainSectorAll at hrun
  cases clusters with
  | nil =>
    have hempty : first = 0 := by simpa [Foundation.Path] using hchain
    rw [hempty, if_pos (by decide)] at hrun
    simp only [run_pure, Prod.mk.injEq, true_and] at hrun
    simp [hrun]
  | cons head rest =>
    split_ifs at hchain with hempty
    · exact absurd hchain.1.symm (Option.some_ne_none head)
    obtain rfl := Option.some.inj hchain.1
    have hlarge : ¬first < 2 := fun hless ↦
      absurd (hinside first List.mem_cons_self).1
        (Nat.not_le_of_lt (UInt32.lt_iff_toNat_lt.mp hless))
    rw [if_neg hlarge] at hrun
    exact freeChainLoop_ok hgeometry hchain hnodup
      (fun other hother ↦ (hinside other hother).2) hguard
      hrun

end Scan

section Format

variable {partLba totalSectors needed first : UInt32} {disk middle ended : Disk}

/-! ### Formatted volumes -/

/-- The size of the table that `fat32_format_partition` computes is enough for the clusters behind
both copies, where it is not zero. -/
theorem table_covers {total perClus size : ℕ} (htotal : total < 4294967296)
    (hperClus : perClus = if total < 65536 then 1 else if total < 524288 then 8 else 16)
    (hsize : size = (4294967296 - 1 + ((4294967296 - 32 + total) % 4294967296 / perClus * 4 %
      4294967296 + 512) % 4294967296) % 4294967296 / 512)
    (hne : size ≠ 0) :
    32 + 2 * size < 4294967296 ∧ size * 512 < 4294967296 ∧
      (total - (32 + 2 * size)) / perClus + 2 ≤ size * 128 ∧
        (total - (32 + 2 * size)) / perClus + 2 ≤ 0x0FFFFFF0 := by
  by_cases hshort : total < 32
  · -- the number of data sectors wraps, and the table is empty
    rw [if_pos (by omega)] at hperClus
    subst hperClus
    omega
  · have hdata : (4294967296 - 32 + total) % 4294967296 = total - 32 := by omega
    rw [hdata] at hsize
    have hcount : (total - 32) / perClus < 268435456 := by
      split_ifs at hperClus <;> subst hperClus <;> omega
    have hplain : size = ((total - 32) / perClus * 4 + 511) / 512 := by omega
    split_ifs at hperClus <;> subst hperClus <;> omega

/-- The copies of the table of a formatted volume do not overlap, and each has an entry for every
cluster of the volume. -/
theorem geometry_format (haccepted : (formatBpb totalSectors).Accepted) :
    Geometry (formatBpb totalSectors) ∧
      (formatBpb totalSectors).firstDataSec.toNat =
        32 + 2 * (formatBpb totalSectors).fatSz32.toNat ∧
      dataClusters (formatBpb totalSectors) + 2 ≤ (formatBpb totalSectors).fatSz32.toNat * 128 ∧
      dataClusters (formatBpb totalSectors) + 2 ≤ 0x0FFFFFF0 := by
  obtain ⟨-, -, -, hsize⟩ := haccepted
  have hperClus : (formatBpb totalSectors).secPerClus.toNat =
      if totalSectors.toNat < 65536 then 1 else if totalSectors.toNat < 524288 then 8 else 16 := by
    change (if totalSectors < 65536 then (1 : UInt32) else
      if totalSectors < 524288 then 8 else 16).toNat = _
    simp only [UInt32.lt_iff_toNat_lt]
    change (if totalSectors.toNat < 65536 then (1 : UInt32) else
      if totalSectors.toNat < 524288 then 8 else 16).toNat = _
    split_ifs <;> rfl
  have hfatSz : (formatBpb totalSectors).fatSz32.toNat =
      (4294967296 - 1 + ((4294967296 - 32 + totalSectors.toNat) % 4294967296 /
        (formatBpb totalSectors).secPerClus.toNat * 4 % 4294967296 + 512) % 4294967296) %
          4294967296 / 512 := by
    change (((totalSectors - 32) / (formatBpb totalSectors).secPerClus * 4 + 512 - 1) / 512).toNat =
      _
    simp only [UInt32.toNat_div, UInt32.toNat_sub, UInt32.toNat_add, UInt32.toNat_mul]
    rfl
  obtain ⟨hroom, hentries, hcover, hsmall⟩ := table_covers totalSectors.toNat_lt hperClus hfatSz
    fun hzero ↦ hsize (UInt32.toNat_inj.mp hzero)
  have hfirst : (formatBpb totalSectors).firstDataSec.toNat =
      32 + 2 * (formatBpb totalSectors).fatSz32.toNat := by
    change ((32 : UInt32) + 2 * (formatBpb totalSectors).fatSz32).toNat = _
    have htwo : (2 : UInt32).toNat = 2 := rfl
    have hreserved : (32 : UInt32).toNat = 32 := rfl
    rw [UInt32.toNat_add, UInt32.toNat_mul, htwo, hreserved]
    omega
  have hclusters : dataClusters (formatBpb totalSectors) = (totalSectors.toNat -
      (32 + 2 * (formatBpb totalSectors).fatSz32.toNat)) /
      (formatBpb totalSectors).secPerClus.toNat := by
    rw [← hfirst]
    rfl
  rw [hclusters]
  have hcopies : (formatBpb totalSectors).numFats ≠ 0 := by
    change (2 : UInt32) ≠ 0
    decide
  exact ⟨⟨rfl, hcopies, hsize, hroom, hentries⟩, hfirst, hcover, hsmall⟩

/-- A cluster is one of the volume just where its number is small enough. -/
theorem inside_iff {bpb : Bpb} (hperClus : bpb.secPerClus ≠ 0) {clus : ℕ} :
    (∀ sec < bpb.secPerClus.toNat,
      bpb.firstDataSec.toNat + clus * bpb.secPerClus.toNat + sec < bpb.totSec32.toNat) ↔
        clus < dataClusters bpb := by
  have hpos : 0 < bpb.secPerClus.toNat :=
    Nat.pos_of_ne_zero fun hzero ↦ hperClus (UInt32.toNat_inj.mp hzero)
  unfold dataClusters
  rw [Nat.lt_iff_add_one_le, Nat.le_div_iff_mul_le hpos, Nat.add_one_mul]
  constructor
  · intro hall
    have hlast := hall (bpb.secPerClus.toNat - 1) (by omega)
    omega
  · intro hfits sec hsec
    omega

/-- Clusters of the volume that were free are among those that are counted. -/
theorem enoughFree_of_allocated {bpb : Bpb} {before after : UInt32 → Sector}
    {clusters : List UInt32}
    (hperClus : bpb.secPerClus ≠ 0)
    (hallocated : Allocated partLba bpb before after first needed clusters) :
    EnoughFree partLba bpb before needed := by
  have hnodup : (clusters.map UInt32.toNat).Nodup :=
    hallocated.nodup.map fun _ _ hsame ↦ UInt32.toNat_inj.mp hsame
  have hsubset : clusters.map UInt32.toNat ⊆
      freeClusters partLba bpb before 2 (dataClusters bpb) := by
    intro number hnumber
    obtain ⟨clus, hclus, rfl⟩ := List.mem_map.mp hnumber
    obtain ⟨htwo, hinside⟩ := hallocated.inside clus hclus
    have hlt := (inside_iff hperClus).mp hinside
    unfold freeClusters
    rw [List.mem_filter, List.mem_range'_1, UInt32.ofNat_toNat]
    exact ⟨⟨htwo, by omega⟩, decide_eq_true (hallocated.free clus hclus)⟩
  have hlength := (List.subperm_of_subset hnodup hsubset).length_le
  rwa [List.length_map, hallocated.length] at hlength

/-- Where `fat32_allocate_chain_sector_all` returns a chain on a formatted volume, it is one of free
clusters of the volume, with the other entries unchanged, just where enough of these were free. -/
theorem allocated_iff (haccepted : (formatBpb totalSectors).Accepted)
    (hrun : run answer (fat32AllocateChainSectorAll partLba (formatBpb totalSectors) needed) disk =
      (.ok first, ended)) :
    (∃ clusters, Allocated partLba (formatBpb totalSectors) disk.sectors ended.sectors first needed
      clusters) ↔ EnoughFree partLba (formatBpb totalSectors) disk.sectors needed := by
  have hperClus : (formatBpb totalSectors).secPerClus ≠ 0 := haccepted.2.1
  obtain ⟨hgeometry, -, htable, hsmall⟩ := geometry_format haccepted
  constructor
  · rintro ⟨clusters, hallocated⟩
    exact enoughFree_of_allocated hperClus hallocated
  · intro henough
    obtain ⟨clusters, final, hlength, hpartway⟩ :=
      allocateChain_ok hgeometry hperClus htable hsmall henough hrun
    refine ⟨clusters, hpartway.chain, hlength, hpartway.nodup, hpartway.free, hpartway.agree,
      hpartway.others, fun clus hclus ↦ ?_⟩
    obtain ⟨hfrom, hto⟩ := hpartway.inside clus hclus
    exact ⟨hfrom, (inside_iff hperClus).mpr (by omega)⟩

/-- The first sector of the table of a volume that was just formatted. -/
def formattedTable : Sector :=
  setWord (setWord (setWord zeroBlock 0 0x0FFFFFF8) 4 0x0FFFFFFF) 8 0x0FFFFFFF

/-- A volume of forty sectors that was just formatted: it has six clusters, and five are free. -/
def smallVolume : Disk where
  sectors := fun lba ↦ if lba = 32 ∨ lba = 33 then formattedTable else zeroBlock
  fails := fun _ _ ↦ false
  accesses := fun _ ↦ 0
  written := fun _ ↦ []

/-- Two clusters of the small volume are allocated. -/
theorem allocated_small : ∃ ended clusters,
    run answer (fat32AllocateChainSectorAll 0 (formatBpb 40) 2) smallVolume = (.ok 3, ended) ∧
      Allocated 0 (formatBpb 40) smallVolume.sectors ended.sectors 3 2 clusters := by
  have hresult :
    (run answer (fat32AllocateChainSectorAll 0 (formatBpb 40) 2) smallVolume).1.toOption =
      some 3 := by decide +kernel
  obtain ⟨ended, hrun⟩ := exists_run hresult
  have henough : EnoughFree 0 (formatBpb 40) smallVolume.sectors 2 := by
    change (2 : UInt32).toNat ≤ (freeClusters 0 (formatBpb 40) smallVolume.sectors 2
      (dataClusters (formatBpb 40))).length
    decide +kernel
  obtain ⟨clusters, hallocated⟩ := (allocated_iff (by decide) hrun).mpr henough
  exact ⟨ended, clusters, hrun, hallocated⟩

/-- Six clusters of the small volume are allocated although only five of it are free: the sector of
the last one is behind the end of the volume. -/
theorem not_allocated : ¬∀ (totalSectors partLba needed first : UInt32) (disk ended : Disk),
    (formatBpb totalSectors).Accepted →
      run answer (fat32AllocateChainSectorAll partLba (formatBpb totalSectors) needed) disk =
        (.ok first, ended) →
      ∃ clusters, Allocated partLba (formatBpb totalSectors) disk.sectors ended.sectors first needed
        clusters := by
  intro hall
  have hresult :
    (run answer (fat32AllocateChainSectorAll 0 (formatBpb 40) 6) smallVolume).1.toOption =
      some 3 := by decide +kernel
  obtain ⟨ended, hrun⟩ := exists_run hresult
  obtain ⟨clusters, hallocated⟩ := hall 40 0 6 3 smallVolume ended (by decide) hrun
  have henough : (6 : UInt32).toNat ≤ (freeClusters 0 (formatBpb 40) smallVolume.sectors 2
      (dataClusters (formatBpb 40))).length := enoughFree_of_allocated (by decide) hallocated
  revert henough
  decide +kernel

/-- A chain that was allocated on a formatted volume and freed again leaves the values of all
entries as they were, in the first copy of the table and in every one that agreed with it. -/
theorem freed_of_allocated {bpb : Bpb} (hformat : bpb = formatBpb totalSectors)
    (haccepted : bpb.Accepted) (henough : EnoughFree partLba bpb disk.sectors needed)
    (hneeded : needed.toNat ≤ 16777216)
    (hallocate : run answer (fat32AllocateChainSectorAll partLba bpb needed) disk =
      (.ok first, middle))
    (hfree : run answer (fat32FreeChainSectorAll partLba bpb first) middle = (.ok (), ended)) :
    ∀ copy < bpb.numFats, ∀ clus, InTable bpb clus →
      entryValue partLba bpb disk.sectors copy clus = entryValue partLba bpb disk.sectors 0 clus →
        entryValue partLba bpb ended.sectors copy clus =
          entryValue partLba bpb disk.sectors copy clus := by
  intro copy hcopy clus hclus hagree
  obtain ⟨hgeometry, -, htable, hsmall⟩ := geometry_format (hformat ▸ haccepted)
  rw [← hformat] at hgeometry htable hsmall
  obtain ⟨clusters, final, hlength, hpartway⟩ :=
    allocateChain_ok hgeometry haccepted.2.1 htable hsmall henough hallocate
  have hfreed : entryValue partLba bpb ended.sectors copy clus =
      if clus ∈ clusters then 0 else entryValue partLba bpb middle.sectors copy clus :=
    freeChain_ok hgeometry hpartway.chain hpartway.nodup
      (fun other hother ↦ (hpartway.inside other hother).imp_right htable.trans_lt')
      (by omega) hfree
      copy hcopy clus hclus
  rw [hfreed]
  by_cases hmem : clus ∈ clusters
  · rw [if_pos hmem, hagree]
    exact (hpartway.free clus hmem).symm
  · rw [if_neg hmem]
    unfold entryValue
    rw [hpartway.others copy hcopy clus hclus hmem]

/-- Two clusters of the small volume are allocated and freed. -/
theorem freed_of_allocated_small : ∃ middle ended,
    run answer (fat32AllocateChainSectorAll 0 (formatBpb 40) 2) smallVolume = (.ok 3, middle) ∧
      run answer (fat32FreeChainSectorAll 0 (formatBpb 40) 3) middle = (.ok (), ended) ∧
        entryValue 0 (formatBpb 40) ended.sectors 1 4 =
          entryValue 0 (formatBpb 40) smallVolume.sectors 1 4 := by
  have hresult :
    (run answer (fat32AllocateChainSectorAll 0 (formatBpb 40) 2) smallVolume).1.toOption =
      some 3 := by decide +kernel
  have hfreed : (run answer (fat32FreeChainSectorAll 0 (formatBpb 40) 3)
      (run answer (fat32AllocateChainSectorAll 0 (formatBpb 40) 2) smallVolume).2).1.toOption =
        some () := by decide +kernel
  obtain ⟨middle, hallocate⟩ := exists_run hresult
  rw [hallocate] at hfreed
  obtain ⟨ended, hfree⟩ := exists_run hfreed
  have henough : EnoughFree 0 (formatBpb 40) smallVolume.sectors 2 := by
    unfold EnoughFree
    decide +kernel
  exact ⟨middle, ended, hallocate, hfree, freed_of_allocated rfl (by decide) henough (by decide)
    hallocate hfree 1 (by decide) 4 (by unfold InTable; decide) rfl⟩

end Format

end EynOS.Storage.Fat32
