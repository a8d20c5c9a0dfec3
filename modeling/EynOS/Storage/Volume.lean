import EynOS.Storage.FlatDisk

/-!
# Volumes and chains

What the blocks of a file system are for: the bits of block 0 and of the bitmap are set, and the
candidates of the allocator are not used (`Volume`). A block that is kept by a file or a directory
is used and no block of the bitmap (`Kept`), so allocating a block gives another one
(`Volume.alloc`) and writing it changes no bit (`Volume.write`).

`Links` are the blocks from one block of a chain up to another. A chain ends, so no block is twice
in it (`Links.nodup`).
-/

namespace EynOS.Storage

open Foundation Interaction

/-! ### Volumes -/

def bitmapBlock (sb : Superblock) (block : ℕ) : UInt32 :=
  sb.freeBlockMap + UInt32.ofNat (block / bitsPerBlock)

/-- The superblock and the bitmap are used, and the candidates of the allocator are not. -/
structure Volume (sb : Superblock) (flat : Flat) : Prop where
  superblock : superblockOf (flat.block 0) = sb
  zero : flat.used sb 0 = true
  bitmap : ∀ block < sb.totalBlocks.toNat, (bitmapBlock sb block).toNat < sb.totalBlocks.toNat ∧
    bitmapBlock sb block ≠ 0 ∧ flat.used sb (bitmapBlock sb block).toNat = true
  reserved : flat.Reserved sb
  inside : 0 < sb.totalBlocks.toNat

def NoBitmap (sb : Superblock) (block : UInt32) : Prop :=
  ∀ other < sb.totalBlocks.toNat, block ≠ bitmapBlock sb other

/-- A block of a file or of a directory. -/
structure Kept (sb : Superblock) (flat : Flat) (block : UInt32) : Prop where
  nonzero : block ≠ 0
  inside : block.toNat < sb.totalBlocks.toNat
  used : flat.used sb block.toNat = true
  noBitmap : NoBitmap sb block

section Volume

variable {sb : Superblock} {flat after : Flat} {block other : UInt32} {data : Sector}

/-- Writing a block that is not in the bitmap changes no bit. -/
theorem used_write (hblock : NoBitmap sb block) {number : ℕ}
    (hnumber : number < sb.totalBlocks.toNat) :
    (flat.write (blockToLba block) data).used sb number = flat.used sb number := by
  have hother : bitmapBlock sb number ≠ block := (hblock number hnumber).symm
  change bitmapBit ((flat.write (blockToLba block) data).block (bitmapBlock sb number)) _ = _
  rw [Flat.block_write_of_ne hother]
  rfl

/-- Writing a block that is not in the bitmap keeps a volume. -/
theorem Volume.write (hvolume : Volume sb flat) (hzero : block ≠ 0) (hblock : NoBitmap sb block)
    (data : Sector) : Volume sb (flat.write (blockToLba block) data) where
  superblock := by
    rw [Flat.block_write_of_ne hzero.symm]
    exact hvolume.superblock
  zero := by
    rw [used_write hblock hvolume.inside]
    exact hvolume.zero
  bitmap number hnumber := by
    obtain ⟨hinside, hnonzero, hused⟩ := hvolume.bitmap number hnumber
    rw [used_write hblock hinside]
    exact ⟨hinside, hnonzero, hused⟩
  reserved hvalid := by
    obtain ⟨hnodup, hfree⟩ := hvolume.reserved hvalid
    refine ⟨hnodup, fun candidate hcandidate ↦ ?_⟩
    obtain ⟨hinside, hclear⟩ := hfree candidate hcandidate
    rw [used_write hblock hinside]
    exact ⟨hinside, hclear⟩
  inside := hvolume.inside

/-- The bits stay where the bitmap does. -/
theorem used_congr (hsame : ∀ block, ¬NoBitmap sb block → after.block block = flat.block block)
    {number : ℕ} (hnumber : number < sb.totalBlocks.toNat) :
    after.used sb number = flat.used sb number := by
  have hblock : after.block (bitmapBlock sb number) = flat.block (bitmapBlock sb number) :=
    hsame _ fun hnoBitmap ↦ hnoBitmap number hnumber rfl
  change bitmapBit (after.block (bitmapBlock sb number)) _ = _
  rw [hblock]
  rfl

/-- A volume stays where the superblock, the bitmap and the candidates do. -/
theorem Volume.congr (hvolume : Volume sb flat) (hzero : after.block 0 = flat.block 0)
    (hsame : ∀ block, ¬NoBitmap sb block → after.block block = flat.block block)
    (hcache : after.freeBlockCache = flat.freeBlockCache)
    (hvalid : after.freeBlockCacheValid = flat.freeBlockCacheValid) : Volume sb after where
  superblock := hzero ▸ hvolume.superblock
  zero := (used_congr hsame hvolume.inside).trans hvolume.zero
  bitmap number hnumber := by
    obtain ⟨hinside, hnonzero, hused⟩ := hvolume.bitmap number hnumber
    exact ⟨hinside, hnonzero, (used_congr hsame hinside).trans hused⟩
  reserved htrue := by
    rw [hvalid] at htrue
    obtain ⟨hnodup, hfree⟩ := hvolume.reserved htrue
    rw [hcache]
    refine ⟨hnodup, fun candidate hcandidate ↦ ?_⟩
    obtain ⟨hinside, hclear⟩ := hfree candidate hcandidate
    exact ⟨hinside, (used_congr hsame hinside).trans hclear⟩
  inside := hvolume.inside

theorem Kept.congr (hkept : Kept sb flat block)
    (hsame : ∀ block, ¬NoBitmap sb block → after.block block = flat.block block) :
    Kept sb after block :=
  ⟨hkept.nonzero, hkept.inside, (used_congr hsame hkept.inside).trans hkept.used, hkept.noBitmap⟩

/-- Writing a block that is not in the bitmap keeps the others. -/
theorem Kept.write (hkept : Kept sb flat other) (hblock : NoBitmap sb block) :
    Kept sb (flat.write (blockToLba block) data) other where
  nonzero := hkept.nonzero
  inside := hkept.inside
  used := by
    rw [used_write hblock hkept.inside]
    exact hkept.used
  noBitmap := hkept.noBitmap

/-- A block outside of the bitmap keeps its bytes where a bit is changed. -/
theorem block_mark {value : Bool} {number : ℕ} (hinside : number < sb.totalBlocks.toNat)
    (hsectors : after.sectors = markBlock sb flat.sectors number value)
    (hother : NoBitmap sb other) :
    after.block other = flat.block other := by
  rw [Flat.block, Flat.block, hsectors, markBlock]
  exact Function.update_of_ne (fun heq ↦ hother number hinside (blockToLba_inj.mp heq)) _ _

/-- The bits where one is changed. -/
theorem used_mark {value : Bool} {number : ℕ} (hnumber : number < sb.totalBlocks.toNat)
    (hsectors : after.sectors = markBlock sb flat.sectors number value) {bit : ℕ}
    (hbit : bit < sb.totalBlocks.toNat) :
    after.used sb bit = if bit = number then value else flat.used sb bit := by
  have htotal := sb.totalBlocks.toNat_lt
  rw [Flat.used, hsectors, used_markBlock sb _ (hnumber.trans htotal) (hbit.trans htotal)]
  rfl

/-- A change of bits that leaves those of some blocks set: the bytes outside of the bitmap stay, and
so do the volume and the blocks whose bits are kept. -/
structure Remarked (sb : Superblock) (spared : UInt32 → Prop) (flat after : Flat) : Prop where
  volume : Volume sb after
  same : ∀ block, NoBitmap sb block → after.block block = flat.block block
  kept : ∀ block, spared block → Kept sb flat block → Kept sb after block

/-- Nothing changes where no byte does. -/
theorem remarked_same {spared : UInt32 → Prop} (hvolume : Volume sb flat)
    (hreserved : after.Reserved sb) (hsectors : after.sectors = flat.sectors) :
    Remarked sb spared flat after := by
  have hblock (block : UInt32) : after.block block = flat.block block := by
    rw [Flat.block, Flat.block, hsectors]
  have hused (number : ℕ) : after.used sb number = flat.used sb number := by
    rw [Flat.used, Flat.used, hsectors]
  refine ⟨⟨hblock 0 ▸ hvolume.superblock, (hused 0).trans hvolume.zero, fun number hnumber ↦ ?_,
    hreserved, hvolume.inside⟩, fun block _ ↦ hblock block, fun block _ hkept ↦ ?_⟩
  · rw [hused]
    exact hvolume.bitmap number hnumber
  · exact ⟨hkept.nonzero, hkept.inside, (hused _).trans hkept.used, hkept.noBitmap⟩

/-- The bit of one block changes, and the superblock and the bitmap stay used. -/
theorem remarked_mark {spared : UInt32 → Prop} {value : Bool} (hvolume : Volume sb flat)
    (hreserved : after.Reserved sb) (hinside : block.toNat < sb.totalBlocks.toNat)
    (hsectors : after.sectors = markBlock sb flat.sectors block.toNat value)
    (hzero : value = true ∨ block ≠ 0) (hbitmap : value = true ∨ NoBitmap sb block)
    (hspared : ∀ other, spared other → value = true ∨ other ≠ block) :
    Remarked sb spared flat after := by
  have hkeeps (other : UInt32) (hother : other.toNat < sb.totalBlocks.toNat)
      (hused : flat.used sb other.toNat = true) (hne : value = true ∨ other ≠ block) :
      after.used sb other.toNat = true := by
    rw [used_mark hinside hsectors hother]
    split
    · rename_i heq
      exact hne.resolve_right (absurd (UInt32.toNat_inj.mp heq))
    · exact hused
  have hsame (other : UInt32) (hother : NoBitmap sb other) : after.block other = flat.block other :=
    block_mark hinside hsectors hother
  refine ⟨⟨?_, ?_, fun number hnumber ↦ ?_, hreserved, hvolume.inside⟩, hsame,
    fun other hother hkept ↦ ?_⟩
  · rw [hsame 0 fun number hnumber ↦ (hvolume.bitmap number hnumber).2.1.symm]
    exact hvolume.superblock
  · exact hkeeps 0 hvolume.inside hvolume.zero (hzero.imp_right Ne.symm)
  · obtain ⟨hmapInside, hnonzero, hused⟩ := hvolume.bitmap number hnumber
    exact ⟨hmapInside, hnonzero, hkeeps _ hmapInside hused
      (hbitmap.imp_right fun hblock ↦ (hblock number hnumber).symm)⟩
  · exact ⟨hkept.nonzero, hkept.inside, hkeeps other hkept.inside hkept.used (hspared other hother),
      hkept.noBitmap⟩

/-- `eynfs_alloc_block` on a volume: it returns a block that no file or directory has and keeps
those that they have, or it fails. -/
theorem Volume.alloc (hvolume : Volume sb flat) :
    ∃ after, Remarked sb (fun _ ↦ True) flat after ∧
      ((∃ block, run answerFlat (allocBlock sb) flat = (.ok block, after) ∧ Kept sb after block ∧
          ¬Kept sb flat block) ∨
        run answerFlat (allocBlock sb) flat = (.error (.error (-1)), after)) := by
  obtain ⟨after, hreserved, hruns⟩ := flat_allocBlock hvolume.reserved
  refine ⟨after, ?_⟩
  rcases hruns with ⟨block, hrun, hinside, hclear, hsectors⟩ | ⟨hrun, hsectors⟩
  · refine ⟨remarked_mark hvolume hreserved hinside hsectors (Or.inl rfl) (Or.inl rfl)
      fun _ _ ↦ Or.inl rfl, Or.inl ⟨block, hrun, ⟨?_, hinside, ?_, fun number hnumber heq ↦ ?_⟩,
        fun hkept ↦ absurd (hclear.symm.trans hkept.used) Bool.false_ne_true⟩⟩
    · rintro rfl
      exact absurd (hclear.symm.trans hvolume.zero) Bool.false_ne_true
    · rw [used_mark hinside hsectors hinside, if_pos rfl]
    · have hused := (hvolume.bitmap number hnumber).2.2
      rw [← heq, hclear] at hused
      exact absurd hused Bool.false_ne_true
  · exact ⟨remarked_same hvolume hreserved hsectors, Or.inr hrun⟩

/-- `eynfs_free_block` of a block outside of the bitmap keeps the others. -/
theorem Volume.free (hvolume : Volume sb flat) (hzero : block ≠ 0) (hblock : NoBitmap sb block) :
    ∃ after, Remarked sb (· ≠ block) flat after ∧
      (run answerFlat (freeBlock sb block) flat = (.ok (), after) ∨
        run answerFlat (freeBlock sb block) flat = (.error (.error (-1)), after)) := by
  obtain ⟨after, hreserved, hruns⟩ := flat_freeBlock hvolume.reserved block
  refine ⟨after, ?_⟩
  rcases hruns with ⟨hrun, hinside, hsectors⟩ | ⟨hrun, hsectors⟩
  · exact ⟨remarked_mark hvolume hreserved hinside hsectors (Or.inr hzero) (Or.inr hblock)
      fun _ hother ↦ Or.inr hother, Or.inl hrun⟩
  · exact ⟨remarked_same hvolume hreserved hsectors, Or.inr hrun⟩

end Volume

/-! ### Chains -/

/-- Blocks that each link to the next one, from a first block up to where the last one links to. -/
def Links (flat : Flat) : UInt32 → List UInt32 → UInt32 → Prop
  | first, [], last => first = last
  | first, block :: blocks, last =>
    block = first ∧ first ≠ 0 ∧ Links flat (nextBlock (flat.block first)) blocks last

/-- Whether blocks are linked is computed block by block. -/
instance Links.decidable (flat : Flat) : (first : UInt32) → (blocks : List UInt32) →
    (last : UInt32) → Decidable (Links flat first blocks last)
  | first, [], last => inferInstanceAs (Decidable (first = last))
  | first, block :: blocks, last =>
    have := Links.decidable flat (nextBlock (flat.block first)) blocks last
    inferInstanceAs (Decidable (block = first ∧ first ≠ 0 ∧ _))

section Links

variable {flat after : Flat} {first middle last block : UInt32} {blocks others : List UInt32}

theorem links_append : Links flat first (blocks ++ others) last ↔
    ∃ middle, Links flat first blocks middle ∧ Links flat middle others last := by
  induction blocks generalizing first with
  | nil => exact ⟨fun hlinks ↦ ⟨first, rfl, hlinks⟩, fun ⟨_, heq, hlinks⟩ ↦ heq ▸ hlinks⟩
  | cons block blocks ih =>
    simp only [List.cons_append, Links, ih]
    exact ⟨fun ⟨heq, hfirst, middle, hblocks, hrest⟩ ↦ ⟨middle, ⟨heq, hfirst, hblocks⟩, hrest⟩,
      fun ⟨middle, ⟨heq, hfirst, hblocks⟩, hrest⟩ ↦ ⟨heq, hfirst, middle, hblocks, hrest⟩⟩

/-- A chain has one list of blocks. -/
theorem Links.unique (hblocks : Links flat first blocks 0) (hothers : Links flat first others 0) :
    blocks = others := by
  induction blocks generalizing first others with
  | nil =>
    cases others with
    | nil => rfl
    | cons other others => exact absurd hblocks hothers.2.1
  | cons block blocks ih =>
    obtain ⟨rfl, hfirst, hrest⟩ := hblocks
    cases others with
    | nil => exact absurd hothers hfirst
    | cons other others => rw [hothers.1, ih hrest hothers.2.2]

/-- No block is twice in a chain. -/
theorem Links.nodup (hblocks : Links flat first blocks 0) : blocks.Nodup := by
  induction blocks generalizing first with
  | nil => exact List.nodup_nil
  | cons block blocks ih =>
    obtain ⟨rfl, hfirst, hrest⟩ := hblocks
    refine List.nodup_cons.mpr ⟨fun hmem ↦ ?_, ih hrest⟩
    obtain ⟨before, behind, rfl⟩ := List.append_of_mem hmem
    obtain ⟨middle, -, hagain⟩ := links_append.mp hrest
    obtain rfl : block = middle := hagain.1
    have heq : block :: behind = block :: (before ++ block :: behind) :=
      hagain.unique ⟨rfl, hfirst, hrest⟩
    have hlength := congrArg List.length heq
    simp at hlength
    omega

/-- The blocks of a chain are not zero. -/
theorem Links.nonzero (hblocks : Links flat first blocks last) : ∀ block ∈ blocks, block ≠ 0 := by
  induction blocks generalizing first with
  | nil => exact fun _ hmem ↦ absurd hmem List.not_mem_nil
  | cons block blocks ih =>
    obtain ⟨rfl, hfirst, hrest⟩ := hblocks
    exact List.forall_mem_cons.mpr ⟨hfirst, ih hrest⟩

/-- A chain stays where its blocks do. -/
theorem Links.congr (hblocks : Links flat first blocks last)
    (hsame : ∀ block ∈ blocks, after.block block = flat.block block) :
    Links after first blocks last := by
  induction blocks generalizing first with
  | nil => exact hblocks
  | cons block blocks ih =>
    obtain ⟨rfl, hfirst, hrest⟩ := hblocks
    obtain ⟨hblock, hother⟩ := List.forall_mem_cons.mp hsame
    refine ⟨rfl, hfirst, ?_⟩
    rw [hblock]
    exact ih hrest hother

end Links

/-! ### A drive that was formatted -/

/-- A superblock of 64 blocks, with the bitmap in block 1 and the root directory in block 3. -/
def freshSuperblock : Superblock where
  magic := EYNFS_MAGIC
  blockSize := UInt32.ofNat EYNFS_BLOCK_SIZE
  totalBlocks := 64
  rootDirBlock := 3
  freeBlockMap := 1

/-- The sectors of a drive with that superblock, the bits of whose first four blocks are set. -/
def freshSectors (lba : UInt32) : Sector :=
  if lba = blockToLba 0 then
    setWord (setWord (setWord (setWord (setWord zeroBlock 0 EYNFS_MAGIC) 8
      (UInt32.ofNat EYNFS_BLOCK_SIZE)) 12 64) 16 3) 20 1
  else if lba = blockToLba 1 then copyInto zeroBlock 0 1 fun _ ↦ 15
  else zeroBlock

def freshDrive : Disk where
  sectors := freshSectors
  fails := fun _ _ ↦ false
  accesses := fun _ ↦ 0
  written := fun _ ↦ []

/-- That drive with one candidate of the allocator. -/
def freshState : State :=
  { State.boot (fun _ ↦ freshDrive) 16 with freeBlockCache := [9], freeBlockCacheValid := true }

/-- Blocks of a small file system have their bits in its first bitmap block. -/
theorem bitmapBlock_fresh {block : ℕ} (hblock : block < 64) :
    bitmapBlock freshSuperblock block = 1 := by
  have hfirst : block / bitsPerBlock = 0 :=
    Nat.div_eq_of_lt (hblock.trans (by decide))
  rw [bitmapBlock, hfirst]
  rfl

theorem volume_fresh : Volume freshSuperblock (freshState.flat 0) where
  superblock := by decide +kernel
  zero := by decide +kernel
  bitmap block hblock := by
    rw [bitmapBlock_fresh hblock]
    decide +kernel
  reserved _ := by
    have hfree : (9 : UInt32).toNat < freshSuperblock.totalBlocks.toNat ∧
        (freshState.flat 0).used freshSuperblock (9 : UInt32).toNat = false := by decide +kernel
    exact ⟨List.nodup_singleton 9, List.forall_mem_singleton.mpr hfree⟩
  inside := by decide

/-- Blocks behind the bitmap are kept where their bits are set. -/
theorem kept_of_used {flat : Flat} {block : UInt32} (hblock : 1 < block.toNat)
    (hinside : block.toNat < 64) (hused : flat.used freshSuperblock block.toNat = true) :
    Kept freshSuperblock flat block where
  nonzero := by
    rintro rfl
    exact absurd hblock (by decide)
  inside := hinside
  used := hused
  noBitmap other hother := by
    rw [bitmapBlock_fresh hother]
    rintro rfl
    exact absurd hblock (by decide)

/-- The root directory has the third block. -/
theorem kept_fresh : Kept freshSuperblock (freshState.flat 0) 3 :=
  kept_of_used (by decide) (by decide) (by decide +kernel)

end EynOS.Storage
