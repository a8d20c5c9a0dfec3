import EynOS.Storage.Layout
import Mathlib.Data.List.Forall2
import Mathlib.Data.List.GetD
import Mathlib.Data.List.TakeWhile

/-!
# Reading back what was stored

The fields of the on-disk structures of EYNFS are read back as they were stored, and storing one
leaves the others alone: words (`wordAt_setWord`), the link of a block, the entries of a directory
block (`entryAt_setEntry`, `entriesOf_dirBlock`) and the fields of an entry.

`SameEntry` is when two entries say the same: the bytes of a name behind its end do not count.
-/

namespace EynOS.Storage

open Foundation

/-! ### Bytes and words -/

section Bytes

variable {size : ℕ} {bytes other : Fin size → UInt8} {offset count index : ℕ}

theorem bytes_ext (hbytes : ∀ index < size, byteAt bytes index = byteAt other index) :
    bytes = other := by
  funext index
  have hbyte := hbytes index.val index.isLt
  rwa [byteAt, byteAt, dif_pos index.isLt, dif_pos index.isLt] at hbyte

theorem byteAt_copyInto (bytes : Fin size → UInt8) {offset count index : ℕ}
    (source : ℕ → UInt8) (hindex : index < size) :
    byteAt (copyInto bytes offset count source) index =
      if offset ≤ index ∧ index < offset + count then source (index - offset)
      else byteAt bytes index := by
  rw [byteAt, byteAt, dif_pos hindex, dif_pos hindex]
  rfl

theorem byteAt_copyInto_of_outside (bytes : Fin size → UInt8) {source : ℕ → UInt8}
    (houtside : index < offset ∨ offset + count ≤ index) :
    byteAt (copyInto bytes offset count source) index = byteAt bytes index := by
  by_cases hindex : index < size
  · rw [byteAt_copyInto bytes source hindex, if_neg (by omega)]
  · rw [byteAt, byteAt, dif_neg hindex, dif_neg hindex]

theorem byteAt_copyInto_of_inside (bytes : Fin size → UInt8) {source : ℕ → UInt8}
    (hsize : index < size) (hfrom : offset ≤ index) (hto : index < offset + count) :
    byteAt (copyInto bytes offset count source) index = source (index - offset) := by
  rw [byteAt_copyInto bytes source hsize, if_pos ⟨hfrom, hto⟩]

theorem wordAt_congr {other : Fin size → UInt8} {offset : ℕ}
    (hbytes : ∀ byte < 4, byteAt bytes (index + byte) = byteAt other (offset + byte)) :
    wordAt bytes index = wordAt other offset := by
  have hfirst := hbytes 0 (by decide)
  rw [Nat.add_zero, Nat.add_zero] at hfirst
  rw [wordAt, wordAt, hfirst, hbytes 1 (by decide), hbytes 2 (by decide), hbytes 3 (by decide)]

theorem wordAt_copyInto_of_outside (bytes : Fin size → UInt8) {source : ℕ → UInt8}
    (houtside : index + 4 ≤ offset ∨ offset + count ≤ index) :
    wordAt (copyInto bytes offset count source) index = wordAt bytes index :=
  wordAt_congr fun byte hbyte ↦ byteAt_copyInto_of_outside bytes (by omega)

/-- A word is read back. -/
@[simp] theorem wordAt_setWord (bytes : Fin size → UInt8) {index : ℕ} (word : UInt32)
    (hsize : index + 4 ≤ size) : wordAt (setWord bytes index word) index = word := by
  have hbyte (byte : ℕ) (hbyte : byte < 4) :
      (byteAt (setWord bytes index word) (index + byte)).toNat =
        word.toNat / 256 ^ byte % 256 := by
    rw [setWord, byteAt_copyInto_of_inside bytes (by omega) (by omega) (by omega),
      Nat.add_sub_cancel_left, wordByte]
    exact UInt8.toNat_ofNat'
  have hword := word.toNat_lt
  have hfirst := hbyte 0 (by decide)
  rw [Nat.add_zero] at hfirst
  rw [wordAt, hfirst, hbyte 1 (by decide), hbyte 2 (by decide), hbyte 3 (by decide)]
  refine UInt32.toNat_inj.mp ?_
  rw [UInt32.toNat_ofNat']
  omega

end Bytes

/-! ### Links -/

section Links

variable {sector : Sector} {slot : ℕ} {next : UInt32}

/-- The link of a block is read back. -/
@[simp] theorem nextBlock_setNext (sector : Sector) (next : UInt32) :
    nextBlock (setNext sector next) = next :=
  wordAt_setWord sector next (by decide)

/-- An entry is not in the link. -/
@[simp] theorem nextBlock_setEntry (sector : Sector) (slot : ℕ) (entry : DirEntry) :
    nextBlock (setEntry sector slot entry) = nextBlock sector :=
  wordAt_copyInto_of_outside sector (Or.inl (Nat.le_add_right _ _))

/-- The data of a file is not in the link. -/
@[simp] theorem nextBlock_setData (sector : Sector) (position : ℕ) (data : List UInt8) :
    nextBlock (setData sector position data) = nextBlock sector :=
  wordAt_copyInto_of_outside sector (Or.inl (Nat.le_add_right _ _))

end Links

/-! ### The entries of a block -/

section Entries

variable {sector : Sector} {slot other : ℕ} {next : UInt32} {entry : DirEntry}

theorem byteAt_entryAt (sector : Sector) (slot : ℕ) {index : ℕ} (hindex : index < dirEntrySize) :
    byteAt (entryAt sector slot) index = byteAt sector (4 + dirEntrySize * slot + index) := by
  rw [byteAt, dif_pos hindex]
  rfl

theorem slot_inside {index : ℕ} (hslot : slot < entriesPerBlock) (hindex : index < dirEntrySize) :
    4 + dirEntrySize * slot + index < EYNFS_BLOCK_SIZE := by
  change slot < 9 at hslot
  change index < 52 at hindex
  change 4 + 52 * slot + index < 512
  omega

theorem slot_apart {index : ℕ} (hother : other ≠ slot) (hindex : index < dirEntrySize) :
    4 + dirEntrySize * other + index < 4 + dirEntrySize * slot ∨
      4 + dirEntrySize * slot + dirEntrySize ≤ 4 + dirEntrySize * other + index := by
  rw [dirEntrySize] at hindex ⊢
  omega

/-- The entries of a block after one was stored. -/
theorem entryAt_setEntry (sector : Sector) (entry : DirEntry) (hslot : slot < entriesPerBlock) :
    entryAt (setEntry sector slot entry) other =
      if other = slot then entry else entryAt sector other := by
  refine bytes_ext fun index hindex ↦ ?_
  rw [byteAt_entryAt _ _ hindex, setEntry]
  split
  · rename_i heq
    rw [heq, byteAt_copyInto_of_inside _ (slot_inside hslot hindex) (by omega) (by omega),
      Nat.add_sub_cancel_left]
  · rename_i hother
    rw [byteAt_copyInto_of_outside _ (slot_apart hother hindex), byteAt_entryAt _ _ hindex]

theorem entryAt_setNext (sector : Sector) (next : UInt32) :
    entryAt (setNext sector next) slot = entryAt sector slot := by
  refine bytes_ext fun index hindex ↦ ?_
  rw [byteAt_entryAt _ _ hindex, byteAt_entryAt _ _ hindex]
  exact byteAt_copyInto_of_outside _ (by omega)

@[simp] theorem entryAt_zeroBlock (slot : ℕ) : entryAt zeroBlock slot = emptyEntry := by
  funext index
  rw [entryAt, byteAt]
  split <;> rfl

/-- Storing some entries in the slots from one on. -/
theorem foldl_setEntry (entries : List DirEntry) (start : ℕ) (sector : Sector)
    (hsize : start + entries.length ≤ entriesPerBlock) :
    nextBlock ((entries.zipIdx start).foldl
        (fun sector entry ↦ setEntry sector entry.2 entry.1) sector) = nextBlock sector ∧
      ∀ slot, entryAt ((entries.zipIdx start).foldl
          (fun sector entry ↦ setEntry sector entry.2 entry.1) sector) slot =
        if start ≤ slot ∧ slot < start + entries.length then entries.getD (slot - start) emptyEntry
        else entryAt sector slot := by
  induction entries generalizing start sector with
  | nil => exact ⟨rfl, fun slot ↦ by rw [if_neg (by rw [List.length_nil]; omega)]; rfl⟩
  | cons entry entries ih =>
    rw [List.length_cons] at hsize
    rw [List.zipIdx_cons, List.foldl_cons]
    obtain ⟨hlink, hslots⟩ := ih (start + 1) (setEntry sector start entry) (by omega)
    refine ⟨hlink.trans (nextBlock_setEntry _ _ _), fun slot ↦ ?_⟩
    rw [hslots, entryAt_setEntry _ _ (by omega), List.length_cons]
    by_cases hfirst : slot = start
    · rw [hfirst, if_neg (by omega), if_pos rfl, if_pos (by omega), Nat.sub_self]
      rfl
    · rw [if_neg hfirst]
      by_cases hinside : start + 1 ≤ slot ∧ slot < start + 1 + entries.length
      · have hindex : slot - start = slot - (start + 1) + 1 := by omega
        rw [if_pos hinside, if_pos (by omega), hindex, List.getD_cons_succ]
      · rw [if_neg hinside, if_neg (by omega)]

/-- The link of a directory block is read back. -/
@[simp] theorem nextBlock_dirBlock (entries : List DirEntry) (next : UInt32) :
    nextBlock (dirBlock entries next) = next := by
  have hsize : 0 + (entries.take entriesPerBlock).length ≤ entriesPerBlock := by
    rw [Nat.zero_add, List.length_take]
    exact Nat.min_le_left _ _
  exact (foldl_setEntry _ 0 _ hsize).1.trans (nextBlock_setNext _ _)

/-- The entries of a directory block are read back. The slots behind them are free. -/
theorem entryAt_dirBlock (entries : List DirEntry) (next : UInt32)
    (hslot : slot < entriesPerBlock) :
    entryAt (dirBlock entries next) slot = entries.getD slot emptyEntry := by
  have hsize : 0 + (entries.take entriesPerBlock).length ≤ entriesPerBlock := by
    rw [Nat.zero_add, List.length_take]
    exact Nat.min_le_left _ _
  refine ((foldl_setEntry _ 0 (setNext zeroBlock next) hsize).2 slot).trans ?_
  rw [entryAt_setNext, entryAt_zeroBlock, Nat.sub_zero, List.length_take,
    List.getD_eq_getElem?_getD,
    List.getD_eq_getElem?_getD, List.getElem?_take_of_lt hslot]
  split
  · rfl
  · rw [List.getElem?_eq_none (by omega)]
    rfl

/-- A number of slots with some entries, and free slots behind them. -/
def padded (count : ℕ) (entries : List DirEntry) : List DirEntry :=
  (entries ++ List.replicate count emptyEntry).take count

/-- The slots by their number. -/
theorem getElem?_padded (count : ℕ) (entries : List DirEntry) (slot : ℕ) :
    (padded count entries)[slot]? =
      if slot < count then some (entries.getD slot emptyEntry) else none := by
  rw [padded, List.getElem?_take, List.getD_eq_getElem?_getD]
  split
  · by_cases hinside : slot < entries.length
    · rw [List.getElem?_append_left hinside, List.getElem?_eq_getElem hinside]
      rfl
    · rw [List.getElem?_append_right (Nat.le_of_not_lt hinside),
        List.getElem?_eq_none (Nat.le_of_not_lt hinside), List.getElem?_replicate_of_lt (by omega)]
      rfl
  · rfl

theorem getD_padded {count slot : ℕ} (hslot : slot < count) (entries : List DirEntry) :
    (padded count entries).getD slot emptyEntry = entries.getD slot emptyEntry := by
  rw [List.getD_eq_getElem?_getD, getElem?_padded, if_pos hslot]
  rfl

theorem length_padded (count : ℕ) (entries : List DirEntry) :
    (padded count entries).length = count := by
  rw [padded, List.length_take, List.length_append, List.length_replicate]
  omega

theorem take_padded {count : ℕ} {entries : List DirEntry} (hfits : entries.length ≤ count) :
    (padded count entries).take entries.length = entries := by
  rw [padded, List.take_take, Nat.min_eq_left hfits, List.take_left]

/-- Slots are filled one part after the other. -/
theorem padded_add (count more : ℕ) (entries : List DirEntry) :
    padded (count + more) entries = padded count entries ++ padded more (entries.drop count) := by
  refine List.ext_getElem? fun slot ↦ ?_
  rw [getElem?_padded]
  by_cases hfirst : slot < count
  · rw [List.getElem?_append_left (by rwa [length_padded]), getElem?_padded, if_pos hfirst,
      if_pos (by omega)]
  · rw [List.getElem?_append_right (by rw [length_padded]; omega), getElem?_padded, length_padded,
      List.getD_eq_getElem?_getD, List.getD_eq_getElem?_getD, List.getElem?_drop,
      Nat.add_sub_cancel' (Nat.le_of_not_lt hfirst)]
    exact if_congr (by omega) rfl rfl

/-- The entries of a directory block, with the free slots behind them. -/
theorem entriesOf_dirBlock (entries : List DirEntry) (next : UInt32) :
    entriesOf (dirBlock entries next) = padded entriesPerBlock entries := by
  refine List.ext_getElem? fun slot ↦ ?_
  rw [getElem?_padded, entriesOf, List.getElem?_map]
  split
  · rename_i hslot
    rw [List.getElem?_range hslot, Option.map_some, entryAt_dirBlock _ _ hslot]
  · rename_i hslot
    rw [List.getElem?_eq_none (by rw [List.length_range]; omega)]
    rfl

end Entries

/-! ### Strings -/

theorem cString_eq_self {name : List UInt8} (hname : (0 : UInt8) ∉ name) : cString name = name := by
  rw [cString, List.takeWhile_eq_self_iff]
  intro char hchar
  rw [decide_eq_true_eq]
  rintro rfl
  exact hname hchar

/-! ### The fields of an entry -/

/-- Two entries say the same: they have the same name, and the same bytes behind it. -/
def SameEntry (first second : DirEntry) : Prop :=
  first.name = second.name ∧
    ∀ index < dirEntrySize, EYNFS_NAME_MAX ≤ index → byteAt first index = byteAt second index

/-- A name that is ended in its field. -/
def DirEntry.Terminated (entry : DirEntry) : Prop := entry.name.length < EYNFS_NAME_MAX

instance (entry : DirEntry) : Decidable entry.Terminated :=
  inferInstanceAs (Decidable (entry.name.length < EYNFS_NAME_MAX))

section Fields

variable {first second third entry : DirEntry}

theorem SameEntry.refl (entry : DirEntry) : SameEntry entry entry := ⟨rfl, fun _ _ _ ↦ rfl⟩

/-- Lists of entries say the same where they do slot by slot. -/
theorem forall₂_sameEntry_iff {entries others : List DirEntry} :
    List.Forall₂ SameEntry entries others ↔ entries.length = others.length ∧
      ∀ slot < entries.length,
        SameEntry (entries.getD slot emptyEntry) (others.getD slot emptyEntry) := by
  rw [List.forall₂_iff_get]
  refine and_congr_right fun hlength ↦ forall_congr' fun slot ↦ ?_
  refine ⟨fun hslots hslot ↦ ?_, fun hslots hslot hother ↦ ?_⟩
  · rw [List.getD_eq_getElem _ _ hslot, List.getD_eq_getElem _ _ (hlength ▸ hslot)]
    exact hslots hslot (hlength ▸ hslot)
  · have hsame := hslots hslot
    rw [List.getD_eq_getElem _ _ hslot, List.getD_eq_getElem _ _ hother] at hsame
    exact hsame

theorem type_setContents (entry : DirEntry) (firstBlock size : UInt32) :
    (entry.setContents firstBlock size).type = entry.type := by
  rw [DirEntry.type, DirEntry.setContents, setWord, byteAt_copyInto_of_outside _ (by decide),
    setWord, byteAt_copyInto_of_outside _ (by decide)]
  rfl

/-- A name by its last byte and the bytes before. -/
theorem name_eq (entry : DirEntry) : entry.name =
    if ((List.range 31).map (byteAt entry)).takeWhile (· ≠ 0) = (List.range 31).map (byteAt entry)
    then (List.range 31).map (byteAt entry) ++ [byteAt entry 31].takeWhile (· ≠ 0)
    else ((List.range 31).map (byteAt entry)).takeWhile (· ≠ 0) := by
  rw [DirEntry.name, cString, EYNFS_NAME_MAX, List.range_succ, List.map_append,
    List.takeWhile_append]
  refine if_congr ?_ rfl rfl
  exact ⟨fun hlength ↦ (List.takeWhile_prefix _).eq_of_length hlength, congrArg List.length⟩

/-- Ending a name that is ended changes nothing in what the entry says. -/
theorem sameEntry_terminate (hended : entry.Terminated) : SameEntry entry entry.terminate := by
  have hbefore : (List.range 31).map (byteAt entry.terminate) =
      (List.range 31).map (byteAt entry) := by
    refine List.map_congr_left fun index hindex ↦ byteAt_copyInto_of_outside _ (Or.inl ?_)
    exact List.mem_range.mp hindex
  have hlast : byteAt entry.terminate 31 = 0 :=
    byteAt_copyInto_of_inside _ (by decide) (by decide) (by decide)
  refine ⟨?_, fun index hsize hindex ↦ (byteAt_copyInto_of_outside _ (Or.inr ?_)).symm⟩
  · rw [DirEntry.Terminated] at hended
    rw [name_eq, name_eq, hbefore, hlast]
    rw [name_eq] at hended
    split
    · rename_i hwhole
      rw [if_pos hwhole, List.length_append, List.length_map, List.length_range] at hended
      have hzero : byteAt entry 31 = 0 := by
        by_contra hbyte
        rw [List.takeWhile_cons_of_pos (by simpa using hbyte)] at hended
        exact absurd hended (by simp [EYNFS_NAME_MAX])
      rw [hzero]
    · rfl
  · exact hindex

theorem terminated_of_last (hlast : byteAt entry 31 = 0) : entry.Terminated := by
  rw [DirEntry.Terminated, name_eq, hlast]
  split
  · simp [EYNFS_NAME_MAX]
  · refine (List.takeWhile_prefix _).length_le.trans_lt ?_
    simp [EYNFS_NAME_MAX]

end Fields

end EynOS.Storage
