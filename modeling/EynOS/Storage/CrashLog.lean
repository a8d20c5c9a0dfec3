import EynOS.Foundation.Run
import Mathlib.Data.List.FinRange

/-!
# The crash log

`crashlog.c` keeps the last checkpoints of the kernel's objects in a table, and writes the whole
table to a file at every change: to the primary path, or to the fallback where that fails. At the
start of the system the table is read from the primary file, or from the fallback where there is no
primary file. A `Ledger` keeps beside the table and the two files which checkpoint of each object
was the last successful one, how many checkpoints were made since, and which records were cleared.

`checkpoints_durable` says that checkpoints are recovered, before and after a start, and cleared
records are not, in every run in which no write goes to the fallback beside a primary file, no
checkpoint that is promised is in the slot that a full table gives to another object, and no call
fails that a promise depends on. `not_checkpoints_durable` is a full table.

Not modelled: the drive, the directory of the primary file and the calls that list the records.
-/

namespace EynOS.Storage.CrashLog

open Foundation

/-! ### Records -/

/-- `CRASHLOG_MAX_RECORDS`. -/
def MAX_RECORDS : ℕ := 16

/-- `CRASHLOG_MAX_DATA`. -/
def MAX_DATA : ℕ := 128

/-- `CRASHLOG_MAGIC`. -/
def MAGIC : UInt32 := 0x4B4F4A31

/-- `CRASHLOG_VERSION`. -/
def VERSION : UInt32 := 1

abbrev Object : Type := UInt32 × UInt32

/-- `crashlog_record_t`, with the array of its data. -/
structure Record where
  magic : UInt32
  object : Object
  epoch : UInt32
  dataLen : ℕ
  checksum : UInt32
  data : List UInt8
  deriving DecidableEq

/-- `crashlog_checksum`. -/
def checksumOf (bytes : List UInt8) : UInt32 :=
  bytes.foldl (fun hash byte ↦ (hash ^^^ UInt32.ofNat byte.toNat) * 16777619) 2166136261

def Record.zero : Record where
  magic := 0
  object := (0, 0)
  epoch := 0
  dataLen := 0
  checksum := 0
  data := List.replicate MAX_DATA 0

/-- `crashlog_state_t` without the drive. -/
structure Log where
  magic : UInt32
  version : UInt32
  recordCount : ℕ
  records : Fin MAX_RECORDS → Record

def Log.empty : Log where
  magic := MAGIC
  version := VERSION
  recordCount := 0
  records _ := .zero

/-- The records that are looked at. -/
def Log.live (log : Log) : List Record :=
  ((List.finRange MAX_RECORDS).filter fun index ↦ index.val < log.recordCount).map log.records

/-! ### Files -/

/-- A file: there is none, it has not the size of a table, or it is read as a table. -/
inductive File
  | absent
  | other
  | table (log : Log)

/-- The files at the two paths. -/
structure Files where
  primary : File
  fallback : File

/-- Whether `vfs_write_file` succeeds at each path, if it is called. -/
structure Outcome where
  primary : Bool
  fallback : Bool

/-- `crashlog_write_file`. -/
def writeFile (log : Log) (outcome : Outcome) (files : Files) : Bool × Files :=
  if outcome.primary then (true, { files with primary := .table log })
  else if outcome.fallback then (true, { files with fallback := .table log })
  else (false, files)

/-- `crashlog_read_file`. -/
def readFile (files : Files) : Option Log :=
  match files.primary, files.fallback with
  | .table log, _ => some log
  | .absent, .table log => some log
  | _, _ => none

/-- A record that `crashlog_validate` accepts. -/
def Record.isValid (record : Record) : Bool :=
  record.magic == MAGIC && decide (record.dataLen ≤ MAX_DATA) &&
    checksumOf (record.data.take record.dataLen) == record.checksum

/-- `crashlog_validate`. -/
def Log.isValid (log : Log) : Bool :=
  log.magic == MAGIC && log.version == VERSION && decide (log.recordCount ≤ MAX_RECORDS) &&
    log.live.all Record.isValid

/-- The table after `crashlog_init`. -/
def loaded (files : Files) : Log :=
  match readFile files with
  | some log => if log.isValid then log else .empty
  | none => .empty

/-- The files after `crashlog_init`. -/
def initFiles (outcome : Outcome) (files : Files) : Files :=
  match readFile files with
  | some log => if log.isValid then files else (writeFile .empty outcome files).2
  | none => (writeFile .empty outcome files).2

/-! ### Calls -/

def newRecord (object : Object) (epoch : UInt32) (data : List UInt8) : Record where
  magic := MAGIC
  object := object
  epoch := epoch
  dataLen := data.length
  checksum := checksumOf data
  data := data ++ List.replicate (MAX_DATA - data.length) 0

/-- The slot of a checkpoint: the next one, or one that the epoch chooses where the table is
full. -/
def Log.slot (log : Log) (epoch : UInt32) : Fin MAX_RECORDS :=
  if hspace : log.recordCount < MAX_RECORDS then ⟨log.recordCount, hspace⟩
  else ⟨epoch.toNat % MAX_RECORDS, Nat.mod_lt _ (by decide)⟩

/-- The table with a record. -/
def Log.put (log : Log) (record : Record) : Log :=
  { log with
    recordCount :=
      if log.recordCount < MAX_RECORDS then log.recordCount + 1 else log.recordCount
    records := Function.update log.records (log.slot record.epoch) record }

/-- The length of a checkpoint's data is accepted. -/
def Fits (data : List UInt8) : Prop := data ≠ [] ∧ data.length ≤ MAX_DATA

instance (data : List UInt8) : Decidable (Fits data) :=
  inferInstanceAs (Decidable (_ ∧ _))

/-- A record that `crashlog_recover_latest` considers for an object. -/
def Record.isFor (object : Object) (record : Record) : Bool :=
  record.object == object && decide (record.dataLen ≠ 0) && record.isValid

/-- The loop of `crashlog_recover_latest`, with the best record so far. -/
def bestLoop (object : Object) : List Record → Option Record → Option Record
  | [], best => best
  | record :: records, best =>
    if record.isFor object && best.all fun best ↦ best.epoch < record.epoch then
      bestLoop object records (some record)
    else bestLoop object records best

/-- `crashlog_recover_latest`: the epoch and as much of the data as there is room for. -/
def recoverLatest (object : Object) (outCap : ℕ) (log : Log) : Option (UInt32 × List UInt8) :=
  if outCap = 0 then none
  else (bestLoop object log.live none).map fun record ↦
    (record.epoch, (record.data.take record.dataLen).take outCap)

/-- A call of the crash log, with what the writes in it come to. -/
inductive Call
  | checkpoint (object : Object) (epoch : UInt32) (data : List UInt8) (outcome : Outcome)
  | clear (outcome : Outcome)
  | reboot (outcome : Outcome)

/-! ### Ledgers -/

/-- A successful checkpoint, and how many were made since. -/
structure Promise where
  epoch : UInt32
  data : List UInt8
  since : ℕ

/-- The table, the files, the last checkpoint of each object that was successful and not cleared,
the epoch of its last checkpoint, and the largest epoch of its checkpoints that were cleared. -/
structure Ledger where
  log : Log
  files : Files
  latest : Object → Option Promise
  last : Object → Option UInt32
  cleared : Object → Option UInt32

/-- One more checkpoint was made. -/
def Promise.later (promise : Promise) : Promise := { promise with since := promise.since + 1 }

/-- The ledger after a call. -/
def Ledger.step (ledger : Ledger) : Call → Ledger
  | .checkpoint object epoch data outcome =>
    if Fits data then
      { log := ledger.log.put (newRecord object epoch data)
        files := (writeFile (ledger.log.put (newRecord object epoch data)) outcome
          ledger.files).2
        latest :=
          if (writeFile (ledger.log.put (newRecord object epoch data)) outcome ledger.files).1 then
            Function.update (fun other ↦ (ledger.latest other).map Promise.later) object
              (some { epoch := epoch, data := data, since := 0 })
          else fun other ↦ (ledger.latest other).map Promise.later
        last := Function.update ledger.last object (some epoch)
        cleared := ledger.cleared }
    else ledger
  | .clear outcome =>
    { log := { ledger.log with recordCount := 0, records := fun _ ↦ .zero }
      files := (writeFile { ledger.log with recordCount := 0, records := fun _ ↦ .zero } outcome
        ledger.files).2
      latest :=
        if (writeFile { ledger.log with recordCount := 0, records := fun _ ↦ .zero } outcome
            ledger.files).1 then fun _ ↦ none
        else ledger.latest
      last := ledger.last
      cleared :=
        if (writeFile { ledger.log with recordCount := 0, records := fun _ ↦ .zero } outcome
            ledger.files).1 then ledger.last
        else ledger.cleared }
  | .reboot outcome =>
    { ledger with log := loaded ledger.files, files := initFiles outcome ledger.files }

/-- The first start of the system, with files that are no tables. -/
def Ledger.start (outcome : Outcome) (files : Files) : Ledger where
  log := loaded files
  files := initFiles outcome files
  latest _ := none
  last _ := none
  cleared _ := none

def Increasing (ledger : Ledger) : Call → Prop
  | .checkpoint object epoch _ _ => ∀ last ∈ ledger.last object, last < epoch
  | _ => True

instance (ledger : Ledger) : (call : Call) → Decidable (Increasing ledger call)
  | .checkpoint object epoch _ _ =>
    match hlast : ledger.last object with
    | none => isTrue fun last hsome ↦ by simp [hlast] at hsome
    | some last =>
      decidable_of_iff (last < epoch)
        ⟨fun hless _ hsome ↦ Option.some.inj (hlast.symm.trans hsome) ▸ hless,
          fun hall ↦ hall last hlast⟩
  | .clear _ => isTrue trivial
  | .reboot _ => isTrue trivial

/-- A checkpoint that is promised: it is recovered. -/
def Promise.Holds (object : Object) (promise : Promise) (log : Log) : Prop :=
  ∀ outCap ≠ 0, recoverLatest object outCap log = some (promise.epoch, promise.data.take outCap)

/-- What the crash log promises: the last successful checkpoint of an object is recovered while
fewer than `MAX_RECORDS` were made since, and no record that was cleared is recovered, now and after
a start of the system. -/
structure Durable (ledger : Ledger) : Prop where
  kept : ∀ object promise, ledger.latest object = some promise → promise.since < MAX_RECORDS →
    promise.Holds object ledger.log ∧ promise.Holds object (loaded ledger.files)
  cleared : ∀ object bound, ledger.cleared object = some bound → ∀ outCap epoch data,
    (recoverLatest object outCap ledger.log = some (epoch, data) → bound < epoch) ∧
      (recoverLatest object outCap (loaded ledger.files) = some (epoch, data) → bound < epoch)

/-- The calls that keep the promises. The write of a checkpoint goes to the file that is read at a
start, unless it fails; a full table gives it no slot with the promised record of another object;
and where it fails there is no promise for its object. A clear that goes to the fallback finds no
records in the primary file, and one that fails finds no promises. -/
def Orderly (ledger : Ledger) : Call → Prop
  | .checkpoint object epoch data outcome => Fits data →
    (outcome.primary = false → outcome.fallback = true → ledger.files.primary = .absent) ∧
    (ledger.log.recordCount = MAX_RECORDS → ∀ other promise, other ≠ object →
      ledger.latest other = some promise → promise.since + 1 < MAX_RECORDS →
        (ledger.log.records (ledger.log.slot epoch)).object = other →
          (ledger.log.records (ledger.log.slot epoch)).epoch ≠ promise.epoch) ∧
    (outcome.primary = false → outcome.fallback = false → ∀ promise,
      ledger.latest object = some promise → MAX_RECORDS ≤ promise.since + 1)
  | .clear outcome =>
    (outcome.primary = false → outcome.fallback = true → ∀ log,
      ledger.files.primary = .table log → log.recordCount = 0) ∧
    (outcome.primary = false → outcome.fallback = false → ∀ object promise,
      ledger.latest object = some promise → MAX_RECORDS ≤ promise.since)
  | .reboot _ => True

/-! ### Tables -/

section Log

variable {log : Log} {record : Record} {object : Object} {epoch : UInt32} {data : List UInt8}
  {files : Files} {outcome : Outcome}

theorem mem_live : record ∈ log.live ↔
    ∃ index : Fin MAX_RECORDS, index.val < log.recordCount ∧ log.records index = record := by
  simp [Log.live]

theorem live_eq_nil (hcount : log.recordCount = 0) : log.live = [] := by
  rw [List.eq_nil_iff_forall_not_mem]
  intro record hmem
  obtain ⟨index, hless, -⟩ := mem_live.mp hmem
  omega

theorem isValid_iff : log.isValid = true ↔ log.magic = MAGIC ∧ log.version = VERSION ∧
    log.recordCount ≤ MAX_RECORDS ∧ ∀ record ∈ log.live, record.isValid = true := by
  simp [Log.isValid, and_assoc]

/-- The records after a checkpoint: the new one and those in other slots. -/
theorem mem_live_put {new : Record} :
    record ∈ (log.put new).live ↔ record = new ∨
      ∃ index : Fin MAX_RECORDS, index.val < log.recordCount ∧ index ≠ log.slot new.epoch ∧
        log.records index = record := by
  have hslot : (log.slot new.epoch).val < (log.put new).recordCount := by
    unfold Log.put Log.slot
    by_cases hspace : log.recordCount < MAX_RECORDS
    · simp [hspace]
    · simp only [hspace, dif_neg, not_false_eq_true, if_false]
      exact (Nat.mod_lt _ (by decide)).trans_le (Nat.le_of_not_lt hspace)
  rw [mem_live]
  constructor
  · rintro ⟨index, hless, rfl⟩
    by_cases hsame : index = log.slot new.epoch
    · rw [hsame]
      exact Or.inl (Function.update_self _ _ _)
    · refine Or.inr ⟨index, ?_, hsame, (Function.update_of_ne hsame _ _).symm⟩
      unfold Log.put at hless
      unfold Log.slot at hsame
      split at hless
      · rename_i hspace
        rw [dif_pos hspace, Fin.ext_iff] at hsame
        exact Nat.lt_of_le_of_ne (Nat.le_of_lt_succ hless) hsame
      · exact hless
  · rintro (rfl | ⟨index, hless, hother, rfl⟩)
    · exact ⟨log.slot record.epoch, hslot, Function.update_self _ _ _⟩
    · refine ⟨index, ?_, Function.update_of_ne hother _ _⟩
      unfold Log.put
      split
      · exact Nat.lt_succ_of_lt hless
      · exact hless

theorem isValid_newRecord (hfits : Fits data) : (newRecord object epoch data).isValid = true := by
  have hbound : data.length ≤ MAX_DATA := hfits.2
  simp [Record.isValid, newRecord, hbound]

/-- A checkpoint leaves a valid table. -/
theorem isValid_put (hvalid : log.isValid = true) (hfits : Fits data) :
    (log.put (newRecord object epoch data)).isValid = true := by
  obtain ⟨hmagic, hversion, hcount, hrecords⟩ := isValid_iff.mp hvalid
  refine isValid_iff.mpr ⟨hmagic, hversion, ?_, fun record hmem ↦ ?_⟩
  · unfold Log.put
    split
    · assumption
    · exact hcount
  · rcases mem_live_put.mp hmem with rfl | ⟨index, hless, -, hrecord⟩
    · exact isValid_newRecord hfits
    · exact hrecords record (mem_live.mpr ⟨index, hless, hrecord⟩)

theorem isValid_empty : Log.empty.isValid = true := by
  rw [isValid_iff, live_eq_nil rfl]
  exact ⟨rfl, rfl, Nat.zero_le _, fun _ hmem ↦ absurd hmem List.not_mem_nil⟩

/-- The table that is read at a start is valid. -/
theorem isValid_loaded (files : Files) : (loaded files).isValid = true := by
  unfold loaded
  split
  · split
    · assumption
    · exact isValid_empty
  · exact isValid_empty

/-- Where there is no valid table, a start uses an empty one. -/
theorem loaded_eq_empty (hread : ∀ log, readFile files = some log → log.isValid = false) :
    loaded files = .empty := by
  unfold loaded
  split
  · rename_i log hlog
    rw [hread log hlog, if_neg Bool.false_ne_true]
  · rfl

/-- A table that is written to the file that is read at a start. -/
theorem loaded_writeFile (hvalid : log.isValid = true) (hwritten : (writeFile log outcome files).1)
    (hlands : outcome.primary = false → outcome.fallback = true → files.primary = .absent) :
    loaded (writeFile log outcome files).2 = log := by
  unfold writeFile at hwritten ⊢
  cases hprimary : outcome.primary with
  | true => simp only [if_true, loaded, readFile, hvalid]
  | false =>
    cases hfallback : outcome.fallback with
    | true =>
      simp only [Bool.false_eq_true, if_false, if_true, loaded, readFile, hlands hprimary hfallback,
        hvalid]
    | false => simp [hprimary, hfallback] at hwritten

/-- An empty table that is written where there is no valid one. -/
theorem loaded_writeEmpty (hread : ∀ log, readFile files = some log → log.isValid = false) :
    loaded (writeFile .empty outcome files).2 = .empty := by
  unfold writeFile
  split
  · simp only [loaded, readFile, isValid_empty, if_true]
  · split
    · cases hprimary : files.primary with
      | absent => simp only [loaded, readFile, isValid_empty, if_true]
      | other => simp only [loaded, readFile]
      | table log =>
        have hinvalid := hread log (by simp only [readFile, hprimary])
        simp only [loaded, readFile, hinvalid, Bool.false_eq_true, if_false]
    · exact loaded_eq_empty hread

/-- After a table without records is written, a start finds none, unless the primary file that is
not written has some. -/
theorem live_loaded_clear (hvalid : log.isValid = true) (hlive : log.live = [])
    (hwritten : (writeFile log outcome files).1)
    (hstale : outcome.primary = false → outcome.fallback = true → ∀ old,
      files.primary = .table old → old.recordCount = 0) :
    (loaded (writeFile log outcome files).2).live = [] := by
  by_cases hlands : outcome.primary = false → outcome.fallback = true → files.primary = .absent
  · rw [loaded_writeFile hvalid hwritten hlands]
    exact hlive
  · obtain ⟨hprimary, hfallback, hthere⟩ : outcome.primary = false ∧ outcome.fallback = true ∧
        files.primary ≠ .absent := by
      simpa using hlands
    simp only [writeFile, hprimary, hfallback, Bool.false_eq_true, if_false, if_true]
    cases hfile : files.primary with
    | absent => exact absurd hfile hthere
    | other =>
      simp only [loaded, readFile]
      exact live_eq_nil rfl
    | table old =>
      simp only [loaded, readFile]
      split
      · exact live_eq_nil (hstale hprimary hfallback old hfile)
      · exact live_eq_nil rfl

/-- A start changes nothing about what the next one reads. -/
theorem loaded_initFiles (outcome : Outcome) (files : Files) :
    loaded (initFiles outcome files) = loaded files := by
  unfold initFiles
  cases hread : readFile files with
  | none =>
    have hnone (log : Log) (hlog : readFile files = some log) : log.isValid = false :=
      absurd (hread.symm.trans hlog) (by simp)
    exact (loaded_writeEmpty hnone).trans (loaded_eq_empty hnone).symm
  | some log =>
    by_cases hvalid : log.isValid = true
    · simp only [hvalid, if_true]
    · have hinvalid (other : Log) (hother : readFile files = some other) :
          other.isValid = false := by
        obtain rfl := Option.some.inj (hread.symm.trans hother)
        exact Bool.eq_false_iff.mpr hvalid
      simp only [if_neg hvalid]
      exact (loaded_writeEmpty hinvalid).trans (loaded_eq_empty hinvalid).symm

/-- The record that is found is one of the object. -/
theorem mem_of_bestLoop {records : List Record} {best : Option Record}
    (hloop : bestLoop object records best = some record) :
    (record ∈ records ∧ record.isFor object = true) ∨ best = some record := by
  induction records generalizing best with
  | nil => exact Or.inr hloop
  | cons first records ih =>
    rw [bestLoop] at hloop
    split at hloop
    · rename_i htaken
      rcases ih hloop with ⟨hmem, hfor⟩ | hfirst
      · exact Or.inl ⟨List.mem_cons_of_mem _ hmem, hfor⟩
      · obtain rfl := Option.some.inj hfirst
        exact Or.inl ⟨List.mem_cons_self, (Bool.and_eq_true_iff.mp htaken).1⟩
    · exact (ih hloop).imp_left fun hfound ↦ ⟨List.mem_cons_of_mem _ hfound.1, hfound.2⟩

/-- The best record of an object is one with the largest epoch. -/
theorem bestLoop_spec (records : List Record) (hsome : ∃ record ∈ records,
      record.isFor object = true ∧ record.epoch = epoch)
    (hbound : ∀ record ∈ records, record.isFor object = true → record.epoch ≤ epoch) :
    ∃ best ∈ records, bestLoop object records none = some best ∧ best.isFor object = true ∧
      best.epoch = epoch := by
  have hloop : ∀ (records : List Record) (best : Option Record),
      (∀ record ∈ records, record.isFor object = true → record.epoch ≤ epoch) →
        (∀ record, best = some record → record.isFor object = true ∧ record.epoch ≤ epoch) →
          ((∃ record ∈ records, record.isFor object = true ∧ record.epoch = epoch) ∨
            ∃ record, best = some record ∧ record.epoch = epoch) →
              ∃ found, bestLoop object records best = some found ∧
                (found ∈ records ∨ best = some found) ∧ found.isFor object = true ∧
                  found.epoch = epoch := by
    intro records
    induction records with
    | nil =>
      intro best _ hbest hfound
      obtain ⟨_, hmem, -⟩ | ⟨record, hrecord, hepoch⟩ := hfound
      · exact absurd hmem List.not_mem_nil
      · exact ⟨record, hrecord, Or.inr hrecord, (hbest record hrecord).1, hepoch⟩
    | cons first records ih =>
      intro best hbound hbest hfound
      have hrest : ∀ record ∈ records, record.isFor object = true → record.epoch ≤ epoch :=
        fun record hmem ↦ hbound record (List.mem_cons_of_mem _ hmem)
      have hkept {found : Record} (hmem : found ∈ records ∨ best = some found) :
          found ∈ first :: records ∨ best = some found :=
        hmem.imp_left (List.mem_cons_of_mem _)
      rw [bestLoop]
      split
      · rename_i htaken
        obtain ⟨hfor, hbetter⟩ := Bool.and_eq_true_iff.mp htaken
        have hfirst := hbound first List.mem_cons_self hfor
        obtain ⟨found, hloop, hmem, hspec⟩ := ih (some first) hrest
          (fun record hrecord ↦ by cases hrecord; exact ⟨hfor, hfirst⟩) (by
            rcases hfound with ⟨record, hmem, hrecord, hepoch⟩ | ⟨record, rfl, hepoch⟩
            · rcases List.mem_cons.mp hmem with rfl | hlater
              · exact Or.inr ⟨record, rfl, hepoch⟩
              · exact Or.inl ⟨record, hlater, hrecord, hepoch⟩
            · have hless : record.epoch < first.epoch := of_decide_eq_true hbetter
              exact absurd (hepoch ▸ hless) (UInt32.not_lt.mpr hfirst))
        refine ⟨found, hloop, ?_, hspec⟩
        rcases hmem with hlater | hsame
        · exact Or.inl (List.mem_cons_of_mem _ hlater)
        · exact Or.inl (Option.some.inj hsame ▸ List.mem_cons_self)
      · rename_i hpassed
        obtain ⟨found, hloop, hmem, hspec⟩ := ih best hrest hbest (by
          rcases hfound with ⟨record, hmem, hrecord, hepoch⟩ | hbestFound
          · rcases List.mem_cons.mp hmem with rfl | hlater
            · -- the first record is passed over, so the best one is no older
              cases best with
              | none => exact absurd (by rw [hrecord]; rfl) hpassed
              | some best =>
                have hnot : ¬best.epoch < record.epoch := fun hless ↦
                  hpassed (by rw [hrecord]; exact decide_eq_true hless)
                have hle := (hbest best rfl).2
                exact Or.inr ⟨best, rfl, UInt32.le_antisymm hle (hepoch ▸ UInt32.not_lt.mp hnot)⟩
            · exact Or.inl ⟨record, hlater, hrecord, hepoch⟩
          · exact Or.inr hbestFound)
        exact ⟨found, hloop, hkept hmem, hspec⟩
  obtain ⟨found, hfound, hmem, hspec⟩ := hloop records none hbound
    (fun _ hnone ↦ by cases hnone) (Or.inl hsome)
  exact ⟨found, hmem.resolve_right (by simp), hfound, hspec⟩

end Log

/-! ### What a table keeps -/

/-- A table that keeps the promises: a promised checkpoint is in it and is the last one of its
object, every record is of a checkpoint that was made, and none of one that was cleared. -/
structure Good (ledger : Ledger) (log : Log) : Prop where
  valid : log.isValid = true
  made : ∀ record ∈ log.live, ∃ last, ledger.last record.object = some last ∧ record.epoch ≤ last
  kept : ∀ object promise, ledger.latest object = some promise → promise.since < MAX_RECORDS →
    (∃ record ∈ log.live, record.object = object ∧ record.epoch = promise.epoch) ∧
      ∀ record ∈ log.live, record.object = object → record.epoch ≤ promise.epoch ∧
        (record.epoch = promise.epoch →
          record.dataLen ≠ 0 ∧ record.data.take record.dataLen = promise.data)
  cleared : ∀ record ∈ log.live, ∀ bound, ledger.cleared record.object = some bound →
    bound < record.epoch

/-- The table and the one that a start would read keep the promises, and only checkpoints that were
made are cleared. -/
structure Sound (ledger : Ledger) : Prop where
  log : Good ledger ledger.log
  files : Good ledger (loaded ledger.files)
  cleared : ∀ object bound, ledger.cleared object = some bound →
    ∃ last, ledger.last object = some last ∧ bound ≤ last

section Good

variable {ledger after : Ledger} {log : Log} {object : Object} {promise : Promise}
  {epoch bound : UInt32} {data : List UInt8}

theorem isFor_iff {record : Record} : record.isFor object = true ↔
    record.object = object ∧ record.dataLen ≠ 0 ∧ record.isValid = true := by
  simp [Record.isFor, and_assoc]

/-- What is promised is recovered. -/
theorem Good.holds (hgood : Good ledger log) (hlatest : ledger.latest object = some promise)
    (hsince : promise.since < MAX_RECORDS) : promise.Holds object log := by
  intro outCap hcap
  obtain ⟨-, -, -, hvalid⟩ := isValid_iff.mp hgood.valid
  obtain ⟨⟨record, hmem, hobject, hepoch⟩, hall⟩ := hgood.kept object promise hlatest hsince
  obtain ⟨best, hbest, hloop, hfor, hlast⟩ := bestLoop_spec log.live
    ⟨record, hmem, isFor_iff.mpr ⟨hobject, ((hall record hmem hobject).2 hepoch).1,
      hvalid record hmem⟩, hepoch⟩
    fun other hother hfor ↦ (hall other hother (isFor_iff.mp hfor).1).1
  rw [recoverLatest, if_neg hcap, hloop, Option.map_some, hlast,
    ((hall best hbest (isFor_iff.mp hfor).1).2 hlast).2]

theorem Good.recovered (hgood : Good ledger log) (hcleared : ledger.cleared object = some bound)
    {outCap : ℕ} (hrecovers : recoverLatest object outCap log = some (epoch, data)) :
    bound < epoch := by
  rw [recoverLatest] at hrecovers
  split at hrecovers
  · exact absurd hrecovers (by simp)
  · obtain ⟨best, hloop, hresult⟩ := Option.map_eq_some_iff.mp hrecovers
    obtain ⟨rfl, -⟩ := Prod.mk.inj hresult
    obtain ⟨hmem, hfor⟩ := (mem_of_bestLoop hloop).resolve_right (by simp)
    exact hgood.cleared best hmem bound ((isFor_iff.mp hfor).1 ▸ hcleared)

theorem Sound.durable (hsound : Sound ledger) : Durable ledger where
  kept _ _ hlatest hsince := ⟨hsound.log.holds hlatest hsince, hsound.files.holds hlatest hsince⟩
  cleared _ _ hcleared _ _ _ := ⟨hsound.log.recovered hcleared, hsound.files.recovered hcleared⟩

/-- A table without records keeps the promises where there are none. -/
theorem good_of_live (hvalid : log.isValid = true) (hlive : log.live = [])
    (hnone : ∀ object promise, ledger.latest object = some promise →
      MAX_RECORDS ≤ promise.since) : Good ledger log where
  valid := hvalid
  made _ hmem := absurd (hlive ▸ hmem) List.not_mem_nil
  kept object promise hlatest hsince :=
    absurd (hnone object promise hlatest) (Nat.not_le.mpr hsince)
  cleared _ hmem := absurd (hlive ▸ hmem) List.not_mem_nil

/-- Promises are about the checkpoints only. -/
theorem Good.congr (hgood : Good ledger log) (hlatest : after.latest = ledger.latest)
    (hlast : after.last = ledger.last) (hcleared : after.cleared = ledger.cleared) :
    Good after log where
  valid := hgood.valid
  made := hlast ▸ hgood.made
  kept := hlatest ▸ hgood.kept
  cleared := hcleared ▸ hgood.cleared

/-- A table that is not changed keeps the promises that are kept on. -/
theorem Good.keep (hgood : Good ledger log)
    (hlatest : ∀ object promise, after.latest object = some promise → promise.since < MAX_RECORDS →
      ∃ old, ledger.latest object = some old ∧ old.since < MAX_RECORDS ∧
        old.epoch = promise.epoch ∧ old.data = promise.data)
    (hlast : ∀ object last, ledger.last object = some last →
      ∃ more, after.last object = some more ∧ last ≤ more)
    (hcleared : after.cleared = ledger.cleared) : Good after log := by
  refine ⟨hgood.valid, fun record hmem ↦ ?_, fun object promise hpromise hsince ↦ ?_, ?_⟩
  · obtain ⟨last, hmade, hle⟩ := hgood.made record hmem
    obtain ⟨more, hmore, hlater⟩ := hlast _ last hmade
    exact ⟨more, hmore, UInt32.le_trans hle hlater⟩
  · obtain ⟨old, hold, hstill, hepoch, hdata⟩ := hlatest object promise hpromise hsince
    rw [← hepoch, ← hdata]
    exact hgood.kept object old hold hstill
  · rw [hcleared]
    exact hgood.cleared

/-- A checkpoint in the table: it keeps its own promise and those that its slot does not break. -/
theorem Good.put (hgood : Good ledger log) (hfits : Fits data)
    (hincreasing : ∀ last, ledger.last object = some last → last < epoch)
    (hbound : ∀ bound, ledger.cleared object = some bound → bound < epoch)
    (hlast : after.last = Function.update ledger.last object (some epoch))
    (hcleared : after.cleared = ledger.cleared)
    (hlatest : ∀ other promise, after.latest other = some promise → promise.since < MAX_RECORDS →
      (other = object ∧ promise.epoch = epoch ∧ promise.data = data) ∨
        (other ≠ object ∧ ∃ old, ledger.latest other = some old ∧ old.since < MAX_RECORDS ∧
          old.epoch = promise.epoch ∧ old.data = promise.data ∧
            (log.recordCount = MAX_RECORDS → (log.records (log.slot epoch)).object = other →
              (log.records (log.slot epoch)).epoch ≠ promise.epoch))) :
    Good after (log.put (newRecord object epoch data)) := by
  obtain ⟨-, -, hcount, -⟩ := isValid_iff.mp hgood.valid
  have hold {record : Record} (hmem : record ∈ (log.put (newRecord object epoch data)).live) :
      record = newRecord object epoch data ∨ record ∈ log.live := by
    rcases mem_live_put.mp hmem with hnew | ⟨index, hless, -, hrecord⟩
    · exact Or.inl hnew
    · exact Or.inr (mem_live.mpr ⟨index, hless, hrecord⟩)
  -- records of the object that were there before are older
  have holder {record : Record} (hmem : record ∈ log.live) (hobject : record.object = object) :
      record.epoch < epoch := by
    obtain ⟨last, hmade, hle⟩ := hgood.made record hmem
    exact UInt32.lt_of_le_of_lt hle (hincreasing last (hobject ▸ hmade))
  refine ⟨isValid_put hgood.valid hfits, fun record hmem ↦
    ?_, fun other promise hpromise hsince ↦ ?_,
    fun record hmem bound hbounded ↦ ?_⟩
  · rw [hlast]
    by_cases hobject : record.object = object
    · refine ⟨epoch, by rw [hobject, Function.update_self], ?_⟩
      rcases hold hmem with rfl | hlive
      · exact UInt32.le_refl _
      · exact UInt32.le_of_lt (holder hlive hobject)
    · rw [Function.update_of_ne hobject]
      rcases hold hmem with rfl | hlive
      · exact absurd rfl hobject
      · exact hgood.made record hlive
  · rcases hlatest other promise hpromise hsince with
      ⟨rfl, rfl, rfl⟩ | ⟨hother, old, hpromised, hstill, hepoch, hdata, hslot⟩
    · refine ⟨⟨_, mem_live_put.mpr (Or.inl rfl), rfl, rfl⟩, fun record hmem hobject ↦ ?_⟩
      rcases hold hmem with rfl | hlive
      · refine ⟨UInt32.le_refl _, fun _ ↦ ⟨?_, List.take_left⟩⟩
        exact (List.length_pos_iff.mpr hfits.1).ne'
      · have hless := holder hlive hobject
        exact ⟨UInt32.le_of_lt hless, fun heq ↦ absurd heq (UInt32.ne_of_lt hless)⟩
    · obtain ⟨⟨record, hmem, hobject, hlatestEpoch⟩, hall⟩ :=
        hgood.kept other old hpromised hstill
      rw [hepoch] at hlatestEpoch hall
      rw [hdata] at hall
      constructor
      · obtain ⟨index, hless, hrecord⟩ := mem_live.mp hmem
        refine ⟨record, mem_live_put.mpr (Or.inr ⟨index, hless, ?_, hrecord⟩), hobject,
          hlatestEpoch⟩
        rintro rfl
        have hfull : log.recordCount = MAX_RECORDS := by
          refine Nat.le_antisymm hcount (Nat.le_of_not_lt fun hspace ↦ ?_)
          rw [Log.slot, dif_pos hspace] at hless
          exact Nat.lt_irrefl _ hless
        exact hslot hfull ((congrArg Record.object hrecord).trans hobject)
          ((congrArg Record.epoch hrecord).trans hlatestEpoch)
      · intro found hfound hfoundObject
        rcases hold hfound with rfl | hlive
        · exact absurd hfoundObject.symm hother
        · exact hall found hlive hfoundObject
  · rw [hcleared] at hbounded
    rcases hold hmem with rfl | hlive
    · exact hbound bound hbounded
    · exact hgood.cleared record hlive bound hbounded

/-- A write that succeeds at neither path changes no file. -/
theorem writeFile_fails {outcome : Outcome} {files : Files}
    (hwritten : (writeFile log outcome files).1 = false) :
    outcome.primary = false ∧ outcome.fallback = false ∧
      (writeFile log outcome files).2 = files := by
  unfold writeFile at hwritten ⊢
  cases hprimary : outcome.primary <;> cases hfallback : outcome.fallback <;>
    simp_all

theorem Sound.checkpoint (hsound : Sound ledger) (hfits : Fits data) {outcome : Outcome}
    (hincreasing : Increasing ledger (.checkpoint object epoch data outcome))
    (horderly : Orderly ledger (.checkpoint object epoch data outcome)) :
    Sound (ledger.step (.checkpoint object epoch data outcome)) := by
  obtain ⟨hlands, hslot, hfails⟩ := horderly hfits
  have hbound (bound : UInt32) (hcleared : ledger.cleared object = some bound) : bound < epoch := by
    obtain ⟨last, hlast, hle⟩ := hsound.cleared object bound hcleared
    exact UInt32.lt_of_le_of_lt hle (hincreasing last hlast)
  have hlater {other : Object} {promise : Promise}
      (hpromise : (ledger.latest other).map Promise.later = some promise) :
      ∃ old, ledger.latest other = some old ∧ old.since + 1 = promise.since ∧
        old.epoch = promise.epoch ∧ old.data = promise.data := by
    obtain ⟨old, hold, rfl⟩ := Option.map_eq_some_iff.mp hpromise
    exact ⟨old, hold, rfl, rfl, rfl⟩
  rw [Ledger.step, if_pos hfits]
  have hmade (other : Object) (bound : UInt32) (hcleared : ledger.cleared other = some bound) :
      ∃ last, Function.update ledger.last object (some epoch) other = some last ∧ bound ≤ last := by
    by_cases hother : other = object
    · refine ⟨epoch, by rw [hother, Function.update_self], ?_⟩
      exact UInt32.le_of_lt (hbound bound (hother ▸ hcleared))
    · rw [Function.update_of_ne hother]
      exact hsound.cleared other bound hcleared
  have hvalid : (ledger.log.put (newRecord object epoch data)).isValid = true :=
    isValid_put hsound.log.valid hfits
  generalize hput : ledger.log.put (newRecord object epoch data) = log at hvalid
  cases hwritten : (writeFile log outcome ledger.files).1 with
  | true =>
    have hlog : Good
        { log := log, files := (writeFile log outcome ledger.files).2
          latest := Function.update (fun other ↦ (ledger.latest other).map Promise.later) object
            (some { epoch := epoch, data := data, since := 0 })
          last := Function.update ledger.last object (some epoch), cleared := ledger.cleared }
        log := by
      rw [← hput]
      refine hsound.log.put hfits hincreasing hbound rfl rfl fun other promise hpromise hsince ↦ ?_
      change Function.update (fun other ↦ (ledger.latest other).map Promise.later) object
        _ other = _
        at hpromise
      by_cases hother : other = object
      · rw [hother, Function.update_self] at hpromise
        obtain rfl := Option.some.inj hpromise
        exact Or.inl ⟨hother, rfl, rfl⟩
      · rw [Function.update_of_ne hother] at hpromise
        obtain ⟨old, hold, hmore, hepoch, hdata⟩ := hlater hpromise
        exact Or.inr ⟨hother, old, hold, by omega, hepoch, hdata, fun hfull hobject ↦
          hepoch ▸ hslot hfull other old hother hold (by omega) hobject⟩
    refine ⟨hlog, ?_, hmade⟩
    rw [loaded_writeFile hvalid hwritten hlands]
    exact hlog
  | false =>
    obtain ⟨hprimary, hfallback, hfiles⟩ := writeFile_fails hwritten
    have hlatest {other : Object} {promise : Promise}
        (hpromise : (ledger.latest other).map Promise.later = some promise)
        (hsince : promise.since < MAX_RECORDS) : ∃ old, ledger.latest other = some old ∧
          old.since < MAX_RECORDS ∧ old.epoch = promise.epoch ∧ old.data = promise.data := by
      obtain ⟨old, hold, hmore, hrest⟩ := hlater hpromise
      exact ⟨old, hold, by omega, hrest⟩
    rw [hfiles]
    refine ⟨?_, hsound.files.keep (fun other promise ↦ hlatest) ?_ rfl, hmade⟩
    · rw [← hput]
      refine hsound.log.put hfits hincreasing hbound rfl rfl fun other promise hpromise hsince ↦ ?_
      obtain ⟨old, hold, hmore, hepoch, hdata⟩ := hlater hpromise
      have hother : other ≠ object := by
        rintro rfl
        have hlost := hfails hprimary hfallback old hold
        omega
      exact Or.inr ⟨hother, old, hold, by omega, hepoch, hdata, fun hfull hobject ↦
        hepoch ▸ hslot hfull other old hother hold (by omega) hobject⟩
    · intro other last hmadeLast
      by_cases hother : other = object
      · refine ⟨epoch, by rw [hother]; exact Function.update_self _ _ _, ?_⟩
        exact UInt32.le_of_lt (hincreasing last (hother ▸ hmadeLast))
      · exact ⟨last, (Function.update_of_ne hother _ _).trans hmadeLast, UInt32.le_refl last⟩

theorem Sound.clear (hsound : Sound ledger) {outcome : Outcome}
    (horderly : Orderly ledger (.clear outcome)) : Sound (ledger.step (.clear outcome)) := by
  obtain ⟨hstale, hfails⟩ := horderly
  obtain ⟨hmagic, hversion, -, -⟩ := isValid_iff.mp hsound.log.valid
  rw [Ledger.step]
  generalize hempty : { ledger.log with recordCount := 0, records := fun _ ↦ .zero } = log
  have hlive : log.live = [] := live_eq_nil (by rw [← hempty])
  have hvalid : log.isValid = true := by
    refine isValid_iff.mpr ⟨?_, ?_, ?_, fun _ hmem ↦ absurd (hlive ▸ hmem) List.not_mem_nil⟩ <;>
      rw [← hempty]
    · exact hmagic
    · exact hversion
    · exact Nat.zero_le _
  cases hwritten : (writeFile log outcome ledger.files).1 with
  | true =>
    simp only [if_true]
    refine ⟨good_of_live hvalid hlive (by simp), ?_, fun object bound hbound ↦
      ⟨bound, hbound, UInt32.le_refl bound⟩⟩
    exact good_of_live (isValid_loaded _) (live_loaded_clear hvalid hlive hwritten hstale) (by simp)
  | false =>
    obtain ⟨hprimary, hfallback, hfiles⟩ := writeFile_fails hwritten
    simp only [Bool.false_eq_true, if_false, hfiles]
    exact ⟨good_of_live hvalid hlive (hfails hprimary hfallback), hsound.files.congr rfl rfl rfl,
      hsound.cleared⟩

/-- A start of the system keeps the ledger sound. -/
theorem Sound.reboot (hsound : Sound ledger) (outcome : Outcome) :
    Sound (ledger.step (.reboot outcome)) where
  log := hsound.files.congr rfl rfl rfl
  files := by
    change Good _ (loaded (initFiles outcome ledger.files))
    rw [loaded_initFiles]
    exact hsound.files.congr rfl rfl rfl
  cleared := hsound.cleared

/-- A call that keeps the promises keeps the ledger sound. -/
theorem Sound.step (hsound : Sound ledger) {call : Call} (hincreasing : Increasing ledger call)
    (horderly : Orderly ledger call) : Sound (ledger.step call) := by
  cases call with
  | checkpoint object epoch data outcome =>
    by_cases hfits : Fits data
    · exact hsound.checkpoint hfits hincreasing horderly
    · rw [Ledger.step, if_neg hfits]
      exact hsound
  | clear outcome => exact hsound.clear horderly
  | reboot outcome => exact hsound.reboot outcome

end Good

/-! ### Runs -/

/-- The files of a system that was never started: none of them is a table. -/
def Blank (files : Files) : Prop :=
  (∀ log, files.primary ≠ .table log) ∧ ∀ log, files.fallback ≠ .table log

/-- The first start finds no checkpoints. -/
theorem sound_start (outcome : Outcome) {files : Files} (hblank : Blank files) :
    Sound (.start outcome files) := by
  have hread : readFile files = none := by
    unfold readFile
    cases hprimary : files.primary with
    | table log => exact absurd hprimary (hblank.1 log)
    | other => rfl
    | absent =>
      cases hfallback : files.fallback with
      | table log => exact absurd hfallback (hblank.2 log)
      | other | absent => rfl
  have hloaded : loaded files = .empty := by rw [loaded, hread]
  have hlive : (loaded files).live = [] := by
    rw [hloaded]
    exact live_eq_nil rfl
  have hgood : Good (.start outcome files) (loaded files) :=
    good_of_live (isValid_loaded files) hlive fun _ _ hnone ↦ absurd hnone (by simp [Ledger.start])
  refine ⟨hgood, ?_, fun _ _ hnone ↦ absurd hnone (by simp [Ledger.start])⟩
  change Good _ (loaded (initFiles outcome files))
  rw [loaded_initFiles]
  exact hgood

/-- In every run whose calls keep the promises, they are kept. -/
theorem checkpoints_durable {outcome : Outcome} {files : Files} (hblank : Blank files)
    {calls : List Call} {ledger : Ledger}
    (hrun : Run (Guarded (fun ledger call ↦ Increasing ledger call ∧ Orderly ledger call)
      (Moves Ledger.step)) (.start outcome files) calls ledger) : Durable ledger := by
  have hstep (before : Ledger) (call : Call) (after : Ledger) (hsound : Sound before)
      (hguard : Increasing before call ∧ Orderly before call)
      (hmoves : Moves Ledger.step before call after) : Sound after :=
    hmoves ▸ hsound.step hguard.1 hguard.2
  exact (hrun.guarded_invariant hstep (sound_start outcome hblank)).durable

/-- Nothing is on the drive. -/
def noFiles : Files where
  primary := .absent
  fallback := .absent

/-- Every write succeeds. -/
def written : Outcome where
  primary := true
  fallback := true

/-- A call all of whose writes succeed keeps the promises while the table is not full. -/
theorem orderly_written {ledger : Ledger} {object : Object} {epoch : UInt32} {data : List UInt8}
    (hspace : ledger.log.recordCount ≠ MAX_RECORDS) :
    Orderly ledger (.checkpoint object epoch data written) :=
  fun _ ↦ ⟨fun hfalse ↦ absurd hfalse (by decide), fun hfull ↦ absurd hfull hspace,
    fun hfalse ↦ absurd hfalse (by decide)⟩

/-- Checkpoints of two objects, of which one is replaced, a clear between two starts of the system,
and checkpoints of both again. -/
def rebootedCalls : List Call :=
  [.checkpoint (1, 7) 1 [5] written, .checkpoint (2, 0) 1 [8, 9] written,
    .checkpoint (1, 7) 2 [6] written, .reboot written, .clear written, .reboot written,
    .checkpoint (2, 0) 2 [4] written, .checkpoint (1, 7) 3 [7] written]

/-- The last checkpoint of each object is recovered after the next start, and none from before the
clear. -/
theorem checkpoints_durable_rebooted :
    let ledger := rebootedCalls.foldl Ledger.step (.start written noFiles)
    Promise.Holds (2, 0) { epoch := 2, data := [4], since := 1 } (loaded ledger.files) ∧
      Promise.Holds (1, 7) { epoch := 3, data := [7], since := 0 } (loaded ledger.files) ∧
        ∀ outCap epoch data, recoverLatest (1, 7) outCap (loaded ledger.files) =
          some (epoch, data) → 2 < epoch := by
  intro ledger
  have hblank : Blank noFiles := ⟨fun _ ↦ File.noConfusion, fun _ ↦ File.noConfusion⟩
  have hclear {before : Ledger} : Orderly before (.clear written) :=
    ⟨fun hfalse ↦ absurd hfalse (by decide), fun hfalse ↦ absurd hfalse (by decide)⟩
  have hallowed : Allowed (fun ledger call ↦ Increasing ledger call ∧ Orderly ledger call)
      Ledger.step (.start written noFiles) rebootedCalls :=
    ⟨⟨by decide, orderly_written (by decide)⟩, ⟨by decide, orderly_written (by decide)⟩,
      ⟨by decide, orderly_written (by decide)⟩, ⟨trivial, trivial⟩, ⟨trivial, hclear⟩,
      ⟨trivial, trivial⟩, ⟨by decide +kernel, orderly_written (by decide +kernel)⟩,
      ⟨by decide +kernel, orderly_written (by decide +kernel)⟩, trivial⟩
  have hdurable := checkpoints_durable hblank (Run.of_allowed hallowed)
  exact ⟨(hdurable.kept (2, 0) _ rfl (by decide)).2, (hdurable.kept (1, 7) _ rfl (by decide)).2,
    fun outCap epoch data ↦ (hdurable.cleared (1, 7) 2 rfl outCap epoch data).2⟩

/-- A checkpoint of each of as many objects as there are slots, and of one more whose epoch chooses
the slot of the last one. -/
def crowdedCalls : List Call :=
  ((List.range 16).map fun index ↦
    .checkpoint (1, UInt32.ofNat index) 1 [UInt8.ofNat index] written) ++
      [.checkpoint (2, 0) 15 [99] written]

/-- The last but one checkpoint is lost, though every write succeeded. -/
theorem not_checkpoints_durable :
    ¬∀ (outcome : Outcome) (files : Files) (calls : List Call) (ledger : Ledger), Blank files →
      Run (Guarded Increasing (Moves Ledger.step)) (.start outcome files) calls ledger →
        Durable ledger := by
  intro hclaim
  have hdurable := hclaim written noFiles crowdedCalls _
    ⟨fun _ ↦ File.noConfusion, fun _ ↦ File.noConfusion⟩ (Run.of_allowed (by decide +kernel))
  have hholds := (hdurable.kept (1, 15) { epoch := 1, data := [15], since := 1 } rfl
    (by decide)).1 1 (by decide)
  have hlost : recoverLatest (1, 15) 1
      (crowdedCalls.foldl Ledger.step (.start written noFiles)).log = none := by decide +kernel
  exact absurd (hlost.symm.trans hholds) (by simp)

end EynOS.Storage.CrashLog
