import EynOS.Storage.ImageReading

/-!
# Reads with a cursor

`eynfs_read_file_fast` goes on from a block that an earlier read of the file has reached, where
`eynfs_read_file` follows the chain from its start. `cursor_read_eq` says that a reader that carries
the cursor from call to call gets what the plain read gets, whatever its offsets and buffer sizes
are, above a drive that gives the same answer every time a block is read.

Both functions only read blocks through the cache, so what they return is computed without a state
by `outcome`. The cursor is at a block that some links lead to from the start of the chain, with the
offset of that block in the file: `Placed`.

Not modelled: calls without the pointers of the cursor, which read as with a cursor of zeros.
-/

namespace EynOS.Storage

open Foundation Interaction

/-! ### The function -/

/-- `*p_cur_block` and `*p_cur_block_off`. -/
structure Cursor where
  block : UInt32
  offset : UInt32
  deriving DecidableEq

/-- The reads of `eynfs_read_file_fast`, from a position in the first block on. A read that fails
leaves the cursor at its block. -/
def readFastLoop : ℕ → UInt32 → ℕ → ℕ → Cursor → Program (Option (List UInt8) × Cursor)
  | 0, _, _, _, cursor => pure (some [], cursor)
  | rounds + 1, block, position, left, cursor =>
    if block = 0 ∨ left = 0 then pure (some [], cursor)
    else do
      let sector ← attempt (getBlock block)
      match sector with
      | none => pure (none, cursor)
      | some sector => do
        let chunk := min (dataPerBlock - position) left
        let (rest, cursor) ← readFastLoop rounds (nextBlock sector) 0 (left - chunk)
          { block := nextBlock sector, offset := cursor.offset + UInt32.ofNat dataPerBlock }
        pure (rest.map (dataOf sector position chunk ++ ·), cursor)

/-- `eynfs_read_file_fast`: the bytes that are read, unless a block cannot be read, and the
cursor. -/
def readFileFast (firstBlock fileSize : UInt32) (bufSize offset : ℕ) (cursor : Cursor) :
    Program (Option (List UInt8) × Cursor) :=
  if fileSize.toNat ≤ offset then pure (some [], cursor)
  else do
    let left := min bufSize (fileSize.toNat - offset)
    let (block, skip) :=
      if cursor.block ≠ 0 ∧ cursor.offset.toNat ≤ offset then
        (cursor.block, offset - cursor.offset.toNat)
      else (firstBlock, offset)
    let place ← attempt (skipLoop (skip / dataPerBlock) block skip)
    match place with
    | none => pure (none, cursor)
    | some (block, position) =>
      readFastLoop (left + 1) block position left
        { block := block, offset := UInt32.ofNat (offset - position) }

/-! ### What a program that only reads blocks returns -/

/-- A request to read a block through the cache. -/
def IsRead : Request → Prop
  | .getBlock _ => True
  | _ => False

/-- Blocks that are always read alike: a read fails, or returns the same bytes every time. -/
abbrev Blocks : Type := UInt32 → Option Sector

def answerRead (blocks : Blocks) : Handler Request Request.Answer Unit
  | .readSector _, _ => (none, ())
  | .writeSector _ _, _ => (false, ())
  | .getBlock block, _ => (blocks block, ())
  | .writeBlock _ _, _ => (false, ())
  | .flush, _ => ((), ())
  | .invalidateBlock _, _ => ((), ())
  | .reset, _ => ((), ())
  | .takeFree, _ => (none, ())
  | .keepFree _ _, _ => ((), ())
  | .dropFree, _ => ((), ())

/-- What a program that only reads blocks returns. -/
def outcome {Result : Type} (blocks : Blocks) (program : Program Result) : Except Stop Result :=
  (run (answerRead blocks) program ()).1

/-- However many blocks are read before, a read of a block of a drive is answered alike. -/
def Serves (drive : ℕ) (blocks : Blocks) (state : State) : Prop :=
  ∀ (before : List UInt32) (block : UInt32), (cacheGetBlock drive block (before.foldl
    (fun state block ↦ (cacheGetBlock drive block state).2) state)).1 = blocks block

section Outcome

variable {Result Next : Type} {blocks : Blocks} {drive : ℕ} {state : State}
  {latest : UInt32 → Sector}

/-- Reading a block leaves the drive one that answers alike. -/
theorem Serves.getBlock (hserves : Serves drive blocks state) (block : UInt32) :
    (cacheGetBlock drive block state).1 = blocks block ∧
      Serves drive blocks (cacheGetBlock drive block state).2 :=
  ⟨hserves [] block, fun before ↦ hserves (block :: before)⟩

/-- A program that only reads blocks returns what the blocks decide. -/
theorem Serves.run_eq {program : Program Result} (hserves : Serves drive blocks state)
    (honly : Only IsRead program) :
    (run (answer drive) program state).1 = outcome blocks program ∧
      Serves drive blocks (run (answer drive) program state).2 := by
  have hstep (state : State) (middle : Unit) (request : Request)
    (hserves : Serves drive blocks state)
      (hread : IsRead request) :
      (answer drive request state).1 = (answerRead blocks request middle).1 ∧
        Serves drive blocks (answer drive request state).2 := by
    cases request with
    | getBlock block => exact hserves.getBlock block
    | readSector | writeSector | writeBlock | flush | invalidateBlock | reset | takeFree
    | keepFree | dropFree => exact hread.elim
  exact Only.related hstep honly hserves

theorem Coherent.serves (hcoherent : Coherent drive state latest) :
    Serves drive (fun block ↦ some (imageOf latest block)) state := by
  intro before block
  induction before generalizing state with
  | nil => exact (hcoherent.getBlock block).1
  | cons first before ih => exact ih (hcoherent.getBlock first).2

@[simp] theorem outcome_pure (result : Result) : outcome blocks (pure result) = .ok result := rfl

@[simp] theorem outcome_failure :
    outcome blocks (failure : Program Result) = .error (.error (-1)) := rfl

/-- A sequence goes on with the result of its first part. -/
theorem outcome_bind (program : Program Result) (continuation : Result → Program Next) :
    outcome blocks (program >>= continuation) =
      outcome blocks program >>= fun result ↦ outcome blocks (continuation result) := by
  rw [outcome, outcome, run_bind]
  generalize run (answerRead blocks) program () = first
  obtain ⟨_ | _, _⟩ := first <;> rfl

/-- A read of a block. -/
@[simp] theorem outcome_getBlock (block : UInt32) :
    outcome blocks (Storage.getBlock block) =
      (blocks block).elim (.error (.error (-1))) .ok := by
  rw [Storage.getBlock, outcome_bind]
  change Except.bind (.ok (blocks block)) _ = _
  cases blocks block <;> rfl

/-- A call whose failure the caller looks at. -/
theorem outcome_attempt (program : Program Result) :
    outcome blocks (attempt program) =
      match outcome blocks program with
      | .ok result => .ok (some result)
      | .error (.error _) => .ok none
      | .error .endless => .error .endless := by
  rw [outcome, attempt, run_recover, run_bind]
  unfold outcome
  generalize run (answerRead blocks) program () = first
  obtain ⟨(_ | _) | _, _⟩ := first <;> rfl

end Outcome

/-! ### Programs that only read blocks -/

section Only

variable {Result : Type}

theorem only_pure (result : Result) : Only IsRead (pure result : Program Result) := trivial

theorem only_failure : Only IsRead (failure : Program Result) := trivial

theorem only_getBlock (block : UInt32) : Only IsRead (getBlock block) :=
  ⟨trivial, fun answer ↦ by cases answer <;> exact trivial⟩

theorem only_attempt {program : Program Result} (honly : Only IsRead program) :
    Only IsRead (attempt program) :=
  (honly.bind fun _ ↦ only_pure _).recover fun failure ↦ by cases failure <;> exact trivial

theorem only_skipLoop (rounds : ℕ) (block : UInt32) (skip : ℕ) :
    Only IsRead (skipLoop rounds block skip) := by
  induction rounds generalizing block skip with
  | zero => exact trivial
  | succ rounds ih =>
    rw [skipLoop]
    split
    · exact trivial
    · exact (only_getBlock block).bind fun _ ↦ ih _ _

theorem only_readLoop (rounds : ℕ) (block : UInt32) (position left : ℕ) :
    Only IsRead (readLoop rounds block position left) := by
  induction rounds generalizing block position left with
  | zero => exact trivial
  | succ rounds ih =>
    rw [readLoop]
    split
    · exact trivial
    · exact (only_getBlock block).bind fun _ ↦ (ih _ _ _).bind fun _ ↦ trivial

theorem only_readFastLoop (rounds : ℕ) (block : UInt32) (position left : ℕ) (cursor : Cursor) :
    Only IsRead (readFastLoop rounds block position left cursor) := by
  induction rounds generalizing block position left cursor with
  | zero => exact trivial
  | succ rounds ih =>
    rw [readFastLoop]
    split
    · exact trivial
    · refine (only_attempt (only_getBlock block)).bind fun sector ↦ ?_
      cases sector with
      | none => exact trivial
      | some sector => exact (ih _ _ _ _).bind fun _ ↦ trivial

theorem only_readFile (entry : DirEntry) (bufSize offset : ℕ) :
    Only IsRead (readFile entry bufSize offset) := by
  rw [readFile]
  split
  · exact only_failure
  · split
    · exact trivial
    · exact (only_skipLoop _ _ _).bind fun _ ↦ only_readLoop _ _ _ _

theorem only_readFileFast (firstBlock fileSize : UInt32) (bufSize offset : ℕ) (cursor : Cursor) :
    Only IsRead (readFileFast firstBlock fileSize bufSize offset cursor) := by
  rw [readFileFast]
  split
  · exact trivial
  · refine (only_attempt (only_skipLoop _ _ _)).bind fun place ↦ ?_
    cases place with
    | none => exact trivial
    | some place => exact only_readFastLoop _ _ _ _ _

end Only

/-! ### Where the cursor is -/

/-- The block that a number of links lead to. There are no links from the end of a chain and from a
block that cannot be read. -/
def follow (blocks : Blocks) : ℕ → UInt32 → Option UInt32
  | 0, block => some block
  | count + 1, block =>
    if block = 0 then none
    else (blocks block).bind fun sector ↦ follow blocks count (nextBlock sector)

/-- A cursor is unset, or it is at a block of the chain with the offset of the block in the file. -/
def Placed (blocks : Blocks) (first : UInt32) (cursor : Cursor) : Prop :=
  cursor.block = 0 ∨ ∃ count, follow blocks count first = some cursor.block ∧
    cursor.offset.toNat = dataPerBlock * count

section Cursor

variable {blocks : Blocks} {first block : UInt32} {sector : Sector} {cursor : Cursor}
  {count position left skip : ℕ}

section

variable (hfollow : follow blocks count first = some block)

include hfollow

/-- Links lead on from where others lead. -/
theorem follow_add {next : UInt32} {more : ℕ}
    (hmore : follow blocks more block = some next) :
    follow blocks (count + more) first = some next := by
  induction count generalizing first with
  | zero =>
    obtain rfl : first = block := Option.some.inj hfollow
    rwa [Nat.zero_add]
  | succ count ih =>
    rw [Nat.add_right_comm, follow]
    rw [follow] at hfollow
    split at hfollow
    · exact absurd hfollow (by simp)
    · rename_i hfirst
      obtain ⟨sector, hsector, hrest⟩ := Option.bind_eq_some_iff.mp hfollow
      rw [if_neg hfirst, hsector]
      exact ih hrest

theorem follow_succ (hblock : block ≠ 0)
    (hsector : blocks block = some sector) :
    follow blocks (count + 1) first = some (nextBlock sector) := by
  refine follow_add hfollow ?_
  rw [follow, if_neg hblock, hsector]
  rfl

/-- Blocks can be skipped from where some of them are skipped already. -/
theorem outcome_skipLoop_follow (rounds : ℕ) :
    outcome blocks (skipLoop (count + rounds) first (dataPerBlock * count + skip)) =
      outcome blocks (skipLoop rounds block skip) := by
  induction count generalizing first with
  | zero =>
    obtain rfl : first = block := Option.some.inj hfollow
    rw [Nat.zero_add, Nat.mul_zero, Nat.zero_add]
  | succ count ih =>
    rw [follow] at hfollow
    split at hfollow
    · exact absurd hfollow (by simp)
    · rename_i hfirst
      obtain ⟨sector, hsector, hrest⟩ := Option.bind_eq_some_iff.mp hfollow
      have hlong : ¬(first = 0 ∨ dataPerBlock * (count + 1) + skip < dataPerBlock) := by
        rw [not_or, Nat.mul_succ]
        exact ⟨hfirst, by omega⟩
      have hless :
          dataPerBlock * (count + 1) + skip - dataPerBlock = dataPerBlock * count + skip := by
        rw [Nat.mul_succ]
        omega
      rw [Nat.add_right_comm, skipLoop, if_neg hlong, outcome_bind, outcome_getBlock,
        hsector, hless]
      exact ih hrest

end

/-- Skipping fails, or ends at the block of the offset or at the end of the chain. -/
theorem outcome_skipLoop (blocks : Blocks) (first : UInt32) (skip : ℕ) :
    outcome blocks (skipLoop (skip / dataPerBlock) first skip) = .error (.error (-1)) ∨
      ∃ count block position,
        outcome blocks (skipLoop (skip / dataPerBlock) first skip) = .ok (block, position) ∧
          follow blocks count first = some block ∧ skip = dataPerBlock * count + position ∧
            (block = 0 ∨ position < dataPerBlock) := by
  generalize hrounds : skip / dataPerBlock = rounds
  induction rounds generalizing first skip with
  | zero =>
    have hshort : skip < dataPerBlock := (Nat.div_eq_zero_iff_lt (by decide)).mp hrounds
    exact Or.inr ⟨0, first, skip, rfl, rfl, by omega, Or.inr hshort⟩
  | succ rounds ih =>
    have hlong : dataPerBlock ≤ skip := by
      by_contra hshort
      rw [Nat.div_eq_of_lt (Nat.lt_of_not_le hshort)] at hrounds
      exact absurd hrounds (by simp)
    by_cases hfirst : first = 0
    · refine Or.inr ⟨0, first, skip, ?_, rfl, by omega, Or.inl hfirst⟩
      rw [skipLoop, if_pos (Or.inl hfirst), outcome_pure]
    · rw [skipLoop, if_neg (not_or.mpr ⟨hfirst, Nat.not_lt.mpr hlong⟩), outcome_bind,
        outcome_getBlock]
      cases hsector : blocks first with
      | none => exact Or.inl rfl
      | some sector =>
        have hless : (skip - dataPerBlock) / dataPerBlock = rounds := by
          have hdiv := Nat.sub_mul_div skip dataPerBlock 1
          rwa [Nat.mul_one, hrounds] at hdiv
        rcases ih (nextBlock sector) (skip - dataPerBlock) hless with
          hfails | ⟨count, block, position, hskips, hfollow, hposition, hinside⟩
        · exact Or.inl hfails
        · refine Or.inr ⟨count + 1, block, position, hskips, ?_, ?_, hinside⟩
          · rw [follow, if_neg hfirst, hsector]
            exact hfollow
          · rw [Nat.mul_succ]
            omega

/-- The reads with a cursor return what the reads without one return, and leave the cursor in the
chain. -/
theorem outcome_readFastLoop (rounds : ℕ) (hfollow : follow blocks count first = some block)
    (hcursor : cursor.block = block) (hoffset : cursor.offset.toNat = dataPerBlock * count)
    (hposition : block = 0 ∨ position < dataPerBlock)
    (hfits : left ≠ 0 → dataPerBlock * count + position + left + dataPerBlock < 4294967296) :
    ∃ after, outcome blocks (readFastLoop rounds block position left cursor) =
        .ok ((outcome blocks (readLoop rounds block position left)).toOption, after) ∧
      Placed blocks first after := by
  have hplaced : Placed blocks first cursor := Or.inr ⟨count, hcursor ▸ hfollow, hoffset⟩
  induction rounds generalizing count block position left cursor with
  | zero => exact ⟨cursor, rfl, hplaced⟩
  | succ rounds ih =>
    rw [readFastLoop, readLoop]
    by_cases hdone : block = 0 ∨ left = 0
    · rw [if_pos hdone, if_pos hdone]
      exact ⟨cursor, rfl, hplaced⟩
    · rw [if_neg hdone, if_neg hdone, outcome_bind, outcome_bind, outcome_attempt, outcome_getBlock]
      obtain ⟨hblock, hleft⟩ := not_or.mp hdone
      cases hsector : blocks block with
      | none => exact ⟨cursor, rfl, hplaced⟩
      | some sector =>
        have hinside := hposition.resolve_left hblock
        have hfits := hfits hleft
        have hnext := follow_succ hfollow hblock hsector
        have hmoved : (cursor.offset + UInt32.ofNat dataPerBlock).toNat =
            dataPerBlock * (count + 1) := by
          have hsize : (UInt32.ofNat dataPerBlock).toNat = dataPerBlock := by decide
          rw [UInt32.toNat_add, hsize, hoffset, Nat.mul_succ]
          exact Nat.mod_eq_of_lt (by omega)
        obtain ⟨after, hreads, hafter⟩ := @ih (nextBlock sector) ⟨nextBlock sector, _⟩ (count + 1) 0
          (left - min (dataPerBlock - position) left) hnext rfl hmoved (Or.inr (by decide))
          (fun hmore ↦ by rw [Nat.mul_succ]; omega) (Or.inr ⟨count + 1, hnext, hmoved⟩)
        refine ⟨after, ?_, hafter⟩
        change outcome blocks (readFastLoop _ _ _ _ _ >>= _) =
          .ok (Except.toOption (outcome blocks (readLoop _ _ _ _ >>= _)), after)
        rw [outcome_bind, outcome_bind, hreads]
        cases outcome blocks (readLoop rounds (nextBlock sector) 0 _) <;> rfl

/-- A call with a cursor returns what the call without one returns, and leaves the cursor in the
chain. -/
theorem outcome_readFileFast {entry : DirEntry} (htype : entry.type = EYNFS_TYPE_FILE)
    (hsize : entry.size.toNat < 4294967296 - dataPerBlock)
    (hplaced : Placed blocks entry.firstBlock cursor) (bufSize offset : ℕ) :
    ∃ after, outcome blocks (readFileFast entry.firstBlock entry.size bufSize offset cursor) =
        .ok ((outcome blocks (readFile entry bufSize offset)).toOption, after) ∧
      Placed blocks entry.firstBlock after := by
  rw [readFileFast, readFile, if_neg (not_not.mpr htype)]
  by_cases hend : entry.size.toNat ≤ offset
  · rw [if_pos hend, if_pos hend]
    exact ⟨cursor, rfl, hplaced⟩
  · rw [if_neg hend, if_neg hend]
    -- the block to start from, and how far the offset is from it
    obtain ⟨count, start, skip, hstart, hfollow, hskip⟩ : ∃ count start skip,
        (if cursor.block ≠ 0 ∧ cursor.offset.toNat ≤ offset then
          (cursor.block, offset - cursor.offset.toNat) else (entry.firstBlock, offset)) =
            (start, skip) ∧ follow blocks count entry.firstBlock = some start ∧
              offset = dataPerBlock * count + skip := by
      by_cases hcovers : cursor.block ≠ 0 ∧ cursor.offset.toNat ≤ offset
      · obtain ⟨count, hfollow, hoffset⟩ := hplaced.resolve_left hcovers.1
        refine ⟨count, cursor.block, offset - cursor.offset.toNat, if_pos hcovers, hfollow, ?_⟩
        rw [← hoffset]
        omega
      · exact ⟨0, entry.firstBlock, offset, if_neg hcovers, rfl, by omega⟩
    have hrounds : offset / dataPerBlock = count + skip / dataPerBlock := by
      rw [hskip, Nat.mul_add_div (by decide)]
    have hplain : outcome blocks (skipLoop (offset / dataPerBlock) entry.firstBlock offset) =
        outcome blocks (skipLoop (skip / dataPerBlock) start skip) := by
      rw [hrounds, hskip]
      exact outcome_skipLoop_follow hfollow _
    simp only [hstart, outcome_bind, outcome_attempt, hplain]
    rcases outcome_skipLoop blocks start skip with
      hfails | ⟨more, block, position, hskips, hreached, hposition, hinside⟩
    · rw [hfails]
      exact ⟨cursor, rfl, hplaced⟩
    · rw [hskips]
      have hwhole := follow_add hfollow hreached
      have hplace : offset - position = dataPerBlock * (count + more) := by
        rw [Nat.mul_add]
        omega
      refine outcome_readFastLoop _ hwhole rfl ?_ hinside fun hleft ↦ ?_
      · have hlt : dataPerBlock * (count + more) < 4294967296 := by omega
        rw [hplace]
        exact UInt32.toNat_ofNat_of_lt' hlt
      · rw [← hplace]
        omega

end Cursor

/-! ### Readers -/

/-- A call of `eynfs_read_file_fast`. -/
structure ReadCall where
  bufSize : ℕ
  offset : ℕ

/-- The file system and the cursor that a reader carries from call to call. -/
structure Reader where
  state : State
  cursor : Cursor

/-- A call of `eynfs_read_file_fast` for a file. -/
def Reader.call (drive : ℕ) (entry : DirEntry) (reader : Reader) (call : ReadCall) :
    Except Stop (Option (List UInt8) × Cursor) × State :=
  run (answer drive)
    (readFileFast entry.firstBlock entry.size call.bufSize call.offset reader.cursor) reader.state

def Reader.step (drive : ℕ) (entry : DirEntry) (reader : Reader) (call : ReadCall) : Reader where
  state := (reader.call drive entry call).2
  cursor :=
    match (reader.call drive entry call).1 with
    | .ok (_, cursor) => cursor
    | .error _ => reader.cursor

def Reader.returned (drive : ℕ) (entry : DirEntry) (reader : Reader) (call : ReadCall) :
    Option (List UInt8) :=
  match (reader.call drive entry call).1 with
  | .ok (bytes, _) => bytes
  | .error _ => none

/-- What `eynfs_read_file` returns. -/
def plainRead (drive : ℕ) (entry : DirEntry) (state : State) (call : ReadCall) :
    Option (List UInt8) :=
  (run (answer drive) (readFile entry call.bufSize call.offset) state).1.toOption

section Reader

variable {drive : ℕ} {blocks : Blocks} {entry : DirEntry} {state : State} {reader : Reader}
  {calls : List ReadCall}

/-- A call returns what the plain read returns, and keeps the cursor in the chain. -/
theorem Reader.call_spec (hserves : Serves drive blocks reader.state)
    (htype : entry.type = EYNFS_TYPE_FILE)
    (hsize : entry.size.toNat < 4294967296 - dataPerBlock)
    (hplaced : Placed blocks entry.firstBlock reader.cursor) (call : ReadCall) :
    reader.returned drive entry call = plainRead drive entry reader.state call ∧
      Serves drive blocks (reader.step drive entry call).state ∧
      Placed blocks entry.firstBlock (reader.step drive entry call).cursor := by
  obtain ⟨after, hfast, hafter⟩ := outcome_readFileFast htype hsize hplaced call.bufSize call.offset
  obtain ⟨hcall, hserved⟩ := hserves.run_eq (only_readFileFast entry.firstBlock entry.size
    call.bufSize call.offset reader.cursor)
  have hplain := (hserves.run_eq (only_readFile entry call.bufSize call.offset)).1
  rw [hfast] at hcall
  unfold Reader.returned Reader.step Reader.call plainRead
  simp only [hcall, hplain]
  exact ⟨trivial, hserved, hafter⟩

/-- A reader that carries the cursor from call to call gets what the plain read gets. -/
theorem cursor_read_eq (hserves : Serves drive blocks state)
    (htype : entry.type = EYNFS_TYPE_FILE)
    (hsize : entry.size.toNat < 4294967296 - dataPerBlock)
    (hrun : Run (Moves (Reader.step drive entry)) ⟨state, ⟨0, 0⟩⟩ calls reader) (call : ReadCall) :
    reader.returned drive entry call = plainRead drive entry reader.state call := by
  have hstep (before : Reader) (label : ReadCall) (after : Reader)
      (hbefore : Serves drive blocks before.state ∧ Placed blocks entry.firstBlock before.cursor)
      (hmoves : Moves (Reader.step drive entry) before label after) :
      Serves drive blocks after.state ∧ Placed blocks entry.firstBlock after.cursor := by
    obtain ⟨-, hafter⟩ := Reader.call_spec hbefore.1 htype hsize hbefore.2 label
    exact hmoves ▸ hafter
  obtain ⟨hserved, hplaced⟩ := hrun.invariant hstep ⟨hserves, Or.inl rfl⟩
  exact (Reader.call_spec hserved htype hsize hplaced call).1

end Reader

def chainDrive : Disk where
  sectors lba := if lba = blockToLba 3 then setNext zeroBlock 4 else zeroBlock
  fails _ _ := false
  accesses _ := 0
  written _ := []

def chainEntry : DirEntry := (newEntry [65] EYNFS_TYPE_FILE 0).setContents 3 700

/-- After reads in both blocks the cursor is in the second one, and a read before it starts over. -/
theorem cursor_read_eq_back :
    ([⟨100, 0⟩, ⟨600, 100⟩].foldl (Reader.step 0 chainEntry)
        ⟨.boot (fun _ ↦ chainDrive) 16, ⟨0, 0⟩⟩).returned 0 chainEntry ⟨50, 480⟩ =
      plainRead 0 chainEntry
        ([⟨100, 0⟩, ⟨600, 100⟩].foldl (Reader.step 0 chainEntry)
          ⟨.boot (fun _ ↦ chainDrive) 16, ⟨0, 0⟩⟩).state ⟨50, 480⟩ := by
  have hcoherent : Coherent 0 (.boot (fun _ ↦ chainDrive) 16) chainDrive.sectors :=
    (current_start 0 16 fun _ _ ↦ rfl).coherent
  exact cursor_read_eq hcoherent.serves (by decide +kernel) (by decide +kernel)
    (Run.of_foldl _ _ _) ⟨50, 480⟩

end EynOS.Storage
