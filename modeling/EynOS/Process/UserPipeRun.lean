import EynOS.Process.UserPipe

/-!
# Pipes as byte streams

`pipe_stream` is the invariant of a pipe: what its writers have had accepted is what its readers
have got followed by what is queued, buffer before spool, and a call that fails because of the
user's memory changes nothing. It holds in the runs whose steps are `Permitted`: bytes are only
stored in the buffer while the spool is empty, only an empty spool is disabled, and a copy that
fails is the first one of its call. `not_pipe_stream` is a history in which a reader gets a byte
before older ones.
-/

namespace EynOS.Process.UserPipe

open Foundation CountedRing

variable {access : Access} {capacity dst src len maxlen rounds : ℕ} {ring : CountedRing UInt8}
  {copied : List UInt8}

/-! ### Copying pieces -/

/-- The copy of a piece of a block at an address succeeds. -/
def Access.Copies (access : Access) (address : ℕ) (piece : ℕ × ℕ) : Prop :=
  access.succeeds (u32 (address + piece.1)) piece.2 = true

/-- As many bytes are read from user memory as are asked for. -/
@[simp] theorem length_bytes (access : Access) (address count : ℕ) :
    (access.bytes address count).length = count := by
  simp [Access.bytes]

/-- There is nothing more to copy out where enough is copied or the ring is empty. -/
theorem copyout_stop (hstop : min (maxlen - copied.length) ring.used = 0) :
    userPipeCopyoutBytes access capacity dst maxlen rounds copied ring = (some copied, ring) := by
  cases rounds with
  | zero => rfl
  | succ rounds =>
    unfold userPipeCopyoutBytes
    rw [if_neg (by omega)]

/-- Where every piece is copied, the bytes from the front of the ring are. -/
theorem copyout_eq (access : Access) (dst maxlen rounds : ℕ) (copied : List UInt8)
    (hfits : Fits capacity ring)
    (hrounds : min (maxlen - copied.length) ring.used ≤ rounds)
    (hcopies : ∀ piece ∈ pieces capacity ring.readPos (min (maxlen - copied.length) ring.used),
      access.Copies (dst + copied.length) piece) :
    userPipeCopyoutBytes access capacity dst maxlen rounds copied ring =
      (some (copied ++ (ring.contents capacity).take (min (maxlen - copied.length) ring.used)),
        ring.consume capacity (min (maxlen - copied.length) ring.used)) := by
  generalize hcount : min (maxlen - copied.length) ring.used = count at hrounds hcopies ⊢
  induction rounds generalizing copied ring count with
  | zero =>
    obtain rfl : count = 0 := Nat.le_zero.mp hrounds
    rw [copyout_stop hcount, hfits.consume_zero, List.take_zero, List.append_nil]
  | succ rounds ih =>
    by_cases hzero : count = 0
    · rw [hzero] at hcount
      rw [copyout_stop hcount, hzero, hfits.consume_zero, List.take_zero, List.append_nil]
    · have hpositive : 0 < count := Nat.pos_of_ne_zero hzero
      have hwanted : count ≤ maxlen - copied.length := hcount ▸ Nat.min_le_left _ _
      have hused : count ≤ ring.used := hcount ▸ Nat.min_le_right _ _
      have hroom : 0 < capacity - ring.readPos := Nat.sub_pos_of_lt hfits.readPos_lt
      generalize hchunk : min count (capacity - ring.readPos) = chunk
      have hchunkPositive : 0 < chunk := hchunk ▸ Nat.lt_min.mpr ⟨hpositive, hroom⟩
      have hle : chunk ≤ count := hchunk ▸ Nat.min_le_left _ _
      have hend : chunk ≤ capacity - ring.readPos := hchunk ▸ Nat.min_le_right _ _
      have hmin : min (maxlen - copied.length) (min (capacity - ring.readPos) ring.used) =
          chunk := by
        rw [Nat.min_comm (capacity - ring.readPos), ← Nat.min_assoc, hcount, hchunk]
      rw [pieces_eq_cons hfits.readPos_lt hpositive (hused.trans hfits.used_le), hchunk] at hcopies
      have hfirst : access.succeeds (u32 (dst + copied.length)) chunk = true :=
        hcopies (0, chunk) List.mem_cons_self
      have hfront : ring.front chunk = (ring.contents capacity).take chunk :=
        front_eq (hle.trans hused) ((Nat.add_le_of_le_sub' hfits.readPos_lt.le) hend)
      have hlength : (copied ++ ring.front chunk).length = copied.length + chunk := by
        rw [List.length_append, length_front]
      have hgo : copied.length < maxlen ∧ 0 < ring.used :=
        ⟨Nat.lt_of_sub_pos (hpositive.trans_le hwanted), hpositive.trans_le hused⟩
      unfold userPipeCopyoutBytes
      simp only [hmin]
      rw [if_pos hgo, if_neg hchunkPositive.ne', if_neg (by simp [hfirst])]
      have hrest : Fits capacity (ring.consume capacity chunk) := hfits.consume (hle.trans hused)
      have hcountRest : min (maxlen - (copied ++ ring.front chunk).length)
          (ring.consume capacity chunk).used = count - chunk := by
        rw [hlength, ← Nat.sub_sub, ← hcount]
        exact Nat.sub_min_sub_right _ _ _
      rw [ih _ hrest (count - chunk) hcountRest (by omega)]
      · rw [Fits.consume_consume, contents_consume, hfront, List.append_assoc, ← List.take_add,
          Nat.add_sub_of_le hle]
      · intro piece hpiece
        have hcopy := hcopies _ (List.mem_cons_of_mem _ (List.mem_map_of_mem hpiece))
        rw [hlength]
        simpa only [Access.Copies, Nat.add_assoc] using hcopy

/-- Where the first piece is not copied, nothing is. -/
theorem copyout_fault {piece : ℕ × ℕ} {rest : List (ℕ × ℕ)} (hfits : Fits capacity ring)
    (hrounds : maxlen ≤ rounds)
    (hpieces : pieces capacity ring.readPos (min maxlen ring.used) = piece :: rest)
    (hcopy : ¬access.Copies dst piece) :
    userPipeCopyoutBytes access capacity dst maxlen rounds [] ring = (none, ring) := by
  have hread := hfits.readPos_lt
  have hused := hfits.used_le
  have hpositive : 0 < min maxlen ring.used := by
    rw [Nat.pos_iff_ne_zero]
    intro hzero
    rw [hzero, pieces_zero] at hpieces
    exact List.cons_ne_nil _ _ hpieces.symm
  rw [pieces_eq_cons hread hpositive (by omega)] at hpieces
  obtain ⟨rounds, rfl⟩ : ∃ later, rounds = later + 1 := ⟨rounds - 1, by omega⟩
  have hmin : min (maxlen - 0) (min (capacity - ring.readPos) ring.used) =
      min (min maxlen ring.used) (capacity - ring.readPos) := by omega
  rw [← (List.cons.inj hpieces).1] at hcopy
  unfold userPipeCopyoutBytes
  simp only [List.length_nil, hmin]
  rw [if_pos (by omega), if_neg (by omega), if_pos (Bool.eq_false_of_not_eq_true hcopy)]

/-- There is nothing more to copy in where enough is copied or the ring is full. -/
theorem copyin_stop (hstop : min (len - copied.length) (capacity - ring.used) = 0) :
    userPipeCopyinBytes access capacity src len rounds copied ring = (some copied, ring) := by
  cases rounds with
  | zero => rfl
  | succ rounds =>
    unfold userPipeCopyinBytes
    by_cases hlen : copied.length < len
    · rw [if_pos hlen]
      dsimp only
      rw [if_pos (by omega)]
    · rw [if_neg hlen]

/-- Where every piece is copied, the bytes from user memory are appended to the ring. -/
theorem copyin_eq (access : Access) (src len rounds : ℕ) (copied : List UInt8)
    (hfits : Fits capacity ring)
    (hrounds : min (len - copied.length) (capacity - ring.used) ≤ rounds)
    (hcopies : ∀ piece ∈ pieces capacity ring.writePos
        (min (len - copied.length) (capacity - ring.used)),
      access.Copies (src + copied.length) piece) :
    ∃ bytes filled, userPipeCopyinBytes access capacity src len rounds copied ring =
        (some (copied ++ bytes), filled) ∧
      bytes.length = min (len - copied.length) (capacity - ring.used) ∧
      Fits capacity filled ∧ filled.contents capacity = ring.contents capacity ++ bytes := by
  generalize hcount : min (len - copied.length) (capacity - ring.used) = count at hrounds hcopies ⊢
  induction rounds generalizing copied ring count with
  | zero =>
    obtain rfl : count = 0 := Nat.le_zero.mp hrounds
    exact ⟨[], ring, by rw [copyin_stop hcount, List.append_nil], rfl, hfits, by simp⟩
  | succ rounds ih =>
    by_cases hzero : count = 0
    · rw [hzero] at hcount
      exact ⟨[], ring, by rw [copyin_stop hcount, List.append_nil], hzero.symm, hfits, by simp⟩
    · have hpositive : 0 < count := Nat.pos_of_ne_zero hzero
      have hwanted : count ≤ len - copied.length := hcount ▸ Nat.min_le_left _ _
      have hfree : count ≤ capacity - ring.used := hcount ▸ Nat.min_le_right _ _
      have hwrite := hfits.writePos_lt
      have hroom : 0 < capacity - ring.writePos := Nat.sub_pos_of_lt hwrite
      generalize hchunk : min count (capacity - ring.writePos) = chunk
      have hchunkPositive : 0 < chunk := hchunk ▸ Nat.lt_min.mpr ⟨hpositive, hroom⟩
      have hle : chunk ≤ count := hchunk ▸ Nat.min_le_left _ _
      have hend : chunk ≤ capacity - ring.writePos := hchunk ▸ Nat.min_le_right _ _
      have hmin :
        min (len - copied.length) (min (capacity - ring.writePos) (capacity - ring.used)) =
          chunk := by
        rw [Nat.min_comm (capacity - ring.writePos), ← Nat.min_assoc, hcount, hchunk]
      rw [pieces_eq_cons hwrite hpositive (hfree.trans (Nat.sub_le _ _)), hchunk] at hcopies
      have hfirst : access.succeeds (u32 (src + copied.length)) chunk = true :=
        hcopies (0, chunk) List.mem_cons_self
      generalize hbytes : access.bytes (src + copied.length) chunk = bytes
      have hlength : bytes.length = chunk := by
        rw [← hbytes, length_bytes]
      unfold userPipeCopyinBytes
      simp only [hmin, hbytes]
      rw [if_pos (Nat.lt_of_sub_pos (hpositive.trans_le hwanted)),
        if_neg (hpositive.trans_le hfree).ne', if_neg hchunkPositive.ne', if_neg (by simp [hfirst])]
      have hfilledRoom : ring.used + bytes.length ≤ capacity := by
        rw [hlength]
        exact Nat.add_le_of_le_sub' hfits.used_le (hle.trans hfree)
      have hfilledEnd : ring.writePos + bytes.length ≤ capacity := by
        rw [hlength]
        exact Nat.add_le_of_le_sub' hwrite.le hend
      have hrest : Fits capacity (ring.fill capacity bytes) := hfits.fill hfilledRoom
      have hcontents := hfits.contents_fill hfilledRoom hfilledEnd
      have happended : (copied ++ bytes).length = copied.length + chunk := by
        rw [List.length_append, hlength]
      have hcountRest : min (len - (copied ++ bytes).length)
          (capacity - (ring.fill capacity bytes).used) = count - chunk := by
        simp only [happended, CountedRing.fill, hlength, ← Nat.sub_sub, ← hcount]
        exact Nat.sub_min_sub_right _ _ _
      have hcopiesRest : ∀ piece ∈ pieces capacity (ring.fill capacity bytes).writePos
          (count - chunk), access.Copies (src + (copied ++ bytes).length) piece := by
        intro piece hpiece
        simp only [CountedRing.fill, hlength] at hpiece
        have hcopy := hcopies _ (List.mem_cons_of_mem _ (List.mem_map_of_mem hpiece))
        rw [happended]
        simpa only [Access.Copies, Nat.add_assoc] using hcopy
      obtain ⟨more, filled, hresult, hmore, hfilled, hlist⟩ :=
        ih _ hrest (count - chunk) hcountRest (by omega) hcopiesRest
      refine ⟨bytes ++ more, filled, ?_, ?_, hfilled, ?_⟩
      · rw [hresult, List.append_assoc]
      · rw [List.length_append, hlength, hmore, Nat.add_sub_of_le hle]
      · rw [hlist, hcontents, List.append_assoc]

/-- Where the first piece is not copied, nothing is stored. -/
theorem copyin_fault {piece : ℕ × ℕ} {rest : List (ℕ × ℕ)} (hfits : Fits capacity ring)
    (hrounds : len ≤ rounds)
    (hpieces : pieces capacity ring.writePos (min len (capacity - ring.used)) = piece :: rest)
    (hcopy : ¬access.Copies src piece) :
    userPipeCopyinBytes access capacity src len rounds [] ring = (none, ring) := by
  have hused := hfits.used_le
  have hpositive : 0 < min len (capacity - ring.used) := by
    rw [Nat.pos_iff_ne_zero]
    intro hzero
    rw [hzero, pieces_zero] at hpieces
    exact List.cons_ne_nil _ _ hpieces.symm
  have hwrite : ring.writePos < capacity := by
    rw [hfits.writePos_eq]
    exact Nat.mod_lt _ (by omega)
  rw [pieces_eq_cons hwrite hpositive (by omega)] at hpieces
  obtain ⟨rounds, rfl⟩ : ∃ later, rounds = later + 1 := ⟨rounds - 1, by omega⟩
  have hmin : min (len - 0) (min (capacity - ring.writePos) (capacity - ring.used)) =
      min (min len (capacity - ring.used)) (capacity - ring.writePos) := by omega
  rw [← (List.cons.inj hpieces).1] at hcopy
  unfold userPipeCopyinBytes
  simp only [List.length_nil, hmin]
  rw [if_pos (by omega), if_neg (by omega), if_neg (by omega),
    if_pos (Bool.eq_false_of_not_eq_true hcopy)]

/-! ### The invariant -/

/-- The rings fit, and the spool has memory where it is enabled and has bytes only there. -/
structure Sound (pipe : Pipe) : Prop where
  buffer : Fits USER_PIPE_BUFFER_BYTES pipe.buffer
  spool : pipe.spoolBuf = true → Fits pipe.spoolCap pipe.spool
  enabled : pipe.spoolEnabled = true → pipe.spoolBuf = true
  idle : pipe.spoolBuf = false → pipe.spool.used = 0

/-- The bytes that are queued, in the order in which a reader gets them. -/
def Pipe.queued (pipe : Pipe) : List UInt8 :=
  pipe.buffer.contents USER_PIPE_BUFFER_BYTES ++ pipe.spool.contents pipe.spoolCap

/-- What is queued of a stream has been accepted and not yet returned. -/
structure Flows (stream : Stream) : Prop where
  sound : Sound stream.pipe
  accepted : stream.accepted = stream.returned ++ stream.pipe.queued

/-! ### Which steps keep it -/

/-- A copy that fails is the first one, and what holds beside holds where the first one succeeds. -/
def Access.FailsFirst (access : Access) (address : ℕ) (beside : Prop) : List (ℕ × ℕ) → Prop
  | [] => True
  | piece :: rest =>
    access.Copies address piece → (∀ later ∈ rest, access.Copies address later) ∧ beside

/-- The pieces of a second block that follows a first one. -/
def following (first : ℕ) (second : List (ℕ × ℕ)) : List (ℕ × ℕ) :=
  second.map fun piece ↦ (first + piece.1, piece.2)

def readPieces (pipe : Pipe) (maxlen : ℕ) : List (ℕ × ℕ) :=
  let first := min maxlen pipe.buffer.used
  pieces USER_PIPE_BUFFER_BYTES pipe.buffer.readPos first ++
    following first
      (pieces pipe.spoolCap pipe.spool.readPos (min (maxlen - first) pipe.spool.used))

def writePieces (pipe : Pipe) (len : ℕ) : List (ℕ × ℕ) :=
  let first := min len (USER_PIPE_BUFFER_BYTES - pipe.buffer.used)
  pieces USER_PIPE_BUFFER_BYTES pipe.buffer.writePos first ++
    following first
      (if pipe.spoolEnabled then
        pieces pipe.spoolCap pipe.spool.writePos
          (min (len - first) (pipe.spoolCap - pipe.spool.used))
      else [])

/-- Where there is room in the buffer, the spool is empty. -/
def Pipe.InOrder (pipe : Pipe) : Prop :=
  pipe.buffer.used < USER_PIPE_BUFFER_BYTES → pipe.spool.used = 0

/-- The steps that keep a pipe a stream. -/
def Permitted (stream : Stream) : Event → Prop
  | .setSpool enabled _ => enabled = false → stream.pipe.spool.used = 0
  | .read access dst maxlen _ _ =>
    access.FailsFirst dst True (readPieces stream.pipe maxlen.toNat)
  | .write access src len _ _ =>
    stream.pipe.used = true → stream.pipe.readerRefs ≠ 0 →
      access.FailsFirst src stream.pipe.InOrder (writePieces stream.pipe len.toNat)
  | .resumeWrite access src len progress _ _ =>
    access.FailsFirst (src + progress) stream.pipe.InOrder
        (writePieces stream.pipe (len - progress)) ∧
      (0 < progress → ∀ piece ∈ writePieces stream.pipe (len - progress),
        access.Copies (src + progress) piece)
  | _ => True

instance (access : Access) (address : ℕ) (piece : ℕ × ℕ) :
    Decidable (access.Copies address piece) :=
  inferInstanceAs (Decidable (_ = true))

instance (access : Access) (address : ℕ) (beside : Prop) [Decidable beside] :
    DecidablePred (access.FailsFirst address beside)
  | [] => inferInstanceAs (Decidable True)
  | _ :: _ => inferInstanceAs (Decidable (_ → _ ∧ _))

instance (pipe : Pipe) : Decidable pipe.InOrder := inferInstanceAs (Decidable (_ → _))

instance (stream : Stream) : DecidablePred (Permitted stream)
  | .alloc _ => inferInstanceAs (Decidable True)
  | .openEnd _ => inferInstanceAs (Decidable True)
  | .release _ => inferInstanceAs (Decidable True)
  | .setSpool _ _ => inferInstanceAs (Decidable (_ → _))
  | .read access dst maxlen _ _ =>
    inferInstanceAs (Decidable (access.FailsFirst dst True (readPieces stream.pipe maxlen.toNat)))
  | .write _ _ _ _ _ => inferInstanceAs (Decidable (_ → _ → _))
  | .resumeWrite _ _ _ _ _ _ => inferInstanceAs (Decidable (_ ∧ _))

/-- The bytes that a call has stored before an event. -/
def Event.progress : Event → ℕ
  | .resumeWrite _ _ _ progress _ _ => progress
  | _ => 0

variable {pipe : Pipe} {progress : ℕ}

theorem Access.FailsFirst.cases {address : ℕ} {beside : Prop} {list : List (ℕ × ℕ)}
    (hfirst : access.FailsFirst address beside list) :
    (∃ piece rest, list = piece :: rest ∧ ¬access.Copies address piece) ∨
      (∀ piece ∈ list, access.Copies address piece) ∧ (list = [] ∨ beside) := by
  cases list with
  | nil => exact Or.inr ⟨fun _ hpiece ↦ absurd hpiece List.not_mem_nil, Or.inl rfl⟩
  | cons piece rest =>
    by_cases hcopy : access.Copies address piece
    · refine Or.inr ⟨?_, Or.inr (hfirst hcopy).2⟩
      exact List.forall_mem_cons.mpr ⟨hcopy, (hfirst hcopy).1⟩
    · exact Or.inl ⟨piece, rest, rfl, hcopy⟩

/-- Pieces that follow a first block are copied to the addresses behind it. -/
theorem copies_following {address first : ℕ} {list : List (ℕ × ℕ)}
    (hcopies : ∀ piece ∈ following first list, access.Copies address piece) :
    ∀ piece ∈ list, access.Copies (address + first) piece := by
  intro piece hpiece
  have hcopy := hcopies _ (List.mem_map_of_mem hpiece)
  simpa only [Access.Copies, Nat.add_assoc] using hcopy

theorem following_zero (list : List (ℕ × ℕ)) : following 0 list = list := by
  simp [following]

/-! ### Reading -/

theorem Sound.consume_buffer {count : ℕ} (hsound : Sound pipe) (hcount : count ≤ pipe.buffer.used) :
    Sound { pipe with buffer := pipe.buffer.consume USER_PIPE_BUFFER_BYTES count } :=
  ⟨hsound.buffer.consume hcount, hsound.spool, hsound.enabled, hsound.idle⟩

theorem Sound.spoolBuf_of_used (hsound : Sound pipe) (hused : pipe.spool.used ≠ 0) :
    pipe.spoolBuf = true := by
  by_contra hidle
  exact hused (hsound.idle (Bool.eq_false_of_not_eq_true hidle))

/-- Taking bytes from the front of the spool. -/
theorem Sound.consume_spool {count : ℕ} (hsound : Sound pipe) (hcount : count ≤ pipe.spool.used) :
    Sound { pipe with spool := pipe.spool.consume pipe.spoolCap count } where
  buffer := hsound.buffer
  spool hbuf := (hsound.spool hbuf).consume hcount
  enabled := hsound.enabled
  idle hbuf := by
    simp only [consume, hsound.idle hbuf, Nat.zero_sub]

/-- A read that copies every piece takes its bytes from the front of the queue. -/
theorem read_flows {maxlen : ℤ} (nonblock interrupt : Bool) (hsound : Sound pipe)
    (hcopies : ∀ piece ∈ readPieces pipe maxlen.toNat, access.Copies dst piece) :
    Sound (userPipeRead access dst maxlen nonblock interrupt pipe).2 ∧
      pipe.queued = (userPipeRead access dst maxlen nonblock interrupt pipe).1.moved ++
        (userPipeRead access dst maxlen nonblock interrupt pipe).2.queued ∧
      (userPipeRead access dst maxlen nonblock interrupt pipe).1 ≠ .fault := by
  obtain ⟨hfirst, hsecond⟩ := List.forall_mem_append.mp hcopies
  unfold userPipeRead
  generalize maxlen.toNat = n at hfirst hsecond ⊢
  have hcopyout := copyout_eq access dst n n [] hsound.buffer
    (by simp) (by simpa using hfirst)
  simp only [List.length_nil, Nat.sub_zero, List.nil_append] at hcopyout
  generalize hcount : min n pipe.buffer.used = count at hcopyout hsecond
  have hconsumed := hsound.consume_buffer (by omega : count ≤ pipe.buffer.used)
  have hlength : ((pipe.buffer.contents USER_PIPE_BUFFER_BYTES).take count).length = count := by
    rw [List.length_take, length_contents]
    omega
  split_ifs
  · exact ⟨hsound, rfl, Response.noConfusion⟩
  · exact ⟨hsound, rfl, Response.noConfusion⟩
  · exact ⟨hsound, rfl, Response.noConfusion⟩
  · exact ⟨hsound, rfl, Response.noConfusion⟩
  · exact ⟨hsound, rfl, Response.noConfusion⟩
  · simp only [hcopyout, hlength]
    split_ifs with hdone
    · refine ⟨hconsumed, ?_, Response.noConfusion⟩
      simp only [Pipe.queued, Response.moved, contents_consume]
      rw [← List.append_assoc, List.take_append_drop]
    · obtain ⟨hmore, hspool⟩ := not_or.mp hdone
      have hcap := hsound.spool (hsound.spoolBuf_of_used hspool)
      have hall : count = pipe.buffer.used := by omega
      have hrest := copyout_eq access (dst + count) (n - count) (n - count) [] hcap (by simp)
        (by simpa using copies_following hsecond)
      simp only [List.length_nil, Nat.sub_zero, List.nil_append] at hrest
      simp only [hrest]
      generalize hcountSpool : min (n - count) pipe.spool.used = countSpool
      have hle : countSpool ≤ pipe.spool.used := hcountSpool ▸ Nat.min_le_right _ _
      refine ⟨hconsumed.consume_spool hle, ?_, Response.noConfusion⟩
      · simp only [Pipe.queued, Response.moved, contents_consume]
        have htake : (pipe.buffer.contents USER_PIPE_BUFFER_BYTES).take count =
            pipe.buffer.contents USER_PIPE_BUFFER_BYTES := by
          rw [List.take_of_length_le]
          rw [length_contents, hall]
        have hdrop : (pipe.buffer.contents USER_PIPE_BUFFER_BYTES).drop count = [] := by
          rw [List.drop_eq_nil_iff, length_contents, hall]
        rw [htake, hdrop, List.nil_append, List.append_assoc, List.take_append_drop]

/-- A read whose first copy fails takes nothing. -/
theorem read_fault {maxlen : ℤ} {piece : ℕ × ℕ} {rest : List (ℕ × ℕ)}
    (nonblock interrupt : Bool) (hsound : Sound pipe)
    (hpieces : readPieces pipe maxlen.toNat = piece :: rest) (hcopy : ¬access.Copies dst piece) :
    (userPipeRead access dst maxlen nonblock interrupt pipe).2 = pipe ∧
      (userPipeRead access dst maxlen nonblock interrupt pipe).1.moved = [] := by
  unfold userPipeRead
  generalize maxlen.toNat = n at hpieces ⊢
  unfold readPieces at hpieces
  dsimp only at hpieces
  split_ifs with _ _ hempty
  · exact ⟨rfl, rfl⟩
  · exact ⟨rfl, rfl⟩
  · exact ⟨rfl, rfl⟩
  · exact ⟨rfl, rfl⟩
  · exact ⟨rfl, rfl⟩
  · by_cases hfirst : min n pipe.buffer.used = 0
    · -- the buffer is empty and the first piece is in the spool
      rw [hfirst, pieces_zero, List.nil_append, following_zero, Nat.sub_zero] at hpieces
      have hspool : pipe.spool.used ≠ 0 := by
        intro hzero
        rw [hzero, Nat.min_zero, pieces_zero] at hpieces
        exact List.cons_ne_nil _ _ hpieces.symm
      have hn : n ≠ 0 := by
        rintro rfl
        rw [Nat.zero_min, pieces_zero] at hpieces
        exact List.cons_ne_nil _ _ hpieces.symm
      have hcap := hsound.spool (hsound.spoolBuf_of_used hspool)
      have hfault := copyout_fault hcap (le_refl n) hpieces hcopy
      have hstop : min (n - ([] : List UInt8).length) pipe.buffer.used = 0 := hfirst
      simp only [copyout_stop hstop, List.length_nil, Nat.sub_zero, Nat.add_zero, hfault]
      rw [if_neg (by simp [hn, hspool])]
      exact ⟨rfl, rfl⟩
    · have hpositive := Nat.pos_of_ne_zero hfirst
      have hread := hsound.buffer.readPos_lt
      have hle : min n pipe.buffer.used ≤ USER_PIPE_BUFFER_BYTES :=
        (Nat.min_le_right _ _).trans hsound.buffer.used_le
      have hfault : userPipeCopyoutBytes access USER_PIPE_BUFFER_BYTES dst n n [] pipe.buffer =
          (none, pipe.buffer) := by
        have hcons := pieces_eq_cons hread hpositive hle
        refine copyout_fault hsound.buffer le_rfl hcons ?_
        rw [hcons, List.cons_append] at hpieces
        rw [(List.cons.inj hpieces).1]
        exact hcopy
      rw [hfault]
      exact ⟨rfl, rfl⟩

/-! ### Writing -/

/-- Storing bytes in the buffer while the spool is empty. -/
theorem Sound.fill_buffer {filled : CountedRing UInt8} (hsound : Sound pipe)
    (hfits : Fits USER_PIPE_BUFFER_BYTES filled) : Sound { pipe with buffer := filled } :=
  ⟨hfits, hsound.spool, hsound.enabled, hsound.idle⟩

/-- Storing bytes in a spool that has memory. -/
theorem Sound.fill_spool {filled : CountedRing UInt8} (hsound : Sound pipe)
    (hbuf : pipe.spoolBuf = true) (hfits : Fits pipe.spoolCap filled) :
    Sound { pipe with spool := filled } where
  buffer := hsound.buffer
  spool _ := hfits
  enabled := hsound.enabled
  idle hidle := absurd (hbuf.symm.trans hidle) (by decide)

/-- A write that cannot go on has stored what it responds. -/
theorem moved_stored (progress : ℕ) (bytes : List UInt8) :
    (stored progress bytes).moved = bytes ∧ stored progress bytes ≠ .fault := by
  unfold stored
  split_ifs with hzero
  · obtain rfl : bytes = [] := List.eq_nil_of_length_eq_zero (Nat.eq_zero_of_add_eq_zero_left hzero)
    exact ⟨rfl, Response.noConfusion⟩
  · exact ⟨rfl, Response.noConfusion⟩

theorem min_sub_stored (left room : ℕ) : min (left - min left room) (room - min left room) = 0 := by
  rw [Nat.sub_min_sub_right, Nat.sub_self]

theorem used_of_contents {filled : CountedRing UInt8} {wrote : List UInt8}
    (hcontents : filled.contents capacity = ring.contents capacity ++ wrote) :
    filled.used = ring.used + wrote.length := by
  rw [← length_contents, hcontents, List.length_append, length_contents]

/-- What is left behind a piece that was copied. -/
theorem rounds_behind {wrote : List UInt8} {n left room : ℕ} (hn : progress + bytes.length = n)
    (hleft : len - n = left) (hlength : wrote.length = min left room) (hless : 0 < left)
    (hroom : 0 < room) (hrounds : left ≤ rounds + 1) :
    progress + (bytes ++ wrote).length = n + wrote.length ∧
      len - (progress + (bytes ++ wrote).length) = left - wrote.length ∧
      len - (progress + (bytes ++ wrote).length) ≤ rounds := by
  have hnext : progress + (bytes ++ wrote).length = n + wrote.length := by
    rw [List.length_append, ← hn, Nat.add_assoc]
  have hrest : len - (progress + (bytes ++ wrote).length) = left - wrote.length := by
    rw [hnext, ← Nat.sub_sub, hleft]
  refine ⟨hnext, hrest, ?_⟩
  rw [hrest]
  have hpositive : 0 < wrote.length := by
    rw [hlength]
    exact Nat.lt_min.mpr ⟨hless, hroom⟩
  omega

/-- A write that copies every piece appends its bytes to the queue. -/
theorem writeLoop_flows (nonblock interrupt : Bool) (bytes : List UInt8) (hsound : Sound pipe)
    (hrounds : len - (progress + bytes.length) ≤ rounds)
    (hcopies : ∀ piece ∈ writePieces pipe (len - (progress + bytes.length)),
      access.Copies (src + (progress + bytes.length)) piece)
    (horder : progress + bytes.length < len → pipe.InOrder) :
    ∃ more,
      Sound (userPipeWriteLoop access src len progress nonblock interrupt rounds bytes pipe).2 ∧
      (userPipeWriteLoop access src len progress nonblock interrupt rounds bytes pipe).2.queued =
        pipe.queued ++ more ∧
      (userPipeWriteLoop access src len progress nonblock interrupt rounds bytes pipe).1.moved =
        bytes ++ more ∧
      (userPipeWriteLoop access src len progress nonblock interrupt rounds bytes pipe).1 ≠
        .fault := by
  induction rounds generalizing bytes pipe with
  | zero =>
    exact ⟨[], hsound, by simp [userPipeWriteLoop], by simp [userPipeWriteLoop, Response.moved],
      Response.noConfusion⟩
  | succ rounds ih =>
    unfold userPipeWriteLoop
    dsimp only
    generalize hn : progress + bytes.length = n at hrounds hcopies horder ⊢
    generalize hleft : len - n = left at hrounds hcopies ⊢
    obtain ⟨hfirst, hsecond⟩ := List.forall_mem_append.mp hcopies
    split_ifs with hdone hfull hstop hroom hspool
    · exact ⟨[], hsound, by simp, by simp [Response.moved], Response.noConfusion⟩
    · exact ⟨[], hsound, by simp, by simp [(moved_stored _ _).1], (moved_stored _ _).2⟩
    · exact ⟨[], hsound, by simp, by simp [Response.moved], Response.noConfusion⟩
    · obtain ⟨wrote, filled, hcopyin, hlength, hfits, hcontents⟩ :=
        copyin_eq access (src + n) left left [] hsound.buffer (by simp) (by simpa using hfirst)
      simp only [List.length_nil, Nat.sub_zero, List.nil_append] at hcopyin hlength
      simp only [hcopyin]
      have hused := used_of_contents hcontents
      have hspoolUsed : pipe.spool.used = 0 := horder (Nat.lt_of_not_le hdone) hroom
      obtain ⟨hnext, hrest, hroundsNext⟩ :=
        rounds_behind hn hleft hlength (by omega) (Nat.sub_pos_of_lt hroom) hrounds
      have hcopiesNext : ∀ piece ∈ writePieces { pipe with buffer := filled }
          (len - (progress + (bytes ++ wrote).length)),
          access.Copies (src + (progress + (bytes ++ wrote).length)) piece := by
        have hfull : min (left - wrote.length) (USER_PIPE_BUFFER_BYTES - filled.used) = 0 := by
          rw [hused, ← Nat.sub_sub, hlength]
          exact min_sub_stored _ _
        have hspoolPieces := copies_following hsecond
        rw [← hlength] at hspoolPieces
        rw [hrest, hnext, ← Nat.add_assoc]
        simp only [writePieces, hfull, pieces_zero, List.nil_append, following_zero, Nat.sub_zero]
        exact hspoolPieces
      obtain ⟨more, hafter, hqueued, hmoved, hfault⟩ :=
        ih _ (hsound.fill_buffer hfits) hroundsNext hcopiesNext fun _ _ ↦ hspoolUsed
      refine ⟨wrote ++ more, hafter, ?_, ?_, hfault⟩
      · rw [hqueued]
        simp only [Pipe.queued, hcontents, contents_of_used_eq_zero hspoolUsed, List.append_nil,
          List.append_assoc]
      · rw [hmoved, List.append_assoc]
    · obtain ⟨_, hbuf, hspoolRoom⟩ := hspool
      have hzero : min left (USER_PIPE_BUFFER_BYTES - pipe.buffer.used) = 0 := by
        rw [Nat.sub_eq_zero_of_le (Nat.le_of_not_lt hroom), Nat.min_zero]
      rw [hzero, following_zero, if_pos (by assumption), Nat.sub_zero] at hsecond
      obtain ⟨wrote, filled, hcopyin, hlength, hfits, hcontents⟩ :=
        copyin_eq access (src + n) left left [] (hsound.spool hbuf) (by simp)
          (by simpa using hsecond)
      simp only [List.length_nil, Nat.sub_zero, List.nil_append] at hcopyin hlength
      simp only [hcopyin]
      have hused := used_of_contents hcontents
      obtain ⟨hnext, hrest, hroundsNext⟩ :=
        rounds_behind hn hleft hlength (by omega) (Nat.sub_pos_of_lt hspoolRoom) hrounds
      have hcopiesNext : ∀ piece ∈ writePieces { pipe with spool := filled }
          (len - (progress + (bytes ++ wrote).length)),
          access.Copies (src + (progress + (bytes ++ wrote).length)) piece := by
        have hfull : min (left - wrote.length) (pipe.spoolCap - filled.used) = 0 := by
          rw [hused, ← Nat.sub_sub, hlength]
          exact min_sub_stored _ _
        have hnone : min (left - wrote.length) (USER_PIPE_BUFFER_BYTES - pipe.buffer.used) = 0 := by
          rw [Nat.sub_eq_zero_of_le (Nat.le_of_not_lt hroom), Nat.min_zero]
        rw [hrest]
        simp only [writePieces, hnone, Nat.sub_zero, hfull, pieces_zero, following_zero, ite_self]
        exact fun _ hpiece ↦ absurd hpiece List.not_mem_nil
      obtain ⟨more, hafter, hqueued, hmoved, hfault⟩ :=
        ih _ (hsound.fill_spool hbuf hfits) hroundsNext hcopiesNext
          fun _ hless ↦ absurd hless hroom
      refine ⟨wrote ++ more, hafter, ?_, ?_, hfault⟩
      · rw [hqueued]
        simp only [Pipe.queued, hcontents, List.append_assoc]
      · rw [hmoved, List.append_assoc]
    · exact ⟨[], hsound, by simp, by simp [(moved_stored _ _).1], (moved_stored _ _).2⟩
    · exact ⟨[], hsound, by simp, by simp [Response.moved], Response.noConfusion⟩

/-- A write whose first copy fails stores nothing. -/
theorem writeLoop_fault {piece : ℕ × ℕ} {rest : List (ℕ × ℕ)}
    (nonblock interrupt : Bool) (hsound : Sound pipe)
    (hpieces : writePieces pipe (len - progress) = piece :: rest)
    (hcopy : ¬access.Copies (src + progress) piece) :
    userPipeWriteLoop access src len progress nonblock interrupt (len - progress) [] pipe =
      (.fault, pipe) := by
  unfold writePieces at hpieces
  dsimp only at hpieces
  generalize hleft : len - progress = left at hpieces
  have hpositive : 0 < left := by
    rw [Nat.pos_iff_ne_zero]
    rintro rfl
    simp [pieces_zero, following] at hpieces
  obtain ⟨rounds, rfl⟩ : ∃ later, left = later + 1 := ⟨left - 1, by omega⟩
  unfold userPipeWriteLoop
  simp only [List.length_nil, Nat.add_zero]
  rw [if_neg (by omega)]
  by_cases hroom : pipe.buffer.used < USER_PIPE_BUFFER_BYTES
  · have hfirst : 0 < min (rounds + 1) (USER_PIPE_BUFFER_BYTES - pipe.buffer.used) :=
      Nat.lt_min.mpr ⟨hpositive, Nat.sub_pos_of_lt hroom⟩
    have hle : min (rounds + 1) (USER_PIPE_BUFFER_BYTES - pipe.buffer.used) ≤
        USER_PIPE_BUFFER_BYTES := (Nat.min_le_right _ _).trans (Nat.sub_le _ _)
    have hcons := pieces_eq_cons hsound.buffer.writePos_lt hfirst hle
    rw [hcons, List.cons_append] at hpieces
    rw [if_neg (by omega), if_pos hroom, hleft]
    rw [copyin_fault hsound.buffer le_rfl hcons (by rwa [(List.cons.inj hpieces).1])]
  · have hzero : USER_PIPE_BUFFER_BYTES - pipe.buffer.used = 0 :=
      Nat.sub_eq_zero_of_le (Nat.le_of_not_lt hroom)
    rw [hzero, Nat.min_zero, pieces_zero, List.nil_append, following_zero, Nat.sub_zero] at hpieces
    split_ifs at hpieces with henabled
    have hspoolRoom : pipe.spool.used < pipe.spoolCap := by
      by_contra hfull
      rw [Nat.sub_eq_zero_of_le (Nat.le_of_not_lt hfull), Nat.min_zero, pieces_zero] at hpieces
      exact List.cons_ne_nil _ _ hpieces.symm
    have hbuf := hsound.enabled henabled
    rw [if_neg (by simp [henabled, hspoolRoom]), if_neg hroom,
      if_pos ⟨henabled, hbuf, hspoolRoom⟩, hleft]
    rw [copyin_fault (hsound.spool hbuf) le_rfl hpieces hcopy]

/-- A write either appends its bytes to the queue, or fails at its first copy and changes
nothing. -/
theorem writeLoop_permitted (nonblock interrupt : Bool) (hsound : Sound pipe)
    (hfirst : access.FailsFirst (src + progress) pipe.InOrder (writePieces pipe (len - progress))) :
    let after :=
      userPipeWriteLoop access src len progress nonblock interrupt (len - progress) [] pipe
    Sound after.2 ∧ after.2.queued = pipe.queued ++ after.1.moved ∧
      (after.1 = .fault → after.2 = pipe ∧
        ¬∀ piece ∈ writePieces pipe (len - progress), access.Copies (src + progress) piece) := by
  dsimp only
  rcases hfirst.cases with ⟨piece, rest, hpieces, hcopy⟩ | ⟨hcopies, horder⟩
  · rw [writeLoop_fault nonblock interrupt hsound hpieces hcopy]
    refine ⟨hsound, by simp [Response.moved], fun _ ↦ ⟨rfl, fun hall ↦ hcopy (hall piece ?_)⟩⟩
    rw [hpieces]
    exact List.mem_cons_self
  · have hinOrder : progress + ([] : List UInt8).length < len → pipe.InOrder := by
      intro hless
      rcases horder with hnone | horder
      · -- without a piece there is no room in the buffer
        intro hroom
        have hpositive : 0 < min (len - progress) (USER_PIPE_BUFFER_BYTES - pipe.buffer.used) :=
          Nat.lt_min.mpr ⟨Nat.sub_pos_of_lt hless, Nat.sub_pos_of_lt hroom⟩
        have hle : min (len - progress) (USER_PIPE_BUFFER_BYTES - pipe.buffer.used) ≤
            USER_PIPE_BUFFER_BYTES := (Nat.min_le_right _ _).trans (Nat.sub_le _ _)
        unfold writePieces at hnone
        dsimp only at hnone
        rw [pieces_eq_cons hsound.buffer.writePos_lt hpositive hle] at hnone
        exact absurd hnone (List.cons_ne_nil _ _)
      · exact horder
    obtain ⟨more, hafter, hqueued, hmoved, hfault⟩ :=
      writeLoop_flows nonblock interrupt [] hsound le_rfl hcopies hinOrder
    simp only [List.length_nil, Nat.add_zero, List.nil_append] at hqueued hmoved
    refine ⟨hafter, ?_, fun hfailed ↦ absurd hfailed hfault⟩
    rw [hqueued, hmoved]

/-- A read either takes its bytes from the front of the queue, or fails at its first copy and
changes nothing. -/
theorem read_permitted {maxlen : ℤ} (nonblock interrupt : Bool) (hsound : Sound pipe)
    (hfirst : access.FailsFirst dst True (readPieces pipe maxlen.toNat)) :
    let after := userPipeRead access dst maxlen nonblock interrupt pipe
    Sound after.2 ∧ pipe.queued = after.1.moved ++ after.2.queued ∧
      (after.1 = .fault → after.2 = pipe) := by
  dsimp only
  rcases hfirst.cases with ⟨piece, rest, hpieces, hcopy⟩ | ⟨hcopies, _⟩
  · obtain ⟨hsame, hmoved⟩ := read_fault nonblock interrupt hsound hpieces hcopy
    rw [hsame, hmoved]
    exact ⟨hsound, rfl, fun _ ↦ rfl⟩
  · obtain ⟨hafter, hqueued, hfault⟩ := read_flows nonblock interrupt hsound hcopies
    exact ⟨hafter, hqueued, fun hfailed ↦ absurd hfailed hfault⟩

/-! ### The other events -/

theorem queued_of_empty (hbuffer : pipe.buffer.used = 0) (hspool : pipe.spool.used = 0) :
    pipe.queued = [] := by
  rw [Pipe.queued, contents_of_used_eq_zero hbuffer, contents_of_used_eq_zero hspool,
    List.append_nil]

/-- A ring of the buffer without used cells fits. -/
theorem fits_rewind (ring : CountedRing UInt8) : Fits USER_PIPE_BUFFER_BYTES (rewind ring) :=
  fits_of_empty (by decide) rfl rfl rfl

theorem sound_zeroPipe : Sound zeroPipe where
  buffer := fits_rewind zeroRing
  spool hbuf := absurd hbuf Bool.false_ne_true
  enabled henabled := absurd henabled Bool.false_ne_true
  idle _ := rfl

/-- A spool that is disabled has no bytes, and one that is enabled anew has none either. -/
theorem setSpool_permitted (enabled allocated : Bool) (hsound : Sound pipe)
    (hempty : enabled = false → pipe.spool.used = 0) :
    Sound (userPipeSetSpool enabled allocated pipe).2 ∧
      (userPipeSetSpool enabled allocated pipe).2.queued = pipe.queued := by
  unfold userPipeSetSpool
  split_ifs with hused henabled hbuf
  · exact ⟨hsound, rfl⟩
  · constructor
    · refine ⟨hsound.buffer, ?_, ?_, ?_⟩
      · exact fun hfalse ↦ absurd hfalse Bool.false_ne_true
      · exact fun hfalse ↦ absurd hfalse Bool.false_ne_true
      · exact fun _ ↦ rfl
    · have hspool := hempty henabled
      have hnone : (rewind pipe.spool).used = 0 := rfl
      simp only [Pipe.queued]
      rw [contents_of_used_eq_zero hspool, contents_of_used_eq_zero hnone]
  · exact ⟨⟨hsound.buffer, hsound.spool, fun _ ↦ hbuf, hsound.idle⟩, rfl⟩
  · exact ⟨hsound, rfl⟩
  · have hidle := hsound.idle (Bool.eq_false_of_not_eq_true hbuf)
    constructor
    · refine ⟨hsound.buffer, ?_, fun _ ↦ rfl, fun _ ↦ rfl⟩
      have hcap : 0 < USER_PIPE_SPOOL_CAP_BYTES := by decide
      exact fun _ ↦ fits_of_empty hcap rfl rfl rfl
    · have hnone : zeroRing.used = 0 := rfl
      simp only [Pipe.queued]
      rw [contents_of_used_eq_zero hidle, contents_of_used_eq_zero hnone]

theorem openEnd_flows (writer : Bool) (hsound : Sound pipe) :
    Sound (openEnd writer pipe) ∧ (openEnd writer pipe).queued = pipe.queued := by
  unfold openEnd
  split_ifs
  · exact ⟨hsound, rfl⟩
  · exact ⟨⟨hsound.buffer, hsound.spool, hsound.enabled, hsound.idle⟩, rfl⟩
  · exact ⟨⟨hsound.buffer, hsound.spool, hsound.enabled, hsound.idle⟩, rfl⟩

/-- A pipe whose last end is released has nothing queued, and another one keeps its bytes. -/
theorem maybeDestroy_flows (hsound : Sound pipe) :
    Sound (userPipeMaybeDestroy pipe) ∧
      (pipe.used = true → (userPipeMaybeDestroy pipe).readerRefs = 0 →
        (userPipeMaybeDestroy pipe).writerRefs = 0 → (userPipeMaybeDestroy pipe).queued = []) ∧
      (¬((userPipeMaybeDestroy pipe).readerRefs = 0 ∧ (userPipeMaybeDestroy pipe).writerRefs = 0) →
        (userPipeMaybeDestroy pipe).queued = pipe.queued) := by
  unfold userPipeMaybeDestroy
  split_ifs with hused hlast hfifo
  · refine ⟨hsound, fun hset ↦ ?_, fun _ ↦ rfl⟩
    exact absurd (hused.symm.trans hset) (by decide)
  · refine ⟨⟨fits_rewind _, ?_, hsound.enabled, fun _ ↦ rfl⟩, fun _ _ _ ↦ queued_of_empty rfl rfl,
      fun hopen ↦ absurd hlast hopen⟩
    intro hbuf
    exact fits_of_empty (Nat.zero_lt_of_lt (hsound.spool hbuf).readPos_lt) rfl rfl rfl
  · exact ⟨sound_zeroPipe, fun _ _ _ ↦ queued_of_empty rfl rfl,
      fun hopen ↦ absurd ⟨rfl, rfl⟩ hopen⟩
  · exact ⟨hsound, fun _ hreader hwriter ↦ absurd ⟨hreader, hwriter⟩ hlast, fun _ ↦ rfl⟩

/-- Releasing an end moves no byte, unless it is the last one, which leaves nothing queued. -/
theorem release_flows (writer : Bool) (hsound : Sound pipe) :
    Sound (userFdRelease writer pipe) ∧
      (pipe.used = true ∧ (userFdRelease writer pipe).readerRefs = 0 ∧
        (userFdRelease writer pipe).writerRefs = 0 → (userFdRelease writer pipe).queued = []) ∧
      (¬(pipe.used = true ∧ (userFdRelease writer pipe).readerRefs = 0 ∧
        (userFdRelease writer pipe).writerRefs = 0) →
          (userFdRelease writer pipe).queued = pipe.queued) := by
  unfold userFdRelease
  split_ifs with hused hwriter
  · refine ⟨hsound, fun hset ↦ ?_, fun _ ↦ rfl⟩
    exact absurd (hused.symm.trans hset.1) (by decide)
  all_goals
    have hset : pipe.used = true := Bool.eq_true_of_not_eq_false hused
    have hfewer (readers writers : ℕ) :
        Sound { pipe with readerRefs := readers, writerRefs := writers } :=
      ⟨hsound.buffer, hsound.spool, hsound.enabled, hsound.idle⟩
  · obtain ⟨hafter, hlast, hopen⟩ :=
      maybeDestroy_flows (hfewer pipe.readerRefs (pipe.writerRefs - 1))
    exact ⟨hafter, fun hnone ↦ hlast hset hnone.2.1 hnone.2.2,
      fun hsome ↦ hopen fun hnone ↦ hsome ⟨hset, hnone⟩⟩
  · obtain ⟨hafter, hlast, hopen⟩ :=
      maybeDestroy_flows (hfewer (pipe.readerRefs - 1) pipe.writerRefs)
    exact ⟨hafter, fun hnone ↦ hlast hset hnone.2.1 hnone.2.2,
      fun hsome ↦ hopen fun hnone ↦ hsome ⟨hset, hnone⟩⟩

/-- A write that is started either appends its bytes to the queue, or fails and changes nothing. -/
theorem write_permitted {len : ℤ} (nonblock interrupt : Bool) (hsound : Sound pipe)
    (hfirst : pipe.used = true → pipe.readerRefs ≠ 0 →
      access.FailsFirst src pipe.InOrder (writePieces pipe len.toNat)) :
    let after := userPipeWrite access src len nonblock interrupt pipe
    Sound after.2 ∧ after.2.queued = pipe.queued ++ after.1.moved ∧
      (after.1 = .fault → after.2 = pipe) := by
  dsimp only
  unfold userPipeWrite
  split_ifs with hargs hzero hbroken
  · exact ⟨hsound, (List.append_nil _).symm, fun _ ↦ rfl⟩
  · exact ⟨hsound, (List.append_nil _).symm, fun _ ↦ rfl⟩
  · exact ⟨hsound, (List.append_nil _).symm, fun _ ↦ rfl⟩
  · have hused : pipe.used = true := by
      by_contra hunused
      exact hargs (Or.inr (Or.inr (Bool.eq_false_of_not_eq_true hunused)))
    have hstart : access.FailsFirst (src + 0) pipe.InOrder (writePieces pipe (len.toNat - 0)) :=
      hfirst hused hbroken
    obtain ⟨hafter, hqueued, hfault⟩ := writeLoop_permitted nonblock interrupt hsound hstart
    exact ⟨hafter, hqueued, fun hfailed ↦ (hfault hfailed).1⟩

/-! ### Runs -/

variable {stream : Stream}

/-- A permitted event keeps the invariant. -/
theorem Flows.step {event : Event} (hflows : Flows stream) (hpermitted : Permitted stream event) :
    Flows (stream.step event) := by
  obtain ⟨hsound, haccepted⟩ := hflows
  have hsame {after : Pipe} (hkept : Sound after ∧ after.queued = stream.pipe.queued) :
      Flows { stream with pipe := after } :=
    ⟨hkept.1, by rw [haccepted, hkept.2]⟩
  cases event with
  | alloc persistentFifo =>
    simp only [Stream.step, respond, userPipeAlloc]
    split_ifs
    · exact ⟨hsound, haccepted⟩
    · constructor
      · exact ⟨sound_zeroPipe.buffer, sound_zeroPipe.spool, sound_zeroPipe.enabled,
          sound_zeroPipe.idle⟩
      · exact (queued_of_empty rfl rfl).symm
  | openEnd writer => exact hsame (openEnd_flows writer hsound)
  | release writer =>
    obtain ⟨hafter, hlast, hopen⟩ := release_flows writer hsound
    unfold Stream.step respond
    dsimp only
    by_cases hnone : stream.pipe.used = true ∧ (userFdRelease writer stream.pipe).readerRefs = 0 ∧
        (userFdRelease writer stream.pipe).writerRefs = 0
    · rw [if_pos hnone]
      exact ⟨hafter, (hlast hnone).symm⟩
    · rw [if_neg hnone]
      exact hsame ⟨hafter, hopen hnone⟩
  | setSpool enabled allocated =>
    exact hsame (setSpool_permitted enabled allocated hsound hpermitted)
  | read access dst maxlen nonblock interrupt =>
    obtain ⟨hafter, hqueued, _⟩ := read_permitted nonblock interrupt hsound hpermitted
    refine ⟨hafter, ?_⟩
    simp only [Stream.step, respond, haccepted, List.append_assoc]
    rw [← hqueued]
  | write access src len nonblock interrupt =>
    obtain ⟨hafter, hqueued, _⟩ := write_permitted nonblock interrupt hsound hpermitted
    refine ⟨hafter, ?_⟩
    simp only [Stream.step, respond, haccepted, List.append_assoc]
    rw [hqueued]
  | resumeWrite access src len progress nonblock interrupt =>
    obtain ⟨hafter, hqueued, _⟩ := writeLoop_permitted nonblock interrupt hsound hpermitted.1
    refine ⟨hafter, ?_⟩
    simp only [Stream.step, respond, haccepted, List.append_assoc]
    rw [hqueued]

/-- A permitted call that fails because of the user's memory changes nothing, and has not stored
anything before. -/
theorem fault_permitted {event : Event} (hsound : Sound stream.pipe)
    (hpermitted : Permitted stream event) (hfault : (respond stream.pipe event).1 = .fault) :
    (respond stream.pipe event).2 = stream.pipe ∧ event.progress = 0 := by
  cases event with
  | alloc persistentFifo => exact Response.noConfusion hfault
  | openEnd writer => exact Response.noConfusion hfault
  | release writer => exact Response.noConfusion hfault
  | setSpool enabled allocated => exact Response.noConfusion hfault
  | read access dst maxlen nonblock interrupt =>
    exact ⟨(read_permitted nonblock interrupt hsound hpermitted).2.2 hfault, rfl⟩
  | write access src len nonblock interrupt =>
    exact ⟨(write_permitted nonblock interrupt hsound hpermitted).2.2 hfault, rfl⟩
  | resumeWrite access src len progress nonblock interrupt =>
    obtain ⟨_, _, hfirst⟩ := writeLoop_permitted nonblock interrupt hsound hpermitted.1
    obtain ⟨hsame, hfailed⟩ := hfirst hfault
    refine ⟨hsame, Nat.eq_zero_of_not_pos fun hpositive ↦ ?_⟩
    exact hfailed (hpermitted.2 hpositive)

/-- In every run of permitted events the bytes returned by reads and then the queued ones are those
accepted by writes, and a call that fails because of the user's memory moves no byte. -/
theorem pipe_stream {events : List Event}
    (hrun : Run (Guarded Permitted (Moves Stream.step)) .start events stream) :
    stream.returned <+: stream.accepted ∧
      stream.accepted = stream.returned ++ stream.pipe.queued ∧
      ∀ event, Permitted stream event → (respond stream.pipe event).1 = .fault →
        (respond stream.pipe event).2 = stream.pipe ∧ event.progress = 0 := by
  have hstart : Flows .start := ⟨sound_zeroPipe, (queued_of_empty rfl rfl).symm⟩
  have hflows : Flows stream := by
    refine hrun.guarded_invariant (fun before event after hbefore hpermitted hmove ↦ ?_) hstart
    rw [← show before.step event = after from hmove]
    exact hbefore.step hpermitted
  refine ⟨?_, hflows.accepted, fun event hpermitted hfault ↦ ?_⟩
  · rw [hflows.accepted]
    exact List.prefix_append _ _
  · exact fault_permitted hflows.sound hpermitted hfault

/-- User memory that holds one byte everywhere and can be copied. -/
def filledWith (byte : UInt8) : Access where
  memory := fun _ ↦ byte
  succeeds := fun _ _ ↦ true

/-- User memory that cannot be copied. -/
def unmapped : Access where
  memory := fun _ ↦ 0
  succeeds := fun _ _ ↦ false

/-- A pipe with both ends open whose spool is enabled. -/
def openEvents : List Event := [.alloc false, .openEnd false, .openEnd true, .setSpool true true]

/-- Five bytes are written and three are read, a read fails, and then the rest is read. -/
def shortEvents : List Event :=
  openEvents ++ [.write (filledWith 7) 4096 5 true false, .read (filledWith 0) 8192 3 true false,
    .read unmapped 8192 1 true false, .read (filledWith 0) 8192 9 true false]

/-- After that run the five bytes have been returned. -/
theorem pipe_stream_short :
    (shortEvents.foldl Stream.step .start).returned = [7, 7, 7, 7, 7] ∧
      (shortEvents.foldl Stream.step .start).returned <+:
        (shortEvents.foldl Stream.step .start).accepted := by
  have hallowed : Allowed Permitted Stream.step .start shortEvents := by
    refine ⟨?_, ?_, ?_, ?_, ?_, ?_, ?_, ?_, trivial⟩ <;> decide +kernel
  exact ⟨by decide +kernel, (pipe_stream (Run.of_allowed hallowed)).1⟩

/-- A writer fills the buffer and puts one byte into the spool, a reader takes one byte, and one
byte more is written before the reader takes what the buffer holds. -/
def overtakingEvents : List Event :=
  openEvents ++ [.write (filledWith 0) 4096 4097 true false,
    .read (filledWith 0) 8192 1 true false, .write (filledWith 1) 4096 1 true false,
    .read (filledWith 0) 8192 4096 true false]

/-- A pipe is not a stream in every run: a byte that is written while the spool is not empty
overtakes the bytes in the spool. -/
theorem not_pipe_stream :
    ¬∀ (events : List Event) (stream : Stream), Run (Moves Stream.step) .start events stream →
      stream.returned <+: stream.accepted := by
  intro hstream
  have hpref := hstream _ _ (Run.of_foldl Stream.step .start overtakingEvents)
  have hreturned : (overtakingEvents.foldl Stream.step .start).returned[4096]? = some 1 := by
    decide +kernel
  have haccepted : (overtakingEvents.foldl Stream.step .start).accepted[4096]? = some 0 := by
    decide +kernel
  obtain ⟨later, hlater⟩ := hpref
  rw [← hlater, List.getElem?_append_left (List.getElem?_eq_some_iff.mp hreturned).1,
    hreturned] at haccepted
  exact absurd haccepted (by decide)

end EynOS.Process.UserPipe
