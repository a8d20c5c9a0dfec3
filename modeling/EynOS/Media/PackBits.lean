import EynOS.Foundation.MachineWord
import EynOS.Foundation.PackBits
import EynOS.Foundation.Writing

/-!
# The run-length coding of images and sounds

`rei_decompress_rle` of `rei.c` and `rle_decode_packbits` of `reis.c`, and the encoders of the tools
that write the files. `packBits_sound`: the decoders agree on every input, end, and stay inside of
their buffers; and what either encoder makes of whole units either decoder makes the units of.

A decoder reads from a buffer and writes to one, and an access outside of it is no result. The
buffers are apart in a memory of `2 ^ 32` bytes, and none is at its start, so that their lengths
together are less. The
field `produced` of a result is not part of the source; it is `op` where the function returns.
-/

namespace EynOS.Media

open Foundation

/-! ### The decoders -/

/-- What a decoder returns: its result, how many bytes it has written, and the buffer. -/
structure Decoded where
  code : ℤ
  produced : ℕ
  out : List UInt8
  deriving DecidableEq

def readBytes (buffer : List UInt8) (start count : ℕ) : Option (List UInt8) :=
  if start + count ≤ buffer.length then some (slice buffer start count) else none

def writeBytes (buffer : List UInt8) (start : ℕ) (data : List UInt8) : Option (List UInt8) :=
  if start + data.length ≤ buffer.length then some (splice buffer start data) else none

def replicatePixel (pixelSize : ℕ) (px : List UInt8) :
    ℕ → ℕ → List UInt8 → Option (ℕ × List UInt8)
  | 0, op, out => some (op, out)
  | count + 1, op, out =>
    (writeBytes out op px).bind fun out ↦
      replicatePixel pixelSize px count (u32 (op + pixelSize)) out

/-- The loop of `rei_decompress_rle`. -/
def reiDecompressLoop (input : List UInt8) (pixelSize : ℕ) :
    ℕ → ℕ → ℕ → List UInt8 → Option Decoded
  | 0, _, _, _ => none
  | rounds + 1, ip, op, out =>
    if ip < input.length ∧ op < out.length then
      (input[ip]?).bind fun byte ↦
        let n : ℤ := byte.toInt8.toInt
        let ip := ip + 1
        if 0 ≤ n then
          let count := n.toNat + 1
          let bytes := u32 (count * pixelSize)
          if input.length < u32 (ip + bytes) then some { code := -1, produced := op, out }
          else if out.length < u32 (op + bytes) then some { code := -1, produced := op, out }
          else
            (readBytes input ip bytes).bind fun data ↦
              (writeBytes out op data).bind fun out ↦
                reiDecompressLoop input pixelSize rounds (u32 (ip + bytes)) (u32 (op + bytes)) out
        else if n ≠ -128 then
          let count := (1 - n).toNat
          if input.length < u32 (ip + pixelSize) then some { code := -1, produced := op, out }
          else if out.length < u32 (op + u32 (count * pixelSize)) then
            some { code := -1, produced := op, out }
          else
            (readBytes input ip pixelSize).bind fun px ↦
              (replicatePixel pixelSize px count op out).bind fun (op, out) ↦
                reiDecompressLoop input pixelSize rounds (u32 (ip + pixelSize)) op out
        else reiDecompressLoop input pixelSize rounds ip op out
    else some { code := if op = out.length then 0 else -1, produced := op, out }

def reiDecompressRle (input out : List UInt8) (pixelSize : UInt8) : Option Decoded :=
  if pixelSize = 0 then some { code := -1, produced := 0, out }
  else reiDecompressLoop input pixelSize.toNat (input.length + 1) 0 0 out

/-- The loop of `rle_decode_packbits`. -/
def rleDecodeLoop (input : List UInt8) (pixelSize : ℕ) : ℕ → ℕ → ℕ → List UInt8 → Option Decoded
  | 0, _, _, _ => none
  | rounds + 1, ip, op, out =>
    if ip < input.length ∧ op < out.length then
      (input[ip]?).bind fun byte ↦
        let n : ℤ := byte.toInt8.toInt
        let ip := ip + 1
        if 0 ≤ n then
          let count := n.toNat + 1
          let bytes := u32 (count * pixelSize)
          if input.length < u32 (ip + bytes) then some { code := -1, produced := op, out }
          else if out.length < u32 (op + bytes) then some { code := -1, produced := op, out }
          else
            (readBytes input ip bytes).bind fun data ↦
              (writeBytes out op data).bind fun out ↦
                rleDecodeLoop input pixelSize rounds (u32 (ip + bytes)) (u32 (op + bytes)) out
        else if n ≠ -128 then
          let count := (1 - n).toNat
          let bytes := u32 (count * pixelSize)
          if input.length < u32 (ip + pixelSize) then some { code := -1, produced := op, out }
          else if out.length < u32 (op + bytes) then some { code := -1, produced := op, out }
          else
            (readBytes input ip pixelSize).bind fun px ↦
              (replicatePixel pixelSize px count op out).bind fun (op, out) ↦
                rleDecodeLoop input pixelSize rounds (u32 (ip + pixelSize)) op out
        else rleDecodeLoop input pixelSize rounds ip op out
    else some { code := if op = out.length then 0 else -1, produced := op, out }

def rleDecodePackbits (input out : List UInt8) (pixelSize : Int32) : Option Decoded :=
  if pixelSize ≤ 0 then some { code := -1, produced := 0, out }
  else rleDecodeLoop input pixelSize.toInt.toNat (input.length + 1) 0 0 out

/-! ### The encoders -/

section Encoders

variable (data : List UInt8) (pixelSize : ℕ)

/-- The run of equal pixels of `_encode_rle` of `png_to_rei.py`: where it ends, and its length. -/
def reiRunLoop (runStart : ℕ) : ℕ → ℕ → ℕ → ℕ × ℕ
  | 0, i, runLen => (i, runLen)
  | rounds + 1, i, runLen =>
    if i < data.length ∧ slice data i pixelSize = slice data runStart pixelSize ∧ runLen < 128 then
      reiRunLoop runStart rounds (i + pixelSize) (runLen + 1)
    else (i, runLen)

/-- The literal run of `_encode_rle` of `png_to_rei.py`. -/
def reiLiteralLoop : ℕ → ℕ → ℕ → ℕ × ℕ
  | 0, i, litCount => (i, litCount)
  | rounds + 1, i, litCount =>
    if i < data.length ∧ litCount < 128 then
      if i + 2 * pixelSize ≤ data.length ∧
          slice data i pixelSize = slice data (i + pixelSize) pixelSize then (i, litCount)
      else reiLiteralLoop rounds (i + pixelSize) (litCount + 1)
    else (i, litCount)

/-- The loop of `_encode_rle` of `png_to_rei.py`. -/
def reiEncodeLoop : ℕ → ℕ → List UInt8
  | 0, _ => []
  | rounds + 1, i =>
    if i < data.length then
      let (next, runLen) := reiRunLoop data pixelSize i 128 (i + pixelSize) 1
      if 2 ≤ runLen then
        UInt8.ofNat (256 + 1 - runLen) :: slice data i pixelSize ++ reiEncodeLoop rounds next
      else
        let (next, litCount) := reiLiteralLoop data pixelSize 128 next 1
        UInt8.ofNat ((litCount - 1) % 128) :: slice data i (litCount * pixelSize) ++
          reiEncodeLoop rounds next
    else []

/-- `_encode_rle` of `png_to_rei.py`. -/
def reiEncodeRle : List UInt8 := reiEncodeLoop data pixelSize (data.length + 1) 0

/-- The units that equal the first one, in `_encode_rle` of `audio_to_reis.py`. -/
def reisRunLoop (totalUnits runStart : ℕ) : ℕ → ℕ → ℕ
  | 0, runLen => runLen
  | rounds + 1, runLen =>
    if runStart + runLen < totalUnits ∧ runLen < 128 ∧
        slice data (runStart * pixelSize) pixelSize =
          slice data ((runStart + runLen) * pixelSize) pixelSize then
      reisRunLoop totalUnits runStart rounds (runLen + 1)
    else runLen

def threeEqual (pos : ℕ) : Bool :=
  slice data (pos * pixelSize) pixelSize == slice data ((pos + 1) * pixelSize) pixelSize &&
    slice data ((pos + 1) * pixelSize) pixelSize == slice data ((pos + 2) * pixelSize) pixelSize

/-- The literal run of `_encode_rle` of `audio_to_reis.py`: where it ends, and its length. -/
def reisLiteralLoop (totalUnits : ℕ) : ℕ → ℕ → ℕ → ℕ × ℕ
  | 0, pos, litCount => (pos, litCount)
  | rounds + 1, pos, litCount =>
    if pos < totalUnits ∧ litCount < 128 then
      if pos + 2 < totalUnits ∧ threeEqual data pixelSize pos then (pos, litCount)
      else reisLiteralLoop totalUnits rounds (pos + 1) (litCount + 1)
    else (pos, litCount)

/-- The loop of `_encode_rle` of `audio_to_reis.py`. -/
def reisEncodeLoop (totalUnits : ℕ) : ℕ → ℕ → List UInt8
  | 0, _ => []
  | rounds + 1, pos =>
    if pos < totalUnits then
      let runLen := reisRunLoop data pixelSize totalUnits pos 128 1
      if pos + 1 < totalUnits ∧ 3 ≤ runLen then
        UInt8.ofNat (256 + 1 - runLen) :: slice data (pos * pixelSize) pixelSize ++
          reisEncodeLoop totalUnits rounds (pos + runLen)
      else
        let (next, litCount) := reisLiteralLoop data pixelSize totalUnits 128 pos 0
        if 0 < litCount then
          UInt8.ofNat (litCount - 1) :: slice data (pos * pixelSize) (litCount * pixelSize) ++
            reisEncodeLoop totalUnits rounds next
        else reisEncodeLoop totalUnits rounds next
    else []

/-- `_encode_rle` of `audio_to_reis.py`. -/
def reisEncodeRle : List UInt8 :=
  reisEncodeLoop data pixelSize (data.length / pixelSize) (data.length / pixelSize + 1) 0

end Encoders

/-! ### The control byte -/

theorem toInt_control (byte : UInt8) :
    byte.toInt8.toInt = if byte.toNat < 128 then (byte.toNat : ℤ) else (byte.toNat : ℤ) - 256 := by
  have hall : ∀ value < 256, (UInt8.ofNat value).toInt8.toInt =
      if value < 128 then (value : ℤ) else (value : ℤ) - 256 := by decide +kernel
  have hbyte := hall byte.toNat byte.toNat_lt
  rwa [UInt8.ofNat_toNat] at hbyte

/-! ### One turn of a decoder -/

section Turns

variable {input out : List UInt8} {pixelSize ip op rounds count : ℕ} {px : List UInt8}
  {byte : UInt8}

/-- Where a decoder is inside of its buffers, which are apart in the memory. -/
structure Inside (input out : List UInt8) (pixelSize ip op : ℕ) : Prop where
  size : 0 < pixelSize ∧ pixelSize ≤ 255
  reads : ip ≤ input.length
  writes : op ≤ out.length
  ratio : op ≤ 128 * ip
  memory : input.length + out.length < 4294967296

/-- The copies of a pixel that have room. -/
theorem replicatePixel_eq (hpx : px.length = pixelSize)
    (hroom : op + pixelSize * count ≤ out.length) (hmemory : out.length < 4294967296) :
    replicatePixel pixelSize px count op out =
      some (op + pixelSize * count, splice out op (List.replicate count px).flatten) := by
  induction count generalizing op out with
  | zero => rw [replicatePixel, List.replicate_zero, List.flatten_nil, splice_by_nil]; rfl
  | succ count ih =>
    rw [Nat.mul_succ] at hroom
    have hlength : (splice out op px).length = out.length := length_splice (by omega)
    have hunits : (List.replicate count px).flatten.length = pixelSize * count := by
      rw [length_flatten_units fun unit hunit ↦ List.eq_of_mem_replicate hunit ▸ hpx,
        List.length_replicate]
    rw [replicatePixel, writeBytes, hpx, if_pos (by omega), Option.bind_some,
      u32_of_lt _ (by omega), ih (by omega) (by omega), List.replicate_succ, List.flatten_cons,
      ← splice_splice (by omega), hpx, Nat.mul_succ]
    congr 2
    omega

/-- A literal run. -/
theorem reiDecompressLoop_literal (hinside : Inside input out pixelSize ip op)
    (hbyte : input[ip]? = some byte) (hout : op < out.length) (hcontrol : byte.toNat < 128) :
    reiDecompressLoop input pixelSize (rounds + 1) ip op out =
      if ip + 1 + pixelSize * (byte.toNat + 1) ≤ input.length ∧
          op + pixelSize * (byte.toNat + 1) ≤ out.length then
        reiDecompressLoop input pixelSize rounds (ip + 1 + pixelSize * (byte.toNat + 1))
          (op + pixelSize * (byte.toNat + 1))
          (splice out op (slice input (ip + 1) (pixelSize * (byte.toNat + 1))))
      else some { code := -1, produced := op, out } := by
  obtain ⟨⟨hpositive, hsmall⟩, -, -, hratio, hmemory⟩ := hinside
  have hip : ip < input.length := (List.getElem?_eq_some_iff.mp hbyte).1
  have hbytes : pixelSize * (byte.toNat + 1) ≤ 255 * 128 := Nat.mul_le_mul hsmall hcontrol
  have hn : byte.toInt8.toInt = (byte.toNat : ℤ) := by rw [toInt_control, if_pos hcontrol]
  rw [reiDecompressLoop, if_pos ⟨hip, hout⟩, hbyte, Option.bind_some]
  simp only [hn, Int.natCast_nonneg, if_true, Int.toNat_natCast]
  rw [Nat.mul_comm (byte.toNat + 1), u32_of_lt (pixelSize * (byte.toNat + 1)) (by omega)]
  generalize pixelSize * (byte.toNat + 1) = bytes at hbytes ⊢
  have hend : op + bytes < 4294967296 := by omega
  by_cases hfits : ip + 1 + bytes ≤ input.length ∧ op + bytes ≤ out.length
  · have hdata : (slice input (ip + 1) bytes).length = bytes := length_slice hfits.1
    rw [if_pos hfits, u32_of_lt (ip + 1 + bytes) (by omega), u32_of_lt (op + bytes) hend,
      if_neg (by omega), if_neg (by omega), readBytes, if_pos hfits.1, Option.bind_some, writeBytes,
      hdata, if_pos hfits.2, Option.bind_some]
  · rw [if_neg hfits]
    split
    · rfl
    · rename_i hread
      rw [if_pos]
      rw [u32] at hread
      rw [u32_of_lt _ hend]
      omega

/-- A repeated pixel. -/
theorem reiDecompressLoop_repeated (hinside : Inside input out pixelSize ip op)
    (hbyte : input[ip]? = some byte) (hout : op < out.length) (hcontrol : 128 < byte.toNat) :
    reiDecompressLoop input pixelSize (rounds + 1) ip op out =
      if ip + 1 + pixelSize ≤ input.length ∧ op + pixelSize * (257 - byte.toNat) ≤ out.length then
        reiDecompressLoop input pixelSize rounds (ip + 1 + pixelSize)
          (op + pixelSize * (257 - byte.toNat))
          (splice out op
            (List.replicate (257 - byte.toNat) (slice input (ip + 1) pixelSize)).flatten)
      else some { code := -1, produced := op, out } := by
  obtain ⟨⟨hpositive, hsmall⟩, -, -, hratio, hmemory⟩ := hinside
  have hip : ip < input.length := (List.getElem?_eq_some_iff.mp hbyte).1
  have hlast := byte.toNat_lt
  have hbytes : pixelSize * (257 - byte.toNat) ≤ 255 * 128 :=
    Nat.mul_le_mul hsmall (by omega)
  have hsome : pixelSize ≤ pixelSize * (257 - byte.toNat) :=
    Nat.le_mul_of_pos_right _ (by omega)
  have hn : byte.toInt8.toInt = (byte.toNat : ℤ) - 256 := by
    rw [toInt_control, if_neg (by omega)]
  have hcount : (1 - ((byte.toNat : ℤ) - 256)).toNat = 257 - byte.toNat := by omega
  have hnegative : ¬(0 : ℤ) ≤ (byte.toNat : ℤ) - 256 := by omega
  have hnot : (byte.toNat : ℤ) - 256 ≠ -128 := by omega
  rw [reiDecompressLoop, if_pos ⟨hip, hout⟩, hbyte, Option.bind_some]
  simp only [hn, if_neg hnegative, if_pos hnot, hcount]
  rw [Nat.mul_comm (257 - byte.toNat), u32_of_lt (pixelSize * (257 - byte.toNat)) (by omega)]
  have hend : op + pixelSize * (257 - byte.toNat) < 4294967296 := by omega
  by_cases hfits : ip + 1 + pixelSize ≤ input.length ∧
      op + pixelSize * (257 - byte.toNat) ≤ out.length
  · have hpx : (slice input (ip + 1) pixelSize).length = pixelSize := length_slice hfits.1
    rw [if_pos hfits, u32_of_lt (ip + 1 + pixelSize) (by omega),
      u32_of_lt (op + pixelSize * (257 - byte.toNat)) hend, if_neg (by omega),
      if_neg (by omega), readBytes, if_pos hfits.1, Option.bind_some,
      replicatePixel_eq hpx hfits.2 (by omega), Option.bind_some]
  · rw [if_neg hfits]
    split
    · rfl
    · rename_i hread
      rw [if_pos]
      rw [u32] at hread
      rw [u32_of_lt _ hend]
      omega

/-- A control byte that stands for nothing. -/
theorem reiDecompressLoop_skip (hbyte : input[ip]? = some byte) (hout : op < out.length)
    (hcontrol : byte.toNat = 128) :
    reiDecompressLoop input pixelSize (rounds + 1) ip op out =
      reiDecompressLoop input pixelSize rounds (ip + 1) op out := by
  have hip : ip < input.length := (List.getElem?_eq_some_iff.mp hbyte).1
  have hn : byte.toInt8.toInt = -128 := by rw [toInt_control, hcontrol]; rfl
  rw [reiDecompressLoop, if_pos ⟨hip, hout⟩, hbyte, Option.bind_some]
  simp only [hn]
  rfl

theorem reiDecompressLoop_end (hend : input.length ≤ ip ∨ out.length ≤ op) :
    reiDecompressLoop input pixelSize (rounds + 1) ip op out =
      some { code := if op = out.length then 0 else -1, produced := op, out } := by
  rw [reiDecompressLoop, if_neg (by omega)]

/-- A valid packet for which there is room. -/
theorem reiDecompressLoop_packet (hinside : Inside input out pixelSize ip op) {packet : Packet}
    (hvalid : packet.Valid pixelSize) {rest : List UInt8}
    (hinput : input.drop ip = packet.encode ++ rest)
    (hroom : op + packet.expand.length ≤ out.length) :
    reiDecompressLoop input pixelSize (rounds + 1) ip op out =
      reiDecompressLoop input pixelSize rounds (ip + packet.encode.length)
        (op + packet.expand.length) (splice out op packet.expand) := by
  obtain ⟨count, hsome, -, hexpand⟩ := hvalid.length_expand
  have hsize : 0 < pixelSize * count := Nat.mul_pos hinside.size.1 hsome
  have hout : op < out.length := by omega
  have htotal : input.length = ip + (packet.encode ++ rest).length := by
    rw [← hinput, List.length_drop]
    have hreads := hinside.reads
    omega
  -- the control byte is the first one, and the units follow it
  have hcontrol {byte : UInt8} {units : List UInt8} (hpacket : packet.encode = byte :: units) :
      input[ip]? = some byte ∧ slice input (ip + 1) units.length = units := by
    rw [hpacket] at hinput
    constructor
    · have hhead := congrArg List.head? hinput
      rwa [List.head?_drop] at hhead
    · rw [slice, ← List.drop_drop, hinput]
      exact List.take_left
  rw [List.length_append] at htotal
  cases packet with
  | literal units =>
    obtain ⟨hpositive, hmost, hunits⟩ := hvalid
    obtain ⟨hbyte, hslice⟩ := hcontrol rfl
    have hflatten : units.flatten.length = pixelSize * units.length := length_flatten_units hunits
    have hvalue : (UInt8.ofNat (units.length - 1)).toNat = units.length - 1 :=
      UInt8.toNat_ofNat_of_lt' (Nat.lt_of_le_of_lt (Nat.sub_le_sub_right hmost 1) (by decide))
    have hnumber : units.length - 1 + 1 = units.length := Nat.sub_add_cancel hpositive
    rw [Packet.encode, List.length_cons] at htotal
    rw [Packet.expand] at hroom
    rw [reiDecompressLoop_literal hinside hbyte hout (by omega), hvalue, hnumber,
      ← hflatten, hslice,
      if_pos (by omega), Packet.encode, List.length_cons, Packet.expand]
    congr 1
    omega
  | repeated unit count =>
    obtain ⟨hleast, hmost, hunit⟩ := hvalid
    obtain ⟨hbyte, hslice⟩ := hcontrol rfl
    have hvalue : (UInt8.ofNat (257 - count)).toNat = 257 - count :=
      UInt8.toNat_ofNat_of_lt' (Nat.lt_of_le_of_lt (Nat.sub_le_sub_left hleast 257) (by decide))
    have hnumber : 257 - (257 - count) = count := by omega
    have hflatten : (List.replicate count unit).flatten.length = pixelSize * count := by
      rw [length_flatten_units fun other hother ↦ List.eq_of_mem_replicate hother ▸ hunit,
        List.length_replicate]
    rw [Packet.encode, List.length_cons] at htotal
    rw [Packet.expand] at hroom
    rw [reiDecompressLoop_repeated hinside hbyte hout (by omega), hvalue, hnumber, ← hunit, hslice,
      hunit, ← hflatten, if_pos (by omega), Packet.encode, List.length_cons, Packet.expand, hunit]
    congr 1
    omega

/-- A packet was decoded to units that have room. -/
theorem Inside.next (hinside : Inside input out pixelSize ip op) {units : List UInt8}
    (hroom : op + units.length ≤ out.length) (hcount : units.length ≤ 128 * count)
    (hmore : ip + 1 + count ≤ input.length) :
    Inside input (splice out op units) pixelSize (ip + 1 + count) (op + units.length) := by
  obtain ⟨hsize, -, -, hratio, hmemory⟩ := hinside
  have hlength := length_splice hroom
  exact ⟨hsize, hmore, hlength ▸ hroom, by omega, hlength ▸ hmemory⟩

/-- How many bytes the copies of a pixel are. -/
theorem length_copies (hpx : px.length = pixelSize) (hmost : count ≤ 128) :
    (List.replicate count px).flatten.length = pixelSize * count ∧
      pixelSize * count ≤ 128 * pixelSize := by
  refine ⟨?_, ?_⟩
  · rw [length_flatten_units fun other hother ↦ List.eq_of_mem_replicate hother ▸ hpx,
      List.length_replicate]
  · rw [Nat.mul_comm]
    exact Nat.mul_le_mul_right _ hmost

/-- A decoder ends inside of its buffers, and reports success exactly if it has filled its own. -/
theorem reiDecompressLoop_stops (hinside : Inside input out pixelSize ip op)
    (hrounds : input.length < ip + rounds) :
    ∃ decoded, reiDecompressLoop input pixelSize rounds ip op out = some decoded ∧
      decoded.out.length = out.length ∧ (decoded.code = 0 ∨ decoded.code = -1) ∧
        (decoded.code = 0 ↔ decoded.produced = out.length) := by
  induction rounds generalizing ip op out with
  | zero => exact absurd hrounds (Nat.not_lt.mpr hinside.reads)
  | succ rounds ih =>
    have hend (code : ℤ) (hcode : code = if op = out.length then 0 else -1) :
        ∃ decoded, some ({ code, produced := op, out } : Decoded) = some decoded ∧
          decoded.out.length = out.length ∧ (decoded.code = 0 ∨ decoded.code = -1) ∧
            (decoded.code = 0 ↔ decoded.produced = out.length) := by
      refine ⟨_, rfl, rfl, ?_⟩
      subst hcode
      simp only
      split <;> simp_all
    by_cases hstops : input.length ≤ ip ∨ out.length ≤ op
    · rw [reiDecompressLoop_end hstops]
      exact hend _ rfl
    · obtain ⟨hip, hout⟩ := not_or.mp hstops
      obtain ⟨hsize, hreads, hwrites, hratio, hmemory⟩ := hinside
      have hinside : Inside input out pixelSize ip op := ⟨hsize, hreads, hwrites, hratio, hmemory⟩
      have hbyte := List.getElem?_eq_getElem (Nat.lt_of_not_le hip)
      have hshort : (-1 : ℤ) = if op = out.length then 0 else -1 := (if_neg (by omega)).symm
      rcases Nat.lt_trichotomy input[ip].toNat 128 with hliteral | hskip | hrepeated
      · rw [reiDecompressLoop_literal hinside hbyte (Nat.lt_of_not_le hout) hliteral]
        split
        · rename_i hfits
          have hlength := length_slice hfits.1
          have hroom : op + (slice input (ip + 1) (pixelSize * (input[ip].toNat + 1))).length ≤
              out.length := hlength.symm ▸ hfits.2
          have hlater := ih (hinside.next hroom (by omega) hfits.1) (by omega)
          rwa [length_splice hroom, hlength] at hlater
        · exact hend _ hshort
      · rw [reiDecompressLoop_skip hbyte (Nat.lt_of_not_le hout) hskip]
        exact ih ⟨hsize, by omega, hwrites, by omega, hmemory⟩ (by omega)
      · rw [reiDecompressLoop_repeated hinside hbyte (Nat.lt_of_not_le hout) hrepeated]
        split
        · rename_i hfits
          obtain ⟨hlength, hcount⟩ := length_copies (length_slice hfits.1)
            (show 257 - input[ip].toNat ≤ 128 by omega)
          have hroom : op + (List.replicate (257 - input[ip].toNat)
              (slice input (ip + 1) pixelSize)).flatten.length ≤ out.length :=
            hlength.symm ▸ hfits.2
          have hlater := ih (hinside.next hroom (hlength ▸ hcount) hfits.1) (by omega)
          rwa [length_splice hroom, hlength] at hlater
        · exact hend _ hshort

/-- What a decoder does does not depend on what is in the buffer behind its place. -/
theorem reiDecompressLoop_same {other : List UInt8} (hinside : Inside input out pixelSize ip op)
    (hlength : out.length = other.length) (hsame : out.take op = other.take op)
    (hrounds : input.length < ip + rounds) :
    ∃ decoded again, reiDecompressLoop input pixelSize rounds ip op out = some decoded ∧
      reiDecompressLoop input pixelSize rounds ip op other = some again ∧
        again.code = decoded.code ∧ again.produced = decoded.produced ∧
          decoded.out.take decoded.produced = again.out.take decoded.produced := by
  induction rounds generalizing ip op out other with
  | zero => exact absurd hrounds (Nat.not_lt.mpr hinside.reads)
  | succ rounds ih =>
    obtain ⟨hsize, hreads, hwrites, hratio, hmemory⟩ := hinside
    have hinside : Inside input out pixelSize ip op := ⟨hsize, hreads, hwrites, hratio, hmemory⟩
    have hagain : Inside input other pixelSize ip op :=
      ⟨hsize, hreads, hlength ▸ hwrites, hratio, hlength ▸ hmemory⟩
    by_cases hstops : input.length ≤ ip ∨ out.length ≤ op
    · rw [reiDecompressLoop_end hstops, reiDecompressLoop_end (hlength ▸ hstops)]
      exact ⟨_, _, rfl, rfl, by rw [hlength], rfl, hsame⟩
    · obtain ⟨hip, hout⟩ := not_or.mp hstops
      have hbyte := List.getElem?_eq_getElem (Nat.lt_of_not_le hip)
      have hless := Nat.lt_of_not_le hout
      have hlater {units : List UInt8} {count : ℕ} (hroom : op + units.length ≤ out.length)
          (hcount : units.length ≤ 128 * count) (hmore : ip + 1 + count ≤ input.length) :=
        @ih _ _ _ (splice other op units) (hinside.next hroom hcount hmore)
          (by rw [length_splice hroom, length_splice (hlength ▸ hroom), hlength])
          (take_splice hlength hsame hroom) (by omega)
      rcases Nat.lt_trichotomy input[ip].toNat 128 with hliteral | hskip | hrepeated
      · rw [reiDecompressLoop_literal hinside hbyte hless hliteral,
          reiDecompressLoop_literal hagain hbyte (hlength ▸ hless) hliteral, ← hlength]
        split
        · rename_i hfits
          have hunits := length_slice hfits.1
          have hroom : op + (slice input (ip + 1) (pixelSize * (input[ip].toNat + 1))).length ≤
              out.length := hunits.symm ▸ hfits.2
          have hrest := hlater hroom (by omega) hfits.1
          rwa [hunits] at hrest
        · exact ⟨_, _, rfl, rfl, rfl, rfl, hsame⟩
      · rw [reiDecompressLoop_skip hbyte hless hskip,
          reiDecompressLoop_skip hbyte (hlength ▸ hless) hskip]
        exact ih ⟨hsize, by omega, hwrites, by omega, hmemory⟩ hlength hsame (by omega)
      · rw [reiDecompressLoop_repeated hinside hbyte hless hrepeated,
          reiDecompressLoop_repeated hagain hbyte (hlength ▸ hless) hrepeated, ← hlength]
        split
        · rename_i hfits
          obtain ⟨hunits, hcount⟩ := length_copies (length_slice hfits.1)
            (show 257 - input[ip].toNat ≤ 128 by omega)
          have hroom : op + (List.replicate (257 - input[ip].toNat)
              (slice input (ip + 1) pixelSize)).flatten.length ≤ out.length :=
            hunits.symm ▸ hfits.2
          have hrest := hlater hroom (hunits ▸ hcount) hfits.1
          rwa [hunits] at hrest
        · exact ⟨_, _, rfl, rfl, rfl, rfl, hsame⟩

/-- What was packed is decoded. -/
theorem reiDecompressLoop_packs {encoded data : List UInt8} (hpacks : Packs pixelSize encoded data)
    (hinside : Inside input out pixelSize ip op) (hrounds : input.length < ip + rounds)
    (hinput : input.drop ip = encoded) (hroom : op + data.length = out.length) :
    reiDecompressLoop input pixelSize rounds ip op out =
      some { code := 0, produced := out.length, out := out.take op ++ data } := by
  induction hpacks generalizing rounds ip op out with
  | nil =>
    obtain ⟨rounds, rfl⟩ : ∃ more, rounds = more + 1 :=
      ⟨rounds - 1, by have hreads := hinside.reads; omega⟩
    have hfull : op = out.length := hroom
    rw [reiDecompressLoop_end (Or.inl (List.drop_eq_nil_iff.mp hinput)), if_pos hfull, hfull,
      List.take_length, List.append_nil]
  | @packet packet encoded data hvalid hrest ih =>
    obtain ⟨rounds, rfl⟩ : ∃ more, rounds = more + 1 :=
      ⟨rounds - 1, by have hreads := hinside.reads; omega⟩
    rw [List.length_append] at hroom
    obtain ⟨hsize, hreads, hwrites, hratio, hmemory⟩ := hinside
    have hfits : op + packet.expand.length ≤ out.length := by omega
    have hlength := length_splice hfits
    have htotal : input.length = ip + (packet.encode ++ encoded).length := by
      rw [← hinput, List.length_drop]
      omega
    rw [List.length_append] at htotal
    have hmuch : packet.expand.length ≤ 128 * packet.encode.length ∧ 0 < packet.encode.length := by
      cases packet with
      | literal units =>
        rw [Packet.expand, Packet.encode, List.length_cons]
        omega
      | repeated unit count =>
        obtain ⟨-, hmost, hunit⟩ := hvalid
        have hbound : unit.length * count ≤ unit.length * 128 := Nat.mul_le_mul_left _ hmost
        rw [Packet.expand, length_flatten_units fun other hother ↦
          congrArg List.length (List.eq_of_mem_replicate hother), List.length_replicate,
          Packet.encode, List.length_cons]
        omega
    have hbehind : input.drop (ip + packet.encode.length) = encoded := by
      rw [← List.drop_drop, hinput]
      exact List.drop_left
    rw [reiDecompressLoop_packet ⟨hsize, hreads, hwrites, hratio, hmemory⟩ hvalid hinput hfits,
      ih ⟨hsize, by omega, by omega, by omega, by omega⟩ (by omega) hbehind (by omega), hlength]
    have hfront : (splice out op packet.expand).take (op + packet.expand.length) =
        out.take op ++ packet.expand := by
      rw [splice]
      refine List.take_left' ?_
      rw [List.length_append, List.length_take]
      omega
    rw [hfront, List.append_assoc]

/-- The decoders are the same. -/
theorem rleDecodeLoop_eq (input : List UInt8) (pixelSize : ℕ) :
    rleDecodeLoop input pixelSize = reiDecompressLoop input pixelSize := by
  funext rounds
  induction rounds with
  | zero => rfl
  | succ rounds ih =>
    funext ip op out
    rw [rleDecodeLoop, reiDecompressLoop, ih]

end Turns

/-! ### What the encoders make -/

section Packing

variable {units : List (List UInt8)} {size k count rounds : ℕ}

/-- Whole units, and how many bytes they have. -/
structure Whole (size : ℕ) (units : List (List UInt8)) : Prop where
  positive : 0 < size
  units : ∀ unit ∈ units, unit.length = size

theorem Whole.inside (hwhole : Whole size units) :
    size * k < units.flatten.length ↔ k < units.length := by
  rw [length_flatten_units hwhole.units, Nat.mul_lt_mul_left hwhole.positive]

theorem Whole.unit (hwhole : Whole size units) (hk : k < units.length) :
    slice units.flatten (size * k) size = units[k] := by
  have hone := slice_flatten hwhole.units k 1
  rwa [Nat.mul_one, List.drop_eq_getElem_cons hk, List.take_succ_cons, List.take_zero,
    List.flatten_singleton] at hone

/-- A run of equal units from a position on. -/
structure EqualFrom (units : List (List UInt8)) (k count : ℕ) (hk : k < units.length) : Prop where
  some : 0 < count
  most : count ≤ 128
  inside : k + count ≤ units.length
  equal : (units.drop k).take count = List.replicate count units[k]

theorem EqualFrom.one (hk : k < units.length) : EqualFrom units k 1 hk := by
  refine ⟨Nat.one_pos, by decide, hk, ?_⟩
  rw [List.drop_eq_getElem_cons hk, List.take_succ_cons, List.take_zero, List.replicate_one]

/-- A run goes on with one more unit. -/
theorem EqualFrom.next {hk : k < units.length} (hrun : EqualFrom units k count hk)
    (hless : count < 128) (hmore : k + count < units.length) (heq : units[k + count] = units[k]) :
    EqualFrom units k (count + 1) hk := by
  refine ⟨Nat.succ_pos _, hless, hmore, ?_⟩
  rw [List.take_add_one, hrun.equal, List.getElem?_drop, List.getElem?_eq_getElem hmore, heq,
    List.replicate_succ']
  rfl

section

variable (hwhole : Whole size units)

include hwhole

/-- A run as a packet. -/
theorem EqualFrom.packs {hk : k < units.length}
    (hrun : EqualFrom units k count hk) (htwo : 2 ≤ count) {encoded : List UInt8}
    (hrest : Packs size encoded (units.drop (k + count)).flatten) :
    Packs size (UInt8.ofNat (257 - count) :: units[k] ++ encoded) (units.drop k).flatten := by
  have hvalid : (Packet.repeated units[k] count).Valid size :=
    ⟨htwo, hrun.most, hwhole.units _ (List.getElem_mem hk)⟩
  have hpacks := Packs.packet hvalid hrest
  rwa [Packet.expand, ← hrun.equal, ← List.flatten_append, ← List.drop_drop,
    List.take_append_drop] at hpacks

/-- Units as a packet. -/
theorem packs_literal (hsome : 0 < count) (hmost : count ≤ 128)
    (hinside : k + count ≤ units.length) {encoded : List UInt8}
    (hrest : Packs size encoded (units.drop (k + count)).flatten) :
    Packs size (UInt8.ofNat (count - 1) :: slice units.flatten (size * k) (count * size) ++ encoded)
      (units.drop k).flatten := by
  have hlength : ((units.drop k).take count).length = count := by
    rw [List.length_take, List.length_drop]
    omega
  have hvalid : (Packet.literal ((units.drop k).take count)).Valid size :=
    ⟨hlength.symm ▸ hsome, hlength.symm ▸ hmost, fun unit hunit ↦
      hwhole.units unit (List.mem_of_mem_drop (List.mem_of_mem_take hunit))⟩
  have hpacks := Packs.packet hvalid hrest
  rw [Packet.expand, Packet.encode, hlength, ← List.flatten_append, ← List.drop_drop,
    List.take_append_drop] at hpacks
  rwa [Nat.mul_comm count size, slice_flatten hwhole.units]

/-- Where the run of equal pixels ends. -/
theorem reiRunLoop_spec (rounds : ℕ) {hk : k < units.length}
    (hrun : EqualFrom units k count hk) : ∃ runLen, EqualFrom units k runLen hk ∧
      reiRunLoop units.flatten size (size * k) rounds (size * (k + count)) count =
        (size * (k + runLen), runLen) := by
  induction rounds generalizing count with
  | zero => exact ⟨count, hrun, rfl⟩
  | succ rounds ih =>
    rw [reiRunLoop]
    split
    · rename_i hgoes
      obtain ⟨hinside, hsame, hless⟩ := hgoes
      have hmore := hwhole.inside.mp hinside
      rw [hwhole.unit hmore, hwhole.unit hk] at hsame
      exact ih (hrun.next hless hmore hsame)
    · exact ⟨count, hrun, rfl⟩

/-- Where the literal run ends. -/
theorem reiLiteralLoop_spec (rounds : ℕ) (hsome : 0 < count) (hmost : count ≤ 128)
    (hinside : k + count ≤ units.length) :
    ∃ litCount, 0 < litCount ∧ litCount ≤ 128 ∧ k + litCount ≤ units.length ∧
      reiLiteralLoop units.flatten size rounds (size * (k + count)) count =
        (size * (k + litCount), litCount) := by
  induction rounds generalizing count with
  | zero => exact ⟨count, hsome, hmost, hinside, rfl⟩
  | succ rounds ih =>
    rw [reiLiteralLoop]
    split_ifs with hgoes
    · exact ⟨count, hsome, hmost, hinside, rfl⟩
    · exact ih (Nat.succ_pos _) hgoes.2 (hwhole.inside.mp hgoes.1)
    · exact ⟨count, hsome, hmost, hinside, rfl⟩

/-- The encoder for images packs whole units. -/
theorem packs_reiEncodeLoop (hrounds : units.length < k + rounds) :
    Packs size (reiEncodeLoop units.flatten size rounds (size * k)) (units.drop k).flatten := by
  have hnone {k : ℕ} (hk : ¬k < units.length) : (units.drop k).flatten = [] := by
    rw [List.drop_eq_nil_of_le (Nat.le_of_not_lt hk), List.flatten_nil]
  induction rounds generalizing k with
  | zero =>
    rw [hnone (by omega)]
    exact .nil
  | succ rounds ih =>
    rw [reiEncodeLoop]
    by_cases hk : k < units.length
    · rw [if_pos (hwhole.inside.mpr hk)]
      obtain ⟨runLen, hrun, hloop⟩ := reiRunLoop_spec hwhole 128 (EqualFrom.one hk)
      rw [Nat.mul_succ] at hloop
      simp only [hloop, hwhole.unit hk]
      have hsome := hrun.some
      split
      · rename_i htwo
        exact hrun.packs hwhole htwo (ih (by omega))
      · rename_i hone
        obtain rfl : runLen = 1 := by omega
        obtain ⟨litCount, hlit, hmost, hinside, hliteral⟩ :=
          reiLiteralLoop_spec hwhole 128 Nat.one_pos (by decide) hrun.inside
        simp only [hliteral]
        rw [Nat.mod_eq_of_lt (by omega)]
        exact packs_literal hwhole hlit hmost hinside (ih (by omega))
    · rw [if_neg fun hinside ↦ hk (hwhole.inside.mp hinside), hnone hk]
      exact .nil

/-- The run that the encoder for sounds finds. -/
theorem reisRunLoop_spec (rounds : ℕ) {hk : k < units.length}
    (hrun : EqualFrom units k count hk) : count ≤ reisRunLoop units.flatten size units.length k
      rounds count ∧ EqualFrom units k (reisRunLoop units.flatten size units.length k rounds count)
        hk := by
  induction rounds generalizing count with
  | zero => exact ⟨Nat.le_refl _, hrun⟩
  | succ rounds ih =>
    rw [reisRunLoop]
    split
    · rename_i hgoes
      obtain ⟨hmore, hless, hsame⟩ := hgoes
      rw [Nat.mul_comm k, Nat.mul_comm (k + count), hwhole.unit hmore, hwhole.unit hk] at hsame
      obtain ⟨hlonger, hresult⟩ := ih (hrun.next hless hmore hsame.symm)
      exact ⟨Nat.le_of_succ_le hlonger, hresult⟩
    · exact ⟨Nat.le_refl _, hrun⟩

/-- Three equal units are a run for it. -/
theorem three_le_reisRunLoop (hmore : k + 2 < units.length)
    (hthree : threeEqual units.flatten size k = true) :
    3 ≤ reisRunLoop units.flatten size units.length k 128 1 := by
  have hk : k < units.length := by omega
  obtain ⟨hfirst, hsecond⟩ := (Bool.and_eq_true _ _).mp hthree
  have hone := eq_of_beq hfirst
  have htwo := hone.trans (eq_of_beq hsecond)
  have hequal (other : ℕ) (hother : k + other < units.length)
      (hsame :
        slice units.flatten (k * size) size = slice units.flatten ((k + other) * size) size) :
      units[k + other] = units[k] := by
    rw [Nat.mul_comm k, Nat.mul_comm (k + other), hwhole.unit hother, hwhole.unit hk] at hsame
    exact hsame.symm
  have hrun := (EqualFrom.one hk).next (by decide) (by omega) (hequal 1 (by omega) hone)
  have hthird := hrun.next (by decide) hmore (hequal 2 hmore htwo)
  rw [reisRunLoop, if_pos ⟨by omega, by decide, hone⟩, reisRunLoop,
    if_pos ⟨hmore, by decide, htwo⟩]
  exact (reisRunLoop_spec hwhole 126 hthird).1

end

/-- Where its literal run ends. -/
theorem reisLiteralLoop_spec (size rounds : ℕ) (hmost : count ≤ 128)
    (hinside : k + count ≤ units.length) :
    ∃ litCount, count ≤ litCount ∧ litCount ≤ 128 ∧ k + litCount ≤ units.length ∧
      reisLiteralLoop units.flatten size units.length rounds (k + count) count =
        (k + litCount, litCount) := by
  induction rounds generalizing count with
  | zero => exact ⟨count, Nat.le_refl _, hmost, hinside, rfl⟩
  | succ rounds ih =>
    rw [reisLiteralLoop]
    split_ifs with hgoes
    · exact ⟨count, Nat.le_refl _, hmost, hinside, rfl⟩
    · obtain ⟨litCount, hlonger, hrest⟩ := ih hgoes.2 hgoes.1
      exact ⟨litCount, Nat.le_of_succ_le hlonger, hrest⟩
    · exact ⟨count, Nat.le_refl _, hmost, hinside, rfl⟩

/-- The encoder for sounds packs whole units. -/
theorem packs_reisEncodeLoop (hwhole : Whole size units) (hrounds : units.length < k + rounds) :
    Packs size (reisEncodeLoop units.flatten size units.length rounds k)
      (units.drop k).flatten := by
  have hnone {k : ℕ} (hk : ¬k < units.length) : (units.drop k).flatten = [] := by
    rw [List.drop_eq_nil_of_le (Nat.le_of_not_lt hk), List.flatten_nil]
  induction rounds generalizing k with
  | zero =>
    rw [hnone (by omega)]
    exact .nil
  | succ rounds ih =>
    rw [reisEncodeLoop]
    by_cases hk : k < units.length
    · rw [if_pos hk]
      obtain ⟨-, hrun⟩ := reisRunLoop_spec hwhole 128 (EqualFrom.one hk)
      have hthree := three_le_reisRunLoop (k := k) hwhole
      generalize reisRunLoop units.flatten size units.length k 128 1 = runLen at hrun hthree ⊢
      rw [Nat.mul_comm k size, hwhole.unit hk]
      have hsome := hrun.some
      simp only
      split
      · rename_i hlong
        exact hrun.packs hwhole (by omega) (ih (by omega))
      · rename_i hshort
        -- a literal run is not empty where no run was found
        have hgoes : ¬(k + 2 < units.length ∧ threeEqual units.flatten size k = true) :=
          fun hequal ↦ hshort ⟨by omega, hthree hequal.1 hequal.2⟩
        obtain ⟨litCount, hlit, hmost, hinside, hliteral⟩ :=
          reisLiteralLoop_spec size 127 (show 1 ≤ 128 by decide) hk
        have hlit : 0 < litCount := hlit
        have hliteral : reisLiteralLoop units.flatten size units.length 128 k 0 =
            (k + litCount, litCount) := by
          rw [reisLiteralLoop, if_pos ⟨hk, by decide⟩, if_neg hgoes]
          exact hliteral
        simp only [hliteral]
        rw [if_pos hlit]
        exact packs_literal hwhole hlit hmost hinside (ih (by omega))
    · rw [if_neg hk, hnone hk]
      exact .nil

/-- Both encoders pack whole units. -/
theorem packs_encode {data : List UInt8} (hsize : 0 < size) (hdvd : size ∣ data.length) :
    Packs size (reiEncodeRle data size) data ∧ Packs size (reisEncodeRle data size) data := by
  obtain ⟨units, rfl, hunits⟩ := exists_units hdvd
  have hwhole : Whole size units := ⟨hsize, hunits⟩
  have hlength := length_flatten_units hunits
  have hmany : units.length ≤ units.flatten.length := by
    rw [hlength]
    exact Nat.le_mul_of_pos_left _ hsize
  constructor
  · exact packs_reiEncodeLoop (k := 0) hwhole (by omega)
  · have htotal : units.flatten.length / size = units.length := by
      rw [hlength, Nat.mul_div_cancel_left _ hsize]
    rw [reisEncodeRle, htotal]
    exact packs_reisEncodeLoop (k := 0) hwhole (by omega)

end Packing

/-! ### The coding -/

/-- A coding of units of one size that fits in the memory: what either encoder makes of whole units
is decoded to them, whatever is in the buffer before. -/
def RoundTrips (unit : UInt8) : Prop :=
  ∀ data out : List UInt8, unit.toNat ∣ data.length → out.length = data.length →
    ∀ encode ∈ [reiEncodeRle, reisEncodeRle],
      (encode data unit.toNat).length + out.length < 4294967296 →
        reiDecompressRle (encode data unit.toNat) out unit =
            some { code := 0, produced := data.length, out := data } ∧
          rleDecodePackbits (encode data unit.toNat) out (Int32.ofNat unit.toNat) =
            some { code := 0, produced := data.length, out := data }

/-- The decoders end inside of their buffers with the same result, and report success exactly if
they have filled the buffer. -/
def DecodesSafely (unit : UInt8) : Prop :=
  ∀ input out : List UInt8, input.length + out.length < 4294967296 →
    ∃ decoded, reiDecompressRle input out unit = some decoded ∧
      rleDecodePackbits input out (Int32.ofNat unit.toNat) = some decoded ∧
        decoded.out.length = out.length ∧ (decoded.code = 0 ∨ decoded.code = -1) ∧
          (decoded.code = 0 → decoded.produced = out.length)

/-- The decoders agree. -/
theorem rleDecodePackbits_eq (input out : List UInt8) (unit : UInt8) :
    rleDecodePackbits input out (Int32.ofNat unit.toNat) = reiDecompressRle input out unit := by
  have hall : ∀ value < 256, (Int32.ofNat value ≤ 0 ↔ value = 0) ∧
      (Int32.ofNat value).toInt.toNat = value := by decide +kernel
  obtain ⟨hzero, hvalue⟩ := hall unit.toNat unit.toNat_lt
  rw [rleDecodePackbits, reiDecompressRle, rleDecodeLoop_eq, hvalue]
  by_cases hunit : unit = 0
  · rw [if_pos hunit, if_pos (hzero.mpr (by rw [hunit]; rfl))]
  · rw [if_neg hunit, if_neg fun hle ↦ hunit (UInt8.toNat_inj.mp (hzero.mp hle))]

/-- The loop of a decoder fills every buffer of a size with the same bytes, or rejects its input for
every one. -/
theorem reiDecompressLoop_fills {input : List UInt8} {pixelSize rounds size : ℕ}
    (hunit : 0 < pixelSize ∧ pixelSize ≤ 255) (hmemory : input.length + size < 4294967296)
    (hrounds : input.length < rounds) :
    (∃ data : List UInt8, data.length = size ∧ ∀ out : List UInt8, out.length = size →
      ∃ decoded, reiDecompressLoop input pixelSize rounds 0 0 out = some decoded ∧
        decoded.code = 0 ∧ decoded.out = data) ∨
    ∀ out : List UInt8, out.length = size →
      ∃ decoded, reiDecompressLoop input pixelSize rounds 0 0 out = some decoded ∧
        decoded.code = -1 := by
  have hinside {out : List UInt8} (hout : out.length = size) : Inside input out pixelSize 0 0 :=
    ⟨hunit, Nat.zero_le _, Nat.zero_le _, Nat.zero_le _, hout.symm ▸ hmemory⟩
  have hmany : input.length < 0 + rounds := by omega
  have hfirst : (List.replicate size (0 : UInt8)).length = size := List.length_replicate
  obtain ⟨first, hrun, hlength, hcodes, hcode⟩ := reiDecompressLoop_stops (hinside hfirst) hmany
  have hsame {out : List UInt8} (hout : out.length = size) :
      ∃ again, reiDecompressLoop input pixelSize rounds 0 0 out = some again ∧
        again.code = first.code ∧ again.produced = first.produced ∧
          first.out.take first.produced = again.out.take first.produced := by
    obtain ⟨decoded, again, hdecoded, hagain, hrest⟩ :=
      reiDecompressLoop_same (hinside hfirst) (hfirst.trans hout.symm) rfl hmany
    obtain rfl := Option.some.inj (hrun.symm.trans hdecoded)
    exact ⟨again, hagain, hrest⟩
  rcases hcodes with hzero | hrejected
  · refine .inl ⟨first.out, hlength.trans hfirst, fun out hout ↦ ?_⟩
    obtain ⟨again, hagain, hsamecode, hproduced, hfront⟩ := hsame hout
    obtain ⟨other, hother, houtlength, -⟩ := reiDecompressLoop_stops (hinside hout) hmany
    obtain rfl := Option.some.inj (hagain.symm.trans hother)
    refine ⟨again, hagain, hsamecode.trans hzero, ?_⟩
    rw [hcode.mp hzero, ← hlength, List.take_length, List.take_of_length_le (by omega)] at hfront
    exact hfront.symm
  · refine .inr fun out hout ↦ ?_
    obtain ⟨again, hagain, hsamecode, -⟩ := hsame hout
    exact ⟨again, hagain, hsamecode.trans hrejected⟩

/-- The coding of images and sounds is sound: for every size of units the decoders are safe, and
undo either encoder. -/
theorem packBits_sound (unit : UInt8) : DecodesSafely unit ∧ (unit ≠ 0 → RoundTrips unit) := by
  constructor
  · intro input out hmemory
    rw [rleDecodePackbits_eq, reiDecompressRle]
    by_cases hunit : unit = 0
    · rw [if_pos hunit]
      exact ⟨_, rfl, rfl, rfl, Or.inr rfl, fun hcode ↦ absurd hcode (by simp)⟩
    · rw [if_neg hunit]
      have hpositive : 0 < unit.toNat :=
        Nat.pos_of_ne_zero fun hval ↦ hunit (UInt8.toNat_inj.mp hval)
      have hsize : unit.toNat ≤ 255 := Nat.le_of_lt_succ unit.toNat_lt
      have hinside : Inside input out unit.toNat 0 0 :=
        ⟨⟨hpositive, hsize⟩, Nat.zero_le _, Nat.zero_le _, Nat.zero_le _, hmemory⟩
      have hrounds : input.length < 0 + (input.length + 1) := by omega
      obtain ⟨decoded, hrun, hlength, hcodes, hcode⟩ := reiDecompressLoop_stops hinside hrounds
      exact ⟨decoded, hrun, hrun, hlength, hcodes, hcode.mp⟩
  · intro hunit data out hdvd hlength encode hencode hmemory
    have hpositive : 0 < unit.toNat :=
      Nat.pos_of_ne_zero fun hval ↦ hunit (UInt8.toNat_inj.mp hval)
    have hsize : unit.toNat ≤ 255 := Nat.le_of_lt_succ unit.toNat_lt
    have hpacks : Packs unit.toNat (encode data unit.toNat) data := by
      obtain ⟨hrei, hreis⟩ := packs_encode hpositive hdvd
      rcases List.mem_cons.mp hencode with rfl | hencode
      · exact hrei
      · rwa [List.mem_singleton.mp hencode]
    rw [rleDecodePackbits_eq, and_self, reiDecompressRle, if_neg hunit, ← hlength]
    exact reiDecompressLoop_packs hpacks
      ⟨⟨hpositive, hsize⟩, Nat.zero_le _, Nat.zero_le _, Nat.zero_le _, hmemory⟩ (by omega) rfl
      (by rw [hlength, Nat.zero_add])

end EynOS.Media
