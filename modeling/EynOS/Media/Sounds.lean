import EynOS.Media.Images

/-!
# Parsing sounds

`reis_parse_audio` of `reis.c`. `mediaParsers_iff`: the parsers of images and sounds are all safe
for a file exactly where the sum of the offset and the size of its samples does not wrap, or nothing
is read by it that is not in the file.

The decoder gets a pointer into the file and the size from the header, so that it is modelled with
both apart from the bytes that are there (`rleDecodeFrom`). Where they fit the file it is the
decoder of the bytes (`rleDecodeFrom_eq`).
-/

namespace EynOS.Media

open Foundation

/-! ### The parser -/

/-- `reis_header_t`. -/
structure ReisHeader where
  magic : ℕ
  version : ℕ
  channels : UInt8
  bits : UInt8
  sampleRate : ℕ
  frameCount : ℕ
  dataOffset : ℕ
  dataSize : ℕ
  flags : ℕ
  reserved : ℕ
  deriving DecidableEq

/-- `reis_audio_t`. -/
structure ReisAudio where
  header : ReisHeader
  samples : Option (List UInt8)
  samplesSize : ℕ
  deriving DecidableEq

def ReisHeader.ofBytes (bytes : List UInt8) : ReisHeader where
  magic := leLong bytes 0
  version := leShort bytes 4
  channels := bytes.getD 6 0
  bits := bytes.getD 7 0
  sampleRate := leLong bytes 8
  frameCount := leLong bytes 12
  dataOffset := leLong bytes 16
  dataSize := leLong bytes 20
  flags := leLong bytes 24
  reserved := leLong bytes 28

def ReisHeader.frameSize (header : ReisHeader) : ℕ :=
    header.channels.toNat * (header.bits.toNat / 8)

def ReisAudio.size (audio : ReisAudio) : ℕ := audio.header.frameCount * audio.header.frameSize

def reisPcmSize (header : ReisHeader) : ℕ :=
  u32 (u32 (header.frameCount * header.channels.toNat) * (header.bits.toNat / 8))

def reisFrameBytes (header : ReisHeader) : ℕ :=
    u32 (header.channels.toNat * (header.bits.toNat / 8))

def reisValidateHeader (header : ReisHeader) : ℤ :=
  if header.magic ≠ 0x52454953 then -1
  else if header.version ≠ 1 then -1
  else if header.channels ≠ 1 ∧ header.channels ≠ 2 then -1
  else if header.bits ≠ 8 ∧ header.bits ≠ 16 then -1
  else if header.sampleRate = 0 ∨ 48000 < header.sampleRate then -1
  else if header.frameCount = 0 ∨ 86400000 < header.frameCount then -1
  else if header.dataOffset < 32 then -1
  else if header.dataSize = 0 then -1
  else if 1 < header.flags % 16 then -1
  else 0

/-- `reis_read_header`: its result, and the header. -/
def reisReadHeader (data : List UInt8) : Option (ℤ × ReisHeader) :=
  if data.length < 32 then some (-1, .ofBytes [])
  else
    (readBytes data 0 32).map fun bytes ↦ (reisValidateHeader (.ofBytes bytes), .ofBytes bytes)

/-- The loop of `rle_decode_packbits` over the bytes that a pointer leads to. -/
def rleDecodeFromLoop (data : List UInt8) (start inLen pixelSize : ℕ) :
    ℕ → ℕ → ℕ → List UInt8 → Option Decoded
  | 0, _, _, _ => none
  | rounds + 1, ip, op, out =>
    if ip < inLen ∧ op < out.length then
      (data[start + ip]?).bind fun byte ↦
        let n : ℤ := byte.toInt8.toInt
        let ip := ip + 1
        if 0 ≤ n then
          let count := n.toNat + 1
          let bytes := u32 (count * pixelSize)
          if inLen < u32 (ip + bytes) then some { code := -1, produced := op, out }
          else if out.length < u32 (op + bytes) then some { code := -1, produced := op, out }
          else
            (readBytes data (start + ip) bytes).bind fun units ↦
              (writeBytes out op units).bind fun out ↦
                rleDecodeFromLoop data start inLen pixelSize rounds (u32 (ip + bytes))
                  (u32 (op + bytes)) out
        else if n ≠ -128 then
          let count := (1 - n).toNat
          let bytes := u32 (count * pixelSize)
          if inLen < u32 (ip + pixelSize) then some { code := -1, produced := op, out }
          else if out.length < u32 (op + bytes) then some { code := -1, produced := op, out }
          else
            (readBytes data (start + ip) pixelSize).bind fun px ↦
              (replicatePixel pixelSize px count op out).bind fun (op, out) ↦
                rleDecodeFromLoop data start inLen pixelSize rounds (u32 (ip + pixelSize)) op out
        else rleDecodeFromLoop data start inLen pixelSize rounds ip op out
    else some { code := if op = out.length then 0 else -1, produced := op, out }

/-- `rle_decode_packbits`, with the pointer and the length that it is given. -/
def rleDecodeFrom (data : List UInt8) (start inLen : ℕ) (out : List UInt8) (pixelSize : ℕ) :
    Option Decoded :=
  if pixelSize = 0 then some { code := -1, produced := 0, out }
  else rleDecodeFromLoop data start inLen pixelSize (inLen + 1) 0 0 out

/-- What `reis_parse_audio` does with its buffer. -/
def reisFill (data : List UInt8) (header : ReisHeader) (pcmBytes : ℕ) (samples : List UInt8) :
    Option (Option (List UInt8)) :=
  let comp := header.flags % 16
  if comp = 0 then
    if header.dataSize < pcmBytes then some none
    else
      (readBytes data header.dataOffset pcmBytes).bind fun payload ↦
        (writeBytes samples 0 payload).map some
  else if comp = 1 then
    (rleDecodeFrom data header.dataOffset header.dataSize samples (reisFrameBytes header)).map
      fun decoded ↦ if decoded.code ≠ 0 then none else some decoded.out
  else some none

def reisParseAudio {file : MediaFile} (memory : Memory file) (audio : ReisAudio)
    (garbage : ℕ → UInt8) : Option (Parsed ReisAudio) :=
  (reisReadHeader file.bytes).bind fun (code, header) ↦
    let pcmBytes := reisPcmSize header
    if code ≠ 0 then some ⟨-1, audio, none⟩
    else if file.bytes.length < u32 (header.dataOffset + header.dataSize) then
      some ⟨-1, audio, none⟩
    else if pcmBytes = 0 then some ⟨-1, audio, none⟩
    else
      fillBuffer memory garbage pcmBytes { audio with samples := none }
        ⟨header, none, pcmBytes⟩ (fun samples ↦ ⟨header, some samples, pcmBytes⟩)
        (reisFill file.bytes header pcmBytes)

/-! ### Packets that are there -/

/-- The units that a packet holds, by its control byte. -/
def heldUnits (byte : UInt8) : ℕ := if byte.toNat < 128 then byte.toNat + 1 else 1

def writtenUnits (byte : UInt8) : ℕ :=
  if byte.toNat < 128 then byte.toNat + 1 else 257 - byte.toNat

/-- A decoder of units of a size gets what it needs from bytes: it has filled its buffer, or come to
a packet that has no room in it, before they end. -/
inductive Served (size : ℕ) : List UInt8 → ℕ → Prop
  | filled (bytes : List UInt8) : Served size bytes 0
  | skip {byte : UInt8} {rest : List UInt8} {need : ℕ} (hbyte : byte.toNat = 128)
    (hrest : Served size rest need) : Served size (byte :: rest) need
  | refused {byte : UInt8} {rest : List UInt8} {need : ℕ} (hbyte : byte.toNat ≠ 128)
    (hmuch : need < size * writtenUnits byte) : Served size (byte :: rest) need
  | packet {byte : UInt8} {rest : List UInt8} {need : ℕ} (hbyte : byte.toNat ≠ 128)
    (hinside : size * heldUnits byte ≤ rest.length)
    (hrest : Served size (rest.drop (size * heldUnits byte)) (need - size * writtenUnits byte)) :
    Served size (byte :: rest) need

section Served

variable {size need : ℕ} {byte : UInt8} {rest : List UInt8}

theorem not_served_nil (hneed : 0 < need) : ¬ Served size [] need := by
  intro hserved
  cases hserved
  exact absurd hneed (Nat.lt_irrefl 0)

theorem served_skip_iff (hneed : 0 < need) (hbyte : byte.toNat = 128) :
    Served size (byte :: rest) need ↔ Served size rest need := by
  refine ⟨fun hserved ↦ ?_, .skip hbyte⟩
  cases hserved with
  | filled => exact absurd hneed (Nat.lt_irrefl 0)
  | skip _ hrest => exact hrest
  | refused hother => exact absurd hbyte hother
  | packet hother => exact absurd hbyte hother

theorem served_packet_iff (hbyte : byte.toNat ≠ 128) (hroom : size * writtenUnits byte ≤ need)
    (hneed : 0 < need) :
    Served size (byte :: rest) need ↔ size * heldUnits byte ≤ rest.length ∧
      Served size (rest.drop (size * heldUnits byte)) (need - size * writtenUnits byte) := by
  refine ⟨fun hserved ↦ ?_, fun hboth ↦ .packet hbyte hboth.1 hboth.2⟩
  cases hserved with
  | filled => exact absurd hneed (Nat.lt_irrefl 0)
  | skip hother => exact absurd hother hbyte
  | refused _ hmuch => omega
  | packet _ hinside hrest => exact ⟨hinside, hrest⟩

end Served

/-! ### One turn of the decoder of a pointer -/

section Turns

variable {data out : List UInt8} {start inLen pixelSize ip op rounds count : ℕ} {byte : UInt8}

/-- Where the decoder is: inside of the file, as far as it has read. -/
structure Placed (data out : List UInt8) (start inLen pixelSize ip op : ℕ) : Prop where
  size : 0 < pixelSize ∧ pixelSize ≤ 255
  reads : start + ip ≤ data.length
  writes : op ≤ out.length
  length : ip ≤ inLen
  ratio : op ≤ 128 * ip
  memory : data.length + out.length ≤ 4293918720

theorem rleDecodeFromLoop_end (hend : inLen ≤ ip ∨ out.length ≤ op) :
    rleDecodeFromLoop data start inLen pixelSize (rounds + 1) ip op out =
      some { code := if op = out.length then 0 else -1, produced := op, out } := by
  rw [rleDecodeFromLoop, if_neg (by omega)]

theorem rleDecodeFromLoop_none (hip : ip < inLen) (hop : op < out.length)
    (hbyte : data[start + ip]? = none) :
    rleDecodeFromLoop data start inLen pixelSize (rounds + 1) ip op out = none := by
  rw [rleDecodeFromLoop, if_pos ⟨hip, hop⟩, hbyte, Option.bind_none]

/-- A control byte that stands for nothing. -/
theorem rleDecodeFromLoop_skip (hip : ip < inLen) (hop : op < out.length)
    (hbyte : data[start + ip]? = some byte) (hcontrol : byte.toNat = 128) :
    rleDecodeFromLoop data start inLen pixelSize (rounds + 1) ip op out =
      rleDecodeFromLoop data start inLen pixelSize rounds (ip + 1) op out := by
  have hn : byte.toInt8.toInt = -128 := by rw [toInt_control, hcontrol]; rfl
  rw [rleDecodeFromLoop, if_pos ⟨hip, hop⟩, hbyte, Option.bind_some]
  simp only [hn]
  rfl

/-- What a packet writes, for the bytes of the file behind its control byte. -/
def packetUnits (data : List UInt8) (start pixelSize : ℕ) (byte : UInt8) : List UInt8 :=
  if byte.toNat < 128 then slice data start (pixelSize * (byte.toNat + 1))
  else (List.replicate (257 - byte.toNat) (slice data start pixelSize)).flatten

theorem rleDecodeFromLoop_packet (hplaced : Placed data out start inLen pixelSize ip op)
    (hip : ip < inLen) (hop : op < out.length) (hbyte : data[start + ip]? = some byte)
    (hcontrol : byte.toNat ≠ 128) :
    rleDecodeFromLoop data start inLen pixelSize (rounds + 1) ip op out =
      if ip + 1 + pixelSize * heldUnits byte ≤ inLen ∧
          op + pixelSize * writtenUnits byte ≤ out.length then
        if start + ip + 1 + pixelSize * heldUnits byte ≤ data.length then
          rleDecodeFromLoop data start inLen pixelSize rounds
            (ip + 1 + pixelSize * heldUnits byte) (op + pixelSize * writtenUnits byte)
            (splice out op (packetUnits data (start + ip + 1) pixelSize byte))
        else none
      else some { code := -1, produced := op, out } := by
  obtain ⟨⟨hpositive, hsmall⟩, hreads, -, -, hratio, hmemory⟩ := hplaced
  have hin : start + ip < data.length := (List.getElem?_eq_some_iff.mp hbyte).1
  have hlast := byte.toNat_lt
  rw [rleDecodeFromLoop, if_pos ⟨hip, hop⟩, hbyte, Option.bind_some]
  unfold heldUnits writtenUnits packetUnits
  by_cases hliteral : byte.toNat < 128
  · have hn : byte.toInt8.toInt = (byte.toNat : ℤ) := by rw [toInt_control, if_pos hliteral]
    have hbytes : pixelSize * (byte.toNat + 1) ≤ 255 * 128 := Nat.mul_le_mul hsmall hliteral
    simp only [hn, Int.natCast_nonneg, if_true, Int.toNat_natCast, if_pos hliteral]
    rw [Nat.mul_comm (byte.toNat + 1), u32_of_lt (pixelSize * (byte.toNat + 1)) (by omega)]
    generalize pixelSize * (byte.toNat + 1) = bytes at hbytes ⊢
    rw [u32_of_lt (ip + 1 + bytes) (by omega), u32_of_lt (op + bytes) (by omega)]
    by_cases hfits : ip + 1 + bytes ≤ inLen ∧ op + bytes ≤ out.length
    · rw [if_pos hfits, if_neg (by omega), if_neg (by omega), Nat.add_assoc start ip 1]
      by_cases hinside : start + (ip + 1) + bytes ≤ data.length
      · have hdata : (slice data (start + (ip + 1)) bytes).length = bytes := length_slice hinside
        rw [if_pos hinside, readBytes_eq hinside, Option.bind_some, writeBytes_eq (by omega),
          Option.bind_some]
      · rw [if_neg hinside, readBytes, if_neg hinside, Option.bind_none]
    · rw [if_neg hfits]
      split_ifs with hfirst hsecond
      · rfl
      · rfl
      · omega
  · have hn : byte.toInt8.toInt = (byte.toNat : ℤ) - 256 := by
      rw [toInt_control, if_neg hliteral]
    have hcount : (1 - ((byte.toNat : ℤ) - 256)).toNat = 257 - byte.toNat := by omega
    have hnegative : ¬(0 : ℤ) ≤ (byte.toNat : ℤ) - 256 := by omega
    have hnot : (byte.toNat : ℤ) - 256 ≠ -128 := by omega
    have hbytes : pixelSize * (257 - byte.toNat) ≤ 255 * 128 := Nat.mul_le_mul hsmall (by omega)
    simp only [hn, if_neg hnegative, if_pos hnot, hcount, if_neg hliteral, Nat.mul_one]
    rw [Nat.mul_comm (257 - byte.toNat), u32_of_lt (pixelSize * (257 - byte.toNat)) (by omega),
      u32_of_lt (ip + 1 + pixelSize) (by omega),
      u32_of_lt (op + pixelSize * (257 - byte.toNat)) (by omega)]
    by_cases hfits : ip + 1 + pixelSize ≤ inLen ∧
        op + pixelSize * (257 - byte.toNat) ≤ out.length
    · rw [if_pos hfits, if_neg (by omega), if_neg (by omega), Nat.add_assoc start ip 1]
      by_cases hinside : start + (ip + 1) + pixelSize ≤ data.length
      · have hpx : (slice data (start + (ip + 1)) pixelSize).length = pixelSize :=
          length_slice hinside
        rw [if_pos hinside, readBytes_eq hinside, Option.bind_some,
          replicatePixel_eq hpx hfits.2 (by omega), Option.bind_some]
      · rw [if_neg hinside, readBytes, if_neg hinside, Option.bind_none]
    · rw [if_neg hfits]
      split_ifs with hfirst hsecond
      · rfl
      · rfl
      · omega

theorem length_packetUnits (hinside : start + pixelSize * heldUnits byte ≤ data.length) :
    (packetUnits data start pixelSize byte).length = pixelSize * writtenUnits byte := by
  unfold heldUnits at hinside
  unfold packetUnits writtenUnits
  split_ifs at hinside ⊢ with hliteral
  · exact length_slice hinside
  · rw [Nat.mul_one] at hinside
    have hunit := length_slice hinside
    rw [length_flatten_units fun other hother ↦ List.eq_of_mem_replicate hother ▸ hunit,
      List.length_replicate]

theorem slice_slice {more : ℕ} (hinside : more + count ≤ inLen) :
    slice (slice data start inLen) more count = slice data (start + more) count := by
  unfold slice
  rw [List.drop_take, List.drop_drop, List.take_take, Nat.min_eq_left (by omega)]

theorem packetUnits_slice (hinside : ip + pixelSize * heldUnits byte ≤ inLen) :
    packetUnits (slice data start inLen) ip pixelSize byte =
      packetUnits data (start + ip) pixelSize byte := by
  unfold heldUnits at hinside
  unfold packetUnits
  split_ifs at hinside ⊢ with hliteral
  · exact slice_slice hinside
  · rw [slice_slice (by omega)]

/-- A packet, for the decoder of bytes. -/
theorem reiDecompressLoop_turn {input : List UInt8} (hinside : Inside input out pixelSize ip op)
    (hop : op < out.length) (hbyte : input[ip]? = some byte) (hcontrol : byte.toNat ≠ 128) :
    reiDecompressLoop input pixelSize (rounds + 1) ip op out =
      if ip + 1 + pixelSize * heldUnits byte ≤ input.length ∧
          op + pixelSize * writtenUnits byte ≤ out.length then
        reiDecompressLoop input pixelSize rounds (ip + 1 + pixelSize * heldUnits byte)
          (op + pixelSize * writtenUnits byte)
          (splice out op (packetUnits input (ip + 1) pixelSize byte))
      else some { code := -1, produced := op, out } := by
  unfold heldUnits writtenUnits packetUnits
  by_cases hliteral : byte.toNat < 128
  · simp only [if_pos hliteral]
    exact reiDecompressLoop_literal hinside hbyte hop hliteral
  · simp only [if_neg hliteral, Nat.mul_one]
    exact reiDecompressLoop_repeated hinside hbyte hop (by omega)

/-- Where the decoder is behind a packet. -/
theorem Placed.next (hplaced : Placed data out start inLen pixelSize ip op)
    (hcontrol : byte.toNat ≠ 128) (hlength : ip + 1 + pixelSize * heldUnits byte ≤ inLen)
    (hroom : op + pixelSize * writtenUnits byte ≤ out.length)
    (hreads : start + ip + 1 + pixelSize * heldUnits byte ≤ data.length) :
    Placed data (splice out op (packetUnits data (start + ip + 1) pixelSize byte)) start inLen
      pixelSize (ip + 1 + pixelSize * heldUnits byte) (op + pixelSize * writtenUnits byte) := by
  obtain ⟨hsize, -, -, -, hratio, hmemory⟩ := hplaced
  have hunits := length_packetUnits hreads
  have hout : (splice out op (packetUnits data (start + ip + 1) pixelSize byte)).length =
      out.length := length_splice (by omega)
  have hwritten : pixelSize * writtenUnits byte ≤ 128 * (1 + pixelSize * heldUnits byte) := by
    have hlast := byte.toNat_lt
    unfold writtenUnits heldUnits
    by_cases hliteral : byte.toNat < 128
    · simp only [if_pos hliteral]
      omega
    · simp only [if_neg hliteral]
      have hmany := Nat.mul_le_mul_left pixelSize (show 257 - byte.toNat ≤ 128 by omega)
      omega
  exact ⟨hsize, by omega, by omega, hlength, by omega, by omega⟩

/-- A decoder whose length fits the file is the decoder of the bytes. -/
theorem rleDecodeFromLoop_eq (hfits : start + inLen ≤ data.length)
    (hplaced : Placed data out start inLen pixelSize ip op) :
    rleDecodeFromLoop data start inLen pixelSize rounds ip op out =
      reiDecompressLoop (slice data start inLen) pixelSize rounds ip op out := by
  induction rounds generalizing ip op out with
  | zero => rfl
  | succ rounds ih =>
    have hinput : (slice data start inLen).length = inLen := length_slice hfits
    by_cases hend : inLen ≤ ip ∨ out.length ≤ op
    · rw [rleDecodeFromLoop_end hend, reiDecompressLoop_end (by rwa [hinput])]
    · obtain ⟨hip, hop⟩ := not_or.mp hend
      have hmemory := hplaced.memory
      have hinside : Inside (slice data start inLen) out pixelSize ip op :=
        ⟨hplaced.size, by rw [hinput]; exact hplaced.length, hplaced.writes, hplaced.ratio,
          by rw [hinput]; omega⟩
      have hread := List.getElem?_eq_getElem (l := data) (i := start + ip) (by omega)
      have hslice : (slice data start inLen)[ip]? = some data[start + ip] := by
        rw [← hread, slice, List.getElem?_take_of_lt (by omega), List.getElem?_drop]
      generalize data[start + ip] = byte at hread hslice
      by_cases hskip : byte.toNat = 128
      · rw [rleDecodeFromLoop_skip (by omega) (by omega) hread hskip,
          reiDecompressLoop_skip hslice (by omega) hskip]
        refine ih ⟨hplaced.size, by omega, hplaced.writes, by omega, ?_, hmemory⟩
        have hratio := hplaced.ratio
        omega
      · rw [rleDecodeFromLoop_packet hplaced (by omega) (by omega) hread hskip,
          reiDecompressLoop_turn hinside (by omega) hslice hskip, hinput]
        refine if_ctx_congr Iff.rfl (fun hboth ↦ ?_) fun _ ↦ rfl
        rw [if_pos (by omega), packetUnits_slice hboth.1, ← Nat.add_assoc]
        exact ih (hplaced.next hskip hboth.1 hboth.2 (by omega))

/-- A decoder whose length goes beyond the file does what the decoder of the bytes does, as far as
that gets what it needs. -/
theorem rleDecodeFromLoop_of_long (hlong : data.length + 65536 ≤ start + inLen)
    (hplaced : Placed data out start inLen pixelSize ip op)
    (hrounds : data.length < start + ip + rounds) :
    (Served pixelSize (data.drop (start + ip)) (out.length - op) →
      rleDecodeFromLoop data start inLen pixelSize rounds ip op out =
        reiDecompressLoop (data.drop start) pixelSize rounds ip op out) ∧
    (¬ Served pixelSize (data.drop (start + ip)) (out.length - op) →
      rleDecodeFromLoop data start inLen pixelSize rounds ip op out = none) := by
  induction rounds generalizing ip op out with
  | zero => exact absurd hrounds (Nat.not_lt.mpr hplaced.reads)
  | succ rounds ih =>
    have hreads := hplaced.reads
    have hmemory := hplaced.memory
    have hinput : (data.drop start).length = data.length - start := List.length_drop
    by_cases hfull : out.length ≤ op
    · have hneed : out.length - op = 0 := by omega
      rw [rleDecodeFromLoop_end (.inr hfull), reiDecompressLoop_end (.inr hfull), hneed]
      exact ⟨fun _ ↦ rfl, fun hnot ↦ absurd (.filled _) hnot⟩
    · have hinside : Inside (data.drop start) out pixelSize ip op :=
        ⟨hplaced.size, by omega, hplaced.writes, hplaced.ratio, by omega⟩
      by_cases hends : data.length ≤ start + ip
      · have hnone : data[start + ip]? = none := List.getElem?_eq_none hends
        rw [rleDecodeFromLoop_none (by omega) (by omega) hnone, List.drop_eq_nil_of_le hends]
        exact ⟨fun hserved ↦ absurd hserved (not_served_nil (by omega)), fun _ ↦ rfl⟩
      · have hread := List.getElem?_eq_getElem (l := data) (i := start + ip) (by omega)
        have hslice : (data.drop start)[ip]? = some data[start + ip] := by
          rw [← hread, List.getElem?_drop]
        have hcons := List.drop_eq_getElem_cons (l := data) (i := start + ip) (by omega)
        generalize data[start + ip] = byte at hread hslice hcons
        rw [hcons]
        by_cases hskip : byte.toNat = 128
        · rw [rleDecodeFromLoop_skip (by omega) (by omega) hread hskip,
            reiDecompressLoop_skip hslice (by omega) hskip, served_skip_iff (by omega) hskip,
            Nat.add_assoc]
          refine ih ⟨hplaced.size, by omega, hplaced.writes, by omega, ?_, hmemory⟩ (by omega)
          have hratio := hplaced.ratio
          omega
        · have hheld : pixelSize * heldUnits byte ≤ 255 * 128 := by
            refine Nat.mul_le_mul hplaced.size.2 ?_
            unfold heldUnits
            split_ifs <;> omega
          rw [rleDecodeFromLoop_packet hplaced (by omega) (by omega) hread hskip,
            reiDecompressLoop_turn hinside (by omega) hslice hskip, hinput]
          by_cases hroom : op + pixelSize * writtenUnits byte ≤ out.length
          · rw [if_pos ⟨by omega, hroom⟩, served_packet_iff hskip (by omega) (by omega),
              List.length_drop, List.drop_drop]
            by_cases hmore : start + ip + 1 + pixelSize * heldUnits byte ≤ data.length
            · have hbehind : start + ip + 1 + pixelSize * heldUnits byte =
                  start + (ip + 1 + pixelSize * heldUnits byte) := by omega
              have hnext := hplaced.next hskip (by omega) hroom hmore
              have hlater := ih hnext (by omega)
              rw [length_splice (by rw [length_packetUnits hmore]; omega)] at hlater
              have hunits : packetUnits (data.drop start) (ip + 1) pixelSize byte =
                  packetUnits data (start + ip + 1) pixelSize byte := by
                have hwhole : slice data start (data.length - start) = data.drop start :=
                  List.take_of_length_le hinput.le
                rw [← hwhole, packetUnits_slice (by omega), Nat.add_assoc]
              rw [if_pos hmore, if_pos ⟨by omega, hroom⟩, hunits, hbehind, Nat.sub_sub]
              exact ⟨fun hboth ↦ hlater.1 hboth.2, fun hnot ↦ hlater.2 fun hserved ↦
                hnot ⟨by omega, hserved⟩⟩
            · rw [if_neg hmore]
              exact ⟨fun hboth ↦ absurd hboth.1 (by omega), fun _ ↦ rfl⟩
          · rw [if_neg fun hboth ↦ hroom hboth.2, if_neg fun hboth ↦ hroom hboth.2]
            exact ⟨fun _ ↦ rfl, fun hnot ↦ absurd (.refused hskip (by omega)) hnot⟩

end Turns

/-! ### Sounds -/

section Sounds

variable {data : List UInt8} {header : ReisHeader}

/-- The sizes of a valid sound. -/
theorem sizes_of_valid (hvalid : reisValidateHeader header = 0) :
    reisPcmSize header = header.frameCount * header.frameSize ∧ 0 < reisPcmSize header ∧
      reisFrameBytes header = header.frameSize ∧ 0 < header.frameSize ∧ header.frameSize ≤ 255 ∧
        0 < header.dataSize ∧ (header.flags % 16 = 0 ∨ header.flags % 16 = 1) := by
  unfold reisValidateHeader at hvalid
  split_ifs at hvalid with _ _ hchannels hbits _ hframes _ hdata hflags
  have hchannel : header.channels.toNat = 1 ∨ header.channels.toNat = 2 := by
    by_cases hmono : header.channels = 1
    · exact .inl (by rw [hmono]; rfl)
    · exact .inr (by rw [show header.channels = 2 by tauto]; rfl)
  have hbit : header.bits.toNat / 8 = 1 ∨ header.bits.toNat / 8 = 2 := by
    by_cases hbyte : header.bits = 8
    · exact .inl (by rw [hbyte]; rfl)
    · exact .inr (by rw [show header.bits = 16 by tauto]; rfl)
  have hframe : 0 < header.frameSize ∧ header.frameSize ≤ 4 := by
    unfold ReisHeader.frameSize
    rcases hchannel with hchannel | hchannel <;> rcases hbit with hbit | hbit <;>
      rw [hchannel, hbit] <;> decide
  have hfirst : header.frameCount * header.channels.toNat ≤ 86400000 * 2 :=
    Nat.mul_le_mul (by omega) (by omega)
  have hall : header.frameCount * header.frameSize ≤ 86400000 * 4 :=
    Nat.mul_le_mul (by omega) hframe.2
  have hpcm : reisPcmSize header = header.frameCount * header.frameSize := by
    unfold reisPcmSize
    rw [u32_of_lt (header.frameCount * header.channels.toNat) (by omega), Nat.mul_assoc]
    exact u32_of_lt (header.frameCount * header.frameSize) (by omega)
  refine ⟨hpcm, ?_, u32_of_lt _ ?_, hframe.1, by omega, by omega, by omega⟩
  · rw [hpcm]
    exact Nat.mul_pos (by omega) hframe.1
  · have hsmall := hframe.2
    unfold ReisHeader.frameSize at hsmall
    omega

/-- What is read of the samples is in the file, though the sum of their offset and size wraps. -/
def ReisHeader.ReadsInside (header : ReisHeader) (data : List UInt8) : Prop :=
  header.flags % 16 = 0 ∧
      (header.dataSize < reisPcmSize header ∨
        header.dataOffset + reisPcmSize header ≤ data.length) ∨
    header.flags % 16 = 1 ∧
      Served (reisFrameBytes header) (data.drop header.dataOffset) (reisPcmSize header)

/-- Samples as they are. -/
theorem fills_plain (hplain : header.flags % 16 = 0)
    (hinside : header.dataSize < reisPcmSize header ∨
      header.dataOffset + reisPcmSize header ≤ data.length) :
    Fills (reisPcmSize header) (reisFill data header (reisPcmSize header)) := by
  unfold reisFill
  simp only [if_pos hplain]
  by_cases hfew : header.dataSize < reisPcmSize header
  · exact .inr fun buffer _ ↦ if_pos hfew
  · have hroom := hinside.resolve_left hfew
    have hlength := length_slice hroom
    refine .inl ⟨_, hlength, fun buffer hbuffer ↦ ?_⟩
    dsimp only
    rw [if_neg hfew, readBytes_eq hroom, Option.bind_some,
      writeBytes_whole (hbuffer.trans hlength.symm), Option.map_some]

/-- Packed samples, decoded from the bytes that are there. -/
theorem fills_packed {input : List UInt8} {size rounds : ℕ} (hpacked : header.flags % 16 = 1)
    (hframe : 0 < reisFrameBytes header ∧ reisFrameBytes header ≤ 255)
    (hmemory : input.length + size < 4294967296) (hrounds : input.length < rounds)
    (hdecodes : ∀ buffer : List UInt8, buffer.length = size →
      rleDecodeFrom data header.dataOffset header.dataSize buffer (reisFrameBytes header) =
        reiDecompressLoop input (reisFrameBytes header) rounds 0 0 buffer) :
    Fills size (reisFill data header size) := by
  unfold reisFill
  simp only [hpacked, if_neg Nat.one_ne_zero, if_true]
  rcases reiDecompressLoop_fills hframe hmemory hrounds with ⟨samples, hsamples, hfills⟩ | hrejects
  · refine .inl ⟨samples, hsamples, fun buffer hbuffer ↦ ?_⟩
    obtain ⟨decoded, hdecoded, hcode, hout⟩ := hfills buffer hbuffer
    dsimp only
    rw [hdecodes buffer hbuffer, hdecoded, Option.map_some, hcode, hout]
    rfl
  · refine .inr fun buffer hbuffer ↦ ?_
    obtain ⟨decoded, hdecoded, hcode⟩ := hrejects buffer hbuffer
    dsimp only
    rw [hdecodes buffer hbuffer, hdecoded, Option.map_some, hcode]
    rfl

section

variable (hvalid : reisValidateHeader header = 0)

include hvalid

theorem placed_start {buffer : List UInt8}
    (hoffset : header.dataOffset ≤ data.length)
    (hroom : data.length + reisPcmSize header ≤ 4293918720)
    (hbuffer : buffer.length = reisPcmSize header) :
    Placed data buffer header.dataOffset header.dataSize header.frameSize 0 0 := by
  obtain ⟨-, -, -, hpositive, hsmall, -⟩ := sizes_of_valid hvalid
  exact ⟨⟨hpositive, hsmall⟩, hoffset, Nat.zero_le _, Nat.zero_le _, Nat.zero_le _, by omega⟩

/-- The samples of a valid sound that is in the file are copied or decoded. -/
theorem fills_reisFill (hroom : data.length + reisPcmSize header ≤ 4293918720)
    (hinside : header.dataOffset + header.dataSize ≤ data.length) :
    Fills (reisPcmSize header) (reisFill data header (reisPcmSize header)) := by
  obtain ⟨-, -, hbytes, hpositive, hsmall, -, hflags⟩ := sizes_of_valid hvalid
  rcases hflags with hplain | hpacked
  · exact fills_plain hplain (by omega)
  · have hinput : (slice data header.dataOffset header.dataSize).length = header.dataSize :=
      length_slice hinside
    refine fills_packed hpacked (by rw [hbytes]; exact ⟨hpositive, hsmall⟩)
      (by rw [hinput]; omega) (by rw [hinput]; exact Nat.lt_succ_self _) fun buffer hbuffer ↦ ?_
    unfold rleDecodeFrom
    rw [hbytes, if_neg (by omega), rleDecodeFromLoop_eq hinside
      (placed_start hvalid (by omega) hroom hbuffer)]

/-- Likewise where their end wraps and what is read is in the file. -/
theorem fills_of_readsInside (hroom : data.length + reisPcmSize header ≤ 4293918720)
    (hwraps : 4294967296 ≤ header.dataOffset + header.dataSize)
    (hinside : header.ReadsInside data) :
    Fills (reisPcmSize header) (reisFill data header (reisPcmSize header)) := by
  obtain ⟨-, hpcm, hbytes, hpositive, hsmall, -⟩ := sizes_of_valid hvalid
  rcases hinside with ⟨hplain, hplaced⟩ | ⟨hpacked, hserved⟩
  · exact fills_plain hplain hplaced
  · have hoffset : header.dataOffset < data.length := by
      by_contra hbehind
      rw [List.drop_eq_nil_of_le (not_lt.mp hbehind)] at hserved
      exact not_served_nil hpcm hserved
    have hinput : (data.drop header.dataOffset).length = data.length - header.dataOffset :=
      List.length_drop
    refine fills_packed hpacked (by rw [hbytes]; exact ⟨hpositive, hsmall⟩)
      (by rw [hinput]; omega)
      (by rw [hinput]; exact (show _ < header.dataSize + 1 by omega)) fun buffer hbuffer ↦ ?_
    unfold rleDecodeFrom
    rw [hbytes] at hserved ⊢
    rw [if_neg (by omega)]
    refine (rleDecodeFromLoop_of_long (by omega) (placed_start hvalid (by omega) hroom hbuffer)
      (by omega)).1 ?_
    rwa [Nat.add_zero, Nat.sub_zero, hbuffer]

/-- Otherwise something else is read. -/
theorem reisFill_eq_none (hroom : data.length + reisPcmSize header ≤ 4293918720)
    (hwraps : 4294967296 ≤ header.dataOffset + header.dataSize)
    (houtside : ¬ header.ReadsInside data) {buffer : List UInt8}
    (hbuffer : buffer.length = reisPcmSize header) :
    reisFill data header (reisPcmSize header) buffer = none := by
  obtain ⟨-, hpcm, hbytes, hpositive, hsmall, hsize, hflags⟩ := sizes_of_valid hvalid
  unfold ReisHeader.ReadsInside at houtside
  rw [not_or] at houtside
  unfold reisFill
  rcases hflags with hplain | hpacked
  · have hnot := (not_and.mp houtside.1) hplain
    rw [not_or] at hnot
    simp only [if_pos hplain, if_neg hnot.1, readBytes, if_neg hnot.2, Option.bind_none]
  · have hnot := (not_and.mp houtside.2) hpacked
    simp only [hpacked, if_neg Nat.one_ne_zero, if_true]
    unfold rleDecodeFrom
    rw [hbytes] at hnot ⊢
    rw [if_neg (by omega)]
    by_cases hoffset : header.dataOffset ≤ data.length
    · rw [(rleDecodeFromLoop_of_long (by omega) (placed_start hvalid hoffset hroom hbuffer)
        (by omega)).2 (by rwa [Nat.add_zero, Nat.sub_zero, hbuffer]), Option.map_none]
    · rw [rleDecodeFromLoop_none hsize (by omega) (List.getElem?_eq_none (by omega)),
        Option.map_none]

end

end Sounds

/-! ### All parsers -/

section Parsers

/-- Where the sum of the offset and the size of the samples does not mislead the parser of sounds:
its header is not valid, the sum does not wrap or is beyond the file nevertheless, there is no
memory for the samples, or what is read is in the file. -/
def MediaFile.Bounded (file : MediaFile) (memory : Memory file) : Prop :=
  let header := ReisHeader.ofBytes (slice file.bytes 0 32)
  file.bytes.length < 32 ∨ reisValidateHeader header ≠ 0 ∨
    header.dataOffset + header.dataSize < 4294967296 ∨
      file.bytes.length < u32 (header.dataOffset + header.dataSize) ∨
        memory.grants (reisPcmSize header) = false ∨ header.ReadsInside file.bytes

/-- What the parser of sounds does behind the header. -/
theorem reisParseAudio_eq {file : MediaFile} (memory : Memory file) (audio : ReisAudio) {code : ℤ}
    {header : ReisHeader} (hheader : reisReadHeader file.bytes = some (code, header)) :
    reisParseAudio memory audio = fun garbage ↦
      if code ≠ 0 then some ⟨-1, audio, none⟩
      else if file.bytes.length < u32 (header.dataOffset + header.dataSize) then
        some ⟨-1, audio, none⟩
      else if reisPcmSize header = 0 then some ⟨-1, audio, none⟩
      else
        fillBuffer memory garbage (reisPcmSize header) { audio with samples := none }
          ⟨header, none, reisPcmSize header⟩
          (fun samples ↦ ⟨header, some samples, reisPcmSize header⟩)
          (reisFill file.bytes header (reisPcmSize header)) := by
  funext garbage
  unfold reisParseAudio
  rw [hheader, Option.bind_some]

/-- The buffer of a valid sound is filled safely exactly where what is read is in the file. -/
theorem safe_fillBuffer_iff {file : MediaFile} (memory : Memory file) (audio : ReisAudio)
    {header : ReisHeader} (hvalid : reisValidateHeader header = 0)
    (hsum : u32 (header.dataOffset + header.dataSize) ≤ file.bytes.length) :
    (Safe ReisAudio.size ReisAudio.samples fun garbage ↦
      fillBuffer memory garbage (reisPcmSize header) { audio with samples := none }
        ⟨header, none, reisPcmSize header⟩
        (fun samples ↦ ⟨header, some samples, reisPcmSize header⟩)
        (reisFill file.bytes header (reisPcmSize header))) ↔
      header.dataOffset + header.dataSize < 4294967296 ∨
        memory.grants (reisPcmSize header) = false ∨ header.ReadsInside file.bytes := by
  have hsize : ∀ samples, ReisAudio.size ⟨header, samples, reisPcmSize header⟩ =
      reisPcmSize header := fun _ ↦ (sizes_of_valid hvalid).1.symm
  refine ⟨fun hsafe ↦ ?_, ?_⟩
  · by_contra hnot
    rw [not_or, not_or, Bool.not_eq_false] at hnot
    obtain ⟨hwraps, hgrants, houtside⟩ := hnot
    obtain ⟨parsed, hresult, -⟩ := hsafe fun _ ↦ 0
    have hlength : ((List.range (reisPcmSize header)).map fun _ ↦ (0 : UInt8)).length =
        reisPcmSize header := by rw [List.length_map, List.length_range]
    unfold fillBuffer Memory.malloc at hresult
    dsimp only at hresult
    rw [if_pos hgrants] at hresult
    dsimp only at hresult
    rw [reisFill_eq_none hvalid (memory.apart _ hgrants) (by omega) houtside hlength] at hresult
    cases hresult
  · rintro (hfits | hnone | hinside)
    · rw [u32_of_lt _ hfits] at hsum
      exact safe_fillBuffer memory (fun hroom ↦ fills_reisFill hvalid hroom hsum) (fun _ ↦ rfl)
        fun _ ↦ hsize _
    · refine safe_of_rejected fun garbage ↦ ⟨{ audio with samples := none }, ?_⟩
      have hgrants : memory.malloc garbage (reisPcmSize header) = none :=
        if_neg (by rw [hnone]; decide)
      unfold fillBuffer
      rw [hgrants]
    · by_cases hfits : header.dataOffset + header.dataSize < 4294967296
      · rw [u32_of_lt _ hfits] at hsum
        exact safe_fillBuffer memory (fun hroom ↦ fills_reisFill hvalid hroom hsum) (fun _ ↦ rfl)
          fun _ ↦ hsize _
      · exact safe_fillBuffer memory
          (fun hroom ↦ fills_of_readsInside hvalid hroom (by omega) hinside) (fun _ ↦ rfl)
          fun _ ↦ hsize _

/-- The parser of sounds is safe exactly there. -/
theorem reisParseAudio_safe_iff {file : MediaFile} (memory : Memory file) (audio : ReisAudio) :
    Safe ReisAudio.size ReisAudio.samples (reisParseAudio memory audio) ↔ file.Bounded memory := by
  unfold MediaFile.Bounded
  dsimp only
  by_cases hshort : file.bytes.length < 32
  · rw [reisParseAudio_eq memory audio (if_pos hshort)]
    exact ⟨fun _ ↦ .inl hshort, fun _ ↦ safe_of_rejected fun garbage ↦ ⟨audio, if_pos (by decide)⟩⟩
  · have hheader : reisReadHeader file.bytes =
        some (reisValidateHeader (.ofBytes (slice file.bytes 0 32)),
          .ofBytes (slice file.bytes 0 32)) := by
      unfold reisReadHeader
      rw [if_neg hshort, readBytes_eq (by omega), Option.map_some]
    rw [reisParseAudio_eq memory audio hheader]
    generalize ReisHeader.ofBytes (slice file.bytes 0 32) = header
    by_cases hvalid : reisValidateHeader header = 0
    · obtain ⟨-, hpcm, -⟩ := sizes_of_valid hvalid
      by_cases hbeyond : file.bytes.length < u32 (header.dataOffset + header.dataSize)
      · refine ⟨fun _ ↦ .inr (.inr (.inr (.inl hbeyond))), fun _ ↦ safe_of_rejected fun garbage ↦
          ⟨audio, ?_⟩⟩
        rw [if_neg (not_not.mpr hvalid), if_pos hbeyond]
      · have hbuffer := safe_fillBuffer_iff memory audio hvalid (not_lt.mp hbeyond)
        simp only [if_neg (not_not.mpr hvalid), if_neg hbeyond,
          if_neg (Nat.pos_iff_ne_zero.mp hpcm)]
        rw [hbuffer]
        tauto
    · refine ⟨fun _ ↦ .inr (.inl hvalid), fun _ ↦ safe_of_rejected fun garbage ↦ ⟨audio, ?_⟩⟩
      rw [if_pos hvalid]

/-- **Media files.** For every file and whatever memory there is, all three parsers are safe exactly
where the sum of the offset and the size of the samples of a sound does not mislead. -/
theorem mediaParsers_iff (file : MediaFile) (memory : Memory file) (allowed : Bool)
    (image out : ReiImage) (audio : ReisAudio) :
    (Safe ReiImage.size ReiImage.data (reiParseImage memory allowed image) ∧
      Safe ReiImage.size ReiImage.data (syscallParseBmpImage memory out) ∧
        Safe ReisAudio.size ReisAudio.samples (reisParseAudio memory audio)) ↔
      file.Bounded memory :=
  ⟨fun hsafe ↦ (reisParseAudio_safe_iff memory audio).mp hsafe.2.2, fun hbounded ↦
    ⟨reiParseImage_safe memory allowed image, syscallParseBmpImage_safe memory out,
      (reisParseAudio_safe_iff memory audio).mpr hbounded⟩⟩

/-- A sound of one frame whose samples are said to start 16 bytes before the end of the memory, and
to be 32 bytes long. -/
def wrappedSound : MediaFile :=
  ⟨[0x53, 0x49, 0x45, 0x52, 1, 0, 1, 8, 0x40, 0x1F, 0, 0, 1, 0, 0, 0, 0xF0, 0xFF, 0xFF, 0xFF,
    32, 0, 0, 0, 0, 0, 0, 0, 0, 0, 0, 0], by decide⟩

def smallMemory : Memory wrappedSound :=
  ⟨fun size ↦ decide (size ≤ 1024), fun size hsize ↦ by
    have hsmall := of_decide_eq_true hsize
    have hlength : wrappedSound.bytes.length = 32 := rfl
    omega⟩

/-- The sample is read in front of the file. -/
theorem reisParseAudio_reads_outside :
    ¬ ∀ (file : MediaFile) (memory : Memory file) (audio : ReisAudio),
      Safe ReisAudio.size ReisAudio.samples (reisParseAudio memory audio) := by
  intro hall
  obtain ⟨parsed, hparsed, -⟩ :=
    hall wrappedSound smallMemory ⟨.ofBytes [], none, 0⟩ fun _ ↦ 0
  have hnone : (reisParseAudio smallMemory ⟨.ofBytes [], none, 0⟩ fun _ ↦ 0).isNone = true := by
    decide +kernel
  rw [hparsed] at hnone
  cases hnone

end Parsers

end EynOS.Media
