import EynOS.Foundation.MachineWord
import EynOS.Media.PackBits

/-!
# Parsing images

`rei_parse_image` of `rei.c` and `syscall_parse_bmp_image` of `isr.c`. `reiParseImage_safe` and
`syscallParseBmpImage_safe`: for every file they read inside of it, an accepted image owns a buffer
of the size that its header says, whose bytes are all written, and a rejected one leaves none.

A read outside of the file and a write outside of the buffer are no result. That all bytes of a
buffer are written is said through what is in it before: the result is the same for any. The kernel
lies at the first megabyte, so that neither a file nor a buffer begins below it.
-/

namespace EynOS.Media

open Foundation

/-! ### Files and buffers -/

/-- A file that has been read into memory. -/
structure MediaFile where
  bytes : List UInt8
  fits : bytes.length ≤ 4293918720

/-- What `malloc` answers: the buffers it gives are apart from the file. -/
structure Memory (file : MediaFile) where
  grants : ℕ → Bool
  apart : ∀ size, grants size = true → file.bytes.length + size ≤ 4293918720

/-- `malloc`: what is in the buffer is left over. -/
def Memory.malloc {file : MediaFile} (memory : Memory file) (garbage : ℕ → UInt8) (size : ℕ) :
    Option (List UInt8) :=
  if memory.grants size then some ((List.range size).map garbage) else none

/-- What a parser returns: its result, what it has filled in, and the buffer that it has allocated
and not freed. -/
structure Parsed (Media : Type) where
  code : ℤ
  media : Media
  owned : Option (List UInt8)

/-- The end of a parser: it allocates a buffer and fills it, and frees it where that fails. -/
def fillBuffer {Media : Type} {file : MediaFile} (memory : Memory file) (garbage : ℕ → UInt8)
    (size : ℕ) (noMemory rejected : Media) (accepted : List UInt8 → Media)
    (fill : List UInt8 → Option (Option (List UInt8))) : Option (Parsed Media) :=
  match memory.malloc garbage size with
  | none => some ⟨-1, noMemory, none⟩
  | some buffer =>
    (fill buffer).map fun
      | none => ⟨-1, rejected, none⟩
      | some data => ⟨0, accepted data, some data⟩

/-- A value of two bytes, the low one first. -/
def leShort (bytes : List UInt8) (start : ℕ) : ℕ :=
  word (bytes.getD (start + 1) 0) (bytes.getD start 0)

/-- A value of four bytes, the lowest one first. -/
def leLong (bytes : List UInt8) (start : ℕ) : ℕ :=
  doubleWord (bytes.getD (start + 3) 0) (bytes.getD (start + 2) 0) (bytes.getD (start + 1) 0)
    (bytes.getD start 0)

/-- A parser is safe, for the size that a header says and the buffer of what is parsed. -/
def Safe {Media : Type} (size : Media → ℕ) (buffer : Media → Option (List UInt8))
    (parse : (ℕ → UInt8) → Option (Parsed Media)) : Prop :=
  ∀ garbage, ∃ parsed, parse garbage = some parsed ∧
    (parsed.code = 0 ∧
        (∃ data, parsed.owned = some data ∧ buffer parsed.media = some data ∧
          data.length = size parsed.media) ∧
        (∀ other, parse other = some parsed) ∨
      parsed.code = -1 ∧ parsed.owned = none)

/-! ### REI images -/

/-- `rei_header_t`. -/
structure ReiHeader where
  magic : ℕ
  width : ℕ
  height : ℕ
  depth : UInt8
  reserved1 : UInt8
  reserved2 : ℕ
  deriving DecidableEq

/-- `rei_image_t`. -/
structure ReiImage where
  header : ReiHeader
  data : Option (List UInt8)
  dataSize : ℕ
  deriving DecidableEq

def ReiHeader.ofBytes (bytes : List UInt8) : ReiHeader where
  magic := leLong bytes 0
  width := leShort bytes 4
  height := leShort bytes 6
  depth := bytes.getD 8 0
  reserved1 := bytes.getD 9 0
  reserved2 := leShort bytes 10

def ReiImage.size (image : ReiImage) : ℕ :=
  image.header.width * image.header.height * image.header.depth.toNat

/-- `rei_read_header`: its result, and the header. -/
def reiReadHeader (data : List UInt8) (header : ReiHeader) : Option (ℤ × ReiHeader) :=
  if data.length < 12 then some (-1, header)
  else (readBytes data 0 12).map fun bytes ↦ (0, .ofBytes bytes)

def reiValidateHeader (header : ReiHeader) : ℤ :=
  if header.magic ≠ 0x52454900 then -1
  else if header.width = 0 ∨ 640 < header.width ∨ header.height = 0 ∨ 480 < header.height then -1
  else if header.depth ≠ 1 ∧ header.depth ≠ 3 ∧ header.depth ≠ 4 then -1
  else 0

def reiCalculateDataSize (header : ReiHeader) : ℤ :=
  i32 (header.width * header.height * header.depth.toNat : ℕ)

/-- What `rei_parse_image` does with its buffer. -/
def reiFill (data : List UInt8) (header : ReiHeader) (expectedSize : ℕ) (buffer : List UInt8) :
    Option (Option (List UInt8)) :=
  let comp := header.reserved1 &&& 0x0F
  let inSize := if 12 < data.length then data.length - 12 else 0
  if comp = 0 then
    if inSize < expectedSize then some none
    else (readBytes data 12 expectedSize).bind fun pixels ↦ (writeBytes buffer 0 pixels).map some
  else if comp = 1 then
    (reiDecompressRle (slice data 12 inSize) buffer header.depth).map fun decoded ↦
      if decoded.code ≠ 0 then none else some decoded.out
  else some none

/-- `rei_parse_image`; `allowed` is what `rei_ctx_allow` answers. -/
def reiParseImage {file : MediaFile} (memory : Memory file) (allowed : Bool) (image : ReiImage)
    (garbage : ℕ → UInt8) : Option (Parsed ReiImage) :=
  if file.bytes.length < 12 then some ⟨-1, image, none⟩
  else if !allowed then some ⟨-1, image, none⟩
  else
    (reiReadHeader file.bytes image.header).bind fun (code, header) ↦
      let image := { image with header }
      let expectedSize := reiCalculateDataSize header
      if code ≠ 0 then some ⟨-1, image, none⟩
      else if reiValidateHeader header ≠ 0 then some ⟨-1, image, none⟩
      else if expectedSize < 0 then some ⟨-1, image, none⟩
      else
        fillBuffer memory garbage expectedSize.toNat { image with data := none }
          { image with data := none }
          (fun data ↦ { image with data := some data, dataSize := expectedSize.toNat })
          (reiFill file.bytes header expectedSize.toNat)

/-! ### BMP images -/

/-- `syscall_rgb565`, and the bytes that it is taken apart to. -/
def syscallRgb565 (r g b : UInt8) : UInt16 :=
  ((r &&& 0xF8).toUInt16 <<< 8) ||| ((g &&& 0xFC).toUInt16 <<< 3) |||
    ((b &&& 0xF8).toUInt16 >>> 3)

def bmpPixel (r g b : UInt8) : List UInt8 :=
  let c := syscallRgb565 r g b
  [((c >>> 11) <<< 3).toUInt8, (((c >>> 5) &&& 0x3F) <<< 2).toUInt8, ((c &&& 0x1F) <<< 3).toUInt8]

def bmpColumns (buf : List UInt8) (srcOff bytesPerPixel dstRow : ℕ) :
    ℕ → ℕ → List UInt8 → Option (List UInt8)
  | 0, _, out => some out
  | rounds + 1, col, out =>
    let off := col * bytesPerPixel
    (buf[srcOff + off]?).bind fun b ↦
      (buf[srcOff + off + 1]?).bind fun g ↦
        (buf[srcOff + off + 2]?).bind fun r ↦
          (writeBytes out (dstRow + col * 3) (bmpPixel r g b)).bind fun out ↦
            bmpColumns buf srcOff bytesPerPixel dstRow rounds (col + 1) out

/-- What the loop over the rows is about. -/
structure BmpShape where
  bfOffBits : ℕ
  width : ℕ
  height : ℕ
  topDown : Bool
  bytesPerPixel : ℕ
  rowStride : ℕ

def BmpShape.destRow (shape : BmpShape) (row : ℕ) : ℕ :=
  if shape.topDown then row else shape.height - 1 - row

/-- The loop over the rows: it is left where a row is not in the file. -/
def bmpRows (buf : List UInt8) (shape : BmpShape) :
    ℕ → ℕ → List UInt8 → Option (Option (List UInt8))
  | 0, _, out => some (some out)
  | rounds + 1, row, out =>
    let srcOff := u32 (shape.bfOffBits + u32 (row * shape.rowStride))
    if buf.length < u32 (srcOff + shape.rowStride) then some none
    else
      (bmpColumns buf srcOff shape.bytesPerPixel (u32 (u32 (shape.destRow row * shape.width) * 3))
        shape.width 0 out).bind fun out ↦ bmpRows buf shape rounds (row + 1) out

def bmpBytesPerPixel (biBitCount biCompression : ℕ) : Option ℕ :=
  if biBitCount = 24 ∧ biCompression = 0 then some 3
  else if biBitCount = 32 ∧ (biCompression = 0 ∨ biCompression = 3) then some 4
  else none

/-- The fields of the headers that `syscall_parse_bmp_image` reads. -/
structure BmpFields where
  bfOffBits : ℕ
  hdrSize : ℕ
  biWidth : ℤ
  biHeight : ℤ
  biBitCount : ℕ
  biCompression : ℕ

/-- Those fields in a file. -/
def bmpFields (buf : List UInt8) : Option BmpFields :=
  (readBytes buf 10 4).bind fun offBits ↦
    (readBytes buf 14 4).bind fun hdrSize ↦
      (readBytes buf 18 4).bind fun width ↦
        (readBytes buf 22 4).bind fun height ↦
          (readBytes buf 28 2).bind fun bitCount ↦
            (readBytes buf 30 4).map fun compression ↦
              { bfOffBits := leLong offBits 0
                hdrSize := leLong hdrSize 0
                biWidth := i32 (leLong width 0)
                biHeight := i32 (leLong height 0)
                biBitCount := leShort bitCount 0
                biCompression := leLong compression 0 }

/-- The checks of the fields, and what the loop is about. -/
def bmpShape (size : ℕ) (fields : BmpFields) : Option BmpShape :=
  let height := if fields.biHeight < 0 then i32 (-fields.biHeight) else fields.biHeight
  if fields.hdrSize < 40 ∨ size < u32 (14 + fields.hdrSize) then none
  else if fields.biWidth ≤ 0 ∨ 4096 < fields.biWidth then none
  else if height ≤ 0 ∨ 4096 < height then none
  else
    (bmpBytesPerPixel fields.biBitCount fields.biCompression).bind fun bytesPerPixel ↦
      let width := fields.biWidth.toNat
      let rowBytesRaw := u32 (width * bytesPerPixel)
      let rowStride := u32 (rowBytesRaw + 3) / 4 * 4
      if size ≤ fields.bfOffBits then none
      else
        some
          { bfOffBits := fields.bfOffBits
            width
            height := height.toNat
            topDown := decide (fields.biHeight < 0)
            bytesPerPixel
            rowStride }

def syscallParseBmpImage {file : MediaFile} (memory : Memory file) (out : ReiImage)
    (garbage : ℕ → UInt8) : Option (Parsed ReiImage) :=
  let buf := file.bytes
  if buf.length < 54 then some ⟨-1, out, none⟩
  else
    (readBytes buf 0 2).bind fun magic ↦
      if magic ≠ [0x42, 0x4D] then some ⟨-1, out, none⟩
      else
        (bmpFields buf).bind fun fields ↦
          match bmpShape buf.length fields with
          | none => some ⟨-1, out, none⟩
          | some shape =>
            let outSize := u32 (u32 (shape.width * shape.height) * 3)
            fillBuffer memory garbage outSize out out
              (fun outData ↦
                { header := ⟨0x52454900, shape.width % 65536, shape.height % 65536, 3, 0, 0⟩
                  data := some outData
                  dataSize := outSize })
              (bmpRows buf shape shape.height 0)

/-! ### Safety -/

section Safety

variable {Media : Type} {size : Media → ℕ} {buffer : Media → Option (List UInt8)}
  {parse : (ℕ → UInt8) → Option (Parsed Media)}

theorem safe_of_rejected (hrejected : ∀ garbage, ∃ media, parse garbage = some ⟨-1, media, none⟩) :
    Safe size buffer parse := fun garbage ↦
  (hrejected garbage).elim fun _ hparse ↦ ⟨_, hparse, .inr ⟨rfl, rfl⟩⟩

theorem safe_of_accepted {media : Media} {data : List UInt8}
    (haccepted : ∀ garbage, parse garbage = some ⟨0, media, some data⟩)
    (hbuffer : buffer media = some data) (hlength : data.length = size media) :
    Safe size buffer parse := fun garbage ↦
  ⟨_, haccepted garbage, .inl ⟨rfl, ⟨data, rfl, hbuffer, hlength⟩, haccepted⟩⟩

/-- `malloc` has no memory, or gives a buffer of the size whatever is in it. -/
theorem Memory.malloc_cases {file : MediaFile} (memory : Memory file) (size : ℕ) :
    (∀ garbage, memory.malloc garbage size = none) ∨
      file.bytes.length + size ≤ 4293918720 ∧
        ∀ garbage, ∃ buffer, memory.malloc garbage size = some buffer ∧ buffer.length = size := by
  unfold Memory.malloc
  by_cases hgrants : memory.grants size = true
  · refine .inr ⟨memory.apart size hgrants, fun garbage ↦ ?_⟩
    rw [if_pos hgrants]
    exact ⟨_, rfl, by rw [List.length_map, List.length_range]⟩
  · exact .inl fun garbage ↦ if_neg hgrants

/-- A buffer of a size is filled with the same bytes whatever is in it, or never. -/
def Fills (size : ℕ) (fill : List UInt8 → Option (Option (List UInt8))) : Prop :=
  (∃ data : List UInt8, data.length = size ∧
    ∀ buffer : List UInt8, buffer.length = size → fill buffer = some (some data)) ∨
  ∀ buffer : List UInt8, buffer.length = size → fill buffer = some none

/-- A parser whose buffer is filled is safe. -/
theorem safe_fillBuffer {file : MediaFile} (memory : Memory file) {bytes : ℕ}
    {noMemory rejected : Media} {accepted : List UInt8 → Media}
    {fill : List UInt8 → Option (Option (List UInt8))}
    (hfills : file.bytes.length + bytes ≤ 4293918720 → Fills bytes fill)
    (hbuffer : ∀ data, buffer (accepted data) = some data)
    (hsize : ∀ data, size (accepted data) = bytes) :
    Safe size buffer fun garbage ↦
      fillBuffer memory garbage bytes noMemory rejected accepted fill := by
  unfold fillBuffer
  rcases memory.malloc_cases bytes with hnone | ⟨hroom, hsome⟩
  · exact safe_of_rejected fun garbage ↦ ⟨noMemory, by rw [hnone garbage]⟩
  · rcases hfills hroom with ⟨data, hlength, hdata⟩ | hrejects
    · refine safe_of_accepted (fun garbage ↦ ?_) (hbuffer data) (hlength.trans (hsize data).symm)
      obtain ⟨fresh, hfresh, hfreshLength⟩ := hsome garbage
      rw [hfresh]
      dsimp only
      rw [hdata fresh hfreshLength]
      rfl
    · refine safe_of_rejected fun garbage ↦ ⟨rejected, ?_⟩
      obtain ⟨fresh, hfresh, hfreshLength⟩ := hsome garbage
      rw [hfresh]
      dsimp only
      rw [hrejects fresh hfreshLength]
      rfl

theorem readBytes_eq {bytes : List UInt8} {start count : ℕ}
    (hinside : start + count ≤ bytes.length) :
    readBytes bytes start count = some (slice bytes start count) := if_pos hinside

theorem writeBytes_eq {out data : List UInt8} {start : ℕ}
    (hroom : start + data.length ≤ out.length) :
    writeBytes out start data = some (splice out start data) := if_pos hroom

theorem writeBytes_whole {out data : List UInt8} (hlength : out.length = data.length) :
    writeBytes out 0 data = some data := by
  rw [writeBytes_eq (by omega), splice, List.take_zero, List.nil_append, Nat.zero_add, ← hlength,
    List.drop_length, List.append_nil]

end Safety

/-! ### REI images are safe -/

section Rei

/-- The size of a valid image. -/
theorem reiCalculateDataSize_eq {header : ReiHeader} (hvalid : reiValidateHeader header = 0) :
    reiCalculateDataSize header =
        (header.width * header.height * header.depth.toNat : ℕ) ∧ header.depth ≠ 0 := by
  unfold reiValidateHeader at hvalid
  split_ifs at hvalid with hmagic hsize hdepth
  have hsmall : header.depth.toNat ≤ 4 ∧ header.depth ≠ 0 := by
    by_cases hmono : header.depth = 1
    · rw [hmono]
      decide
    · by_cases hrgb : header.depth = 3
      · rw [hrgb]
        decide
      · have hrgba : header.depth = 4 := by tauto
        rw [hrgba]
        decide
  have hpixels : header.width * header.height ≤ 640 * 480 :=
    Nat.mul_le_mul (by omega) (by omega)
  have htotal : header.width * header.height * header.depth.toNat ≤ 640 * 480 * 4 :=
    Nat.mul_le_mul hpixels hsmall.1
  refine ⟨i32_of_isInt32 ⟨by omega, by omega⟩, hsmall.2⟩

/-- The pixels of an image are copied or decoded. -/
theorem fills_reiFill {data : List UInt8} {header : ReiHeader} {expectedSize : ℕ}
    (hheader : 12 ≤ data.length) (hdepth : header.depth ≠ 0)
    (hroom : data.length + expectedSize ≤ 4293918720) :
    Fills expectedSize (reiFill data header expectedSize) := by
  have hin : (if 12 < data.length then data.length - 12 else 0) = data.length - 12 := by
    split_ifs <;> omega
  unfold reiFill
  simp only [hin]
  by_cases hplain : header.reserved1 &&& 0x0F = 0
  · simp only [if_pos hplain]
    by_cases hfew : data.length - 12 < expectedSize
    · exact .inr fun buffer _ ↦ if_pos hfew
    · have hlength : (slice data 12 expectedSize).length = expectedSize := length_slice (by omega)
      refine .inl ⟨slice data 12 expectedSize, hlength, fun buffer hbuffer ↦ ?_⟩
      dsimp only
      rw [if_neg hfew, readBytes_eq (by omega), Option.bind_some,
        writeBytes_whole (hbuffer.trans hlength.symm), Option.map_some]
  · simp only [if_neg hplain]
    by_cases hpacked : header.reserved1 &&& 0x0F = 1
    · simp only [if_pos hpacked]
      have hslice : (slice data 12 (data.length - 12)).length = data.length - 12 :=
        length_slice (by omega)
      have hpositive : 0 < header.depth.toNat :=
        Nat.pos_of_ne_zero fun hzero ↦ hdepth (UInt8.toNat_inj.mp hzero)
      have hmemory : (slice data 12 (data.length - 12)).length + expectedSize < 4294967296 := by
        omega
      unfold reiDecompressRle
      simp only [if_neg hdepth]
      rcases reiDecompressLoop_fills ⟨hpositive, Nat.le_of_lt_succ header.depth.toNat_lt⟩ hmemory
        (Nat.lt_succ_self _) with ⟨pixels, hpixels, hfills⟩ | hrejects
      · refine .inl ⟨pixels, hpixels, fun buffer hbuffer ↦ ?_⟩
        obtain ⟨decoded, hdecoded, hcode, hout⟩ := hfills buffer hbuffer
        dsimp only
        rw [hdecoded, Option.map_some, hcode, hout]
        rfl
      · refine .inr fun buffer hbuffer ↦ ?_
        obtain ⟨decoded, hdecoded, hcode⟩ := hrejects buffer hbuffer
        dsimp only
        rw [hdecoded, Option.map_some, hcode]
        rfl
    · simp only [if_neg hpacked]
      exact .inr fun buffer _ ↦ rfl

/-- **REI images.** The parser is safe for every file. -/
theorem reiParseImage_safe {file : MediaFile} (memory : Memory file) (allowed : Bool)
    (image : ReiImage) : Safe ReiImage.size ReiImage.data (reiParseImage memory allowed image) := by
  unfold reiParseImage
  by_cases hshort : file.bytes.length < 12
  · exact safe_of_rejected fun garbage ↦ ⟨_, if_pos hshort⟩
  · have hheader : reiReadHeader file.bytes image.header =
        some (0, .ofBytes (slice file.bytes 0 12)) := by
      unfold reiReadHeader
      rw [if_neg hshort, readBytes_eq (by omega), Option.map_some]
    rw [hheader]
    simp only [if_neg hshort, Option.bind_some]
    generalize ReiHeader.ofBytes (slice file.bytes 0 12) = header
    rcases allowed with _ | _
    · exact safe_of_rejected fun garbage ↦ ⟨_, if_pos rfl⟩
    · by_cases hvalid : reiValidateHeader header = 0
      · obtain ⟨hsize, hdepth⟩ := reiCalculateDataSize_eq hvalid
        have hnot : ¬ ((header.width * header.height * header.depth.toNat : ℕ) : ℤ) < 0 := by omega
        simp only [hvalid, hsize, Bool.not_true, Bool.false_eq_true, if_false, ne_eq,
          not_true_eq_false, if_neg hnot, Int.toNat_natCast]
        exact safe_fillBuffer memory (fun hroom ↦ fills_reiFill (by omega) hdepth hroom)
          (fun data ↦ rfl) fun data ↦ rfl
      · simp only [if_pos hvalid]
        exact safe_of_rejected fun garbage ↦ ⟨_, rfl⟩

end Rei

/-! ### BMP images are safe -/

section Bmp

variable {buf : List UInt8} {shape : BmpShape}

/-- The columns of a row are written one after another, whatever is in the buffer. -/
theorem exists_bmpColumns_eq {srcOff bytesPerPixel rounds col : ℕ} (dstRow : ℕ)
    (hpixel : 3 ≤ bytesPerPixel)
    (hread : srcOff + (col + rounds) * bytesPerPixel ≤ buf.length) :
    ∃ pixels : List UInt8, pixels.length = rounds * 3 ∧ ∀ out : List UInt8,
      dstRow + (col + rounds) * 3 ≤ out.length →
        bmpColumns buf srcOff bytesPerPixel dstRow rounds col out =
          some (splice out (dstRow + col * 3) pixels) := by
  induction rounds generalizing col with
  | zero => exact ⟨[], rfl, fun out _ ↦ by rw [splice_by_nil]; rfl⟩
  | succ rounds ih =>
    have hcols : col + (rounds + 1) = col + 1 + rounds := by omega
    rw [hcols] at hread ⊢
    have hbytes : (col + 1 + rounds) * bytesPerPixel =
        col * bytesPerPixel + bytesPerPixel + rounds * bytesPerPixel := by
      rw [Nat.add_mul, Nat.add_mul, Nat.one_mul]
    obtain ⟨pixels, hlength, hpixels⟩ := ih hread
    have hb := List.getElem?_eq_getElem (l := buf) (i := srcOff + col * bytesPerPixel) (by omega)
    have hg :=
      List.getElem?_eq_getElem (l := buf) (i := srcOff + col * bytesPerPixel + 1) (by omega)
    have hr :=
      List.getElem?_eq_getElem (l := buf) (i := srcOff + col * bytesPerPixel + 2) (by omega)
    refine ⟨bmpPixel buf[srcOff + col * bytesPerPixel + 2] buf[srcOff + col * bytesPerPixel + 1]
      buf[srcOff + col * bytesPerPixel] ++ pixels, ?_, fun out hroom ↦ ?_⟩
    · rw [List.length_append, hlength, Nat.succ_mul, Nat.add_comm]
      rfl
    · have hone {r g b : UInt8} : (bmpPixel r g b).length = 3 := rfl
      rw [bmpColumns, hb, hg, hr]
      simp only [Option.bind_some]
      rw [writeBytes_eq (by rw [hone]; omega), Option.bind_some,
        hpixels _ (by rw [length_splice (by rw [hone]; omega)]; exact hroom)]
      have hnext : dstRow + (col + 1) * 3 = dstRow + col * 3 + 3 := by omega
      rw [hnext]
      exact congrArg some (splice_splice (by rw [hone, hlength]; omega))

/-- The shapes of files that are accepted so far. -/
structure BmpShape.Sound (shape : BmpShape) (size : ℕ) : Prop where
  offset : shape.bfOffBits < size
  width : 0 < shape.width ∧ shape.width ≤ 4096
  height : 0 < shape.height ∧ shape.height ≤ 4096
  pixel : 3 ≤ shape.bytesPerPixel
  stride : shape.width * shape.bytesPerPixel ≤ shape.rowStride ∧ shape.rowStride ≤ 16384

/-- What passes the checks has a shape. -/
theorem sound_of_bmpShape {size : ℕ} {fields : BmpFields}
    (hshape : bmpShape size fields = some shape) : shape.Sound size := by
  unfold bmpShape at hshape
  dsimp only at hshape
  generalize (if fields.biHeight < 0 then i32 (-fields.biHeight) else fields.biHeight) = height
    at hshape
  split_ifs at hshape with hheader hwidth hheight hoffset
  · obtain ⟨bytesPerPixel, -, hnone⟩ := Option.bind_eq_some_iff.mp hshape
    cases hnone
  · obtain ⟨bytesPerPixel, hpixel, hrest⟩ := Option.bind_eq_some_iff.mp hshape
    obtain rfl := Option.some.inj hrest
    have hbytes : 3 ≤ bytesPerPixel ∧ bytesPerPixel ≤ 4 := by
      unfold bmpBytesPerPixel at hpixel
      split_ifs at hpixel
      · obtain rfl := Option.some.inj hpixel
        decide
      · obtain rfl := Option.some.inj hpixel
        decide
    have hrow : fields.biWidth.toNat * bytesPerPixel ≤ 4096 * 4 :=
      Nat.mul_le_mul (by omega) hbytes.2
    have hraw : u32 (fields.biWidth.toNat * bytesPerPixel) =
        fields.biWidth.toNat * bytesPerPixel := u32_of_lt _ (by omega)
    refine ⟨not_le.mp hoffset, ?_, ?_, hbytes.1, ?_⟩
    · dsimp only
      omega
    · dsimp only
      omega
    · dsimp only
      rw [hraw, u32_of_lt _ (by omega)]
      omega

/-- The bytes of the image that the first rows of the file are put to. -/
def BmpShape.Written (shape : BmpShape) (rows index : ℕ) : Prop :=
  ∃ row < rows, shape.destRow row * shape.width * 3 ≤ index ∧
    index < shape.destRow row * shape.width * 3 + shape.width * 3

/-- Two buffers that are the same where rows have been written. -/
def BmpShape.Same (shape : BmpShape) (rows : ℕ) (out other : List UInt8) : Prop :=
  out.length = shape.width * shape.height * 3 ∧ other.length = shape.width * shape.height * 3 ∧
    ∀ index, shape.Written rows index → out[index]? = other[index]?

/-- A row of the file is put inside of the image. -/
theorem BmpShape.destRow_lt {row : ℕ} (hrow : row < shape.height) :
    shape.destRow row * shape.width * 3 + shape.width * 3 ≤ shape.width * shape.height * 3 := by
  have hdest : shape.destRow row + 1 ≤ shape.height := by
    unfold BmpShape.destRow
    split_ifs <;> omega
  have hmul := Nat.mul_le_mul_right (shape.width * 3) hdest
  have hleft : (shape.destRow row + 1) * (shape.width * 3) =
      shape.destRow row * shape.width * 3 + shape.width * 3 := by
    rw [Nat.succ_mul, Nat.mul_assoc]
  have hright : shape.height * (shape.width * 3) = shape.width * shape.height * 3 := by
    rw [← Nat.mul_assoc, Nat.mul_comm shape.height]
  omega

/-- All bytes of the image are written in the end. -/
theorem BmpShape.written_height {index : ℕ} (hindex : index < shape.width * shape.height * 3) :
    shape.Written shape.height index := by
  have hwidth : 0 < shape.width := Nat.pos_of_ne_zero fun hzero ↦ by simp [hzero] at hindex
  have hless : index / (shape.width * 3) < shape.height := by
    refine Nat.div_lt_of_lt_mul ?_
    rwa [Nat.mul_right_comm]
  have hspan : index / (shape.width * 3) * shape.width * 3 ≤ index ∧
      index < index / (shape.width * 3) * shape.width * 3 + shape.width * 3 := by
    rw [Nat.mul_assoc]
    have hmod := Nat.mod_lt index (show 0 < shape.width * 3 by omega)
    have hdiv := Nat.div_add_mod' index (shape.width * 3)
    omega
  generalize index / (shape.width * 3) = row at hless hspan
  by_cases htop : shape.topDown = true
  · refine ⟨row, hless, ?_⟩
    unfold BmpShape.destRow
    rwa [if_pos htop]
  · have hback : shape.height - 1 - (shape.height - 1 - row) = row := by omega
    refine ⟨shape.height - 1 - row, by omega, ?_⟩
    unfold BmpShape.destRow
    rwa [if_neg htop, hback]

/-- The loop over the rows leaves off for every buffer, or for none. -/
theorem bmpRows_same (hsound : shape.Sound buf.length) (hfits : buf.length ≤ 4293918720)
    {rounds row : ℕ} (hrows : row + rounds = shape.height)
    (hoffset : shape.bfOffBits + row * shape.rowStride ≤ buf.length) {out other : List UInt8}
    (hsame : shape.Same row out other) :
    bmpRows buf shape rounds row out = some none ∧ bmpRows buf shape rounds row other = some none ∨
      ∃ first second, bmpRows buf shape rounds row out = some (some first) ∧
        bmpRows buf shape rounds row other = some (some second) ∧
          shape.Same shape.height first second := by
  induction rounds generalizing row out other with
  | zero =>
    obtain rfl : row = shape.height := hrows
    exact .inr ⟨out, other, rfl, rfl, hsame⟩
  | succ rounds ih =>
    obtain ⟨-, ⟨-, hwide⟩, ⟨-, hhigh⟩, hpixel, hraw, hstride⟩ := hsound
    have hsource : u32 (shape.bfOffBits + u32 (row * shape.rowStride)) =
        shape.bfOffBits + row * shape.rowStride := by
      rw [u32_of_lt (row * shape.rowStride) (by omega), u32_of_lt _ (by omega)]
    rw [bmpRows, bmpRows, hsource,
      u32_of_lt (shape.bfOffBits + row * shape.rowStride + shape.rowStride) (by omega)]
    by_cases hleaves : buf.length < shape.bfOffBits + row * shape.rowStride + shape.rowStride
    · exact .inl ⟨if_pos hleaves, if_pos hleaves⟩
    · obtain ⟨hout, hother, hbytes⟩ := hsame
      have hinside := @BmpShape.destRow_lt shape row (by omega)
      have htotal : shape.width * shape.height ≤ 4096 * 4096 := Nat.mul_le_mul hwide hhigh
      have hdest : u32 (u32 (shape.destRow row * shape.width) * 3) =
          shape.destRow row * shape.width * 3 := by
        rw [u32_of_lt (shape.destRow row * shape.width) (by omega), u32_of_lt _ (by omega)]
      obtain ⟨pixels, hlength, hpixels⟩ := @exists_bmpColumns_eq buf
        (shape.bfOffBits + row * shape.rowStride) shape.bytesPerPixel shape.width 0
        (shape.destRow row * shape.width * 3) hpixel (by rw [Nat.zero_add]; omega)
      rw [Nat.zero_mul, Nat.add_zero, Nat.zero_add] at hpixels
      rw [if_neg hleaves, if_neg hleaves, hdest, hpixels out (by omega), hpixels other (by omega),
        Option.bind_some, Option.bind_some]
      refine ih (by omega) (by rw [Nat.succ_mul]; omega) ⟨?_, ?_, fun index hwritten ↦ ?_⟩
      · rw [length_splice (by omega), hout]
      · rw [length_splice (by omega), hother]
      · rw [getElem?_splice (by omega), getElem?_splice (by omega)]
        refine if_ctx_congr Iff.rfl (fun _ ↦ rfl) fun hnot ↦ ?_
        obtain ⟨before, hbefore, hspan⟩ := hwritten
        refine hbytes index ⟨before, ?_, hspan⟩
        refine lt_of_le_of_ne (Nat.le_of_lt_succ hbefore) ?_
        rintro rfl
        exact hnot (by omega)

/-- The pixels of an image are converted. -/
theorem fills_bmpRows (hsound : shape.Sound buf.length) (hfits : buf.length ≤ 4293918720) :
    Fills (shape.width * shape.height * 3) (bmpRows buf shape shape.height 0) := by
  have hsame {out other : List UInt8} (hout : out.length = shape.width * shape.height * 3)
      (hother : other.length = shape.width * shape.height * 3) :=
    bmpRows_same hsound hfits (Nat.zero_add shape.height)
      (by rw [Nat.zero_mul]; exact hsound.offset.le)
      (⟨hout, hother, fun index hwritten ↦ by
        obtain ⟨row, hrow, -⟩ := hwritten
        exact absurd hrow (Nat.not_lt_zero _)⟩ : shape.Same 0 out other)
  have hfirst : (List.replicate (shape.width * shape.height * 3) (0 : UInt8)).length =
      shape.width * shape.height * 3 := List.length_replicate
  rcases hsame hfirst hfirst with ⟨hleaves, -⟩ | ⟨first, -, hrows, -, hlength, -⟩
  · refine .inr fun buffer hbuffer ↦ ?_
    rcases hsame hfirst hbuffer with ⟨-, hagain⟩ | ⟨first, second, hrows, -⟩
    · exact hagain
    · cases hleaves.symm.trans hrows
  · refine .inl ⟨first, hlength, fun buffer hbuffer ↦ ?_⟩
    rcases hsame hfirst hbuffer with ⟨hleaves, -⟩ | ⟨again, second, hagain, hsecond, hends⟩
    · cases hleaves.symm.trans hrows
    · obtain rfl := Option.some.inj (Option.some.inj (hrows.symm.trans hagain))
      obtain ⟨-, hother, hbytes⟩ := hends
      rw [hsecond]
      refine congrArg (fun data ↦ some (some data)) (List.ext_getElem? fun index ↦ ?_)
      by_cases hindex : index < shape.width * shape.height * 3
      · exact (hbytes index (BmpShape.written_height hindex)).symm
      · rw [List.getElem?_eq_none (by omega), List.getElem?_eq_none (by omega)]

/-- **BMP images.** The parser is safe for every file. -/
theorem syscallParseBmpImage_safe {file : MediaFile} (memory : Memory file) (out : ReiImage) :
    Safe ReiImage.size ReiImage.data (syscallParseBmpImage memory out) := by
  unfold syscallParseBmpImage
  dsimp only
  by_cases hshort : file.bytes.length < 54
  · exact safe_of_rejected fun garbage ↦ ⟨_, if_pos hshort⟩
  · simp only [if_neg hshort, readBytes_eq (show 0 + 2 ≤ file.bytes.length by omega),
      Option.bind_some]
    by_cases hmagic : slice file.bytes 0 2 ≠ [0x42, 0x4D]
    · exact safe_of_rejected fun garbage ↦ ⟨_, if_pos hmagic⟩
    · simp only [if_neg hmagic]
      have hfields : ∃ fields, bmpFields file.bytes = some fields := by
        unfold bmpFields
        rw [readBytes_eq (by omega), readBytes_eq (by omega), readBytes_eq (by omega),
          readBytes_eq (by omega), readBytes_eq (by omega), readBytes_eq (by omega)]
        exact ⟨_, rfl⟩
      obtain ⟨fields, hfields⟩ := hfields
      simp only [hfields, Option.bind_some]
      rcases hshape : bmpShape file.bytes.length fields with _ | shape
      · exact safe_of_rejected fun garbage ↦ ⟨_, rfl⟩
      · have hsound := sound_of_bmpShape hshape
        obtain ⟨-, ⟨-, hwide⟩, ⟨-, hhigh⟩, -, -⟩ := sound_of_bmpShape hshape
        have htotal : shape.width * shape.height ≤ 4096 * 4096 := Nat.mul_le_mul hwide hhigh
        dsimp only
        rw [u32_of_lt (shape.width * shape.height) (by omega), u32_of_lt _ (by omega)]
        refine safe_fillBuffer memory (fun _ ↦ fills_bmpRows hsound file.fits) (fun data ↦ rfl)
          fun data ↦ ?_
        unfold ReiImage.size
        dsimp only
        rw [Nat.mod_eq_of_lt (by omega), Nat.mod_eq_of_lt (by omega)]
        rfl

end Bmp

end EynOS.Media
