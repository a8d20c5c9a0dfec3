import Mathlib.Data.List.Basic

/-!
# Frames in a stream

A frame is a header of a fixed length and a body whose length the header says. A reader of frames
keeps what it has read of the current one: `status` says whether that is a whole frame, and `wanted`
is how much it asks for next, the rest of the header or of the current chunk of the body. A reader
that has read a part of a frame never asks for more than the rest of that frame (`wanted_le`), so it
stays inside it (`IsFrame.read`).
-/

namespace EynOS.Foundation

/-- How frames are laid out, and in which chunks their bodies are read. -/
structure Framing (Byte : Type*) where
  headerLength : ℕ
  bodyLength : List Byte → Option ℕ
  chunk : ℕ
  chunk_pos : 0 < chunk

/-- What a reader of a frame has. -/
inductive Progress where
  | more
  | bad
  | complete
deriving DecidableEq, Repr

namespace Framing

variable {Byte : Type*} (framing : Framing Byte)

/-- Whether what was read is a whole frame. -/
def status (got : List Byte) : Progress :=
  if got.length < framing.headerLength then .more
  else
    match framing.bodyLength (got.take framing.headerLength) with
    | none => .bad
    | some body => if got.length < framing.headerLength + body then .more else .complete

/-- How much a reader asks for next. -/
def wanted (got : List Byte) : ℕ :=
  if got.length < framing.headerLength then framing.headerLength - got.length
  else
    match framing.bodyLength (got.take framing.headerLength) with
    | none => 0
    | some body =>
      min (framing.chunk - (got.length - framing.headerLength) % framing.chunk)
        (framing.headerLength + body - got.length)

/-- A header and as much of a body as it says. -/
structure IsFrame (frame : List Byte) : Prop where
  header : framing.headerLength ≤ frame.length
  body : framing.bodyLength (frame.take framing.headerLength) =
    some (frame.length - framing.headerLength)

variable {framing} {frame got taken later rest : List Byte}

theorem IsFrame.bodyLength_take (hframe : framing.IsFrame frame) (hgot : got <+: frame)
    (hheader : ¬got.length < framing.headerLength) :
    framing.bodyLength (got.take framing.headerLength) =
      some (frame.length - framing.headerLength) := by
  obtain ⟨later, rfl⟩ := hgot
  rw [← hframe.body, List.take_append_of_le_length (Nat.le_of_not_lt hheader)]

/-- What was read of a frame is whole where it is as long as the frame. -/
theorem IsFrame.status_eq (hframe : framing.IsFrame frame) (hgot : got <+: frame) :
    framing.status got = if got.length < frame.length then .more else .complete := by
  have hheader := hframe.header
  unfold status
  by_cases hshort : got.length < framing.headerLength
  · rw [if_pos hshort, if_pos (Nat.lt_of_lt_of_le hshort hheader)]
  · rw [if_neg hshort, hframe.bodyLength_take hgot hshort]
    simp only
    rw [Nat.add_sub_of_le hheader]

/-- A reader asks for nothing behind the frame. -/
theorem IsFrame.wanted_le (hframe : framing.IsFrame frame) (hgot : got <+: frame) :
    got.length + framing.wanted got ≤ frame.length := by
  have hheader := hframe.header
  have hlength := hgot.length_le
  unfold wanted
  by_cases hshort : got.length < framing.headerLength
  · rw [if_pos hshort]
    omega
  · rw [if_neg hshort, hframe.bodyLength_take hgot hshort]
    simp only
    omega

/-- A reader stays inside the frame that comes first in what it has read and what follows. -/
theorem IsFrame.read (hframe : framing.IsFrame frame) (hgot : got <+: frame)
    (hstream : got ++ (taken ++ rest) = frame ++ later)
    (htaken : taken.length ≤ framing.wanted got) :
    got ++ taken <+: frame := by
  have hleft : got ++ taken <+: frame ++ later := by
    rw [← hstream, ← List.append_assoc]
    exact List.prefix_append _ _
  refine List.prefix_of_prefix_length_le hleft (List.prefix_append frame later) ?_
  rw [List.length_append]
  exact Nat.le_trans (Nat.add_le_add_left htaken _) (hframe.wanted_le hgot)

end Framing

end EynOS.Foundation
