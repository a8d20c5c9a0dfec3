import Mathlib.Data.List.Basic

/-!
# Writing to sinks and into lists

A sink takes one item after another and may fail. A procedure that does nothing with its sink but
write to it is `emit` of the items it writes, whichever the sink is; so what it writes to a bounded
sink is found from what it writes to the list of everything written (`emit_record`).

`splice content offset data` is a list with as many of its elements as `data` has replaced, from an
offset on. Where the list comes in two parts the splice does, too: in the first, in the second, or
in both (`splice_append_left`, `splice_append_right`, `splice_append_across`).
-/

namespace EynOS.Foundation

/-! ### Sinks -/

section Emission

variable {Sink Item : Type} (put : Sink → Item → Option Sink)

/-- Items written to a sink. -/
def emit (items : List Item) (sink : Sink) : Option Sink := items.foldlM put sink

/-- An item written some times over. -/
def emitCopies (item : Item) : ℕ → Sink → Option Sink
  | 0, sink => some sink
  | count + 1, sink => (put sink item).bind (emitCopies item count)

/-- The sink that keeps everything. -/
def record (written : List Item) (item : Item) : Option (List Item) := some (written ++ [item])

variable {put}

@[simp]
theorem emit_nil (sink : Sink) : emit put [] sink = some sink := rfl

@[simp]
theorem emit_singleton (item : Item) (sink : Sink) : emit put [item] sink = put sink item := by
  unfold emit
  rw [List.foldlM_cons]
  cases put sink item <;> rfl

theorem emit_cons (item : Item) (items : List Item) (sink : Sink) :
    emit put (item :: items) sink = (put sink item).bind (emit put items) := rfl

theorem emit_append (first second : List Item) (sink : Sink) :
    emit put (first ++ second) sink = (emit put first sink).bind (emit put second) :=
  List.foldlM_append

theorem emitCopies_eq (item : Item) (count : ℕ) (sink : Sink) :
    emitCopies put item count sink = emit put (List.replicate count item) sink := by
  induction count generalizing sink with
  | zero => rfl
  | succ count ih =>
    rw [emitCopies, List.replicate_succ, emit_cons]
    congr 1
    exact funext ih

/-- What the sink that keeps everything has in the end. -/
theorem emit_record (items written : List Item) :
    emit record items written = some (written ++ items) := by
  induction items generalizing written with
  | nil => rw [emit_nil, List.append_nil]
  | cons item rest ih =>
    rw [emit_cons, record, Option.bind_some, ih, List.append_assoc]
    rfl

end Emission

/-! ### Splices -/

section Splice

variable {Item : Type*}

/-- A list with some elements in the place of its own, from an offset on. -/
def splice (content : List Item) (offset : ℕ) (data : List Item) : List Item :=
  content.take offset ++ data ++ content.drop (offset + data.length)

variable {content first second data : List Item} {offset : ℕ}

theorem length_splice (hroom : offset + data.length ≤ content.length) :
    (splice content offset data).length = content.length := by
  rw [splice, List.length_append, List.length_append, List.length_take, List.length_drop]
  omega

@[simp] theorem splice_by_nil (content : List Item) (offset : ℕ) :
    splice content offset [] = content := by
  rw [splice, List.append_nil, List.length_nil, Nat.add_zero, List.take_append_drop]

/-- An element of a splice. -/
theorem getElem?_splice (hroom : offset + data.length ≤ content.length) (index : ℕ) :
    (splice content offset data)[index]? =
      if offset ≤ index ∧ index < offset + data.length then data[index - offset]?
      else content[index]? := by
  have hlength : (content.take offset).length = offset := by
    rw [List.length_take]
    omega
  rw [splice, List.append_assoc, List.getElem?_append, hlength]
  split_ifs with hbefore hinside hinside
  · omega
  · exact List.getElem?_take_of_lt hbefore
  · rw [List.getElem?_append_left (by omega)]
  · rw [List.getElem?_append_right (by omega), List.getElem?_drop]
    congr 1
    omega

theorem splice_singleton {item : Item} (hoffset : offset < content.length) :
    splice content offset [item] = content.set offset item := by
  rw [List.set_eq_take_append_cons_drop, if_pos hoffset, splice, List.append_assoc]
  rfl

/-- What is put behind what was put in before. -/
theorem splice_splice (hroom : offset + (first.length + second.length) ≤ content.length) :
    splice (splice content offset first) (offset + first.length) second =
      splice content offset (first ++ second) := by
  have hfirst : (splice content offset first).length = content.length := length_splice (by omega)
  refine List.ext_getElem? fun index ↦ ?_
  rw [getElem?_splice (by omega), getElem?_splice (by omega),
    getElem?_splice (by rw [List.length_append]; omega), List.length_append]
  split_ifs with hsecond hboth hinside hboth
  · rw [List.getElem?_append_right (by omega)]
    congr 1
    omega
  · omega
  · rw [List.getElem?_append_left (by omega)]
  · omega
  · omega
  · rfl

/-- The front of a splice depends on the front of the list alone. -/
theorem take_splice {other : List Item}
    (hlength : content.length = other.length) (hsame : content.take offset = other.take offset)
    (hroom : offset + data.length ≤ content.length) :
    (splice content offset data).take (offset + data.length) =
      (splice other offset data).take (offset + data.length) := by
  have hfront (list : List Item) (hlist : list.length = content.length) :
      (splice list offset data).take (offset + data.length) = list.take offset ++ data := by
    rw [splice]
    refine List.take_left' ?_
    rw [List.length_append, List.length_take]
    omega
  rw [hfront content rfl, hfront other hlength.symm, hsame]

theorem splice_append_left (hroom : offset + data.length ≤ first.length) :
    splice (first ++ second) offset data = splice first offset data ++ second := by
  rw [splice, splice, List.take_append_of_le_length (by omega),
    List.drop_append_of_le_length hroom, List.append_assoc, List.append_assoc, List.append_assoc]

theorem splice_append_right (hoffset : first.length ≤ offset) :
    splice (first ++ second) offset data =
      first ++ splice second (offset - first.length) data := by
  rw [splice, splice, List.take_append, List.drop_append, List.take_of_length_le hoffset,
    List.drop_eq_nil_of_le (by omega), List.nil_append,
    Nat.sub_add_comm hoffset, List.append_assoc, List.append_assoc, List.append_assoc]

/-- A splice that starts in the first part, and may go on in the second. -/
theorem splice_append_across (hoffset : offset ≤ first.length) :
    splice (first ++ second) offset data =
      splice first offset (data.take (first.length - offset)) ++
        splice second 0 (data.drop (first.length - offset)) := by
  rcases Nat.lt_or_ge (offset + data.length) first.length with hshort | hlong
  · rw [List.take_of_length_le (by omega), List.drop_eq_nil_of_le (by omega), splice_by_nil,
      splice_append_left (Nat.le_of_lt hshort)]
  · have htaken : (data.take (first.length - offset)).length = first.length - offset := by
      rw [List.length_take]
      omega
    have hend : offset + (data.take (first.length - offset)).length = first.length := by omega
    have hleft : offset + data.length - first.length =
        (data.drop (first.length - offset)).length := by
      rw [List.length_drop]
      omega
    rw [splice, splice, splice, hend, List.drop_length, List.append_nil, List.take_zero,
      List.nil_append, Nat.zero_add, List.take_append_of_le_length hoffset, List.drop_append,
      List.drop_eq_nil_of_le hlong, List.nil_append, hleft]
    simp only [List.append_assoc]
    rw [← List.append_assoc (data.take _), List.take_append_drop]

end Splice

end EynOS.Foundation
