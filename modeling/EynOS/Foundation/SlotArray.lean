import EynOS.Foundation.RingBuffer

/-!
# Arrays of slots

An array of slots without an order of its own: a packet goes into the first slot that is free, and
is taken from the first slot whose packet is wanted. `used` lists the packets by their slots, and
`behindFree` those in the slots behind the first free one.

A packet that is put in comes before those of `behindFree` (`used_fillFirst`), so the array keeps
the order of arrival of the packets that are wanted together exactly as long as none of them is
there. `takeFirst` takes the first one of `used` (`takeFirst_eq_some`).
-/

namespace EynOS.Foundation

namespace SlotArray

variable {Packet : Type*}

/-- Put a packet into the first free slot, if there is one. -/
def fillFirst (packet : Packet) : List (Slot Packet) → Option (List (Slot Packet))
  | [] => none
  | slot :: slots =>
    if slot.valid then (fillFirst packet slots).map (slot :: ·)
    else some ({ valid := true, packet := packet } :: slots)

def takeFirst (wanted : Packet → Bool) : List (Slot Packet) → Option (Packet × List (Slot Packet))
  | [] => none
  | slot :: slots =>
    if slot.valid ∧
      wanted slot.packet then some (slot.packet, { slot with valid := false } :: slots)
    else (takeFirst wanted slots).map fun taken ↦ (taken.1, slot :: taken.2)

/-- The packets in the array, by their slots. -/
def used : List (Slot Packet) → List Packet
  | [] => []
  | slot :: slots => if slot.valid then slot.packet :: used slots else used slots

def behindFree : List (Slot Packet) → List Packet
  | [] => []
  | slot :: slots => if slot.valid then behindFree slots else used slots

variable {packet : Packet} {wanted other : Packet → Bool} {slots filled rest : List (Slot Packet)}

theorem length_used_le (slots : List (Slot Packet)) : (used slots).length ≤ slots.length := by
  induction slots with
  | nil => exact Nat.le_refl _
  | cons slot slots ih =>
    rw [used, List.length_cons]
    split_ifs
    · exact Nat.succ_le_succ ih
    · exact Nat.le_succ_of_le ih

/-- Only a full array has no free slot. -/
theorem fillFirst_eq_none : fillFirst packet slots = none ↔ (used slots).length = slots.length := by
  induction slots with
  | nil => exact ⟨fun _ ↦ rfl, fun _ ↦ rfl⟩
  | cons slot slots ih =>
    rw [fillFirst, used, List.length_cons]
    split_ifs
    · rw [Option.map_eq_none_iff, ih, List.length_cons, Nat.succ_inj]
    · have hle := length_used_le slots
      simp only [false_iff]
      omega

/-- Where a packet is put. -/
theorem used_fillFirst (hfilled : fillFirst packet slots = some filled) :
    filled.length = slots.length ∧ ∃ before, used slots = before ++ behindFree slots ∧
      used filled = before ++ packet :: behindFree slots := by
  induction slots generalizing filled with
  | nil => exact nomatch hfilled
  | cons slot slots ih =>
    rw [fillFirst] at hfilled
    rw [used, behindFree]
    split_ifs at hfilled with hvalid
    · obtain ⟨later, hlater, rfl⟩ := Option.map_eq_some_iff.mp hfilled
      obtain ⟨hlength, before, hused, hfilled⟩ := ih hlater
      refine ⟨by rw [List.length_cons, List.length_cons, hlength], slot.packet :: before, ?_, ?_⟩
      · rw [if_pos hvalid, if_pos hvalid, hused, List.cons_append]
      · rw [used, if_pos hvalid, if_pos hvalid, hfilled, List.cons_append]
    · obtain rfl := Option.some.inj hfilled
      refine ⟨rfl, [], ?_, ?_⟩
      · rw [if_neg hvalid, if_neg hvalid, List.nil_append]
      · rw [used, if_pos rfl, if_neg hvalid, List.nil_append]

/-- There is nothing to take where no packet is wanted. -/
theorem takeFirst_eq_none :
    takeFirst wanted slots = none ↔ (used slots).find? wanted = none := by
  induction slots with
  | nil => exact ⟨fun _ ↦ rfl, fun _ ↦ rfl⟩
  | cons slot slots ih =>
    rw [takeFirst, used]
    by_cases hvalid : slot.valid = true
    · rw [if_pos hvalid, List.find?_cons]
      by_cases hwanted : wanted slot.packet = true
      · simp [hvalid, hwanted]
      · simp [hvalid, hwanted, ih]
    · simp [hvalid, ih]

/-- What is taken is the first packet that is wanted, and the others stay as they are. -/
theorem takeFirst_eq_some (htaken : takeFirst wanted slots = some (packet, rest)) :
    rest.length = slots.length ∧ (used slots).find? wanted = some packet ∧
      used rest = (used slots).eraseP wanted := by
  induction slots generalizing rest with
  | nil => exact nomatch htaken
  | cons slot slots ih =>
    rw [takeFirst] at htaken
    rw [used]
    by_cases hhere : slot.valid = true ∧ wanted slot.packet = true
    · rw [if_pos hhere] at htaken
      obtain ⟨rfl, rfl⟩ := Prod.mk.inj (Option.some.inj htaken)
      refine ⟨rfl, ?_, ?_⟩
      · rw [if_pos hhere.1, List.find?_cons, hhere.2]
      · rw [used, if_neg (by simp), if_pos hhere.1, List.eraseP_cons_of_pos hhere.2]
    · rw [if_neg hhere] at htaken
      obtain ⟨⟨taken, later⟩, hlater, hsame⟩ := Option.map_eq_some_iff.mp htaken
      obtain ⟨rfl, rfl⟩ := Prod.mk.inj hsame
      obtain ⟨hlength, hfind, hused⟩ := ih hlater
      refine ⟨by rw [List.length_cons, List.length_cons, hlength], ?_, ?_⟩
      · split_ifs with hvalid
        · have hnot : ¬wanted slot.packet = true := fun hwanted ↦ hhere ⟨hvalid, hwanted⟩
          rw [List.find?_cons_of_neg hnot, hfind]
        · exact hfind
      · rw [used]
        split_ifs with hvalid
        · have hnot : ¬wanted slot.packet = true := fun hwanted ↦ hhere ⟨hvalid, hwanted⟩
          rw [List.eraseP_cons_of_neg hnot, hused]
        · exact hused

theorem perm_fillFirst (hfilled : fillFirst packet slots = some filled) :
    (used filled).Perm (packet :: used slots) := by
  obtain ⟨-, before, hused, hfilled⟩ := used_fillFirst hfilled
  rw [hused, hfilled]
  exact List.perm_middle

/-- A packet that is taken was wanted, and is one less. -/
theorem perm_takeFirst (htaken : takeFirst wanted slots = some (packet, rest)) :
    wanted packet = true ∧ (used slots).Perm (packet :: used rest) := by
  obtain ⟨-, hfind, hused⟩ := takeFirst_eq_some htaken
  obtain ⟨hwanted, before, behind, hsplit, hbefore⟩ := List.find?_eq_some_iff_append.mp hfind
  refine ⟨hwanted, ?_⟩
  have herase : (used slots).eraseP wanted = before ++ behind := by
    rw [hsplit, List.eraseP_append_right _ fun other hother ↦ by simpa using hbefore other hother,
      List.eraseP_cons_of_pos hwanted]
  rw [hused, herase, hsplit]
  exact List.perm_middle

end SlotArray

/-! ### Lists by what is wanted -/

variable {Packet : Type*} {wanted other : Packet → Bool}

/-- Erasing the first wanted packet takes it off the wanted ones. -/
theorem filter_eraseP_self (packets : List Packet) :
    (packets.eraseP wanted).filter wanted = (packets.filter wanted).tail := by
  induction packets with
  | nil => rfl
  | cons packet packets ih =>
    by_cases hwanted : wanted packet = true
    · rw [List.eraseP_cons_of_pos hwanted, List.filter_cons_of_pos hwanted, List.tail_cons]
    · rw [List.eraseP_cons_of_neg hwanted, List.filter_cons_of_neg hwanted,
        List.filter_cons_of_neg hwanted, ih]

/-- It does not touch packets that are wanted otherwise. -/
theorem filter_eraseP_of_disjoint (packets : List Packet)
    (hdisjoint : ∀ packet, wanted packet = true → other packet = false) :
    (packets.eraseP wanted).filter other = packets.filter other := by
  induction packets with
  | nil => rfl
  | cons packet packets ih =>
    by_cases hwanted : wanted packet = true
    · have hother : ¬other packet = true := by
        rw [hdisjoint packet hwanted]
        exact Bool.false_ne_true
      rw [List.eraseP_cons_of_pos hwanted, List.filter_cons_of_neg hother]
    · rw [List.eraseP_cons_of_neg hwanted, List.filter_cons, List.filter_cons, ih]

end EynOS.Foundation
