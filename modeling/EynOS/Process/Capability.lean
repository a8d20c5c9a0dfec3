import EynOS.Foundation.Run
import Mathlib.Algebra.Group.Nat.Defs
import Mathlib.Data.List.Basic

/-!
# Capabilities

The functions of `capabilities.c` over a registry of objects with their epochs. A capability carries
an object, a type, rights and an epoch, and a tag computed from them and from the secret of the
kernel. `epochOf` is what a registry says of an object, and `capValidate_iff` when a capability is
accepted.

A `Ledger` keeps beside the registry every capability that was minted, with the number of times its
object was revoked since. `Tracks.validate_iff` is the rule for these: a minted capability is
accepted where that number is a multiple of `2 ^ 32` and its rights suffice.

Not modelled: the flags of the entries, which nothing reads, how the secret is chosen, and the
disabling of interrupts around the accesses to the registry.
-/

namespace EynOS.Process.Capability

open Foundation

/-! ### The registry -/

def CAP_REGISTRY_MAX : ℕ := 64

def CAP_OBJ_NONE : UInt32 := 0

def CAP_OBJ_USER_FD : UInt32 := 1

def CAP_R_READ : UInt32 := 1

def CAP_R_WRITE : UInt32 := 2

def CAP_R_CLOSE : UInt32 := 32

def CAP_R_SEEK : UInt32 := 64

/-- `cap_t`. -/
structure Cap where
  obj : UInt32
  type : UInt32
  rights : UInt32
  epoch : UInt32
  tagLo : UInt32
  tagHi : UInt32
  deriving DecidableEq

/-- `cap_entry_t`. The object is a kernel pointer, and 0 where the entry is free. -/
structure CapEntry where
  obj : UInt64
  type : UInt32
  epoch : UInt32

/-- `cap_secret_t`. -/
structure CapSecret where
  s0 : UInt32
  s1 : UInt32

/-- `g_cap_registry`. -/
abbrev Registry : Type := List CapEntry

/-- The registry after `cap_init`. -/
def capInit : Registry := List.replicate CAP_REGISTRY_MAX { obj := 0, type := 0, epoch := 0 }

/-- `cap_ptr_to_obj32`: a pointer that is not null and fits into 32 bits. -/
def capPtrToObj32 (obj : UInt64) : Option UInt32 :=
  if obj = 0 then none
  else if obj.toUInt32.toUInt64 = obj then some obj.toUInt32
  else none

def CapEntry.isFor (obj : UInt64) (type : UInt32) (entry : CapEntry) : Bool :=
  entry.obj == obj && entry.type == type

def capFindEntry (obj : UInt64) (type : UInt32) (registry : Registry) : Option CapEntry :=
  registry.find? (CapEntry.isFor obj type)

/-- Advance the epoch of the entry that `cap_find_entry` finds. -/
def advanceEpoch (obj : UInt64) (type : UInt32) : Registry → Registry
  | [] => []
  | entry :: entries =>
    if entry.isFor obj type then { entry with epoch := entry.epoch + 1 } :: entries
    else entry :: advanceEpoch obj type entries

/-- The loop of `cap_register_object` for a free entry. -/
def takeEntry (obj : UInt64) (type : UInt32) : Registry → Option Registry
  | [] => none
  | entry :: entries =>
    if entry.obj = 0 then some ({ obj := obj, type := type, epoch := 1 } :: entries)
    else (takeEntry obj type entries).map (entry :: ·)

/-- `cap_register_object`, with the registry where it succeeds. -/
def capRegisterObject (obj : UInt64) (type : UInt32) (registry : Registry) : Option Registry :=
  if obj = 0 ∨ type = CAP_OBJ_NONE then none
  else
    match capPtrToObj32 obj with
    | none => none
    | some _ =>
      match capFindEntry obj type registry with
      | some _ => some registry
      | none => takeEntry obj type registry

def capRevokeObject (obj : UInt64) (type : UInt32) (registry : Registry) : Registry :=
  if obj = 0 ∨ type = CAP_OBJ_NONE then registry
  else advanceEpoch obj type registry

/-! ### Minting and validating -/

def capMix64 (x : UInt64) : UInt64 :=
  let x := x ^^^ x >>> 33
  let x := x * 0xff51afd7ed558ccd
  let x := x ^^^ x >>> 33
  let x := x * 0xc4ceb9fe1a85ec53
  x ^^^ x >>> 33

/-- The fields of a capability as `cap_make_tag` combines them. -/
def capFields (obj32 type rights epoch : UInt32) : UInt64 :=
  (obj32.toUInt64 ||| type.toUInt64 <<< 32) ^^^ rights.toUInt64 <<< 16 ^^^ epoch.toUInt64 <<< 48

/-- The secret as `cap_make_tag` combines it. -/
def CapSecret.word (secret : CapSecret) : UInt64 :=
  secret.s0.toUInt64 ||| secret.s1.toUInt64 <<< 32

def capMakeTag (secret : CapSecret) (obj32 type rights epoch : UInt32) : UInt64 :=
  capMix64 (capFields obj32 type rights epoch ^^^ secret.word)

def lowHalf (tag : UInt64) : UInt32 := (tag &&& 0xFFFFFFFF).toUInt32

def highHalf (tag : UInt64) : UInt32 := (tag >>> 32 &&& 0xFFFFFFFF).toUInt32

/-- A capability with its tag. -/
def sealCap (secret : CapSecret) (obj32 type rights epoch : UInt32) : Cap where
  obj := obj32
  type := type
  rights := rights
  epoch := epoch
  tagLo := lowHalf (capMakeTag secret obj32 type rights epoch)
  tagHi := highHalf (capMakeTag secret obj32 type rights epoch)

def capMint (secret : CapSecret) (obj : UInt64) (type rights : UInt32) (registry : Registry) :
    Option Cap × Registry :=
  if obj = 0 ∨ type = CAP_OBJ_NONE then (none, registry)
  else
    match capPtrToObj32 obj with
    | none => (none, registry)
    | some obj32 =>
      match capRegisterObject obj type registry with
      | none => (none, registry)
      | some registered =>
        match capFindEntry obj type registered with
        | none => (none, registered)
        | some entry => (some (sealCap secret obj32 type rights entry.epoch), registered)

def capValidate (secret : CapSecret) (registry : Registry) (cap : Cap) (obj : UInt64)
    (type requiredRights : UInt32) : Bool :=
  if obj = 0 ∨ type = CAP_OBJ_NONE then false
  else
    match capPtrToObj32 obj with
    | none => false
    | some obj32 =>
      if cap.obj ≠ obj32 then false
      else if cap.type ≠ type then false
      else if cap.rights &&& requiredRights ≠ requiredRights then false
      else
        match capFindEntry obj type registry with
        | none => false
        | some entry =>
          if entry.epoch ≠ cap.epoch then false
          else
            let expected := capMakeTag secret obj32 type cap.rights cap.epoch
            decide (cap.tagLo = lowHalf expected ∧ cap.tagHi = highHalf expected)

/-! ### Epochs -/

variable {secret : CapSecret} {registry after : Registry} {cap : Cap} {obj other : UInt64}
  {type kind rights required obj32 epoch : UInt32}

/-- What a registry says of an object. -/
def epochOf (registry : Registry) (obj : UInt64) (type : UInt32) : Option UInt32 :=
  (capFindEntry obj type registry).map CapEntry.epoch

/-- A capability carries the tag of its fields. -/
def Cap.Genuine (secret : CapSecret) (cap : Cap) : Prop :=
  cap.tagLo = lowHalf (capMakeTag secret cap.obj cap.type cap.rights cap.epoch) ∧
    cap.tagHi = highHalf (capMakeTag secret cap.obj cap.type cap.rights cap.epoch)

theorem CapEntry.isFor_iff {entry : CapEntry} :
    entry.isFor obj type = true ↔ entry.obj = obj ∧ entry.type = type := by
  rw [CapEntry.isFor, Bool.and_eq_true, beq_iff_eq, beq_iff_eq]

/-- A pointer and its 32 bits. -/
theorem capPtrToObj32_iff : capPtrToObj32 obj = some obj32 ↔ obj ≠ 0 ∧ obj = obj32.toUInt64 := by
  unfold capPtrToObj32
  split_ifs with hnull hfits
  · simp [hnull]
  · rw [Option.some.injEq]
    constructor
    · rintro rfl
      exact ⟨hnull, hfits.symm⟩
    · rintro ⟨-, hobj⟩
      rw [hobj, UInt32.toUInt32_toUInt64]
  · refine ⟨fun hnone ↦ absurd hnone (by simp), ?_⟩
    rintro ⟨-, hobj⟩
    exact absurd (by rw [hobj, UInt32.toUInt32_toUInt64]) hfits

theorem epochOf_cons (entry : CapEntry) :
    epochOf (entry :: registry) obj type =
      if entry.isFor obj type then some entry.epoch else epochOf registry obj type := by
  rw [epochOf, capFindEntry, List.find?_cons]
  cases entry.isFor obj type <;> rfl

theorem epochOf_advanceEpoch :
    epochOf (advanceEpoch obj type registry) other kind =
      if other = obj ∧ kind = type then (epochOf registry obj type).map (· + 1)
      else epochOf registry other kind := by
  induction registry with
  | nil => simp [advanceEpoch, epochOf, capFindEntry]
  | cons entry entries ih =>
    rw [advanceEpoch]
    by_cases hfor : entry.isFor obj type = true
    · obtain ⟨rfl, rfl⟩ := CapEntry.isFor_iff.mp hfor
      rw [if_pos hfor, epochOf_cons, epochOf_cons, epochOf_cons, if_pos hfor]
      by_cases hsame : other = entry.obj ∧ kind = entry.type
      · obtain ⟨rfl, rfl⟩ := hsame
        simp [CapEntry.isFor]
      · have hother : entry.isFor other kind = false := by
          rw [Bool.eq_false_iff]
          exact fun h ↦ hsame ⟨(CapEntry.isFor_iff.mp h).1.symm, (CapEntry.isFor_iff.mp h).2.symm⟩
        have hchanged :
            ({ entry with epoch := entry.epoch + 1 } : CapEntry).isFor other kind = false := hother
        simp [hsame, hother, hchanged]
    · rw [if_neg hfor, epochOf_cons, epochOf_cons, epochOf_cons, if_neg hfor, ih]
      by_cases hsame : other = obj ∧ kind = type
      · obtain ⟨rfl, rfl⟩ := hsame
        rw [if_neg hfor, if_pos ⟨rfl, rfl⟩, if_pos ⟨rfl, rfl⟩]
      · rw [if_neg hsame, if_neg hsame]

/-- A new entry is in the registry with epoch 1, and changes no other object. -/
theorem epochOf_takeEntry (hobj : other ≠ 0) (hnew : epochOf registry obj type = none)
    (htaken : takeEntry obj type registry = some after) :
    epochOf after other kind =
      if other = obj ∧ kind = type then some 1 else epochOf registry other kind := by
  induction registry generalizing after with
  | nil => simp [takeEntry] at htaken
  | cons entry entries ih =>
    rw [takeEntry] at htaken
    rw [epochOf_cons] at hnew
    by_cases hfree : entry.obj = 0
    · rw [if_pos hfree] at htaken
      obtain rfl := Option.some.inj htaken
      have hentry : entry.isFor other kind = false := by
        rw [Bool.eq_false_iff]
        exact fun h ↦ hobj ((CapEntry.isFor_iff.mp h).1.symm.trans hfree)
      rw [epochOf_cons, epochOf_cons, hentry, if_neg Bool.false_ne_true]
      refine if_congr ?_ rfl rfl
      rw [CapEntry.isFor_iff]
      exact and_congr eq_comm eq_comm
    · rw [if_neg hfree] at htaken
      obtain ⟨rest, hrest, rfl⟩ := Option.map_eq_some_iff.mp htaken
      split_ifs at hnew with hfor
      rw [epochOf_cons, epochOf_cons, ih hnew hrest]
      by_cases hsame : other = obj ∧ kind = type
      · obtain ⟨rfl, rfl⟩ := hsame
        rw [if_neg hfor, if_pos ⟨rfl, rfl⟩, if_pos ⟨rfl, rfl⟩]
      · rw [if_neg hsame, if_neg hsame]

/-- Registering an object gives it an epoch, 1 where it had none, and changes no other object. -/
theorem epochOf_register (hobj : other ≠ 0) (hregistered : capRegisterObject obj type registry =
    some after) :
    epochOf after other kind =
      if other = obj ∧ kind = type then some ((epochOf registry obj type).getD 1)
      else epochOf registry other kind := by
  unfold capRegisterObject at hregistered
  split_ifs at hregistered with hrefused
  cases hfound : capFindEntry obj type registry with
  | some entry =>
    have hepoch : epochOf registry obj type = some entry.epoch := by rw [epochOf, hfound]; rfl
    simp only [hfound] at hregistered
    split at hregistered
    · exact absurd hregistered (by simp)
    · obtain rfl := Option.some.inj hregistered
      by_cases hsame : other = obj ∧ kind = type
      · obtain ⟨rfl, rfl⟩ := hsame
        rw [if_pos ⟨rfl, rfl⟩, hepoch, Option.getD_some]
      · rw [if_neg hsame]
  | none =>
    have hepoch : epochOf registry obj type = none := by rw [epochOf, hfound]; rfl
    simp only [hfound] at hregistered
    split at hregistered
    · exact absurd hregistered (by simp)
    · rw [epochOf_takeEntry hobj hepoch hregistered, hepoch, Option.getD_none]

theorem epochOf_revoke (hobj : obj ≠ 0) (htype : type ≠ CAP_OBJ_NONE) :
    epochOf (capRevokeObject obj type registry) other kind =
      if other = obj ∧ kind = type then (epochOf registry obj type).map (· + 1)
      else epochOf registry other kind := by
  rw [capRevokeObject, if_neg (not_or.mpr ⟨hobj, htype⟩), epochOf_advanceEpoch]

/-- What minting does: it seals the epoch of the object, which it registers where necessary, or it
changes nothing. -/
theorem capMint_cases (secret : CapSecret) (obj : UInt64) (type rights : UInt32)
    (registry : Registry) :
    capMint secret obj type rights registry = (none, registry) ∨
      ∃ obj32 after, obj ≠ 0 ∧ type ≠ CAP_OBJ_NONE ∧ obj = obj32.toUInt64 ∧
        (∀ other kind, other ≠ 0 → epochOf after other kind =
          if other = obj ∧ kind = type then some ((epochOf registry obj type).getD 1)
          else epochOf registry other kind) ∧
        capMint secret obj type rights registry =
          (some (sealCap secret obj32 type rights ((epochOf registry obj type).getD 1)),
            after) := by
  unfold capMint
  split_ifs with hrefused
  · exact Or.inl rfl
  · obtain ⟨hobj, htype⟩ := not_or.mp hrefused
    cases hobj32 : capPtrToObj32 obj with
    | none => exact Or.inl rfl
    | some obj32 =>
      cases hregistered : capRegisterObject obj type registry with
      | none => exact Or.inl rfl
      | some registered =>
        refine Or.inr ⟨obj32, registered, hobj, htype, (capPtrToObj32_iff.mp hobj32).2,
          fun other kind hother ↦ epochOf_register hother hregistered, ?_⟩
        have hepoch : epochOf registered obj type = if obj = obj ∧ type = type then
            some ((epochOf registry obj type).getD 1) else epochOf registry obj type :=
          epochOf_register hobj hregistered
        rw [if_pos ⟨rfl, rfl⟩] at hepoch
        obtain ⟨entry, hentry, hsealed⟩ := Option.map_eq_some_iff.mp hepoch
        simp only [hentry, hsealed]

/-- The capability that a successful call of `cap_mint` returns. -/
theorem capMint_some (hminted : (capMint secret obj type rights registry).1 = some cap) :
    obj = cap.obj.toUInt64 ∧ cap.type = type ∧ cap.rights = rights := by
  rcases capMint_cases secret obj type rights registry with
    hrefused | ⟨obj32, after, -, -, hptr, -, hsealed⟩
  · rw [hrefused] at hminted
    exact absurd hminted (by simp)
  · rw [hsealed] at hminted
    obtain rfl := Option.some.inj hminted
    exact ⟨hptr, rfl, rfl⟩

/-- When a capability is accepted. -/
theorem capValidate_iff :
    capValidate secret registry cap obj type required = true ↔
      obj ≠ 0 ∧ type ≠ CAP_OBJ_NONE ∧ obj = cap.obj.toUInt64 ∧ cap.type = type ∧
        cap.rights &&& required = required ∧ epochOf registry obj type = some cap.epoch ∧
          cap.Genuine secret := by
  unfold capValidate
  by_cases hrefused : obj = 0 ∨ type = CAP_OBJ_NONE
  · rw [if_pos hrefused, iff_false_left Bool.false_ne_true]
    rintro ⟨hobj, htype, -⟩
    exact hrefused.elim hobj htype
  rw [if_neg hrefused]
  obtain ⟨hobj, htype⟩ := not_or.mp hrefused
  cases hobj32 : capPtrToObj32 obj with
  | none =>
    rw [iff_false_left Bool.false_ne_true]
    rintro ⟨-, -, hsame, -⟩
    rw [capPtrToObj32_iff.mpr ⟨hobj, hsame⟩] at hobj32
    exact absurd hobj32 (by simp)
  | some obj32 =>
    have hptr := (capPtrToObj32_iff.mp hobj32).2
    simp only
    by_cases hcapObj : cap.obj = obj32
    · by_cases hcapType : cap.type = type
      · by_cases hcapRights : cap.rights &&& required = required
        · rw [if_neg (not_not.mpr hcapObj), if_neg (not_not.mpr hcapType),
            if_neg (not_not.mpr hcapRights)]
          cases hfound : capFindEntry obj type registry with
          | none =>
            rw [iff_false_left Bool.false_ne_true]
            rintro ⟨-, -, -, -, -, hepoch, -⟩
            rw [epochOf, hfound] at hepoch
            exact absurd hepoch (by simp)
          | some entry =>
            have hepoch : epochOf registry obj type = some entry.epoch := by
              rw [epochOf, hfound]
              rfl
            simp only
            by_cases hentry : entry.epoch = cap.epoch
            · rw [if_neg (not_not.mpr hentry), decide_eq_true_iff, hepoch, hentry, Cap.Genuine,
                hcapObj, hcapType]
              exact ⟨fun htag ↦ ⟨hobj, htype, hptr, rfl, hcapRights, rfl, htag⟩,
                fun h ↦ h.2.2.2.2.2.2⟩
            · rw [if_pos hentry, iff_false_left Bool.false_ne_true, hepoch]
              exact fun h ↦ hentry (Option.some.inj h.2.2.2.2.2.1)
        · rw [if_neg (not_not.mpr hcapObj), if_neg (not_not.mpr hcapType), if_pos hcapRights,
            iff_false_left Bool.false_ne_true]
          exact fun h ↦ hcapRights h.2.2.2.2.1
      · rw [if_neg (not_not.mpr hcapObj), if_pos hcapType, iff_false_left Bool.false_ne_true]
        exact fun h ↦ hcapType h.2.2.2.1
    · rw [if_pos hcapObj, iff_false_left Bool.false_ne_true]
      exact fun h ↦ hcapObj (UInt32.toUInt64_inj.mp (h.2.2.1.symm.trans hptr))

/-! ### Ledgers -/

/-- A capability that was minted, with the number of times its object was revoked since. -/
structure Issued where
  cap : Cap
  revocations : ℕ

/-- The registry with the capabilities that were minted. -/
structure Ledger where
  registry : Registry
  issued : List Issued

/-- The ledger after `cap_init`. -/
def Ledger.start : Ledger := { registry := capInit, issued := [] }

def Issued.count (obj : UInt64) (type : UInt32) (past : Issued) : Issued :=
  if past.cap.obj.toUInt64 = obj ∧ past.cap.type = type then
    { past with revocations := past.revocations + 1 }
  else past

/-- `cap_mint`, with the capability noted. -/
def Ledger.mint (secret : CapSecret) (obj : UInt64) (type rights : UInt32) (ledger : Ledger) :
    Option Cap × Ledger :=
  let minted := capMint secret obj type rights ledger.registry
  (minted.1, { registry := minted.2, issued := ledger.issued ++ minted.1.toList.map (⟨·, 0⟩) })

/-- `cap_revoke_object`, with the revocation counted. -/
def Ledger.revoke (obj : UInt64) (type : UInt32) (ledger : Ledger) : Ledger where
  registry := capRevokeObject obj type ledger.registry
  issued := ledger.issued.map (Issued.count obj type)

/-- Every minted capability is genuine, and its object is registered with the epoch it was minted
with, advanced by the revocations since. -/
def Tracks (secret : CapSecret) (ledger : Ledger) : Prop :=
  ∀ past ∈ ledger.issued, past.cap.obj ≠ 0 ∧ past.cap.type ≠ CAP_OBJ_NONE ∧
    past.cap.Genuine secret ∧ epochOf ledger.registry past.cap.obj.toUInt64 past.cap.type =
      some (past.cap.epoch + UInt32.ofNat past.revocations)

variable {ledger : Ledger} {past : Issued}

@[simp] theorem Issued.count_cap : (past.count obj type).cap = past.cap := by
  unfold Issued.count
  split_ifs <;> rfl

theorem toUInt64_ne_zero (hobj : obj32 ≠ 0) : obj32.toUInt64 ≠ 0 := fun hzero ↦
  hobj (UInt32.toUInt64_inj.mp hzero)

theorem tracks_start (secret : CapSecret) : Tracks secret .start := by
  intro past hpast
  exact absurd hpast List.not_mem_nil

theorem Tracks.mint (htracks : Tracks secret ledger) (obj : UInt64) (type rights : UInt32) :
    Tracks secret (ledger.mint secret obj type rights).2 := by
  intro past hpast
  rcases capMint_cases secret obj type rights ledger.registry with
    hrefused | ⟨obj32, after, hobj, htype, hptr, hepoch, hminted⟩
  · simp only [Ledger.mint, hrefused, Option.toList_none, List.map_nil, List.append_nil] at hpast ⊢
    exact htracks past hpast
  · simp only [Ledger.mint, hminted, Option.toList_some, List.map_cons, List.map_nil] at hpast ⊢
    rcases List.mem_append.mp hpast with hformer | hnew
    · obtain ⟨hpastObj, hpastType, hgenuine, hpastEpoch⟩ := htracks past hformer
      refine ⟨hpastObj, hpastType, hgenuine, ?_⟩
      rw [hepoch _ _ (toUInt64_ne_zero hpastObj)]
      split_ifs with hsame
      · rw [← hsame.1, ← hsame.2, hpastEpoch, Option.getD_some]
      · exact hpastEpoch
    · rw [List.mem_singleton.mp hnew]
      have hobj32 : obj32 ≠ 0 := by
        rintro rfl
        exact hobj hptr
      refine ⟨hobj32, htype, ⟨rfl, rfl⟩, ?_⟩
      have hsealed := hepoch obj32.toUInt64 type (toUInt64_ne_zero hobj32)
      rw [if_pos ⟨hptr.symm, rfl⟩] at hsealed
      exact hsealed.trans (congrArg some (UInt32.add_zero _).symm)

theorem Tracks.revoke (htracks : Tracks secret ledger) (obj : UInt64) (type : UInt32) :
    Tracks secret (ledger.revoke obj type) := by
  intro past hpast
  obtain ⟨former, hformer, rfl⟩ := List.mem_map.mp hpast
  obtain ⟨hobj, htype, hgenuine, hepoch⟩ := htracks former hformer
  simp only [Issued.count_cap]
  refine ⟨hobj, htype, hgenuine, ?_⟩
  simp only [Ledger.revoke]
  by_cases hsame : former.cap.obj.toUInt64 = obj ∧ former.cap.type = type
  · obtain ⟨rfl, rfl⟩ := hsame
    rw [epochOf_revoke (toUInt64_ne_zero hobj) htype, if_pos ⟨rfl, rfl⟩, hepoch, Option.map_some,
      Issued.count, if_pos ⟨rfl, rfl⟩, Option.some.injEq, UInt32.ofNat_add, UInt32.add_assoc]
    rfl
  · rw [Issued.count, if_neg hsame, capRevokeObject]
    split_ifs with hrefused
    · exact hepoch
    · rw [epochOf_advanceEpoch, if_neg hsame, hepoch]

/-- A minted capability is accepted where the number of revocations since is a multiple of `2 ^ 32`
and its rights suffice. -/
theorem Tracks.validate_iff (htracks : Tracks secret ledger) (hpast : past ∈ ledger.issued) :
    capValidate secret ledger.registry past.cap past.cap.obj.toUInt64 past.cap.type required =
        true ↔
      past.cap.rights &&& required = required ∧ past.revocations % 2 ^ 32 = 0 := by
  obtain ⟨hobj, htype, hgenuine, hepoch⟩ := htracks past hpast
  have hcurrent : past.cap.epoch + UInt32.ofNat past.revocations = past.cap.epoch ↔
      past.revocations % 2 ^ 32 = 0 := by
    nth_rewrite 2 [← UInt32.add_zero past.cap.epoch]
    rw [UInt32.add_right_inj, ← UInt32.toNat_inj, UInt32.toNat_ofNat']
    rfl
  rw [capValidate_iff, hepoch, Option.some.injEq, hcurrent]
  exact ⟨fun h ↦ ⟨h.2.2.2.2.1, h.2.2.2.2.2.1⟩,
    fun h ↦ ⟨toUInt64_ne_zero hobj, htype, rfl, rfl, h.1, h.2, hgenuine⟩⟩

end EynOS.Process.Capability
