import EynOS.Process.Capability
import Mathlib.Data.List.Induction
import Mathlib.Order.Nat

/-!
# Forging capabilities

A holder of capabilities computes a new value from the ones it has. The tag is an invertible mix of
the fields and the secret, so that one capability gives away the secret: `forge` computes from it
the capability of any object with any rights, whatever the secret is (`forge_eq_sealCap`), and
`not_unforgeable` turns a right to read into a right to write.

`unforgeable_iff` is when no adversary can make a value that stands for more than was granted and
not revoked: where every registered object was granted with all 32 rights and not revoked since, so
that there is nothing left to forge.
-/

namespace EynOS.Process.Capability

open Foundation

/-! ### The tag gives the secret away -/

/-- Undo `x ^= x >> 33`. -/
def unshift (x : UInt64) : UInt64 := x ^^^ x >>> 33

/-- The inverse of `cap_mix64`. -/
def unmix64 (x : UInt64) : UInt64 :=
  unshift (unshift (unshift x * 0x9cb4b2f8129337db) * 0x4f74430c22a54005)

/-- Shifting by 33 twice leaves nothing of 64 bits. -/
theorem unshift_unshift (x : UInt64) : unshift (unshift x) = x := by
  have hshift : (x >>> 33) >>> 33 = 0 := by
    apply UInt64.toNat_inj.mp
    have hamount : (33 : UInt64).toNat % 64 = 33 := by decide
    rw [UInt64.toNat_shiftRight, UInt64.toNat_shiftRight, hamount, Nat.shiftRight_eq_div_pow,
      Nat.shiftRight_eq_div_pow, Nat.div_div_eq_div_mul]
    exact Nat.div_eq_of_lt (x.toNat_lt.trans (by decide))
  unfold unshift
  rw [UInt64.shiftRight_xor, hshift, UInt64.xor_zero, UInt64.xor_assoc, UInt64.xor_self,
    UInt64.xor_zero]

theorem unmix64_capMix64 (x : UInt64) : unmix64 (capMix64 x) = x := by
  have hmix : capMix64 x =
      unshift (unshift (unshift x * 0xff51afd7ed558ccd) * 0xc4ceb9fe1a85ec53) := rfl
  have hfirst : (0xff51afd7ed558ccd : UInt64) * 0x4f74430c22a54005 = 1 := by decide
  have hsecond : (0xc4ceb9fe1a85ec53 : UInt64) * 0x9cb4b2f8129337db = 1 := by decide
  rw [hmix, unmix64, unshift_unshift, UInt64.mul_assoc, hsecond, UInt64.mul_one, unshift_unshift,
    UInt64.mul_assoc, hfirst, UInt64.mul_one, unshift_unshift]

def Cap.tag (cap : Cap) : UInt64 := cap.tagLo.toUInt64 ||| cap.tagHi.toUInt64 <<< 32

/-- The secret that a capability gives away. -/
def Cap.key (cap : Cap) : UInt64 :=
  unmix64 cap.tag ^^^ capFields cap.obj cap.type cap.rights cap.epoch

/-- A capability with chosen fields, computed from another one. -/
def forge (cap : Cap) (obj type rights epoch : UInt32) : Cap where
  obj := obj
  type := type
  rights := rights
  epoch := epoch
  tagLo := lowHalf (capMix64 (capFields obj type rights epoch ^^^ cap.key))
  tagHi := highHalf (capMix64 (capFields obj type rights epoch ^^^ cap.key))

/-- The calls that the kernel makes for its users. -/
inductive Call
  | mint (obj : UInt64) (type rights : UInt32)
  | revoke (obj : UInt64) (type : UInt32)
  deriving DecidableEq

/-- Perform a call. -/
def Ledger.step (secret : CapSecret) (ledger : Ledger) : Call → Ledger
  | .mint obj type rights => (ledger.mint secret obj type rights).2
  | .revoke obj type => ledger.revoke obj type

def ledgerAfter (secret : CapSecret) (calls : List Call) : Ledger :=
  calls.foldl (Ledger.step secret) .start

def returned (secret : CapSecret) (calls : List Call) : List Cap :=
  (ledgerAfter secret calls).issued.map Issued.cap

variable {secret : CapSecret} {registry : Registry} {cap value : Cap} {obj : UInt64}
  {type rights required : UInt32} {calls : List Call} {past : Issued}

theorem halves_tag (tag : UInt64) :
    (lowHalf tag).toUInt64 ||| (highHalf tag).toUInt64 <<< 32 = tag := by
  have hbound := tag.toNat_lt
  have hmask : (0xFFFFFFFF : UInt64).toNat = 2 ^ 32 - 1 := by decide
  have hamount : (32 : UInt64).toNat % 64 = 32 := by decide
  have hlow : (lowHalf tag).toNat = tag.toNat % 2 ^ 32 := by
    rw [lowHalf, UInt64.toNat_toUInt32, UInt64.toNat_and, hmask, Nat.and_two_pow_sub_one_eq_mod]
    exact Nat.mod_mod _ _
  have hhigh : (highHalf tag).toNat = tag.toNat / 2 ^ 32 := by
    rw [highHalf, UInt64.toNat_toUInt32, UInt64.toNat_and, UInt64.toNat_shiftRight, hmask, hamount,
      Nat.and_two_pow_sub_one_eq_mod, Nat.shiftRight_eq_div_pow]
    omega
  apply UInt64.toNat_inj.mp
  rw [UInt64.toNat_or, UInt64.toNat_shiftLeft, UInt32.toNat_toUInt64, UInt32.toNat_toUInt64, hlow,
    hhigh, hamount, Nat.shiftLeft_eq, Nat.or_comm, Nat.mod_eq_of_lt (by omega), Nat.mul_comm,
    ← Nat.two_pow_add_eq_or_of_lt (by omega)]
  omega

theorem Cap.Genuine.key_eq (hgenuine : cap.Genuine secret) : cap.key = secret.word := by
  rw [Cap.key, Cap.tag, hgenuine.1, hgenuine.2, halves_tag, capMakeTag, unmix64_capMix64,
    UInt64.xor_comm, ← UInt64.xor_assoc, UInt64.xor_self, UInt64.zero_xor]

theorem forge_eq_sealCap (hgenuine : cap.Genuine secret) (obj type rights epoch : UInt32) :
    forge cap obj type rights epoch = sealCap secret obj type rights epoch := by
  rw [forge, hgenuine.key_eq]
  rfl

/-! ### What was granted -/

theorem ledgerAfter_concat (call : Call) :
    ledgerAfter secret (calls ++ [call]) = (ledgerAfter secret calls).step secret call := by
  rw [ledgerAfter, List.foldl_append]
  rfl

/-- The calls keep track of what was minted. -/
theorem tracks_ledgerAfter (secret : CapSecret) (calls : List Call) :
    Tracks secret (ledgerAfter secret calls) := by
  induction calls using List.reverseRecOn with
  | nil => exact tracks_start secret
  | append_singleton calls call ih =>
    rw [ledgerAfter_concat]
    cases call with
    | mint obj type rights => exact ih.mint obj type rights
    | revoke obj type => exact ih.revoke obj type

/-- An object is registered where a capability for it was returned. -/
theorem exists_issued (hobj : obj ≠ 0) {epoch : UInt32}
    (hregistered : epochOf (ledgerAfter secret calls).registry obj type = some epoch) :
    ∃ past ∈ (ledgerAfter secret calls).issued,
      past.cap.obj.toUInt64 = obj ∧ past.cap.type = type := by
  induction calls using List.reverseRecOn generalizing epoch with
  | nil =>
    have hnone : capFindEntry obj type capInit = none :=
      List.find?_eq_none.mpr fun entry hentry ↦ by
        rw [List.eq_of_mem_replicate hentry, CapEntry.isFor_iff]
        exact fun hfor ↦ hobj hfor.1.symm
    rw [ledgerAfter, List.foldl_nil, epochOf, Ledger.start, hnone] at hregistered
    exact absurd hregistered (by simp)
  | append_singleton calls call ih =>
    rw [ledgerAfter_concat] at hregistered ⊢
    cases call with
    | mint other kind rights =>
      rcases capMint_cases secret other kind rights (ledgerAfter secret calls).registry with
        hrefused | ⟨obj32, after, -, -, hptr, hepoch, hminted⟩
      · simp only [Ledger.step, Ledger.mint, hrefused] at hregistered ⊢
        obtain ⟨past, hpast, hsame⟩ := ih hregistered
        exact ⟨past, List.mem_append_left _ hpast, hsame⟩
      · simp only [Ledger.step, Ledger.mint, hminted] at hregistered ⊢
        rw [hepoch obj type hobj] at hregistered
        split_ifs at hregistered with hnew
        · refine ⟨_, List.mem_append_right _ (List.mem_singleton.mpr rfl), ?_, hnew.2.symm⟩
          exact hptr.symm.trans hnew.1.symm
        · obtain ⟨past, hpast, hsame⟩ := ih hregistered
          exact ⟨past, List.mem_append_left _ hpast, hsame⟩
    | revoke other kind =>
      have hbefore : ∃ former, epochOf (ledgerAfter secret calls).registry obj type =
          some former := by
        simp only [Ledger.step, Ledger.revoke, capRevokeObject] at hregistered
        split_ifs at hregistered with hnull
        · exact ⟨epoch, hregistered⟩
        · rw [epochOf_advanceEpoch] at hregistered
          split_ifs at hregistered with hsame
          · obtain ⟨former, hformer, -⟩ := Option.map_eq_some_iff.mp hregistered
            exact ⟨former, by rw [hsame.1, hsame.2, hformer]⟩
          · exact ⟨epoch, hregistered⟩
      obtain ⟨former, hformer⟩ := hbefore
      obtain ⟨past, hpast, hsame⟩ := ih hformer
      exact ⟨_, List.mem_map_of_mem hpast, by rwa [Issued.count_cap]⟩

/-- Rights to an object were granted, and the object was not revoked since. -/
def Granted (secret : CapSecret) (calls : List Call) (obj : UInt64) (type required : UInt32) :
    Prop :=
  ∃ earlier rights later, calls = earlier ++ .mint obj type rights :: later ∧
    (capMint secret obj type rights (ledgerAfter secret earlier).registry).1.isSome ∧
      rights &&& required = required ∧ Call.revoke obj type ∉ later

def allRights : UInt32 := 0xFFFFFFFF

/-- Every registered object was granted with all rights and was not revoked since. -/
def AllGranted (secret : CapSecret) (calls : List Call) : Prop :=
  ∀ (obj : UInt64) (type epoch : UInt32), obj ≠ 0 →
    epochOf (ledgerAfter secret calls).registry obj type = some epoch →
      Granted secret calls obj type allRights

theorem and_and_of_subset {first second third : UInt32} (hsecond : first &&& second = second)
    (hthird : second &&& third = third) : first &&& third = third := by
  rw [← hthird, ← UInt32.and_assoc, hsecond]

/-- An adversary that gives chosen fields the tag computed from the first capability it has. -/
def forgeFor (obj type rights epoch : UInt32) : List Cap → Cap
  | [] => { obj := 0, type := 0, rights := 0, epoch := 0, tagLo := 0, tagHi := 0 }
  | cap :: _ => forge cap obj type rights epoch

/-- Where any capability was returned, the value is the one that the kernel would have sealed. -/
theorem forgeFor_returned (hpast : past ∈ (ledgerAfter secret calls).issued)
    (obj type rights epoch : UInt32) :
    forgeFor obj type rights epoch (returned secret calls) =
      sealCap secret obj type rights epoch := by
  have hgenuine : ∀ cap ∈ returned secret calls, cap.Genuine secret := by
    intro cap hcap
    obtain ⟨former, hformer, rfl⟩ := List.mem_map.mp hcap
    exact (tracks_ledgerAfter secret calls former hformer).2.2.1
  have hreturned : past.cap ∈ returned secret calls := List.mem_map_of_mem hpast
  cases hcaps : returned secret calls with
  | nil => exact absurd (hcaps ▸ hreturned) List.not_mem_nil
  | cons cap rest =>
    exact forge_eq_sealCap (hgenuine cap (by rw [hcaps]; exact List.mem_cons_self)) ..

/-- After some calls no adversary makes a value that stands for more than was granted and not
revoked since, exactly where every registered object was granted with all rights and not revoked
since: for every other object an adversary that does not know the secret makes one. -/
theorem unforgeable_iff (secret : CapSecret) (calls : List Call) :
    (∀ (adversary : List Cap → Cap) (obj : UInt64) (type required : UInt32),
      capValidate secret (ledgerAfter secret calls).registry (adversary (returned secret calls)) obj
        type required = true → Granted secret calls obj type required) ↔
      AllGranted secret calls := by
  constructor
  · intro hsafe obj type epoch hobj hregistered
    obtain ⟨past, hpast, rfl, rfl⟩ := exists_issued hobj hregistered
    have htype := (tracks_ledgerAfter secret calls past hpast).2.1
    refine hsafe (forgeFor past.cap.obj past.cap.type allRights epoch) _ _ _ ?_
    rw [forgeFor_returned hpast]
    exact capValidate_iff.mpr
      ⟨hobj, htype, rfl, rfl, UInt32.and_self, hregistered, ⟨rfl, rfl⟩⟩
  · intro hall adversary obj type required haccepted
    obtain ⟨hobj, -, -, -, -, hregistered, -⟩ := capValidate_iff.mp haccepted
    obtain ⟨earlier, rights, later, hcalls, hminted, hrights, hrevoked⟩ :=
      hall obj type _ hobj hregistered
    have hrequired : allRights &&& required = required := UInt32.neg_one_and
    exact ⟨earlier, rights, later, hcalls, hminted, and_and_of_subset hrights hrequired, hrevoked⟩

def readOnlyCalls : List Call := [.mint 0x1000 CAP_OBJ_USER_FD CAP_R_READ]

/-- Whatever the secret is, the holder of a right to read makes a capability for writing. -/
theorem not_unforgeable :
    ∃ (calls : List Call) (adversary : List Cap → Cap) (obj : UInt64) (type required : UInt32),
      ∀ secret : CapSecret,
        capValidate secret (ledgerAfter secret calls).registry (adversary (returned secret calls))
          obj type required = true ∧ ¬ Granted secret calls obj type required := by
  refine ⟨readOnlyCalls, forgeFor 0x1000 CAP_OBJ_USER_FD CAP_R_WRITE 1, 0x1000, CAP_OBJ_USER_FD,
    CAP_R_WRITE, fun secret ↦ ⟨?_, ?_⟩⟩
  · have hissued : ⟨sealCap secret 0x1000 CAP_OBJ_USER_FD CAP_R_READ 1, 0⟩ ∈
        (ledgerAfter secret readOnlyCalls).issued := List.mem_singleton.mpr rfl
    rw [forgeFor_returned hissued]
    exact capValidate_iff.mpr
      ⟨by decide, by decide, rfl, rfl, UInt32.and_self, rfl, ⟨rfl, rfl⟩⟩
  · rintro ⟨earlier, rights, later, hcalls, -, hrights, -⟩
    cases earlier with
    | nil =>
      obtain ⟨-, -, hread⟩ := Call.mint.inj (List.cons.inj hcalls).1
      rw [← hread] at hrights
      exact absurd hrights (by decide)
    | cons first rest => exact absurd (List.cons.inj hcalls).2 (by simp)

end EynOS.Process.Capability
