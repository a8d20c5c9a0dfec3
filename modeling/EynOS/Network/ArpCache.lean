import EynOS.Network.Checksum

/-!
# The ARP cache

`arp_cache` has four entries. `arp_cache_update` learns the hardware address of a sender,
`arp_cache_lookup` looks one up and drops the expired entries that it passes, and
`arp_age_timer_cb` drops all of them. `arp_resolve`, `arp_poll_reply_mac` and `net_poll` change the
cache by calls of the first two only.

Not modelled: sending the requests and replies, and the log.
-/

namespace EynOS.Network

open Foundation

/-- `arp_cache_entry`. -/
structure ArpEntry where
  ip : Ipv4Address
  mac : List UInt8
  valid : Bool
  lastSeenTick : UInt32

/-- What was learned at a time is too old at another. -/
def outdated (ttlTicks now lastSeenTick : UInt32) : Bool :=
  ttlTicks != 0 && decide (ttlTicks.toInt32 < (now - lastSeenTick).toInt32)

def ArpEntry.dropped (entry : ArpEntry) : ArpEntry := { entry with valid := false }

def arpCacheLookup (ttlTicks now : UInt32) (ip : Ipv4Address) :
    List ArpEntry → Option (List UInt8) × List ArpEntry
  | [] => (none, [])
  | entry :: entries =>
    if entry.valid = false then
      let (found, entries) := arpCacheLookup ttlTicks now ip entries
      (found, entry :: entries)
    else if outdated ttlTicks now entry.lastSeenTick then
      let (found, entries) := arpCacheLookup ttlTicks now ip entries
      (found, entry.dropped :: entries)
    else if entry.ip = ip then (some entry.mac, entry :: entries)
    else
      let (found, entries) := arpCacheLookup ttlTicks now ip entries
      (found, entry :: entries)

/-- The entry that `arp_cache_update` writes: the one of the address, or else the first that is not
valid, or else the first. -/
def arpCachePlace (ip : Ipv4Address) (entries : List ArpEntry) : ℕ :=
  match entries.findIdx? fun entry ↦ entry.valid && entry.ip == ip with
  | some place => place
  | none => (entries.findIdx? fun entry ↦ !entry.valid).getD 0

def arpCacheUpdate (now : UInt32) (ip : Ipv4Address) (mac : List UInt8) (entries : List ArpEntry) :
    List ArpEntry :=
  entries.set (arpCachePlace ip entries) ⟨ip, mac, true, now⟩

/-- `arp_age_timer_cb`: the cache, and whether the gateway is asked for its address again. -/
def arpAgeTimerCb (ttlTicks refreshTicks now : UInt32) (gatewayIp : Ipv4Address)
    (entries : List ArpEntry) : Bool × List ArpEntry :=
  let entries := entries.map fun entry ↦
    if entry.valid && outdated ttlTicks now entry.lastSeenTick then entry.dropped else entry
  (gatewayIp != ⟨0, 0, 0, 0⟩ &&
    match entries.find? fun entry ↦ entry.valid && entry.ip == gatewayIp with
    | none => false
    | some entry =>
      refreshTicks != 0 && decide (refreshTicks.toInt32 ≤ (now - entry.lastSeenTick).toInt32),
    entries)

/-! ### Runs -/

/-- What happens to the cache, each at a time and with the lifetimes that the clock's rate gives. -/
inductive ArpEvent
  | update (now : UInt32) (ip : Ipv4Address) (mac : List UInt8)
  | lookup (ttlTicks now : UInt32) (ip : Ipv4Address)
  | age (ttlTicks refreshTicks now : UInt32) (gatewayIp : Ipv4Address)

/-- The cache, with what was learned last of every address and when. -/
structure ArpState where
  entries : List ArpEntry
  latest : Ipv4Address → Option (List UInt8 × UInt32)

/-- The cache after `net_init`. -/
def ArpState.initial : ArpState where
  entries := List.replicate 4 ⟨⟨0, 0, 0, 0⟩, [], false, 0⟩
  latest := fun _ ↦ none

/-- One event. -/
def ArpState.step (state : ArpState) : ArpEvent → ArpState
  | .update now ip mac =>
    { entries := arpCacheUpdate now ip mac state.entries
      latest := Function.update state.latest ip (some (mac, now)) }
  | .lookup ttlTicks now ip =>
    { state with entries := (arpCacheLookup ttlTicks now ip state.entries).2 }
  | .age ttlTicks refreshTicks now gatewayIp =>
    { state with
      entries := (arpAgeTimerCb ttlTicks refreshTicks now gatewayIp state.entries).2 }

/-- There are four entries, no address has two valid ones, and the valid ones hold what was learned
last. -/
structure ArpState.Sound (state : ArpState) : Prop where
  length : state.entries.length = 4
  latest : ∃ place : Ipv4Address → ℕ, ∀ (i : ℕ) (entry : ArpEntry), state.entries[i]? = some entry →
    entry.valid = true → i = place entry.ip ∧
      state.latest entry.ip = some (entry.mac, entry.lastSeenTick)

variable {state : ArpState} {entries kept : List ArpEntry}

/-- The entries stay, or are not valid any more. -/
def Fades : List ArpEntry → List ArpEntry → Prop :=
  List.Forall₂ fun old new ↦ new = old ∨ new.valid = false

theorem fades_lookup (ttlTicks now : UInt32) (ip : Ipv4Address) (entries : List ArpEntry) :
    Fades entries (arpCacheLookup ttlTicks now ip entries).2 := by
  induction entries with
  | nil => exact .nil
  | cons entry entries ih =>
    unfold arpCacheLookup
    split_ifs
    · exact .cons (.inl rfl) ih
    · exact .cons (.inr rfl) ih
    · exact List.forall₂_same.mpr fun _ _ ↦ .inl rfl
    · exact .cons (.inl rfl) ih

/-- A cache whose entries fade stays sound. -/
theorem ArpState.Sound.fade (hsound : state.Sound) (hfades : Fades state.entries kept) :
    ArpState.Sound { state with entries := kept } := by
  obtain ⟨hlength, place, hlatest⟩ := hsound
  refine ⟨hfades.length_eq.symm.trans hlength, place, fun i entry hentry hvalid ↦ ?_⟩
  obtain ⟨hlt, rfl⟩ := List.getElem?_eq_some_iff.mp hentry
  have hlt' : i < state.entries.length := hfades.length_eq ▸ hlt
  rcases hfades.get hlt' hlt with hsame | hgone
  · exact hlatest i _ (List.getElem?_eq_some_iff.mpr ⟨hlt', hsame.symm⟩) hvalid
  · exact absurd (hgone.symm.trans hvalid) Bool.false_ne_true

/-- An update writes an entry, and no other valid entry is of its address. -/
theorem ArpState.Sound.place (hsound : state.Sound) (ip : Ipv4Address) :
    arpCachePlace ip state.entries < state.entries.length ∧
      ∀ (i : ℕ) (entry : ArpEntry), state.entries[i]? = some entry → entry.valid = true →
        entry.ip = ip → i = arpCachePlace ip state.entries := by
  obtain ⟨hlength, place, hlatest⟩ := hsound
  unfold arpCachePlace
  cases hfind : state.entries.findIdx? fun entry ↦ entry.valid && entry.ip == ip with
  | some found =>
    obtain ⟨hlt, hof, -⟩ := List.findIdx?_eq_some_iff_getElem.mp hfind
    simp only [Bool.and_eq_true, beq_iff_eq] at hof
    refine ⟨hlt, fun i entry hentry hvalid hip ↦ ?_⟩
    rw [(hlatest i entry hentry hvalid).1, hip,
      (hlatest found _ (List.getElem?_eq_getElem hlt) hof.1).1, hof.2]
  | none =>
    refine ⟨?_, fun i entry hentry hvalid hip ↦ ?_⟩
    · cases hfree : state.entries.findIdx? fun entry ↦ !entry.valid with
      | none => exact hlength ▸ Nat.zero_lt_succ 3
      | some free => exact (List.findIdx?_eq_some_iff_getElem.mp hfree).1
    · have hnot := List.findIdx?_eq_none_iff.mp hfind entry (List.mem_of_getElem? hentry)
      simp [hvalid, hip] at hnot

/-- An address is learned. -/
theorem ArpState.Sound.update (hsound : state.Sound) (now : UInt32) (ip : Ipv4Address)
    (mac : List UInt8) : (state.step (.update now ip mac)).Sound := by
  have honly := (hsound.place ip).2
  obtain ⟨hlength, place, hlatest⟩ := hsound
  refine ⟨(List.length_set).trans hlength,
    Function.update place ip (arpCachePlace ip state.entries), fun i entry hentry hvalid ↦ ?_⟩
  simp only [ArpState.step, arpCacheUpdate, List.getElem?_set] at hentry ⊢
  split_ifs at hentry with hplace
  · obtain rfl := Option.some.inj hentry
    refine ⟨?_, Function.update_self ..⟩
    rw [Function.update_self, hplace]
  · have hne : entry.ip ≠ ip := fun hip ↦ hplace (honly i entry hentry hvalid hip).symm
    rw [Function.update_of_ne hne, Function.update_of_ne hne]
    exact hlatest i entry hentry hvalid

/-- One event. -/
theorem ArpState.Sound.step (hsound : state.Sound) (event : ArpEvent) :
    (state.step event).Sound := by
  cases event with
  | update now ip mac => exact hsound.update now ip mac
  | lookup ttlTicks now ip => exact hsound.fade (fades_lookup ttlTicks now ip state.entries)
  | age ttlTicks refreshTicks now gatewayIp =>
    refine hsound.fade (List.forall₂_map_right_iff.mpr (List.forall₂_same.mpr fun entry _ ↦ ?_))
    split_ifs
    · exact .inr rfl
    · exact .inl rfl

theorem ArpState.sound_run (events : List ArpEvent) :
    (events.foldl ArpState.step .initial).Sound := by
  refine List.foldlRecOn events ArpState.step (motive := ArpState.Sound)
    ⟨rfl, fun _ ↦ 0, fun i entry hentry hvalid ↦ ?_⟩ fun _ hstate event _ ↦ hstate.step event
  rw [List.eq_of_mem_replicate (List.mem_of_getElem? hentry)] at hvalid
  exact absurd hvalid Bool.false_ne_true

/-- A lookup answers with a valid entry of the address that is not too old, and finds one if there
is one. -/
theorem lookup_spec (ttlTicks now : UInt32) (ip : Ipv4Address) (entries : List ArpEntry) :
    (∃ entry ∈ entries, entry.valid = true ∧ outdated ttlTicks now entry.lastSeenTick = false ∧
        entry.ip = ip ∧ (arpCacheLookup ttlTicks now ip entries).1 = some entry.mac) ∨
      (∀ entry ∈ entries, entry.valid = true → entry.ip = ip →
        outdated ttlTicks now entry.lastSeenTick = true) ∧
        (arpCacheLookup ttlTicks now ip entries).1 = none := by
  induction entries with
  | nil => exact .inr ⟨fun _ hmem ↦ absurd hmem List.not_mem_nil, rfl⟩
  | cons entry entries ih =>
    by_cases hhere : entry.valid = true ∧ outdated ttlTicks now entry.lastSeenTick = false ∧
        entry.ip = ip
    · refine .inl ⟨entry, List.mem_cons_self, hhere.1, hhere.2.1, hhere.2.2, ?_⟩
      simp [arpCacheLookup, hhere]
    · have hrest : (arpCacheLookup ttlTicks now ip (entry :: entries)).1 =
          (arpCacheLookup ttlTicks now ip entries).1 := by
        rw [arpCacheLookup]
        split_ifs with hinvalid hold hip
        · rfl
        · rfl
        · exact absurd ⟨eq_true_of_ne_false hinvalid, eq_false_of_ne_true hold, hip⟩ hhere
        · rfl
      rw [hrest]
      refine ih.imp ?_ ?_
      · rintro ⟨other, hmem, hother⟩
        exact ⟨other, List.mem_cons_of_mem _ hmem, hother⟩
      · refine And.imp_left fun hnone ↦ List.forall_mem_cons.mpr ⟨fun hvalid hip ↦ ?_, hnone⟩
        exact eq_true_of_ne_false fun hrecent ↦ hhere ⟨hvalid, hrecent, hip⟩

/-- As long as less than `2 ^ 31` ticks have passed since it was learned, what is older than the
lifetime is too old; the difference of the ticks is a signed number of 32 bits. -/
theorem outdated_iff {ttlTicks now learned : UInt32} (httl : ttlTicks.toNat < 2 ^ 31)
    (hage : (now - learned).toNat < 2 ^ 31) :
    outdated ttlTicks now learned = true ↔
      ttlTicks ≠ 0 ∧ ttlTicks.toNat < (now - learned).toNat := by
  rw [outdated, Bool.and_eq_true, bne_iff_ne, decide_eq_true_iff, Int32.lt_iff_toInt_lt,
    toInt_toInt32_of_lt httl, toInt_toInt32_of_lt hage, Int.ofNat_lt]

/-- After every run a lookup answers only with what was learned last of the address, and only while
that is not too old; and what is learned next is found exactly as long as it is not too old. Too old
is what is older than the lifetime, as long as less than `2 ^ 31` ticks have passed. -/
theorem lookup_latest (events : List ArpEvent) (ttlTicks now : UInt32) (ip : Ipv4Address) :
    let state := events.foldl ArpState.step .initial
    (∀ mac, (arpCacheLookup ttlTicks now ip state.entries).1 = some mac →
      ∃ learned, state.latest ip = some (mac, learned) ∧
        outdated ttlTicks now learned = false) ∧
    (∀ mac learned,
      (arpCacheLookup ttlTicks now ip (arpCacheUpdate learned ip mac state.entries)).1 =
        if outdated ttlTicks now learned then none else some mac) ∧
    ∀ learned, ttlTicks.toNat < 2 ^ 31 → (now - learned).toNat < 2 ^ 31 →
      (outdated ttlTicks now learned = true ↔
        ttlTicks ≠ 0 ∧ ttlTicks.toNat < (now - learned).toNat) := by
  have hsound := ArpState.sound_run events
  generalize events.foldl ArpState.step .initial = state at hsound
  refine ⟨fun mac hfound ↦ ?_, fun mac learned ↦ ?_, fun _ ↦ outdated_iff⟩
  · obtain ⟨entry, hmem, hvalid, hrecent, rfl, hanswer⟩ | ⟨-, hanswer⟩ :=
      lookup_spec ttlTicks now ip state.entries
    · obtain ⟨i, hi⟩ := List.mem_iff_getElem?.mp hmem
      obtain ⟨-, place, hlatest⟩ := hsound
      rw [← Option.some.inj (hanswer.symm.trans hfound)]
      exact ⟨_, (hlatest i entry hi hvalid).2, hrecent⟩
    · exact absurd (hanswer.symm.trans hfound) (Option.some_ne_none mac).symm
  · obtain ⟨entry, hmem, hvalid, hrecent, rfl, hanswer⟩ | ⟨hold, hanswer⟩ :=
      lookup_spec ttlTicks now ip (arpCacheUpdate learned ip mac state.entries)
    · obtain ⟨i, hi⟩ := List.mem_iff_getElem?.mp hmem
      obtain ⟨-, place, hlatest⟩ := hsound.update learned entry.ip mac
      have hsame := (hlatest i entry hi hvalid).2
      simp only [ArpState.step, Function.update_self, Option.some.injEq, Prod.mk.injEq] at hsame
      rw [hanswer, hsame.1, hsame.2, if_neg (by simp [hrecent])]
    · rw [hanswer, if_pos (hold ⟨ip, mac, true, learned⟩
        (List.mem_set (hsound.place ip).1 _) rfl rfl)]

end EynOS.Network
