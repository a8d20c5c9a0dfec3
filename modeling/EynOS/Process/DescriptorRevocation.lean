import EynOS.Process.DescriptorSteps

/-!
# Revoked capabilities for descriptors

A capability for a descriptor is live as long as the descriptor has the opening the capability was
minted for. `Linked` says that the registry knows: the object of a minted capability was revoked no
time since exactly where the capability is live. Every call keeps it (`Linked.respond`), and so,
with fewer than `2 ^ 32` revocations, `user_fd_from_cap` accepts a minted capability exactly where
it is live and has the rights (`revocation_final`).
-/

namespace EynOS.Process.Descriptors

open Foundation Capability

variable {table : FdTable} {secret : CapSecret} {state after : State} {fd oldfd newfd : Fd}
  {binding : Binding} {nonblock : Bool} {minted : Minted} {call : Call} {calls : List Call}

/-! ### Addresses -/

theorem FdTable.address_toNat (table : FdTable) (fd : Fd) :
    (table.address fd).toNat = table.base.toNat + fd * USER_FD_BYTES := by
  have hfits := table.fits
  have hfd : fd.val * USER_FD_BYTES ≤ USER_FD_MAX * USER_FD_BYTES :=
    Nat.mul_le_mul_right _ fd.isLt.le
  rw [FdTable.address, UInt64.toNat_ofNat']
  exact Nat.mod_eq_of_lt (by omega)

theorem FdTable.address_inj (hsame : table.address oldfd = table.address newfd) :
    oldfd = newfd := by
  have hnumbers := congrArg UInt64.toNat hsame
  rw [table.address_toNat, table.address_toNat, Nat.add_left_cancel_iff] at hnumbers
  exact Fin.ext (Nat.eq_of_mul_eq_mul_right (by decide) hnumbers)

/-- The index of the address of a descriptor. -/
theorem userFdIndexFromPtr_address (table : FdTable) (fd : Fd) :
    userFdIndexFromPtr table (table.address fd) = some fd := by
  have hbase : 0 < table.base.toNat := by
    refine Nat.pos_of_ne_zero fun hzero ↦ table.nonnull ?_
    exact UInt32.toNat_inj.mp hzero
  have haddress := table.address_toNat fd
  have hnonnull : table.address fd ≠ 0 := by
    intro hzero
    rw [hzero, UInt64.toNat_zero] at haddress
    omega
  have hoff : table.base.toNat + fd * USER_FD_BYTES - table.base.toNat = fd * USER_FD_BYTES := by
    omega
  have hlt : fd.val * USER_FD_BYTES < USER_FD_MAX * USER_FD_BYTES :=
    Nat.mul_lt_mul_of_pos_right fd.isLt (by decide)
  have hdiv : fd.val * USER_FD_BYTES / USER_FD_BYTES = fd := Nat.mul_div_left _ (by decide)
  rw [userFdIndexFromPtr, if_neg hnonnull, haddress, if_neg (by omega)]
  simp only [hoff, hdiv]
  rw [if_neg (not_not.mpr (Nat.mul_mod_left _ _)), dif_pos fd.isLt]

/-! ### Live capabilities -/

/-- The descriptor still has the opening that the capability was minted for. -/
def Minted.Live (state : State) (minted : Minted) : Prop :=
  (state.fds minted.fd).map UserFd.opening = some minted.opening

/-- Openings are numbered in order, and the object of a minted capability was revoked no time since
exactly where the capability is live. -/
structure Linked (table : FdTable) (secret : CapSecret) (state : State) : Prop where
  tracks : Tracks secret state.ledger
  fresh : ∀ fd ufd, state.fds fd = some ufd → ufd.opening < state.serial
  minted : ∀ minted ∈ state.minted, minted.opening < state.serial ∧
    minted.cap.obj.toUInt64 = table.address minted.fd ∧ minted.cap.type = CAP_OBJ_USER_FD ∧
      ∃ past ∈ state.ledger.issued, past.cap = minted.cap ∧
        (past.revocations = 0 ↔ minted.Live state)

section

variable (hlinked : Linked table secret state)

include hlinked

/-- A change to other tables. -/
theorem Linked.congr (hfds : after.fds = state.fds)
    (hledger : after.ledger = state.ledger) (hminted : after.minted = state.minted)
    (hserial : state.serial ≤ after.serial) : Linked table secret after where
  tracks := hledger ▸ hlinked.tracks
  fresh := fun fd ufd hfd ↦ (hlinked.fresh fd ufd (hfds ▸ hfd)).trans_le hserial
  minted := by
    intro minted hmem
    rw [hminted] at hmem
    obtain ⟨hopening, hobj, htype, past, hpast, hcap, hlive⟩ := hlinked.minted minted hmem
    refine ⟨hopening.trans_le hserial, hobj, htype, past, hledger ▸ hpast, hcap, ?_⟩
    rw [hlive, Minted.Live, Minted.Live, hfds]

/-- Binding a descriptor that is not used. -/
theorem Linked.bindFd (hunused : state.fds fd = none)
    (binding : Binding) (nonblock : Bool) :
    Linked table secret (state.bindFd fd binding nonblock) where
  tracks := hlinked.tracks
  fresh := by
    intro other ufd hother
    change Function.update state.fds fd _ other = some ufd at hother
    by_cases hsame : other = fd
    · rw [hsame, Function.update_self] at hother
      rw [← Option.some.inj hother]
      exact Nat.lt_succ_self _
    · rw [Function.update_of_ne hsame] at hother
      exact (hlinked.fresh other ufd hother).trans (Nat.lt_succ_self _)
  minted := by
    intro minted hmem
    obtain ⟨hopening, hobj, htype, past, hpast, hcap, hlive⟩ := hlinked.minted minted hmem
    refine ⟨hopening.trans (Nat.lt_succ_self _), hobj, htype, past, hpast, hcap, hlive.trans ?_⟩
    change _ ↔ (Function.update state.fds fd _ minted.fd).map UserFd.opening = _
    by_cases hsame : minted.fd = fd
    · rw [Minted.Live, hsame, Function.update_self, hunused, Option.map_none, Option.map_some,
        Option.some.injEq]
      exact iff_of_false (by simp) hopening.ne'
    · rw [Function.update_of_ne hsame]
      rfl

/-- The registry and the minted capabilities after a revocation of one descriptor's object. -/
theorem Linked.release (fd : Fd) :
    Linked table secret (userFdRelease table fd state) := by
  unfold userFdRelease
  cases hfd : state.fds fd with
  | none => exact hlinked
  | some ufd =>
    simp only
    constructor
    · change Tracks secret (releaseBinding _ _).ledger
      rw [releaseBinding_ledger]
      exact hlinked.tracks.revoke _ _
    · intro other found hother
      change Function.update (releaseBinding _ _).fds fd none other = some found at hother
      change found.opening < (releaseBinding _ _).serial
      rw [releaseBinding_fds] at hother
      rw [releaseBinding_serial]
      by_cases hsame : other = fd
      · rw [hsame, Function.update_self] at hother
        exact absurd hother (by simp)
      · rw [Function.update_of_ne hsame] at hother
        exact hlinked.fresh other found hother
    · intro minted hmem
      change minted ∈ (releaseBinding _ _).minted at hmem
      rw [releaseBinding_minted] at hmem
      obtain ⟨hopening, hobj, htype, past, hpast, hcap, hlive⟩ := hlinked.minted minted hmem
      refine ⟨?_, hobj, htype, past.count (table.address fd) CAP_OBJ_USER_FD, ?_, ?_, ?_⟩
      · change minted.opening < (releaseBinding _ _).serial
        rw [releaseBinding_serial]
        exact hopening
      · change _ ∈ (releaseBinding _ _).ledger.issued
        rw [releaseBinding_ledger]
        exact List.mem_map_of_mem hpast
      · rw [Issued.count_cap]
        exact hcap
      · change _ ↔ (Function.update (releaseBinding _ _).fds fd none minted.fd).map
          UserFd.opening = _
        rw [releaseBinding_fds, Issued.count, hcap, hobj, htype]
        by_cases hsame : minted.fd = fd
        · rw [if_pos ⟨by rw [hsame], rfl⟩, hsame, Function.update_self]
          simp
        · rw [if_neg fun h ↦ hsame (FdTable.address_inj h.1), Function.update_of_ne hsame]
          exact hlive

/-- Minting for another kind of object. -/
theorem Linked.mint (obj : UInt64) (type rights : UInt32) :
    Linked table secret
      { state with ledger := (state.ledger.mint secret obj type rights).2 } where
  tracks := hlinked.tracks.mint obj type rights
  fresh := hlinked.fresh
  minted := by
    intro minted hmem
    obtain ⟨hopening, hobj, htype, past, hpast, hcap, hlive⟩ := hlinked.minted minted hmem
    exact ⟨hopening, hobj, htype, past, List.mem_append_left _ hpast, hcap, hlive⟩

/-- Minting for a descriptor. -/
theorem Linked.mintFd {ufd : UserFd}
    (hfd : state.fds fd = some ufd) {granted : UInt32} {cap : Cap} {ledger : Ledger}
    (hsome : state.ledger.mint secret (table.address fd) CAP_OBJ_USER_FD granted =
      (some cap, ledger)) :
    Linked table secret
      { state with
        ledger := ledger
        minted := state.minted ++ [{ cap := cap, fd := fd, opening := ufd.opening }] } := by
  have hledger := hlinked.mint (table.address fd) CAP_OBJ_USER_FD granted
  rw [hsome] at hledger
  refine ⟨hledger.tracks, hledger.fresh, fun minted hmem ↦ ?_⟩
  rcases List.mem_append.mp hmem with hformer | hnew
  · exact hledger.minted minted hformer
  · rw [List.mem_singleton.mp hnew]
    have hminted : (capMint secret (table.address fd) CAP_OBJ_USER_FD granted
        state.ledger.registry).1 = some cap := congrArg Prod.fst hsome
    obtain ⟨hobj, htype, -⟩ := capMint_some hminted
    refine ⟨hlinked.fresh fd ufd hfd, hobj.symm, htype, ⟨cap, 0⟩, ?_, rfl, ?_⟩
    · have hissued := congrArg (fun result ↦ result.2.issued) hsome
      rw [← show _ = ledger.issued from hissued]
      refine List.mem_append_right _ (List.mem_map.mpr ⟨cap, ?_, rfl⟩)
      exact Option.mem_toList.mpr hminted
    · refine iff_of_true rfl ?_
      change (state.fds fd).map UserFd.opening = _
      rw [hfd]
      rfl

/-- Revoking an object that is not a descriptor. -/
theorem Linked.revokeGui (obj : UInt64) :
    Linked table secret
      { state with ledger := state.ledger.revoke obj CAP_OBJ_USER_GUI } where
  tracks := hlinked.tracks.revoke obj CAP_OBJ_USER_GUI
  fresh := hlinked.fresh
  minted := by
    intro minted hmem
    obtain ⟨hopening, hobj, htype, past, hpast, hcap, hlive⟩ := hlinked.minted minted hmem
    refine ⟨hopening, hobj, htype, _, List.mem_map_of_mem hpast, ?_, ?_⟩
    · rw [Issued.count_cap]
      exact hcap
    · rw [Issued.count, hcap, htype, if_neg fun h ↦ absurd h.2 (by decide)]
      exact hlive

end

/-! ### Calls -/

/-- A property of the tables that every part of a call keeps. -/
structure Kept (table : FdTable) (secret : CapSecret) (property : State → Prop) : Prop where
  congr : ∀ {state after : State}, property state → after.fds = state.fds →
    after.ledger = state.ledger → after.minted = state.minted → state.serial ≤ after.serial →
      property after
  bindFd : ∀ {state : State} {fd : Fd}, property state → state.fds fd = none →
    ∀ binding nonblock, property (state.bindFd fd binding nonblock)
  release : ∀ {state : State}, property state → ∀ fd, property (userFdRelease table fd state)
  mint : ∀ {state : State}, property state → ∀ obj type rights,
    property { state with ledger := (state.ledger.mint secret obj type rights).2 }
  mintFd : ∀ {state : State} {fd : Fd} {ufd : UserFd} {granted : UInt32} {cap : Cap}
    {ledger : Ledger}, property state → state.fds fd = some ufd →
      state.ledger.mint secret (table.address fd) CAP_OBJ_USER_FD granted = (some cap, ledger) →
        property
          { state with
            ledger := ledger
            minted := state.minted ++ [{ cap := cap, fd := fd, opening := ufd.opening }] }
  revokeGui : ∀ {state : State}, property state → ∀ obj,
    property { state with ledger := state.ledger.revoke obj CAP_OBJ_USER_GUI }

section Calls

variable {property : State → Prop} (hkept : Kept table secret property) (hstate : property state)

include hkept hstate

theorem Kept.userPipeAlloc (persistentFifo : Bool) (fifoPath : List UInt8) :
    property (userPipeAlloc persistentFifo fifoPath state).2 := by
  unfold Descriptors.userPipeAlloc
  split
  · exact hstate
  · exact hkept.congr hstate rfl rfl rfl (Nat.le_succ _)

theorem Kept.userPtyAlloc :
    property (userPtyAlloc state).2 := by
  unfold Descriptors.userPtyAlloc
  split
  · exact hstate
  · exact hkept.congr hstate rfl rfl rfl (Nat.le_succ _)

theorem Kept.syscallOpen (drive : ℕ) (path : List UInt8)
    (flags : UInt32) (onDisk : Bool) (stat : Option Bool) :
    property (syscallOpen drive path flags onDisk stat state).2 := by
  have hfound : property (userPipeGetOrCreateFifo path onDisk state).2 := by
    unfold userPipeGetOrCreateFifo
    split
    · exact hstate
    · split_ifs
      · exact hkept.userPipeAlloc hstate true path
      · exact hstate
  unfold Descriptors.syscallOpen
  split
  · rename_i id found hsome
    rw [hsome] at hfound
    unfold openFifo
    split
    · exact hfound
    · rename_i fd hfd
      refine hkept.congr (hkept.bindFd hfound (firstUnused_some hfd).2 (.pipe id (fifoEnd flags))
        (flags &&& OPEN_FLAG_NONBLOCK ≠ 0)) ?_ ?_ ?_ ?_
      · exact openBinding_fds
      · exact openBinding_ledger
      · exact openBinding_minted
      · exact openBinding_serial.ge
  · rename_i found hnone
    rw [hnone] at hfound
    unfold openFile
    split
    · exact hfound
    · split
      · exact hfound
      · rename_i fd hfd
        exact hkept.bindFd hfound (firstUnused_some hfd).2 _ _

theorem Kept.bindTwo {first second : Fd}
    (hfound : firstTwoUnused state = some (first, second)) (firstBinding secondBinding : Binding) :
    property ((state.bindFd first firstBinding false).bindFd second secondBinding false) := by
  obtain ⟨-, hlt, hfirst, hsecond⟩ := firstTwoUnused_some hfound
  refine hkept.bindFd (hkept.bindFd hstate hfirst _ _) ?_ _ _
  change Function.update state.fds first _ second = none
  rw [Function.update_of_ne (Fin.ne_of_gt hlt)]
  exact hsecond

theorem Kept.syscallPipe (copied : Bool) :
    property (syscallPipe table copied state).2 := by
  have hcreated : property (syscallKernelPipeCreate state).2 := by
    have halloc := hkept.userPipeAlloc hstate false []
    unfold syscallKernelPipeCreate
    split
    · exact hstate
    · rename_i id allocated hsome
      rw [hsome] at halloc
      split
      · exact hkept.congr halloc rfl rfl rfl le_rfl
      · rename_i readFd writeFd hfound
        exact hkept.congr (hkept.bindTwo halloc hfound _ _) rfl rfl rfl le_rfl
  unfold Descriptors.syscallPipe
  split
  · rename_i after hnone
    rw [hnone] at hcreated
    exact hcreated
  · rename_i readFd writeFd id after hsome
    rw [hsome] at hcreated
    split_ifs
    · exact hcreated
    · exact hkept.release (hkept.release hcreated readFd) writeFd

/-- Creating a terminal. -/
theorem Kept.syscallPtyOpen (copied : Bool) :
    property (syscallPtyOpen table copied state).2 := by
  have hcreated : property (syscallKernelPtyCreate state).2 := by
    have halloc := hkept.userPtyAlloc hstate
    unfold syscallKernelPtyCreate
    split
    · exact hstate
    · rename_i id allocated hsome
      rw [hsome] at halloc
      split
      · exact hkept.congr halloc rfl rfl rfl le_rfl
      · rename_i masterFd slaveFd hfound
        exact hkept.congr (hkept.bindTwo halloc hfound _ _) rfl rfl rfl le_rfl
  unfold Descriptors.syscallPtyOpen
  split
  · rename_i after hnone
    rw [hnone] at hcreated
    exact hcreated
  · rename_i masterFd slaveFd id after hsome
    rw [hsome] at hcreated
    split_ifs
    · exact hcreated
    · exact hkept.release (hkept.release hcreated masterFd) slaveFd

theorem Kept.userFdDuplicateInto (oldfd newfd : Fd) :
    property (userFdDuplicateInto table oldfd newfd state).2 := by
  have hreleased := hkept.release hstate newfd
  unfold Descriptors.userFdDuplicateInto
  split
  · exact hstate
  · split_ifs
    · exact hstate
    · exact hstate
    · simp only
      split
      · exact hreleased
      · rename_i src hsrc
        split_ifs
        · exact hreleased
        · have hunused : (userFdRelease table newfd state).fds newfd = none := by
            rw [userFdRelease_fds, Function.update_self]
          refine hkept.congr (hkept.bindFd hreleased hunused src.binding src.nonblock) ?_ ?_ ?_ ?_
          · exact openBinding_fds
          · exact openBinding_ledger
          · exact openBinding_minted
          · exact openBinding_serial.ge

/-- Releasing every descriptor. -/
theorem Kept.syscallResetUserFds :
    property (syscallResetUserFds table state) := by
  suffices hall : ∀ fds : List Fd, ∀ state, property state →
      property (fds.foldl (fun state fd ↦ userFdRelease table fd state) state) from
    hkept.congr (hall _ state hstate) rfl rfl rfl le_rfl
  intro fds
  induction fds with
  | nil => exact fun state hstate ↦ hstate
  | cons fd fds ih => exact fun state hstate ↦ ih _ (hkept.release hstate fd)

theorem Kept.syscallCapMintFd (fd : ℤ) (rights : UInt32)
    (copied : Bool) :
    property (syscallCapMintFd table secret fd rights copied state).2 := by
  unfold Descriptors.syscallCapMintFd
  split
  · exact hstate
  · rename_i fd _
    split
    · exact hstate
    · rename_i ufd hfd
      simp only
      generalize (if rights ≠ 0 then _ else _) = granted
      by_cases hzero : granted = 0
      · rw [if_pos hzero]
        exact hstate
      · rw [if_neg hzero]
        have hledger := hkept.mint hstate (table.address fd) CAP_OBJ_USER_FD granted
        split
        · rename_i ledger hnone
          rw [hnone] at hledger
          exact hledger
        · rename_i cap ledger hsome
          exact hkept.mintFd hstate hfd hsome

/-- Every call keeps what its parts keep. -/
theorem Kept.respond (call : Call) :
    property (respond table secret state call).2 := by
  cases call with
  | openPath drive path flags onDisk stat =>
    exact hkept.syscallOpen hstate drive path flags onDisk stat
  | pipe copied => exact hkept.syscallPipe hstate copied
  | ptyOpen copied => exact hkept.syscallPtyOpen hstate copied
  | dup fd =>
    change property (syscallDup table fd state).2
    unfold syscallDup
    split
    · exact hstate
    · split
      · exact hstate
      · exact hkept.userFdDuplicateInto hstate _ _
  | dup2 fd new =>
    change property (syscallDup2 table fd new state).2
    unfold syscallDup2
    split
    · exact hstate
    · split
      · exact hstate
      · split_ifs
        · exact hkept.congr hstate rfl rfl rfl le_rfl
        · exact hkept.userFdDuplicateInto hstate _ _
  | close fd =>
    change property (syscallClose table fd state).2
    unfold syscallClose
    split
    · exact hstate
    · split_ifs
      · exact hstate
      · exact hkept.release hstate _
  | reset => exact hkept.syscallResetUserFds hstate
  | read fd access dst maxlen interrupt =>
    change property (syscallRead access fd dst maxlen interrupt state).2
    unfold syscallRead
    split_ifs
    · exact hstate
    · exact hstate
    · split
      · exact hstate
      · exact hstate
      · rename_i ufd _
        cases ufd.binding <;> exact hkept.congr hstate rfl rfl rfl le_rfl
  | write fd access src len interrupt =>
    change property (syscallWrite access fd src len interrupt state).2
    unfold syscallWrite
    split_ifs
    · exact hstate
    · exact hstate
    · split
      · exact hstate
      · exact hstate
      · rename_i ufd _
        cases ufd.binding <;> exact hkept.congr hstate rfl rfl rfl le_rfl
  | capMintFd fd rights copied => exact hkept.syscallCapMintFd hstate fd rights copied
  | capFdClose cap =>
    change property (syscallCapFdClose table secret cap state).2
    unfold syscallCapFdClose
    split
    · exact hstate
    · split_ifs
      · exact hstate
      · exact hkept.release hstate _
  | capMintGui obj rights => exact hkept.mint hstate obj CAP_OBJ_USER_GUI rights
  | capRevokeGui obj => exact hkept.revokeGui hstate obj

end Calls

/-! ### Runs -/

/-- The tables after a call. -/
def State.step (table : FdTable) (secret : CapSecret) (state : State) (call : Call) : State :=
  (respond table secret state call).2

/-- Every call keeps the registry linked to the descriptors. -/
theorem linked_kept (table : FdTable) (secret : CapSecret) :
    Kept table secret (Linked table secret) where
  congr := Linked.congr
  bindFd := Linked.bindFd
  release := Linked.release
  mint := Linked.mint
  mintFd := fun hlinked hfd hsome ↦ hlinked.mintFd hfd hsome
  revokeGui := Linked.revokeGui

theorem linked_boot (table : FdTable) (secret : CapSecret) : Linked table secret .boot where
  tracks := tracks_start secret
  fresh := fun fd ufd hfd ↦ absurd hfd (by simp [State.boot])
  minted := fun minted hmem ↦ absurd hmem List.not_mem_nil

/-! ### Openings that ended -/

/-- A descriptor has not the opening any more, and no later opening gets its number. -/
def Ended (fd : Fd) (opening : ℕ) (state : State) : Prop :=
  opening < state.serial ∧ (state.fds fd).map UserFd.opening ≠ some opening

theorem userFdRelease_serial : (userFdRelease table fd state).serial = state.serial := by
  unfold userFdRelease
  split
  · rfl
  · exact releaseBinding_serial

/-- Every call keeps it. -/
theorem ended_kept (table : FdTable) (secret : CapSecret) (fd : Fd) (opening : ℕ) :
    Kept table secret (Ended fd opening) where
  congr := fun hended hfds _ _ hserial ↦ ⟨hended.1.trans_le hserial, hfds ▸ hended.2⟩
  bindFd := by
    intro state other hended _ binding nonblock
    refine ⟨hended.1.trans (Nat.lt_succ_self _), ?_⟩
    change (Function.update state.fds other _ fd).map UserFd.opening ≠ _
    by_cases hsame : fd = other
    · rw [hsame, Function.update_self]
      exact fun hnumber ↦ hended.1.ne' (Option.some.inj hnumber)
    · rw [Function.update_of_ne hsame]
      exact hended.2
  release := by
    intro state hended other
    refine ⟨userFdRelease_serial.symm ▸ hended.1, ?_⟩
    rw [userFdRelease_fds]
    by_cases hsame : fd = other
    · rw [hsame, Function.update_self]
      simp
    · rw [Function.update_of_ne hsame]
      exact hended.2
  mint := fun hended _ _ _ ↦ hended
  mintFd := fun hended _ _ ↦ hended
  revokeGui := fun hended _ ↦ hended

section Ended

variable {opening : ℕ} (hopening : opening < state.serial)

include hopening

theorem ended_release : Ended fd opening (userFdRelease table fd state) := by
  refine ⟨userFdRelease_serial.symm ▸ hopening, ?_⟩
  rw [userFdRelease_fds, Function.update_self]
  simp

/-- Putting another descriptor in its place ends it. -/
theorem ended_duplicateInto (hused : (state.fds oldfd).isSome) (hlarge : 2 < newfd.val)
    (hother : oldfd ≠ newfd) :
    Ended newfd opening (userFdDuplicateInto table oldfd newfd state).2 := by
  have hreleased : Ended newfd opening (userFdRelease table newfd state) := ended_release hopening
  have hkept := ended_kept table ⟨0, 0⟩ newfd opening
  obtain ⟨src, hsrc⟩ := Option.isSome_iff_exists.mp hused
  unfold userFdDuplicateInto
  simp only [hsrc]
  rw [if_neg (Nat.not_le_of_lt hlarge), if_neg hother]
  split
  · exact hreleased
  · split_ifs
    · exact hreleased
    · have hunused : (userFdRelease table newfd state).fds newfd = none := by
        rw [userFdRelease_fds, Function.update_self]
      exact hkept.congr (hkept.bindFd hreleased hunused _ _) openBinding_fds openBinding_ledger
        openBinding_minted openBinding_serial.ge

/-- Releasing every descriptor ends it. -/
theorem ended_reset : Ended fd opening (syscallResetUserFds table state) := by
  have hkept := ended_kept table ⟨0, 0⟩ fd opening
  have hall (fds : List Fd) : ∀ state : State, opening < state.serial →
      fd ∈ fds ∨ Ended fd opening state →
        Ended fd opening (fds.foldl (fun state fd ↦ userFdRelease table fd state) state) := by
    induction fds with
    | nil => exact fun state _ hnow ↦ hnow.resolve_left List.not_mem_nil
    | cons first fds ih =>
      intro state hopening hnow
      refine ih _ (userFdRelease_serial.symm ▸ hopening) ?_
      rcases hnow with hmem | hended
      · rcases List.mem_cons.mp hmem with rfl | hrest
        · exact .inr (ended_release hopening)
        · exact .inl hrest
      · exact .inr (hkept.release hended first)
  exact hkept.congr (hall _ state hopening (.inl (List.mem_finRange fd))) rfl rfl rfl le_rfl

end Ended

/-- A descriptor that is duplicated is used. -/
theorem dupSource_used {number : ℤ} (hsource : dupSource number state = some fd) :
    (state.fds fd).isSome := by
  unfold dupSource at hsource
  split at hsource
  · exact absurd hsource (by simp)
  · rename_i requested _
    generalize (if hstd : requested.val < 3 then state.stdio ⟨requested, hstd⟩ else requested) =
      oldfd at hsource
    by_cases hrefused : oldfd.val ≤ 2 ∨ (state.fds oldfd).isNone
    · rw [if_pos hrefused] at hsource
      exact absurd hsource (by simp)
    · rw [if_neg hrefused] at hsource
      rw [← Option.some.inj hsource]
      exact Option.isSome_iff_ne_none.mpr fun hnone ↦ hrefused (.inr (by rw [hnone]; rfl))

/-- A call ends the opening of a descriptor: it closes it, directly or by a capability, puts another
descriptor in its place, or closes all. -/
def Ends (table : FdTable) (secret : CapSecret) (state : State) (fd : Fd) : Call → Prop
  | .close number => fdIndex number = some fd ∧ 2 < fd.val
  | .dup2 number new => fdIndex new = some fd ∧ 2 < fd.val ∧
      ∃ oldfd, dupSource number state = some oldfd ∧ oldfd ≠ fd
  | .capFdClose cap => userFdFromCap table secret state cap CAP_R_CLOSE = some fd ∧ 2 < fd.val
  | .reset => True
  | _ => False

/-- What a call ends has ended after it. -/
theorem ended_step {opening : ℕ} (hopening : opening < state.serial)
    (hends : Ends table secret state fd call) :
    Ended fd opening (state.step table secret call) := by
  cases call with
  | close number =>
    obtain ⟨hnumber, hlarge⟩ := hends
    change Ended _ _ (syscallClose table number state).2
    unfold syscallClose
    rw [hnumber]
    simp only [if_neg (Nat.not_le_of_lt hlarge)]
    exact ended_release hopening
  | dup2 number new =>
    obtain ⟨hnumber, hlarge, oldfd, hsource, hother⟩ := hends
    change Ended _ _ (syscallDup2 table number new state).2
    unfold syscallDup2
    simp only [hsource, hnumber]
    rw [dif_neg (by omega)]
    exact ended_duplicateInto hopening (dupSource_used hsource) hlarge hother
  | capFdClose cap =>
    obtain ⟨hcap, hlarge⟩ := hends
    change Ended _ _ (syscallCapFdClose table secret cap state).2
    unfold syscallCapFdClose
    rw [hcap]
    simp only [if_neg (Nat.not_le_of_lt hlarge)]
    exact ended_release hopening
  | reset => exact ended_reset hopening
  | _ => exact hends.elim

/-- A capability is not live after a call that ends the opening it was minted for, nor after any
calls that follow. -/
theorem Linked.ends (hlinked : Linked table secret state) (hmem : minted ∈ state.minted)
    (hends : Ends table secret state minted.fd call)
    (hrun : Run (Moves (State.step table secret)) (state.step table secret call) calls after) :
    ¬ minted.Live after := by
  refine (hrun.invariant ?_ (ended_step (hlinked.minted minted hmem).1 hends)).2
  rintro before call after hbefore rfl
  exact (ended_kept table secret minted.fd minted.opening).respond hbefore call

/-- After any calls, with fewer than `2 ^ 32` revocations of an object, a capability for a
descriptor is not accepted where the descriptor was closed since it was minted, also when the
number was used again, and is accepted for the rights it has as long as the descriptor stays
open. -/
theorem revocation_final (hrun : Run (Moves (State.step table secret)) .boot calls state)
    (hfew : ∀ past ∈ state.ledger.issued, past.revocations < 2 ^ 32) :
    ∀ minted ∈ state.minted, ∀ required,
      (¬ minted.Live state → userFdFromCap table secret state minted.cap required = none) ∧
        (minted.Live state → minted.cap.rights &&& required = required →
          userFdFromCap table secret state minted.cap required = some minted.fd) := by
  have hlinked : Linked table secret state := by
    refine hrun.invariant ?_ (linked_boot table secret)
    rintro before call after hbefore rfl
    exact (linked_kept table secret).respond hbefore call
  intro minted hmem required
  obtain ⟨-, hobj, htype, past, hpast, hcap, hlive⟩ := hlinked.minted minted hmem
  have hvalid : capValidate secret state.ledger.registry past.cap past.cap.obj.toUInt64
      past.cap.type required = true ↔
        past.cap.rights &&& required = required ∧ past.revocations % 2 ^ 32 = 0 :=
    hlinked.tracks.validate_iff hpast
  rw [hcap, hobj, htype, Nat.mod_eq_of_lt (hfew past hpast)] at hvalid
  unfold userFdFromCap
  rw [hobj, userFdIndexFromPtr_address]
  simp only
  constructor
  · intro hdead
    split_ifs with hunused hrefused
    · rfl
    · rfl
    · rw [Bool.not_eq_false] at hrefused
      exact absurd (hlive.mp (hvalid.mp hrefused).2) hdead
  · intro halive hrights
    obtain ⟨ufd, hufd, -⟩ := Option.map_eq_some_iff.mp halive
    rw [hufd, hvalid.mpr ⟨hrights, hlive.mpr halive⟩]
    rfl

def placedTable : FdTable := { base := 0x100000, nonnull := by decide, fits := by decide }

/-- A capability is minted for a descriptor that is closed and used again, and one for its next
opening. -/
def reusedCalls : List Call :=
  [.openPath 0 [47, 97] 0 false (some false), .capMintFd 3 0 true, .close 3,
    .openPath 0 [47, 98] 0 false (some false), .capMintFd 3 0 true]

/-- The tables after these calls. -/
def reusedState : State := reusedCalls.foldl (State.step placedTable ⟨5, 7⟩) .boot

/-- Two capabilities are minted for the same number. The first one is refused whatever rights are
asked for, and the second one is accepted for the rights it has. -/
theorem revocation_final_reused :
    ∃ first second, reusedState.minted = [first, second] ∧ first.fd = second.fd ∧
      (∀ required,
        userFdFromCap placedTable ⟨5, 7⟩ reusedState first.cap required = none) ∧
      ∀ required, second.cap.rights &&& required = required →
        userFdFromCap placedTable ⟨5, 7⟩ reusedState second.cap required = some second.fd := by
  have hlength : reusedState.minted.length = 2 := by decide +kernel
  have hsame : (reusedState.minted.map Minted.fd) = [3, 3] := by decide +kernel
  have hlive : (reusedState.minted.map fun minted ↦
      decide ((reusedState.fds minted.fd).map UserFd.opening = some minted.opening)) =
        [false, true] := by
    decide +kernel
  obtain ⟨first, second, hminted⟩ := List.length_eq_two.mp hlength
  rw [hminted] at hsame hlive
  simp only [List.map_cons, List.map_nil, List.cons.injEq, and_true, decide_eq_false_iff_not,
    decide_eq_true_eq] at hsame hlive
  have hfew : ∀ past ∈ reusedState.ledger.issued, past.revocations < 2 ^ 32 := by decide +kernel
  have hrun : Run (Moves (State.step placedTable ⟨5, 7⟩)) .boot reusedCalls reusedState :=
    Run.of_foldl _ _ _
  have hfinal := revocation_final hrun hfew
  refine ⟨first, second, hminted, hsame.1.trans hsame.2.symm, fun required ↦ ?_, fun required ↦ ?_⟩
  · exact (hfinal first (by rw [hminted]; simp) required).1 hlive.1
  · exact (hfinal second (by rw [hminted]; simp) required).2 hlive.2

end EynOS.Process.Descriptors
