import EynOS.Network.NetstackSteps
import Mathlib.Data.List.Nodup

/-!
# Who owns a TCP socket

Beside the table, `Owned` records for every pool socket who may use it: a caller that opened or
accepted it, the listener for which it was opened by a SYN, or nobody after its owner has closed it.
`Sound` says that the backlogs name sockets in use that were opened for their listener, each in one
backlog only, and that a socket whose owner has closed it still waits for the end of its connection.
`backlog_owned` concludes for the runs in which no call takes a socket out of a backlog behind the
back of its listener, and no connection that its owner has closed comes to an end (`Respectful`):
nothing frees the slot of such a connection, as `not_backlog_owned` shows.
-/

namespace EynOS.Network.Netstack

open Foundation Tcp

/-! ### Owners -/

/-- Who may use a pool socket. -/
inductive Owner
  /-- The slot is free. -/
  | nobody
  /-- The caller that opened or accepted the socket. -/
  | caller
  /-- The listener for which the socket was opened by a SYN, until it is accepted. -/
  | backlog (listener : ℕ)
  /-- The owner has closed the socket, and its connection goes on. -/
  | closed
deriving DecidableEq

/-- The table with the owners of its sockets. -/
structure Owned where
  table : Table
  owner : ℕ → Owner

/-- The pool socket that a segment opens, with its listener. -/
def answers (table : Table) (segment : Tcp.Segment) : Option (ℕ × ℕ) :=
  if (demultiplex table segment).isSome ∨ hasFlag segment.flags flagSyn = false then none
  else
    match passiveId table segment.dstPort, listenerFor table segment.dstPort with
    | some (id, _), some listener => if id = legacySocketId then none else some (id, listener)
    | _, _ => none

/-- Who owns the sockets after an event, where their slots are in use. -/
def claims (table : Table) (owner : ℕ → Owner) : Event → ℕ → Owner
  | .openSocket =>
    match freeId table with
    | none => owner
    | some id => Function.update owner id .caller
  | .connect given opening =>
    match Event.opens table (.connect given opening) with
    | none => owner
    | some (id, _) => Function.update owner id .caller
  | .listen given =>
    match usedId table given with
    | none => owner
    | some id =>
      if (table id).listenPort ≠ 0 ∧ owner id = .closed then Function.update owner id .caller
      else owner
  | .accept given =>
    match acceptingId table given with
    | none => owner
    | some listener =>
      match (acceptOnce table listener).1 with
      | none => owner
      | some cand => Function.update owner cand .caller
  | .close _ _ given =>
    match anyId table given with
    | none => owner
    | some id =>
      if owner id = .caller then Function.update owner id .closed else owner
  | .arrival (.segment _ _ _ segment) =>
    match answers table segment with
    | none => owner
    | some (id, listener) => Function.update owner id (.backlog listener)
  | _ => owner

/-- The owners of the slots that are in use. -/
def Owned.of (table : Table) (owner : ℕ → Owner) : Owned where
  table := table
  owner := fun id ↦ if (table id).socket.inUse then owner id else .nobody

/-- One event. -/
def Owned.step (state : Owned) (event : Event) : Owned :=
  .of (Netstack.step state.table event) (claims state.table state.owner event)

/-- All slots are free. -/
def Owned.start : Owned where
  table := netInit
  owner := fun _ ↦ .nobody

/-! ### The invariant -/

/-- Backlogs and owners agree. -/
structure Sound (state : Owned) : Prop where
  entries : ∀ listener, ∀ cand ∈ (state.table listener).acceptBacklog,
    state.owner cand = .backlog listener ∧ cand ≠ listener ∧ listener < maxSockets
  once : ∀ listener, (state.table listener).acceptBacklog.Nodup
  used : ∀ id, state.owner id ≠ .nobody →
    0 < id ∧ id < maxSockets ∧ (state.table id).socket.inUse = true
  waits : ∀ id, state.owner id = .closed → (state.table id).socket.state = .finWait

variable {state : Owned} {table : Table} {owner : ℕ → Owner} {id listener cand : ℕ}
  {segment : Tcp.Segment}

theorem sound_start : Sound Owned.start where
  entries := fun _ _ hcand ↦ absurd hcand List.not_mem_nil
  once := fun _ ↦ List.nodup_nil
  used := fun _ howner ↦ absurd rfl howner
  waits := fun _ howner ↦ Owner.noConfusion howner

theorem Sound.entry (hsound : Sound state) (hcand : cand ∈ (state.table listener).acceptBacklog) :
    0 < cand ∧ cand < maxSockets ∧ (state.table cand).socket.inUse = true :=
  hsound.used cand (by rw [(hsound.entries listener cand hcand).1]; exact Owner.noConfusion)

/-- A slot that is free is in no backlog. -/
theorem Sound.not_mem_of_unused (hsound : Sound state)
    (hunused : (state.table id).socket.inUse = false) (listener : ℕ) :
    id ∉ (state.table listener).acceptBacklog := by
  intro hmem
  have hused := (hsound.entry hmem).2.2
  rw [hunused] at hused
  exact Bool.false_ne_true hused

/-- What is to be shown for the owners after an event. -/
theorem sound_of (hentries : ∀ listener, ∀ cand ∈ (table listener).acceptBacklog,
      (table cand).socket.inUse = true ∧ owner cand = .backlog listener ∧ cand ≠ listener ∧
        listener < maxSockets)
    (honce : ∀ listener, (table listener).acceptBacklog.Nodup)
    (hpool : ∀ id, (table id).socket.inUse = true → owner id ≠ .nobody →
      0 < id ∧ id < maxSockets)
    (hwaits : ∀ id, owner id = .closed → (table id).socket.inUse = true →
      (table id).socket.state = .finWait) : Sound (.of table owner) := by
  constructor
  · intro listener cand hcand
    obtain ⟨hused, howner, hne⟩ := hentries listener cand hcand
    exact ⟨(if_pos hused).trans howner, hne⟩
  · exact honce
  · intro id howner
    have hused : (table id).socket.inUse = true := by
      by_contra hunused
      exact howner (if_neg hunused)
    have hkept : owner id ≠ .nobody := by
      intro hnobody
      exact howner ((if_pos hused).trans hnobody)
    obtain ⟨hlow, hhigh⟩ := hpool id hused hkept
    exact ⟨hlow, hhigh, hused⟩
  · intro id howner
    have hused : (table id).socket.inUse = true := by
      by_contra hunused
      have hnobody : (Owned.of table owner).owner id = .nobody := if_neg hunused
      rw [hnobody] at howner
      exact Owner.noConfusion howner
    exact hwaits id ((if_pos hused).symm.trans howner) hused

section

variable (hsound : Sound state)

include hsound

/-- Backlogs stay or are emptied, slots stay in use, and connections that were closed go on. -/
theorem Sound.quiet (hbacklog : ∀ id, (table id).acceptBacklog = (state.table id).acceptBacklog ∨
      (table id).acceptBacklog = [])
    (hused : ∀ id, 0 < id → (state.table id).socket.inUse = true →
      (table id).socket.inUse = true)
    (hwaits : ∀ id, state.owner id = .closed → (table id).socket.state = .finWait) :
    Sound (.of table state.owner) := by
  have hmem (listener cand : ℕ) (hcand : cand ∈ (table listener).acceptBacklog) :
      cand ∈ (state.table listener).acceptBacklog := by
    rcases hbacklog listener with hsame | hempty
    · rwa [hsame] at hcand
    · rw [hempty] at hcand
      exact absurd hcand List.not_mem_nil
  refine sound_of ?_ ?_ ?_ fun id howner _ ↦ hwaits id howner
  · intro listener cand hcand
    obtain ⟨hlow, _, hcandUsed⟩ := hsound.entry (hmem listener cand hcand)
    obtain ⟨howner, hne⟩ := hsound.entries listener cand (hmem listener cand hcand)
    exact ⟨hused cand hlow hcandUsed, howner, hne⟩
  · intro listener
    rcases hbacklog listener with hsame | hempty
    · rw [hsame]
      exact hsound.once listener
    · rw [hempty]
      exact List.nodup_nil
  · intro id _ howner
    obtain ⟨hlow, hhigh, _⟩ := hsound.used id howner
    exact ⟨hlow, hhigh⟩

theorem Sound.same : Sound (.of state.table state.owner) :=
  hsound.quiet (fun _ ↦ Or.inl rfl) (fun _ _ hused ↦ hused) hsound.waits

/-- A slot that is in no backlog gets a new use and a new owner. -/
theorem Sound.reuse {endpoint : Endpoint}
    (hout : ∀ listener, id ∉ (state.table listener).acceptBacklog)
    (hlow : 0 < id) (hhigh : id < maxSockets) (hempty : endpoint.acceptBacklog = []) :
    Sound (.of (Function.update state.table id endpoint)
      (Function.update state.owner id .caller)) := by
  have hentry (listener : ℕ) : (Function.update state.table id endpoint listener).acceptBacklog =
      if listener = id then [] else (state.table listener).acceptBacklog := by
    rw [Function.update_apply]
    split_ifs
    · exact hempty
    · rfl
  refine sound_of ?_ ?_ ?_ ?_
  · intro listener cand hcand
    rw [hentry] at hcand
    split_ifs at hcand with hself
    · exact absurd hcand List.not_mem_nil
    · have hne : cand ≠ id := by
        rintro rfl
        exact hout listener hcand
      rw [Function.update_of_ne hne, Function.update_of_ne hne]
      exact ⟨(hsound.entry hcand).2.2, hsound.entries listener cand hcand⟩
  · intro listener
    rw [hentry]
    split_ifs
    · exact List.nodup_nil
    · exact hsound.once listener
  · intro other hused howner
    by_cases hother : other = id
    · rw [hother]
      exact ⟨hlow, hhigh⟩
    · rw [Function.update_of_ne hother] at howner
      obtain ⟨hlow, hhigh, _⟩ := hsound.used other howner
      exact ⟨hlow, hhigh⟩
  · intro other howner _
    by_cases hother : other = id
    · rw [hother, Function.update_self] at howner
      exact Owner.noConfusion howner
    · rw [Function.update_of_ne hother] at howner
      rw [Function.update_of_ne hother]
      exact hsound.waits other howner

/-- One endpoint changes, and its owner stays. -/
theorem Sound.change {endpoint : Endpoint}
    (hbacklog : endpoint.acceptBacklog = (state.table id).acceptBacklog ∨
      endpoint.acceptBacklog = [])
    (hused : 0 < id → (state.table id).socket.inUse = true → endpoint.socket.inUse = true)
    (hwaits : state.owner id = .closed → endpoint.socket.state = .finWait) :
    Sound (.of (Function.update state.table id endpoint) state.owner) := by
  refine hsound.quiet (fun other ↦ ?_) (fun other hlow hother ↦ ?_) fun other howner ↦ ?_
  · by_cases hsame : other = id
    · rw [hsame, Function.update_self]
      exact hbacklog
    · exact Or.inl (by rw [Function.update_of_ne hsame])
  · by_cases hsame : other = id
    · rw [hsame] at hlow hother ⊢
      rw [Function.update_self]
      exact hused hlow hother
    · rw [Function.update_of_ne hsame]
      exact hother
  · by_cases hsame : other = id
    · rw [hsame] at howner ⊢
      rw [Function.update_self]
      exact hwaits howner
    · rw [Function.update_of_ne hsame]
      exact hsound.waits other howner

theorem Sound.setSocket {socket : Socket}
    (hstays : Stays (state.table id).socket socket)
    (hwaits : state.owner id = .closed → socket.state = .finWait) :
    Sound (.of (state.table.setSocket id socket) state.owner) :=
  hsound.change (Or.inl rfl) (fun _ hused ↦ hstays.inUse_eq.trans hused) hwaits

theorem Sound.owner_legacy : state.owner legacySocketId = .nobody := by
  by_contra howner
  exact Nat.lt_irrefl _ (hsound.used legacySocketId howner).1

theorem Sound.changeLegacy {endpoint : Endpoint}
    (hbacklog : endpoint.acceptBacklog = (state.table legacySocketId).acceptBacklog ∨
      endpoint.acceptBacklog = []) :
    Sound (.of (Function.update state.table legacySocketId endpoint) state.owner) := by
  refine hsound.change hbacklog (fun hlow ↦ absurd hlow (Nat.lt_irrefl _)) fun howner ↦ ?_
  rw [hsound.owner_legacy] at howner
  exact Owner.noConfusion howner

/-- A socket whose owner has closed it sends nothing. -/
theorem Sound.sends (link timer : ℤ) (payload : List UInt8) :
    Sound (.of (tcpSocketSendImpl link timer state.table id payload).2.1 state.owner) := by
  have hwaits (howner : state.owner id = .closed) :
      (socketSendImpl link timer (state.table id).socket payload).2.1.state = .finWait := by
    have hstate := hsound.waits id howner
    unfold socketSendImpl
    rw [if_pos (by rw [hstate]; exact TcpState.noConfusion)]
    exact hstate
  exact hsound.setSocket (Stays.send link timer _ payload) hwaits

end

/-! ### Accepting -/

/-- The scan of a backlog takes entries out of it and clears their sockets, but for the one that it
returns. -/
structure Scanned (listener : ℕ) (old new : Table) (returned : Option ℕ) : Prop where
  sublist : (new listener).acceptBacklog.Sublist (old listener).acceptBacklog
  listener_eq : new listener =
    { old listener with acceptBacklog := (new listener).acceptBacklog }
  others : ∀ id, id ≠ listener → new id = old id ∨
    (id ∈ (old listener).acceptBacklog ∧ id ∉ (new listener).acceptBacklog ∧
      new id = Endpoint.cleared)
  returned : ∀ cand, returned = some cand → cand ∈ (old listener).acceptBacklog ∧
    cand ∉ (new listener).acceptBacklog ∧ new cand = old cand ∧
      (new cand).socket.state = .established

theorem Scanned.refl (listener : ℕ) (table : Table) : Scanned listener table table none where
  sublist := List.Sublist.refl _
  listener_eq := rfl
  others := fun _ _ ↦ Or.inl rfl
  returned := fun _ hreturned ↦ absurd hreturned (Option.some_ne_none _).symm

theorem dropEntry_apply (table : Table) (listener k other : ℕ) :
    dropEntry table listener k other =
      if other = listener then
        { table listener with acceptBacklog := (table listener).acceptBacklog.eraseIdx k }
      else table other :=
  setBacklog_apply ..

/-- An entry that was taken out is not in the backlog any more. -/
theorem not_mem_eraseIdx {backlog : List ℕ} {k : ℕ} (hnodup : backlog.Nodup)
    (hcand : backlog[k]? = some cand) : cand ∉ backlog.eraseIdx k := by
  obtain ⟨hk, hentry⟩ := List.getElem?_eq_some_iff.mp hcand
  have herased := hnodup.erase_getElem k hk
  rw [hentry] at herased
  rw [← herased]
  exact hnodup.not_mem_erase

/-- The entries of a backlog without repetitions are scanned. -/
theorem scanned_acceptScan (steps k : ℕ) (table : Table)
    (hself : listener ∉ (table listener).acceptBacklog)
    (hnodup : (table listener).acceptBacklog.Nodup)
    (hrange : ∀ cand ∈ (table listener).acceptBacklog, cand < maxSockets) :
    Scanned listener table (acceptScan listener steps k table).2
      (acceptScan listener steps k table).1 := by
  induction steps generalizing k table with
  | zero => exact Scanned.refl listener table
  | succ steps ih =>
    unfold acceptScan
    split
    · exact Scanned.refl listener table
    · rename_i cand hcand
      have hmem := List.mem_of_getElem? hcand
      have hne : cand ≠ listener := fun hsame ↦ hself (hsame ▸ hmem)
      have hdrop (base : Table) (hbase : base listener = table listener) :
          (dropEntry base listener k listener).acceptBacklog =
            (table listener).acceptBacklog.eraseIdx k := by
        rw [dropEntry_apply, if_pos rfl, hbase]
      rw [if_pos (hrange cand hmem)]
      split
      · rename_i hestablished
        dsimp only
        have hlistener := hdrop table rfl
        constructor
        · rw [hlistener]
          exact List.eraseIdx_sublist _ k
        · rw [hlistener, dropEntry_apply, if_pos rfl]
        · intro id hid
          exact Or.inl (by rw [dropEntry_apply, if_neg hid])
        · intro other hother
          obtain rfl := Option.some.inj hother
          rw [hlistener, dropEntry_apply, if_neg hne]
          exact ⟨hmem, not_mem_eraseIdx hnodup hcand, rfl, hestablished⟩
      · have hcleared : tcpSocketMetaClear table cand =
            Function.update table cand Endpoint.cleared := if_pos (hrange cand hmem)
        generalize hmid : dropEntry (tcpSocketMetaClear table cand) listener k = mid
        have hlistener : (mid listener).acceptBacklog =
            (table listener).acceptBacklog.eraseIdx k := by
          rw [← hmid]
          exact hdrop _ (by rw [hcleared, Function.update_of_ne hne.symm])
        have hmidListener : mid listener =
            { table listener with acceptBacklog := (mid listener).acceptBacklog } := by
          rw [hlistener, ← hmid, dropEntry_apply, if_pos rfl, hcleared,
            Function.update_of_ne hne.symm]
        have hmidOther (id : ℕ) (hid : id ≠ listener) :
            mid id = if id = cand then Endpoint.cleared else table id := by
          rw [← hmid, dropEntry_apply, if_neg hid, hcleared, Function.update_apply]
        have hsublist : (mid listener).acceptBacklog.Sublist (table listener).acceptBacklog := by
          rw [hlistener]
          exact List.eraseIdx_sublist _ k
        obtain ⟨hrest, hlistenerEq, hothers, hreturned⟩ := ih k mid
          (fun hmem ↦ hself (hsublist.subset hmem)) (hsublist.nodup hnodup)
          fun other hother ↦ hrange other (hsublist.subset hother)
        have hout : cand ∉ (mid listener).acceptBacklog := by
          rw [hlistener]
          exact not_mem_eraseIdx hnodup hcand
        constructor
        · exact hrest.trans hsublist
        · rw [hlistenerEq, hmidListener]
        · intro id hid
          by_cases hsame : id = cand
          · subst hsame
            refine Or.inr ⟨hmem, fun hlater ↦ hout (hrest.subset hlater), ?_⟩
            rcases hothers id hid with hkept | ⟨_, _, hclear⟩
            · rw [hkept, hmidOther id hid, if_pos rfl]
            · exact hclear
          · have hentry := hmidOther id hid
            rw [if_neg hsame] at hentry
            rw [← hentry]
            rcases hothers id hid with hkept | ⟨hin, hgone, hclear⟩
            · exact Or.inl hkept
            · exact Or.inr ⟨hsublist.subset hin, hgone, hclear⟩
        · intro other hother
          obtain ⟨hin, hgone, hkept, hestablished⟩ := hreturned other hother
          have hotherNe : other ≠ listener := fun hsame ↦ hself (hsame ▸ hsublist.subset hin)
          have hotherCand : other ≠ cand := fun hsame ↦ hout (hsame ▸ hin)
          have hentry := hmidOther other hotherNe
          rw [if_neg hotherCand] at hentry
          exact ⟨hsublist.subset hin, hgone, hkept.trans hentry, hestablished⟩
      · exact ih (k + 1) table hself hnodup hrange
      · exact ih (k + 1) table hself hnodup hrange
      · exact ih (k + 1) table hself hnodup hrange

theorem Sound.acceptOnce (hsound : Sound state) (listener : ℕ) :
    Scanned listener state.table (acceptOnce state.table listener).2
      (acceptOnce state.table listener).1 :=
  scanned_acceptScan _ 0 state.table
    (fun hmem ↦ (hsound.entries listener listener hmem).2.1 rfl) (hsound.once listener)
    fun _ hcand ↦ (hsound.entry hcand).2.1

/-- A scan keeps backlogs and owners in agreement, where the socket that it returns gets a caller as
its owner. -/
theorem Sound.scanned (hsound : Sound state) {returned : Option ℕ}
    (hscanned : Scanned listener state.table table returned) (howner : ∀ id, owner id =
      if returned = some id then .caller else state.owner id) : Sound (.of table owner) := by
  have hbacklog (other : ℕ) : (table other).acceptBacklog.Sublist
      (state.table other).acceptBacklog := by
    by_cases hother : other = listener
    · rw [hother]
      exact hscanned.sublist
    · rcases hscanned.others other hother with hkept | ⟨_, _, hclear⟩
      · rw [hkept]
      · rw [hclear]
        exact List.nil_sublist _
  have hkept (id : ℕ) (hused : (table id).socket.inUse = true) :
      (table id).socket = (state.table id).socket := by
    by_cases hid : id = listener
    · rw [hid, hscanned.listener_eq]
    · rcases hscanned.others id hid with hsame | ⟨_, _, hclear⟩
      · rw [hsame]
      · rw [hclear] at hused
        exact absurd hused Bool.false_ne_true
  refine sound_of ?_ ?_ ?_ ?_
  · intro other cand hcand
    have hold := (hbacklog other).subset hcand
    obtain ⟨hcandOwner, hne⟩ := hsound.entries other cand hold
    have hnotReturned : returned ≠ some cand := by
      intro hreturned
      obtain ⟨hin, hgone, _⟩ := hscanned.returned cand hreturned
      have hsame := (hsound.entries listener cand hin).1
      rw [hcandOwner, Owner.backlog.injEq] at hsame
      exact hgone (hsame ▸ hcand)
    refine ⟨?_, by rw [howner, if_neg hnotReturned]; exact hcandOwner, hne⟩
    by_cases hlistener : cand = listener
    · rw [hlistener, hscanned.listener_eq]
      exact hlistener ▸ (hsound.entry hold).2.2
    · rcases hscanned.others cand hlistener with hsame | ⟨hin, hgone, _⟩
      · rw [hsame]
        exact (hsound.entry hold).2.2
      · -- a socket that was cleared is in no backlog any more
        have hsame := (hsound.entries listener cand hin).1
        rw [hcandOwner, Owner.backlog.injEq] at hsame
        exact absurd (hsame ▸ hcand) hgone
  · exact fun other ↦ (hbacklog other).nodup (hsound.once other)
  · intro id _ hid
    rw [howner] at hid
    split_ifs at hid with hreturned
    · obtain ⟨hlow, hhigh, _⟩ := hsound.entry (hscanned.returned id hreturned).1
      exact ⟨hlow, hhigh⟩
    · obtain ⟨hlow, hhigh, _⟩ := hsound.used id hid
      exact ⟨hlow, hhigh⟩
  · intro id hid hused
    rw [howner] at hid
    split_ifs at hid
    rw [hkept id hused]
    exact hsound.waits id hid

/-! ### Closing -/

/-- The candidates of a listener that is not one of them are cleared. -/
theorem reclaim_apply (backlog : List ℕ) (table : Table) (hself : listener ∉ backlog)
    (hrange : ∀ cand ∈ backlog, cand < maxSockets) (id : ℕ) :
    reclaim listener backlog table id = if id ∈ backlog then Endpoint.cleared else table id := by
  induction backlog generalizing table with
  | nil => rw [if_neg List.not_mem_nil]; rfl
  | cons cand rest ih =>
    have hcand := hrange cand List.mem_cons_self
    have hne : cand ≠ listener := fun hsame ↦ hself (hsame ▸ List.mem_cons_self)
    have hentry : tcpSocketMetaClear (tcpSocketRetxCancel table cand) cand id =
        if id = cand then Endpoint.cleared else table id := by
      rw [tcpSocketMetaClear, if_pos hcand, Function.update_apply, tcpSocketRetxCancel,
        if_pos hcand]
      split_ifs with hid
      · rfl
      · rw [setSocket_apply, if_neg hid]
    unfold reclaim
    dsimp only
    rw [if_neg hne, ih _ (fun hmem ↦ hself (List.mem_cons_of_mem _ hmem))
      fun other hother ↦ hrange other (List.mem_cons_of_mem _ hother), hentry]
    by_cases hid : id = cand
    · subst hid
      simp
    · simp [hid]

/-- A pool socket that is not established is cleared with its candidates. -/
theorem Sound.close_apply (hsound : Sound state) (link timer : ℤ) (hhigh : id < maxSockets)
    (hpool : id ≠ legacySocketId)
    (hestablished : (state.table id).socket.state ≠ .established) (other : ℕ) :
    (tcpSocketCloseImpl link timer state.table id).1 other =
      if other = id ∨ other ∈ (state.table id).acceptBacklog then Endpoint.cleared
      else state.table other := by
  unfold tcpSocketCloseImpl
  dsimp only
  rw [if_neg hestablished, if_neg hpool, tcpSocketMetaClear, if_pos hhigh]
  dsimp only
  rw [Function.update_apply]
  by_cases hid : other = id
  · rw [if_pos hid, if_pos (Or.inl hid)]
  · rw [if_neg hid, reclaim_apply _ _ (fun hmem ↦ (hsound.entries id id hmem).2.1 rfl)
      fun cand hcand ↦ (hsound.entry hcand).2.1, tcpSocketRetxCancel, if_pos hhigh, setSocket_apply,
      if_neg hid]
    simp only [hid, false_or]

/-- A pool socket that is in no backlog and not established is closed. -/
theorem Sound.closes (hsound : Sound state) (link timer : ℤ) (hhigh : id < maxSockets)
    (hpool : id ≠ legacySocketId)
    (hestablished : (state.table id).socket.state ≠ .established)
    (hout : ∀ listener, id ∉ (state.table listener).acceptBacklog)
    (howner : ∀ other, other ≠ id → owner other = state.owner other) :
    Sound (.of (tcpSocketCloseImpl link timer state.table id).1 owner) := by
  have hentry := hsound.close_apply link timer hhigh hpool hestablished
  generalize (tcpSocketCloseImpl link timer state.table id).1 = table at hentry
  have hkept (other : ℕ) (hused : (table other).socket.inUse = true) :
      table other = state.table other := by
    rw [hentry] at hused ⊢
    split_ifs at hused ⊢ with hcleared
    · exact absurd hused Bool.false_ne_true
    · rfl
  have hother (other : ℕ) (hused : (table other).socket.inUse = true) :
      owner other = state.owner other := by
    refine howner other ?_
    rintro rfl
    rw [hentry, if_pos (Or.inl rfl)] at hused
    exact Bool.false_ne_true hused
  refine sound_of ?_ ?_ ?_ ?_
  · intro listener cand hcand
    rw [hentry] at hcand
    split_ifs at hcand with hcleared
    · exact absurd hcand List.not_mem_nil
    · have hstays : ¬(cand = id ∨ cand ∈ (state.table id).acceptBacklog) := by
        rintro (rfl | hmem)
        · exact hout listener hcand
        · have hsame := (hsound.entries id cand hmem).1
          rw [(hsound.entries listener cand hcand).1, Owner.backlog.injEq] at hsame
          exact hcleared (Or.inl hsame)
      have hcandNe : cand ≠ id := fun hsame ↦ hstays (Or.inl hsame)
      rw [hentry, if_neg hstays, howner cand hcandNe]
      exact ⟨(hsound.entry hcand).2.2, hsound.entries listener cand hcand⟩
  · intro listener
    rw [hentry]
    split_ifs
    · exact List.nodup_nil
    · exact hsound.once listener
  · intro other hused hotherOwner
    rw [hother other hused] at hotherOwner
    obtain ⟨hlow, hhigh, _⟩ := hsound.used other hotherOwner
    exact ⟨hlow, hhigh⟩
  · intro other hclosed hused
    rw [hother other hused] at hclosed
    rw [hkept other hused]
    exact hsound.waits other hclosed

/-- A connection that is established goes on when its socket is closed. -/
theorem Sound.finishes (hsound : Sound state) (link timer : ℤ)
    (hestablished : (state.table id).socket.state = .established) :
    Sound (.of (tcpSocketCloseImpl link timer state.table id).1
      (if state.owner id = .caller then Function.update state.owner id .closed
        else state.owner)) := by
  have hstays := Stays.retxArm timer (state.table id).socket (flagFin ||| flagAck)
    (state.table id).socket.seq (state.table id).socket.ack []
  have hclosing : (tcpSocketCloseImpl link timer state.table id).1 =
      Function.update state.table id
        { state.table id with
          socket := (socketCloseImpl link timer (state.table id).socket).1, listening :=
            false } := by
    unfold tcpSocketCloseImpl
    dsimp only
    rw [if_pos hestablished]
  have hfinWait : (socketCloseImpl link timer (state.table id).socket).1.state = .finWait := by
    unfold socketCloseImpl
    rw [if_pos hestablished]
  have hused : (socketCloseImpl link timer (state.table id).socket).1.inUse =
      (state.table id).socket.inUse := by
    unfold socketCloseImpl
    rw [if_pos hestablished]
    exact hstays.inUse_eq
  rw [hclosing]
  split_ifs with howner
  · refine sound_of ?_ ?_ ?_ ?_
    · intro listener cand hcand
      have hold : cand ∈ (state.table listener).acceptBacklog := by
        rw [Function.update_apply] at hcand
        split_ifs at hcand with hsame
        · rw [hsame]
          exact hcand
        · exact hcand
      obtain ⟨hcandOwner, hne⟩ := hsound.entries listener cand hold
      have hcandNe : cand ≠ id := by
        rintro rfl
        rw [howner] at hcandOwner
        exact Owner.noConfusion hcandOwner
      rw [Function.update_of_ne hcandNe, Function.update_of_ne hcandNe]
      exact ⟨(hsound.entry hold).2.2, hcandOwner, hne⟩
    · intro listener
      rw [Function.update_apply]
      split_ifs with hsame
      · exact hsound.once id
      · exact hsound.once listener
    · intro other _ hother
      have hold : state.owner other ≠ .nobody := by
        by_cases hsame : other = id
        · rw [hsame, howner]
          exact Owner.noConfusion
        · rwa [Function.update_of_ne hsame] at hother
      obtain ⟨hlow, hhigh, _⟩ := hsound.used other hold
      exact ⟨hlow, hhigh⟩
    · intro other hother _
      by_cases hsame : other = id
      · rw [hsame, Function.update_self]
        exact hfinWait
      · rw [Function.update_of_ne hsame] at hother ⊢
        exact hsound.waits other hother
  · exact hsound.change (Or.inl rfl) (fun _ hold ↦ hused.trans hold) fun _ ↦ hfinWait

/-! ### What arrives -/

/-- A segment ends a connection whose socket was closed: a reset, a FIN in order, or without a FIN
any acknowledgement. -/
def EndsWait (socket : Socket) (segment : Tcp.Segment) : Prop :=
  hasFlag segment.flags flagRst = true ∨
    if hasFlag segment.flags flagFin = true then
      Fits socket segment ∨ u32 (segment.seq + segment.payload.length) = socket.ack
    else hasFlag segment.flags flagAck = true

instance (socket : Socket) (segment : Tcp.Segment) : Decidable (EndsWait socket segment) :=
  inferInstanceAs (Decidable (_ ∨ _))

/-- A segment that does not end the connection leaves it waiting. -/
theorem receiveSegment_waits (link : ℤ) {socket : Socket} (hstate : socket.state = .finWait)
    (hends : ¬EndsWait socket segment) :
    (receiveSegment link socket segment).1.state = .finWait := by
  obtain ⟨hreset, hgoes⟩ := not_or.mp hends
  generalize hbefore : (if hasFlag segment.flags flagAck = true then
    socketRetxAckReceived socket segment.ack else socket) = before
  have hsame : before.state = .finWait ∧ before.ack = socket.ack ∧ before.rxq = socket.rxq := by
    rw [← hbefore]
    split_ifs
    · unfold socketRetxAckReceived
      split_ifs
      · exact ⟨hstate, rfl, rfl⟩
      · exact ⟨hstate, rfl, rfl⟩
      · exact ⟨hstate, rfl, rfl⟩
    · exact ⟨hstate, rfl, rfl⟩
  have hpayloadState : (receivePayload link before segment).1.state = before.state := by
    rcases receivePayload_cases link before segment
      with ⟨_, hpayload⟩ | ⟨_, rxq, packet, _, _, hpayload⟩
    · rw [hpayload]
    · rw [hpayload]
  have hreceived : (receiveSegment link socket segment).1 =
      (receiveFin link (receivePayload link before segment).1 segment).1 := by
    unfold receiveSegment
    rw [if_neg hreset, hstate]
    dsimp only
    rw [hbefore]
  rw [hreceived]
  unfold receiveFin
  by_cases hfin : hasFlag segment.flags flagFin = true
  · rw [if_pos hfin] at hgoes ⊢
    obtain ⟨hfits, horder⟩ := not_or.mp hgoes
    have hbeforeFits : ¬Fits before segment := by
      unfold Fits at hfits ⊢
      rw [hsame.2.1, hsame.2.2]
      exact hfits
    have hpayloadAck : (receivePayload link before segment).1.ack = socket.ack := by
      rcases receivePayload_cases link before segment with ⟨_, hpayload⟩ | ⟨hfits, _⟩
      · rw [hpayload, hsame.2.1]
      · exact absurd hfits hbeforeFits
    rw [hpayloadAck, if_neg horder]
    exact hpayloadState.trans hsame.1
  · rw [if_neg hfin] at hgoes ⊢
    rw [if_neg fun hboth ↦ hgoes hboth.2]
    exact hpayloadState.trans hsame.1

/-- A timer that has not run out leaves a connection waiting. -/
theorem retxTimerCb_waits (link : ℤ) {socket : Socket} (hstate : socket.state = .finWait)
    (htries : ¬(socket.retxActive = true ∧ retxMaxAttempts ≤ socket.retxCount)) :
    (retxTimerCb link socket).1.state = .finWait := by
  unfold retxTimerCb
  split_ifs with hactive hclosed hcount
  · exact hstate
  · rw [hstate] at hclosed
    exact TcpState.noConfusion hclosed
  · exact absurd ⟨Bool.eq_true_of_not_eq_false hactive, hcount⟩ htries
  · exact hstate
  · exact hstate

/-- A SYN puts a free slot into the backlog of its listener. -/
theorem Sound.answered (hsound : Sound state) (endpoint : Endpoint) (hlow : 0 < id)
    (hhigh : id < maxSockets) (hunused : (state.table id).socket.inUse = false)
    (hne : listener ≠ id) (hlistener : listener < maxSockets)
    (hinUse : endpoint.socket.inUse = true) (hempty : endpoint.acceptBacklog = [])
    (htable : ∀ other, table other = if other = id then endpoint
      else if other = listener then
        { state.table listener with
          acceptBacklog := (state.table listener).acceptBacklog ++ [id] }
      else state.table other) :
    Sound (.of table (Function.update state.owner id (.backlog listener))) := by
  have hout := hsound.not_mem_of_unused hunused
  have hbacklog (other : ℕ) : (table other).acceptBacklog = if other = id then []
      else if other = listener then (state.table listener).acceptBacklog ++ [id]
      else (state.table other).acceptBacklog := by
    rw [htable]
    split_ifs
    · exact hempty
    · rfl
    · rfl
  have hsocket (other : ℕ) (hother : other ≠ id) :
      (table other).socket = (state.table other).socket := by
    rw [htable, if_neg hother]
    split_ifs with hsame
    · rw [hsame]
    · rfl
  have hself : (table id).socket.inUse = true := by
    rw [htable, if_pos rfl]
    exact hinUse
  have hold (other cand : ℕ) (hcand : cand ∈ (state.table other).acceptBacklog) :
      (table cand).socket.inUse = true ∧
        Function.update state.owner id (.backlog listener) cand = .backlog other ∧ cand ≠ other ∧
          other < maxSockets := by
    have hcandNe : cand ≠ id := fun hsame ↦ hout other (hsame ▸ hcand)
    rw [hsocket cand hcandNe, Function.update_of_ne hcandNe]
    exact ⟨(hsound.entry hcand).2.2, hsound.entries other cand hcand⟩
  refine sound_of ?_ ?_ ?_ ?_
  · intro other cand hcand
    rw [hbacklog] at hcand
    split_ifs at hcand with hotherId hother
    · exact absurd hcand List.not_mem_nil
    · rw [List.mem_append, List.mem_singleton] at hcand
      subst hother
      rcases hcand with hcand | rfl
      · exact hold other cand hcand
      · exact ⟨hself, Function.update_self .., hne.symm, hlistener⟩
    · exact hold other cand hcand
  · intro other
    rw [hbacklog]
    split_ifs
    · exact List.nodup_nil
    · refine List.Nodup.append (hsound.once listener) (List.nodup_singleton id) ?_
      intro cand hcand hlast
      rw [List.mem_singleton] at hlast
      exact hout listener (hlast ▸ hcand)
    · exact hsound.once other
  · intro other _ howner
    by_cases hother : other = id
    · rw [hother]
      exact ⟨hlow, hhigh⟩
    · rw [Function.update_of_ne hother] at howner
      obtain ⟨hlow, hhigh, _⟩ := hsound.used other howner
      exact ⟨hlow, hhigh⟩
  · intro other howner _
    have hother : other ≠ id := by
      rintro rfl
      rw [Function.update_self] at howner
      exact Owner.noConfusion howner
    rw [Function.update_of_ne hother] at howner
    rw [hsocket other hother]
    exact hsound.waits other howner

/-! ### Every event -/

/-- No call connects or clears a socket that waits in a backlog, and nothing that arrives ends the
connection of a socket that its owner has closed. -/
def Respectful (state : Owned) : Event → Prop
  | .connect given opening =>
    ∀ opened ∈ Event.opens state.table (.connect given opening), ∀ listener < maxSockets,
      opened.1 ∉ (state.table listener).acceptBacklog
  | .close _ _ given =>
    ∀ id ∈ anyId state.table given, (state.table id).socket.state ≠ .established →
      ∀ listener < maxSockets, id ∉ (state.table listener).acceptBacklog
  | .arrival (.segment _ _ _ segment) =>
    ∀ id ∈ demultiplex state.table segment, state.owner id = .closed →
      ¬EndsWait (state.table id).socket segment
  | .arrival (.timer _ id) =>
    state.owner id = .closed → ¬((state.table id).socket.retxActive = true ∧
      retxMaxAttempts ≤ (state.table id).socket.retxCount)
  | _ => True

instance Respectful.decidable (state : Owned) : (event : Event) → Decidable (Respectful state event)
  | .connect given opening => inferInstanceAs (Decidable
      (∀ opened ∈ Event.opens state.table (.connect given opening), ∀ listener < maxSockets,
        opened.1 ∉ (state.table listener).acceptBacklog))
  | .close _ _ given => inferInstanceAs (Decidable
      (∀ id ∈ anyId state.table given, (state.table id).socket.state ≠ .established →
        ∀ listener < maxSockets, id ∉ (state.table listener).acceptBacklog))
  | .arrival (.segment _ _ _ segment) => inferInstanceAs (Decidable
      (∀ id ∈ demultiplex state.table segment, state.owner id = .closed →
        ¬EndsWait (state.table id).socket segment))
  | .arrival (.timer _ id) => inferInstanceAs (Decidable
      (state.owner id = .closed → ¬((state.table id).socket.retxActive = true ∧
        retxMaxAttempts ≤ (state.table id).socket.retxCount)))
  | .openSocket | .bind _ _ | .listen _ | .legacyListen _ | .legacyConnect _ | .sendStart _
  | .sendFinish _ _ _ _ _ | .send _ _ _ _ | .sendCurrent _ _ _ | .accept _ | .recv _ =>
    isTrue trivial

/-- A pool socket in use. -/
theorem usedId_spec {given : ℤ} (hid : usedId table given = some id) :
    0 < id ∧ id < maxSockets ∧ (table id).socket.inUse = true := by
  unfold usedId at hid
  split_ifs at hid with hrange hused
  obtain rfl := Option.some.inj hid
  exact ⟨by omega, by omega, hused⟩

/-- The legacy socket, or a pool socket in use. -/
theorem anyId_spec {given : ℤ} (hid : anyId table given = some id) : id < maxSockets := by
  unfold anyId at hid
  split_ifs at hid with hrange
  obtain rfl := Option.some.inj hid
  omega

section

variable (hsound : Sound state)

include hsound

/-- A socket that is in no backlog below the bound is in no backlog. -/
theorem Sound.not_mem
    (hout : ∀ listener < maxSockets, id ∉ (state.table listener).acceptBacklog) (listener : ℕ) :
    id ∉ (state.table listener).acceptBacklog :=
  fun hmem ↦ hout listener (hsound.entries listener id hmem).2.2 hmem

/-- A segment keeps backlogs and owners in agreement. -/
theorem Sound.receive (link timer : ℤ) (ticks : ℕ)
    (hrespectful : ∀ id ∈ demultiplex state.table segment, state.owner id = .closed →
      ¬EndsWait (state.table id).socket segment) :
    Sound (state.step (.arrival (.segment link timer ticks segment))) := by
  simp only [Owned.step, Netstack.step, claims, pollOnce, pollSegment, answers]
  cases hfound : demultiplex state.table segment with
  | some id =>
    simp only [Option.isSome_some, true_or, if_true]
    exact hsound.setSocket (Stays.segment link _ segment) fun howner ↦
      receiveSegment_waits link (hsound.waits id howner) (hrespectful id hfound howner)
  | none =>
    simp only [Option.isSome_none, Bool.false_eq_true, false_or]
    split_ifs with hsyn
    · exact hsound.same
    · cases hpassive : passiveId state.table segment.dstPort with
      | none => exact hsound.same
      | some taken =>
        obtain ⟨id, opened⟩ := taken
        dsimp only
        have hanswer := (answerSyn_spec link timer ticks (opened id).socket segment).2
        rcases passiveId_spec hpassive
          with ⟨rfl, rfl, _⟩ | ⟨listener, hlistener, hfree, hne, _, rfl⟩
        · have hlegacy : Sound (.of (state.table.setSocket legacySocketId
              (answerSyn link timer ticks (state.table legacySocketId).socket segment).1)
              state.owner) := hsound.changeLegacy (Or.inl rfl)
          cases listenerFor state.table segment.dstPort with
          | none => exact hlegacy
          | some listener =>
            dsimp only
            rw [if_pos rfl]
            exact hlegacy
        · obtain ⟨hlow, hhigh, hunused⟩ := freeId_spec hfree
          obtain ⟨_, hlistenerHigh, _⟩ := listenerFor_spec hlistener
          have hpool : id ≠ legacySocketId := hlow.ne'
          simp only [hlistener, if_neg hpool]
          refine hsound.answered { Endpoint.taken with
            socket := (answerSyn link timer ticks (Table.setBacklog
              (Function.update state.table id Endpoint.taken) listener
              ((state.table listener).acceptBacklog ++ [id]) id).socket segment).1 }
            hlow hhigh hunused hne hlistenerHigh ?_ rfl fun other ↦ ?_
          · rw [hanswer, setBacklog_apply, if_neg hne.symm, Function.update_self]
            rfl
          · rw [setSocket_apply]
            split_ifs with hid hother
            · rw [setBacklog_apply, if_neg hne.symm, Function.update_self]
            · rw [hother, setBacklog_apply, if_pos rfl, Function.update_of_ne hne]
            · rw [setBacklog_apply, if_neg hother, Function.update_of_ne hid]

-- The lemmas of the single events share the equations of `claims`.
attribute [local simp] claims

theorem Sound.step_openSocket : Sound (state.step .openSocket) := by
  simp only [Owned.step, Netstack.step, netTcpSocketOpen, claims]
  cases hfree : freeId state.table with
  | none => exact hsound.same
  | some id =>
    obtain ⟨hlow, hhigh, hunused⟩ := freeId_spec hfree
    exact hsound.reuse (hsound.not_mem_of_unused hunused) hlow hhigh rfl

theorem Sound.step_bind (given : ℤ) (localPort : ℕ) :
    Sound (state.step (.bind given localPort)) := by
  simp only [Owned.step, Netstack.step, netTcpSocketBind, claims]
  split_ifs
  · exact hsound.same
  · exact hsound.same
  · split
    · exact hsound.same
    · split_ifs
      · exact hsound.same
      · exact hsound.change (Or.inl rfl) (fun _ hused ↦ hused) (hsound.waits _)

theorem Sound.step_listen (given : ℤ) :
    Sound (state.step (.listen given)) := by
  simp only [Owned.step, Netstack.step, netTcpSocketListen, claims]
  cases hid : usedId state.table given with
  | none => exact hsound.same
  | some id =>
    obtain ⟨hlow, hhigh, hused⟩ := usedId_spec hid
    dsimp only
    by_cases hport : (state.table id).listenPort = 0
    · simp only [hport, if_true, ne_eq, not_true_eq_false, false_and, if_false]
      exact hsound.same
    · simp only [hport, if_false, ne_eq, not_false_eq_true, true_and]
      split_ifs with howner
      · refine hsound.reuse (fun listener hmem ↦ ?_) hlow hhigh rfl
        rw [(hsound.entries listener id hmem).1] at howner
        exact Owner.noConfusion howner
      · exact hsound.change (Or.inr rfl) (fun _ _ ↦ hused) fun hclosed ↦ absurd hclosed howner

theorem Sound.step_legacyListen (localPort : ℕ) :
    Sound (state.step (.legacyListen localPort)) := by
  simp only [Owned.step, Netstack.step, netTcpListen, claims]
  split_ifs
  · exact hsound.same
  · exact hsound.changeLegacy (Or.inl rfl)

theorem Sound.step_connect {given : ℤ} {opening : Opening}
    (hrespectful : Respectful state (.connect given opening)) :
    Sound (state.step (.connect given opening)) := by
  simp only [Owned.step, Netstack.step, claims]
  cases hopens : Event.opens state.table (.connect given opening) with
  | none => exact hsound.same
  | some opened =>
    obtain ⟨id, other⟩ := opened
    have hout := hsound.not_mem (hrespectful (id, other) hopens)
    simp only [Event.opens] at hopens
    split_ifs at hopens
    obtain ⟨index, hid, hindex⟩ := Option.map_eq_some_iff.mp hopens
    obtain ⟨rfl, rfl⟩ := Prod.mk.inj hindex
    obtain ⟨hlow, hhigh, _⟩ := usedId_spec hid
    exact hsound.reuse hout hlow hhigh rfl

theorem Sound.step_legacyConnect (opening : Opening) :
    Sound (state.step (.legacyConnect opening)) := by
  simp only [Owned.step, Netstack.step, claims]
  split_ifs
  · exact hsound.same
  · exact hsound.changeLegacy (Or.inr rfl)

theorem Sound.step_sendStart (opening : Opening) :
    Sound (state.step (.sendStart opening)) := by
  simp only [Owned.step, Netstack.step, claims]
  split_ifs
  · exact hsound.same
  · exact hsound.changeLegacy (Or.inr rfl)

theorem Sound.step_sendFinish (link timer finLink finTimer : ℤ) (payload : List UInt8) :
    Sound (state.step (.sendFinish link timer finLink finTimer payload)) := by
  simp only [Owned.step, Netstack.step, sendFinish, claims]
  split_ifs
  · exact hsound.same
  · exact hsound.changeLegacy (Or.inl rfl)
  · exact hsound.changeLegacy (Or.inl rfl)
  · exact hsound.changeLegacy (Or.inl rfl)

theorem Sound.step_send (link timer given : ℤ) (payload : List UInt8) :
    Sound (state.step (.send link timer given payload)) := by
  simp only [Owned.step, Netstack.step, netTcpSocketSend, claims]
  split
  · exact hsound.same
  · exact hsound.sends link timer payload

theorem Sound.step_sendCurrent (link timer : ℤ) (payload : List UInt8) :
    Sound (state.step (.sendCurrent link timer payload)) := by
  exact hsound.sends link timer payload

theorem Sound.step_accept (given : ℤ) :
    Sound (state.step (.accept given)) := by
  simp only [Owned.step, Netstack.step, claims]
  cases acceptingId state.table given with
  | none => exact hsound.same
  | some listener =>
    dsimp only
    refine hsound.scanned (hsound.acceptOnce listener) fun id ↦ ?_
    cases (Netstack.acceptOnce state.table listener).1 with
    | none => rfl
    | some cand =>
      dsimp only
      rw [Function.update_apply]
      simp only [Option.some.injEq, eq_comm]

theorem Sound.step_recv (given : ℤ) : Sound (state.step (.recv given)) := by
  simp only [Owned.step, Netstack.step, claims]
  split
  · exact hsound.same
  · split
    · exact hsound.same
    · rename_i hdequeue
      unfold dequeue socketRxqDequeue at hdequeue
      rw [Option.map_map, Option.map_eq_some_iff] at hdequeue
      obtain ⟨⟨first, rxq⟩, _, htaken⟩ := hdequeue
      rw [← (Prod.mk.inj htaken).2]
      exact hsound.setSocket ⟨rfl, rfl, fun hclosed ↦ hclosed⟩ (hsound.waits _)

theorem Sound.step_close {link timer given : ℤ}
    (hrespectful : Respectful state (.close link timer given)) :
    Sound (state.step (.close link timer given)) := by
  simp only [Owned.step, Netstack.step, netTcpSocketCloseId, claims]
  cases hid : anyId state.table given with
  | none => exact hsound.same
  | some id =>
    dsimp only
    by_cases hestablished : (state.table id).socket.state = .established
    · exact hsound.finishes link timer hestablished
    · by_cases hlegacy : id = legacySocketId
      · subst hlegacy
        unfold tcpSocketCloseImpl
        dsimp only
        rw [if_neg hestablished, if_pos rfl, hsound.owner_legacy,
          if_neg fun howner ↦ Owner.noConfusion howner]
        exact hsound.changeLegacy (Or.inl rfl)
      · refine hsound.closes link timer (anyId_spec hid) hlegacy hestablished
          (hsound.not_mem (hrespectful id hid hestablished)) fun other hother ↦ ?_
        split_ifs
        · exact Function.update_of_ne hother _ _
        · rfl

theorem Sound.step_arrival {arrival : Arrival}
    (hrespectful : Respectful state (.arrival arrival)) :
    Sound (state.step (.arrival arrival)) := by
  cases arrival with
  | segment link timer ticks segment => exact hsound.receive link timer ticks hrespectful
  | timer link id =>
    simp only [Owned.step, Netstack.step, pollOnce, claims]
    split_ifs
    · exact hsound.setSocket (Stays.timer link _) fun howner ↦
        retxTimerCb_waits link (hsound.waits id howner) (hrespectful howner)
    · exact hsound.same

/-- Every event that takes no socket from its owner keeps backlogs and owners in agreement. -/
theorem Sound.step {event : Event}
    (hrespectful : Respectful state event) : Sound (state.step event) := by
  cases event with
  | openSocket => exact hsound.step_openSocket
  | bind _ _ => exact hsound.step_bind _ _
  | listen _ => exact hsound.step_listen _
  | legacyListen _ => exact hsound.step_legacyListen _
  | connect _ _ => exact hsound.step_connect hrespectful
  | legacyConnect _ => exact hsound.step_legacyConnect _
  | sendStart _ => exact hsound.step_sendStart _
  | sendFinish _ _ _ _ _ => exact hsound.step_sendFinish _ _ _ _ _
  | send _ _ _ _ => exact hsound.step_send _ _ _ _
  | sendCurrent _ _ _ => exact hsound.step_sendCurrent _ _ _
  | accept _ => exact hsound.step_accept _
  | recv _ => exact hsound.step_recv _
  | close _ _ _ => exact hsound.step_close hrespectful
  | arrival _ => exact hsound.step_arrival hrespectful

end

/-- In every run in which no call takes a socket from a backlog behind the back of its listener, and
nothing that arrives ends the connection of a socket that its owner has closed: an entry of a
backlog is a socket in use that was opened for this listener, and is in this backlog only and once;
what a scan for a call to accept returns was opened for the listener and has not been handed out;
and a socket that its owner has closed is free once its connection is closed. -/
theorem backlog_owned {events : List Event} {state : Owned}
    (hrun : Run (Guarded Respectful (Moves Owned.step)) Owned.start events state) :
    (∀ listener, ∀ cand ∈ (state.table listener).acceptBacklog,
      (state.table cand).socket.inUse = true ∧ state.owner cand = .backlog listener ∧
        (state.table listener).acceptBacklog.count cand = 1 ∧
          ∀ other, other ≠ listener → cand ∉ (state.table other).acceptBacklog) ∧
    (∀ listener cand, (acceptOnce state.table listener).1 = some cand →
      state.owner cand = .backlog listener) ∧
    ∀ id, state.owner id = .closed → (state.table id).socket.state = .closed →
      (state.table id).socket.inUse = false := by
  have hsound : Sound state := by
    refine hrun.guarded_invariant (fun before event after hbefore hguard hmoves ↦ ?_) sound_start
    rw [← hmoves]
    exact hbefore.step hguard
  refine ⟨fun listener cand hcand ↦ ?_, fun listener cand hreturned ↦
    ?_, fun id howner hclosed ↦ ?_⟩
  · have howner := (hsound.entries listener cand hcand).1
    refine ⟨(hsound.entry hcand).2.2, howner, ?_, fun other hother hmem ↦ hother ?_⟩
    · exact List.count_eq_one_of_mem (hsound.once listener) hcand
    · have hsame := (hsound.entries other cand hmem).1
      rw [howner, Owner.backlog.injEq] at hsame
      exact hsame.symm
  · exact (hsound.entries listener cand
      ((hsound.acceptOnce listener).returned cand hreturned).1).1
  · rw [hsound.waits id howner] at hclosed
    exact TcpState.noConfusion hclosed

/-- The first calls of a server, and a SYN of a client. -/
def serverEvents : List Event :=
  [.openSocket, .bind 1 80, .listen 1, .arrival (.segment 0 1 7
    { srcIp := 2, srcPort := 5000, dstIp := 1, dstPort := 80, seq := 100, ack := 0, flags := flagSyn
      payload := [] })]

def clientAck : Event :=
  .arrival (.segment 0 1 7
    { srcIp := 2, srcPort := 5000, dstIp := 1, dstPort := 80, seq := 101, ack := 8, flags := flagAck
      payload := [] })

/-- The socket that a server accepts was opened for it. -/
theorem backlog_owned_accepting :
    ((serverEvents ++ [clientAck]).foldl Owned.step Owned.start).owner 2 = .backlog 1 :=
  (backlog_owned (Run.of_allowed (by decide))).2.1 1 2 (by decide)

/-- A socket that is closed while it waits in a backlog stays in the backlog; and the slot of a
connection that was closed while it was established stays in use after the connection has ended. -/
theorem not_backlog_owned :
    (∃ events state, Run (Moves Owned.step) Owned.start events state ∧
      (state.table 1).acceptBacklog = [2] ∧ (state.table 2).socket.inUse = false) ∧
    ∃ events state, Run (Moves Owned.step) Owned.start events state ∧
      state.owner 2 = .closed ∧ (state.table 2).socket.state = .closed ∧
        (state.table 2).socket.inUse = true := by
  constructor
  · exact ⟨_, _, Run.of_foldl Owned.step Owned.start (serverEvents ++ [.close 0 1 2]), by decide,
      by decide⟩
  · exact ⟨_, _, Run.of_foldl Owned.step Owned.start
      (serverEvents ++ [clientAck, .accept 1, .close 0 1 2, clientAck]), by decide, by decide,
      by decide⟩

end EynOS.Network.Netstack
