import EynOS.Foundation.MachineWord
import EynOS.Process.LinuxChildren

/-!
# Runs of Linux-compatible processes

`accounted_of_careful`: as long as every event is careful, the links are the children that have
still to be waited for, and the parent of each of them runs. So each child is returned once, to its
parent, and no link stays behind.
-/

namespace EynOS.Process.LinuxChildren

open Foundation Foundation.SlotArray

variable {state next : State}

/-! ### What holds in every state -/

/-- The links are the children that have still to be waited for, their parents run, and no pid is
given twice. -/
structure Sound (state : State) : Prop where
  size : state.links.length = LINUX_MAX_CHILD_TRACK
  pending : state.spawned = (used state.links : Multiset Link) + state.returned
  distinct : (state.spawned.map Link.child).Nodup
  below : ∀ link ∈ state.spawned, link.child ≠ 0 ∧ link.child.toNat < state.nextPid.toNat ∧
    link.child.toNat < 2147483648
  parents : ∀ link ∈ used state.links, state.Live link.parent
  positive : ∀ pid, state.Live pid → pid ≠ 0
  next : state.nextPid ≠ 0

theorem sound_init : Sound init := by
  have hused : used init.links = [] := by decide
  have hlive (pid : UInt32) : ¬init.Live pid := by
    rintro (hmem | ⟨slot, hactive, -⟩)
    · exact nomatch hmem
    · exact nomatch hactive
  refine ⟨by decide, by rw [hused]; rfl, Multiset.nodup_zero, fun link hlink ↦ ?_,
    fun link hlink ↦ ?_, fun pid hpid ↦ absurd hpid (hlive pid), by decide⟩
  · exact absurd hlink (Multiset.notMem_zero link)
  · rw [hused] at hlink
    exact nomatch hlink

theorem Sound.unwaited (hsound : Sound state) :
    state.unwaited = (used state.links : Multiset Link) := by
  rw [State.unwaited, hsound.pending, Multiset.add_sub_cancel_right]

/-- What holds in every state accounts for the children. -/
theorem Sound.accounted (hsound : Sound state) : Accounted state where
  once := by
    rw [hsound.pending]
    exact Multiset.le_add_left _ _
  distinct := hsound.distinct
  bounded := by
    have hall : (state.unwaited.filter fun link ↦ state.Live link.parent) = state.unwaited := by
      refine Multiset.filter_eq_self.mpr fun link hlink ↦ ?_
      rw [hsound.unwaited] at hlink
      exact hsound.parents link hlink
    rw [hall, hsound.unwaited]
    exact Nat.le_refl _

/-! ### Processes that come and go -/

/-- A pid that is no longer than 31 bits is given back as a number above 0. -/
theorem toInt32_pos {pid : UInt32} (hpid : pid ≠ 0) (hsmall : pid.toNat < 2147483648) :
    0 < pid.toInt32 := by
  have hne : pid.toNat ≠ 0 := fun hzero ↦ hpid (UInt32.toNat_inj.mp hzero)
  rw [Int32.lt_iff_toInt_lt, toInt_toInt32_of_lt hsmall, Int32.toInt_zero]
  omega

theorem toNat_succ {pid : UInt32} (hlast : pid ≠ 0xFFFFFFFF) : (pid + 1).toNat = pid.toNat + 1 := by
  have hlt := pid.toNat_lt
  have hne : pid.toNat ≠ 4294967295 := fun hvalue ↦ hlast (UInt32.toNat_inj.mp hvalue)
  rw [UInt32.toNat_add, UInt32.toNat_one]
  omega

/-- A pid is given out. -/
theorem Sound.take (hsound : Sound state) (hlast : state.nextPid ≠ 0xFFFFFFFF) :
    Sound { state with nextPid := state.nextPid + 1 } := by
  have hnext := toNat_succ hlast
  refine { hsound with below := fun link hlink ↦ ?_, next := fun hzero ↦ ?_ }
  · obtain ⟨hne, hlt, hsmall⟩ := hsound.below link hlink
    refine ⟨hne, ?_, hsmall⟩
    change link.child.toNat < (state.nextPid + 1).toNat
    omega
  · change state.nextPid + 1 = 0 at hzero
    rw [hzero, UInt32.toNat_zero] at hnext
    omega

theorem Sound.load (hsound : Sound state) {load : Load} (hfresh : load.fresh state) :
    Sound (nativeLoadProgram load state).2 := by
  cases load with
  | refused => exact hsound
  | failed => exact hsound.take (hfresh (by simp))
  | loaded => exact hsound.take (hfresh (by simp))

/-- Only which processes run changes. -/
theorem Sound.live (hsound : Sound state) {processes : Fin MAX_NATIVE_PROCESSES → NativeProcess}
    {transients : List UInt32}
    (hkept : ∀ link ∈ used state.links,
      State.Live { state with processes := processes, transients := transients } link.parent)
    (hpositive : ∀ pid,
      State.Live { state with processes := processes, transients := transients } pid → pid ≠ 0) :
    Sound { state with processes := processes, transients := transients } :=
  { hsound with parents := hkept, positive := hpositive }

/-- A program of the shell starts. -/
theorem Sound.execute (hsound : Sound state) {pid : UInt32} (hpid : pid ≠ 0) :
    Sound { state with transients := pid :: state.transients } := by
  refine hsound.live (fun link hlink ↦ ?_) fun other hother ↦ ?_
  · exact (hsound.parents link hlink).imp_left fun hmem ↦ List.mem_cons_of_mem pid hmem
  · rcases hother with hmem | hslot
    · rcases List.mem_cons.mp hmem with rfl | hmem
      · exact hpid
      · exact hsound.positive other (.inl hmem)
    · exact hsound.positive other (.inr hslot)

/-- A program of the shell ends, and has no child to wait for. -/
theorem Sound.leave (hsound : Sound state) {pid : UInt32}
    (hnone : ∀ link ∈ used state.links, link.parent ≠ pid) :
    Sound { state with transients := state.transients.erase pid } := by
  refine hsound.live (fun link hlink ↦ ?_) fun other hother ↦ ?_
  · exact (hsound.parents link hlink).imp_left fun hmem ↦
      (List.mem_erase_of_ne (hnone link hlink)).mpr hmem
  · exact hsound.positive other (hother.imp_left List.mem_of_mem_erase)

/-- Which processes run when a slot of the table changes. -/
theorem live_update (slot : Fin MAX_NATIVE_PROCESSES) (process : NativeProcess) (pid : UInt32) :
    State.Live { state with processes := Function.update state.processes slot process } pid ↔
      pid ∈ state.transients ∨ (process.active ∧ process.pid = pid) ∨
        ∃ there, there ≠ slot ∧ (state.processes there).active ∧
          (state.processes there).pid = pid :=
  or_congr_right (Function.exists_update_iff state.processes
    fun _ (found : NativeProcess) ↦ found.active = true ∧ found.pid = pid)

/-- A process of the table ends, and has no child to wait for. -/
theorem Sound.exit (hsound : Sound state) {slot : Fin MAX_NATIVE_PROCESSES} {pid : UInt32}
    (hnone : ∀ link ∈ used state.links, link.parent ≠ (state.processes slot).pid) :
    Sound { state with
      processes := Function.update state.processes slot { pid := pid, active := false } } := by
  refine hsound.live (fun link hlink ↦ (live_update _ _ _).mpr ?_) fun other hother ↦ ?_
  · refine (hsound.parents link hlink).imp_right ?_
    rintro ⟨there, hactive, hparent⟩
    refine .inr ⟨there, ?_, hactive, hparent⟩
    rintro rfl
    exact hnone link hlink hparent.symm
  · rcases (live_update _ _ _).mp hother with hmem | ⟨hactive, -⟩ | ⟨there, -, hthere⟩
    · exact hsound.positive other (.inl hmem)
    · exact nomatch hactive
    · exact hsound.positive other (.inr ⟨there, hthere⟩)

theorem freeSlot_spec {slot : Fin MAX_NATIVE_PROCESSES} (hslot : freeSlot state = some slot) :
    (state.processes slot).active = false := by
  rw [freeSlot] at hslot
  split at hslot
  next found hfound =>
    obtain rfl := Option.some.inj hslot
    have hfree := List.find?_some hfound
    simp only [decide_eq_true_eq] at hfree
    exact Bool.not_eq_true _ ▸ hfree.1
  next => simpa using List.find?_some hslot

/-- A process of the table starts. -/
theorem Sound.start (hsound : Sound state) {slot : Fin MAX_NATIVE_PROCESSES} {pid : UInt32}
    (hslot : (state.processes slot).active = false) (hpid : pid ≠ 0) :
    Sound { state with
      processes := Function.update state.processes slot { pid := pid, active := true } } := by
  refine hsound.live (fun link hlink ↦ (live_update _ _ _).mpr ?_) fun other hother ↦ ?_
  · refine (hsound.parents link hlink).imp_right ?_
    rintro ⟨there, hactive, hparent⟩
    refine .inr ⟨there, ?_, hactive, hparent⟩
    rintro rfl
    rw [hslot] at hactive
    exact nomatch hactive
  · rcases (live_update _ _ _).mp hother with hmem | ⟨-, rfl⟩ | ⟨there, -, hthere⟩
    · exact hsound.positive other (.inl hmem)
    · exact hpid
    · exact hsound.positive other (.inr ⟨there, hthere⟩)

/-! ### Links that come and go -/

/-- A child is entered with a pid that was not given before. -/
theorem Sound.register (hsound : Sound state) {parent child : UInt32} {links : List (Slot Link)}
    (hlinks : fillFirst ⟨parent, child⟩ state.links = some links)
    (hfresh : ∀ link ∈ state.spawned, link.child ≠ child) (hchild : child ≠ 0)
    (hbelow : child.toNat < state.nextPid.toNat) (hsmall : child.toNat < 2147483648)
    (hparent : state.Live parent) :
    Sound { state.record parent child with links := links } where
  size := (used_fillFirst hlinks).1.trans hsound.size
  pending := by
    have hused : (used links : Multiset Link) =
        ⟨parent, child⟩ ::ₘ (used state.links : Multiset Link) :=
      Multiset.coe_eq_coe.mpr (perm_fillFirst hlinks)
    change ⟨parent, child⟩ ::ₘ state.spawned = (used links : Multiset Link) + state.returned
    rw [hused, hsound.pending, Multiset.cons_add]
  distinct := by
    change ((⟨parent, child⟩ ::ₘ state.spawned).map Link.child).Nodup
    rw [Multiset.map_cons, Multiset.nodup_cons]
    refine ⟨fun hmem ↦ ?_, hsound.distinct⟩
    obtain ⟨link, hlink, hsame⟩ := Multiset.mem_map.mp hmem
    exact hfresh link hlink hsame
  below link hlink := by
    rcases Multiset.mem_cons.mp hlink with rfl | hlink
    · exact ⟨hchild, hbelow, hsmall⟩
    · exact hsound.below link hlink
  parents link hlink := by
    rcases List.mem_cons.mp ((perm_fillFirst hlinks).mem_iff.mp hlink) with rfl | hlink
    · exact hparent
    · exact hsound.parents link hlink
  positive := hsound.positive
  next := hsound.next

/-- A link is taken away, and its child returned. -/
theorem Sound.reaped (hsound : Sound state) {wanted : Link → Bool} {link : Link}
    {links : List (Slot Link)} (hlinks : takeFirst wanted state.links = some (link, links)) :
    Sound { state with links := links, returned := link ::ₘ state.returned } where
  size := (takeFirst_eq_some hlinks).1.trans hsound.size
  pending := by
    have hused : (used state.links : Multiset Link) = link ::ₘ (used links : Multiset Link) :=
      Multiset.coe_eq_coe.mpr (perm_takeFirst hlinks).2
    change state.spawned = (used links : Multiset Link) + link ::ₘ state.returned
    rw [hsound.pending, hused, Multiset.cons_add, Multiset.add_cons]
  distinct := hsound.distinct
  below := hsound.below
  parents other hother :=
    hsound.parents other ((perm_takeFirst hlinks).2.mem_iff.mpr (List.mem_cons_of_mem link hother))
  positive := hsound.positive
  next := hsound.next

/-! ### Spawns -/

/-- What a careful spawn does: it fails, and at most a pid is lost, or there is a new process with a
link. -/
theorem spawn_cases (hsound : Sound state) {parent : UInt32} {named : Bool} {load : Load}
    (hlive : state.Live parent) (hcareful : (Event.spawn parent named load).Careful state) :
    (∃ code, code < 0 ∧ (linuxSpawnNativeChild parent named load state = (code, state) ∨
      state.nextPid ≠ 0xFFFFFFFF ∧ linuxSpawnNativeChild parent named load state =
        (code, { state with nextPid := state.nextPid + 1 }))) ∨
    ∃ slot links, (state.processes slot).active = false ∧
      fillFirst ⟨parent, state.nextPid⟩ state.links = some links ∧
      state.nextPid ≠ 0xFFFFFFFF ∧ state.nextPid.toNat < 2147483648 ∧
      linuxSpawnNativeChild parent named load state = (state.nextPid.toInt32,
        { (State.record parent state.nextPid { state with
            nextPid := state.nextPid + 1
            processes := Function.update state.processes slot
              { pid := state.nextPid, active := true } }) with links := links }) := by
  by_cases hnamed : named = true
  case neg =>
    refine .inl ⟨-EINVAL, by decide, .inl ?_⟩
    rw [linuxSpawnNativeChild, if_pos hnamed]
  cases hslot : freeSlot state with
  | none =>
    refine .inl ⟨-EAGAIN, by decide, .inl ?_⟩
    rw [linuxSpawnNativeChild, if_neg (not_not_intro hnamed), nativeSpawn, hslot]
  | some slot =>
    obtain ⟨hfresh, hloaded⟩ := hcareful hnamed (by rw [hslot]; simp)
    cases load with
    | refused =>
      refine .inl ⟨-EAGAIN, by decide, .inl ?_⟩
      rw [linuxSpawnNativeChild, if_neg (not_not_intro hnamed), nativeSpawn, hslot]
      rfl
    | failed =>
      refine .inl ⟨-EAGAIN, by decide, .inr ⟨hfresh (by simp), ?_⟩⟩
      rw [linuxSpawnNativeChild, if_neg (not_not_intro hnamed), nativeSpawn, hslot]
      rfl
    | loaded =>
      obtain ⟨hsmall, hroom⟩ := hloaded rfl
      cases hlinks : fillFirst ⟨parent, state.nextPid⟩ state.links with
      | none =>
        rw [fillFirst_eq_none, hsound.size] at hlinks
        omega
      | some links =>
        refine .inr ⟨slot, links, freeSlot_spec hslot, rfl, hfresh (by simp), hsmall, ?_⟩
        have hregister : linuxChildRegister parent state.nextPid state.links = some links := by
          rw [linuxChildRegister, if_neg (not_or.mpr ⟨hsound.positive parent hlive, hsound.next⟩),
            hlinks]
        rw [linuxSpawnNativeChild, if_neg (not_not_intro hnamed), nativeSpawn, hslot]
        refine (if_neg hsound.next).trans ?_
        simp only [State.record, hregister]

/-- A careful spawn keeps what holds in every state. -/
theorem Sound.spawn (hsound : Sound state) {parent : UInt32} {named : Bool} {load : Load}
    (hlive : state.Live parent) (hcareful : (Event.spawn parent named load).Careful state) :
    Sound (linuxSpawnNativeChild parent named load state).2 := by
  rcases spawn_cases hsound hlive hcareful with ⟨code, -, hsame | ⟨hlast, htaken⟩⟩ |
    ⟨slot, links, hslot, hlinks, hlast, hsmall, hspawned⟩
  · rw [hsame]
    exact hsound
  · rw [htaken]
    exact hsound.take hlast
  · rw [hspawned]
    have hstarted := (hsound.take hlast).start hslot hsound.next
    have hnext := toNat_succ hlast
    refine hstarted.register hlinks (fun link hlink hsame ↦ ?_) hsound.next
      (lt_of_lt_of_eq (Nat.lt_succ_self _) hnext.symm) hsmall ?_
    · have hlt := (hsound.below link hlink).2.1
      rw [hsame] at hlt
      exact Nat.lt_irrefl _ hlt
    · refine (live_update _ _ _).mpr (hlive.imp_right ?_)
      rintro ⟨there, hactive, hparent⟩
      refine .inr ⟨there, ?_, hactive, hparent⟩
      rintro rfl
      exact absurd hactive (by simp [hslot])

/-- A careful spawn that fails leaves the process table alone. -/
theorem spawn_failed (hsound : Sound state) {parent : UInt32} {named : Bool} {load : Load}
    (hlive : state.Live parent) (hcareful : (Event.spawn parent named load).Careful state)
    (hfailed : (linuxSpawnNativeChild parent named load state).1 < 0) :
    (linuxSpawnNativeChild parent named load state).2.processes = state.processes := by
  rcases spawn_cases hsound hlive hcareful with ⟨code, -, hsame | ⟨-, htaken⟩⟩ |
    ⟨slot, links, -, -, -, hsmall, hspawned⟩
  · rw [hsame]
  · rw [htaken]
  · rw [hspawned] at hfailed
    exact absurd hfailed (Int32.lt_asymm (toInt32_pos hsound.next hsmall))

/-! ### Waits -/

theorem Link.asked_parent {link : Link} {caller : UInt32} {filter : Int32}
    (hasked : link.asked caller filter = true) : link.parent = caller := by
  rw [Link.asked, decide_eq_true_iff] at hasked
  exact hasked.1

/-- What a wait that may ask for a child does up to its loop: it returns a child and takes its link,
or there is no child to ask for, or the child is still there. -/
theorem wait4_cases {caller : UInt32} {pid : Int32} (nohang : Bool)
    (hcaller : caller ≠ 0) (hpid : pid = -1 ∨ 0 < pid) :
    (∃ wanted link links, takeFirst wanted state.links = some (link, links) ∧
      link.asked caller pid = true ∧ sysWait4 caller pid nohang state =
        (some link.child.toInt32,
          { state with links := links, returned := link ::ₘ state.returned })) ∨
    ((∀ link ∈ used state.links, ¬link.asked caller pid = true) ∧
      sysWait4 caller pid nohang state = (some (-ECHILD), state)) ∨
    ∃ link ∈ used state.links, link.asked caller pid = true ∧ sysWait4 caller pid nohang state =
      if nohang then (some 0, state)
      else (none, { state with blocked := ⟨caller, link.child⟩ :: state.blocked }) := by
  have hvalid : ¬(pid = 0 ∨ pid < -1) := by
    rcases hpid with rfl | hpid
    · decide
    · rintro (rfl | hlt)
      · exact Int32.lt_irrefl hpid
      · exact Int32.lt_asymm (Int32.lt_trans hpid hlt) (by decide)
  rw [sysWait4, if_neg hcaller, if_neg hvalid]
  cases hreap : reap caller pid state with
  | some taken =>
    obtain ⟨link, links⟩ := taken
    have hasked := (perm_takeFirst hreap).1
    rw [Bool.and_eq_true] at hasked
    have hparent := Link.asked_parent hasked.1
    refine .inl ⟨_, link, links, hreap, hasked.1, ?_⟩
    rw [← hparent]
  | none =>
    cases hfind : linuxChildFindSlot caller pid state with
    | none => exact .inr (.inl ⟨List.find?_eq_none.mp hfind, rfl⟩)
    | some link =>
      exact .inr (.inr ⟨link, List.mem_of_find?_eq_some hfind, List.find?_some hfind, rfl⟩)

/-- A wait that may ask for no child does nothing. -/
theorem wait4_invalid {caller : UInt32} {pid : Int32} (nohang : Bool)
    (hpid : ¬(pid = -1 ∨ 0 < pid)) : (sysWait4 caller pid nohang state).2 = state := by
  have hinvalid : pid = 0 ∨ pid < -1 := by
    rw [Int32.lt_iff_toInt_lt, ← Int32.toInt_inj] at hpid ⊢
    rw [show (-1 : Int32).toInt = -1 from rfl, Int32.toInt_zero] at *
    omega
  rw [sysWait4, if_pos hinvalid]
  split_ifs <;> rfl

/-- A wait keeps what holds in every state. -/
theorem Sound.wait4 (hsound : Sound state) {caller : UInt32} (hlive : state.Live caller)
    (pid : Int32) (nohang : Bool) : Sound (sysWait4 caller pid nohang state).2 := by
  by_cases hpid : pid = -1 ∨ 0 < pid
  · rcases wait4_cases nohang (hsound.positive caller hlive) hpid with
      ⟨wanted, link, links, hlinks, -, hreaped⟩ | ⟨-, hnone⟩ | ⟨link, -, -, hlater⟩
    · rw [hreaped]
      exact hsound.reaped hlinks
    · rw [hnone]
      exact hsound
    · rw [hlater]
      split_ifs
      · exact hsound
      · exact { hsound with }
  · rw [wait4_invalid nohang hpid]
    exact hsound

/-- A wait says that there is no child exactly where there is none that it asks for. -/
theorem wait4_echild (hsound : Sound state) {caller : UInt32} {pid : Int32} (nohang : Bool)
    (hlive : state.Live caller) (hpid : pid = -1 ∨ 0 < pid) :
    (sysWait4 caller pid nohang state).1 = some (-ECHILD) ↔
      ∀ link ∈ state.unwaited, ¬link.asked caller pid = true := by
  rw [hsound.unwaited]
  rcases wait4_cases nohang (hsound.positive caller hlive) hpid with
    ⟨wanted, link, links, hlinks, hasked, hreaped⟩ | ⟨hnone, hreply⟩ | ⟨link, hlink, hasked, hlater⟩
  · have hmem : link ∈ used state.links :=
      (perm_takeFirst hlinks).2.mem_iff.mpr List.mem_cons_self
    have hspawned : link ∈ state.spawned := by
      rw [hsound.pending]
      exact Multiset.mem_add.mpr (.inl hmem)
    obtain ⟨hne, -, hsmall⟩ := hsound.below link hspawned
    rw [hreaped]
    refine iff_of_false (fun hsame ↦ ?_) fun hall ↦ hall link hmem hasked
    have hpos := toInt32_pos hne hsmall
    rw [Option.some.inj hsame] at hpos
    exact absurd hpos (by decide)
  · rw [hreply]
    exact iff_of_true rfl hnone
  · rw [hlater]
    refine iff_of_false ?_ fun hall ↦ hall link hlink hasked
    split_ifs <;> simp [ECHILD]

/-- A wait that wakes up with its link still there keeps what holds in every state. -/
theorem Sound.wakeUp (hsound : Sound state) {wait : Link} (hwait : wait ∈ used state.links) :
    Sound (wakeUp wait state).2 := by
  have hspawned : wait ∈ state.spawned := by
    rw [hsound.pending]
    exact Multiset.mem_add.mpr (.inl hwait)
  obtain ⟨hne, -, hsmall⟩ := hsound.below wait hspawned
  have hpos := toInt32_pos hne hsmall
  have hasked (link : Link) : link.asked wait.parent wait.child.toInt32 = true ↔ link = wait := by
    rw [Link.asked, decide_eq_true_iff, UInt32.toUInt32_toInt32]
    constructor
    · rintro ⟨hparent, hchild⟩
      cases link
      cases wait
      rw [Link.mk.injEq]
      exact ⟨hparent, hchild hpos⟩
    · rintro rfl
      exact ⟨rfl, fun _ ↦ rfl⟩
  cases htaken : takeFirst (Link.asked wait.parent wait.child.toInt32) state.links with
  | none =>
    rw [takeFirst_eq_none, List.find?_eq_none] at htaken
    exact absurd ((hasked wait).mpr rfl) (htaken wait hwait)
  | some taken =>
    obtain ⟨link, links⟩ := taken
    obtain rfl := (hasked link).mp (perm_takeFirst htaken).1
    have hreaped := hsound.reaped htaken
    rw [LinuxChildren.wakeUp, dropFound, htaken]
    exact { hreaped with }

/-! ### Runs -/

/-- A careful event keeps what holds in every state. -/
theorem Sound.step (hsound : Sound state) {event : Event} (hcareful : event.Careful state)
    (hstep : Steps state event next) : Sound next := by
  obtain ⟨⟨reply, after⟩, hfired, hafter⟩ := Option.map_eq_some_iff.mp hstep
  subst hafter
  change Sound after
  cases event with
  | execute load =>
    have hloaded := hsound.load (show load.fresh state from hcareful)
    cases load with
    | refused =>
      obtain ⟨-, rfl⟩ := Prod.mk.inj (Option.some.inj hfired)
      exact hloaded
    | failed =>
      obtain ⟨-, rfl⟩ := Prod.mk.inj (Option.some.inj hfired)
      exact hloaded
    | loaded =>
      obtain ⟨-, rfl⟩ := Prod.mk.inj (Option.some.inj hfired)
      exact hloaded.execute hsound.next
  | leave pid =>
    rw [LinuxChildren.step] at hfired
    split_ifs at hfired
    obtain ⟨-, rfl⟩ := Prod.mk.inj (Option.some.inj hfired)
    exact hsound.leave hcareful
  | execve load =>
    obtain ⟨-, rfl⟩ := Prod.mk.inj (Option.some.inj hfired)
    exact hsound.load hcareful
  | spawn parent named load =>
    rw [LinuxChildren.step] at hfired
    split_ifs at hfired with hlive
    obtain ⟨-, rfl⟩ := Prod.mk.inj (Option.some.inj hfired)
    exact hsound.spawn hlive hcareful
  | exit slot cleared =>
    rw [LinuxChildren.step] at hfired
    split_ifs at hfired
    all_goals
      obtain ⟨-, rfl⟩ := Prod.mk.inj (Option.some.inj hfired)
      exact hsound.exit hcareful
  | wait4 caller pid nohang =>
    rw [LinuxChildren.step] at hfired
    split_ifs at hfired with hlive
    have hnext : (sysWait4 caller pid nohang state).2 = after :=
      congrArg Prod.snd (Option.some.inj hfired)
    rw [← hnext]
    exact hsound.wait4 hlive pid nohang
  | wake wait =>
    rw [LinuxChildren.step] at hfired
    split_ifs at hfired
    obtain ⟨-, rfl⟩ := Prod.mk.inj (Option.some.inj hfired)
    exact hsound.wakeUp hcareful

/-- What a careful event says is so. -/
theorem Sound.answered (hsound : Sound state) {event : Event} {reply : Option Int32}
    (hcareful : event.Careful state) (hstep : LinuxChildren.step state event = some (reply, next)) :
    Answered state event reply next where
  echild caller pid nohang hevent hpid := by
    subst hevent
    rw [LinuxChildren.step] at hstep
    split_ifs at hstep with hlive
    have hreply : (sysWait4 caller pid nohang state).1 = reply :=
      congrArg Prod.fst (Option.some.inj hstep)
    rw [← hreply]
    exact wait4_echild hsound nohang hlive hpid
  failed parent named load code hevent hcode hfailed := by
    subst hevent
    rw [LinuxChildren.step] at hstep
    split_ifs at hstep with hlive
    obtain ⟨hreply, rfl⟩ := Prod.mk.inj (Option.some.inj hstep)
    rw [hcode] at hreply
    rw [← Option.some.inj hreply] at hfailed
    exact spawn_failed hsound hlive hcareful hfailed

def CarefulRun : List Event → State → Prop :=
  Run (Guarded (fun state event ↦ event.Careful state) Steps) init

theorem CarefulRun.snoc {events : List Event} (hrun : CarefulRun events state) (event : Event)
    (hcareful : event.Careful state) (hstep : Steps state event next) :
    CarefulRun (events ++ [event]) next :=
  Run.snoc hrun ⟨hcareful, hstep⟩

/-- In every run of careful events the children are accounted for in every state, and what every
call says is so. -/
theorem accounted_of_careful {events : List Event} (hrun : CarefulRun events state) :
    Accounted state ∧ ∀ event reply next, event.Careful state →
      step state event = some (reply, next) → Answered state event reply next := by
  have hsound : Sound state := hrun.guarded_invariant
    (fun _ _ _ hbefore hcareful hstep ↦ hbefore.step hcareful hstep) sound_init
  exact ⟨hsound.accounted, fun _ _ _ hcareful hstep ↦ hsound.answered hcareful hstep⟩

/-- A child that ends before its parent is waited for. -/
theorem accounted_of_careful_wait : ∃ state, state.returned = {⟨1, 2⟩} ∧ Accounted state ∧
    ∀ event reply next, event.Careful state → step state event = some (reply, next) →
      Answered state event reply next := by
  have hexecute := CarefulRun.snoc .refl (.execute .loaded) (by decide) rfl
  have hspawn := hexecute.snoc (.spawn 1 true .loaded) (by decide) rfl
  have hexit := hspawn.snoc (.exit ⟨0, Nat.zero_lt_succ 7⟩ false) (by decide) rfl
  have hwait := hexit.snoc (.wait4 1 (-1) false) trivial rfl
  have hleave := hwait.snoc (.leave 1) (by decide) rfl
  exact ⟨_, by decide, accounted_of_careful hleave⟩

/-- A parent that ends before its child leaves its link behind. -/
theorem orphan_not_accounted : ¬∀ events state, Run Steps init events state → Accounted state := by
  intro hall
  have hrun : Run Steps init [.execute .loaded, .spawn 1 true .loaded, .leave 1] _ :=
    Run.of_runLabels rfl
  exact absurd (hall _ _ hrun).bounded (by decide)

end EynOS.Process.LinuxChildren
