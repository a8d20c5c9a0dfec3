import EynOS.Process.ElfContent
import EynOS.Process.Interpreter
import Mathlib.Data.Set.Finite.List

/-!
# The chain of interpreters

Which file is run in the place of a file depends on the files alone (`interpreterOf`), and all paths
but the first are short: the calls come to an end if and only if no path comes twice
(`ends_runTurn_iff`). The arguments of the last call are the paths on the way there, the last one
first, and then the arguments of the first call, cut to the number that the first call keeps
(`kept_of_turned`). So where interpreters are run, as many arguments are lost as there are
interpreters, unless the caller's arguments fill all entries (`delivers_iff`).
-/

namespace EynOS.Process.Interpreter

open Foundation ElfLoader InitialStack Traced

/-! ### The chain of paths -/

/-- The path that is run in the place of the program of a path. -/
def System.interpreterOf (system : System) (abspath : CString) : Option CString :=
  match system.openFile abspath with
  | none => none
  | some image =>
    match (userElfRunArgv system.environment image).outcome with
    | .ok (.interpreter buffer) => some (interpAbspath abspath buffer)
    | _ => none

variable {system : System} {call next last : Call} {abspath path : CString}
  {buffer : List UInt8} {count : ℕ} {program : Started}

/-- A run follows the chain of paths. -/
theorem follows_runTurn (system : System) :
    Follows (runTurn system) Call.abspath system.interpreterOf := by
  intro call
  rw [turned, runTurn, System.interpreterOf]
  cases system.openFile call.abspath with
  | none => rfl
  | some image =>
    cases houtcome : (userElfRunArgv system.environment image).outcome with
    | error failure => simp [houtcome]
    | ok loaded =>
      cases loaded with
      | interpreter buffer => simp [houtcome, Call.interpreter]
      | program entry mapStart mapEnd => simp [houtcome]

theorem length_interpAbspath_le : (interpAbspath abspath buffer).bytes.length ≤ 255 := by
  rw [interpAbspath]
  split_ifs
  · exact length_resolvedBytes_le
  · refine (List.takeWhile_prefix _).length_le.trans ?_
    rw [List.length_take]
    exact Nat.min_le_left _ _

theorem length_interpreterOf_le (hpath : system.interpreterOf abspath = some path) :
    path.bytes.length ≤ 255 := by
  rw [System.interpreterOf] at hpath
  split at hpath
  · exact absurd hpath (by simp)
  · split at hpath
    · obtain rfl := Option.some.inj hpath
      exact length_interpAbspath_le
    · exact absurd hpath (by simp)

/-- All paths but the first are short. -/
theorem short_of_iterated (hpath : iterated system.interpreterOf count abspath = some path) :
    path = abspath ∨ path.bytes.length ≤ 255 := by
  induction count generalizing abspath with
  | zero => exact .inl (Option.some.inj hpath).symm
  | succ count ih =>
    cases hstep : system.interpreterOf abspath with
    | none =>
      rw [iterated_of_stop hstep] at hpath
      exact absurd hpath (by simp)
    | some middle =>
      rw [iterated_of_step hstep] at hpath
      rcases ih hpath with rfl | hshort
      · exact .inr (length_interpreterOf_le hstep)
      · exact .inr hshort

theorem finite_short (abspath : CString) :
    {path : CString | path = abspath ∨ path.bytes.length ≤ 255}.Finite := by
  have hinjective : Function.Injective CString.bytes := by
    intro first second hbytes
    cases first
    cases second
    exact (CString.mk.injEq ..).mpr hbytes
  have : Finite UInt8 := Finite.of_injective UInt8.toFin fun _ _ ↦ UInt8.toFin_inj.mp
  have hshort : {path : CString | path.bytes.length ≤ 255}.Finite :=
    (List.finite_length_le UInt8 255).preimage hinjective.injOn
  exact (Set.finite_singleton abspath).union hshort

theorem ends_runTurn_iff :
    Ends (runTurn system) call ↔ ¬Returns system.interpreterOf call.abspath := by
  rw [(follows_runTurn system).ends_iff]
  exact stops_iff (finite_short call.abspath) fun _ _ hpath ↦ short_of_iterated hpath

/-! ### The arguments on the way -/

def Call.arguments (call : Call) : List CString :=
  ((call.argv.getD []).take call.argc.toNat).reduceOption

/-- The arguments that a program is started with, its path among them. -/
def Call.kept (call : Call) : List CString :=
  keptArguments (some call.abspath) call.argc call.argv

theorem kept_eq : call.kept = call.abspath :: call.arguments.take 31 := rfl

theorem length_kept : call.kept.length = min call.arguments.length 31 + 1 := by
  rw [kept_eq, List.length_cons, List.length_take, Nat.min_comm]

theorem localArgv_eq_kept : localArgv (some call.abspath) call.argc call.argv = call.kept := by
  rw [localArgv, keepArgs_eq]
  rfl

/-- An interpreter gets what the program would have got, but for the last of it. -/
theorem kept_interpreter : (call.interpreter buffer).kept =
    interpAbspath call.abspath buffer :: call.kept.dropLast := by
  have hlength := @length_kept call
  have htoNat : ((call.kept.length : ℤ) - 1).toNat = call.kept.length - 1 := by omega
  have harguments : (call.interpreter buffer).arguments = call.kept.dropLast := by
    rw [Call.arguments, Call.interpreter, localArgv_eq_kept, Option.getD_some, htoNat,
      ← List.map_take, List.dropLast_eq_take]
    simp [List.reduceOption]
  rw [kept_eq, harguments]
  refine congrArg₂ _ rfl (List.take_of_length_le ?_)
  rw [List.length_dropLast, hlength]
  omega

theorem turned_runTurn (hturned : turned (runTurn system) call = some next) :
    ∃ buffer, next = call.interpreter buffer ∧
      system.interpreterOf call.abspath = some next.abspath := by
  have hpart := follows_runTurn system call
  rw [hturned, Option.map_some] at hpart
  rw [turned, runTurn] at hturned
  split at hturned
  · exact absurd hturned (by simp)
  · split at hturned
    · exact absurd hturned (by simp)
    · exact ⟨_, (Option.some.inj hturned).symm, hpart.symm⟩
    · exact absurd hturned (by simp)

/-- Behind something, the last of a list does not count among the first as many. -/
theorem take_append_dropLast {front back : List CString} (hfront : front ≠ []) :
    (front ++ back.dropLast).take back.length = (front ++ back).take back.length := by
  have hlength := List.length_pos_iff.mpr hfront
  rw [List.take_append, List.take_append, List.dropLast_eq_take, List.take_take,
    Nat.min_eq_left (by omega)]

/-- The arguments of the last call are the paths on the way there and then those of the first call,
as many as the first call keeps. -/
theorem kept_of_turned (hlast : iterated (turned (runTurn system)) count call = some last) :
    last.kept = (trail system.interpreterOf count call.abspath ++ call.kept).take
      call.kept.length ∧ (0 < count → last.envp = none) := by
  induction count generalizing call with
  | zero =>
    obtain rfl := Option.some.inj hlast
    exact ⟨(List.take_length).symm, fun hpos ↦ absurd hpos (Nat.lt_irrefl 0)⟩
  | succ count ih =>
    cases hturned : turned (runTurn system) call with
    | none =>
      rw [iterated_of_stop hturned] at hlast
      exact absurd hlast (by simp)
    | some next =>
      rw [iterated_of_step hturned] at hlast
      obtain ⟨hkept, henvp⟩ := ih hlast
      obtain ⟨buffer, rfl, hstep⟩ := turned_runTurn hturned
      constructor
      · have hlength := @length_kept call
        rw [hkept, trail_of_step hstep, kept_interpreter, List.length_cons, List.length_dropLast,
          Nat.sub_add_cancel (by omega), ← take_append_dropLast (by simp), List.append_assoc,
          List.singleton_append]
        rfl
      · intro _
        cases count with
        | zero => exact Option.some.inj hlast ▸ rfl
        | succ count => exact henvp (Nat.succ_pos count)

/-! ### What is started -/

/-- A file is a program whose segments are loaded, and the strings fit their limit. -/
def System.Startable (system : System) (abspath : CString) (arguments environment : List CString) :
    Prop :=
  (∃ image entry mapStart mapEnd, system.openFile abspath = some image ∧
    (userElfRunArgv system.environment image).Yields (.program entry mapStart mapEnd)) ∧
    (blocks (environment ++ arguments)).flatten.length ≤ maxArgBytes

/-- The stack is large enough for all strings that fit their limit. -/
theorem build_ne_zero_iff (system : System) :
    (userStackBuildArgv stackTop stackPage (some call.abspath) call.argc call.argv call.envp
        system.stack).1 ≠ 0 ↔
      (blocks (keptEnvironment call.envp ++ call.kept)).flatten.length ≤ maxArgBytes := by
  rw [userStackBuildArgv_ne_zero_iff (by decide) (by decide) (by decide), ← Call.kept]
  have harguments := @length_kept call
  have henvironment : (keptEnvironment call.envp).length ≤ 32 :=
    List.length_take_le 32 (call.envp.getD [])
  have htop : stackTop = 0xBFFFFFF0 := rfl
  have hpage : stackPage = 0xBFFF8000 := rfl
  have hbytes : maxArgBytes = 2048 := rfl
  rw [htop, hpage, hbytes]
  omega

/-- A program that is loaded is started where its strings fit their limit. -/
theorem start_iff {entry : ℕ} : start system call entry = .started program ↔
    (blocks (keptEnvironment call.envp ++ call.kept)).flatten.length ≤ maxArgBytes ∧
      program =
        { abspath := call.abspath
          entry
          esp := (userStackBuildArgv stackTop stackPage (some call.abspath) call.argc call.argv
            call.envp system.stack).1
          memory := (userStackBuildArgv stackTop stackPage (some call.abspath) call.argc call.argv
            call.envp system.stack).2 } := by
  rw [← build_ne_zero_iff system, start]
  by_cases hzero : (userStackBuildArgv stackTop stackPage (some call.abspath) call.argc call.argv
      call.envp system.stack).1 = 0
  · simp [hzero]
  · simp [hzero, eq_comm]

/-- Which call starts a program. -/
theorem starts_iff : (∃ program, runTurn system call = .inl (.started program)) ↔
    system.Startable call.abspath call.kept (keptEnvironment call.envp) := by
  constructor
  · rintro ⟨program, hstarts⟩
    rw [runTurn] at hstarts
    split at hstarts
    · exact absurd hstarts (by simp)
    next image hopen =>
      split at hstarts
      · exact absurd hstarts (by simp)
      · exact absurd hstarts (by simp)
      next entry mapStart mapEnd hloaded =>
        exact ⟨⟨image, entry, mapStart, mapEnd, hopen, hloaded⟩,
          (start_iff.mp (Sum.inl.inj hstarts)).1⟩
  · rintro ⟨⟨image, entry, mapStart, mapEnd, hopen, hloaded⟩, hfits⟩
    have houtcome : (userElfRunArgv system.environment image).outcome =
        .ok (.program entry mapStart mapEnd) := hloaded
    have hturn : runTurn system call = .inl (start system call entry) := by
      simp only [runTurn, hopen, houtcome]
    exact ⟨_, hturn.trans (congrArg Sum.inl (start_iff.mpr ⟨hfits, rfl⟩))⟩

/-- A program that is started has the arguments of its call on its stack. -/
theorem entry_of_starts (hstarts : runTurn system call = .inl (.started program)) :
    program.abspath = call.abspath ∧ ∃ argv envp, Entry program.memory program.esp call.kept
      (keptEnvironment call.envp) argv envp := by
  have hfits := (starts_iff.mp ⟨program, hstarts⟩).2
  rw [runTurn] at hstarts
  split at hstarts
  · exact absurd hstarts (by simp)
  · split at hstarts
    · exact absurd hstarts (by simp)
    · exact absurd hstarts (by simp)
    · obtain ⟨-, rfl⟩ := start_iff.mp (Sum.inl.inj hstarts)
      exact ⟨rfl, (entry_of_ne_zero (by decide) (by decide) (by decide) rfl
        ((build_ne_zero_iff system).mpr hfits)).2.2⟩

/-- Which program is started after a number of turns, and what it has on its stack. -/
theorem exits_started (hexits : Exits (runTurn system) count call (.started program)) :
    iterated system.interpreterOf count call.abspath = some program.abspath ∧
      ∃ environment argv envp, Entry program.memory program.esp
        ((trail system.interpreterOf count call.abspath ++ call.kept).take call.kept.length)
        environment argv envp := by
  obtain ⟨last, hlast, hstarts⟩ := exits_iff.mp hexits
  have hpath : (iterated (turned (runTurn system)) count call).map Call.abspath =
      iterated system.interpreterOf count call.abspath := (follows_runTurn system).iterated
  obtain ⟨hown, argv, envp, hentry⟩ := entry_of_starts hstarts
  rw [(kept_of_turned hlast).1] at hentry
  refine ⟨?_, _, argv, envp, hentry⟩
  rw [← hpath, hlast, Option.map_some, hown]

/-- Whether a program is started after a number of turns depends on the file that the chain leads
to, and on whether the strings fit. -/
theorem exits_started_iff : (∃ program, Exits (runTurn system) count call (.started program)) ↔
    ∃ last, iterated system.interpreterOf count call.abspath = some last ∧
      system.Startable last
        ((trail system.interpreterOf count call.abspath ++ call.kept).take call.kept.length)
        (if count = 0 then keptEnvironment call.envp else []) := by
  have hpath : (iterated (turned (runTurn system)) count call).map Call.abspath =
      iterated system.interpreterOf count call.abspath := (follows_runTurn system).iterated
  have hstarts {last : Call} (hlast : iterated (turned (runTurn system)) count call = some last) :
      (∃ program, runTurn system last = .inl (.started program)) ↔ system.Startable last.abspath
        ((trail system.interpreterOf count call.abspath ++ call.kept).take call.kept.length)
        (if count = 0 then keptEnvironment call.envp else []) := by
    obtain ⟨hkept, henvp⟩ := kept_of_turned hlast
    have henvironment : keptEnvironment last.envp =
        if count = 0 then keptEnvironment call.envp else [] := by
      cases count with
      | zero => rw [Option.some.inj hlast, if_pos rfl]
      | succ count =>
        rw [henvp (Nat.succ_pos count), if_neg (Nat.succ_ne_zero count)]
        rfl
    rw [starts_iff, hkept, henvironment]
  constructor
  · rintro ⟨program, hexits⟩
    obtain ⟨last, hlast, hprogram⟩ := exits_iff.mp hexits
    rw [hlast, Option.map_some] at hpath
    exact ⟨last.abspath, hpath.symm, (hstarts hlast).mp ⟨program, hprogram⟩⟩
  · rintro ⟨path, hreached, hstartable⟩
    rw [hreached] at hpath
    obtain ⟨last, hlast, rfl⟩ := Option.map_eq_some_iff.mp hpath
    obtain ⟨program, hprogram⟩ := (hstarts hlast).mpr hstartable
    exact ⟨program, exits_iff.mpr ⟨last, hlast, hprogram⟩⟩

/-! ### What an interpreter is to be given -/

/-- What is wanted of the arguments of a program that is started after a number of interpreters:
its own path and, as far as there are entries beside the paths of the interpreters, the path of the
original program and its arguments. -/
def Call.wanted (call : Call) : ℕ → CString → List CString
  | 0, own => own :: call.arguments.take 31
  | between + 1, own => own :: (call.abspath :: call.arguments).take (31 - between)

/-- A run ends, and a program that it starts finds the arguments that are wanted, in order. -/
def Delivers (system : System) (call : Call) : Prop :=
  Ends (runTurn system) call ∧ ∀ count program,
    Exits (runTurn system) count call (.started program) → ∃ arguments environment argv envp,
      Entry program.memory program.esp arguments environment argv envp ∧
        (call.wanted count program.abspath).Sublist arguments

theorem cons_sublist_append_iff {first : CString} {rest front back : List CString}
    (hfirst : first ∉ front) :
    (first :: rest).Sublist (front ++ back) ↔ (first :: rest).Sublist back := by
  constructor
  · intro hsublist
    obtain ⟨one, other, heq, hfront, hback⟩ := List.sublist_append_iff.mp hsublist
    cases one with
    | nil => exact heq ▸ hback
    | cons head tail =>
      obtain ⟨rfl, -⟩ := List.cons.inj heq
      exact absurd (hfront.subset List.mem_cons_self) hfirst
  · exact fun hsublist ↦ hsublist.trans (List.sublist_append_right front back)

/-- The arguments that are wanted are there if and only if no interpreter is run, the caller's
arguments fill all entries, or the interpreters' paths do. -/
theorem wanted_sublist_iff {own : CString} (hreturns : ¬Returns system.interpreterOf call.abspath)
    (hown : iterated system.interpreterOf count call.abspath = some own) :
    (call.wanted count own).Sublist
        ((trail system.interpreterOf count call.abspath ++ call.kept).take call.kept.length) ↔
      count = 0 ∨ 31 ≤ call.arguments.length ∨ 32 ≤ count := by
  cases count with
  | zero =>
    obtain rfl := Option.some.inj hown
    rw [trail, List.nil_append, List.take_length]
    exact iff_of_true (List.Sublist.refl _) (.inl rfl)
  | succ between =>
    have hlength := @length_kept call
    have hpassed := length_trail hown
    obtain ⟨earlier, hearlier⟩ := trail_eq_cons hown
    have houtside : call.abspath ∉ earlier := fun hmem ↦ by
      refine @not_mem_trail _ _ _ (between + 1) hreturns ?_
      rw [hearlier]
      exact List.mem_cons_of_mem _ hmem
    rw [hearlier, List.length_cons, Nat.succ_inj] at hpassed
    rw [hearlier, hlength, List.cons_append, List.take_succ_cons, Call.wanted,
      List.cons_sublist_cons, List.take_append, hpassed]
    by_cases hfull : 31 ≤ between
    · rw [Nat.sub_eq_zero_of_le hfull, List.take_zero]
      exact iff_of_true (List.nil_sublist _) (.inr (.inr (Nat.succ_le_succ hfull)))
    · obtain ⟨more, hmore⟩ : ∃ more, 31 - between = more + 1 := ⟨30 - between, by omega⟩
      rw [hmore, List.take_succ_cons, cons_sublist_append_iff fun hmem ↦
        houtside (List.mem_of_mem_take hmem)]
      constructor
      · intro hsublist
        have hle := hsublist.length_le
        rw [List.length_cons, List.length_take, List.length_take, hlength] at hle
        omega
      · intro hmany
        have hpassing : 31 ≤ call.arguments.length := by omega
        rw [Nat.min_eq_right hpassing, hmore, kept_eq, List.take_succ_cons, List.take_take,
          Nat.min_eq_left (by omega)]

/-- A run ends and delivers the arguments if and only if no path of the chain of interpreters comes
twice and, where the last file of the chain can be started, no interpreter was run, or the caller's
arguments fill all entries, or the paths of the interpreters do. -/
theorem delivers_iff : Delivers system call ↔ ¬Returns system.interpreterOf call.abspath ∧
    ∀ count last, iterated system.interpreterOf count call.abspath = some last →
      system.Startable last
          ((trail system.interpreterOf count call.abspath ++ call.kept).take call.kept.length)
          (if count = 0 then keptEnvironment call.envp else []) →
        count = 0 ∨ 31 ≤ call.arguments.length ∨ 32 ≤ count := by
  rw [Delivers, ends_runTurn_iff]
  refine and_congr_right fun hreturns ↦ ?_
  constructor
  · intro hdelivers count last hlast hstartable
    obtain ⟨program, hexits⟩ := exits_started_iff.mpr ⟨last, hlast, hstartable⟩
    obtain ⟨hown, _, _, _, hstarted⟩ := exits_started hexits
    obtain ⟨arguments, _, _, _, hentry, hwanted⟩ := hdelivers count program hexits
    rw [hentry.arguments_eq hstarted] at hwanted
    exact (wanted_sublist_iff hreturns hown).mp hwanted
  · intro hcondition count program hexits
    obtain ⟨hown, environment, argv, envp, hentry⟩ := exits_started hexits
    obtain ⟨last, hlast, hstartable⟩ := exits_started_iff.mp ⟨program, hexits⟩
    exact ⟨_, environment, argv, envp, hentry,
      (wanted_sublist_iff hreturns hown).mpr (hcondition count last hlast hstartable)⟩

deriving instance DecidableEq for CString

def oneHeaderFile (type : UInt8) (content : List UInt8) : List UInt8 :=
  [0x7F, 0x45, 0x4C, 0x46, 0x01, 0x01, 0x01, 0x00, 0x00, 0x00, 0x00, 0x00, 0x00, 0x00, 0x00, 0x00,
    0x02, 0x00, 0x03, 0x00, 0x01, 0x00, 0x00, 0x00, 0x00, 0x00, 0x40, 0x00, 0x34, 0x00, 0x00, 0x00,
    0x00, 0x00, 0x00, 0x00, 0x00, 0x00, 0x00, 0x00, 0x34, 0x00, 0x20, 0x00, 0x01, 0x00, 0x00, 0x00,
    0x00, 0x00, 0x00, 0x00, type, 0x00, 0x00, 0x00, 0x54, 0x00, 0x00, 0x00, 0x00, 0x00, 0x40, 0x00,
    0x00, 0x00, 0x40, 0x00, UInt8.ofNat content.length, 0x00, 0x00, 0x00, 0x00, 0x10, 0x00, 0x00,
    0x05, 0x00, 0x00, 0x00, 0x00, 0x10, 0x00, 0x00] ++ content

/-- Three files: `/a` is its own interpreter, and `/b` has the program `/c` for one. -/
def threeFiles (abspath : CString) : Option (List UInt8) :=
  if abspath.bytes = [slash, 97] then some (oneHeaderFile 3 [slash, 97])
  else if abspath.bytes = [slash, 98] then some (oneHeaderFile 3 [slash, 99])
  else if abspath.bytes = [slash, 99] then some (oneHeaderFile 1 [])
  else none

def threeFilesSystem : System where
  mayReadFs := true
  mayAllocMemory := true
  vfsStat abspath := (threeFiles abspath).map fun contents ↦
    { isFile := true, size := contents.length }
  malloc _ := true
  vfsReadFile := threeFiles
  environment := .plenty
  buffer _ := 0
  stack _ := 0

def oneArgument (letter : UInt8) (hletter : letter ≠ 0) : Call where
  abspath := ⟨[slash, letter], by simp [slash, hletter], by simp⟩
  argc := 1
  argv := some [some ⟨[120], by simp, by simp⟩]
  envp := none

/-- A program that is its own interpreter is run without end, and an interpreter does not get the
last argument of the program that it is run for. -/
theorem not_delivers : ¬Delivers threeFilesSystem (oneArgument 97 (by decide)) ∧
    ¬Delivers threeFilesSystem (oneArgument 98 (by decide)) := by
  constructor
  · rintro ⟨hends, -⟩
    refine ends_runTurn_iff.mp hends ⟨0, 1, _, Nat.one_pos, rfl, ?_⟩
    decide +kernel
  · rintro ⟨hends, hdelivers⟩
    have hreturns := ends_runTurn_iff.mp hends
    let last := (oneArgument 99 (by decide)).abspath
    have hlast : iterated threeFilesSystem.interpreterOf 1 (oneArgument 98 (by decide)).abspath =
        some last := by
      decide +kernel
    have hloads : (threeFilesSystem.openFile last).any fun image ↦
        (userElfRunArgv threeFilesSystem.environment image).Yields
          (.program 0x400000 0x400000 0x401000) := by
      decide +kernel
    obtain ⟨image, hopen, hprogram⟩ := (Option.any_eq_true _ _).mp hloads
    obtain ⟨program, hexits⟩ := exits_started_iff.mpr ⟨last, hlast,
      ⟨image, _, _, _, hopen, of_decide_eq_true hprogram⟩, by decide +kernel⟩
    obtain ⟨hown, _, _, _, hstarted⟩ := exits_started hexits
    obtain ⟨arguments, _, _, _, hentry, hwanted⟩ := hdelivers 1 program hexits
    rw [hentry.arguments_eq hstarted, wanted_sublist_iff hreturns hown] at hwanted
    revert hwanted
    decide

end EynOS.Process.Interpreter
