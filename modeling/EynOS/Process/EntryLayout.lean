import EynOS.Process.InitialStack

/-!
# The initial stack read back

`Entry` is the layout of the words and strings that a program of the i386 finds at its first stack
pointer. `builds_entry` says that what `user_stack_build_argv` leaves is the entry of its path, the
arguments that it keeps and the first strings of the environment, and `ne_zero_iff` when it leaves
one at all.
-/

namespace EynOS.Process.InitialStack

open Foundation Reader

/-! ### The layout -/

def StringAt (memory : ℕ → UInt8) (address : ℕ) (string : CString) : Prop :=
  Holds memory address string.terminated

/-- The entry of a process: the count of the arguments, the pointers to them and a null pointer, the
pointers to the environment and a null pointer, and the pair of zeros that ends the auxiliary
vector. -/
structure Entry (memory : ℕ → UInt8) (esp : ℕ) (arguments environment : List CString)
    (argv envp : List ℕ) : Prop where
  words : readWords memory esp (argv.length + envp.length + 5) =
    arguments.length :: (argv ++ 0 :: (envp ++ [0, 0, 0]))
  nonnull : 0 ∉ argv ++ envp
  argvStrings : List.Forall₂ (StringAt memory) argv arguments
  envpStrings : List.Forall₂ (StringAt memory) envp environment
  apart : ({ start := esp, length := 4 * (argv.length + envp.length + 5) } ::
    regions (envp ++ argv) (blocks (environment ++ arguments))).Pairwise Region.Apart

/-! ### Strings and words one behind another -/

variable {memory : ℕ → UInt8} {esp base start floor : ℕ}
  {arguments environment strings : List CString} {stack next : Stack}

/-- A string at an address is no longer than another one there. -/
theorem StringAt.length_le {address : ℕ} {first second : CString}
    (hfirst : StringAt memory address first) (hsecond : StringAt memory address second) :
    first.bytes.length ≤ second.bytes.length := by
  by_contra hnot
  have hless := Nat.not_le.mp hnot
  -- the terminator of the second string is in the first one
  have hzero := hsecond second.bytes.length (by simp [CString.terminated])
  have hbyte := hfirst second.bytes.length (by simp only [CString.terminated,
    List.length_append, List.length_singleton]; omega)
  simp only [CString.terminated, List.getElem_append_left hless] at hbyte
  simp only [CString.terminated, List.getElem_concat_length] at hzero
  exact first.nonzero _ (List.getElem_mem hless) (hbyte.symm.trans hzero)

theorem rightUnique_stringAt : Relator.RightUnique (StringAt memory) := by
  intro address first second hfirst hsecond
  have hlength := Nat.le_antisymm (hfirst.length_le hsecond) (hsecond.length_le hfirst)
  have hbytes : first.bytes = second.bytes := by
    refine List.ext_getElem hlength fun index hindex hother ↦ ?_
    have hone := (holds_append.mp hfirst).1 index hindex
    exact hone.symm.trans ((holds_append.mp hsecond).1 index hother)
  cases first
  cases second
  exact (CString.mk.injEq ..).mpr hbytes

/-- A program finds one list of arguments. -/
theorem Entry.arguments_eq {argv envp otherArgv otherEnvp : List ℕ}
    {otherArguments otherEnvironment : List CString}
    (hentry : Entry memory esp arguments environment argv envp)
    (hother : Entry memory esp otherArguments otherEnvironment otherArgv otherEnvp) :
    arguments = otherArguments := by
  -- the count comes first, and then as many pointers
  have hread {count : List CString} {pointers more : List ℕ} {others : ℕ}
      (hwords : readWords memory esp (pointers.length + others + 5) =
        count.length :: (pointers ++ 0 :: more)) :
      wordAt memory esp = count.length ∧ readWords memory (esp + 4) pointers.length = pointers := by
    rw [readWords, List.cons.injEq] at hwords
    have htake := @take_readWords memory (esp + 4) pointers.length (others + 4)
    rw [← Nat.add_assoc, hwords.2, List.take_left] at htake
    exact ⟨hwords.1, htake.symm⟩
  obtain ⟨hcount, hargv⟩ := hread hentry.words
  obtain ⟨hotherCount, hotherArgv⟩ := hread hother.words
  have hlength : argv.length = otherArgv.length := by
    rw [hentry.argvStrings.length_eq, hother.argvStrings.length_eq, ← hcount, hotherCount]
  have hpointers : argv = otherArgv := by
    rw [← hargv, hlength, hotherArgv]
  have hstrings := hentry.argvStrings
  rw [hpointers] at hstrings
  exact List.right_unique_forall₂' rightUnique_stringAt hstrings hother.argvStrings

theorem blocks_append :
    blocks (environment ++ arguments) = blocks environment ++ blocks arguments :=
  List.map_append

theorem length_blocks : (blocks strings).length = strings.length := List.length_map _

/-- Strings that are held one behind another are at their positions. -/
theorem forall₂_stringAt (hholds : Holds memory start (blocks strings).flatten) :
    List.Forall₂ (StringAt memory) (positions start (blocks strings)) strings := by
  have hpositions := forall₂_positions hholds
  rwa [blocks, List.forall₂_map_right_iff] at hpositions

def entryWords (base : ℕ) (arguments environment : List CString) : List ℕ :=
  arguments.length ::
    (positions (base + (blocks environment).flatten.length) (blocks arguments) ++
      0 :: (positions base (blocks environment) ++ [0, 0, 0]))

theorem length_entryWords : (entryWords base arguments environment).length =
    arguments.length + environment.length + 5 := by
  simp [entryWords, length_blocks]
  omega

/-- The words of an entry with the strings of the environment and those of the arguments above
them. -/
theorem entry_of_holds
    (hwords : Holds memory esp (wordBytes (entryWords base arguments environment)))
    (hstrings : Holds memory base (blocks (environment ++ arguments)).flatten)
    (habove : esp + 4 * (arguments.length + environment.length + 5) ≤ base) (hbase : 0 < base)
    (hbelow : base + (blocks (environment ++ arguments)).flatten.length < 4294967296) :
    Entry memory esp arguments environment
      (positions (base + (blocks environment).flatten.length) (blocks arguments))
      (positions base (blocks environment)) := by
  have hpositions : positions base (blocks environment) ++
      positions (base + (blocks environment).flatten.length) (blocks arguments) =
        positions base (blocks (environment ++ arguments)) := by
    rw [blocks_append, positions_append]
  have hbounds : ∀ address ∈ positions base (blocks (environment ++ arguments)),
      0 < address ∧ address < 4294967296 := fun address haddress ↦ by
    have hwithin := within_of_mem_positions haddress
    omega
  have hboth := hstrings
  rw [blocks_append, List.flatten_append, holds_append] at hboth
  have hpointers : ∀ address ∈ positions (base + (blocks environment).flatten.length)
      (blocks arguments) ++ positions base (blocks environment),
      0 < address ∧ address < 4294967296 := fun address haddress ↦ by
    refine hbounds address ?_
    rw [← hpositions]
    exact List.mem_append.mpr (List.mem_append.mp haddress).symm
  refine ⟨?_, fun hzero ↦ absurd (hpointers 0 hzero).1 (Nat.lt_irrefl 0),
    forall₂_stringAt hboth.2, forall₂_stringAt hboth.1, ?_⟩
  · rw [length_positions, length_positions, length_blocks, length_blocks, ← length_entryWords]
    refine readWords_of_holds hwords fun value hvalue ↦ ?_
    simp only [entryWords, List.mem_cons, List.mem_append, List.not_mem_nil, or_false] at hvalue
    rcases hvalue with rfl | hargv | rfl | henvp | rfl | rfl | rfl
    · omega
    · exact (hpointers value (List.mem_append_left _ hargv)).2
    · decide
    · exact (hpointers value (List.mem_append_right _ henvp)).2
    all_goals decide
  · rw [hpositions, length_positions, length_positions, length_blocks, length_blocks]
    refine .cons (fun region hregion ↦ .inl ?_) pairwise_regions
    exact habove.trans (within_of_mem_regions hregion).1

/-! ### What the construction leaves -/

theorem build_eq : build floor arguments environment stack =
    copyStrings floor arguments stack >>= fun (argvPtrs, stack) ↦
      copyStrings floor environment stack >>= fun (envPtrs, stack) ↦
        pushAll floor (arguments.length :: (argvPtrs ++ 0 :: (envPtrs ++ [0, 0, 0])))
          stack.align := by
  simp only [build, pushAll, pushAll_append, bind_assoc, ok_bind]

theorem length_flatten_blocks_append : (blocks (environment ++ arguments)).flatten.length =
    (blocks environment).flatten.length + (blocks arguments).flatten.length := by
  rw [blocks_append, List.flatten_append, List.length_append]

/-- A construction that succeeds copies all strings and then pushes the words of an entry. -/
theorem pushAll_of_build (hstack : stack.Sound floor)
    (hbuild : build floor arguments environment stack = .ok next) :
    ∃ base, Grows stack base (blocks (environment ++ arguments)).flatten ∧ base.Sound floor ∧
      base.totalBytes =
        stack.totalBytes + (blocks (environment ++ arguments)).flatten.length ∧
      pushAll floor (entryWords base.sp arguments environment) base.align = .ok next := by
  rw [build_eq] at hbuild
  obtain ⟨⟨argv, copied⟩, hargv, hbuild⟩ := bind_eq_ok.mp hbuild
  obtain ⟨⟨envp, base⟩, henvp, hpush⟩ := bind_eq_ok.mp hbuild
  obtain ⟨hcopied, hcopiedSound, hcopiedTotal, rfl⟩ := grows_copyStrings hstack hargv
  obtain ⟨hbase, hbaseSound, hbaseTotal, rfl⟩ := grows_copyStrings hcopiedSound henvp
  rw [← hbase.sp] at hpush
  refine ⟨base, ?_, hbaseSound, ?_, hpush⟩
  · rw [blocks_append, List.flatten_append]
    exact hcopied.trans hbase
  · rw [hbaseTotal, hcopiedTotal, length_flatten_blocks_append]
    omega

/-- Where all strings are copied, the construction goes on with the words of an entry. -/
theorem build_of_pushAll (hstack : stack.Sound floor)
    (hbytes : stack.totalBytes + (blocks (environment ++ arguments)).flatten.length ≤ maxArgBytes)
    (hsp : floor + (blocks (environment ++ arguments)).flatten.length ≤ stack.sp) :
    ∃ base : Stack, base.sp + (blocks (environment ++ arguments)).flatten.length = stack.sp ∧
      ∀ next, pushAll floor (entryWords base.sp arguments environment) base.align = .ok next →
        build floor arguments environment stack = .ok next := by
  rw [length_flatten_blocks_append] at hbytes hsp
  obtain ⟨⟨argv, copied⟩, hargv⟩ := (copyStrings_iff hstack).mpr
    (show stack.totalBytes + (blocks arguments).flatten.length ≤ maxArgBytes ∧ _ by omega)
  obtain ⟨hcopied, hcopiedSound, hcopiedTotal, rfl⟩ := grows_copyStrings hstack hargv
  have hcopiedSp := hcopied.sp
  obtain ⟨⟨envp, base⟩, henvp⟩ := (copyStrings_iff hcopiedSound).mpr
    (show copied.totalBytes + (blocks environment).flatten.length ≤ maxArgBytes ∧ _ by omega)
  obtain ⟨hbase, -, -, rfl⟩ := grows_copyStrings hcopiedSound henvp
  have hbaseSp := hbase.sp
  refine ⟨base, by rw [length_flatten_blocks_append]; omega, fun next hpush ↦ ?_⟩
  rw [entryWords, hbaseSp] at hpush
  rw [build_eq]
  exact bind_eq_ok.mpr ⟨_, hargv, bind_eq_ok.mpr ⟨_, henvp, hpush⟩⟩

/-- What the construction leaves where it succeeds. -/
theorem entry_of_build (hstack : stack.Sound floor)
    (hbuild : build floor arguments environment stack = .ok next) :
    floor ≤ next.sp ∧ next.sp % 4 = 0 ∧
      ∃ argv envp, Entry next.memory next.sp arguments environment argv envp := by
  obtain ⟨base, hstrings, hbase, -, hpush⟩ := pushAll_of_build hstack hbuild
  have hroom : 2048 ≤ floor := hbase.room
  have habove := hbase.above
  have hbelow := hbase.below
  have hbelowTop := hstack.below
  have halign : base.align.sp = base.sp / 4 * 4 := rfl
  obtain ⟨hwords, hfloor⟩ := grows_pushAll (by omega) (by omega) (by omega) hpush
  have hsp := hwords.sp
  have hbaseSp := hstrings.sp
  rw [length_wordBytes, length_entryWords] at hsp
  refine ⟨hfloor (List.cons_ne_nil _ _), by omega, _, _, entry_of_holds hwords.holds
    (hwords.holds_of_le hstrings.holds ?_) (by omega) (by omega) (by omega)⟩
  exact Nat.div_mul_le_self _ _

/-- The construction succeeds if and only if the strings fit their limit and the words and strings
fit the stack. -/
theorem build_iff (hstack : stack.Sound floor) :
    (∃ next, build floor arguments environment stack = .ok next) ↔
      stack.totalBytes + (blocks (environment ++ arguments)).flatten.length ≤ maxArgBytes ∧
        floor + (blocks (environment ++ arguments)).flatten.length ≤ stack.sp ∧
          floor + 4 * (arguments.length + environment.length + 5) ≤
            (stack.sp - (blocks (environment ++ arguments)).flatten.length) / 4 * 4 := by
  have hroom : 2048 ≤ floor := hstack.room
  constructor
  · rintro ⟨next, hbuild⟩
    obtain ⟨base, hstrings, hbase, htotal, hpush⟩ := pushAll_of_build hstack hbuild
    have hcounted := hbase.counted
    have habove := hbase.above
    have hbelow := hbase.below
    have halign : base.align.sp = base.sp / 4 * 4 := rfl
    obtain ⟨hwords, hfloor⟩ := grows_pushAll (by omega) (by omega) (by omega) hpush
    have hsp := hwords.sp
    have hnext := hfloor (List.cons_ne_nil _ _)
    have hbaseSp := hstrings.sp
    rw [length_wordBytes, length_entryWords] at hsp
    rw [← htotal, ← hbaseSp, Nat.add_sub_cancel]
    omega
  · rintro ⟨hbytes, hsp, hwords⟩
    obtain ⟨base, hbaseSp, hbuild⟩ := build_of_pushAll hstack hbytes hsp
    rw [← hbaseSp, Nat.add_sub_cancel] at hwords
    have hbelow := hstack.below
    have halign : base.align.sp = base.sp / 4 * 4 := rfl
    obtain ⟨next, hpush⟩ :
        ∃ next, pushAll floor (entryWords base.sp arguments environment) base.align = .ok next := by
      refine pushAll_of_le (by omega) (by omega) ?_
      rw [length_entryWords]
      omega
    exact ⟨next, hbuild next hpush⟩

/-! ### The stack of a program -/

variable {userStackTop userStackFloor : ℕ}

/-- The caller's stack before the construction. -/
theorem sound_start (hfloor : maxArgBytes ≤ userStackFloor) (htop : userStackFloor ≤ userStackTop)
    (hbelow : userStackTop < 4294967296) (memory : ℕ → UInt8) :
    Stack.Sound userStackFloor { sp := userStackTop, totalBytes := 0, memory } :=
  ⟨hfloor, htop, hbelow, Nat.zero_le _⟩

/-- The arguments of a program: its path, and those that are not null as far as there are
entries. -/
def keptArguments (progAbspath : Option CString) (argc : ℤ)
    (argv : Option (List (Option CString))) : List CString :=
  progAbspath.getD .empty :: ((argv.getD []).take argc.toNat).reduceOption.take 31

def keptEnvironment (envp : Option (List CString)) : List CString := (envp.getD []).take 32

/-- The construction starts from the strings that are kept. -/
theorem build_kept (progAbspath : Option CString) (argc : ℤ)
    (argv : Option (List (Option CString))) (envp : Option (List CString)) (memory : ℕ → UInt8) :
    build userStackFloor (localArgv progAbspath argc argv) (countedEnv envp)
        { sp := userStackTop, totalBytes := 0, memory } =
      build userStackFloor (keptArguments progAbspath argc argv) (keptEnvironment envp)
        { sp := userStackTop, totalBytes := 0, memory } := by
  rw [localArgv, keepArgs_eq]
  rfl

/-- Exactly the strings that fit their limit and the stack are left there. -/
theorem userStackBuildArgv_ne_zero_iff (hfloor : maxArgBytes ≤ userStackFloor)
    (htop : userStackFloor ≤ userStackTop) (hbelow : userStackTop < 4294967296)
    (progAbspath : Option CString) (argc : ℤ) (argv : Option (List (Option CString)))
    (envp : Option (List CString)) (memory : ℕ → UInt8) :
    (userStackBuildArgv userStackTop userStackFloor progAbspath argc argv envp memory).1 ≠ 0 ↔
      (blocks (keptEnvironment envp ++ keptArguments progAbspath argc argv)).flatten.length ≤
          maxArgBytes ∧
        userStackFloor +
            (blocks (keptEnvironment envp ++ keptArguments progAbspath argc argv)).flatten.length ≤
          userStackTop ∧
        userStackFloor +
            4 * ((keptArguments progAbspath argc argv).length + (keptEnvironment envp).length + 5) ≤
          (userStackTop -
            (blocks (keptEnvironment envp ++ keptArguments progAbspath argc argv)).flatten.length) /
              4 * 4 := by
  have hsound := sound_start hfloor htop hbelow memory
  have hiff := @build_iff userStackFloor (keptArguments progAbspath argc argv)
    (keptEnvironment envp) _ hsound
  simp only [Nat.zero_add] at hiff
  rw [← hiff, userStackBuildArgv, build_kept]
  cases hbuild : build userStackFloor (keptArguments progAbspath argc argv)
      (keptEnvironment envp) { sp := userStackTop, totalBytes := 0, memory } with
  | error memory => simp
  | ok stack =>
    have habove := (entry_of_build hsound hbuild).1
    have hroom := hsound.room
    unfold maxArgBytes at hroom
    simp only [Except.ok.injEq, exists_eq', iff_true]
    omega

/-- Where a stack pointer is left, it is that of an entry. -/
theorem entry_of_ne_zero (hfloor : maxArgBytes ≤ userStackFloor)
    (htop : userStackFloor ≤ userStackTop) (hbelow : userStackTop < 4294967296)
    {progAbspath : Option CString} {argc : ℤ} {argv : Option (List (Option CString))}
    {envp : Option (List CString)} {memory next : ℕ → UInt8} {esp : ℕ}
    (hbuild : userStackBuildArgv userStackTop userStackFloor progAbspath argc argv envp memory =
      (esp, next)) (hesp : esp ≠ 0) :
    userStackFloor ≤ esp ∧ esp % 4 = 0 ∧ ∃ argvPtrs envPtrs,
      Entry next esp (keptArguments progAbspath argc argv) (keptEnvironment envp) argvPtrs
        envPtrs := by
  have hsound := sound_start hfloor htop hbelow memory
  rw [userStackBuildArgv, build_kept] at hbuild
  cases hstack : build userStackFloor (keptArguments progAbspath argc argv)
      (keptEnvironment envp) { sp := userStackTop, totalBytes := 0, memory } with
  | error memory =>
    rw [hstack] at hbuild
    exact absurd (Prod.mk.inj hbuild).1.symm hesp
  | ok stack =>
    rw [hstack] at hbuild
    obtain ⟨rfl, rfl⟩ := Prod.mk.inj hbuild
    exact entry_of_build hsound hstack

/-- What is left for a program is the entry of its arguments and its environment. -/
theorem builds_entry (hfloor : maxArgBytes ≤ userStackFloor) (htop : userStackFloor ≤ userStackTop)
    (hbelow : userStackTop < 4294967296) (progAbspath : Option CString) (argc : ℤ)
    (argv : Option (List (Option CString))) (envp : Option (List CString)) (memory : ℕ → UInt8) :
    let started :=
      userStackBuildArgv userStackTop userStackFloor progAbspath argc argv envp memory
    started.1 = 0 ∨ userStackFloor ≤ started.1 ∧ started.1 % 4 = 0 ∧ ∃ argvPtrs envPtrs,
      Entry started.2 started.1 (keptArguments progAbspath argc argv) (keptEnvironment envp)
        argvPtrs envPtrs := by
  intro started
  by_cases hzero : started.1 = 0
  · exact .inl hzero
  · exact .inr (entry_of_ne_zero hfloor htop hbelow rfl hzero)

/-- `ls -l /` with one string in the environment. -/
theorem builds_entry_ls :
    let started := userStackBuildArgv 0xBFFFFFF0 0xBFFF8000
      (some ⟨[108, 115], by simp, by decide⟩) 3
      (some [some ⟨[45, 108], by simp, by decide⟩, none, some ⟨[47], by simp, by decide⟩])
      (some [⟨[65, 61, 49], by simp, by decide⟩]) fun _ ↦ 0
    0xBFFF8000 ≤ started.1 ∧ started.1 % 4 = 0 ∧ ∃ argvPtrs envPtrs,
      Entry started.2 started.1
        [⟨[108, 115], by simp, by decide⟩, ⟨[45, 108], by simp, by decide⟩,
          ⟨[47], by simp, by decide⟩]
        [⟨[65, 61, 49], by simp, by decide⟩] argvPtrs envPtrs :=
  (builds_entry (by decide) (by decide) (by decide) _ _ _ _ _).resolve_left
    ((userStackBuildArgv_ne_zero_iff (by decide) (by decide) (by decide) _ _ _ _ _).mpr
      ⟨by decide, by decide, by decide⟩)

end EynOS.Process.InitialStack
