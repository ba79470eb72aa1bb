import TagMachine.Machine.Run
import TagMachine.Proofs.Memory.Tape

/-!
# Loading a program

Copying a program into the store writes its bytes one after another.  A byte that was written is
read back, every other byte of the tape stays, and so does every word outside the store.  A machine
just made and loaded therefore shows an empty stack, and its store holds the program and zeros.
-/

namespace TagMachine

namespace Memory

/-! ## Writing bytes of the store -/

/-- Replaces the tape's byte at an offset. -/
def putByte (memory : Memory) (offset : Nat) (byte : UInt8) : Memory :=
  let position := memory.layout.programBase + offset / 8
  memory.put position (Bits.withByte (memory.wordAt position) (offset % 8) byte)

/-- Replaces the tape's bytes from an offset on. -/
def putBytes (memory : Memory) (offset : Nat) : Bytes → Memory
  | [] => memory
  | byte :: rest => (memory.putByte offset byte).putBytes (offset + 1) rest

@[simp] theorem layout_putByte (memory : Memory) (offset : Nat) (byte : UInt8) :
    (memory.putByte offset byte).layout = memory.layout := rfl

@[simp] theorem layout_putBytes (memory : Memory) (offset : Nat) (bytes : Bytes) :
    (memory.putBytes offset bytes).layout = memory.layout := by
  induction bytes generalizing memory offset with
  | nil => rfl
  | cons byte rest inductionHypothesis => rw [putBytes, inductionHypothesis, layout_putByte]

theorem storeProgramByte_eq {memory : Memory} (bounded : memory.layout.Bounded) {offset : UInt64}
    (inside : offset.toNat < 8 * (memory.layout.programWords + 1)) (byte : UInt8) :
    storeProgramByte offset byte memory = .ok () (memory.putByte offset.toNat byte) := by
  have word : memory.layout.programBase + offset.toNat / 8 < memory.layout.words := by
    simp only [Layout.words, Layout.flagsWord]
    omega
  rw [storeProgramByte, bind_of_ok (bytePosition_eq bounded inside)]
  dsimp only
  rw [bind_of_ok (load_eq bounded word), store_eq bounded word]
  rfl

theorem byteAt_putByte {memory : Memory} {offset : Nat}
    (inside : offset < 8 * (memory.layout.programWords + 1)) (byte : UInt8) (other : Nat) :
    (memory.putByte offset byte).byteAt other =
      if other = offset then byte else memory.byteAt other := by
  have word : memory.layout.programBase + offset / 8 < memory.layout.words := by
    simp only [Layout.words, Layout.flagsWord]
    omega
  rw [byteAt, layout_putByte, putByte]
  by_cases sameWord : other / 8 = offset / 8
  · rw [sameWord, wordAt_put_self word,
      Bits.byteIn_withByte (Nat.mod_lt _ (by omega)) (Nat.mod_lt _ (by omega)), byteAt, sameWord]
    by_cases same : other = offset
    · rw [if_pos (by rw [same]), if_pos same]
    · rw [if_neg (by omega), if_neg same]
  · rw [wordAt_put_of_ne _ (by omega), if_neg (by omega), byteAt]

theorem byteAt_putBytes {memory : Memory} {offset : Nat} {bytes : Bytes}
    (inside : offset + bytes.length ≤ 8 * (memory.layout.programWords + 1)) (other : Nat) :
    (memory.putBytes offset bytes).byteAt other =
      if offset ≤ other ∧ other < offset + bytes.length then bytes.getD (other - offset) 0
      else memory.byteAt other := by
  induction bytes generalizing memory offset with
  | nil => rw [putBytes, if_neg (by simp)]
  | cons byte rest inductionHypothesis =>
      simp only [List.length_cons] at inside ⊢
      rw [putBytes, inductionHypothesis (by rw [layout_putByte]; omega),
        byteAt_putByte (by omega)]
      by_cases first : other = offset
      · subst first
        rw [if_neg (by omega), if_pos rfl, if_pos (by omega), Nat.sub_self, List.getD_cons_zero]
      · by_cases later : offset + 1 ≤ other ∧ other < offset + 1 + rest.length
        · have oneMore : other - offset = other - (offset + 1) + 1 := by omega
          rw [if_pos later, if_pos (by omega), oneMore, List.getD_cons_succ]
        · rw [if_neg later, if_neg first, if_neg (by omega)]

theorem wordAt_putBytes {memory : Memory} {offset position : Nat} {bytes : Bytes}
    (inside : offset + bytes.length ≤ 8 * memory.layout.programWords)
    (outside : position < memory.layout.programBase ∨ memory.layout.flagsWord ≤ position) :
    (memory.putBytes offset bytes).wordAt position = memory.wordAt position := by
  induction bytes generalizing memory offset with
  | nil => rfl
  | cons byte rest inductionHypothesis =>
      simp only [List.length_cons] at inside
      have later := @inductionHypothesis (memory.putByte offset byte) (offset + 1)
        (by rw [layout_putByte]; omega) outside
      rw [putBytes, later, putByte]
      apply wordAt_put_of_ne
      simp only [Layout.flagsWord] at outside
      omega

end Memory

namespace Machine

open Memory

theorem storeFrom_eq {memory : Memory} (bounded : memory.layout.Bounded) {offset : UInt64}
    {bytes : Bytes}
    (inside : offset.toNat + bytes.length ≤ 8 * (memory.layout.programWords + 1)) :
    storeFrom offset bytes memory = .ok () (memory.putBytes offset.toNat bytes) := by
  induction bytes generalizing memory offset with
  | nil => rfl
  | cons byte rest inductionHypothesis =>
      simp only [List.length_cons] at inside
      have next := toNat_add_one bounded offset (by omega)
      rw [storeFrom, bind_of_ok (storeProgramByte_eq bounded (by omega) byte),
        @inductionHypothesis (memory.putByte offset.toNat byte) bounded (offset + 1)
          (by rw [next, layout_putByte]; omega), next]
      rfl

/-- No byte of a program that is shorter than the store is refused. -/
theorem storeFrom_of_lt {memory : Memory} (bounded : memory.layout.Bounded) {program : Program}
    (short : program.length < memory.layout.programBytes) :
    storeFrom 0 program.bytes memory = .ok () (memory.putBytes 0 program.bytes) := by
  apply storeFrom_eq bounded
  simp only [Program.length] at short
  simp only [Layout.programWords, UInt64.toNat_zero]
  omega

/-! ## A machine just made and loaded -/

/-- The machine was made for the limits and loaded with the program, and nothing more. -/
def Boots (config : Config) (program : Program) (machine : Machine) : Prop :=
  ∃ fresh, Machine.new config = .ok fresh ∧ fresh.load program = .ok machine

/-- The machine that is made for the limits and loaded with the program. -/
def loaded (config : Config) (program : Program) : Machine where
  config := config
  memory :=
    ((Memory.blank ⟨config.stackCapacity, config.programCapacity⟩).putBytes 0
      program.bytes).setProgramLength (UInt32.ofNat program.length)
  heap := Heap.empty config.maxLiveStrings
  isDone := false
  cycles := 0

theorem new_eq_ok_iff (config : Config) (fresh : Machine) :
    Machine.new config = .ok fresh ↔
      config.Valid ∧ fresh =
        { config
          memory := Memory.blank ⟨config.stackCapacity, config.programCapacity⟩
          heap := Heap.empty config.maxLiveStrings
          isDone := false
          cycles := 0 } := by
  constructor
  · intro made
    have accepted : config.validate = .ok () := by
      cases checked : config.validate with
      | ok => rfl
      | error refusal => simp [Machine.new, bind, Except.bind, checked] at made
    have valid := (config.validate_eq_ok_iff).mp accepted
    simp only [Machine.new, bind, Except.bind, accepted, Layout.ofConfig_of_valid valid, pure,
      Except.pure, Except.ok.injEq] at made
    exact ⟨valid, made.symm⟩
  · rintro ⟨valid, rfl⟩
    have accepted := (config.validate_eq_ok_iff).mpr valid
    simp only [Machine.new, bind, Except.bind, accepted, Layout.ofConfig_of_valid valid, pure,
      Except.pure]

theorem bounded_of_valid {config : Config} (valid : config.Valid) :
    Layout.Bounded ⟨config.stackCapacity, config.programCapacity⟩ :=
  ⟨valid.stack_le, valid.program_le⟩

/-- Loading succeeds just when the program is shorter than the store. -/
theorem boots_iff (config : Config) (program : Program) (machine : Machine) :
    Boots config program machine ↔
      config.Valid ∧ program.length < config.programCapacity ∧
        machine = loaded config program := by
  have stores (valid : config.Valid) (short : program.length < config.programCapacity) :
      storeFrom 0 program.bytes (Memory.blank ⟨config.stackCapacity, config.programCapacity⟩) =
        .ok () ((Memory.blank ⟨config.stackCapacity, config.programCapacity⟩).putBytes 0
          program.bytes) :=
    storeFrom_of_lt (bounded_of_valid valid) short
  constructor
  · rintro ⟨fresh, made, loading⟩
    rcases (new_eq_ok_iff config fresh).mp made with ⟨valid, rfl⟩
    unfold load at loading
    dsimp only [Memory.blank] at loading
    split at loading
    · cases loading
    · rename_i fits
      have short := Nat.lt_of_not_le fits
      have stored := stores valid short
      simp only [Memory.blank] at stored
      rw [stored] at loading
      simp only [Except.ok.injEq] at loading
      exact ⟨valid, short, loading.symm⟩
  · rintro ⟨valid, short, rfl⟩
    refine ⟨_, (new_eq_ok_iff config _).mpr ⟨valid, rfl⟩, ?_⟩
    unfold load
    dsimp only
    rw [if_neg (by simpa [Memory.blank] using short), stores valid short]
    rfl

theorem boots_loaded {config : Config} {program : Program} (accepted : config.validate = .ok ())
    (short : program.length < config.programCapacity) :
    (loaded config program).Boots config program :=
  (boots_iff config program _).mpr ⟨(config.validate_eq_ok_iff).mp accepted, short, rfl⟩

theorem Boots.fresh {config : Config} {program : Program} {machine : Machine}
    (boots : machine.Boots config program) :
    machine.isDone = false ∧ machine.config = config := by
  rcases (boots_iff config program machine).mp boots with ⟨_, _, rfl⟩
  exact ⟨rfl, rfl⟩

section Loaded

variable {config : Config} {program : Program}

@[simp] theorem layout_loaded :
    (loaded config program).memory.layout = ⟨config.stackCapacity, config.programCapacity⟩ := by
  simp only [loaded, setProgramLength, layout_setFlags, layout_putBytes, Memory.blank]

theorem flags_loaded (short : program.length < config.programCapacity) :
    (loaded config program).memory.flags =
      flagWord false false (UInt32.ofNat program.length) := by
  have untouched :
      ((Memory.blank ⟨config.stackCapacity, config.programCapacity⟩).putBytes 0
        program.bytes).flags = 0 := by
    rw [Memory.flags, layout_putBytes, wordAt_putBytes _ (Or.inr (Nat.le_refl _)), wordAt_blank]
    simp only [Program.length] at short
    simp only [Memory.blank, Layout.programWords]
    omega
  simp only [loaded, setProgramLength, flags_setFlags, untouched]
  simp [flagWord]

theorem programLength_loaded (valid : config.Valid)
    (short : program.length < config.programCapacity) :
    (loaded config program).memory.programLength.toNat = program.length := by
  have programLe := valid.program_le
  simp only [Config.maxProgramCapacity] at programLe
  rw [Memory.programLength, flags_loaded short, programLength_flagWord, UInt32.toNat_ofNat']
  omega

/-- A loaded machine stands at the beginning, with an empty stack and both flags clear. -/
theorem shows_loaded (valid : config.Valid) (short : program.length < config.programCapacity) :
    (loaded config program).memory.Shows (loaded config program).memory
      ⟨0, [], false, false⟩ where
  bounded := by
    rw [layout_loaded]
    exact bounded_of_valid valid
  layout := rfl
  ip := by
    rw [loaded, setProgramLength, ip_setFlags, Memory.ip, wordAt_putBytes, wordAt_blank]
    · simp only [Program.length] at short
      simp only [Memory.blank, Layout.programWords]
      omega
    · simp only [Layout.ipWord, Layout.programBase, Layout.stackBase]
      omega
  sp := by
    rw [loaded, setProgramLength, sp_setFlags, Memory.sp, wordAt_putBytes, wordAt_blank]
    · rfl
    · simp only [Program.length] at short
      simp only [Memory.blank, Layout.programWords]
      omega
    · simp only [Layout.spWord, Layout.programBase, Layout.stackBase]
      omega
  fits := Nat.zero_le _
  cells := rfl
  flags := by
    rw [flags_loaded short, Memory.programLength, flags_loaded short, programLength_flagWord]
  program := fun _ _ _ => rfl

/-- The store of a loaded machine holds the program, and zeros after it. -/
theorem storeBytes_loaded (short : program.length < config.programCapacity) :
    (loaded config program).memory.storeBytes =
      program.bytes ++
        List.replicate (8 * ((config.programCapacity + 7) / 8) - program.length) 0 := by
  simp only [Program.length] at short ⊢
  have fits : program.bytes.length ≤ 8 * ((config.programCapacity + 7) / 8) := by
    omega
  apply List.ext_getElem
  · rw [length_storeBytes, layout_loaded, List.length_append, List.length_replicate]
    simp only [Layout.programWords]
    omega
  · intro offset insideStore _
    rw [length_storeBytes, layout_loaded] at insideStore
    simp only [Layout.programWords] at insideStore
    have byte :
        (loaded config program).memory.byteAt offset =
          ((Memory.blank ⟨config.stackCapacity, config.programCapacity⟩).putBytes 0
            program.bytes).byteAt offset := by
      simp only [loaded, setProgramLength, byteAt, layout_setFlags]
      rw [wordAt_setFlags]
      simp only [Layout.flagsWord, layout_putBytes, Memory.blank, Layout.programWords]
      omega
    have zero :
        (Memory.blank ⟨config.stackCapacity, config.programCapacity⟩).byteAt offset = 0 := by
      rw [byteAt, wordAt_blank]
      exact Bits.byteIn_zero _
    simp only [storeBytes, List.getElem_map, List.getElem_range, byte]
    rw [byteAt_putBytes (by simp only [Memory.blank, Layout.programWords]; omega), zero]
    by_cases early : offset < program.bytes.length
    · rw [if_pos (by omega), Nat.sub_zero, List.getElem_append_left early,
        List.getD_eq_getElem?_getD, List.getElem?_eq_getElem early, Option.getD_some]
    · rw [if_neg (by omega), List.getElem_append_right (by omega), List.getElem_replicate]

end Loaded

end Machine

end TagMachine
