import TagMachine.Proofs.Reloading.Instructions
import TagMachine.Proofs.SwapCheck

/-!
# Loading one program after another

Loading overwrites as much of the store as the new program is long, and what a longer program left
behind it stays there.  The operand of a push or of a taken jump is not held against the length of
the program, so at the end of the program it may take in such bytes.  A run that reads none of them
is that of a machine which was loaded with the second program alone.
-/

namespace TagMachine

/-! ## What the first program leaves -/

/-- The first program had a byte other than zero here, and the second one is too short to replace
it. -/
def Program.LeftBehind (first second : Program) (offset : Nat) : Prop :=
  second.length ≤ offset ∧ first.bytes.getD offset 0 ≠ 0

instance (first second : Program) (offset : Nat) : Decidable (first.LeftBehind second offset) :=
  inferInstanceAs (Decidable (_ ∧ _))

namespace Memory

/-- The block after a program has been copied into its store. -/
def holding (memory : Memory) (program : Program) : Memory :=
  (memory.putBytes 0 program.bytes).setProgramLength (UInt32.ofNat program.length)

section Holding

variable {memory : Memory} {program : Program}

@[simp] theorem layout_holding (memory : Memory) (program : Program) :
    (memory.holding program).layout = memory.layout := by
  rw [holding, setProgramLength, layout_setFlags, layout_putBytes]

theorem byteAt_holding (fits : program.length ≤ 8 * memory.layout.programWords) {offset : Nat}
    (inside : offset < 8 * memory.layout.programWords) :
    (memory.holding program).byteAt offset =
      if offset < program.length then program.bytes.getD offset 0 else memory.byteAt offset := by
  have written := @byteAt_putBytes memory 0 program.bytes
    (by rw [Nat.zero_add]; exact Nat.le_trans fits (by omega)) offset
  simp only [Nat.zero_le, true_and, Nat.zero_add, Nat.sub_zero] at written
  rw [Program.length, ← written, byteAt, byteAt, layout_holding, layout_putBytes, holding,
    setProgramLength, wordAt_setFlags]
  rw [layout_putBytes, Layout.flagsWord]
  omega

theorem wordAt_holding (fits : program.length ≤ 8 * memory.layout.programWords) {position : Nat}
    (outside : position < memory.layout.programBase ∨ memory.layout.flagsWord ≤ position)
    (notFlags : position ≠ memory.layout.flagsWord) :
    (memory.holding program).wordAt position = memory.wordAt position := by
  rw [holding, setProgramLength, setFlags, layout_putBytes, wordAt_put_of_ne _ notFlags,
    wordAt_putBytes (by rw [Nat.zero_add]; exact fits) outside]

/-- The lower half of the flags holds nothing of the length. -/
theorem flagWord_and_lowerHalf (length : UInt32) :
    flagWord false false length &&& lowerHalf = 0 := by
  apply UInt64.toNat_inj.mp
  have half : lowerHalf.toNat = 2 ^ 32 - 1 := rfl
  rw [UInt64.toNat_and, half, Nat.and_two_pow_sub_one_eq_mod, toNat_flagWord]
  simp

/-- The length replaces that of an earlier program. -/
theorem flags_holding (fits : program.length ≤ 8 * memory.layout.programWords)
    (clear : memory.flags &&& lowerHalf = 0) :
    (memory.holding program).flags = flagWord false false (UInt32.ofNat program.length) := by
  have before : (memory.putBytes 0 program.bytes).flags = memory.flags := by
    rw [flags, layout_putBytes,
      wordAt_putBytes (by rw [Nat.zero_add]; exact fits) (Or.inr (Nat.le_refl _))]
    rfl
  rw [holding, setProgramLength, flags_setFlags, before, clear]
  simp [flagWord]

variable {first second : Program}

/-- Outside of the store a program leaves nothing behind. -/
theorem wordAt_holding_holding (fits : first.length ≤ 8 * memory.layout.programWords)
    (fitsToo : second.length ≤ 8 * memory.layout.programWords)
    (clear : memory.flags &&& lowerHalf = 0) {position : Nat}
    (outside : position < memory.layout.programBase ∨ memory.layout.flagsWord ≤ position) :
    ((memory.holding first).holding second).wordAt position =
      (memory.holding second).wordAt position := by
  have fitsAgain : second.length ≤ 8 * (memory.holding first).layout.programWords := by
    rwa [layout_holding]
  by_cases isFlags : position = memory.layout.flagsWord
  · have clearAgain : (memory.holding first).flags &&& lowerHalf = 0 := by
      rw [flags_holding fits clear, flagWord_and_lowerHalf]
    have same := (flags_holding fitsAgain clearAgain).trans (flags_holding fitsToo clear).symm
    rw [flags, flags, layout_holding, layout_holding, layout_holding, ← isFlags] at same
    exact same
  · rw [wordAt_holding fitsToo outside isFlags,
      wordAt_holding fitsAgain (by rwa [layout_holding]) (by rwa [layout_holding]),
      wordAt_holding fits outside isFlags]

theorem byteAt_holding_holding (fits : first.length ≤ 8 * memory.layout.programWords)
    (fitsToo : second.length ≤ 8 * memory.layout.programWords) {offset : Nat}
    (inside : offset < 8 * memory.layout.programWords) (zero : memory.byteAt offset = 0)
    (unread : ¬first.LeftBehind second offset) :
    ((memory.holding first).holding second).byteAt offset =
      (memory.holding second).byteAt offset := by
  rw [byteAt_holding fitsToo inside, byteAt_holding (by rwa [layout_holding])
    (by rwa [layout_holding]), byteAt_holding fits inside]
  by_cases replaced : offset < second.length
  · rw [if_pos replaced, if_pos replaced]
  · have nothing : first.bytes.getD offset 0 = 0 := by
      apply Classical.byContradiction
      intro left
      exact unread ⟨Nat.le_of_not_lt replaced, left⟩
    rw [if_neg replaced, if_neg replaced, zero, nothing, ite_self]

end Holding

end Memory

namespace Machine

variable {config : Config} {first second : Program} {machine : Machine}

/-- The machine was made for the limits, loaded with one program, then loaded with another. -/
def Reloads (config : Config) (first second : Program) (machine : Machine) : Prop :=
  ∃ once, Boots config first once ∧ once.load second = .ok machine

/-- The machine that is made for the limits and loaded with one program after the other. -/
def reloaded (config : Config) (first second : Program) : Machine :=
  { loaded config first with memory := (loaded config first).memory.holding second }

theorem reloads_iff :
    machine.Reloads config first second ↔
      config.Valid ∧ first.length < config.programCapacity ∧
        second.length < config.programCapacity ∧ machine = reloaded config first second := by
  have stores (valid : config.Valid) (short : second.length < config.programCapacity) :
      storeFrom 0 second.bytes (loaded config first).memory =
        .ok () ((loaded config first).memory.putBytes 0 second.bytes) := by
    apply storeFrom_of_lt
    · rw [layout_loaded]
      exact bounded_of_valid valid
    · rwa [layout_loaded]
  constructor
  · rintro ⟨once, boots, loading⟩
    rcases (boots_iff config first once).mp boots with ⟨valid, short, rfl⟩
    unfold load at loading
    dsimp only at loading
    rw [layout_loaded] at loading
    dsimp only at loading
    split at loading
    · cases loading
    · rename_i fits
      have shortToo := Nat.lt_of_not_le fits
      rw [stores valid shortToo] at loading
      simp only [Except.ok.injEq] at loading
      exact ⟨valid, short, shortToo, loading.symm⟩
  · rintro ⟨valid, short, shortToo, rfl⟩
    refine ⟨loaded config first, (boots_iff config first _).mpr ⟨valid, short, rfl⟩, ?_⟩
    unfold load
    dsimp only
    rw [layout_loaded]
    dsimp only
    rw [if_neg (Nat.not_le_of_lt shortToo), stores valid shortToo]
    rfl

/-- After both loads the store differs from that of the second program alone in what the first one
left. -/
theorem sameBut_reloaded (valid : config.Valid) (short : first.length < config.programCapacity)
    (shortToo : second.length < config.programCapacity) :
    (loaded config second).memory.SameBut (first.LeftBehind second)
      (reloaded config first second).memory := by
  let blank := Memory.blank ⟨config.stackCapacity, config.programCapacity⟩
  change (blank.holding second).SameBut (first.LeftBehind second)
    ((blank.holding first).holding second)
  have fits : first.length ≤ 8 * blank.layout.programWords := by
    change _ ≤ 8 * ((config.programCapacity + 7) / 8)
    omega
  have fitsToo : second.length ≤ 8 * blank.layout.programWords := by
    change _ ≤ 8 * ((config.programCapacity + 7) / 8)
    omega
  have clear : blank.flags &&& Memory.lowerHalf = 0 := by
    rw [Memory.flags, Memory.wordAt_blank, UInt64.zero_and]
  have outside (position : Nat)
      (outOfStore : position < blank.layout.programBase ∨ blank.layout.flagsWord ≤ position) :
      (blank.holding second).wordAt position =
        ((blank.holding first).holding second).wordAt position :=
    (Memory.wordAt_holding_holding fits fitsToo clear outOfStore).symm
  constructor
  · rw [Memory.layout_holding]
    exact bounded_of_valid valid
  · simp only [Memory.layout_holding]
  · simpa only [Memory.layout_holding] using outside
  · intro offset unread
    by_cases inside : offset < 8 * blank.layout.programWords
    · have zero : blank.byteAt offset = 0 := by
        rw [Memory.byteAt, Memory.wordAt_blank]
        exact Bits.byteIn_zero _
      exact (Memory.byteAt_holding_holding fits fitsToo inside zero unread).symm
    · rw [Memory.byteAt, Memory.byteAt]
      simp only [Memory.layout_holding]
      rw [outside]
      right
      simp only [Layout.flagsWord]
      omega

end Machine

/-! ## Steps -/

namespace State

variable {config : Config} {residue : Nat → Prop} {clean stale state : State}

/-- The next step is made, and it reads one of the bytes: as its opcode, or with the instruction. -/
def Meets (residue : Nat → Prop) (state : State) : Prop :=
  state.stop? = none ∧ ∃ fetch ∈ state.fetched?,
    residue fetch.ip.toNat ∨ (Opcode.running fetch.byte).Reads residue state.passed.memory

instance (state : State) [DecidablePred residue] : Decidable (state.Meets residue) :=
  inferInstanceAs (Decidable (_ ∧ _))

theorem SameBut.passed (same : clean.SameBut residue stale) :
    clean.passed.SameBut residue stale.passed where
  world := same.world
  memory := by
    rw [State.passed, State.passed, same.memory.ip]
    exact same.memory.setIp _
  heap := same.heap

theorem SameBut.halted (same : clean.SameBut residue stale) :
    clean.halted.SameBut residue stale.halted :=
  ⟨same.world, same.memory.setHalt true, same.heap⟩

theorem SameBut.stop? (same : clean.SameBut residue stale) :
    clean.stop? = stale.stop? := by
  rw [State.stop?, State.stop?, same.memory.halt, same.memory.programLength, same.memory.ip]

/-- A step that reads none of the bytes leaves no new difference. -/
theorem SameBut.step (same : clean.SameBut residue stale) (goesOn : clean.stop? = none)
    (unmet : ¬clean.Meets residue) (config : Config) :
    Runner.Alike (State.SameBut residue)
      (fun cleanLast staleLast => State.SameBut residue cleanLast.halted staleLast.halted)
      (State.step config clean) (State.step config stale) := by
  cases read : Memory.programByte clean.memory.ip clean.memory with
  | error fault last =>
      rcases same.memory.programByte_of_error read with ⟨rfl, failed⟩
      rw [same.memory.ip] at failed
      rw [step_of_error config read, step_of_error config failed]
      exact .error same.halted
  | ok byte after =>
      have unread : ¬residue clean.memory.ip.toNat := fun met =>
        unmet ⟨goesOn, _, fetched?_of_ok read, Or.inl met⟩
      have unreadToo : ¬(Opcode.running byte).Reads residue clean.passed.memory := fun met =>
        unmet ⟨goesOn, _, fetched?_of_ok read, Or.inr met⟩
      have readToo := same.memory.programByte_of_ok unread read
      rw [same.memory.ip] at readToo
      rw [step_of_ok config read, step_of_ok config readToo]
      have carried := Opcode.carries_execute config unreadToo clean.passed stale.passed same.passed
        rfl
      revert carried
      generalize (Opcode.running byte).execute config clean.passed = cleanEnd
      generalize (Opcode.running byte).execute config stale.passed = staleEnd
      intro carried
      cases carried with
      | ok sameNext _ => exact .ok sameNext
      | error sameLast => exact .error sameLast.halted

/-! ## Runs -/

variable {start other : State} {limit : Nat}

theorem simulation_sameBut
    (unmet : ∀ count state, count < limit → (runner config).after count start = some state →
      ¬state.Meets residue) :
    Runner.Simulation (runner config) (runner config) limit
      (fun count clean stale => State.SameBut residue clean stale ∧
        (runner config).after count start = some clean)
      (State.SameBut residue) where
  agrees now := now.1
  stop? now := now.1.stop?
  step {count clean stale} now within goesOn := by
    have stepped := now.1.step goesOn (unmet count clean within now.2) config
    change Runner.Alike _ _ (State.step config clean) (State.step config stale)
    generalize State.step config stale = staleEnd at stepped ⊢
    cases ran : State.step config clean with
    | ok _ next =>
        rw [ran] at stepped
        cases stepped with
        | ok sameNext =>
            exact .ok ⟨sameNext,
              Runner.after_succ_eq_some_iff.mpr ⟨clean, now.2, goesOn, ran⟩⟩
    | error fault last =>
        rw [ran] at stepped
        cases stepped with
        | error sameLast => exact .error sameLast

end State

/-! ## Where a byte left behind can be met -/

namespace State

variable {config : Config} {first second : Program} {machine : Machine} {world : World}
  {count : Nat} {state : State}

/-- The next step is a push or a taken jump whose operand takes in one of the bytes. -/
def MeetsOperand (residue : Nat → Prop) (state : State) : Prop :=
  ∃ fetch ∈ state.fetched?, Opcode.running fetch.byte ∈ [.push, .jmp, .jnz, .jz] ∧
    ∃ place, place < (Opcode.running fetch.byte).bytesRead state.passed.memory ∧
      residue (fetch.ip.toNat + 1 + place)

/-- Within the stack all cells lie below the store, and so does what is below the lowest of them. -/
theorem clearCell_of_le {memory : Memory} {residue : Nat → Prop} {depth : Nat}
    (bounded : memory.layout.Bounded) (within : memory.sp.toNat ≤ memory.layout.stackCells)
    (small : depth < 2) :
    memory.ClearCell residue (Stack.index memory (UInt64.ofNat depth)) := by
  intro above
  have stackLe := bounded.stack_le
  simp only [Config.maxStackCapacity] at stackLe
  simp only [Memory.cellAddress, Stack.index, Layout.programBase, Layout.stackBase,
    UInt64.toNat_add, UInt64.toNat_sub, UInt64.toNat_ofNat', UInt64.toNat_one] at above
  omega

/-- Before a lone cell is swapped, only operands can take in what the first program left. -/
theorem Meets.meetsOperand (meets : state.Meets (first.LeftBehind second))
    (bounded : state.memory.layout.Bounded)
    (within : state.memory.sp.toNat ≤ state.memory.layout.stackCells)
    (length : state.memory.programLength.toNat = second.length) :
    state.MeetsOperand (first.LeftBehind second) := by
  rcases meets with ⟨goesOn, fetch, fetched, met⟩
  have inside := (State.stop?_eq_none_iff.mp goesOn).2
  have small := state.memory.programLength.toNat_lt
  have isIp := (programByte_of_fetched fetched).2
  have passedIp : state.passed.memory.ip.toNat = state.memory.ip.toNat + 1 := by
    rw [State.passed, Memory.ip_setIp, UInt64.toNat_add, UInt64.toNat_one]
    omega
  have passedLength : state.passed.memory.programLength = state.memory.programLength := by
    rw [State.passed, Memory.programLength, Memory.flags_setIp, Memory.programLength]
  rcases met with atOpcode | ⟨place, read, left⟩ | ⟨depth, read, unclear⟩
  · have past := atOpcode.1
    rw [isIp] at past
    omega
  · have few := (Opcode.running fetch.byte).bytesRead_le state.passed.memory
    have offset : (state.passed.memory.ip + UInt64.ofNat place).toNat =
        fetch.ip.toNat + 1 + place := by
      rw [UInt64.toNat_add, passedIp, UInt64.toNat_ofNat', isIp]
      omega
    rw [offset] at left
    refine ⟨fetch, fetched, ?_, place, read, left⟩
    have past := left.1
    revert read
    cases Opcode.running fetch.byte
    case push | jmp | jnz | jz => exact fun _ => by decide
    case pushs =>
      intro read
      simp only [Opcode.bytesRead] at read
      split at read
      · omega
      · have next : (state.passed.memory.ip + 1).toNat = state.passed.memory.ip.toNat + 1 := by
          rw [UInt64.toNat_add, passedIp, UInt64.toNat_one]
          omega
        have early := Memory.lt_programLength_of_lt_literalBytes next read
        rw [passedIp, passedLength, length, ← isIp] at early
        omega
    all_goals exact fun read => absurd read (Nat.not_lt_zero place)
  · refine absurd (clearCell_of_le ?_ ?_ ?_) unclear
    · exact bounded
    · rw [State.passed, Memory.sp_setIp]
      exact within
    · exact Nat.lt_of_lt_of_le read (Opcode.cellsRead_le _)

end State

/-! ## Machines -/

namespace Machine

variable {config : Config} {first second : Program} {plain again : Machine}
  {residue : Nat → Prop}

/-- What two runs report and leave, the same but for such bytes of the store. -/
structure RanAlikeBut (residue : Nat → Prop) (clean stale : Summary × Machine × World) : Prop where
  summary : clean.1 = stale.1
  world : clean.2.2 = stale.2.2
  machine : stale.2.1 = { clean.2.1 with memory := stale.2.1.memory }
  ip : clean.2.1.memory.ip = stale.2.1.memory.ip
  sp : clean.2.1.memory.sp = stale.2.1.memory.sp
  flags : clean.2.1.memory.flags = stale.2.1.memory.flags
  stackCells : ∀ limit, clean.2.1.stackCells limit = stale.2.1.stackCells limit
  memory : clean.2.1.memory.SameBut residue stale.2.1.memory

theorem cell_eq_of_sameBut {clean stale : Machine}
    (same : clean.memory.SameBut residue stale.memory) {index : UInt64}
    (clear : clean.memory.ClearCell residue index) :
    clean.cell index = stale.cell index := by
  have loads : Carries (Memory.SameBut residue) (fun memory => memory = clean.memory)
      (Memory.loadCell index) fun _ memory => memory = clean.memory := by
    apply Memory.carries_load
    rintro _ rfl
    exact clear
  have carried := loads clean.memory stale.memory same rfl
  unfold cell
  revert carried
  generalize Memory.loadCell index clean.memory = cleanEnd
  generalize Memory.loadCell index stale.memory = staleEnd
  intro carried
  cases carried with
  | ok _ _ => rfl
  | error _ => rfl

theorem stackCells_eq_of_sameBut {clean stale : Machine}
    (same : clean.memory.SameBut residue stale.memory) (limit : Nat) :
    clean.stackCells limit = stale.stackCells limit := by
  have length : clean.stackLength = stale.stackLength := by
    rw [stackLength, stackLength, same.sp, same.layout]
  rw [stackCells, stackCells, ← length]
  apply List.filterMap_congr
  intro index member
  rw [cell_eq_of_sameBut same]
  intro above
  have inside := List.mem_range.mp member
  have stackLe := same.bounded.stack_le
  simp only [stackLength] at inside
  simp only [Config.maxStackCapacity] at stackLe
  simp only [Memory.cellAddress, Layout.programBase, Layout.stackBase, UInt64.toNat_add,
    UInt64.toNat_ofNat'] at above
  omega

theorem Boots.hardened (boots : plain.Boots config second) :
    ∃ machine : Machine, machine.Boots (config.checking .hardened) second ∧
      ∀ world, machine.inWorld world = plain.inWorld world := by
  rcases (boots_iff config second plain).mp boots with ⟨valid, short, rfl⟩
  have stillValid : (config.checking .hardened).Valid :=
    ⟨valid.stack_pos, valid.stack_le, valid.program_pos, valid.program_le, valid.line_le⟩
  refine ⟨loaded (config.checking .hardened) second, ?_, fun world => rfl⟩
  exact (boots_iff _ second _).mpr ⟨stillValid, short, rfl⟩

theorem Boots.meetsOperand (boots : plain.Boots config second) {world : World} {count : Nat}
    {state : State}
    (reached : (State.runner config).after count (plain.inWorld world) = some state)
    (tame : config.swapCheck = .hardened ∨ State.SwapsEnough config (plain.inWorld world) count)
    (meets : state.Meets (first.LeftBehind second)) :
    state.MeetsOperand (first.LeftBehind second) := by
  rcases boots.hardened with ⟨machine, bootsHardened, sameStart⟩
  have reachedHardened : (State.runner (config.checking .hardened)).after count
      (machine.inWorld world) = some state := by
    rw [sameStart]
    cases check : config.swapCheck with
    | hardened =>
        have unchanged : config.checking .hardened = config := by
          rw [Config.checking, ← check]
        rw [unchanged]
        exact reached
    | faithful =>
        have unchanged : config.checking .faithful = config := by
          rw [Config.checking, ← check]
        rcases tame with hardened | enough
        · rw [check] at hardened
          cases hardened
        · rw [← State.after_checking enough, unchanged]
          exact reached
  rcases Setting.represents_after rfl bootsHardened reachedHardened with ⟨values, now⟩
  rcases now.backed with ⟨cells, shown, _⟩
  apply meets.meetsOperand shown.bounded_layout _ now.programLength_eq
  rw [shown.toNat_sp, shown.layout]
  exact shown.fits

theorem Reloads.ranAlikeBut (reloads : again.Reloads config first second)
    (boots : plain.Boots config second) {world : World}
    (unmet : ∀ count state, count < config.cycleLimit →
      (State.runner config).after count (plain.inWorld world) = some state →
      ¬state.Meets (first.LeftBehind second)) :
    RanAlikeBut (first.LeftBehind second) (plain.run world) (again.run world) := by
  rcases reloads_iff.mp reloads with ⟨valid, short, shortToo, rfl⟩
  rcases (boots_iff config second plain).mp boots with ⟨_, _, rfl⟩
  have start : State.SameBut (first.LeftBehind second) ((loaded config second).inWorld world)
      ((reloaded config first second).inWorld world) :=
    ⟨rfl, sameBut_reloaded valid short shortToo, rfl⟩
  rcases (State.simulation_sameBut unmet).runFrom ⟨start, rfl⟩ (Nat.zero_add config.cycleLimit)
    with ⟨summary, last⟩
  have ranPlain : (loaded config second).run world =
      (loaded config second).ended ((State.runner config).runFrom config.cycleLimit 0
        ((loaded config second).inWorld world)) := Machine.run_eq rfl world
  have ranAgain : (reloaded config first second).run world =
      (reloaded config first second).ended ((State.runner config).runFrom config.cycleLimit 0
        ((reloaded config first second).inWorld world)) := Machine.run_eq rfl world
  rw [ranPlain, ranAgain]
  constructor
  · exact summary
  · exact last.world
  · simp only [ended, summary, last.heap]
    rfl
  · exact last.memory.ip
  · exact last.memory.sp
  · exact last.memory.flags
  · exact stackCells_eq_of_sameBut last.memory
  · exact last.memory

/-- A machine that was loaded with one program and then with another runs like one that was loaded
with the second alone, unless that one comes to read a byte which the first program would have left
in the store. As long as no lone cell has been swapped, it could do so only in the operand of a push
or of a taken jump. -/
theorem run_reloaded (boots : plain.Boots config second)
    (reloads : again.Reloads config first second) (world : World) :
    ((∀ count state, count < config.cycleLimit →
        (State.runner config).after count (plain.inWorld world) = some state →
        ¬state.Meets (first.LeftBehind second)) →
      RanAlikeBut (first.LeftBehind second) (plain.run world) (again.run world)) ∧
    ∀ count state, (State.runner config).after count (plain.inWorld world) = some state →
      config.swapCheck = .hardened ∨ State.SwapsEnough config (plain.inWorld world) count →
      state.Meets (first.LeftBehind second) → state.MeetsOperand (first.LeftBehind second) := by
  refine ⟨reloads.ranAlikeBut boots, ?_⟩
  intro count state reached tame meets
  exact boots.meetsOperand reached tame meets

/-- A program longer than the second leaves two bytes, which a push and a pop do not read. -/
theorem run_reloaded_whole_push :
    let config : Config := { stackCapacity := 2, programCapacity := 32, cycleLimit := 3 }
    let first : Program := ⟨[0, 0, 0, 0, 0, 0, 0, 0, 0, 0, 7, 7]⟩
    let second : Program := ⟨[1, 5, 0, 0, 0, 0, 0, 0, 0, 2]⟩
    let plain := loaded config second
    let again := reloaded config first second
    let world : World := ⟨Input.ofBytes [], Output.unbounded, FileSystem.fresh⟩
    first.LeftBehind second 11 ∧ again.Reloads config first second ∧
      RanAlikeBut (first.LeftBehind second) (plain.run world) (again.run world) := by
  intro config first second plain again world
  have boots : plain.Boots config second := boots_loaded rfl (by decide)
  have reloads : again.Reloads config first second :=
    reloads_iff.mpr ⟨(config.validate_eq_ok_iff).mp rfl, by decide, by decide, rfl⟩
  have checked : ∀ count, count < 3 →
      ((State.runner config).after count (plain.inWorld world)).all
        (fun state => !decide (state.Meets (first.LeftBehind second))) = true := by
    decide +kernel
  refine ⟨by decide, reloads, (run_reloaded boots reloads world).1 ?_⟩
  intro count state within reached
  have here := checked count within
  rw [reached] at here
  simpa using here

/-- A push without its operand takes the byte that the first program left, and a lone cell swapped
into the stack pointer makes a word of the store the top cell. -/
theorem run_reloaded_cut_push :
    let config : Config := { stackCapacity := 2, programCapacity := 32, cycleLimit := 9 }
    let world : World := ⟨Input.ofBytes [], Output.unbounded, FileSystem.fresh⟩
    let two : Program := ⟨[0, 5]⟩
    let cut : Program := ⟨[1]⟩
    let long : Program := ⟨[0, 0, 0, 0, 0, 0, 0, 0, 0, 0, 0, 0, 0, 0, 0, 0, 7]⟩
    let swapping : Program := ⟨[1, 5, 0, 0, 0, 0, 0, 0, 0, 21, 2]⟩
    ((loaded config cut).Boots config cut ∧ (reloaded config two cut).Reloads config two cut ∧
      ((loaded config cut).run world).2.1.stackCells 2 = [⟨0⟩] ∧
      ((reloaded config two cut).run world).2.1.stackCells 2 = [⟨5⟩]) ∧
    (loaded config swapping).Boots config swapping ∧
      (reloaded config long swapping).Reloads config long swapping ∧
      ((loaded config swapping).run world).2.2.output.written = #[48, 120, 48, 10] ∧
      ((reloaded config long swapping).run world).2.2.output.written = #[48, 120, 55, 10] := by
  intro config world two cut long swapping
  have accepted : config.Valid := (config.validate_eq_ok_iff).mp rfl
  constructor
  · refine ⟨?_, ?_, ?_, ?_⟩
    · exact boots_loaded rfl (by decide)
    · exact reloads_iff.mpr ⟨accepted, by decide, by decide, rfl⟩
    · decide +kernel
    · decide +kernel
  · refine ⟨?_, ?_, ?_, ?_⟩
    · exact boots_loaded rfl (by decide)
    · exact reloads_iff.mpr ⟨accepted, by decide, by decide, rfl⟩
    · decide +kernel
    · decide +kernel

end Machine

end TagMachine
