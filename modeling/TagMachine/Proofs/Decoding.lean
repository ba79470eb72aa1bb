import TagMachine.Proofs.Decoding.Operands
import TagMachine.Proofs.Footprint
import TagMachine.Proofs.Refinement
import TagMachine.Proofs.SwapCheck

/-!
# A run executes what a listing shows

A machine reads opcodes and operands from its own memory, and a listing reads them from the bytes of
the program.  Both find the same at every instruction pointer of a run.  Where no jump is listed,
the run goes through the listing from the top.
-/

namespace TagMachine

/-- The item is a jump, whether its target is there or cut off. -/
def CodeItem.IsJump : CodeItem → Prop
  | .instruction code => code.opcode.operandKind = .target
  | .truncated opcode => opcode.operandKind = .target
  | .undefined _ => False

namespace State

/-- What the live cells stand for, the top first. -/
def items (state : State) : List (Option ValueMachine.Item) :=
  state.memory.liveCells.map state.heap.item?

/-- A step does what a listed item says: a byte past the table only halts the machine, an
instruction goes on behind itself or to its target and pushes its operand, and a literal that is
cut off is a fault. A number that is cut off ends the run. -/
def Follows (config : Config) (state : State) : CodeItem → Prop
  | .undefined _ => State.step config state = .ok () state.passed.halted
  | .instruction instruction =>
      ∀ next, State.step config state = .ok () next →
        next.memory.ip.toNat =
            instruction.successor state.memory.cmp state.memory.ip.toNat ∧
          ∀ item, instruction.pushed? = some item → next.items = some item :: state.items
  | .truncated opcode =>
      (opcode = .pushs → ∃ fault last, State.step config state = .error fault last ∧
        (fault = .stackFull ∨ fault = .malformed .literalPastEnd)) ∧
      (opcode = .push → ∀ next, State.step config state = .ok () next → next.stop? ≠ none)

end State

namespace Setting

theorem length_add_lt (setting : Setting) :
    setting.program.length + 8 < UInt64.size := by
  have short := setting.short
  have programLe := setting.bounded.program_le
  rw [setting.layout] at programLe
  simp only [Config.maxProgramCapacity] at programLe
  simp only [UInt64.size]
  omega

namespace Represents

variable {setting : Setting} {issued : Nat} {state next : State} {values : ValueMachine.State}

theorem exists_step_eq_ok (now : setting.Represents issued state values)
    (goesOn : state.stop? = none) (stepped : State.step setting.config state = .ok () next) :
    ∃ valuesNext, ValueMachine.step setting.config setting.program values = .ok () valuesNext ∧
      setting.Represents (issued + 1) next valuesNext := by
  have lockstep := now.step goesOn
  rw [stepped] at lockstep
  generalize ran : ValueMachine.step setting.config setting.program values = result at lockstep
  cases lockstep with
  | ok later => exact ⟨_, rfl, later⟩

theorem items_eq (now : setting.Represents issued state values) :
    state.items = values.stack.map some :=
  now.matches.stack

theorem tidy (now : setting.Represents issued state values) :
    state.Tidy := by
  rcases now.backed with ⟨cells, shown, backs⟩
  refine ⟨⟨shown.bounded_layout, ?_⟩, backs.sound⟩
  rw [shown.toNat_sp, shown.layout]
  exact shown.fits

/-- An instruction without an operand leaves the instruction pointer behind its opcode. -/
theorem ip_of_execute (now : setting.Represents issued state values) {opcode : Opcode}
    (plain : opcode.operandKind = .none)
    (ran : opcode.execute setting.config state.passed = .ok () next) :
    next.memory.ip = state.memory.ip + 1 := by
  have footprint := State.footprint_execute setting.hardened now.tidy opcode
  rw [ran] at footprint
  exact footprint.memory.ip plain

/-- The byte at the instruction pointer, in the machine's memory as in the program. -/
theorem fetch (now : setting.Represents issued state values) (goesOn : state.stop? = none) :
    ∃ byte rest, setting.program.bytes.drop state.memory.ip.toNat = byte :: rest ∧
      Memory.programByte state.memory.ip state.memory = .ok byte state.memory := by
  rw [now.stop?_eq, ValueMachine.stop?_eq_none_iff] at goesOn
  rcases goesOn with ⟨running, inside⟩
  have short := setting.short
  obtain ⟨first, rest, left⟩ : ∃ first rest,
      setting.program.bytes.drop values.ip.toNat = first :: rest :=
    ⟨_, _, List.drop_eq_getElem_cons inside⟩
  rcases now.operandByte running (by omega) with ⟨byte, read, valueRead⟩
  have same := valueRead.symm.trans (ValueMachine.operand_one left)
  injection same with bytes _
  obtain rfl := (List.cons.inj bytes).1
  rw [now.ip_eq]
  exact ⟨byte, rest, left, read⟩

/-- A literal that runs past the end of the program is a fault, if its place is not one. -/
theorem pushLiteral_truncated (now : setting.Represents issued state values)
    (running : values.isHalted = false)
    (inside : values.ip.toNat ≤ setting.program.length)
    (cut : CodeItem.operand? .literal (setting.program.bytes.drop values.ip.toNat) = none) :
    ∃ fault last, Action.pushLiteral state = .error fault last ∧
      (fault = .stackFull ∨ fault = .malformed .literalPastEnd) := by
  have short := setting.short
  have counted := setting.toNat_add_one inside
  rcases now.backed with ⟨cells, shown, backs⟩
  have required := shown.requireFree
  by_cases full : cells.length = setting.start.layout.stackCells
  · rw [if_pos full] at required
    exact ⟨_, _, bind_of_error (Action.onMemory_of_error required), Or.inl rfl⟩
  rw [if_neg full] at required
  rcases now.operandByte running (by omega) with ⟨byte, read, valueRead⟩
  have past : setting.program.length < (values.ip + 1).toNat + byte.toNat := by
    cases left : setting.program.bytes.drop values.ip.toNat with
    | nil =>
        have ended := List.drop_eq_nil_iff.mp left
        rw [← Program.length] at ended
        omega
    | cons length rest =>
        rw [left] at cut
        have same := valueRead.symm.trans (ValueMachine.operand_one left)
        injection same with bytes _
        obtain rfl := (List.cons.inj bytes).1
        have missing := CodeItem.length_lt_of_exactly?_eq_none (Option.map_eq_none_iff.mp cut)
        have long := congrArg List.length left
        rw [List.length_drop, List.length_cons, ← Program.length] at long
        omega
  rcases now.advance 1 with ⟨next, moved, later⟩
  refine ⟨.malformed .literalPastEnd, next, ?_, Or.inr rfl⟩
  rw [Action.pushLiteral, bind_of_ok (Action.onMemory_of_ok required), get_bind, now.ip_eq,
    bind_of_ok (Action.onMemory_of_ok read), bind_of_ok moved, get_bind]
  dsimp only
  rw [later.ip_eq, later.programLength_eq, if_pos past]
  rfl

/-- A step does what the item at the instruction pointer says. -/
theorem follows (now : setting.Represents issued state values) (goesOn : state.stop? = none) :
    ∃ item length,
      CodeItem.decodeAt setting.program.bytes state.memory.ip.toNat = some (item, length) ∧
        state.Follows setting.config item := by
  have small := setting.length_add_lt
  rcases now.fetch goesOn with ⟨byte, rest, found, read⟩
  rcases started : CodeItem.startedBy byte rest with ⟨item, count⟩
  refine ⟨item, count + 1, CodeItem.decodeAt_of_drop found started, ?_⟩
  have stepEq := State.step_of_ok setting.config read
  have valuesFound := found
  rw [now.ip_eq] at valuesFound
  cases item with
  | undefined byte =>
      have unknown := CodeItem.ofByte?_of_startedBy_undefined started
      rw [Opcode.running, unknown] at stepEq
      exact stepEq
  | instruction code =>
      intro next stepped
      rcases now.exists_step_eq_ok goesOn stepped with ⟨valuesNext, valueStepped, later⟩
      have straight : code.opcode.operandKind = .none → valuesNext.ip = values.ip + 1 := by
        intro plain
        have known := (CodeItem.operand?_of_startedBy_instruction started).1
        rw [stepEq, Opcode.running, known] at stepped
        rw [← later.ip_eq, ← now.ip_eq]
        exact now.ip_of_execute plain stepped
      have obeyed := ValueMachine.obeys_of_step (by omega) straight valuesFound started valueStepped
      rw [later.ip_eq, now.ip_eq, now.cmp_eq, later.items_eq, now.items_eq]
      refine ⟨obeyed.ip, fun item pushes => ?_⟩
      rw [obeyed.pushed item pushes, List.map_cons]
  | truncated opcode =>
      rcases CodeItem.operand?_of_startedBy_truncated started with ⟨known, missing⟩
      constructor
      · rintro rfl
        have setIp := now.setIp (values.ip + 1)
        rw [Opcode.running, known] at stepEq
        rw [stepEq, State.passed, now.ip_eq]
        rw [now.stop?_eq, ValueMachine.stop?_eq_none_iff] at goesOn
        rcases ValueMachine.drop_ip_add_one (by omega) valuesFound with ⟨_, inside, restEq⟩
        exact setIp.pushLiteral_truncated goesOn.1 inside (by rw [restEq]; exact missing)
      · rintro rfl next stepped
        rcases now.exists_step_eq_ok goesOn stepped with ⟨valuesNext, valueStepped, later⟩
        have past := ValueMachine.length_le_of_step_truncated small valuesFound started valueStepped
        rw [later.stop?_eq]
        intro goesFurther
        have inside := (ValueMachine.stop?_eq_none_iff.mp goesFurther).2
        omega

/-- After an item that is no jump the machine stops or goes on behind the item. -/
theorem stops_or_moves (now : setting.Represents issued state values) {item : CodeItem}
    {bytes : Bytes} {length : Nat} (follows : state.Follows setting.config item)
    (decoded : CodeItem.decodeAt bytes state.memory.ip.toNat = some (item, length))
    (straight : ¬ item.IsJump) (stepped : State.step setting.config state = .ok () next) :
    next.stop? ≠ none ∨ next.memory.ip.toNat = state.memory.ip.toNat + length := by
  cases item with
  | undefined byte =>
      left
      rcases now.backed with ⟨cells, shown, _⟩
      have halts : state.passed.halted.memory.halt = true :=
        ((shown.setIp _).setHalt true).halt_eq
      have reached := follows.symm.trans stepped
      cases reached
      rw [State.stop?, if_pos halts]
      simp
  | instruction code =>
      right
      rw [(follows next stepped).1, Instruction.successor_eq_add straight,
        CodeItem.encodedLength_of_decodeAt decoded]
  | truncated opcode =>
      left
      cases kind : opcode.operandKind with
      | none => exact absurd kind (CodeItem.operandKind_ne_none_of_decodeAt decoded)
      | target => exact absurd kind straight
      | immediate => exact follows.2 (Opcode.eq_push_of_operandKind kind) next stepped
      | literal =>
          rcases follows.1 (Opcode.eq_pushs_of_operandKind kind) with ⟨fault, last, failed, _⟩
          rw [stepped] at failed
          cases failed

end Represents

end Setting

/-! ## Runs -/

namespace Machine

section Runs

variable {config : Config} {program : Program} {machine : Machine} {world : World}
  {count : Nat} {state : State}

theorem follows_of_after (hardened : config.swapCheck = .hardened)
    (boots : machine.Boots config program)
    (reached : (State.runner config).after count (machine.inWorld world) = some state)
    (goesOn : state.stop? = none) :
    ∃ item length,
      CodeItem.decodeAt program.bytes state.memory.ip.toNat = some (item, length) ∧
        state.Follows config item := by
  rcases Setting.represents_after hardened boots reached with ⟨values, now⟩
  exact now.follows goesOn

/-- Where no jump is listed, what is listed from the instruction pointer on is what the listing
shows after as many items as steps have been made. -/
theorem sweepFrom_of_after (hardened : config.swapCheck = .hardened)
    (boots : machine.Boots config program)
    (straight : ∀ entry ∈ CodeItem.sweep program.bytes, ¬ entry.2.IsJump)
    (reached : (State.runner config).after count (machine.inWorld world) = some state)
    (goesOn : state.stop? = none) :
    CodeItem.sweepFrom state.memory.ip.toNat (program.bytes.drop state.memory.ip.toNat) =
      (CodeItem.sweep program.bytes).drop count := by
  induction count generalizing state with
  | zero =>
      obtain rfl : machine.inWorld world = state := Option.some.inj reached
      have atStart : (machine.inWorld world).memory.ip = 0 :=
        (Setting.represents_start hardened boots world).ip_eq
      rw [atStart]
      rfl
  | succ count inductionHypothesis =>
      rcases Runner.after_succ_eq_some_iff.mp reached with ⟨previous, earlier, running, stepped⟩
      rcases Setting.represents_after hardened boots earlier with ⟨values, before⟩
      rcases follows_of_after hardened boots earlier running with
        ⟨item, length, decoded, follows⟩
      have listed := (CodeItem.sweepFrom_of_decodeAt decoded).symm.trans
        (inductionHypothesis earlier running)
      have noJump : ¬ item.IsJump := by
        apply straight (previous.memory.ip.toNat, item)
        apply List.mem_of_mem_drop (i := count)
        rw [← listed]
        exact List.mem_cons_self
      rcases before.stops_or_moves follows decoded noJump stepped with stops | moves
      · exact absurd goesOn stops
      · rw [moves, ← List.tail_drop, ← listed]
        rfl

theorem fetches_eq (boots : machine.Boots config program) (world : World) (wanted : Nat) :
    machine.fetches world wanted =
      State.fetchesFrom config config.cycleLimit wanted (machine.inWorld world) := by
  rcases boots.fresh with ⟨fresh, rfl⟩
  rw [fetches, fresh]
  rfl

/-- A run fetches in every one of its cycles. -/
theorem length_fetches (hardened : config.swapCheck = .hardened)
    (boots : machine.Boots config program) (world : World) (wanted : Nat) :
    (machine.fetches world wanted).length = min wanted (machine.run world).1.cycles := by
  have readable : ∀ count state,
      (State.runner config).after count (machine.inWorld world) = some state →
        state.stop? = none → state.fetched? ≠ none := by
    intro count state reached goesOn
    rcases Setting.represents_after hardened boots reached with ⟨values, now⟩
    rcases now.fetch goesOn with ⟨byte, _, _, read⟩
    rw [State.fetched?_of_ok read]
    exact Option.some_ne_none _
  rcases boots.fresh with ⟨fresh, sameConfig⟩
  rw [fetches_eq boots, State.fetchesFrom_eq_take, List.length_take, run_eq fresh, sameConfig,
    ended, State.length_fetchesFrom readable, Nat.zero_add]

/-- A fetch of a run is at the instruction pointer of the state after as many steps. -/
theorem exists_after_of_fetches (boots : machine.Boots config program) {wanted : Nat}
    {fetch : Fetch} (fetched : (machine.fetches world wanted)[count]? = some fetch) :
    ∃ state, (State.runner config).after count (machine.inWorld world) = some state ∧
      state.stop? = none ∧ fetch.ip = state.memory.ip := by
  rw [fetches_eq boots, State.getElem?_fetchesFrom_eq_some_iff] at fetched
  rcases fetched with ⟨-, -, state, reached, now⟩
  rcases State.fetching?_eq_some_iff.mp now with ⟨goesOn, read⟩
  exact ⟨state, reached, goesOn, (State.programByte_of_fetched read).2⟩

end Runs

/-- Every step of a hardened run does what a listing shows at its instruction pointer. The fetches
of the run are at the instruction pointers of its states, one for each cycle. Where no jump is
listed, they are those of the listing, from the first on. -/
theorem run_follows_listing {config : Config} {program : Program} {machine : Machine}
    (hardened : config.swapCheck = .hardened) (boots : machine.Boots config program)
    (world : World) :
    (∀ count state, (State.runner config).after count (machine.inWorld world) = some state →
      state.stop? = none →
      ∃ item length,
        CodeItem.decodeAt program.bytes state.memory.ip.toNat = some (item, length) ∧
          state.Follows config item) ∧
    (∀ wanted,
      (machine.fetches world wanted).length = min wanted (machine.run world).1.cycles ∧
      ∀ count fetch, (machine.fetches world wanted)[count]? = some fetch →
        ∃ state, (State.runner config).after count (machine.inWorld world) = some state ∧
          state.stop? = none ∧ fetch.ip = state.memory.ip) ∧
    ((∀ entry ∈ CodeItem.sweep program.bytes, ¬ entry.2.IsJump) →
      ∀ wanted, (machine.fetches world wanted).map (·.ip.toNat) <+:
        (CodeItem.sweep program.bytes).map Prod.fst) := by
  refine ⟨fun _ _ => follows_of_after hardened boots, ?_, ?_⟩
  · intro wanted
    exact ⟨length_fetches hardened boots world wanted, fun _ _ => exists_after_of_fetches boots⟩
  · intro straight wanted
    apply List.prefix_iff_getElem?.mpr
    intro count within
    rw [List.length_map] at within
    rcases exists_after_of_fetches boots (List.getElem?_eq_getElem within) with
      ⟨state, reached, goesOn, ip⟩
    rcases follows_of_after hardened boots reached goesOn with ⟨item, length, decoded, -⟩
    have listed := (CodeItem.sweepFrom_of_decodeAt decoded).symm.trans
      (sweepFrom_of_after hardened boots straight reached goesOn)
    rw [List.getElem_map, ip, List.getElem?_map, ← List.head?_drop, ← listed]
    rfl

end Machine

/-- A number with its top bit set, a literal with a zero byte, and a byte past the table. -/
theorem Machine.run_follows_listing_straight :
    let config : Config :=
      { stackCapacity := 2, programCapacity := 16, cycleLimit := 9, swapCheck := .hardened }
    let program : Program := ⟨[1, 5, 0, 0, 0, 0, 0, 0, 128, 22, 2, 97, 0, 200]⟩
    let machine := Machine.loaded config program
    let world : World := ⟨Input.ofBytes [], Output.unbounded, FileSystem.fresh⟩
    machine.Boots config program ∧
      (∀ entry ∈ CodeItem.sweep program.bytes, ¬ entry.2.IsJump) ∧
      (machine.inWorld world).Follows config (.instruction ⟨.push, .immediate 9223372036854775813⟩) ∧
      (machine.fetches world 3).map (·.ip.toNat) <+: [0, 9, 13] := by
  intro config program machine world
  have boots : machine.Boots config program := Machine.boots_loaded rfl (by decide)
  have swept : CodeItem.sweep program.bytes =
      [(0, .instruction ⟨.push, .immediate 9223372036854775813⟩),
        (9, .instruction ⟨.pushs, .literal [97, 0]⟩), (13, .undefined 200)] := by
    decide +kernel
  have straight : ∀ entry ∈ CodeItem.sweep program.bytes, ¬ entry.2.IsJump := by
    simp [swept, CodeItem.IsJump, Opcode.operandKind]
  rcases Machine.run_follows_listing rfl boots world with ⟨steps, -, fetches⟩
  refine ⟨boots, straight, ?_, ?_⟩
  · obtain ⟨item, length, decoded, follows⟩ := steps 0 (machine.inWorld world) rfl (by decide +kernel)
    have shown : CodeItem.decodeAt program.bytes (machine.inWorld world).memory.ip.toNat =
        some (.instruction ⟨.push, .immediate 9223372036854775813⟩, 9) := by
      decide +kernel
    rw [shown] at decoded
    cases decoded
    exact follows
  · have prefixed := fetches straight 3
    rw [swept] at prefixed
    exact prefixed

end TagMachine
