import TagMachine.Proofs.Fetches
import TagMachine.Proofs.Lockstep.Step

/-!
# The two checks of swap

A faithful swap asks for one live cell, a hardened one for two.  Nothing else in a machine looks at
the check, so machines that differ in it alone go through the same states as long as no swap is
executed with fewer than two live cells.  At the first that is, the hardened machine fails, and the
faithful one fails as well if no cell is live; a lone cell it exchanges with the word below the
stack, which is the stack pointer.
-/

namespace TagMachine

/-- The same limits with another check of swap. -/
def Config.checking (config : Config) (check : SwapCheck) : Config :=
  { config with swapCheck := check }

namespace State

/-- The next step executes a swap, and fewer than two cells are live. -/
def UnderSwaps (state : State) : Prop :=
  state.stop? = none ∧ state.memory.sp.toNat < 2 ∧
    ∃ fetch, state.fetched? = some fetch ∧ Opcode.running fetch.byte = .swap

/-- The lone cell has been exchanged with the stack pointer, which was 1. -/
structure LoneSwap (state next : State) : Prop where
  world : next.toWorld = state.toWorld
  heap : next.heap = state.heap
  layout : next.memory.layout = state.memory.layout
  ip : next.memory.ip = state.memory.ip + 1
  sp : next.memory.sp = state.memory.wordAt Layout.stackBase
  cell : next.memory.wordAt Layout.stackBase = 1
  others : ∀ position, Layout.stackBase < position →
    next.memory.wordAt position = state.memory.wordAt position

end State

/-! ## A swap of a lone cell -/

section LoneCell

variable {memory : Memory}

/-- Below a lone cell lies the stack pointer. -/
private theorem cellAddress_below (lone : memory.sp = 1) :
    Memory.cellAddress (Stack.index memory 1) = UInt64.ofNat Layout.spWord := by
  rw [Memory.cellAddress, Stack.index, lone]
  decide

private theorem cellAddress_lone (lone : memory.sp = 1) :
    Memory.cellAddress (Stack.index memory 0) = UInt64.ofNat Layout.stackBase := by
  rw [Memory.cellAddress, Stack.index, lone]
  decide

private theorem stackBase_lt_words (layout : Layout) : Layout.stackBase < layout.words := by
  simp only [Layout.words, Layout.flagsWord, Layout.programBase]
  omega

theorem swap_lone (bounded : memory.layout.Bounded) (lone : memory.sp = 1) :
    Stack.swap memory =
      .ok () ((memory.putCell 0 ⟨1⟩).setSp (memory.wordAt Layout.stackBase)) := by
  have below := memory.layout.spWord_lt_words
  have inside := stackBase_lt_words memory.layout
  have spWord : memory.wordAt Layout.spWord = 1 := lone
  have loadedTop :
      Memory.loadCell (Stack.index memory 0) memory =
        .ok (memory.wordAt Layout.stackBase) memory := by
    rw [Memory.loadCell, cellAddress_lone lone, Memory.load_eq bounded inside]
  have loadedBelow : Memory.loadCell (Stack.index memory 1) memory = .ok 1 memory := by
    rw [Memory.loadCell, cellAddress_below lone, Memory.load_eq bounded below, spWord]
  have wroteTop : Stack.poke 0 ⟨1⟩ memory = .ok () (memory.putCell 0 ⟨1⟩) := by
    rw [Stack.poke_eq, Memory.storeCell, cellAddress_lone lone, Memory.store_eq bounded inside]
    rfl
  have stillLone : (memory.putCell 0 ⟨1⟩).sp = 1 := by
    rw [Memory.sp_putCell, lone]
  have stillBounded : (memory.putCell 0 ⟨1⟩).layout.Bounded := bounded
  have wroteBelow (cell : Cell) :
      Stack.poke 1 cell (memory.putCell 0 ⟨1⟩) =
        .ok () ((memory.putCell 0 ⟨1⟩).setSp cell.word) := by
    rw [Stack.poke_eq, Memory.storeCell, cellAddress_below stillLone,
      Memory.store_eq stillBounded below]
    rfl
  rw [Stack.swap, bind_of_ok (Stack.peek_of_loadCell loadedTop),
    bind_of_ok (Stack.peek_of_loadCell loadedBelow), bind_of_ok wroteTop, wroteBelow]

theorem exchange_eq (required : UInt64) (memory : Memory) :
    Action.exchange required memory =
      if memory.sp.toNat < required.toNat then .error (.stackUnderflow required memory.sp) memory
      else Stack.swap memory := by
  have enough := Stack.require_eq required memory
  unfold Action.exchange
  by_cases few : memory.sp.toNat < required.toNat
  · rw [if_pos few] at enough ⊢
    exact bind_of_error enough
  · rw [if_neg few] at enough ⊢
    exact bind_of_ok enough

end LoneCell

/-! ## One step -/

namespace State

variable {state : State}

/-- Every instruction but swap is executed alike under both checks. -/
theorem execute_checking (config : Config) {opcode : Opcode} (notSwap : opcode ≠ .swap)
    (check other : SwapCheck) :
    opcode.execute (config.checking check) = opcode.execute (config.checking other) := by
  cases opcode
  case swap => exact absurd rfl notSwap
  all_goals rfl

/-- A step is made alike under both checks, unless it is a swap of too few cells. -/
theorem step_checking (config : Config) (goesOn : state.stop? = none)
    (enough : ¬ state.UnderSwaps) :
    State.step (config.checking .faithful) state =
      State.step (config.checking .hardened) state := by
  cases read : Memory.programByte state.memory.ip state.memory with
  | error fault last => rw [step_of_error _ read, step_of_error _ read]
  | ok byte after =>
      rw [step_of_ok _ read, step_of_ok _ read]
      by_cases isSwap : Opcode.running byte = .swap
      · have two : ¬ state.memory.sp.toNat < 2 := fun few =>
          enough ⟨goesOn, few, _, fetched?_of_ok read, isSwap⟩
        have sp : state.passed.memory.sp = state.memory.sp := state.memory.sp_setIp _
        have exchanges (required : UInt64) (atMostTwo : required.toNat ≤ 2) :
            Action.exchange required state.passed.memory = Stack.swap state.passed.memory := by
          rw [exchange_eq, sp, if_neg (by omega)]
        rw [isSwap]
        change Action.onMemory (Action.exchange 1) state.passed =
          Action.onMemory (Action.exchange 2) state.passed
        simp only [Action.onMemory, exchanges 1 (by decide), exchanges 2 (by decide)]
      · rw [execute_checking config isSwap .faithful .hardened]

namespace UnderSwaps

variable {check : SwapCheck}

theorem step_eq (under : state.UnderSwaps) (config : Config) (check : SwapCheck) :
    State.step (config.checking check) state =
      (liftM (Action.exchange check.requiredCells) : Action Unit) state.passed := by
  rcases under with ⟨_, _, fetch, fetched, isSwap⟩
  rw [step_of_fetched _ fetched, isSwap]
  rfl

theorem step_refused (under : state.UnderSwaps) (config : Config)
    (few : state.memory.sp.toNat < check.requiredCells.toNat) :
    State.step (config.checking check) state =
      .error (.stackUnderflow check.requiredCells state.memory.sp) state.passed := by
  have sp : state.passed.memory.sp = state.memory.sp := state.memory.sp_setIp _
  have refused : Action.exchange check.requiredCells state.passed.memory =
      .error (.stackUnderflow check.requiredCells state.memory.sp) state.passed.memory := by
    rw [exchange_eq, sp, if_pos few]
  rw [under.step_eq, Action.onMemory_of_error refused]

/-- The faithful check lets a lone cell be exchanged with the stack pointer. -/
theorem step_lone (under : state.UnderSwaps) (config : Config)
    (bounded : state.memory.layout.Bounded) (lone : state.memory.sp = 1) :
    ∃ next, State.step (config.checking .faithful) state = .ok () next ∧ state.LoneSwap next := by
  have sp : state.passed.memory.sp = 1 := (state.memory.sp_setIp _).trans lone
  have swapped : Action.exchange 1 state.passed.memory =
      .ok () ((state.passed.memory.putCell 0 ⟨1⟩).setSp
        (state.passed.memory.wordAt Layout.stackBase)) := by
    rw [exchange_eq, sp, if_neg (by decide)]
    exact swap_lone bounded sp
  have cell : state.passed.memory.wordAt Layout.stackBase =
      state.memory.wordAt Layout.stackBase :=
    state.memory.wordAt_setIp (Nat.le_refl _) _
  refine ⟨_, (under.step_eq config .faithful).trans (Action.onMemory_of_ok swapped), rfl, rfl, rfl,
    ?_, ?_, ?_, ?_⟩
  · rw [Memory.ip_setSp, Memory.ip_putCell]
    exact state.memory.ip_setIp _
  · rw [Memory.sp_setSp, cell]
  · rw [Memory.wordAt_setSp _ (Nat.le_refl _)]
    exact Memory.wordAt_put_self (stackBase_lt_words _) 1
  · intro position above
    rw [Memory.wordAt_setSp _ (Nat.le_of_lt above)]
    have untouched := state.passed.memory.wordAt_put_of_ne (Nat.ne_of_gt above) 1
    exact untouched.trans (state.memory.wordAt_setIp (Nat.le_of_lt above) _)

end UnderSwaps

/-! ## Runs -/

/-- No swap of too few cells is executed in the first steps of a faithful run. -/
def SwapsEnough (config : Config) (start : State) (count : Nat) : Prop :=
  ∀ earlier, earlier < count → ∀ state,
    (State.runner (config.checking .faithful)).after earlier start = some state →
      ¬ state.UnderSwaps

variable {config : Config} {start : State} {count : Nat}

/-- Both runs go through the same states up to the first swap of too few cells. -/
theorem after_checking (enough : SwapsEnough config start count) :
    (State.runner (config.checking .faithful)).after count start =
      (State.runner (config.checking .hardened)).after count start := by
  induction count with
  | zero => rfl
  | succ count inductionHypothesis =>
      have earlier := inductionHypothesis fun before less => enough before (Nat.lt_succ_of_lt less)
      have here := enough count (Nat.lt_succ_self count)
      rw [Runner.after, Runner.after, ← earlier]
      cases reached : (State.runner (config.checking .faithful)).after count start with
      | none => rfl
      | some state =>
          change Runner.next? _ state = Runner.next? _ state
          unfold Runner.next?
          cases goesOn : state.stop? with
          | some reason => simp only [State.runner, goesOn]
          | none =>
              have same := step_checking config goesOn (here state reached)
              simp only [State.runner, goesOn, same]

theorem runFrom_checking {limit : Nat} (enough : SwapsEnough config start limit) :
    (State.runner (config.checking .faithful)).runFrom limit 0 start =
      (State.runner (config.checking .hardened)).runFrom limit 0 start := by
  have simulation : Runner.Simulation (State.runner (config.checking .faithful))
      (State.runner (config.checking .hardened)) limit
      (fun count state other => state = other ∧
        (State.runner (config.checking .faithful)).after count start = some state)
      (fun last otherLast => last = otherLast) := by
    refine ⟨fun now => now.1, ?_, ?_⟩
    · rintro count state _ ⟨rfl, _⟩
      rfl
    · rintro count state _ ⟨rfl, reached⟩ within goesOn
      have same := step_checking config goesOn (enough count within state reached)
      change Runner.Alike _ _ (State.step _ state) (State.step _ state)
      rw [← same]
      cases stepped : State.step (config.checking .faithful) state with
      | ok _ next =>
          exact .ok ⟨rfl, Runner.after_succ_eq_some_iff.mpr ⟨state, reached, goesOn, stepped⟩⟩
      | error fault last => exact .error rfl
  rcases simulation.runFrom ⟨rfl, rfl⟩ (Nat.zero_add limit) with ⟨summary, last⟩
  exact Prod.ext summary last

theorem UnderSwaps.after_lone {state : State}
    (under : state.UnderSwaps)
    (reached : (State.runner (config.checking .faithful)).after count start = some state)
    (bounded : state.memory.layout.Bounded) (lone : state.memory.sp = 1) :
    ∃ next,
      (State.runner (config.checking .faithful)).after (count + 1) start = some next ∧
        state.LoneSwap next := by
  rcases under.step_lone config bounded lone with ⟨next, stepped, swapped⟩
  exact ⟨next, Runner.after_succ_eq_some_iff.mpr ⟨state, reached, under.1, stepped⟩, swapped⟩

end State

/-! ## Machines -/

namespace Machine

variable {config : Config} {program : Program} {faithful hardened : Machine} {world : World}

theorem Boots.eq_of_checking
    (bootsFaithful : faithful.Boots (config.checking .faithful) program)
    (bootsHardened : hardened.Boots (config.checking .hardened) program) :
    faithful = { hardened with config := config.checking .faithful } := by
  rcases (boots_iff _ _ _).mp bootsFaithful with ⟨_, _, rfl⟩
  rcases (boots_iff _ _ _).mp bootsHardened with ⟨_, _, rfl⟩
  rfl

theorem Boots.inWorld_eq
    (bootsFaithful : faithful.Boots (config.checking .faithful) program)
    (bootsHardened : hardened.Boots (config.checking .hardened) program) (world : World) :
    hardened.inWorld world = faithful.inWorld world := by
  rw [bootsFaithful.eq_of_checking bootsHardened]
  rfl

/-- Runs without a swap of too few cells agree in all that they report and leave. -/
theorem Boots.run_agree
    (bootsFaithful : faithful.Boots (config.checking .faithful) program)
    (bootsHardened : hardened.Boots (config.checking .hardened) program)
    (enough : State.SwapsEnough config (faithful.inWorld world) config.cycleLimit) :
    (faithful.run world).1 = (hardened.run world).1 ∧
      (faithful.run world).2.1 =
        { (hardened.run world).2.1 with config := config.checking .faithful } ∧
      (faithful.run world).2.2 = (hardened.run world).2.2 := by
  rcases bootsFaithful.fresh with ⟨freshFaithful, configFaithful⟩
  rcases bootsHardened.fresh with ⟨freshHardened, configHardened⟩
  have ended :
      (State.runner faithful.config).runFrom faithful.config.cycleLimit 0
          (faithful.inWorld world) =
        (State.runner hardened.config).runFrom hardened.config.cycleLimit 0
          (hardened.inWorld world) := by
    rw [configFaithful, configHardened, bootsFaithful.inWorld_eq bootsHardened]
    exact State.runFrom_checking enough
  rw [faithful.run_eq freshFaithful, hardened.run_eq freshHardened, ended]
  refine ⟨rfl, ?_, rfl⟩
  rw [bootsFaithful.eq_of_checking bootsHardened]
  rfl

theorem Boots.run_refused {machine : Machine} {check : SwapCheck} {count : Nat} {state : State}
    (boots : machine.Boots (config.checking check) program) (within : count < config.cycleLimit)
    (reached : (State.runner (config.checking check)).after count (machine.inWorld world) =
      some state)
    (under : state.UnderSwaps) (few : state.memory.sp.toNat < check.requiredCells.toNat) :
    machine.run world =
      machine.ended
        (⟨.fault (.stackUnderflow check.requiredCells state.memory.sp), count + 1⟩,
          state.passed.halted) := by
  rcases boots.fresh with ⟨fresh, sameConfig⟩
  rw [machine.run_eq fresh, sameConfig]
  exact congrArg machine.ended
    (Runner.runFrom_of_failed reached within under.1 (under.step_refused config few))

/-- The runs of a faithful and of a hardened machine go through the same states up to the first
swap of too few cells, and agree if there is none. At a lone cell the hardened machine fails, and
the faithful one goes on with the stack pointer exchanged; at an empty stack both fail. -/
theorem run_swap_checks
    (bootsFaithful : faithful.Boots (config.checking .faithful) program)
    (bootsHardened : hardened.Boots (config.checking .hardened) program) (world : World) :
    hardened.inWorld world = faithful.inWorld world ∧
      (∀ count, State.SwapsEnough config (faithful.inWorld world) count →
        (State.runner (config.checking .faithful)).after count (faithful.inWorld world) =
          (State.runner (config.checking .hardened)).after count (hardened.inWorld world)) ∧
      (State.SwapsEnough config (faithful.inWorld world) config.cycleLimit →
        (faithful.run world).1 = (hardened.run world).1 ∧
          (faithful.run world).2.1 =
            { (hardened.run world).2.1 with config := config.checking .faithful } ∧
          (faithful.run world).2.2 = (hardened.run world).2.2) ∧
      ∀ count state, count < config.cycleLimit →
        State.SwapsEnough config (faithful.inWorld world) count →
        (State.runner (config.checking .faithful)).after count (faithful.inWorld world) =
          some state →
        state.UnderSwaps →
        (state.memory.sp = 1 →
          hardened.run world =
              hardened.ended (⟨.fault (.stackUnderflow 2 1), count + 1⟩, state.passed.halted) ∧
            ∃ next,
              (State.runner (config.checking .faithful)).after (count + 1)
                  (faithful.inWorld world) = some next ∧
                state.LoneSwap next) ∧
        (state.memory.sp = 0 →
          hardened.run world =
              hardened.ended (⟨.fault (.stackUnderflow 2 0), count + 1⟩, state.passed.halted) ∧
            faithful.run world =
              faithful.ended (⟨.fault (.stackUnderflow 1 0), count + 1⟩, state.passed.halted)) := by
  have sameStart := bootsFaithful.inWorld_eq bootsHardened world
  refine ⟨sameStart, ?_, bootsFaithful.run_agree bootsHardened, ?_⟩
  · intro count enough
    rw [sameStart]
    exact State.after_checking enough
  · intro count state within enough reached under
    have reachedHardened :
        (State.runner (config.checking .hardened)).after count (hardened.inWorld world) =
          some state := by
      rw [sameStart, ← State.after_checking enough]
      exact reached
    constructor
    · intro lone
      have refused := bootsHardened.run_refused within reachedHardened under (by rw [lone]; decide)
      rw [lone] at refused
      rcases Setting.represents_after rfl bootsHardened reachedHardened with ⟨values, now⟩
      rcases now.backed with ⟨cells, shown, _⟩
      exact ⟨refused, under.after_lone reached shown.bounded_layout lone⟩
    · intro none
      have refusedHardened :=
        bootsHardened.run_refused within reachedHardened under (by rw [none]; decide)
      have refusedFaithful :=
        bootsFaithful.run_refused within reached under (by rw [none]; decide)
      rw [none] at refusedHardened refusedFaithful
      exact ⟨refusedHardened, refusedFaithful⟩

/-- A program that swaps the only cell, 5: the hardened machine fails at it, and the faithful one
goes on with five live cells. -/
theorem run_swap_checks_lone :
    let config : Config := { stackCapacity := 8, programCapacity := 16, cycleLimit := 9 }
    let program : Program := ⟨[1, 5, 0, 0, 0, 0, 0, 0, 0, 21, 32]⟩
    let faithful := Machine.loaded (config.checking .faithful) program
    let hardened := Machine.loaded (config.checking .hardened) program
    let world : World := ⟨Input.ofBytes [], Output.unbounded, FileSystem.fresh⟩
    (hardened.run world).1 = ⟨.fault (.stackUnderflow 2 1), 2⟩ ∧
      ∃ state next,
        (State.runner (config.checking .faithful)).after 1 (faithful.inWorld world) = some state ∧
          (State.runner (config.checking .faithful)).after 2 (faithful.inWorld world) = some next ∧
          state.LoneSwap next ∧ next.memory.sp = 5 := by
  intro config program faithful hardened world
  have bootsFaithful : faithful.Boots (config.checking .faithful) program :=
    boots_loaded rfl (by decide)
  have bootsHardened : hardened.Boots (config.checking .hardened) program :=
    boots_loaded rfl (by decide)
  have atSwap :
      ((State.runner (config.checking .faithful)).after 1 (faithful.inWorld world)).map
          (fun state => (state.memory.sp, state.stop?, state.fetched?)) =
        some (1, none, some ⟨9, 21, 1, false⟩) := by
    decide +kernel
  rcases Option.map_eq_some_iff.mp atSwap with ⟨state, reached, seen⟩
  simp only [Prod.mk.injEq] at seen
  rcases seen with ⟨lone, goesOn, fetched⟩
  have under : state.UnderSwaps :=
    ⟨goesOn, by rw [lone]; decide, _, fetched, by decide⟩
  have enough : State.SwapsEnough config (faithful.inWorld world) 1 := by
    intro earlier before first started
    obtain rfl : earlier = 0 := by omega
    obtain rfl := Option.some.inj started
    rintro ⟨_, _, fetch, firstFetched, isSwap⟩
    have push : (faithful.inWorld world).fetched? = some ⟨0, 1, 0, false⟩ := by
      decide +kernel
    rw [push] at firstFetched
    obtain rfl := Option.some.inj firstFetched
    revert isSwap
    decide
  have parted :=
    (run_swap_checks bootsFaithful bootsHardened world).2.2.2 1 state (by decide) enough reached
      under
  rcases parted.1 lone with ⟨refused, next, continued, swapped⟩
  refine ⟨congrArg Prod.fst refused, state, next, reached, continued, swapped, ?_⟩
  have five :
      ((State.runner (config.checking .faithful)).after 2 (faithful.inWorld world)).map
        (·.memory.sp) = some 5 := by
    decide +kernel
  rw [continued] at five
  exact Option.some.inj five

end Machine

end TagMachine
