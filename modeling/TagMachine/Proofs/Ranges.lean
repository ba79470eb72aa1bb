import TagMachine.Proofs.Memory.Loading
import TagMachine.Proofs.Ranges.Instructions
import TagMachine.Proofs.Runner

/-!
# No operation is out of range

A machine whose operations are checked is never trapped: with valid limits it loads programs, steps
and runs as the machine does, whatever its registers hold.  What it relies on is that the limits and
the lengths of strings are numbers of the machine that runs it.
-/

namespace TagMachine

namespace Checked

/-! ## Loading and running with checked operations -/

/-- Why no further instruction is fetched, apart from the cycle limit. -/
def stop? (state : State) : Option (Option HaltReason) :=
  if state.memory.halt then some (some .haltInstruction)
  else do
    let length ← programLength? state.memory
    if length.toNat ≤ state.memory.ip.toNat then return some .endOfProgram
    return none

def runFrom (config : Config) : (remaining cycles : Nat) → State → Option (Summary × State)
  | 0, cycles, state => do
      let stopped ← stop? state
      return (⟨stopped.getD .cycleLimit, cycles⟩, state)
  | remaining + 1, cycles, state => do
      match ← stop? state with
      | some reason => return (⟨reason, cycles⟩, state)
      | none =>
          let cycles ← sum? cycles 1
          match step config state with
          | .ok _ next => runFrom config remaining cycles next
          | .error (.failure fault) last => return (⟨.fault fault, cycles⟩, last.halted)
          | .error .outOfRange _ => none

def run (machine : Machine) (world : World) : Option (Summary × Machine × World) :=
  if machine.isDone then
    some (⟨.alreadyHalted, 0⟩, machine, world)
  else do
    let (summary, state) ←
      runFrom machine.config machine.config.cycleLimit 0 (machine.inWorld world)
    let cycles ← sum? machine.cycles summary.cycles
    return (summary,
      { machine with memory := state.memory, heap := state.heap, isDone := true, cycles },
      state.toWorld)

def storeFrom (offset : UInt64) : Bytes → Checked Fault Memory Unit
  | [] => return ()
  | byte :: rest => do
      storeProgramByte offset byte
      storeFrom (offset + 1) rest

def load (program : Program) (machine : Machine) : Option (Except LoadError Machine) :=
  let capacity := machine.memory.layout.programBytes
  if capacity ≤ program.length then
    some (.error (.tooLarge program.length capacity))
  else
    match storeFrom 0 program.bytes machine.memory with
    | .ok _ memory => do
        let memory ← setProgramLength? memory (UInt32.ofNat program.length)
        return .ok { machine with memory }
    | .error (.failure fault) _ => some (.error (.store fault))
    | .error .outOfRange _ => none

theorem stop?_eq (state : State) : stop? state = some state.stop? := by
  unfold stop? State.stop?
  rw [programLength?_eq]
  split
  · rfl
  · split <;> simp [*]

theorem follows_storeFrom (offset : UInt64) (bytes : Bytes) :
    Follows Memory.Bounded (storeFrom offset bytes) (Machine.storeFrom offset bytes) := by
  induction bytes generalizing offset with
  | nil => exact follows_pure ()
  | cons byte rest inductionHypothesis =>
      exact (follows_storeProgramByte offset byte).bind fun _ => inductionHypothesis (offset + 1)

theorem load_eq {machine : Machine} (bounded : machine.memory.Bounded) (program : Program) :
    load program machine = some (machine.load program) := by
  have stored := follows_storeFrom 0 program.bytes machine.memory bounded
  unfold load Machine.load
  dsimp only
  split
  · rfl
  · revert stored
    cases Machine.storeFrom 0 program.bytes machine.memory <;>
      cases storeFrom 0 program.bytes machine.memory <;> intro stored <;> cases stored
    · rfl
    · rfl

section Runs

variable {config : Config} {start : State} {limit : Nat}

/-- What a run relies on: valid limits that are counted in 64 bits, a bounded layout, and strings
that fit whenever an instruction is to be executed. -/
structure Sound (config : Config) (limit : Nat) (start : State) : Prop where
  valid : config.Valid
  lineCounted : config.maxLineLength < UInt64.size
  cyclesCounted : limit < UInt64.size
  bounded : start.Bounded
  fit : ∀ count state, count < limit → (State.runner config).after count start = some state →
    state.heap.StringsFit

/-- From every state that the run comes to, the rest of the run makes no operation out of range. -/
theorem Sound.runFrom_eq (sound : Sound config limit start) {remaining count : Nat} {state : State}
    (spent : count + remaining = limit) (bounded : state.Bounded)
    (reached : (State.runner config).after count start = some state) :
    runFrom config remaining count state = some (State.runFrom config remaining count state) ∧
      (State.runFrom config remaining count state).1.cycles ≤ limit ∧
      (State.runFrom config remaining count state).2.Bounded := by
  induction remaining generalizing count state with
  | zero =>
      rw [runFrom, stop?_eq, State.runFrom]
      exact ⟨rfl, by dsimp only; omega, bounded⟩
  | succ remaining inductionHypothesis =>
      rw [runFrom, stop?_eq, State.runFrom]
      cases stopped : state.stop? with
      | some reason => exact ⟨rfl, by dsimp only; omega, bounded⟩
      | none =>
          have cyclesCounted := sound.cyclesCounted
          have stepped := tracks_step sound.valid sound.lineCounted bounded
            (sound.fit count state (by omega) reached)
          simp only [Option.bind_eq_bind, Option.bind_some, sum?,
            if_pos (by omega : count + 1 < UInt64.size)]
          revert stepped
          cases made : State.step config state <;> cases step config state <;> intro stepped <;>
            cases stepped
          · rename_i next stillBounded
            exact inductionHypothesis (by omega) stillBounded
              (Runner.after_succ_eq_some_iff.mpr ⟨state, reached, stopped, made⟩)
          · rename_i fault last stillBounded
            exact ⟨rfl, by dsimp only; omega, stillBounded⟩

end Runs

end Checked

namespace Machine

/-! ## Machines -/

/-- Every string that lives while the machine runs fits its buffer. -/
def StringsFit (machine : Machine) (world : World) : Prop :=
  machine.isDone = false → ∀ count state, count < machine.config.cycleLimit →
    (State.runner machine.config).after count (machine.inWorld world) = some state →
    state.heap.StringsFit

/-- The machines that can come of the limits: made, loaded and run, in any order. -/
inductive Lives (config : Config) : Machine → Prop
  | new {machine : Machine} :
      Machine.new config = .ok machine → Lives config machine
  | load {machine loaded : Machine} {program : Program} :
      Lives config machine → machine.load program = .ok loaded → Lives config loaded
  | run {machine : Machine} {world : World} :
      Lives config machine → machine.StringsFit world → Lives config (machine.run world).2.1

/-- What holds of a machine throughout its life. -/
structure Steady (config : Config) (machine : Machine) : Prop where
  config : machine.config = config
  bounded : machine.memory.Bounded
  cycles : machine.isDone = false → machine.cycles = 0

section Steady

variable {config : Config} {machine loaded : Machine} {program : Program} {world : World}

theorem Steady.new (made : Machine.new config = .ok machine) :
    machine.Steady config := by
  rcases (new_eq_ok_iff config machine).mp made with ⟨valid, rfl⟩
  exact ⟨rfl, bounded_of_valid valid, fun _ => rfl⟩

theorem Steady.load (steady : machine.Steady config)
    (loading : machine.load program = .ok loaded) :
    loaded.Steady config := by
  have stored := Checked.follows_storeFrom 0 program.bytes machine.memory steady.bounded
  unfold Machine.load at loading
  dsimp only at loading
  split at loading
  · cases loading
  · revert stored
    cases ran : storeFrom 0 program.bytes machine.memory with
    | error fault memory =>
        rw [ran] at loading
        cases loading
    | ok _ memory =>
        rw [ran] at loading
        cases loading
        intro stored
        generalize Checked.storeFrom 0 program.bytes machine.memory = result at stored
        cases stored with
        | ok bounded => exact ⟨steady.config, bounded, steady.cycles⟩

theorem Steady.run (steady : machine.Steady config) (valid : config.Valid)
    (cyclesCounted : config.cycleLimit < UInt64.size)
    (lineCounted : config.maxLineLength < UInt64.size) (fit : machine.StringsFit world) :
    Checked.run machine world = some (machine.run world) ∧
      (machine.run world).2.1.Steady config := by
  unfold Checked.run Machine.run
  cases done : machine.isDone with
  | true => exact ⟨rfl, steady⟩
  | false =>
      obtain rfl := steady.config
      have sound : Checked.Sound machine.config machine.config.cycleLimit
          (machine.inWorld world) :=
        ⟨valid, lineCounted, cyclesCounted, steady.bounded, fit done⟩
      rcases sound.runFrom_eq (Nat.zero_add _) sound.bounded rfl with ⟨ran, cyclesLe, bounded⟩
      simp only [ran, Bool.false_eq_true, if_false, Option.bind_eq_bind, Option.bind_some,
        Checked.sum?, steady.cycles done, Nat.zero_add]
      rw [if_pos (by omega)]
      exact ⟨rfl, rfl, bounded, fun running => by cases running⟩

theorem Lives.steady (lives : machine.Lives config) (valid : config.Valid)
    (cyclesCounted : config.cycleLimit < UInt64.size)
    (lineCounted : config.maxLineLength < UInt64.size) :
    machine.Steady config := by
  induction lives with
  | new made => exact .new made
  | load _ loading steady => exact steady.load loading
  | run _ fit steady => exact (steady.run valid cyclesCounted lineCounted fit).2

end Steady

/-- With accepted limits that are 64-bit numbers, whatever else they are, no operation of a machine
is out of range: not in laying out its memory, not in loading a program at any time of its life, not
in a step, whatever the words of its memory are, and not in a run on any input. -/
theorem operations_in_range {config : Config} (accepted : config.validate = .ok ())
    (cyclesCounted : config.cycleLimit < UInt64.size)
    (lineCounted : config.maxLineLength < UInt64.size) :
    Layout.ofConfig config = .ok ⟨config.stackCapacity, config.programCapacity⟩ ∧
      (∀ memory : Memory, Layout.ipWord < memory.words.size ∧
        Layout.spWord < memory.words.size ∧ memory.layout.flagsWord < memory.words.size) ∧
      (∀ state : State, state.memory.layout = ⟨config.stackCapacity, config.programCapacity⟩ →
        state.heap.StringsFit →
        Checked.step config state = Checked.plain (State.step config) state) ∧
      (∃ machine, Machine.new config = .ok machine) ∧
      ∀ machine, Lives config machine →
        (∀ program, Checked.load program machine = some (machine.load program)) ∧
          ∀ world, machine.StringsFit world →
            Checked.run machine world = some (machine.run world) := by
  have valid := config.validate_eq_ok_iff.mp accepted
  refine ⟨Layout.ofConfig_of_valid valid, Memory.registers_lt_size, ?_,
    ⟨_, (new_eq_ok_iff config _).mpr ⟨valid, rfl⟩⟩, ?_⟩
  · intro state layout fit
    have bounded : state.Bounded := by
      rw [State.Bounded, Memory.Bounded, layout]
      exact bounded_of_valid valid
    exact (Checked.tracks_step valid lineCounted bounded fit).eq_plain
  · intro machine lives
    have steady := lives.steady valid cyclesCounted lineCounted
    exact ⟨Checked.load_eq steady.bounded, fun world fit =>
      (steady.run valid cyclesCounted lineCounted fit).1⟩

theorem Boots.lives {config : Config} {program : Program} {machine : Machine}
    (boots : machine.Boots config program) :
    machine.Lives config := by
  rcases boots with ⟨fresh, made, loading⟩
  exact .load (.new made) loading

/-- Two strings are joined, and a lone cell goes to the stack pointer. -/
theorem operations_in_range_joined :
    let config : Config :=
      { stackCapacity := 2, programCapacity := 8, cycleLimit := 5, maxLineLength := 2 }
    let program : Program := ⟨[22, 1, 97, 20, 25, 21, 16]⟩
    let machine := loaded config program
    let world : World := ⟨Input.ofBytes [], Output.unbounded, FileSystem.fresh⟩
    config.validate = .ok () ∧ machine.Lives config ∧ machine.StringsFit world ∧
      (machine.run world).1 = ⟨.fault (.memoryFault 9223372036854775812), 5⟩ ∧
      (machine.run world).2.1.memory.sp = 9223372036854775811 ∧
      Checked.load program machine = some (machine.load program) ∧
      Checked.run machine world = some (machine.run world) := by
  intro config program machine world
  have lives : machine.Lives config := (boots_loaded rfl (by decide) : machine.Boots _ _).lives
  have short : ∀ count, count < 5 →
      ((State.runner config).after count (machine.inWorld world)).all fun state =>
        state.heap.strings.all fun entry => entry.2.length < tagBit.toNat := by
    decide +kernel
  have fit : machine.StringsFit world := by
    intro _ count state early reached
    have all := short count early
    rw [show (State.runner config).after count (machine.inWorld world) = some state from reached,
      Option.all_some] at all
    exact Heap.stringsFit_of_all all
  rcases (operations_in_range rfl (by decide) (by decide)).2.2.2.2 machine lives with
    ⟨loads, runs⟩
  exact ⟨rfl, lives, fit, by decide +kernel, by decide +kernel, loads program, runs world fit⟩

end Machine

end TagMachine
