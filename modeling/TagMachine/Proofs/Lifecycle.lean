import TagMachine.Proofs.Footprint

/-!
# The life of a machine

A machine is made, loaded and run, in any order and as often as one likes, but only its first run
executes instructions.  What that run reports agrees with the memory that it leaves; under the
hardened check of swap nothing but the instruction itself can set the flag by which a machine is told
to stop.
-/

namespace TagMachine

/-! ## The flag that stops a machine -/

theorem Memory.halt_setHalt (memory : Memory) (on : Bool) :
    (memory.setHalt on).halt = on := by
  rw [halt, setHalt, flags_setFlags, Bits.and_ne_zero Bits.isSingle_one,
    Bits.bit_withFlag Bits.isSingle_one, if_pos rfl]

theorem Opcode.running_eq_halt_iff (byte : UInt8) :
    running byte = .halt ↔ byte = Opcode.halt.byte ∨ 33 ≤ byte.toNat := by
  rw [running, ← ofByte?_eq_none_iff]
  cases found : ofByte? byte with
  | none => simp
  | some opcode =>
      rw [Option.getD_some, ← byte_of_ofByte? found]
      constructor
      · rintro rfl
        exact Or.inl rfl
      · rintro (same | impossible)
        · have both := congrArg ofByte? same
          rw [ofByte?_byte, ofByte?_byte] at both
          exact Option.some.inj both
        · cases impossible

namespace State

variable {config : Config} {state start next : State}

/-- The next step executes a halt. -/
def Halts (state : State) : Prop :=
  ∃ fetch, state.fetched? = some fetch ∧
    (fetch.byte = Opcode.halt.byte ∨ 33 ≤ fetch.byte.toNat)

theorem step_of_halts (config : Config) (halts : state.Halts) :
    State.step config state = .ok () state.passed.halted := by
  rcases halts with ⟨fetch, fetched, byte⟩
  rw [step_of_fetched config fetched, (Opcode.running_eq_halt_iff _).mpr byte]
  rfl

/-- Nothing but a halt sets the flag. -/
theorem halts_of_step (hardened : config.swapCheck = .hardened) (tidy : state.Tidy)
    (running : state.stop? = none) (stepped : State.step config state = .ok () next)
    (halted : next.memory.halt = true) :
    state.Halts := by
  have footprint := footprint_step hardened tidy
  rw [stepped] at footprint
  apply Classical.byContradiction
  intro other
  have still : ¬state.Flagged 0 := by
    rintro ⟨fetch, fetched, flag⟩
    refine other ⟨fetch, fetched, (Opcode.running_eq_halt_iff _).mp ?_⟩
    revert flag
    cases Opcode.running fetch.byte <;> simp [Opcode.flag?]
  have clear := footprint.memory.halt_eq still
  rw [(stop?_eq_none_iff.mp running).1] at clear
  exact Bool.false_ne_true (clear.symm.trans halted)

end State

/-! ## Runs -/

/-- What a run reports agrees with the memory that it leaves. -/
structure Summary.Agrees (limit : Nat) (summary : Summary) (memory : Memory) : Prop where
  ran : summary.reason ≠ .alreadyHalted
  cycles : summary.cycles ≤ limit
  haltInstruction : summary.reason = .haltInstruction → memory.halt = true
  fault : ∀ fault, summary.reason = .fault fault → memory.halt = true
  endOfProgram : summary.reason = .endOfProgram →
    memory.halt = false ∧ memory.programLength.toNat ≤ memory.ip.toNat
  cycleLimit : summary.reason = .cycleLimit →
    memory.halt = false ∧ memory.ip.toNat < memory.programLength.toNat ∧ summary.cycles = limit

variable {config : Config} {start : State}

namespace State

theorem runFrom_agrees (config : Config) (limit : Nat) (start : State) :
    ((State.runner config).runFrom limit 0 start).1.Agrees limit
      ((State.runner config).runFrom limit 0 start).2.memory := by
  rcases (State.runner config).exists_ends limit start with ⟨count, state, within, -, ends⟩
  revert ends
  generalize (State.runner config).runFrom limit 0 start = ended
  intro ends
  cases ends with
  | @stopped reason stopped =>
      rcases State.stop?_eq_some_iff.mp stopped with ⟨rfl, halted⟩ | ⟨rfl, clear, ended⟩
      · refine ⟨?_, within, fun _ => halted, ?_, ?_, ?_⟩ <;> simp
      · refine ⟨?_, within, ?_, ?_, fun _ => ⟨clear, ended⟩, ?_⟩ <;> simp
  | outOfCycles running spent =>
      have goesOn := State.stop?_eq_none_iff.mp running
      refine ⟨?_, within, ?_, ?_, ?_, fun _ => ⟨goesOn.1, goesOn.2, spent⟩⟩ <;> simp
  | @failed fault last running early failed =>
      have halted : last.halted.memory.halt = true := last.memory.halt_setHalt true
      refine ⟨?_, early, fun _ => halted, fun _ _ => halted, ?_, ?_⟩ <;> simp

/-- A hardened run reports a halt just when the last instruction that it executed was one. -/
theorem runFrom_haltInstruction_iff (hardened : config.swapCheck = .hardened)
    (tidy : start.Tidy) (clear : start.memory.halt = false) (limit : Nat) :
    ((State.runner config).runFrom limit 0 start).1.reason = .haltInstruction ↔
      ∃ count state, ((State.runner config).runFrom limit 0 start).1.cycles = count + 1 ∧
        (State.runner config).after count start = some state ∧ state.Halts := by
  rcases (State.runner config).exists_ends limit start with ⟨count, state, within, reached, ends⟩
  revert ends
  generalize (State.runner config).runFrom limit 0 start = ended
  intro ends
  constructor
  · intro reason
    cases ends with
    | outOfCycles _ _ => cases reason
    | failed _ _ _ => cases reason
    | stopped stopped =>
        obtain rfl : _ = HaltReason.haltInstruction := reason
        have halted : state.memory.halt = true := by
          rcases stop?_eq_some_iff.mp stopped with ⟨-, halted⟩ | ⟨impossible, -⟩
          · exact halted
          · cases impossible
        cases count with
        | zero =>
            obtain rfl : start = state := Option.some.inj reached
            exact absurd (clear.symm.trans halted) Bool.false_ne_true
        | succ count =>
            rcases Runner.after_succ_eq_some_iff.mp reached with
              ⟨previous, before, running, stepped⟩
            exact ⟨count, previous, rfl, before,
              halts_of_step hardened (tidy.after hardened before) running stepped halted⟩
  · rintro ⟨last, previous, cycles, before, halts⟩
    have stepped := step_of_halts config halts
    have halted : previous.passed.halted.memory.halt = true :=
      previous.passed.memory.halt_setHalt true
    have arrived (oneMore : count = last + 1) : state.memory.halt = true := by
      subst oneMore
      rcases Runner.after_succ_eq_some_iff.mp reached with ⟨_, same, -, made⟩
      obtain rfl := Option.some.inj (same.symm.trans before)
      have reachedState : EStateM.Result.ok () state = _ := made.symm.trans stepped
      cases reachedState
      exact halted
    cases ends with
    | stopped stopped =>
        rcases stop?_eq_some_iff.mp stopped with ⟨rfl, -⟩ | ⟨-, clear, -⟩
        · rfl
        · exact absurd (clear.symm.trans (arrived cycles)) Bool.false_ne_true
    | outOfCycles running _ =>
        exact absurd ((stop?_eq_none_iff.mp running).1.symm.trans (arrived cycles))
          Bool.false_ne_true
    | failed _ _ failed =>
        obtain rfl : count = last := Nat.succ.inj cycles
        obtain rfl := Option.some.inj (reached.symm.trans before)
        have both : EStateM.Result.error _ _ = _ := failed.symm.trans stepped
        cases both

end State

/-! ## Machines -/

namespace Machine

/-- What one can do with a machine. -/
inductive Call
  | load (program : Program)
  | run (world : World)

/-- The machine after a call. A program that is refused changes nothing. -/
def call (machine : Machine) : Call → Machine
  | .load program =>
      match machine.load program with
      | .ok loaded => loaded
      | .error _ => machine
  | .run world => (machine.run world).2.1

/-- The machine after calls, the first of them first. -/
def afterCalls (machine : Machine) (calls : List Call) : Machine :=
  calls.foldl call machine

/-- The machine and the world of the first run among calls. -/
def firstRun? (machine : Machine) : List Call → Option (Machine × World)
  | [] => none
  | .load program :: rest => (machine.call (.load program)).firstRun? rest
  | .run world :: _ => some (machine, world)

variable {config : Config} {machine ready last : Machine} {world : World} {calls : List Call}

theorem Ready.call_load (ready : machine.Ready config) (program : Program) :
    (machine.call (.load program)).Ready config := by
  unfold call
  dsimp only
  cases loading : machine.load program with
  | ok loaded => exact ready.load loading
  | error refusal => exact ready

/-- Until the first run a machine is ready for it. -/
theorem Ready.firstRun? (now : machine.Ready config)
    (first : machine.firstRun? calls = some (ready, world)) :
    ready.Ready config := by
  induction calls generalizing machine with
  | nil => cases first
  | cons call rest inductionHypothesis =>
      cases call with
      | load program => exact inductionHypothesis (now.call_load program) first
      | run other =>
          obtain ⟨rfl, rfl⟩ := Prod.mk.inj (Option.some.inj first)
          exact now

theorem Ready.afterCalls (now : machine.Ready config) (none : machine.firstRun? calls = none) :
    (machine.afterCalls calls).Ready config := by
  induction calls generalizing machine with
  | nil => exact now
  | cons call rest inductionHypothesis =>
      cases call with
      | load program => exact inductionHypothesis (now.call_load program) none
      | run other => cases none

/-- A machine that has been run, in so many cycles. -/
structure Done (count : Nat) (machine : Machine) : Prop where
  isDone : machine.isDone = true
  cycles : machine.cycles = count

theorem Done.run {count : Nat} (done : machine.Done count) (world : World) :
    machine.run world = (⟨.alreadyHalted, 0⟩, machine, world) := by
  simp only [Machine.run, done.isDone, if_true]

/-- Loading leaves the history of the machine as it is. -/
theorem Done.load {count : Nat} (done : machine.Done count) {program : Program}
    (loading : machine.load program = .ok last) :
    last.Done count := by
  unfold Machine.load at loading
  dsimp only at loading
  split at loading
  · cases loading
  · split at loading
    · cases loading
      exact ⟨done.isDone, done.cycles⟩
    · cases loading

theorem Done.afterCalls {count : Nat} (done : machine.Done count) (calls : List Call) :
    (machine.afterCalls calls).Done count := by
  induction calls generalizing machine with
  | nil => exact done
  | cons call rest inductionHypothesis =>
      refine inductionHypothesis ?_
      cases call with
      | run world =>
          rw [Machine.call, done.run]
          exact done
      | load program =>
          unfold Machine.call
          dsimp only
          cases loading : machine.load program with
          | error refusal => exact done
          | ok loaded => exact done.load loading

theorem Fresh.done_run (fresh : machine.Fresh config) (world : World) :
    (machine.run world).2.1.Done (machine.run world).1.cycles := by
  rw [run_eq fresh.isDone]
  refine ⟨rfl, ?_⟩
  rw [ended, fresh.cycles, Nat.zero_add]

/-- After the first run the machine has been run for good, in the cycles that it took. -/
theorem Ready.done_afterCalls (now : machine.Ready config)
    (first : machine.firstRun? calls = some (ready, world)) :
    (machine.afterCalls calls).Done (ready.run world).1.cycles := by
  induction calls generalizing machine with
  | nil => cases first
  | cons call rest inductionHypothesis =>
      cases call with
      | load program => exact inductionHypothesis (now.call_load program) first
      | run other =>
          obtain ⟨rfl, rfl⟩ := Prod.mk.inj (Option.some.inj first)
          exact (now.fresh.done_run other).afterCalls rest

/-- Only the first run of a machine executes instructions, whatever is loaded before and after.  Its
report agrees with the memory that it leaves, and every later run changes nothing. -/
theorem lifecycle {made : Machine} (new : Machine.new config = .ok made) (calls : List Call) :
    match made.firstRun? calls with
    | none => (made.afterCalls calls).isDone = false ∧ (made.afterCalls calls).cycles = 0
    | some (ready, world) =>
        (made.afterCalls calls).cycles = (ready.run world).1.cycles ∧
          (∀ other, (made.afterCalls calls).run other =
            (⟨.alreadyHalted, 0⟩, made.afterCalls calls, other)) ∧
          (ready.run world).1.Agrees config.cycleLimit (ready.run world).2.1.memory ∧
          (config.swapCheck = .hardened →
            ((ready.run world).1.reason = .haltInstruction ↔
              ∃ count state, (ready.run world).1.cycles = count + 1 ∧
                (State.runner config).after count (ready.inWorld world) = some state ∧
                state.Halts)) := by
  have start : made.Ready config := .new new
  cases first : made.firstRun? calls with
  | none =>
      have fresh := (start.afterCalls first).fresh
      exact ⟨fresh.isDone, fresh.cycles⟩
  | some run =>
      rcases run with ⟨ready, world⟩
      have done := start.done_afterCalls first
      have fresh := (start.firstRun? first).fresh
      refine ⟨done.cycles, done.run, ?_, fun hardened => ?_⟩
      · rw [run_eq fresh.isDone, fresh.config]
        exact State.runFrom_agrees config config.cycleLimit (ready.inWorld world)
      · rw [run_eq fresh.isDone, fresh.config]
        exact State.runFrom_haltInstruction_iff hardened (fresh.tidy world) fresh.halt
          config.cycleLimit

/-- A byte past the table halts the first run, and nothing that is loaded then is run. -/
theorem lifecycle_halt :
    let config : Config := { swapCheck := .hardened, stackCapacity := 1, programCapacity := 8 }
    let made : Machine := ⟨config, Memory.blank ⟨1, 8⟩, Heap.empty config.maxLiveStrings, false, 0⟩
    let world : World := ⟨Input.ofBytes [], Output.unbounded, FileSystem.fresh⟩
    let ready := made.call (.load ⟨[0, 33]⟩)
    let last := made.afterCalls [.load ⟨[0, 33]⟩, .run world, .load ⟨[0]⟩]
    Machine.new config = .ok made ∧ (ready.run world).1 = ⟨.haltInstruction, 2⟩ ∧
      (ready.run world).2.1.memory.halt = true ∧ last.cycles = 2 ∧
      last.run world = (⟨.alreadyHalted, 0⟩, last, world) ∧
      ∃ count state, 2 = count + 1 ∧
        (State.runner config).after count (ready.inWorld world) = some state ∧ state.Halts := by
  intro config made world ready last
  have valid : config.Valid := (config.validate_eq_ok_iff).mp rfl
  have new : Machine.new config = .ok made := (new_eq_ok_iff config made).mpr ⟨valid, rfl⟩
  have summary : (ready.run world).1 = ⟨.haltInstruction, 2⟩ := by
    decide +kernel
  have life := lifecycle new [.load ⟨[0, 33]⟩, .run world, .load ⟨[0]⟩]
  rw [show made.firstRun? [.load ⟨[0, 33]⟩, .run world, .load ⟨[0]⟩] = some (ready, world)
    from rfl] at life
  rcases life with ⟨cycles, later, agrees, halts⟩
  rw [summary] at cycles halts
  exact ⟨new, summary, agrees.haltInstruction (congrArg Summary.reason summary), cycles,
    later world, (halts rfl).mp rfl⟩

end Machine

end TagMachine
