import TagMachine.Machine.Run

/-!
# Runs

A run executes one step after another until something stops it: a state that is to stop, a step
that fails, or the bound on the number of steps.  `after count start` is the state that `count`
steps lead to when none of them was the last.  A run ends at one of those states, and what holds of
the first and is kept by every step holds of all of them.  Two machines whose steps are alike have
runs that are alike.
-/

namespace TagMachine

/-- What a run needs to know of a machine with states in `σ`: why no step is made from a state, the
step, and what becomes of the state that a failed step left. -/
structure Runner (σ : Type) where
  stop? : σ → Option HaltReason
  step : EStateM Fault σ Unit
  halted : σ → σ

namespace Runner

variable {σ τ : Type}

/-- Makes steps until the machine stops or no more remain; counts on from `cycles`. -/
def runFrom (runner : Runner σ) : (remaining cycles : Nat) → σ → Summary × σ
  | 0, cycles, state => (⟨(runner.stop? state).getD .cycleLimit, cycles⟩, state)
  | remaining + 1, cycles, state =>
      match runner.stop? state with
      | some reason => (⟨reason, cycles⟩, state)
      | none =>
          match runner.step state with
          | .ok _ next => runner.runFrom remaining (cycles + 1) next
          | .error fault last => (⟨.fault fault, cycles + 1⟩, runner.halted last)

/-- The state that one more step leads to, if there is one and it does not fail. -/
def next? (runner : Runner σ) (state : σ) : Option σ :=
  match runner.stop? state with
  | some _ => none
  | none =>
      match runner.step state with
      | .ok _ next => some next
      | .error _ _ => none

/-- The state that `count` steps lead to, if there are so many and none of them fails. -/
def after (runner : Runner σ) : (count : Nat) → (start : σ) → Option σ
  | 0, start => some start
  | count + 1, start => (runner.after count start).bind runner.next?

variable {runner : Runner σ} {start state next : σ} {count : Nat}

theorem next?_eq_some_iff :
    runner.next? state = some next ↔
      runner.stop? state = none ∧ runner.step state = .ok () next := by
  unfold next?
  cases stopped : runner.stop? state with
  | some reason => simp
  | none =>
      cases stepped : runner.step state with
      | ok result reached => simp
      | error fault last => simp

theorem after_succ_eq_some_iff :
    runner.after (count + 1) start = some next ↔
      ∃ state, runner.after count start = some state ∧ runner.stop? state = none ∧
        runner.step state = .ok () next := by
  simp only [after, Option.bind_eq_some_iff, next?_eq_some_iff]

theorem after_succ_eq_bind (runner : Runner σ) (count : Nat) (start : σ) :
    runner.after (count + 1) start = (runner.next? start).bind (runner.after count) := by
  induction count with
  | zero =>
      change runner.next? start = (runner.next? start).bind some
      rw [Option.bind_fun_some]
  | succ count inductionHypothesis =>
      rw [after, inductionHypothesis, Option.bind_assoc]
      rfl

/-- A property of the first state that every step keeps holds of all states of a run. -/
theorem after_induction (holds : Nat → σ → Prop)
    (atStart : holds 0 start)
    (kept : ∀ count state next, holds count state → runner.stop? state = none →
      runner.step state = .ok () next → holds (count + 1) next)
    (reached : runner.after count start = some state) :
    holds count state := by
  induction count generalizing state with
  | zero =>
      obtain rfl : start = state := Option.some.inj reached
      exact atStart
  | succ count inductionHypothesis =>
      rcases after_succ_eq_some_iff.mp reached with ⟨previous, earlier, running, stepped⟩
      exact kept count previous state (inductionHypothesis earlier) running stepped

/-! ## How a run ends -/

/-- What is left of a run when `count` of its steps have been made. -/
theorem runFrom_of_after {limit : Nat} (reached : runner.after count start = some state)
    (within : count ≤ limit) (cycles : Nat) :
    runner.runFrom limit cycles start =
      runner.runFrom (limit - count) (cycles + count) state := by
  induction count generalizing state with
  | zero =>
      obtain rfl : start = state := Option.some.inj reached
      rfl
  | succ count inductionHypothesis =>
      rcases after_succ_eq_some_iff.mp reached with ⟨previous, earlier, running, stepped⟩
      have oneMore : limit - count = limit - (count + 1) + 1 := by omega
      rw [inductionHypothesis earlier (by omega), oneMore, runFrom, running, stepped]
      rfl

/-- The ways in which a run ends at one of its states. -/
inductive Ends (runner : Runner σ) (limit count : Nat) (state : σ) : Summary × σ → Prop
  | stopped {reason : HaltReason} :
      runner.stop? state = some reason →
      Ends runner limit count state (⟨reason, count⟩, state)
  | outOfCycles :
      runner.stop? state = none → count = limit →
      Ends runner limit count state (⟨.cycleLimit, count⟩, state)
  | failed {fault : Fault} {last : σ} :
      runner.stop? state = none → count < limit →
      runner.step state = .error fault last →
      Ends runner limit count state (⟨.fault fault, count + 1⟩, runner.halted last)

theorem exists_ends (runner : Runner σ) (limit : Nat) (start : σ) :
    ∃ count state, count ≤ limit ∧ runner.after count start = some state ∧
      Ends runner limit count state (runner.runFrom limit 0 start) := by
  suffices rest : ∀ remaining count state, count + remaining = limit →
      runner.after count start = some state →
      ∃ count state, count ≤ limit ∧ runner.after count start = some state ∧
        Ends runner limit count state (runner.runFrom limit 0 start) from
    rest limit 0 start (Nat.zero_add limit) rfl
  intro remaining
  induction remaining with
  | zero =>
      intro count state spent reached
      refine ⟨count, state, by omega, reached, ?_⟩
      have noneLeft : limit - count = 0 := by omega
      rw [runFrom_of_after reached (by omega), noneLeft, Nat.zero_add, runFrom]
      cases stopped : runner.stop? state with
      | some reason => exact .stopped stopped
      | none => exact .outOfCycles stopped (by omega)
  | succ remaining inductionHypothesis =>
      intro count state left reached
      have oneMore : limit - count = remaining + 1 := by omega
      cases stopped : runner.stop? state with
      | some reason =>
          refine ⟨count, state, by omega, reached, ?_⟩
          rw [runFrom_of_after reached (by omega), oneMore, Nat.zero_add, runFrom, stopped]
          exact .stopped stopped
      | none =>
          cases stepped : runner.step state with
          | ok _ next =>
              exact inductionHypothesis (count + 1) next (by omega)
                (after_succ_eq_some_iff.mpr ⟨state, reached, stopped, stepped⟩)
          | error fault last =>
              refine ⟨count, state, by omega, reached, ?_⟩
              rw [runFrom_of_after reached (by omega), oneMore, Nat.zero_add, runFrom, stopped,
                stepped]
              exact .failed stopped (by omega) stepped

theorem runFrom_of_failed {limit : Nat} {fault : Fault} {last : σ}
    (reached : runner.after count start = some state) (within : count < limit)
    (running : runner.stop? state = none) (failed : runner.step state = .error fault last) :
    runner.runFrom limit 0 start = (⟨.fault fault, count + 1⟩, runner.halted last) := by
  have oneMore : limit - count = limit - count - 1 + 1 := by omega
  rw [runFrom_of_after reached (by omega), oneMore, Nat.zero_add, runFrom, running, failed]

/-! ## Runs that are alike -/

/-- Two steps that both succeed or both fail with the same fault. -/
inductive Alike (related ended : σ → τ → Prop) :
    EStateM.Result Fault σ Unit → EStateM.Result Fault τ Unit → Prop
  | ok {left : σ} {right : τ} :
      related left right → Alike related ended (.ok () left) (.ok () right)
  | error {fault : Fault} {left : σ} {right : τ} :
      ended left right → Alike related ended (.error fault left) (.error fault right)

/-- From states related after `count` steps, both machines stop for the same reason or make steps
that are alike; states of both that are related, or left by a failure, agree in the end. -/
structure Simulation (left : Runner σ) (right : Runner τ) (limit : Nat)
    (related : Nat → σ → τ → Prop) (agree : σ → τ → Prop) : Prop where
  agrees {count : Nat} {leftState : σ} {rightState : τ} :
    related count leftState rightState → agree leftState rightState
  stop? {count : Nat} {leftState : σ} {rightState : τ} :
    related count leftState rightState → left.stop? leftState = right.stop? rightState
  step {count : Nat} {leftState : σ} {rightState : τ} :
    related count leftState rightState → count < limit → left.stop? leftState = none →
    Alike (related (count + 1)) (fun leftLast rightLast =>
        agree (left.halted leftLast) (right.halted rightLast))
      (left.step leftState) (right.step rightState)

namespace Simulation

variable {left : Runner σ} {right : Runner τ} {limit : Nat} {related : Nat → σ → τ → Prop}
  {agree : σ → τ → Prop} {leftStart : σ} {rightStart : τ}

theorem after (simulation : Simulation left right limit related agree)
    (atStart : related 0 leftStart rightStart) (within : count ≤ limit) :
    Option.Rel (related count) (left.after count leftStart) (right.after count rightStart) := by
  induction count with
  | zero => exact .some atStart
  | succ count inductionHypothesis =>
      have earlier := inductionHypothesis (by omega)
      simp only [Runner.after]
      revert earlier
      generalize left.after count leftStart = leftReached
      generalize right.after count rightStart = rightReached
      intro earlier
      cases earlier with
      | none => exact .none
      | @some leftState rightState now =>
          simp only [Option.bind_some, next?, ← simulation.stop? now]
          cases running : left.stop? leftState with
          | some reason => exact .none
          | none =>
              have stepped := simulation.step now (by omega) running
              revert stepped
              cases left.step leftState <;> cases right.step rightState <;> intro stepped
              · cases stepped with
                | ok reached => exact .some reached
              · cases stepped
              · cases stepped
              · exact .none

/-- Both runs report the same and leave states that agree, from any related states on. -/
theorem runFrom (simulation : Simulation left right limit related agree)
    {remaining : Nat} {leftState : σ} {rightState : τ}
    (now : related count leftState rightState) (spent : count + remaining = limit) :
    (left.runFrom remaining count leftState).1 = (right.runFrom remaining count rightState).1 ∧
      agree (left.runFrom remaining count leftState).2
        (right.runFrom remaining count rightState).2 := by
  induction remaining generalizing count leftState rightState with
  | zero =>
      rw [Runner.runFrom, Runner.runFrom, simulation.stop? now]
      exact ⟨rfl, simulation.agrees now⟩
  | succ remaining inductionHypothesis =>
      rw [Runner.runFrom, Runner.runFrom, ← simulation.stop? now]
      cases running : left.stop? leftState with
      | some reason => exact ⟨rfl, simulation.agrees now⟩
      | none =>
          have stepped := simulation.step now (by omega) running
          revert stepped
          cases left.step leftState <;> cases right.step rightState <;> intro stepped
          · cases stepped with
            | ok reached => exact inductionHypothesis reached (by omega)
          · cases stepped
          · cases stepped
          · cases stepped with
            | error ended => exact ⟨rfl, ended⟩

end Simulation

end Runner

/-! ## The machine's own run -/

/-- The machine of the given limits. -/
def State.runner (config : Config) : Runner State where
  stop? := State.stop?
  step := State.step config
  halted := State.halted

theorem State.stop?_eq_some_iff {state : State} {reason : HaltReason} :
    state.stop? = some reason ↔
      reason = .haltInstruction ∧ state.memory.halt = true ∨
        reason = .endOfProgram ∧ state.memory.halt = false ∧
          state.memory.programLength.toNat ≤ state.memory.ip.toNat := by
  unfold State.stop?
  cases state.memory.halt with
  | true => simp [eq_comm]
  | false =>
      by_cases ended : state.memory.programLength.toNat ≤ state.memory.ip.toNat
      · simp [ended, eq_comm]
      · simp [ended]

theorem State.stop?_eq_none_iff {state : State} :
    state.stop? = none ↔
      state.memory.halt = false ∧ state.memory.ip.toNat < state.memory.programLength.toNat := by
  unfold State.stop?
  cases state.memory.halt with
  | true => simp
  | false => simp

/-- Instructions read no more of the limits than these five. -/
theorem State.step_congr {left right : Config} (swapCheck : left.swapCheck = right.swapCheck)
    (lineLength : left.maxLineLength = right.maxLineLength)
    (nameLength : left.maxFileNameLength = right.maxFileNameLength)
    (fileSize : left.maxFileSize = right.maxFileSize)
    (sandboxDir : left.sandboxDir = right.sandboxDir) :
    State.step left = State.step right := by
  have executes : ∀ opcode : Opcode, opcode.execute left = opcode.execute right := by
    rcases left with ⟨_, _, _, _, _, _, _, _, _, _⟩
    rcases right with ⟨_, _, _, _, _, _, _, _, _, _⟩
    subst swapCheck lineLength nameLength fileSize sandboxDir
    intro opcode
    cases opcode <;> rfl
  unfold State.step
  simp only [executes]

theorem State.runFrom_eq_runner (config : Config) (remaining cycles : Nat) (state : State) :
    State.runFrom config remaining cycles state =
      (State.runner config).runFrom remaining cycles state := by
  induction remaining generalizing cycles state with
  | zero => rfl
  | succ remaining inductionHypothesis =>
      unfold State.runFrom Runner.runFrom
      simp only [State.runner] at inductionHypothesis ⊢
      cases state.stop? with
      | some reason => rfl
      | none =>
          cases State.step config state with
          | ok _ next => exact inductionHypothesis (cycles + 1) next
          | error fault last => rfl

/-- What a run returns when its steps have come to an end. -/
def Machine.ended (machine : Machine) (last : Summary × State) : Summary × Machine × World :=
  (last.1,
    { machine with
      memory := last.2.memory
      heap := last.2.heap
      isDone := true
      cycles := machine.cycles + last.1.cycles },
    last.2.toWorld)

/-- A machine that has not been run before does what its runner does. -/
theorem Machine.run_eq {machine : Machine} (fresh : machine.isDone = false) (world : World) :
    machine.run world =
      machine.ended ((State.runner machine.config).runFrom machine.config.cycleLimit 0
        (machine.inWorld world)) := by
  simp only [Machine.run, fresh, State.runFrom_eq_runner, Bool.false_eq_true, if_false]
  rfl

end TagMachine
