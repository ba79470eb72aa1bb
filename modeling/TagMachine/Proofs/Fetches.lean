import TagMachine.Proofs.Memory.Looks
import TagMachine.Proofs.Memory.Tape
import TagMachine.Proofs.Runner

/-!
# Fetching

A step fetches the byte at the instruction pointer and executes the opcode that it runs as.  The
fetches of a run are those at its states, in their order, and there are as many as steps.
-/

namespace TagMachine

namespace State

/-- The state with the instruction pointer moved past an opcode. -/
def passed (state : State) : State :=
  { state with memory := state.memory.setIp (state.memory.ip + 1) }

variable {config : Config} {state start : State} {byte : UInt8} {after : Memory}

theorem fetched?_of_ok
    (read : Memory.programByte state.memory.ip state.memory = .ok byte after) :
    state.fetched? = some ⟨state.memory.ip, byte, state.memory.sp, state.memory.cmp⟩ := by
  obtain rfl := Memory.eq_of_programByte read
  simp only [fetched?, read]

theorem step_of_ok (config : Config)
    (read : Memory.programByte state.memory.ip state.memory = .ok byte after) :
    State.step config state = (Opcode.running byte).execute config state.passed := by
  obtain rfl := Memory.eq_of_programByte read
  rw [State.step, get_bind, bind_of_ok (Action.onMemory_of_ok read)]
  rfl

theorem step_of_error (config : Config) {fault : Fault}
    (failed : Memory.programByte state.memory.ip state.memory = .error fault after) :
    State.step config state = .error fault { state with memory := after } := by
  rw [State.step, get_bind, bind_of_error (Action.onMemory_of_error failed)]

theorem step_of_unfetched (config : Config) (unfetched : state.fetched? = none) :
    ∃ fault, State.step config state = .error fault state := by
  have looked := (Memory.looks_programByte state.memory.ip state.memory).stateOf rfl
  cases read : Memory.programByte state.memory.ip state.memory with
  | ok byte after =>
      rw [fetched?_of_ok read] at unfetched
      cases unfetched
  | error fault after =>
      rw [read] at looked
      obtain rfl : after = state.memory := looked
      exact ⟨fault, step_of_error config read⟩

section Fetched

variable {fetch : Fetch}

theorem programByte_of_fetched (fetched : state.fetched? = some fetch) :
    Memory.programByte state.memory.ip state.memory = .ok fetch.byte state.memory ∧
      fetch.ip = state.memory.ip := by
  cases read : Memory.programByte state.memory.ip state.memory with
  | error fault last => simp only [fetched?, read, reduceCtorEq] at fetched
  | ok byte after =>
      obtain rfl := Memory.eq_of_programByte read
      rw [fetched?_of_ok read] at fetched
      obtain rfl := Option.some.inj fetched
      exact ⟨rfl, rfl⟩

/-- A step executes the instruction that it fetches. -/
theorem step_of_fetched (config : Config) (fetched : state.fetched? = some fetch) :
    State.step config state = (Opcode.running fetch.byte).execute config state.passed :=
  step_of_ok config (programByte_of_fetched fetched).1

end Fetched

/-! ## The fetches of a run -/

/-- The instruction that the next step fetches, if there is a next step. -/
def fetching? (state : State) : Option Fetch :=
  if state.stop? = none then state.fetched? else none

theorem fetching?_eq_some_iff {fetch : Fetch} :
    state.fetching? = some fetch ↔ state.stop? = none ∧ state.fetched? = some fetch := by
  unfold fetching?
  split <;> simp [*]

theorem next?_of_fetching?_eq_none (config : Config) (idle : state.fetching? = none) :
    (runner config).next? state = none := by
  unfold fetching? at idle
  by_cases goesOn : state.stop? = none
  · rw [if_pos goesOn] at idle
    rcases step_of_unfetched config idle with ⟨fault, failed⟩
    simp only [Runner.next?, runner, goesOn, failed]
  · rcases Option.ne_none_iff_exists'.mp goesOn with ⟨reason, stops⟩
    simp only [Runner.next?, runner, stops]

/-- The first fetch, and those of the run from the next state on. -/
theorem fetchesFrom_succ (config : Config) (remaining wanted : Nat) (state : State) :
    fetchesFrom config (remaining + 1) (wanted + 1) state =
      state.fetching?.toList ++
        ((runner config).next? state).toList.flatMap (fetchesFrom config remaining wanted) := by
  unfold fetching?
  cases goesOn : state.stop? with
  | some reason => simp [fetchesFrom, Runner.next?, runner, goesOn]
  | none => cases stepped : State.step config state <;>
      simp [fetchesFrom, Runner.next?, runner, goesOn, stepped]

/-- What stands at a place of the fetches is what is fetched in the state after so many steps. -/
theorem getElem?_fetchesFrom_eq_some_iff {remaining wanted count : Nat} {fetch : Fetch} :
    (fetchesFrom config remaining wanted start)[count]? = some fetch ↔
      count < remaining ∧ count < wanted ∧
        ∃ state, (runner config).after count start = some state ∧
          state.fetching? = some fetch := by
  induction remaining generalizing start wanted count with
  | zero => simp [fetchesFrom]
  | succ remaining inductionHypothesis =>
      cases wanted with
      | zero => simp [fetchesFrom]
      | succ wanted =>
          rw [fetchesFrom_succ]
          cases now : start.fetching? with
          | none =>
              have ends := next?_of_fetching?_eq_none config now
              cases count with
              | zero => simp [now, ends, Runner.after]
              | succ count => simp [ends, Runner.after_succ_eq_bind]
          | some first =>
              cases count with
              | zero => simp [now, Runner.after]
              | succ count =>
                  rw [Runner.after_succ_eq_bind]
                  cases (runner config).next? start <;> simp [inductionHypothesis]

theorem fetchesFrom_eq_take (config : Config) (remaining wanted : Nat) (start : State) :
    fetchesFrom config remaining wanted start =
      (fetchesFrom config remaining remaining start).take wanted := by
  apply List.ext_getElem?
  intro count
  apply Option.ext
  intro fetch
  rw [List.getElem?_take]
  split
  · rename_i within
    simp [getElem?_fetchesFrom_eq_some_iff, within]
  · rename_i beyond
    simp [getElem?_fetchesFrom_eq_some_iff, beyond]

/-- Where every byte that is asked for can be read, there is a fetch for every cycle. -/
theorem length_fetchesFrom {remaining : Nat}
    (readable : ∀ count state, (runner config).after count start = some state →
      state.stop? = none → state.fetched? ≠ none) (cycles : Nat) :
    ((runner config).runFrom remaining cycles start).1.cycles =
      cycles + (fetchesFrom config remaining remaining start).length := by
  induction remaining generalizing start cycles with
  | zero => rfl
  | succ remaining inductionHypothesis =>
      cases running : (runner config).stop? start with
      | some reason =>
          have idle : start.fetching? = none := by
            have stops : start.stop? = some reason := running
            simp [fetching?, stops]
          rw [Runner.runFrom, running, fetchesFrom_succ, idle,
            next?_of_fetching?_eq_none config idle]
          rfl
      | none =>
          rcases Option.ne_none_iff_exists'.mp (readable 0 start rfl running) with ⟨first, fetched⟩
          rw [fetchesFrom_succ, fetching?_eq_some_iff.mpr ⟨running, fetched⟩]
          cases stepped : (runner config).step start with
          | error fault last => simp [Runner.runFrom, Runner.next?, running, stepped]
          | ok _ next =>
              have moved := Runner.next?_eq_some_iff.mpr ⟨running, stepped⟩
              have later : ∀ count state, (runner config).after count next = some state →
                  state.stop? = none → state.fetched? ≠ none := by
                intro count state reached
                apply readable (count + 1) state
                rw [Runner.after_succ_eq_bind, moved]
                exact reached
              rw [Runner.runFrom, running, stepped, moved]
              simp only [inductionHypothesis later, Option.toList_some, List.singleton_append,
                List.flatMap_singleton, List.length_cons]
              omega

end State

end TagMachine
