import TagMachine.Proofs.Memory.Loading
import TagMachine.Proofs.Parts
import TagMachine.Proofs.Runner
import TagMachine.Proofs.Session.Reading

/-!
# Input that is left unread has not been looked at

A reader meets the end of the input only when it has read everything before it.  So a run that
leaves some of its input unread has not found out what follows: with more bytes behind its input it
does the same, and leaves those behind what it left.
-/

namespace TagMachine

/-! ## Alike until something is over -/

section RespectsUntil

variable {ε σ α β : Type} {past : σ → Prop} {related : σ → σ → Prop}

/-- From related states the computation comes to the same, or the first is over by then; what is
over stays so. -/
structure RespectsUntil (past : σ → Prop) (related : σ → σ → Prop) (action : EStateM ε σ α) :
    Prop where
  keeps : Keeps past action
  alike : ∀ left right, related left right →
    past (stateOf (action left)) ∨ ResultsAlike related (action left) (action right)

theorem Respects.until {action : EStateM ε σ α} (respects : Respects related action)
    (keeps : Keeps past action) :
    RespectsUntil past related action :=
  ⟨keeps, fun left right same => Or.inr (respects left right same)⟩

theorem respectsUntil_pure (result : α) :
    RespectsUntil past related (pure result : EStateM ε σ α) :=
  (respects_pure result).until (respects_pure result)

theorem respectsUntil_throw (failure : ε) :
    RespectsUntil past related (throw failure : EStateM ε σ α) :=
  (respects_throw failure).until (respects_throw failure)

theorem RespectsUntil.bind {first : EStateM ε σ α} {rest : α → EStateM ε σ β}
    (here : RespectsUntil past related first)
    (later : ∀ result, RespectsUntil past related (rest result)) :
    RespectsUntil past related (first >>= rest) where
  keeps := here.keeps.bind fun result => (later result).keeps
  alike left right same := by
    rcases here.alike left right same with spent | alike
    · refine Or.inl ?_
      cases ran : first left with
      | ok result after =>
          rw [bind_of_ok ran]
          exact (later result).keeps.stateOf (by rwa [ran] at spent)
      | error failure after =>
          rw [bind_of_error ran]
          rwa [ran] at spent
    · cases ranLeft : first left <;> cases ranRight : first right <;>
        rw [ranLeft, ranRight] at alike <;> cases alike
      · rename_i after
        rw [bind_of_ok ranLeft, bind_of_ok ranRight]
        exact (later _).alike _ _ after
      · rename_i after
        rw [bind_of_error ranLeft, bind_of_error ranRight]
        exact Or.inr (.error after)

theorem RespectsUntil.tryCatch {first : EStateM ε σ α} {recover : ε → EStateM ε σ α}
    (here : RespectsUntil past related first)
    (later : ∀ failure, RespectsUntil past related (recover failure)) :
    RespectsUntil past related (tryCatch first recover) where
  keeps := here.keeps.tryCatch fun failure => (later failure).keeps
  alike left right same := by
    rcases here.alike left right same with spent | alike
    · refine Or.inl ?_
      cases ran : first left with
      | ok result after =>
          rw [tryCatch_of_ok ran]
          rwa [ran] at spent
      | error failure after =>
          rw [tryCatch_of_error ran]
          exact (later failure).keeps.stateOf (by rwa [ran] at spent)
    · cases ranLeft : first left <;> cases ranRight : first right <;>
        rw [ranLeft, ranRight] at alike <;> cases alike
      · rename_i after
        rw [tryCatch_of_ok ranLeft, tryCatch_of_ok ranRight]
        exact Or.inr (.ok after)
      · rename_i after
        rw [tryCatch_of_error ranLeft, tryCatch_of_error ranRight]
        exact (later _).alike _ _ after

/-- What goes on with the state may see of it what related states have in common. -/
theorem respectsUntil_get_bind {rest : σ → EStateM ε σ β}
    (common : ∀ left right, related left right → rest left = rest right)
    (later : ∀ state, RespectsUntil past related (rest state)) :
    RespectsUntil past related ((get : EStateM ε σ σ) >>= rest) where
  keeps := keeps_get_bind fun state => (later state).keeps
  alike left right same := by
    rw [get_bind, get_bind, common left right same]
    exact (later right).alike left right same

end RespectsUntil

/-! ## Readers -/

namespace Input

open Bytes

variable {ending other : Ending} {bytes : Bytes}

/-- Every byte of the input has been read. -/
def Spent (input : Input) : Prop :=
  input.unread = []

/-- The second input has more bytes behind those of the first. -/
def Followed (more : Bytes) (left right : Input) : Prop :=
  right.unread = left.unread ++ more

/-- A line is read as before where more follows, if it leaves something. -/
theorem lineOf_append {limit : Nat} (left : (lineOf limit ending bytes).2 ≠ [])
    (other : Ending) (more : Bytes) :
    lineOf limit other (bytes ++ more) =
      ((lineOf limit ending bytes).1, (lineOf limit ending bytes).2 ++ more) := by
  obtain ⟨before, after, rfl, absent, reached⟩ | ⟨absent, full⟩ | ⟨absent, short⟩ :=
    line_cases limit bytes
  · rw [List.append_assoc, List.cons_append, lineOf_append_newline absent reached,
      lineOf_append_newline absent reached]
  · have reach : (bytes ++ more).take limit = bytes.take limit :=
      List.take_append_of_le_length full
    have followed : lineOf limit other (bytes ++ more) = _ :=
      lineOf_full (by rwa [reach]) (by rw [List.length_append]; omega)
    rw [followed, lineOf_full absent full, reach, List.drop_append_of_le_length full]
  · rw [lineOf_drained absent short] at left
    exact absurd rfl left

theorem blockOf_append {count : Nat} (left : (blockOf count ending bytes).2 ≠ [])
    (other : Ending) (more : Bytes) :
    blockOf count other (bytes ++ more) =
      ((blockOf count ending bytes).1, (blockOf count ending bytes).2 ++ more) := by
  have enough : ¬bytes.length < count := by
    intro few
    rw [blockOf, if_pos few] at left
    exact left rfl
  rw [blockOf, blockOf, if_neg enough, if_neg (by rw [List.length_append]; omega),
    List.take_append_of_le_length (by omega), List.drop_append_of_le_length (by omega)]

variable {α : Type}

/-- A reader that has something left did not meet the end, and reads so where more follows. -/
theorem Reads.respectsUntil {reading : EStateM IoError Input α}
    {seen : Ending → Bytes → Except IoError α × Bytes} (reads : Reads reading seen)
    (atEnd : ∀ ending, (seen ending []).2 = [])
    (before : ∀ ending bytes, (seen ending bytes).2 ≠ [] → ∀ other more,
      seen other (bytes ++ more) = ((seen ending bytes).1, (seen ending bytes).2 ++ more))
    (more : Bytes) :
    RespectsUntil Spent (Followed more) reading where
  keeps := by
    rintro input _ ⟨rfl, spent⟩
    rcases reads input with ⟨pieces, flat, read⟩
    have spentAfter : Spent ⟨pieces, input.ending⟩ := by
      rw [Spent, unread, flat, show input.unread = [] from spent, atEnd]
    rw [read]
    cases (seen input.ending input.unread).1 with
    | ok result => exact .ok ⟨rfl, spentAfter⟩
    | error cause => exact .error ⟨rfl, spentAfter⟩
  alike := by
    intro left right followed
    rcases reads left with ⟨leftPieces, leftFlat, readLeft⟩
    rcases reads right with ⟨rightPieces, rightFlat, readRight⟩
    by_cases spent : (seen left.ending left.unread).2 = []
    · refine Or.inl ?_
      rw [readLeft]
      cases (seen left.ending left.unread).1 <;> exact leftFlat.trans spent
    · refine Or.inr ?_
      rw [show right.unread = left.unread ++ more from followed,
        before left.ending left.unread spent right.ending more] at rightFlat readRight
      have followedAfter :
          Followed more ⟨leftPieces, left.ending⟩ ⟨rightPieces, right.ending⟩ := by
        rw [Followed, unread, unread, leftFlat, rightFlat]
      rw [readLeft, readRight]
      cases (seen left.ending left.unread).1 with
      | ok result => exact .ok followedAfter
      | error cause => exact .error followedAfter

theorem respectsUntil_readLine (limit : Nat) (more : Bytes) :
    RespectsUntil Spent (Followed more) (readLine limit) := by
  refine (reads_readLine limit).respectsUntil (fun ending => ?_)
    (fun _ _ left other more => lineOf_append left other more) more
  rw [lineOf, List.drop_nil]
  split <;> rfl

theorem respectsUntil_readWord (more : Bytes) :
    RespectsUntil Spent (Followed more) readWord := by
  refine RespectsUntil.bind ?_ fun _ => respectsUntil_pure _
  refine (reads_readExactly 8).respectsUntil (fun ending => rfl)
    (fun _ _ left other more => blockOf_append left other more) more

end Input

/-! ## Instructions -/

namespace State

/-- All input has been read. -/
def Spent (state : State) : Prop :=
  state.input.Spent

/-- The second state has more bytes behind the input of the first. -/
abbrev Followed (more : Bytes) : State → State → Prop :=
  Alongside (Input.Followed more) (fun left right => left = right) fun left right => left = right

variable {more : Bytes}

variable {ε σ α : Type}

/-- A computation on another component than the input. -/
theorem respectsUntil_on {component : Component ε σ}
    (sees : component.Sees (Followed more) fun left right => left = right)
    (apart : ∀ state part, (component.put state part).input = state.input)
    (access : EStateM ε σ α) :
    RespectsUntil Spent (Followed more) (component.on access) := by
  have keeps : Keeps Spent (component.on access) :=
    Component.keeps_on_of_put (fun state after spent => by rwa [Spent, apart]) access
  exact (sees.respects_on (respects_eq access)).until keeps

theorem spent_seesHeap : SeesHeap fun left right => left = right ∧ Spent left :=
  .ofKept fun _ _ spent => spent

theorem respectsUntil_onInput {reading : EStateM IoError Input α}
    (reads : RespectsUntil Input.Spent (Input.Followed more) reading) :
    RespectsUntil Spent (Followed more) (Component.input.on reading) where
  keeps := by
    have sees : Component.input.Sees (fun left right => left = right ∧ Spent left)
        fun left right => left = right ∧ left.Spent :=
      .ofKept (fun _ spent => spent) fun _ _ _ spent => spent
    exact sees.respects_on reads.keeps
  alike left right same := by
    rcases reads.alike _ _ same.input with spent | alike
    · refine Or.inl ?_
      cases ran : reading left.input with
      | ok result after =>
          rw [ran] at spent
          rw [Component.on_of_ok ran]
          exact spent
      | error cause after =>
          rw [ran] at spent
          rw [Component.on_of_error ran]
          exact spent
    · exact Or.inr (Alongside.seesInput.resultsAlike_on same alike)

def followedRule (config : Config) (more : Bytes) : PartRule config where
  part := RespectsUntil Spent (Followed more)
  whole := RespectsUntil Spent (Followed more)
  ofPure := respectsUntil_pure
  ofThrow := respectsUntil_throw
  bind := RespectsUntil.bind
  catching := RespectsUntil.tryCatch
  memory := respectsUntil_on Alongside.seesMemory fun _ _ => rfl
  getMemory ofMemory later :=
    respectsUntil_get_bind (fun left right same => ofMemory left right same.memory) later
  readLine limit := respectsUntil_onInput (Input.respectsUntil_readLine limit more)
  readWord := respectsUntil_onInput (Input.respectsUntil_readWord more)
  writeFile name content _ := respectsUntil_on Alongside.seesFiles (fun _ _ => rfl) _
  getFile name _ _ ofFile later :=
    respectsUntil_get_bind (fun left right same => ofFile left right (by rw [same.files])) later
  allocString string := (Alongside.seesHeap.respects_allocString string).until
    (spent_seesHeap.respects_allocString string)
  takeString id := (Alongside.seesHeap.respects_takeString id).until
    (spent_seesHeap.respects_takeString id)
  lookUpString id := (Alongside.seesHeap.respects_lookUpString id).until
    (spent_seesHeap.respects_lookUpString id)
  print line := respectsUntil_on Alongside.seesOutput (fun _ _ => rfl) _
  wholeOfPart := id
  bindWhole := RespectsUntil.bind

end State

/-! ## Runs -/

namespace Runner

variable {σ : Type} {runner : Runner σ} {past : σ → Prop} {related : σ → σ → Prop}

/-- What is over once a step has been made stays so to the end of the run. -/
theorem past_runFrom (keeps : Keeps past runner.step)
    (halted : ∀ state, past state → past (runner.halted state)) (remaining cycles : Nat)
    {state : σ} (now : past state) :
    past (runner.runFrom remaining cycles state).2 := by
  induction remaining generalizing cycles state with
  | zero => exact now
  | succ remaining inductionHypothesis =>
      have kept := keeps.stateOf now
      rw [runFrom]
      cases runner.stop? state with
      | some reason => exact now
      | none =>
          revert kept
          cases runner.step state with
          | ok _ next => exact inductionHypothesis (cycles + 1)
          | error fault last => exact halted last

theorem runFrom_until (step : RespectsUntil past related runner.step)
    (stop? : ∀ left right, related left right → runner.stop? left = runner.stop? right)
    (haltedPast : ∀ state, past state → past (runner.halted state))
    (haltedAlike : ∀ left right, related left right →
      related (runner.halted left) (runner.halted right))
    (remaining cycles : Nat) {left right : σ} (same : related left right) :
    past (runner.runFrom remaining cycles left).2 ∨
      (runner.runFrom remaining cycles left).1 = (runner.runFrom remaining cycles right).1 ∧
        related (runner.runFrom remaining cycles left).2
          (runner.runFrom remaining cycles right).2 := by
  induction remaining generalizing cycles left right with
  | zero =>
      rw [runFrom, runFrom, stop? left right same]
      exact Or.inr ⟨rfl, same⟩
  | succ remaining inductionHypothesis =>
      rw [runFrom, runFrom, ← stop? left right same]
      cases runner.stop? left with
      | some reason => exact Or.inr ⟨rfl, same⟩
      | none =>
          rcases step.alike left right same with spent | alike
          · revert spent
            cases runner.step left with
            | ok _ next =>
                exact fun spent => Or.inl (past_runFrom step.keeps haltedPast _ _ spent)
            | error fault last => exact fun spent => Or.inl (haltedPast last spent)
          · revert alike
            cases runner.step left <;> cases runner.step right <;> intro alike <;> cases alike
            · rename_i next
              exact inductionHypothesis (cycles + 1) next
            · rename_i last
              exact Or.inr ⟨rfl, haltedAlike _ _ last⟩

end Runner

theorem State.runFrom_followed (config : Config) {more : Bytes} (remaining cycles : Nat)
    {left right : State} (same : Followed more left right) :
    Spent ((State.runner config).runFrom remaining cycles left).2 ∨
      ((State.runner config).runFrom remaining cycles left).1 =
          ((State.runner config).runFrom remaining cycles right).1 ∧
        Followed more ((State.runner config).runFrom remaining cycles left).2
          ((State.runner config).runFrom remaining cycles right).2 := by
  have step : RespectsUntil Spent (Followed more) (State.runner config).step :=
    (followedRule config more).whole_step
  exact Runner.runFrom_until step (fun _ _ same => same.stop?_eq) (fun _ spent => spent)
    (fun _ _ same => same.halted) remaining cycles same

/-- A run that leaves some of its input unread does the same where more follows behind its input, and
leaves that behind what it left. -/
theorem Machine.run_followed {machine : Machine} {world : World}
    (unspent : (machine.run world).2.2.input.unread ≠ []) (more : Bytes) {longer : Input}
    (follows : longer.unread = world.input.unread ++ more) :
    (machine.run { world with input := longer }).1 = (machine.run world).1 ∧
      (machine.run { world with input := longer }).2.1 = (machine.run world).2.1 ∧
      (machine.run { world with input := longer }).2.2.output = (machine.run world).2.2.output ∧
      (machine.run { world with input := longer }).2.2.files = (machine.run world).2.2.files ∧
      (machine.run { world with input := longer }).2.2.input.unread =
        (machine.run world).2.2.input.unread ++ more := by
  cases done : machine.isDone with
  | true =>
      simp only [run, done, if_true]
      exact ⟨trivial, trivial, trivial, trivial, follows⟩
  | false =>
      have followed : State.Followed more (machine.inWorld world)
          (machine.inWorld { world with input := longer }) :=
        ⟨follows, rfl, rfl, rfl, rfl⟩
      rw [machine.run_eq done] at unspent
      rw [machine.run_eq done, machine.run_eq done]
      rcases State.runFrom_followed machine.config machine.config.cycleLimit 0 followed with
        spent | ⟨summary, last⟩
      · exact absurd spent unspent
      · refine ⟨summary.symm, ?_, last.output.symm, last.files.symm, last.input⟩
        simp only [ended, summary, last.memory, last.heap]

/-- A line that its limit cuts off, printed: what it is cut off from may go on. -/
theorem Machine.run_followed_cut :
    let machine := loaded { maxLineLength := 4, stackCapacity := 1, programCapacity := 8 } ⟨[24, 23]⟩
    let world : World :=
      ⟨Input.ofBytes [97, 98, 99, 100, 101], Output.unbounded, FileSystem.fresh⟩
    let longer := Input.ofBytes [97, 98, 99, 100, 101, 10, 102]
    (machine.run world).2.2.input.unread = [100, 101] ∧
      (machine.run { world with input := longer }).1 = (machine.run world).1 ∧
      (machine.run { world with input := longer }).2.2.output = (machine.run world).2.2.output ∧
      (machine.run { world with input := longer }).2.2.input.unread = [100, 101, 10, 102] := by
  intro machine world longer
  have left : (machine.run world).2.2.input.unread = [100, 101] := by
    decide +kernel
  rcases run_followed (by rw [left]; decide) [10, 102] (rfl : longer.unread = _) with
    ⟨summary, -, output, -, unread⟩
  rw [left] at unread
  exact ⟨left, summary, output, unread⟩

end TagMachine
