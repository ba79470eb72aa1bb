import TagMachine.Proofs.Session.Framing

/-!
# Where the input is cut is never seen

Inputs that hold the same bytes and end alike are the same to every instruction, to every run and to
every session, in whatever pieces they show the bytes, and also if they are cut anew before every
instruction.
-/

namespace TagMachine

/-! ## Runs -/

/-- A reader that may show what is left in other pieces whenever it is asked. -/
structure Input.Recutting where
  cut : Input → Input
  recut : ∀ input, (cut input).Recut input

/-- A machine whose input is cut anew before every instruction. -/
def State.recuttingRunner (config : Config) (reader : Input.Recutting) : Runner State where
  stop? := State.stop?
  step := fun state => State.step config { state with input := reader.cut state.input }
  halted := State.halted

/-- A machine's run on an input that is cut anew before every instruction. -/
def Machine.runRecutting (machine : Machine) (reader : Input.Recutting) (world : World) :
    Summary × Machine × World :=
  if machine.isDone then (⟨.alreadyHalted, 0⟩, machine, world)
  else
    machine.ended ((State.recuttingRunner machine.config reader).runFrom machine.config.cycleLimit 0
      (machine.inWorld world))

section Runs

variable {config : Config} {left right : State}

theorem Input.Recut.symm {left right : Input} (same : left.Recut right) :
    right.Recut left :=
  ⟨same.unread.symm, same.ending.symm⟩

theorem Input.Recut.trans {first second third : Input} (once : first.Recut second)
    (again : second.Recut third) :
    first.Recut third :=
  ⟨once.unread.trans again.unread, once.ending.trans again.ending⟩

/-- States that differ in the pieces of their input go on to differ in these alone, if the input of
one is cut anew before every step. -/
theorem State.simulation_recutting (config : Config) (reader : Input.Recutting) (limit : Nat) :
    Runner.Simulation (State.runner config) (State.recuttingRunner config reader) limit
      (fun _ => (WorldRelation.recut config).States) (WorldRelation.recut config).States where
  agrees same := same
  stop? same := by
    change State.stop? _ = State.stop? _
    rw [State.stop?, State.stop?, same.memory]
  step {_ left right} same _ _ := by
    have recut : (WorldRelation.recut config).States left
        { right with input := reader.cut right.input } :=
      ⟨⟨same.world.input.trans (reader.recut right.input).symm, same.world.output,
        same.world.files⟩, same.memory, same.heap⟩
    exact recut.alike_step

/-- What two runs report and leave, the same but for where the rest of the input is cut. -/
def Machine.RanAlike (left right : Summary × Machine × World) : Prop :=
  left.1 = right.1 ∧ left.2.1 = right.2.1 ∧ left.2.2.Recut right.2.2

theorem Machine.runRecutting_recut (machine : Machine) (reader : Input.Recutting)
    {left right : World} (same : left.Recut right) :
    Machine.RanAlike (machine.run left) (machine.runRecutting reader right) := by
  unfold Machine.runRecutting
  cases done : machine.isDone with
  | true =>
      simp only [Machine.run, done, if_true]
      exact ⟨rfl, rfl, same⟩
  | false =>
      have start : (WorldRelation.recut machine.config).States (machine.inWorld left)
          (machine.inWorld right) := ⟨⟨same.input, same.output, same.files⟩, rfl, rfl⟩
      rcases (State.simulation_recutting machine.config reader machine.config.cycleLimit).runFrom
        start (Nat.zero_add _) with ⟨summary, last⟩
      rw [machine.run_eq done, if_neg (by decide)]
      refine ⟨summary, ?_, last.world.input, last.world.output, last.world.files⟩
      simp only [Machine.ended, summary, last.memory, last.heap]

end Runs

/-! ## Sessions -/

namespace Session

section Parts

variable {α : Type}

theorem respects_onInput {reading : EStateM IoError Input α}
    (respects : Respects Input.Recut reading) :
    Respects World.Recut (onInput reading) := by
  rintro ⟨leftInput, leftOutput, leftFiles⟩ ⟨rightInput, rightOutput, rightFiles⟩ same
  have read := respects leftInput rightInput same.input
  unfold onInput
  dsimp only
  revert read
  cases reading leftInput <;> cases reading rightInput <;> intro read <;> cases read
  · rename_i after
    exact .ok ⟨after, same.output, same.files⟩
  · rename_i after
    exact .error ⟨after, same.output, same.files⟩

theorem respects_print (line : String) :
    Respects World.Recut (print line) := by
  rintro ⟨leftInput, output, files⟩ ⟨rightInput, _, _⟩ ⟨same, rfl, rfl⟩
  unfold print
  dsimp only
  cases Output.printLine (Bytes.ofText line) output with
  | ok _ after => exact .ok ⟨same, rfl, rfl⟩
  | error cause after => exact .error ⟨same, rfl, rfl⟩

theorem respects_ensureRoot (config : Config) :
    Respects World.Recut (ensureRoot config) := by
  rintro ⟨leftInput, output, files⟩ ⟨rightInput, _, _⟩ ⟨same, rfl, rfl⟩
  unfold ensureRoot
  dsimp only
  cases Sandbox.ensureRoot config files with
  | ok _ after => exact .ok ⟨same, rfl, rfl⟩
  | error cause after => exact .error ⟨same, rfl, rfl⟩

theorem respects_printAll (lines : List String) :
    Respects World.Recut (printAll lines) := by
  induction lines with
  | nil => exact respects_pure ()
  | cons line rest inductionHypothesis =>
      exact (respects_print line).bind fun _ => inductionHypothesis

theorem respects_ofExcept (computed : Except SessionError α) :
    Respects World.Recut (ofExcept computed) := by
  cases computed with
  | ok result => exact respects_pure result
  | error error => exact respects_throw error

/-- The length line is the same, and what it leaves of the input. -/
theorem respects_readLength (config : SessionConfig) :
    Respects World.Recut (readLength config) :=
  (respects_printAll greeting).bind fun _ =>
    (respects_onInput (Input.reads_readLine _).respects).bind fun _ =>
      respects_failIf _ (respects_pure _)

/-- The program is the same, and what it leaves of the input. -/
theorem respects_readProgram (length : UInt32) :
    Respects World.Recut (readProgram length) := by
  refine (respects_print programPrompt).bind fun _ =>
    (respects_onInput (Input.reads_readExactly _).respects).tryCatch fun error => ?_
  split
  · exact respects_throw _
  · exact respects_throw _

theorem respects_receive (config : SessionConfig) :
    Respects World.Recut (receive config) :=
  (respects_ensureRoot config.machine).bind fun _ => (respects_readLength config).bind fun length =>
    respects_failIf _ <| (respects_readProgram length).bind fun _ =>
      (respects_ofExcept _).bind fun _ => respects_pure _

end Parts

/-- A session as a whole. -/
theorem respects_serve (config : SessionConfig) :
    Respects World.Recut (serve config) := by
  intro left right same
  have received := respects_receive config left right same
  cases ranLeft : receive config left with
  | ok result leftAfter =>
      cases ranRight : receive config right with
      | ok _ rightAfter =>
          rw [ranLeft, ranRight] at received
          cases received with
          | ok after =>
              rcases result with ⟨length, machine⟩
              rcases machine.run_recut after with ⟨summary, last, world⟩
              rw [serve_eq ranLeft, serve_eq ranRight, summary, last]
              exact .ok world
      | error failure rightAfter =>
          rw [ranLeft, ranRight] at received
          cases received
  | error failure leftAfter =>
      cases ranRight : receive config right with
      | ok _ rightAfter =>
          rw [ranLeft, ranRight] at received
          cases received
      | error _ rightAfter =>
          rw [ranLeft, ranRight] at received
          cases received with
          | error after =>
              rw [serve, bind_of_error ranLeft, bind_of_error ranRight]
              exact .error after

end Session

/-- Nobody sees in which pieces the input comes: runs report and leave the same on inputs that hold
the same bytes, also if one of them is cut anew before every instruction, and sessions do so as a
whole and in each of the two parts that read. -/
theorem Input.recut_unseen {left right : Input} (same : left.Recut right) (output : Output)
    (files : FileSystem) :
    (∀ machine : Machine, Machine.RanAlike (machine.run ⟨left, output, files⟩)
        (machine.run ⟨right, output, files⟩)) ∧
      (∀ (machine : Machine) (reader : Input.Recutting),
        Machine.RanAlike (machine.run ⟨left, output, files⟩)
          (machine.runRecutting reader ⟨right, output, files⟩)) ∧
      (∀ config : SessionConfig, ResultsAlike World.Recut
        (Session.serve config ⟨left, output, files⟩)
        (Session.serve config ⟨right, output, files⟩)) ∧
      (∀ config : SessionConfig, ResultsAlike World.Recut
        (Session.readLength config ⟨left, output, files⟩)
        (Session.readLength config ⟨right, output, files⟩)) ∧
      ∀ length : UInt32, ResultsAlike World.Recut
        (Session.readProgram length ⟨left, output, files⟩)
        (Session.readProgram length ⟨right, output, files⟩) := by
  have worlds : World.Recut ⟨left, output, files⟩ ⟨right, output, files⟩ := ⟨same, rfl, rfl⟩
  refine ⟨fun machine => ?_, fun machine reader => ?_, fun config => ?_, fun config => ?_,
    fun length => ?_⟩
  · exact machine.run_recut worlds
  · exact machine.runRecutting_recut reader worlds
  · exact Session.respects_serve config _ _ worlds
  · exact Session.respects_readLength config _ _ worlds
  · exact Session.respects_readProgram length _ _ worlds

/-- A newline at the limit of its line, just past a piece of one input and inside that of the
other. -/
theorem Input.recut_unseen_newline :
    let left : Input := ⟨[[65], [10, 66]], .closed⟩
    let right : Input := ⟨[[65, 10, 66]], .closed⟩
    left.Recut right ∧
      Input.readLine 2 left = .ok [65, 10] ⟨[[66]], .closed⟩ ∧
      Input.readLine 2 right = .ok [65, 10] ⟨[[66]], .closed⟩ ∧
      ResultsAlike World.Recut
        (Session.serve { machine := { sandboxDir := "d" } }
          ⟨left, Output.unbounded, FileSystem.fresh⟩)
        (Session.serve { machine := { sandboxDir := "d" } }
          ⟨right, Output.unbounded, FileSystem.fresh⟩) := by
  intro left right
  have same : left.Recut right := ⟨rfl, rfl⟩
  exact ⟨same, rfl, rfl,
    (Input.recut_unseen same Output.unbounded FileSystem.fresh).2.2.1 _⟩

end TagMachine
