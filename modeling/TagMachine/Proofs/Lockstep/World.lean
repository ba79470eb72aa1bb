import TagMachine.Machine.Execute
import TagMachine.Proofs.Lockstep.Setting

/-!
# The world and the program in lockstep

Both machines see one world, and do the same to it: a reader of the input, a writer of the output
or an access to the files gives both the same result.  Both read the same bytes of the program, as
long as what they read lies on the tape; an instruction that is executed starts inside the program,
and its longest operand ends on the tape.
-/

namespace TagMachine.Setting.Represents

variable {setting : Setting} {issued : Nat} {state : State} {values : ValueMachine.State}
  {α : Type}

/-! ## The world -/

theorem onInput (now : setting.Represents issued state values) (reading : EStateM IoError Input α)
    {rest : α → Action Unit} {valueRest : α → ValueMachine.Action Unit}
    (continued : ∀ result input,
      setting.Represents issued { state with input } { values with input } →
      setting.Lockstep issued (rest result { state with input })
        (valueRest result { values with input })) :
    setting.Lockstep issued ((Action.onInput reading >>= rest) state)
      ((ValueMachine.onInput reading >>= valueRest) values) := by
  have same : state.input = values.input := congrArg World.input now.world
  cases ran : reading state.input with
  | ok result input =>
      rw [bind_of_ok (by simp only [Action.onInput, ran]; rfl),
        bind_of_ok (by simp only [ValueMachine.onInput, ← same, ran]; rfl)]
      exact continued result input (now.withInput input)
  | error cause input =>
      rw [bind_of_error (by simp only [Action.onInput, ran]; rfl),
        bind_of_error (by simp only [ValueMachine.onInput, ← same, ran]; rfl)]
      exact (now.withInput input).error rfl

/-- A reader whose failures are turned into others, as both machines turn them. -/
theorem tryOnInput (now : setting.Represents issued state values)
    (reading : EStateM IoError Input α) {recover : Fault → Action α}
    {valueRecover : Fault → ValueMachine.Action α}
    (recovered : ∀ cause input, ∃ fault, fault.isInternal = false ∧
      recover (.io cause) { state with input } = .error fault { state with input } ∧
      valueRecover (.io cause) { values with input } = .error fault { values with input })
    {rest : α → Action Unit} {valueRest : α → ValueMachine.Action Unit}
    (continued : ∀ result input,
      setting.Represents issued { state with input } { values with input } →
      setting.Lockstep issued (rest result { state with input })
        (valueRest result { values with input })) :
    setting.Lockstep issued ((tryCatch (Action.onInput reading) recover >>= rest) state)
      ((tryCatch (ValueMachine.onInput reading) valueRecover >>= valueRest) values) := by
  have same : state.input = values.input := congrArg World.input now.world
  cases ran : reading state.input with
  | ok result input =>
      have read : Action.onInput reading state = .ok result { state with input } := by
        simp only [Action.onInput, ran]
      have valueRead : ValueMachine.onInput reading values = .ok result { values with input } := by
        simp only [ValueMachine.onInput, ← same, ran]
      rw [bind_of_ok (tryCatch_of_ok read), bind_of_ok (tryCatch_of_ok valueRead)]
      exact continued result input (now.withInput input)
  | error cause input =>
      rcases recovered cause input with ⟨fault, external, failed, valueFailed⟩
      have read : Action.onInput reading state = .error (.io cause) { state with input } := by
        simp only [Action.onInput, ran]
      have valueRead :
          ValueMachine.onInput reading values = .error (.io cause) { values with input } := by
        simp only [ValueMachine.onInput, ← same, ran]
      rw [bind_of_error ((tryCatch_of_error read).trans failed),
        bind_of_error ((tryCatch_of_error valueRead).trans valueFailed)]
      exact (now.withInput input).error external

theorem print (now : setting.Represents issued state values) (line : Bytes) :
    setting.Lockstep issued (Action.print line state) (ValueMachine.print line values) := by
  have same : state.output = values.output := congrArg World.output now.world
  unfold Action.print ValueMachine.print Action.onOutput ValueMachine.onOutput
  simp only [← same]
  cases Output.printLine line state.output with
  | ok _ output => exact (now.withOutput output).ok
  | error cause output => exact (now.withOutput output).error rfl

theorem onFiles (now : setting.Represents issued state values)
    (access : EStateM IoError FileSystem α) {rest : α → Action Unit}
    {valueRest : α → ValueMachine.Action Unit}
    (continued : ∀ result files,
      setting.Represents issued { state with files } { values with files } →
      setting.Lockstep issued (rest result { state with files })
        (valueRest result { values with files })) :
    setting.Lockstep issued ((Action.onFiles access >>= rest) state)
      ((ValueMachine.onFiles access >>= valueRest) values) := by
  have same : state.files = values.files := congrArg World.files now.world
  cases ran : access state.files with
  | ok result files =>
      rw [bind_of_ok (by simp only [Action.onFiles, ran]; rfl),
        bind_of_ok (by simp only [ValueMachine.onFiles, ← same, ran]; rfl)]
      exact continued result files (now.withFiles files)
  | error cause files =>
      rw [bind_of_error (by simp only [Action.onFiles, ran]; rfl),
        bind_of_error (by simp only [ValueMachine.onFiles, ← same, ran]; rfl)]
      exact (now.withFiles files).error rfl

theorem ofExcept (now : setting.Represents issued state values) {computed : Except Fault α}
    (external : ∀ fault, computed = .error fault → fault.isInternal = false)
    {rest : α → Action Unit} {valueRest : α → ValueMachine.Action Unit}
    (continued : ∀ result, setting.Lockstep issued (rest result state) (valueRest result values)) :
    setting.Lockstep issued ((Action.ofExcept computed >>= rest) state)
      ((ValueMachine.ofExcept computed >>= valueRest) values) := by
  cases computed with
  | ok result => exact continued result
  | error fault => exact now.error (external fault rfl)

theorem failIf (now : setting.Represents issued state values) {condition : Prop}
    [Decidable condition] {fault : Fault} (external : fault.isInternal = false)
    {rest : Action Unit} {valueRest : ValueMachine.Action Unit}
    (continued : ¬ condition → setting.Lockstep issued (rest state) (valueRest values)) :
    setting.Lockstep issued
      ((if condition then do throw fault; rest else rest : Action Unit) state)
      ((if condition then do throw fault; valueRest else valueRest) values) := by
  by_cases holds : condition
  · rw [if_pos holds, if_pos holds]
    exact now.error external
  · rw [if_neg holds, if_neg holds]
    exact continued holds

/-! ## The program -/

/-- Bytes on the tape are read as the operand that the machine of values reads. -/
theorem operand (now : setting.Represents issued state values)
    (running : values.isHalted = false) (count : Nat)
    (inside : values.ip.toNat + count ≤ 8 * ((setting.config.programCapacity + 7) / 8 + 1)) :
    ∃ bytes, bytes.length ≤ count ∧
      Memory.programBytes count values.ip state.memory = .ok bytes state.memory ∧
      ValueMachine.operand setting.config setting.program count values =
        .ok bytes { values with ip := values.ip + UInt64.ofNat count } := by
  rcases now.backed with ⟨cells, shown, _⟩
  have tape : state.memory.tape =
      ValueMachine.tape setting.config setting.program values.cmp := by
    rw [shown.tape_eq, setting.store, ValueMachine.tape, running, Memory.toNat_flagWord,
      setting.programLength, Bool.toNat_false, Nat.zero_add]
  refine ⟨_, List.length_take_le _ _, ?_, rfl⟩
  rw [Memory.programBytes_eq shown.bounded_layout, tape]
  rw [shown.layout, setting.layout]
  exact inside

theorem operandByte (now : setting.Represents issued state values)
    (running : values.isHalted = false)
    (inside : values.ip.toNat < 8 * ((setting.config.programCapacity + 7) / 8 + 1)) :
    ∃ byte, Memory.programByte values.ip state.memory = .ok byte state.memory ∧
      ValueMachine.operand setting.config setting.program 1 values =
        .ok [byte] { values with ip := values.ip + 1 } := by
  rcases now.operand running 1 inside with ⟨bytes, _, read, valueRead⟩
  rw [Memory.programBytes] at read
  cases first : Memory.programByte values.ip state.memory with
  | error fault last =>
      rw [bind_of_error first] at read
      cases read
  | ok byte memory =>
      rw [bind_of_ok first] at read
      injection read with single same
      exact ⟨byte, by rw [same], by rw [valueRead, ← single]; rfl⟩

theorem advance (now : setting.Represents issued state values) (count : UInt64) :
    ∃ next, (liftM (Action.advance count) : Action Unit) state = .ok () next ∧
      setting.Represents issued next { values with ip := values.ip + count } := by
  refine ⟨{ state with memory := state.memory.setIp (state.memory.ip + count) }, rfl, ?_⟩
  rw [now.ip_eq]
  exact now.setIp _

end TagMachine.Setting.Represents
