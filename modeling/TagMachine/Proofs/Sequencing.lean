import TagMachine.Machine.State

/-!
# Running a sequence of computations

A computation that keeps its state on failure is run one part at a time: when the first part gives
a result the rest goes on from there, and when it fails the whole has failed.
-/

namespace TagMachine

section Sequencing

variable {ε σ α β : Type} {first : EStateM ε σ α} {rest : α → EStateM ε σ β}
  {before after : σ} {result : α} {failure : ε}

theorem bind_of_ok (ran : first before = .ok result after) :
    (first >>= rest) before = rest result after := by
  simp only [bind, EStateM.bind, ran]

theorem bind_of_error (failed : first before = .error failure after) :
    (first >>= rest) before = .error failure after := by
  simp only [bind, EStateM.bind, failed]

theorem exists_of_bind_ok {last : β} (ran : (first >>= rest) before = .ok last after) :
    ∃ result between, first before = .ok result between ∧
      rest result between = .ok last after := by
  cases started : first before with
  | ok result between => exact ⟨result, between, rfl, (bind_of_ok started).symm.trans ran⟩
  | error failure between =>
      rw [bind_of_error started] at ran
      cases ran

theorem get_bind {rest : σ → EStateM ε σ β} :
    ((get : EStateM ε σ σ) >>= rest) before = rest before before := rfl

variable {recover : ε → EStateM ε σ α}

theorem tryCatch_of_ok (ran : first before = .ok result after) :
    tryCatch first recover before = .ok result after := by
  change EStateM.tryCatch first recover before = _
  delta EStateM.tryCatch
  simp only [ran]

theorem tryCatch_of_error (failed : first before = .error failure after) :
    tryCatch first recover before = recover failure after := by
  change EStateM.tryCatch first recover before = _
  delta EStateM.tryCatch
  simp only [failed]
  rfl

end Sequencing

namespace Action

variable {α : Type} {access : Memory.Access α} {state : State} {after : Memory} {result : α}
  {fault : Fault}

theorem onMemory_of_ok (ran : access state.memory = .ok result after) :
    (liftM access : Action α) state = .ok result { state with memory := after } := by
  rcases state with ⟨world, memory, heap⟩
  change onMemory access _ = _
  simp only [onMemory, ran]

theorem onMemory_of_error (failed : access state.memory = .error fault after) :
    (liftM access : Action α) state = .error fault { state with memory := after } := by
  rcases state with ⟨world, memory, heap⟩
  change onMemory access _ = _
  simp only [onMemory, failed]

theorem bind_get {rest : Memory → Action α} :
    ((liftM (get : Memory.Access Memory) : Action Memory) >>= rest) state =
      rest state.memory state := rfl

/-- A sequence of computations on memory is run as a sequence of computations on the state. -/
theorem liftM_bind {β : Type} (first : Memory.Access α) (rest : α → Memory.Access β) :
    (liftM (first >>= rest) : Action β) = liftM first >>= fun result => liftM (rest result) := by
  funext state
  cases ran : first state.memory with
  | ok result after =>
      rw [bind_of_ok (onMemory_of_ok ran)]
      change onMemory (first >>= rest) state = onMemory (rest result) { state with memory := after }
      simp only [onMemory, bind_of_ok ran]
  | error fault after =>
      rw [bind_of_error (onMemory_of_error ran), onMemory_of_error (bind_of_error ran)]

end Action

end TagMachine
