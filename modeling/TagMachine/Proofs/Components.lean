import TagMachine.Machine.Execute
import TagMachine.Proofs.Carries

/-!
# Components of the state

An instruction works on memory, on the input, the output or the files, or on the strings, the rest of
the state unchanged.  What a relation of states says of one of these carries over from a computation
on it to the instruction.
-/

namespace TagMachine

/-! ## Computations on a component -/

/-- A component of the state, and the fault that a failure on it is to the machine. -/
structure Component (ε σ : Type) where
  get : State → σ
  put : State → σ → State
  fault : ε → Fault

namespace Component

variable {ε σ α : Type}

/-- A computation on the component, the rest of the state unchanged. -/
def on (component : Component ε σ) (access : EStateM ε σ α) : Action α := fun state =>
  match access (component.get state) with
  | .ok result after => .ok result (component.put state after)
  | .error failure after => .error (component.fault failure) (component.put state after)

def memory : Component Fault Memory :=
  ⟨(·.memory), fun state memory => { state with memory }, id⟩

def input : Component IoError Input :=
  ⟨(·.input), fun state input => { state with input }, .io⟩

def output : Component IoError Output :=
  ⟨(·.output), fun state output => { state with output }, .io⟩

def files : Component IoError FileSystem :=
  ⟨(·.files), fun state files => { state with files }, .io⟩

theorem on_memory (access : Memory.Access α) :
    (liftM access : Action α) = memory.on access := by
  funext ⟨world, words, heap⟩
  change Action.onMemory access _ = _
  simp only [Action.onMemory, on, memory]
  cases access words <;> rfl

theorem on_input (reading : EStateM IoError Input α) :
    Action.onInput reading = input.on reading := by
  funext ⟨⟨left, printed, tree⟩, words, heap⟩
  simp only [Action.onInput, on, input]
  cases reading left <;> rfl

theorem on_output (writing : EStateM IoError Output α) :
    Action.onOutput writing = output.on writing := by
  funext ⟨⟨left, printed, tree⟩, words, heap⟩
  simp only [Action.onOutput, on, output]
  cases writing printed <;> rfl

theorem on_files (access : EStateM IoError FileSystem α) :
    Action.onFiles access = files.on access := by
  funext ⟨⟨left, printed, tree⟩, words, heap⟩
  simp only [Action.onFiles, on, files]
  cases access tree <;> rfl

theorem on_of_ok {component : Component ε σ} {access : EStateM ε σ α} {state : State} {result : α}
    {after : σ} (ran : access (component.get state) = .ok result after) :
    component.on access state = .ok result (component.put state after) := by
  simp only [on, ran]

theorem on_of_error {component : Component ε σ} {access : EStateM ε σ α} {state : State} {failure : ε}
    {after : σ} (failed : access (component.get state) = .error failure after) :
    component.on access state = .error (component.fault failure) (component.put state after) := by
  simp only [on, failed]

/-- Of related states the components are related, and the states stay related when other components
that are so are put in their place. -/
structure Sees (component : Component ε σ) (related : State → State → Prop)
    (parts : σ → σ → Prop) : Prop where
  seen {left right : State} : related left right →
    parts (component.get left) (component.get right)
  replaced {left right : State} {leftPart rightPart : σ} : related left right →
    parts leftPart rightPart → related (component.put left leftPart) (component.put right rightPart)

variable {component : Component ε σ} {related : State → State → Prop} {parts : σ → σ → Prop}

theorem Sees.resultsAlike_on (sees : component.Sees related parts) {access : EStateM ε σ α}
    {left right : State} (same : related left right)
    (accessed : ResultsAlike parts (access (component.get left)) (access (component.get right))) :
    ResultsAlike related (component.on access left) (component.on access right) := by
  cases ranLeft : access (component.get left) <;> cases ranRight : access (component.get right) <;>
    rw [ranLeft, ranRight] at accessed <;> cases accessed
  · rename_i after
    rw [on_of_ok ranLeft, on_of_ok ranRight]
    exact .ok (sees.replaced same after)
  · rename_i after
    rw [on_of_error ranLeft, on_of_error ranRight]
    exact .error (sees.replaced same after)

theorem Sees.respects_on (sees : component.Sees related parts) {access : EStateM ε σ α}
    (respects : Respects parts access) :
    Respects related (component.on access) :=
  fun _ _ same => sees.resultsAlike_on same (respects _ _ (sees.seen same))

theorem Sees.carries_on (sees : component.Sees related parts) {access : EStateM ε σ α}
    {fact : σ → Prop} {learned : α → σ → Prop} {before : State → Prop} {after : α → State → Prop}
    (carries : Carries parts fact access learned)
    (known : ∀ state, before state → fact (component.get state))
    (knownAfter : ∀ state result part, before state → learned result part →
      after result (component.put state part)) :
    Carries related before (component.on access) after := by
  intro left right same now
  have accessed := carries _ _ (sees.seen same) (known left now)
  cases ranLeft : access (component.get left) <;> cases ranRight : access (component.get right) <;>
    rw [ranLeft, ranRight] at accessed <;> cases accessed
  · rename_i learnedAfter sameAfter
    rw [on_of_ok ranLeft, on_of_ok ranRight]
    exact .ok (sees.replaced same sameAfter) (knownAfter left _ _ now learnedAfter)
  · rename_i sameAfter
    rw [on_of_error ranLeft, on_of_error ranRight]
    exact .error (sees.replaced same sameAfter)

/-- What holds of the state says that `part` holds of the component, and no more of it. -/
theorem Sees.ofKept {holds : State → Prop} {part : σ → Prop}
    (seen : ∀ state, holds state → part (component.get state))
    (replaced : ∀ state after, holds state → part after → holds (component.put state after)) :
    component.Sees (fun left right => left = right ∧ holds left)
      fun left right => left = right ∧ part left where
  seen same := ⟨congrArg component.get same.1, seen _ same.2⟩
  replaced := by
    rintro state _ after _ ⟨rfl, known⟩ ⟨rfl, knownAfter⟩
    exact ⟨rfl, replaced state after known knownAfter⟩

/-- What holds of the state does not depend on the component. -/
theorem Sees.ofPut {holds : State → Prop}
    (kept : ∀ state after, holds state → holds (component.put state after)) :
    component.Sees (fun left right => left = right ∧ holds left) fun left right => left = right where
  seen same := congrArg component.get same.1
  replaced := by
    rintro state _ after _ ⟨rfl, known⟩ rfl
    exact ⟨rfl, kept state after known⟩

theorem keeps_on_of_put {holds : State → Prop}
    (kept : ∀ state after, holds state → holds (component.put state after))
    (access : EStateM ε σ α) :
    Keeps holds (component.on access) :=
  (Sees.ofPut kept).respects_on (respects_eq access)

end Component

/-! ## Computations on the strings -/

theorem respects_ofExcept {related : State → State → Prop} {α : Type} (computed : Except Fault α) :
    Respects related (Action.ofExcept computed) := by
  cases computed with
  | ok result => exact respects_pure result
  | error fault => exact respects_throw fault

/-- Looking a string up changes nothing. -/
theorem keeps_lookUpString {holds : State → Prop} (id : UInt64) :
    Keeps holds (Action.lookUpString id) := by
  rintro state _ ⟨rfl, known⟩
  unfold Action.lookUpString
  cases state.heap.get id with
  | ok string => exact .ok ⟨rfl, known⟩
  | error fault => exact .error ⟨rfl, known⟩

/-- Related states have the same strings, and stay related when other strings take their place. -/
structure SeesHeap (related : State → State → Prop) : Prop where
  seen {left right : State} : related left right → left.heap = right.heap
  replaced {left right : State} : related left right → ∀ heap,
    related { left with heap } { right with heap }

namespace SeesHeap

variable {related : State → State → Prop}

/-- What does not depend on the strings. -/
theorem ofKept {holds : State → Prop}
    (kept : ∀ (state : State) heap, holds state → holds { state with heap }) :
    SeesHeap fun left right => left = right ∧ holds left where
  seen same := congrArg State.heap same.1
  replaced := by
    rintro state _ ⟨rfl, known⟩ heap
    exact ⟨rfl, kept state heap known⟩

theorem respects_allocString (sees : SeesHeap related) (string : Bytes) :
    Respects related (Action.allocString string) := by
  intro left right same
  unfold Action.allocString
  rw [sees.seen same]
  cases right.heap.alloc string with
  | ok result => exact .ok (sees.replaced same result.2)
  | error fault => exact .error same

theorem respects_takeString (sees : SeesHeap related) (id : UInt64) :
    Respects related (Action.takeString id) := by
  intro left right same
  unfold Action.takeString
  rw [sees.seen same]
  cases right.heap.take id with
  | ok result => exact .ok (sees.replaced same result.2)
  | error fault => exact .error same

theorem respects_lookUpString (sees : SeesHeap related) (id : UInt64) :
    Respects related (Action.lookUpString id) := by
  intro left right same
  unfold Action.lookUpString
  rw [sees.seen same]
  cases right.heap.get id with
  | ok string => exact .ok same
  | error fault => exact .error same

end SeesHeap

end TagMachine
