import TagMachine.Proofs.Sequencing

/-!
# Computations that respect a relation of states

From related states such a computation has the same result, or fails in the same way, and leaves
related states.  It cannot see what the relation leaves open.
-/

namespace TagMachine

variable {ε σ α β : Type}

/-- The same result or the same failure, and related states. -/
inductive ResultsAlike (related : σ → σ → Prop) :
    EStateM.Result ε σ α → EStateM.Result ε σ α → Prop
  | ok {result : α} {left right : σ} :
      related left right → ResultsAlike related (.ok result left) (.ok result right)
  | error {failure : ε} {left right : σ} :
      related left right → ResultsAlike related (.error failure left) (.error failure right)

/-- From related states the computation comes to the same. -/
def Respects (related : σ → σ → Prop) (action : EStateM ε σ α) : Prop :=
  ∀ left right, related left right → ResultsAlike related (action left) (action right)

/-- From the same state every computation comes to the same. -/
theorem respects_eq (action : EStateM ε σ α) :
    Respects (fun left right => left = right) action := by
  rintro state _ rfl
  cases action state with
  | ok result after => exact .ok rfl
  | error failure after => exact .error rfl

section Respects

variable {related : σ → σ → Prop}

theorem respects_pure (result : α) :
    Respects related (pure result : EStateM ε σ α) :=
  fun _ _ same => .ok same

theorem respects_throw (failure : ε) :
    Respects related (throw failure : EStateM ε σ α) :=
  fun _ _ same => .error same

theorem Respects.bind {first : EStateM ε σ α} {rest : α → EStateM ε σ β}
    (here : Respects related first) (later : ∀ result, Respects related (rest result)) :
    Respects related (first >>= rest) := by
  intro left right same
  have started := here left right same
  cases ranLeft : first left <;> cases ranRight : first right <;> rw [ranLeft, ranRight] at started
  · cases started with
    | ok sameAfter =>
        rw [bind_of_ok ranLeft, bind_of_ok ranRight]
        exact later _ _ _ sameAfter
  · cases started
  · cases started
  · cases started with
    | error sameAfter =>
        rw [bind_of_error ranLeft, bind_of_error ranRight]
        exact .error sameAfter

theorem Respects.tryCatch {first : EStateM ε σ α} {recover : ε → EStateM ε σ α}
    (here : Respects related first) (later : ∀ failure, Respects related (recover failure)) :
    Respects related (tryCatch first recover) := by
  intro left right same
  have started := here left right same
  cases ranLeft : first left <;> cases ranRight : first right <;> rw [ranLeft, ranRight] at started
  · cases started with
    | ok sameAfter =>
        rw [tryCatch_of_ok ranLeft, tryCatch_of_ok ranRight]
        exact .ok sameAfter
  · cases started
  · cases started
  · cases started with
    | error sameAfter =>
        rw [tryCatch_of_error ranLeft, tryCatch_of_error ranRight]
        exact later _ _ _ sameAfter

/-- What goes on with the state may see of it what related states have in common. -/
theorem respects_get_bind {rest : σ → EStateM ε σ β}
    (common : ∀ left right, related left right → rest left = rest right)
    (later : ∀ state, Respects related (rest state)) :
    Respects related ((get : EStateM ε σ σ) >>= rest) := by
  intro left right same
  rw [get_bind, get_bind, common left right same]
  exact later right left right same

theorem respects_failIf {condition : Prop} [Decidable condition] (failure : ε)
    {rest : EStateM ε σ α} (later : Respects related rest) :
    Respects related (if condition then do throw failure; rest else rest) := by
  split
  · exact (respects_throw failure).bind fun _ => later
  · exact later

theorem respects_throwIf {condition : Prop} [Decidable condition] (failure : ε) :
    Respects related (if condition then throw failure else pure () : EStateM ε σ Unit) := by
  split
  · exact respects_throw failure
  · exact respects_pure ()

end Respects

/-! ## What a computation keeps -/

/-- The state that a computation leaves, however it ends. -/
def stateOf : EStateM.Result ε σ α → σ
  | .ok _ state => state
  | .error _ state => state

/-- How a computation ends, without the state that it leaves. -/
def outcomeOf : EStateM.Result ε σ α → Except ε α
  | .ok result _ => .ok result
  | .error failure _ => .error failure

/-- What holds of a state holds of the one that the computation leaves, however it ends. -/
abbrev Keeps (holds : σ → Prop) (action : EStateM ε σ α) : Prop :=
  Respects (fun left right => left = right ∧ holds left) action

section Keeps

variable {holds : σ → Prop}

theorem Keeps.stateOf {action : EStateM ε σ α} (keeps : Keeps holds action) {state : σ}
    (now : holds state) :
    holds (stateOf (action state)) := by
  have kept := keeps state state ⟨rfl, now⟩
  revert kept
  generalize action state = ended
  intro kept
  cases kept with
  | ok kept => exact kept.2
  | error kept => exact kept.2

theorem keeps_get_bind {rest : σ → EStateM ε σ β} (later : ∀ state, Keeps holds (rest state)) :
    Keeps holds ((get : EStateM ε σ σ) >>= rest) :=
  respects_get_bind (fun _ _ same => congrArg rest same.1) later

theorem keeps_modify {change : σ → σ} (kept : ∀ state, holds state → holds (change state)) :
    Keeps holds (modify change : EStateM ε σ PUnit) := by
  rintro state _ ⟨rfl, now⟩
  exact .ok ⟨rfl, kept state now⟩

end Keeps

end TagMachine
