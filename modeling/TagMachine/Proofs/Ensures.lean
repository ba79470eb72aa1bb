import TagMachine.Proofs.Respects

/-!
# What a computation ensures

`Ensures before action after failed` says of a computation what holds when it ends, in whichever way:
from every state as `before` has it, a result and its state are as `after` has them, and a failure and
the state that it leaves are as `failed` has them.
-/

namespace TagMachine

variable {ε σ α β : Type}

/-- A result is as `after` has it, and a failure as `failed` has it. -/
inductive Ends (after : α → σ → Prop) (failed : ε → σ → Prop) : EStateM.Result ε σ α → Prop
  | ok {result : α} {state : σ} : after result state → Ends after failed (.ok result state)
  | error {failure : ε} {state : σ} : failed failure state → Ends after failed (.error failure state)

/-- From every state as `before` has it, the computation ends as it should. -/
def Ensures (before : σ → Prop) (action : EStateM ε σ α) (after : α → σ → Prop)
    (failed : ε → σ → Prop) : Prop :=
  ∀ state, before state → Ends after failed (action state)

section Ensures

variable {before : σ → Prop} {between after : α → σ → Prop} {failed : ε → σ → Prop}
  {action : EStateM ε σ α} {state last : σ}

theorem Ensures.of_ok {result : α} (ensures : Ensures before action after failed)
    (known : before state) (ran : action state = .ok result last) :
    after result last := by
  have ended := ensures state known
  rw [ran] at ended
  cases ended with
  | ok holds => exact holds

theorem Ensures.of_error {failure : ε} (ensures : Ensures before action after failed)
    (known : before state) (ran : action state = .error failure last) :
    failed failure last := by
  have ended := ensures state known
  rw [ran] at ended
  cases ended with
  | error holds => exact holds

theorem Ensures.mono {weaker : σ → Prop} (ensures : Ensures weaker action after failed)
    (enough : ∀ state, before state → weaker state) :
    Ensures before action after failed :=
  fun state known => ensures state (enough state known)

theorem Ensures.weaken {failedBefore : ε → σ → Prop}
    (ensures : Ensures before action between failedBefore)
    (enough : ∀ result state, between result state → after result state)
    (enoughFailed : ∀ failure state, failedBefore failure state → failed failure state) :
    Ensures before action after failed := by
  intro state known
  have ended := ensures state known
  revert ended
  generalize action state = outcome
  intro ended
  cases ended with
  | ok holds => exact .ok (enough _ _ holds)
  | error holds => exact .error (enoughFailed _ _ holds)

theorem Ensures.bind {first : EStateM ε σ α} {rest : α → EStateM ε σ β} {after : β → σ → Prop}
    (here : Ensures before first between failed)
    (later : ∀ result, Ensures (between result) (rest result) after failed) :
    Ensures before (first >>= rest) after failed := by
  intro state known
  cases ran : first state with
  | ok result next =>
      rw [bind_of_ok ran]
      exact later result next (here.of_ok known ran)
  | error failure last =>
      rw [bind_of_error ran]
      exact .error (here.of_error known ran)

theorem Ensures.tryCatch {first : EStateM ε σ α} {recover : ε → EStateM ε σ α}
    {caught : ε → σ → Prop} (here : Ensures before first after caught)
    (later : ∀ failure, Ensures (caught failure) (recover failure) after failed) :
    Ensures before (tryCatch first recover) after failed := by
  intro state known
  cases ran : first state with
  | ok result next =>
      rw [tryCatch_of_ok ran]
      exact .ok (here.of_ok known ran)
  | error failure last =>
      rw [tryCatch_of_error ran]
      exact later failure last (here.of_error known ran)

theorem ensures_pure {result : α} (holds : ∀ state, before state → after result state) :
    Ensures before (pure result : EStateM ε σ α) after failed :=
  fun state known => .ok (holds state known)

theorem ensures_throw {failure : ε} (holds : ∀ state, before state → failed failure state) :
    Ensures before (throw failure : EStateM ε σ α) after failed :=
  fun state known => .error (holds state known)

theorem ensures_modify {change : σ → σ} {after : PUnit → σ → Prop}
    (holds : ∀ state, before state → after ⟨⟩ (change state)) :
    Ensures before (modify change : EStateM ε σ PUnit) after failed :=
  fun state known => .ok (holds state known)

/-- What goes on with the state knows that it is the one read. -/
theorem ensures_get_bind {rest : σ → EStateM ε σ β} {after : β → σ → Prop}
    (later : ∀ state, Ensures (fun now => before now ∧ now = state) (rest state) after failed) :
    Ensures before ((get : EStateM ε σ σ) >>= rest) after failed :=
  fun state known => later state state ⟨known, rfl⟩

theorem ensures_failIf {condition : Prop} [Decidable condition] {failure : ε}
    {rest : EStateM ε σ α}
    (refused : condition → ∀ state, before state → failed failure state)
    (later : ¬condition → Ensures before rest after failed) :
    Ensures before (if condition then do throw failure; rest else rest) after failed := by
  split
  · rename_i met
    exact fun state known => .error (refused met state known)
  · rename_i unmet
    exact later unmet

/-- What a computation keeps holds of the state that a result leaves. -/
theorem Keeps.ensures {holds : σ → Prop} (keeps : Keeps holds action)
    (ensures : Ensures holds action after failed) :
    Ensures holds action (fun result state => after result state ∧ holds state) failed := by
  intro state known
  have kept := keeps.stateOf known
  have ended := ensures state known
  revert kept ended
  generalize action state = outcome
  intro kept ended
  cases ended with
  | ok learned => exact .ok ⟨learned, kept⟩
  | error refused => exact .error refused

end Ensures

end TagMachine
