import TagMachine.Bytes
import TagMachine.Proofs.Respects

/-!
# Computations whose operations are checked

A sum, a product or a difference of machine numbers has a result only if it fits, a shift only by
less than the width, a division only by another number than zero, and a slice only within its bytes.
A checked computation makes such operations and is trapped by one that is out of range.  It follows
a computation if it comes to the same, so that none of its operations ever is.
-/

namespace TagMachine

/-- Why a checked computation ends early: it fails, or an operation has no result. -/
inductive Trap (ε : Type)
  | failure (failure : ε)
  | outOfRange
  deriving DecidableEq, Repr

/-- A computation that may be trapped. -/
abbrev Checked (ε σ : Type) := EStateM (Trap ε) σ

namespace Checked

variable {ε σ α β : Type}

/-! ## Operations -/

/-- A sum of 64-bit numbers. -/
def sum? (left right : Nat) : Option Nat :=
  if left + right < UInt64.size then some (left + right) else none

/-- A product of numbers below `size`. -/
def product? (size left right : Nat) : Option Nat :=
  if left * right < size then some (left * right) else none

/-- A difference of numbers that cannot be negative. -/
def difference? (left right : Nat) : Option Nat :=
  if right ≤ left then some (left - right) else none

def quotient? (left right : UInt64) : Option UInt64 :=
  if right = 0 then none else some (left / right)

def remainder? (left right : UInt64) : Option UInt64 :=
  if right = 0 then none else some (left % right)

def shiftLeft? (word amount : UInt64) : Option UInt64 :=
  if amount < 64 then some (word <<< amount) else none

def shiftRight? (word amount : UInt64) : Option UInt64 :=
  if amount < 64 then some (word >>> amount) else none

/-- The bytes before a position. -/
def before? (bytes : Bytes) (stop : Nat) : Option Bytes :=
  if stop ≤ bytes.length then some (bytes.take stop) else none

/-- The bytes up to a position and the one there. -/
def through? (bytes : Bytes) (last : Nat) : Option Bytes :=
  if last < bytes.length then some (bytes.take (last + 1)) else none

/-- The bytes from a position on. -/
def from? (bytes : Bytes) (start : Nat) : Option Bytes :=
  if start ≤ bytes.length then some (bytes.drop start) else none

/-! ## Checked computations -/

/-- A computation without checked operations. -/
def plain (action : EStateM ε σ α) : Checked ε σ α := fun state =>
  match action state with
  | .ok result after => .ok result after
  | .error failure after => .error (.failure failure) after

/-- The result of an operation. -/
def inRange : Option α → Checked ε σ α
  | some result => return result
  | none => throw .outOfRange

/-- The same result or the same failure in the same state, of which something holds. -/
inductive Tracks (holds : σ → Prop) :
    EStateM.Result (Trap ε) σ α → EStateM.Result ε σ α → Prop
  | ok {result : α} {state : σ} :
      holds state → Tracks holds (.ok result state) (.ok result state)
  | error {failure : ε} {state : σ} :
      holds state → Tracks holds (.error (.failure failure) state) (.error failure state)

/-- From a state where something holds the checked computation comes to the same as the other, and
it still holds of the state that they leave. -/
def Follows (holds : σ → Prop) (checked : Checked ε σ α) (action : EStateM ε σ α) : Prop :=
  ∀ state, holds state → Tracks holds (checked state) (action state)

section Follows

variable {holds : σ → Prop}

theorem Tracks.eq_plain {checked : Checked ε σ α} {action : EStateM ε σ α} {state : σ}
    (tracks : Tracks holds (checked state) (action state)) :
    checked state = plain action state := by
  unfold plain
  revert tracks
  cases action state <;> cases checked state <;> intro tracks <;> cases tracks <;> rfl

theorem Tracks.bind {checked : Checked ε σ α} {action : EStateM ε σ α}
    {checkedRest : α → Checked ε σ β} {rest : α → EStateM ε σ β} {state : σ}
    (here : Tracks holds (checked state) (action state))
    (later : ∀ result after, action state = .ok result after → holds after →
      Tracks holds (checkedRest result after) (rest result after)) :
    Tracks holds ((checked >>= checkedRest) state) ((action >>= rest) state) := by
  cases ranChecked : checked state <;> cases ran : action state <;>
    rw [ranChecked, ran] at here <;> cases here
  · rename_i result after kept
    rw [bind_of_ok ranChecked, bind_of_ok ran]
    exact later result after ran kept
  · rename_i failure after kept
    rw [bind_of_error ranChecked, bind_of_error ran]
    exact .error kept

theorem Follows.bind {checked : Checked ε σ α} {action : EStateM ε σ α}
    {checkedRest : α → Checked ε σ β} {rest : α → EStateM ε σ β}
    (here : Follows holds checked action)
    (later : ∀ result, Follows holds (checkedRest result) (rest result)) :
    Follows holds (checked >>= checkedRest) (action >>= rest) :=
  fun state now => (here state now).bind fun result after _ kept => later result after kept

theorem follows_plain {action : EStateM ε σ α} (keeps : Keeps holds action) :
    Follows holds (plain action) action := by
  intro state now
  have kept := keeps state state ⟨rfl, now⟩
  unfold plain
  revert kept
  cases action state with
  | ok result after =>
      intro kept
      cases kept with
      | ok same => exact .ok same.2
  | error failure after =>
      intro kept
      cases kept with
      | error same => exact .error same.2

theorem follows_pure (result : α) :
    Follows holds (pure result : Checked ε σ α) (pure result) :=
  fun _ now => .ok now

theorem follows_get_bind {checkedRest : σ → Checked ε σ β} {rest : σ → EStateM ε σ β}
    (later : ∀ state, holds state → Follows holds (checkedRest state) (rest state)) :
    Follows holds ((get : Checked ε σ σ) >>= checkedRest) ((get : EStateM ε σ σ) >>= rest) :=
  fun state now => later state now state now

/-- An operation in its range is no computation of its own. -/
theorem follows_inRange {operation : Option α} {result : α} {rest : α → Checked ε σ β}
    {action : EStateM ε σ β} (within : operation = some result)
    (later : Follows holds (rest result) action) :
    Follows holds (inRange operation >>= rest) action := by
  rw [within]
  exact later

theorem follows_failIf {condition : Prop} [Decidable condition] (failure : ε)
    {checked : Checked ε σ α} {action : EStateM ε σ α}
    (later : ¬condition → Follows holds checked action) :
    Follows holds (if condition then do throw (.failure failure); checked else checked)
      (if condition then do throw failure; action else action) := by
  by_cases fails : condition
  · rw [if_pos fails, if_pos fails]
    exact fun _ now => .error now
  · rw [if_neg fails, if_neg fails]
    exact later fails

end Follows

end Checked

end TagMachine
