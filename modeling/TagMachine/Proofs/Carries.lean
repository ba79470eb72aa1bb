import TagMachine.Proofs.Respects

/-!
# Computations that carry facts along

A computation that respects a relation may do so only from states of which something is known, and
what it leads to may be worth knowing.  `Carries related before action after` says both, of the
first of two related states; the relation itself is kept also where the computation fails.
-/

namespace TagMachine

variable {ε σ α β : Type} {related : σ → σ → Prop}

/-- Outcomes that are alike, with related states; a result and the first state are as `after` has
them. -/
inductive Carried (related : σ → σ → Prop) (after : α → σ → Prop) :
    EStateM.Result ε σ α → EStateM.Result ε σ α → Prop
  | ok {result : α} {left right : σ} :
      related left right → after result left →
      Carried related after (.ok result left) (.ok result right)
  | error {failure : ε} {left right : σ} :
      related left right → Carried related after (.error failure left) (.error failure right)

/-- From related states, the first of them as `before` has it, the computation comes to the same,
and where it succeeds the result and the first state are as `after` has them. -/
def Carries (related : σ → σ → Prop) (before : σ → Prop) (action : EStateM ε σ α)
    (after : α → σ → Prop) : Prop :=
  ∀ left right, related left right → before left →
    Carried related after (action left) (action right)

/-- Nothing is known. -/
abbrev anything (_ : σ) : Prop := True

section Carries

variable {before : σ → Prop} {after between : α → σ → Prop} {action : EStateM ε σ α}

theorem Respects.carries (respects : Respects related action) (before : σ → Prop) :
    Carries related before action fun _ => anything := by
  intro left right same _
  have alike := respects left right same
  revert alike
  generalize action left = leftEnd
  generalize action right = rightEnd
  intro alike
  cases alike with
  | ok sameNext => exact .ok sameNext trivial
  | error sameLast => exact .error sameLast

theorem Carries.respects (carries : Carries related anything action after) :
    Respects related action := by
  intro left right same
  have carried := carries left right same trivial
  revert carried
  generalize action left = leftEnd
  generalize action right = rightEnd
  intro carried
  cases carried with
  | ok sameNext _ => exact .ok sameNext
  | error sameLast => exact .error sameLast

theorem Carries.mono {weaker : σ → Prop} (carries : Carries related weaker action after)
    (enough : ∀ state, before state → weaker state) :
    Carries related before action after :=
  fun left right same known => carries left right same (enough left known)

theorem Carries.weaken (carries : Carries related before action between)
    (enough : ∀ result state, between result state → after result state) :
    Carries related before action after := by
  intro left right same known
  have carried := carries left right same known
  revert carried
  generalize action left = leftEnd
  generalize action right = rightEnd
  intro carried
  cases carried with
  | ok sameNext knownNext => exact .ok sameNext (enough _ _ knownNext)
  | error sameLast => exact .error sameLast

/-- What is kept from states that are as `before` has them holds of the state that is left. -/
theorem Carries.stateOf {holds : σ → Prop} {state : σ}
    (carries : Carries (fun left right => left = right ∧ holds left) before action after)
    (now : holds state) (known : before state) :
    holds (stateOf (action state)) := by
  have carried := carries state state ⟨rfl, now⟩ known
  revert carried
  generalize action state = ended
  intro carried
  cases carried with
  | ok kept _ => exact kept.2
  | error kept => exact kept.2

/-- A fact that does not speak of the state is at hand. -/
theorem carries_of_fact {fact : Prop} (known : ∀ state, before state → fact)
    (carries : fact → Carries related before action after) :
    Carries related before action after :=
  fun left right same holds => carries (known left holds) left right same holds

theorem carries_learned {fact : Prop} (carries : fact → Carries related before action after) :
    Carries related (fun state => before state ∧ fact) action after :=
  carries_of_fact (fun _ known => known.2) fun learned =>
    (carries learned).mono fun _ known => known.1

theorem Carries.bind {first : EStateM ε σ α} {rest : α → EStateM ε σ β} {after : β → σ → Prop}
    (here : Carries related before first between)
    (later : ∀ result, Carries related (between result) (rest result) after) :
    Carries related before (first >>= rest) after := by
  intro left right same known
  have started := here left right same known
  cases ranLeft : first left with
  | ok result leftNext =>
      cases ranRight : first right with
      | ok _ rightNext =>
          rw [ranLeft, ranRight] at started
          cases started with
          | ok sameNext knownNext =>
              rw [bind_of_ok ranLeft, bind_of_ok ranRight]
              exact later result leftNext rightNext sameNext knownNext
      | error failure rightLast =>
          rw [ranLeft, ranRight] at started
          cases started
  | error failure leftLast =>
      cases ranRight : first right with
      | ok _ rightNext =>
          rw [ranLeft, ranRight] at started
          cases started
      | error _ rightLast =>
          rw [ranLeft, ranRight] at started
          cases started with
          | error sameLast =>
              rw [bind_of_error ranLeft, bind_of_error ranRight]
              exact .error sameLast

/-- Of what a failure has left nothing is known but that it is related. -/
theorem Carries.tryCatch {first : EStateM ε σ α} {recover : ε → EStateM ε σ α}
    (here : Carries related before first after)
    (later : ∀ failure, Carries related anything (recover failure) after) :
    Carries related before (tryCatch first recover) after := by
  intro left right same known
  have started := here left right same known
  cases ranLeft : first left <;> cases ranRight : first right <;> rw [ranLeft, ranRight] at started
  · cases started with
    | ok sameNext knownNext =>
        rw [tryCatch_of_ok ranLeft, tryCatch_of_ok ranRight]
        exact .ok sameNext knownNext
  · cases started
  · cases started
  · cases started with
    | error sameLast =>
        rw [tryCatch_of_error ranLeft, tryCatch_of_error ranRight]
        exact later _ _ _ sameLast trivial

theorem carries_pure {result : α} (holds : ∀ state, before state → after result state) :
    Carries related before (pure result : EStateM ε σ α) after :=
  fun left _ same known => .ok same (holds left known)

theorem carries_throw (failure : ε) :
    Carries related before (throw failure : EStateM ε σ α) after :=
  fun _ _ same _ => .error same

/-- What goes on with the state may see of it what related states have in common, and knows it. -/
theorem carries_get_bind {rest : σ → EStateM ε σ β} {after : β → σ → Prop}
    (common : ∀ left right, related left right → rest left = rest right)
    (later : ∀ state, Carries related (fun now => before now ∧ now = state) (rest state) after) :
    Carries related before ((get : EStateM ε σ σ) >>= rest) after := by
  intro left right same known
  rw [get_bind, get_bind, ← common left right same]
  exact later left left right same ⟨known, rfl⟩

/-- Of two states that are the same, what goes on may see everything. -/
theorem carries_get_bind_same {holds : σ → Prop} {rest : σ → EStateM ε σ β} {after : β → σ → Prop}
    (later : ∀ state,
      Carries (fun left right => left = right ∧ holds left) before (rest state) after) :
    Carries (fun left right => left = right ∧ holds left) before
      ((get : EStateM ε σ σ) >>= rest) after :=
  carries_get_bind (fun _ _ same => congrArg rest same.1) fun state =>
    (later state).mono fun _ known => known.1

/-- The state that is read is one that was known already. -/
theorem carries_get_at {state : σ} {rest : σ → EStateM ε σ β} {after : β → σ → Prop}
    (common : ∀ left right, related left right → rest left = rest right)
    (later : Carries related (fun now => now = state) (rest state) after) :
    Carries related (fun now => now = state) ((get : EStateM ε σ σ) >>= rest) after := by
  rintro left right same rfl
  rw [get_bind, get_bind, ← common left right same]
  exact later left right same rfl

theorem carries_modify {change : σ → σ}
    (alike : ∀ left right, related left right → related (change left) (change right)) :
    Carries related before (modify change : EStateM ε σ PUnit) fun _ state =>
      ∃ earlier, before earlier ∧ state = change earlier :=
  fun left right same known => .ok (alike left right same) ⟨left, known, rfl⟩

theorem carries_failIf {condition : Prop} [Decidable condition] (failure : ε)
    {rest : EStateM ε σ α} (later : ¬condition → Carries related before rest after) :
    Carries related before (if condition then do throw failure; rest else rest) after := by
  split
  · have neverOn : Carries related (fun _ => False) rest after :=
      fun _ _ _ impossible => impossible.elim
    exact (carries_throw failure).bind fun _ => neverOn
  · rename_i unmet
    exact later unmet

theorem carries_throwIf {condition : Prop} [Decidable condition] (failure : ε) :
    Carries related before (if condition then throw failure else pure () : EStateM ε σ Unit)
      fun _ state => before state ∧ ¬condition := by
  split
  · exact carries_throw failure
  · rename_i unmet
    exact carries_pure fun _ known => ⟨known, unmet⟩

end Carries

end TagMachine
