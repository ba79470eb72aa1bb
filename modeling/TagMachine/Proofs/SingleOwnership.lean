import TagMachine.Proofs.Lockstep.Step

/-!
# Every string of a hardened machine has one owner

Cells that name strings can be moved, dropped and computed like any other word.  Along a run of a
hardened machine every live string is all the same named by one live cell, and no live cell names a
string that is dead: nothing leaks, nothing is shared, and no run meets a name without a string.
-/

namespace TagMachine

namespace Cell

theorem isSome_stringId? (cell : Cell) : cell.stringId?.isSome = cell.isString := by
  unfold stringId? value
  cases cell.isString <;> rfl

end Cell

namespace State

/-- The ids of the strings that live cells name, the top cell's first. -/
def namedIds (state : State) : List UInt64 :=
  state.memory.liveCells.filterMap Cell.stringId?

/-- Live cells name different strings, all strings that are alive, and no others. -/
structure SingleOwner (state : State) : Prop where
  distinct : state.namedIds.Nodup
  alive : ∀ id, id ∈ state.namedIds ↔ (state.heap.find? id).isSome = true
  live : state.heap.live = state.memory.liveCells.countP Cell.isString

end State

theorem Setting.Represents.singleOwner {setting : Setting} {issued : Nat} {state : State}
    {values : ValueMachine.State} (now : setting.Represents issued state values) :
    state.SingleOwner := by
  rcases now.backed with ⟨cells, shown, backs⟩
  rcases backs.single_owner with ⟨distinct, alive, live⟩
  have named : state.namedIds = cells.filterMap Cell.stringId? := by
    rw [State.namedIds, shown.liveCells_eq]
  refine ⟨named ▸ distinct, fun id => named ▸ alive id, ?_⟩
  rw [live, shown.liveCells_eq, List.length_filterMap_eq_countP]
  exact List.countP_congr fun cell _ => by rw [Cell.isSome_stringId?]

/-- Every state of a run has one owner for each string, and no run ends at a name without one. -/
theorem Machine.run_single_owner {config : Config} {program : Program} {machine : Machine}
    (hardened : config.swapCheck = .hardened) (boots : machine.Boots config program)
    (world : World) :
    (∀ count state,
      (State.runner config).after count (machine.inWorld world) = some state →
        state.SingleOwner) ∧
      ∀ id, (machine.run world).1.reason ≠ .fault (.danglingString id) := by
  constructor
  · intro count state reached
    rcases Setting.represents_after hardened boots reached with ⟨values, now⟩
    exact now.singleOwner
  · rcases boots.fresh with ⟨fresh, sameConfig⟩
    rcases Setting.confines_runFrom hardened boots config.cycleLimit world with ⟨_, external⟩
    rw [machine.run_eq fresh, sameConfig]
    intro id faulted
    cases external _ faulted

/-- A string and its copy are owned by two cells. -/
theorem Machine.run_single_owner_copy :
    let config : Config :=
      { stackCapacity := 2, programCapacity := 16, cycleLimit := 9, swapCheck := .hardened }
    let machine := Machine.loaded config ⟨[22, 2, 97, 98, 20]⟩
    let world : World := ⟨Input.ofBytes [], Output.unbounded, FileSystem.fresh⟩
    machine.Boots config ⟨[22, 2, 97, 98, 20]⟩ ∧
      ∃ state, (State.runner config).after 2 (machine.inWorld world) = some state ∧
        state.SingleOwner ∧ state.namedIds = [2, 1] := by
  intro config machine world
  have boots : machine.Boots config ⟨[22, 2, 97, 98, 20]⟩ :=
    Machine.boots_loaded rfl (by decide)
  have named :
      ((State.runner config).after 2 (machine.inWorld world)).map State.namedIds = some [2, 1] := by
    decide +kernel
  rcases Option.map_eq_some_iff.mp named with ⟨state, reached, ids⟩
  exact ⟨boots, state, reached, (Machine.run_single_owner rfl boots world).1 2 state reached, ids⟩

end TagMachine
