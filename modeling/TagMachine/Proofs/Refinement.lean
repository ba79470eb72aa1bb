import TagMachine.Proofs.Lockstep.Step

/-!
# A hardened machine runs as the machine of values

The flat words of a hardened machine, read through its heap, are the stack of the machine of
values, after every step of both.  The two runs report the same and leave the same world.  Fewer
than `2 ^ 63` cycles do not use up the ids that name strings.
-/

namespace TagMachine

/-! ## Reading cells -/

/-- The value that a cell stands for, if it names a string that is alive and has no zero byte, or
no string at all. -/
def Heap.item? (heap : Heap) (cell : Cell) : Option ValueMachine.Item :=
  match cell.value with
  | .int number =>
      if small : number.toNat < 2 ^ 63 then some (.int ⟨number.toNat, small⟩) else none
  | .string id =>
      match heap.find? id with
      | some bytes =>
          if zeroFree : (0 : UInt8) ∉ bytes then some (.text ⟨bytes, zeroFree⟩) else none
      | none => none

theorem Heap.Holds.item?_eq {heap : Heap} {cell : Cell} {item : ValueMachine.Item}
    (holds : heap.Holds cell item) :
    heap.item? cell = some item := by
  cases holds with
  | @int integer same =>
      have small := integer.small
      simp only [item?, value_of_int same, same, small, dif_pos]
  | @text id text value found =>
      simp only [item?, value, found, text.zeroFree, not_false_eq_true, dif_pos]

/-- The live cells are read as the values on the stack, and the registers and the world are the
same. -/
structure Matches (state : State) (values : ValueMachine.State) : Prop where
  stack : state.memory.liveCells.map state.heap.item? = values.stack.map some
  ip : state.memory.ip = values.ip
  cmp : state.memory.cmp = values.cmp
  halt : state.memory.halt = values.isHalted
  world : state.toWorld = values.toWorld

namespace Setting

variable {setting : Setting} {issued : Nat} {state : State} {values : ValueMachine.State}

theorem Represents.matches (now : setting.Represents issued state values) :
    Matches state values := by
  rcases now.backed with ⟨cells, shown, backs⟩
  refine ⟨?_, shown.ip, shown.cmp_eq, shown.halt_eq, now.world⟩
  have holds := backs.holds
  rw [shown.liveCells_eq]
  generalize values.stack = items at holds ⊢
  clear backs shown
  induction holds with
  | nil => rfl
  | cons head _ inductionHypothesis =>
      rw [List.map_cons, List.map_cons, head.item?_eq, inductionHypothesis]

/-! ## Runs -/

/-- While ids are left, steps in lockstep succeed or fail alike. -/
theorem Lockstep.alike {left : EStateM.Result Fault State Unit}
    {right : EStateM.Result Fault ValueMachine.State Unit}
    (lockstep : setting.Lockstep issued left right) (idsLeft : issued < tagBit.toNat) :
    Runner.Alike (setting.Represents (issued + 1))
      (fun last valueLast => last.toWorld = valueLast.toWorld) left right := by
  cases lockstep with
  | ok later => exact .ok later
  | fault _ _ world => exact .error world
  | outOfIds _ spent => exact absurd spent (Nat.not_le_of_lt idsLeft)

/-- A hardened machine simulates the machine of values for as many steps as ids last. -/
theorem simulation {config : Config} {program : Program} {machine : Machine}
    (hardened : config.swapCheck = .hardened) (idsLast : config.cycleLimit < 2 ^ 63)
    (boots : machine.Boots config program) :
    Runner.Simulation (State.runner config) (ValueMachine.runner config program)
      config.cycleLimit (fun count => (ofBoots hardened boots).Represents (count + 1))
      (fun state values => state.toWorld = values.toWorld) where
  agrees now := now.world
  stop? now := now.stop?_eq
  step now within goesOn := (now.step goesOn).alike (by rw [Cell.toNat_tagBit]; omega)

end Setting

/-- A hardened machine and the machine of values go through states that match, report the same, and
leave the same input, output and files. -/
theorem Machine.run_refines_values {config : Config} {program : Program} {machine : Machine}
    (hardened : config.swapCheck = .hardened) (idsLast : config.cycleLimit < 2 ^ 63)
    (boots : machine.Boots config program) (world : World) :
    (∀ count, count ≤ config.cycleLimit →
      Option.Rel Matches ((State.runner config).after count (machine.inWorld world))
        ((ValueMachine.runner config program).after count (ValueMachine.start world))) ∧
      (machine.run world).1 = (ValueMachine.run config program world).1 ∧
      (machine.run world).2.2 = (ValueMachine.run config program world).2.toWorld := by
  have simulation := Setting.simulation hardened idsLast boots
  have atStart := Setting.represents_start hardened boots world
  constructor
  · intro count within
    have related := simulation.after atStart within
    generalize (State.runner config).after count (machine.inWorld world) = reached at related ⊢
    generalize (ValueMachine.runner config program).after count _ = valueReached at related ⊢
    cases related with
    | none => exact .none
    | some now => exact .some now.matches
  · have ended := simulation.runFrom atStart (Nat.zero_add config.cycleLimit)
    rcases boots.fresh with ⟨fresh, sameConfig⟩
    rw [machine.run_eq fresh, sameConfig]
    exact ended

/-- Joining two strings and printing them: both machines print the top one first. -/
theorem Machine.run_refines_values_concat :
    let config : Config :=
      { stackCapacity := 2, programCapacity := 16, cycleLimit := 9, swapCheck := .hardened }
    let program : Program := ⟨[22, 2, 97, 98, 22, 2, 99, 100, 25, 23, 32]⟩
    let machine := Machine.loaded config program
    let world : World := ⟨Input.ofBytes [], Output.unbounded, FileSystem.fresh⟩
    machine.Boots config program ∧
      (machine.run world).1 = ⟨.haltInstruction, 5⟩ ∧
      (machine.run world).2.2.output.written = #[99, 100, 97, 98, 10] := by
  intro config program machine world
  have boots : machine.Boots config program :=
    Machine.boots_loaded rfl (by decide)
  rcases Machine.run_refines_values rfl (by decide) boots world with ⟨_, summary, left⟩
  refine ⟨boots, ?_, ?_⟩
  · rw [summary]
    decide +kernel
  · rw [left]
    decide +kernel

end TagMachine
