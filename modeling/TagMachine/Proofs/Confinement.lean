import TagMachine.Proofs.Lockstep.Step

/-!
# A hardened machine stays inside its stack

The stack operations do not look at the bounds of the stack themselves, and operands are read
without looking at the end of the program.  A hardened machine keeps its stack pointer within the
stack all the same, never writes to the program or to its length, and never meets an address
outside its block.
-/

namespace TagMachine

/-- The memory has its stack pointer within the stack of the machine, and holds the program that the
machine was loaded with. -/
structure Machine.Confines (machine : Machine) (memory : Memory) : Prop where
  layout : memory.layout = machine.memory.layout
  sp_le : memory.sp.toNat ≤ machine.config.stackCapacity
  program : ∀ position, machine.memory.layout.programBase ≤ position →
    position < machine.memory.layout.flagsWord →
      memory.wordAt position = machine.memory.wordAt position
  programLength : memory.programLength = machine.memory.programLength

theorem Setting.Confines.memory {config : Config} {program : Program} {machine : Machine}
    {hardened : config.swapCheck = .hardened} {boots : machine.Boots config program} {state : State}
    (confined : (Setting.ofBoots hardened boots).Confines state) :
    machine.Confines state.memory := by
  rcases confined with ⟨view, shown⟩
  refine ⟨shown.layout, ?_, shown.program, shown.programLength_eq⟩
  have fits := shown.fits
  rw [← shown.toNat_sp, Setting.layout] at fits
  rw [boots.fresh.2]
  exact fits

/-- Every state of a run, the state that a fault leaves, and the memory at the end are confined; and
no fault of a run is one of memory. -/
theorem Machine.run_confined {config : Config} {program : Program} {machine : Machine}
    (hardened : config.swapCheck = .hardened) (boots : machine.Boots config program)
    (world : World) :
    (∀ count state,
      (State.runner config).after count (machine.inWorld world) = some state →
        machine.Confines state.memory ∧
          ∀ fault last, state.stop? = none → State.step config state = .error fault last →
            machine.Confines last.memory) ∧
      machine.Confines (machine.run world).2.1.memory ∧
      ∀ address, (machine.run world).1.reason ≠ .fault (.memoryFault address) := by
  constructor
  · intro count state reached
    rcases Setting.represents_after hardened boots reached with ⟨values, now⟩
    refine ⟨now.confines.memory, ?_⟩
    intro fault last goesOn failed
    exact (Setting.confines_of_failed hardened boots reached goesOn failed).1.memory
  · rcases boots.fresh with ⟨fresh, sameConfig⟩
    rcases Setting.confines_runFrom hardened boots config.cycleLimit world with ⟨confined, external⟩
    rw [machine.run_eq fresh, sameConfig]
    refine ⟨confined.memory, ?_⟩
    intro address faulted
    cases external _ faulted

/-- A push at the very end of a full store takes its operand from the flags, and no further. -/
theorem Machine.run_confined_cut_operand :
    let config : Config :=
      { stackCapacity := 1, programCapacity := 8, cycleLimit := 9, swapCheck := .hardened }
    let machine := Machine.loaded config ⟨[0, 0, 0, 0, 0, 0, 1]⟩
    let world : World := ⟨Input.ofBytes [], Output.unbounded, FileSystem.fresh⟩
    machine.Boots config ⟨[0, 0, 0, 0, 0, 0, 1]⟩ ∧
      machine.Confines (machine.run world).2.1.memory ∧
      (machine.run world).1 = ⟨.endOfProgram, 7⟩ := by
  intro config machine world
  have boots : machine.Boots config ⟨[0, 0, 0, 0, 0, 0, 1]⟩ :=
    Machine.boots_loaded rfl (by decide)
  refine ⟨boots, (Machine.run_confined rfl boots world).2.1, ?_⟩
  decide +kernel

end TagMachine
