import TagMachine.Proofs.Memory.Loading
import TagMachine.Proofs.Ownership

/-!
# Machines in lockstep

A machine with a hardened `swap` is compared with the machine of plain values.  The state of the
first *represents* a state of the second when its block shows cells that stand for the values, its
heap is owned by those cells, and both have the same flags and the same world.  Steps of both are
in *lockstep* when they lead to such states again, or fail with the same fault in the same world.

Whatever a step does, the block goes on to show some cells of a stack that fits, the program it was
loaded with, and its length: it stays *confined*.
-/

namespace TagMachine

/-- Faults that no program should be able to bring about: an address outside the block, and the
name of a string that is not alive. -/
def Fault.isInternal : Fault → Bool
  | .memoryFault _ => true
  | .danglingString _ => true
  | _ => false

/-- A program in the memory that a machine starts with when it has just been loaded with it. -/
structure Setting where
  config : Config
  program : Program
  start : Memory
  hardened : config.swapCheck = .hardened
  bounded : start.layout.Bounded
  layout : start.layout = ⟨config.stackCapacity, config.programCapacity⟩
  short : program.length < config.programCapacity
  programLength : start.programLength.toNat = program.length
  store : start.storeBytes =
    program.bytes ++ List.replicate (8 * ((config.programCapacity + 7) / 8) - program.length) 0

namespace Setting

/-- The setting of a machine that is made for hardened limits and loaded with a program. -/
def ofBoots {config : Config} {program : Program} {machine : Machine}
    (hardened : config.swapCheck = .hardened) (boots : machine.Boots config program) :
    Setting where
  config := config
  program := program
  start := machine.memory
  hardened := hardened
  bounded := by
    rcases (Machine.boots_iff config program machine).mp boots with ⟨valid, short, rfl⟩
    exact (Machine.shows_loaded valid short).bounded
  layout := by
    rcases (Machine.boots_iff config program machine).mp boots with ⟨_, _, rfl⟩
    exact Machine.layout_loaded
  short := ((Machine.boots_iff config program machine).mp boots).2.1
  programLength := by
    rcases (Machine.boots_iff config program machine).mp boots with ⟨valid, short, rfl⟩
    exact Machine.programLength_loaded valid short
  store := by
    rcases (Machine.boots_iff config program machine).mp boots with ⟨_, short, rfl⟩
    exact Machine.storeBytes_loaded short

variable (setting : Setting)

/-- Inside the program the instruction pointer can move on. -/
theorem toNat_add_one {ip : UInt64} (inside : ip.toNat ≤ setting.program.length) :
    (ip + 1).toNat = ip.toNat + 1 := by
  have short := setting.short
  have programLe := setting.bounded.program_le
  rw [setting.layout] at programLe
  simp only [Config.maxProgramCapacity] at programLe
  rw [UInt64.toNat_add, UInt64.toNat_one]
  omega

/-- The block shows some cells that fit into the stack, and the program it was loaded with. -/
def Confines (state : State) : Prop :=
  ∃ view, state.memory.Shows setting.start view

/-- The state stands for a state of the machine of values, and no more than so many ids have been
given out to strings. -/
structure Represents (issued : Nat) (state : State) (values : ValueMachine.State) : Prop where
  world : state.toWorld = values.toWorld
  backed : ∃ cells,
    state.memory.Shows setting.start ⟨values.ip, cells, values.isHalted, values.cmp⟩ ∧
      state.heap.Backs cells values.stack
  maxLive : state.heap.maxLive = setting.config.maxLiveStrings
  issued : state.heap.nextId.toNat ≤ issued

/-- What a step of the machine and a step of the machine of values come to, after so many ids have
been given out. A step takes at most one more, and the machine may have run out of them. -/
inductive Lockstep (issued : Nat) :
    EStateM.Result Fault State Unit → EStateM.Result Fault ValueMachine.State Unit → Prop
  | ok {state : State} {values : ValueMachine.State} :
      setting.Represents (issued + 1) state values →
      Lockstep issued (.ok () state) (.ok () values)
  | fault {fault : Fault} {state : State} {values : ValueMachine.State} :
      fault.isInternal = false → setting.Confines state → state.toWorld = values.toWorld →
      Lockstep issued (.error fault state) (.error fault values)
  | outOfIds {state : State} {result : EStateM.Result Fault ValueMachine.State Unit} :
      setting.Confines state → tagBit.toNat ≤ issued →
      Lockstep issued (.error .allocationFailure state) result

namespace Represents

variable {setting : Setting} {issued : Nat} {state : State} {values : ValueMachine.State}

theorem confines (now : setting.Represents issued state values) :
    setting.Confines state := by
  rcases now.backed with ⟨cells, shown, _⟩
  exact ⟨_, shown⟩

theorem weaken (now : setting.Represents issued state values) :
    setting.Represents (issued + 1) state values :=
  ⟨now.world, now.backed, now.maxLive, Nat.le_succ_of_le now.issued⟩

theorem ip_eq (now : setting.Represents issued state values) :
    state.memory.ip = values.ip := by
  rcases now.backed with ⟨cells, shown, _⟩
  exact shown.ip

theorem cmp_eq (now : setting.Represents issued state values) :
    state.memory.cmp = values.cmp := by
  rcases now.backed with ⟨cells, shown, _⟩
  exact shown.cmp_eq

theorem programLength_eq (now : setting.Represents issued state values) :
    state.memory.programLength.toNat = setting.program.length := by
  rcases now.backed with ⟨cells, shown, _⟩
  rw [shown.programLength_eq, setting.programLength]

theorem stack_le (now : setting.Represents issued state values) :
    values.stack.length ≤ setting.config.stackCapacity := by
  rcases now.backed with ⟨cells, shown, backs⟩
  have fits := shown.fits
  rw [setting.layout, backs.length_eq] at fits
  exact fits

theorem stop?_eq (now : setting.Represents issued state values) :
    state.stop? = ValueMachine.stop? setting.program values := by
  rcases now.backed with ⟨cells, shown, _⟩
  rw [State.stop?, ValueMachine.stop?, shown.halt_eq, now.programLength_eq, now.ip_eq]

/-! ## Lockstep of steps that are done -/

theorem ok (now : setting.Represents issued state values) :
    setting.Lockstep issued (.ok () state) (.ok () values) :=
  .ok now.weaken

theorem error (now : setting.Represents issued state values) {fault : Fault}
    (external : fault.isInternal = false) :
    setting.Lockstep issued (.error fault state) (.error fault values) :=
  .fault external now.confines now.world

/-! ## Changes of one part -/

theorem withInput (now : setting.Represents issued state values) (input : Input) :
    setting.Represents issued { state with input } { values with input } :=
  ⟨congrArg (fun world : World => { world with input }) now.world, now.backed, now.maxLive,
    now.issued⟩

theorem withOutput (now : setting.Represents issued state values) (output : Output) :
    setting.Represents issued { state with output } { values with output } :=
  ⟨congrArg (fun world : World => { world with output }) now.world, now.backed, now.maxLive,
    now.issued⟩

theorem withFiles (now : setting.Represents issued state values) (files : FileSystem) :
    setting.Represents issued { state with files } { values with files } :=
  ⟨congrArg (fun world : World => { world with files }) now.world, now.backed, now.maxLive,
    now.issued⟩

theorem setIp (now : setting.Represents issued state values) (ip : UInt64) :
    setting.Represents issued { state with memory := state.memory.setIp ip }
      { values with ip } := by
  rcases now.backed with ⟨cells, shown, backs⟩
  exact ⟨now.world, ⟨cells, shown.setIp ip, backs⟩, now.maxLive, now.issued⟩

theorem setCmp (now : setting.Represents issued state values) (cmp : Bool) :
    setting.Represents issued { state with memory := state.memory.setCmp cmp }
      { values with cmp } := by
  rcases now.backed with ⟨cells, shown, backs⟩
  exact ⟨now.world, ⟨cells, shown.setCmp cmp, backs⟩, now.maxLive, now.issued⟩

theorem setHalt (now : setting.Represents issued state values) :
    setting.Represents issued { state with memory := state.memory.setHalt true }
      { values with isHalted := true } := by
  rcases now.backed with ⟨cells, shown, backs⟩
  exact ⟨now.world, ⟨cells, shown.setHalt true, backs⟩, now.maxLive, now.issued⟩

end Represents

/-- A machine just loaded represents the empty stack in any world. -/
theorem represents_start {config : Config} {program : Program} {machine : Machine}
    (hardened : config.swapCheck = .hardened) (boots : machine.Boots config program)
    (world : World) :
    (ofBoots hardened boots).Represents 1 (machine.inWorld world) (ValueMachine.start world) := by
  rcases (Machine.boots_iff config program machine).mp boots with ⟨valid, short, rfl⟩
  exact ⟨rfl, ⟨[], Machine.shows_loaded valid short, Heap.Backs.empty _⟩, rfl, Nat.le_refl 1⟩

end Setting

end TagMachine
