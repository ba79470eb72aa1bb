import TagMachine.Proofs.Parts
import TagMachine.Proofs.Runner

/-!
# Worlds that a machine cannot tell apart

A machine meets the world outside it in five ways: it reads lines and words of the input, prints
lines, and writes and reads files.  Relations of inputs, outputs and file systems that these five
respect are respected by every instruction, and so by every run: it reports the same in related
worlds, leaves the same memory and strings, and leaves related worlds.
-/

namespace TagMachine

/-! What the same channel or the same files do is the same. -/

theorem Input.respects_readLine_same (limit : Nat) :
    Respects (fun left right => left = right) (Input.readLine limit) :=
  respects_eq _

theorem Output.respects_printLine_same (line : Bytes) :
    Respects (fun left right => left = right) (Output.printLine line) :=
  respects_eq _

theorem Sandbox.respects_write_same (config : Config) (name : FileName) (content : Bytes)
    (_ : name.bytes.length ≤ config.maxFileNameLength) :
    Respects (fun left right => left = right) (Sandbox.write config name content) :=
  respects_eq _

theorem Sandbox.read_same (config : Config) (name : FileName) (left right : FileSystem)
    (_ : name.bytes.length ≤ config.maxFileNameLength) (same : left = right) :
    Sandbox.read config name left = Sandbox.read config name right := by
  rw [same]

/-- Relations of what lies outside a machine, such that no instruction can tell what they relate
apart, and what an instruction leaves is related again. -/
structure WorldRelation (config : Config) where
  input : Input → Input → Prop
  output : Output → Output → Prop
  files : FileSystem → FileSystem → Prop
  readLine : ∀ limit, Respects input (Input.readLine limit)
  readWord : Respects input Input.readWord
  printLine : ∀ line, Respects output (Output.printLine line)
  writeFile : ∀ name content, name.bytes.length ≤ config.maxFileNameLength →
    Respects files (Sandbox.write config name content)
  readFile : ∀ name left right, name.bytes.length ≤ config.maxFileNameLength → files left right →
    Sandbox.read config name left = Sandbox.read config name right

namespace WorldRelation

variable {config : Config}

/-- Inputs, outputs and files of two worlds are related. -/
structure Worlds (relation : WorldRelation config) (left right : World) : Prop where
  input : relation.input left.input right.input
  output : relation.output left.output right.output
  files : relation.files left.files right.files

/-- The same machine in related worlds. -/
structure States (relation : WorldRelation config) (left right : State) : Prop where
  world : relation.Worlds left.toWorld right.toWorld
  memory : left.memory = right.memory
  heap : left.heap = right.heap

variable (relation : WorldRelation config)

/-! ## Instructions -/

theorem seesMemory : Component.memory.Sees relation.States fun left right => left = right where
  seen same := same.memory
  replaced same memory := ⟨same.world, memory, same.heap⟩

theorem seesInput : Component.input.Sees relation.States relation.input where
  seen same := same.world.input
  replaced same input :=
    ⟨⟨input, same.world.output, same.world.files⟩, same.memory, same.heap⟩

theorem seesOutput : Component.output.Sees relation.States relation.output where
  seen same := same.world.output
  replaced same output :=
    ⟨⟨same.world.input, output, same.world.files⟩, same.memory, same.heap⟩

theorem seesFiles : Component.files.Sees relation.States relation.files where
  seen same := same.world.files
  replaced same files :=
    ⟨⟨same.world.input, same.world.output, files⟩, same.memory, same.heap⟩

theorem seesHeap : SeesHeap relation.States where
  seen same := same.heap
  replaced same _ := ⟨same.world, same.memory, rfl⟩

/-- Printing is no exception. -/
def partRule : PartRule config where
  part := Respects relation.States
  whole := Respects relation.States
  ofPure := respects_pure
  ofThrow := respects_throw
  bind := Respects.bind
  catching := Respects.tryCatch
  memory access := relation.seesMemory.respects_on (respects_eq access)
  getMemory ofMemory later :=
    respects_get_bind (fun left right same => ofMemory left right same.memory) later
  readLine limit := relation.seesInput.respects_on (relation.readLine limit)
  readWord := relation.seesInput.respects_on relation.readWord
  writeFile name content short := relation.seesFiles.respects_on (relation.writeFile name content short)
  getFile name _ short ofFile later := respects_get_bind
    (fun left right same =>
      ofFile left right (relation.readFile name _ _ short same.world.files)) later
  allocString := relation.seesHeap.respects_allocString
  takeString := relation.seesHeap.respects_takeString
  lookUpString := relation.seesHeap.respects_lookUpString
  print line := relation.seesOutput.respects_on (relation.printLine line)
  wholeOfPart := id
  bindWhole := Respects.bind

/-! ## Runs -/

/-- Steps from related states are alike. -/
theorem States.alike_step {relation : WorldRelation config} {left right : State}
    (same : relation.States left right) :
    Runner.Alike relation.States
      (fun leftLast rightLast => relation.States leftLast.halted rightLast.halted)
      (State.step config left) (State.step config right) := by
  have stepped := relation.partRule.whole_step left right same
  revert stepped
  cases State.step config left <;> cases State.step config right <;> intro stepped <;>
    cases stepped
  · rename_i after
    exact .ok after
  · rename_i after
    exact .error ⟨after.world, congrArg (Memory.setHalt · true) after.memory, after.heap⟩

theorem simulation (limit : Nat) :
    Runner.Simulation (State.runner config) (State.runner config) limit
      (fun _ => relation.States) relation.States where
  agrees same := same
  stop? same := by
    change State.stop? _ = State.stop? _
    rw [State.stop?, State.stop?, same.memory]
  step same _ _ := same.alike_step

end WorldRelation

/-- A machine's run reports the same in related worlds, leaves the same machine, and leaves related
worlds. -/
theorem Machine.run_worlds {machine : Machine} (relation : WorldRelation machine.config)
    {left right : World} (related : relation.Worlds left right) :
    (machine.run left).1 = (machine.run right).1 ∧
      (machine.run left).2.1 = (machine.run right).2.1 ∧
      relation.Worlds (machine.run left).2.2 (machine.run right).2.2 := by
  cases done : machine.isDone with
  | true =>
      simp only [Machine.run, done, if_true]
      exact ⟨trivial, trivial, related⟩
  | false =>
      rcases (relation.simulation machine.config.cycleLimit).runFrom
        (⟨related, rfl, rfl⟩ : relation.States (machine.inWorld left) (machine.inWorld right))
        (Nat.zero_add _) with ⟨summary, last⟩
      rw [machine.run_eq done, machine.run_eq done]
      refine ⟨summary, ?_, last.world⟩
      simp only [Machine.ended, summary, last.memory, last.heap]

end TagMachine
