import TagMachine.Machine.Run
import TagMachine.Proofs.Components
import TagMachine.Proofs.Stages

/-!
# Instructions from their parts

Every instruction is put together from a few parts: it computes on memory and on the heap, reads a
line or a word of the input, reads or writes one file whose name has been checked, and prints a
line.  What it prints it prints last, when everything else is done.  So a property of computations
that the parts have, and that a sequence of them has again, is one of every instruction, and what
printing alone breaks of it is broken only in the end.
-/

namespace TagMachine

/-- Fetches the byte at the instruction pointer and moves past it. -/
def State.fetch : Action UInt8 := do
  let ip := (← get).memory.ip
  let byte ← Memory.programByte ip
  (modify (·.setIp (ip + 1)) : Memory.Access Unit)
  return byte

theorem State.step_eq_fetch (config : Config) :
    State.step config = State.fetch >>= fun byte => (Opcode.running byte).execute config := by
  simp only [State.step, State.fetch, bind_assoc, pure_bind]

/-! ## The same machine in different worlds -/

/-- The same machine in worlds whose inputs, outputs and files are related. -/
structure State.Alongside (inputs : Input → Input → Prop) (outputs : Output → Output → Prop)
    (trees : FileSystem → FileSystem → Prop) (left right : State) : Prop where
  input : inputs left.input right.input
  output : outputs left.output right.output
  files : trees left.files right.files
  memory : left.memory = right.memory
  heap : left.heap = right.heap

namespace State.Alongside

variable {inputs : Input → Input → Prop} {outputs : Output → Output → Prop}
  {trees : FileSystem → FileSystem → Prop} {left right : State}

theorem seesInput : Component.input.Sees (Alongside inputs outputs trees) inputs where
  seen same := same.input
  replaced same input := ⟨input, same.output, same.files, same.memory, same.heap⟩

theorem seesOutput : Component.output.Sees (Alongside inputs outputs trees) outputs where
  seen same := same.output
  replaced same output := ⟨same.input, output, same.files, same.memory, same.heap⟩

theorem seesFiles : Component.files.Sees (Alongside inputs outputs trees) trees where
  seen same := same.files
  replaced same files := ⟨same.input, same.output, files, same.memory, same.heap⟩

theorem seesMemory :
    Component.memory.Sees (Alongside inputs outputs trees) fun left right => left = right where
  seen same := same.memory
  replaced same memory := ⟨same.input, same.output, same.files, memory, same.heap⟩

theorem seesHeap : SeesHeap (Alongside inputs outputs trees) where
  seen same := same.heap
  replaced same _ := ⟨same.input, same.output, same.files, same.memory, rfl⟩

theorem halted (same : Alongside inputs outputs trees left right) :
    Alongside inputs outputs trees left.halted right.halted :=
  ⟨same.input, same.output, same.files, congrArg (Memory.setHalt · true) same.memory, same.heap⟩

theorem stop?_eq (same : Alongside inputs outputs trees left right) :
    left.stop? = right.stop? := by
  rw [stop?, stop?, same.memory]

end State.Alongside

/-! ## Rules -/

/-- A property of what an instruction does before it prints, and one of instructions as a whole,
such that the parts of instructions have the first, and what is put together from them the second.
A part may look at the memory and at one file, but at no more of the state.  Nothing follows what is
printed, so the second needs no rule for what comes after it. -/
structure PartRule (config : Config) where
  part {α : Type} : Action α → Prop
  whole : Action Unit → Prop
  ofPure {α : Type} (result : α) : part (pure result)
  ofThrow {α : Type} (fault : Fault) : part (throw fault : Action α)
  bind {α β : Type} {first : Action α} {rest : α → Action β} :
    part first → (∀ result, part (rest result)) → part (first >>= rest)
  catching {α : Type} {first : Action α} {recover : Fault → Action α} :
    part first → (∀ fault, part (recover fault)) → part (tryCatch first recover)
  memory {α : Type} (access : Memory.Access α) : part (Component.memory.on access)
  getMemory {α : Type} {rest : State → Action α} :
    (∀ left right : State, left.memory = right.memory → rest left = rest right) →
    (∀ state, part (rest state)) → part ((get : Action State) >>= rest)
  readLine (limit : Nat) : part (Component.input.on (Input.readLine limit))
  readWord : part (Component.input.on Input.readWord)
  writeFile (name : FileName) (content : Bytes) :
    name.bytes.length ≤ config.maxFileNameLength →
    part (Component.files.on (Sandbox.write config name content))
  getFile {α : Type} (name : FileName) {rest : State → Action α} :
    name.bytes.length ≤ config.maxFileNameLength →
    (∀ left right : State,
      Sandbox.read config name left.files = Sandbox.read config name right.files →
      rest left = rest right) →
    (∀ state, part (rest state)) → part ((get : Action State) >>= rest)
  allocString (string : Bytes) : part (Action.allocString string)
  takeString (id : UInt64) : part (Action.takeString id)
  lookUpString (id : UInt64) : part (Action.lookUpString id)
  print (line : Bytes) : whole (Component.output.on (Output.printLine line))
  wholeOfPart {action : Action Unit} : part action → whole action
  bindWhole {α : Type} {first : Action α} {rest : α → Action Unit} :
    part first → (∀ result, whole (rest result)) → whole (first >>= rest)

namespace PartRule

variable {config : Config} (rule : PartRule config) {α : Type}

/-! ## Parts -/

theorem part_liftM (access : Memory.Access α) :
    rule.part (liftM access : Action α) := by
  rw [Component.on_memory]
  exact rule.memory access

theorem part_readLine (limit : Nat) :
    rule.part (Action.onInput (Input.readLine limit)) := by
  rw [Component.on_input]
  exact rule.readLine limit

theorem part_inputWord :
    rule.part Action.inputWord := by
  refine rule.catching ?_ fun fault => ?_
  · rw [Component.on_input]
    exact rule.readWord
  · split
    · exact rule.ofThrow _
    · exact rule.ofThrow _

theorem part_write {name : FileName} (content : Bytes)
    (short : name.bytes.length ≤ config.maxFileNameLength) :
    rule.part (Action.onFiles (Sandbox.write config name content)) := by
  rw [Component.on_files]
  exact rule.writeFile name content short

theorem part_contentOf {name : FileName} (short : name.bytes.length ≤ config.maxFileNameLength) :
    rule.part (Action.contentOf config name) := by
  refine rule.getFile name short (fun left right same => by rw [same]) fun state => ?_
  cases (Sandbox.read config name state.files).mapError Fault.io with
  | ok content => exact rule.ofPure content
  | error fault => exact rule.ofThrow fault

theorem part_failIf {condition : Prop} [Decidable condition] (fault : Fault) {rest : Action α}
    (later : rule.part rest) :
    rule.part (if condition then do throw fault; rest else rest) := by
  split
  · exact rule.bind (rule.ofThrow fault) fun _ => later
  · exact later

theorem part_literal :
    rule.part Action.literal := by
  refine rule.getMemory (fun left right same => by rw [same]) fun _ =>
    rule.bind (rule.part_liftM _) fun _ => rule.bind (rule.part_liftM _) fun _ =>
      rule.getMemory (fun left right same => by rw [same]) fun _ => rule.part_failIf _ ?_
  exact rule.bind (rule.part_liftM _) fun _ => rule.ofPure _

theorem part_popString :
    rule.part Action.popString := by
  refine rule.bind (rule.part_liftM _) fun cell => ?_
  split
  · exact rule.takeString _
  · exact rule.ofThrow _

theorem part_pushString (string : Bytes) :
    rule.part (Action.pushString string) :=
  rule.bind (rule.allocString string) fun _ => rule.part_liftM _

/-! ## All instructions -/

theorem whole_liftM_bind {access : Memory.Access α} {rest : α → Action Unit}
    (later : ∀ result, rule.whole (rest result)) :
    rule.whole (liftM access >>= rest) :=
  rule.bindWhole (rule.part_liftM access) later

theorem whole_liftM (access : Memory.Access Unit) :
    rule.whole (liftM access) :=
  rule.wholeOfPart (rule.part_liftM access)

/-- It is the same at every stage. -/
def stages (opcode : Opcode) : StageRule config opcode where
  held _ := True
  holds _ := rule.whole
  ends := rule.whole
  stop _ := rule.wholeOfPart (rule.ofPure ())
  fail _ _ _ := rule.wholeOfPart (rule.ofThrow _)
  require _ later := rule.whole_liftM_bind fun _ => later
  requireInts _ later := rule.whole_liftM_bind fun _ => later
  requireFree _ _ later := rule.whole_liftM_bind fun _ => later
  peek _ later := rule.whole_liftM_bind later
  drop _ _ later := rule.whole_liftM_bind fun _ => later
  pop _ later := rule.whole_liftM_bind later
  popString _ _ later := rule.bindWhole rule.part_popString fun string => later string trivial
  lookUpString id _ later := rule.bindWhole (rule.lookUpString id) fun string =>
    later string trivial
  replaceTop _ _ _ := rule.whole_liftM_bind fun _ => rule.whole_liftM _
  push _ _ _ _ later := rule.whole_liftM_bind fun _ => later
  pushResult _ _ _ _ := rule.whole_liftM_bind fun _ => rule.whole_liftM _
  pushString _ _ _ later := rule.bindWhole (rule.part_pushString _) fun _ => later
  setCmp _ _ _ := rule.whole_liftM _
  setHalt _ _ := rule.whole_liftM _
  readLine limit _ later := rule.bindWhole (rule.part_readLine limit) later
  readWord later := rule.bindWhole rule.part_inputWord later
  writeFile short _ later := rule.bindWhole (rule.part_write _ short) later
  readFile short later := rule.bindWhole (rule.part_contentOf short) later
  print _ _ _ := by
    unfold Action.print
    rw [Component.on_output]
    exact rule.print _
  exchange _ := rule.whole_liftM _
  jump taken _ := rule.wholeOfPart <|
    rule.getMemory (fun left right same => by rw [same]) fun _ => rule.part_liftM _
  immediate _ later := rule.whole_liftM_bind later
  literal _ later := rule.bindWhole rule.part_literal later
  done := rule.wholeOfPart (rule.ofPure ())
  advance _ _ := rule.whole_liftM _

theorem whole_execute (opcode : Opcode) :
    rule.whole (opcode.execute config) :=
  (rule.stages opcode).execute

theorem part_fetch :
    rule.part State.fetch := by
  refine rule.getMemory ?_ fun _ => rule.bind (rule.part_liftM _) fun _ =>
    rule.bind (rule.part_liftM _) fun _ => rule.ofPure _
  intro left right same
  rw [same]

theorem whole_step :
    rule.whole (State.step config) := by
  rw [State.step_eq_fetch]
  exact rule.bindWhole rule.part_fetch fun byte => rule.whole_execute (Opcode.running byte)

end PartRule

end TagMachine
