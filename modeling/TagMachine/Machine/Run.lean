import TagMachine.Machine.Execute
import TagMachine.Program

/-!
The machine and its run: one instruction after another until something stops it. A machine runs
once; after that it stays as the run left it.
-/

namespace TagMachine

inductive HaltReason
  | haltInstruction
  | fault (fault : Fault)
  | endOfProgram
  | cycleLimit
  | alreadyHalted
  deriving DecidableEq, Repr

/-- What a run reports. An instruction that failed counts as a cycle. -/
structure Summary where
  reason : HaltReason
  cycles : Nat
  deriving DecidableEq, Repr

/-- What is seen of an instruction when it is fetched. -/
structure Fetch where
  ip : UInt64
  byte : UInt8
  sp : UInt64
  cmp : Bool
  deriving DecidableEq, Repr

/-- The opcode that a byte runs as: bytes past the table halt. -/
def Opcode.running (byte : UInt8) : Opcode :=
  (ofByte? byte).getD .halt

namespace State

/-- Fetches the byte at the instruction pointer, moves past it, and executes it. -/
def step (config : Config) : Action Unit := do
  let ip := (← get).memory.ip
  let byte ← Memory.programByte ip
  (modify (·.setIp (ip + 1)) : Memory.Access Unit)
  (Opcode.running byte).execute config

/-- Why no further instruction is fetched, apart from the cycle limit. -/
def stop? (state : State) : Option HaltReason :=
  if state.memory.halt then some .haltInstruction
  else if state.memory.programLength.toNat ≤ state.memory.ip.toNat then some .endOfProgram
  else none

def halted (state : State) : State :=
  { state with memory := state.memory.setHalt true }

/-- Executes instructions until the machine stops or no more cycles remain; counts on from
`cycles`. -/
def runFrom (config : Config) : (remaining cycles : Nat) → State → Summary × State
  | 0, cycles, state => (⟨state.stop?.getD .cycleLimit, cycles⟩, state)
  | remaining + 1, cycles, state =>
      match state.stop? with
      | some reason => (⟨reason, cycles⟩, state)
      | none =>
          match step config state with
          | .ok _ next => runFrom config remaining (cycles + 1) next
          | .error fault last => (⟨.fault fault, cycles + 1⟩, last.halted)

def fetched? (state : State) : Option Fetch :=
  match Memory.programByte state.memory.ip state.memory with
  | .ok byte memory => some ⟨memory.ip, byte, memory.sp, memory.cmp⟩
  | .error _ _ => none

/-- The first `wanted` instructions that such a run fetches. -/
def fetchesFrom (config : Config) : (remaining wanted : Nat) → State → List Fetch
  | remaining + 1, wanted + 1, state =>
      match state.stop? with
      | some _ => []
      | none =>
          let fetched := state.fetched?.toList
          match step config state with
          | .ok _ next => fetched ++ fetchesFrom config remaining wanted next
          | .error _ _ => fetched
  | _, _, _ => []

end State

/-- A machine with its limits, its memory and strings, and its history: whether it has been run, and
how many instructions it has executed. -/
structure Machine where
  config : Config
  memory : Memory
  heap : Heap
  isDone : Bool
  cycles : Nat

namespace Machine

def new (config : Config) : Except ConfigError Machine := do
  config.validate
  let layout ← Layout.ofConfig config
  return {
    config
    memory := Memory.blank layout
    heap := Heap.empty config.maxLiveStrings
    isDone := false
    cycles := 0 }

def storeFrom (offset : UInt64) : Bytes → Memory.Access Unit
  | [] => return ()
  | byte :: rest => do
      Memory.storeProgramByte offset byte
      storeFrom (offset + 1) rest

/-- Copies a program into the store and records its length. -/
def load (program : Program) (machine : Machine) : Except LoadError Machine :=
  let capacity := machine.memory.layout.programBytes
  if capacity ≤ program.length then
    .error (.tooLarge program.length capacity)
  else
    match storeFrom 0 program.bytes machine.memory with
    | .ok _ memory =>
        .ok { machine with
          memory := memory.setProgramLength (UInt32.ofNat program.length) }
    | .error fault _ => .error (.store fault)

def inWorld (machine : Machine) (world : World) : State :=
  ⟨world, machine.memory, machine.heap⟩

/-- Runs the machine, if it has not been run before. -/
def run (machine : Machine) (world : World) : Summary × Machine × World :=
  if machine.isDone then
    (⟨.alreadyHalted, 0⟩, machine, world)
  else
    let (summary, state) :=
      State.runFrom machine.config machine.config.cycleLimit 0 (machine.inWorld world)
    (summary,
      { machine with
        memory := state.memory
        heap := state.heap
        isDone := true
        cycles := machine.cycles + summary.cycles },
      state.toWorld)

def fetches (machine : Machine) (world : World) (wanted : Nat) : List Fetch :=
  if machine.isDone then []
  else
    State.fetchesFrom machine.config machine.config.cycleLimit wanted (machine.inWorld world)

/-! ## Looking at a machine -/

def cell (machine : Machine) (index : UInt64) : Except Fault Cell :=
  match Memory.loadCell index machine.memory with
  | .ok word _ => .ok ⟨word⟩
  | .error fault _ => .error fault

/-- The number of live cells inside the stack. -/
def stackLength (machine : Machine) : Nat :=
  min machine.memory.sp.toNat machine.memory.layout.stackCells

def stackCells (machine : Machine) (limit : Nat) : List Cell :=
  (List.range (min limit machine.stackLength)).filterMap fun index =>
    (machine.cell (UInt64.ofNat index)).toOption

def top (machine : Machine) : Except Fault Cell :=
  if machine.memory.sp = 0 then .error (.stackUnderflow 1 0)
  else machine.cell (machine.memory.sp - 1)

end Machine

end TagMachine
