import TagMachine.Channel.Input
import TagMachine.Channel.Output
import TagMachine.Files.FileSystem
import TagMachine.Heap
import TagMachine.Memory

/-!
Everything that an instruction can read or change, and the computations on it. A computation that
fails keeps what it had changed before.
-/

namespace TagMachine

/-- What lies outside the machine. -/
structure World where
  input : Input
  output : Output
  files : FileSystem
  deriving DecidableEq, Repr

structure State extends World where
  memory : Memory
  heap : Heap

/-- A computation on the state that keeps its changes when it faults. -/
abbrev Action := EStateM Fault State

namespace Action

variable {α : Type}

/-- A computation on memory, the rest of the state unchanged. -/
def onMemory (access : Memory.Access α) : Action α := fun
  | ⟨world, memory, heap⟩ =>
      match access memory with
      | .ok result memory => .ok result ⟨world, memory, heap⟩
      | .error fault memory => .error fault ⟨world, memory, heap⟩

instance : MonadLift Memory.Access Action where
  monadLift := onMemory

def onInput (reading : EStateM IoError Input α) : Action α := fun
  | ⟨⟨input, output, files⟩, memory, heap⟩ =>
      match reading input with
      | .ok result input => .ok result ⟨⟨input, output, files⟩, memory, heap⟩
      | .error cause input => .error (.io cause) ⟨⟨input, output, files⟩, memory, heap⟩

def onOutput (writing : EStateM IoError Output α) : Action α := fun
  | ⟨⟨input, output, files⟩, memory, heap⟩ =>
      match writing output with
      | .ok result output => .ok result ⟨⟨input, output, files⟩, memory, heap⟩
      | .error cause output => .error (.io cause) ⟨⟨input, output, files⟩, memory, heap⟩

def onFiles (access : EStateM IoError FileSystem α) : Action α := fun
  | ⟨⟨input, output, files⟩, memory, heap⟩ =>
      match access files with
      | .ok result files => .ok result ⟨⟨input, output, files⟩, memory, heap⟩
      | .error cause files => .error (.io cause) ⟨⟨input, output, files⟩, memory, heap⟩

def ofExcept : Except Fault α → Action α
  | .ok result => return result
  | .error fault => throw fault

def allocString (string : Bytes) : Action UInt64 := fun state =>
  match state.heap.alloc string with
  | .ok (id, heap) => .ok id { state with heap }
  | .error fault => .error fault state

def takeString (id : UInt64) : Action Bytes := fun state =>
  match state.heap.take id with
  | .ok (string, heap) => .ok string { state with heap }
  | .error fault => .error fault state

def lookUpString (id : UInt64) : Action Bytes := fun state =>
  match state.heap.get id with
  | .ok string => .ok string state
  | .error fault => .error fault state

end Action

end TagMachine
