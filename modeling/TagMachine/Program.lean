import TagMachine.Bytes
import TagMachine.Fault

/-!
Programs that a store takes: raw bytes without a header, shorter than the store.
-/

namespace TagMachine

inductive LoadError
  | tooLarge (length capacity : Nat)
  | store (fault : Fault)
  deriving DecidableEq, Repr

def LoadError.message : LoadError → String
  | tooLarge length capacity =>
      s!"program of {length} bytes does not fit a store of {capacity} bytes"
  | store fault => fault.message

structure Program where
  bytes : Bytes
  deriving DecidableEq, Repr

namespace Program

def length (program : Program) : Nat :=
  program.bytes.length

/-- Accepts bytes that are fewer than the store holds. -/
def accept (capacity : Nat) (bytes : Bytes) : Except LoadError Program :=
  if bytes.length < capacity then .ok ⟨bytes⟩
  else .error (.tooLarge bytes.length capacity)

end Program

end TagMachine
