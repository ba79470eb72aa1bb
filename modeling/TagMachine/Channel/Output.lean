import TagMachine.Bytes
import TagMachine.Fault

/-!
The output of a program: the bytes written so far, and how many more a reader at the other end
still takes.
-/

namespace TagMachine

/-- The bytes written, and the room left, if there is a bound. -/
structure Output where
  written : Array UInt8
  room : Option Nat
  deriving DecidableEq, Repr

namespace Output

def unbounded : Output :=
  ⟨#[], none⟩

def bounded (room : Nat) : Output :=
  ⟨#[], some room⟩

/-- Writes bytes. When they do not all fit, those that do are kept, and the output is broken. -/
def write (bytes : Bytes) : EStateM IoError Output Unit := fun
  | ⟨written, none⟩ => .ok () ⟨written ++ bytes, none⟩
  | ⟨written, some room⟩ =>
      if bytes.length ≤ room then
        .ok () ⟨written ++ bytes, some (room - bytes.length)⟩
      else
        .error .outputGone ⟨written ++ bytes.take room, some 0⟩

def printLine (bytes : Bytes) : EStateM IoError Output Unit := do
  write bytes
  write [Bytes.newline]

end Output

end TagMachine
