import TagMachine.Bytes
import TagMachine.Numeral
import TagMachine.Opcode

/-!
Instructions with their operands: their bytes and their text. A running machine does not use
these; it reads operands from its own memory.
-/

namespace TagMachine

inductive Operand
  | none
  | immediate (word : UInt64)
  | target (offset : UInt16)
  | literal (bytes : Bytes)
  deriving DecidableEq, Repr

structure Instruction where
  opcode : Opcode
  operand : Operand
  deriving DecidableEq, Repr

namespace Operand

def kind : Operand → OperandKind
  | none => .none
  | immediate _ => .immediate
  | target _ => .target
  | literal _ => .literal

/-- The bytes of an operand. A literal is led by its length, modulo 256. -/
def encode : Operand → Bytes
  | none => []
  | immediate word => Bytes.ofLittleEndian 8 word.toNat
  | target offset => Bytes.ofLittleEndian 2 offset.toNat
  | literal bytes => UInt8.ofNat bytes.length :: bytes

/-- A byte between double quotes: printable ASCII stands for itself, apart from the quotes and the
backslash; tab, carriage return and newline have letters; the rest is written in hexadecimal. -/
def escapeByte (byte : UInt8) : List Char :=
  if byte = 9 then ['\\', 't']
  else if byte = 13 then ['\\', 'r']
  else if byte = 10 then ['\\', 'n']
  else if byte = 34 ∨ byte = 39 ∨ byte = 92 then ['\\', Char.ofNat byte.toNat]
  else if 32 ≤ byte ∧ byte ≤ 126 then [Char.ofNat byte.toNat]
  else '\\' :: 'x' :: Numeral.padded 2 (Numeral.text 16 byte.toNat)

def text : Operand → List Char
  | none => []
  | immediate word => ' ' :: Numeral.hex word.toNat
  | target offset => ' ' :: Numeral.hexPadded 4 offset.toNat
  | literal bytes => ' ' :: '"' :: bytes.flatMap escapeByte ++ ['"']

end Operand

namespace Instruction

/-- The operand is of the kind that the opcode takes, and a literal's length fits its byte. -/
structure WellFormed (instruction : Instruction) : Prop where
  kind_eq : instruction.operand.kind = instruction.opcode.operandKind
  literal_short : ∀ bytes, instruction.operand = .literal bytes → bytes.length ≤ 255

def encode (instruction : Instruction) : Bytes :=
  instruction.opcode.byte :: instruction.operand.encode

def encodedLength (instruction : Instruction) : Nat :=
  instruction.encode.length

def text (instruction : Instruction) : List Char :=
  instruction.opcode.mnemonic.toList ++ instruction.operand.text

end Instruction

end TagMachine
