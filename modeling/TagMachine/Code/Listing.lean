import TagMachine.Code.Instruction

/-!
Program bytes read as instructions from the first byte on, and the listing that shows them.
-/

namespace TagMachine

/-- What is found at an offset of a program: an instruction, a byte past the instruction table,
which runs as `halt`, or an opcode whose operand runs past the end. -/
inductive CodeItem
  | instruction (instruction : Instruction)
  | undefined (byte : UInt8)
  | truncated (opcode : Opcode)
  deriving DecidableEq, Repr

namespace CodeItem

def exactly? (count : Nat) (bytes : Bytes) : Option Bytes :=
  let taken := bytes.take count
  if taken.length = count then some taken else none

/-- The operand of the given kind at the start of some bytes, and how many of them it takes. -/
def operand? (kind : OperandKind) (bytes : Bytes) : Option (Operand × Nat) :=
  match kind with
  | .none => some (.none, 0)
  | .immediate =>
      (exactly? 8 bytes).map fun taken => (.immediate (UInt64.ofNat taken.littleEndian), 8)
  | .target =>
      (exactly? 2 bytes).map fun taken => (.target (UInt16.ofNat taken.littleEndian), 2)
  | .literal =>
      match bytes with
      | [] => none
      | length :: rest =>
          (exactly? length.toNat rest).map fun taken => (.literal taken, length.toNat + 1)

/-- What a byte starts, and how many of the bytes after it belong to that. -/
def startedBy (byte : UInt8) (rest : Bytes) : CodeItem × Nat :=
  match Opcode.ofByte? byte with
  | none => (.undefined byte, 0)
  | some opcode =>
      match operand? opcode.operandKind rest with
      | some (operand, count) => (.instruction ⟨opcode, operand⟩, count)
      | none => (.truncated opcode, rest.length)

/-- What is at an offset, and its length; nothing past the end. -/
def decodeAt (bytes : Bytes) (offset : Nat) : Option (CodeItem × Nat) :=
  match bytes.drop offset with
  | [] => none
  | byte :: rest =>
      let (item, count) := startedBy byte rest
      some (item, count + 1)

/-- Everything found in the bytes, each with its offset, the first of them at `offset`. -/
def sweepFrom (offset : Nat) : Bytes → List (Nat × CodeItem)
  | [] => []
  | byte :: rest =>
      let (item, count) := startedBy byte rest
      (offset, item) :: sweepFrom (offset + count + 1) (rest.drop count)
termination_by bytes => bytes.length
decreasing_by
  simp only [List.length_drop, List.length_cons]
  omega

def sweep (bytes : Bytes) : List (Nat × CodeItem) :=
  sweepFrom 0 bytes

def text : CodeItem → List Char
  | instruction code => code.text
  | undefined byte => "halt (".toList ++ Numeral.hexPadded 2 byte.toNat ++ [')']
  | truncated opcode => opcode.mnemonic.toList ++ " <truncated>".toList

end CodeItem

/-- The lines that list a program: each item led by its offset in hexadecimal. -/
def listing (bytes : Bytes) : List (List Char) :=
  (CodeItem.sweep bytes).map fun (offset, item) =>
    Numeral.padded 4 (Numeral.text 16 offset) ++ ": ".toList ++ item.text

end TagMachine
