import TagMachine.Code.Draft
import TagMachine.Code.OperandText
import TagMachine.Text.Blank

/-!
Program text. A line holds a label, an instruction, both, or neither, and a comment after `#`;
labels end in a colon.
-/

namespace TagMachine

/-- Why program text does not become a program. Lines are counted from one. -/
inductive AssemblyError
  | line (number : Nat) (error : LineError)
  | link (error : LinkError)
  deriving DecidableEq, Repr

def AssemblyError.message : AssemblyError → String
  | line number error => s!"line {number}: " ++ error.message
  | link error => error.message

namespace Source

/-- The text before a comment. A `#` between double quotes starts none, and a backslash there makes
the next character an ordinary one. -/
def withoutComment : (quoted escaped : Bool) → List Char → List Char
  | _, _, [] => []
  | quoted, true, char :: rest => char :: withoutComment quoted false rest
  | quoted, false, char :: rest =>
      if char = '\\' ∧ quoted then char :: withoutComment quoted true rest
      else if char = '"' then char :: withoutComment (!quoted) false rest
      else if char = '#' ∧ !quoted then []
      else char :: withoutComment quoted false rest

def isLabelChar (char : Char) : Bool :=
  char.isAlphanum || char == '_'

/-- Splits a label off the start of a line. What stands before a colon and is no name is left. -/
def splitLabel (line : List Char) : List Statement × List Char :=
  match Text.splitAtFirst (· == ':') line with
  | none => ([], line)
  | some (before, after) =>
      let name := Text.trim before
      if !name.isEmpty && name.all isLabelChar then
        ([.label (String.ofList name)], Text.trim after)
      else ([], line)

/-- A jump: a target that starts with a digit is an offset, any other a label. -/
def jump (opcode : Opcode) (target : List Char) : Except LineError Statement :=
  match target with
  | [] => .error (.missingTarget opcode.mnemonic)
  | first :: _ => do
      if first.isDigit then
        let word ← OperandText.readInteger target
        if word.toNat < UInt16.size then return .branchTo opcode word.toUInt16
        else throw (.targetTooLarge (String.ofList target))
      else return .branch opcode (String.ofList target)

def withOperand (opcode : Opcode) (operand : List Char) : Except LineError Statement :=
  match opcode.operandKind with
  | .none =>
      if operand.isEmpty then .ok (.opcode opcode)
      else .error (.unexpectedOperand opcode.mnemonic)
  | .immediate => (OperandText.readInteger operand).map .push
  | .target => jump opcode operand
  | .literal => (OperandText.readString operand).map .pushs

/-- The statement of an instruction: a mnemonic, and an operand after the first blank. -/
def instruction (text : List Char) : Except LineError Statement :=
  let (name, operand) :=
    match Text.splitAtFirst Text.isBlank text with
    | some (name, rest) => (name, Text.trim rest)
    | none => (text, [])
  match Opcode.ofMnemonic? (String.ofList name) with
  | some opcode => withOperand opcode operand
  | none => .error (.unknownInstruction (String.ofList name))

def lineStatements (line : List Char) : Except LineError (List Statement) :=
  let (label, rest) := splitLabel (Text.trim (withoutComment false false line))
  if rest.isEmpty then .ok label
  else (instruction rest).map fun statement => label ++ [statement]

def statementsFrom (number : Nat) : List (List Char) → Except AssemblyError (List Statement)
  | [] => .ok []
  | line :: rest => do
      let first ← (lineStatements line).mapError (.line number)
      let others ← statementsFrom (number + 1) rest
      return first ++ others

/-- The program that a text denotes. The first line that is wrong is reported before anything that
is wrong with the program as a whole. -/
def assemble (text : List Char) : Except AssemblyError Bytes := do
  let statements ← statementsFrom 1 (Text.lines text)
  (Draft.build statements).mapError .link

end Source

end TagMachine
