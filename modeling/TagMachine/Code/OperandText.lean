import TagMachine.Bytes
import TagMachine.Numeral

/-!
The written form of operands in program text: integers, decimal or hexadecimal, and byte strings
between double quotes.
-/

namespace TagMachine

inductive LineError
  | unknownInstruction (name : String)
  | unexpectedOperand (name : String)
  | missingTarget (name : String)
  | targetTooLarge (text : String)
  | invalidInteger (text : String)
  | notQuoted (text : String)
  | invalidEscape (text : String)
  deriving DecidableEq, Repr

def LineError.message : LineError → String
  | unknownInstruction name => "unknown instruction `" ++ name ++ "`"
  | unexpectedOperand name => "`" ++ name ++ "` takes no operand"
  | missingTarget name => "`" ++ name ++ "` needs a target"
  | targetTooLarge text => "jump target `" ++ text ++ "` exceeds 16 bits"
  | invalidInteger text => "invalid integer `" ++ text ++ "`"
  | notQuoted text => "expected a quoted string, found `" ++ text ++ "`"
  | invalidEscape text => "invalid escape `\\" ++ text ++ "`"

namespace OperandText

/-! ## Integers -/

/-- The value of a digit, letters of either case counting from ten. -/
def digitValue? (base : Nat) (char : Char) : Option Nat :=
  let code := char.toNat
  let value? :=
    if 48 ≤ code ∧ code ≤ 57 then some (code - 48)
    else if 97 ≤ code ∧ code ≤ 122 then some (code - 87)
    else if 65 ≤ code ∧ code ≤ 90 then some (code - 55)
    else none
  value?.filter (· < base)

def digitsValue? (base : Nat) : (value : Nat) → List Char → Option Nat
  | value, [] => some value
  | value, char :: rest => do
      let digit ← digitValue? base char
      digitsValue? base (value * base + digit) rest

/-- A number below the bound: at least one digit, with or without a plus sign. -/
def unsigned? (base bound : Nat) (text : List Char) : Option Nat := do
  let digits :=
    match text with
    | '+' :: rest => rest
    | _ => text
  if digits.isEmpty then none
  let value ← digitsValue? base 0 digits
  if value < bound then some value else none

/-- A 64-bit number without a minus sign: hexadecimal after `0x` or `0X`, else decimal. -/
def magnitude? : List Char → Option Nat
  | '0' :: 'x' :: digits => unsigned? 16 UInt64.size digits
  | '0' :: 'X' :: digits => unsigned? 16 UInt64.size digits
  | digits => unsigned? 10 UInt64.size digits

/-- The word that an integer denotes; a minus sign negates modulo `2 ^ 64`. -/
def integer? (text : List Char) : Option UInt64 :=
  match text with
  | '-' :: rest => (magnitude? rest).map fun value => 0 - UInt64.ofNat value
  | _ => (magnitude? text).map UInt64.ofNat

def readInteger (text : List Char) : Except LineError UInt64 :=
  match integer? text with
  | some word => .ok word
  | none => .error (.invalidInteger (String.ofList text))

/-! ## Byte strings -/

def readHexByte (digits : List Char) : Except LineError UInt8 :=
  match unsigned? 16 256 digits with
  | some value => .ok (UInt8.ofNat value)
  | none => .error (.invalidEscape (String.ofList ('x' :: digits)))

def readEscape (char : Char) : Except LineError UInt8 :=
  match char with
  | 'n' => .ok 10
  | 't' => .ok 9
  | '0' => .ok 0
  | '\\' => .ok 92
  | '"' => .ok 34
  | _ => .error (.invalidEscape (String.ofList [char]))

/-- The bytes that the text between the quotes denotes, or what is wrong with its first bad
escape. `\x` takes the two characters after it, or what is left of them. -/
def unescape : List Char → Except LineError Bytes
  | [] => .ok []
  | '\\' :: 'x' :: first :: second :: rest => do
      let byte ← readHexByte [first, second]
      let bytes ← unescape rest
      return byte :: bytes
  | '\\' :: 'x' :: digits => do
      let byte ← readHexByte digits
      return [byte]
  | '\\' :: char :: rest => do
      let byte ← readEscape char
      let bytes ← unescape rest
      return byte :: bytes
  | ['\\'] => .error (.invalidEscape " ")
  | char :: rest => do
      let bytes ← unescape rest
      return String.utf8EncodeChar char ++ bytes

def quoted? : List Char → Option (List Char)
  | '"' :: rest => if rest.getLast? = some '"' then some rest.dropLast else none
  | _ => none

def readString (text : List Char) : Except LineError Bytes :=
  match quoted? text with
  | some inner => unescape inner
  | none => .error (.notQuoted (String.ofList text))

end OperandText

end TagMachine
