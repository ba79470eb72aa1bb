import TagMachine.Text.Blank

/-!
Numbers in settings files: integers of 64 bits, and decimals, of which those are refused that are
nearer to infinity than to any floating-point number of 64 bits.
-/

namespace TagMachine.Toml

/-! ## Digits -/

/-- Digits of a kind, with single underscores between them. -/
def isGrouped (isDigit : Char → Bool) : List Char → Bool
  | [] => false
  | [char] => isDigit char
  | char :: '_' :: rest => isDigit char && isGrouped isDigit rest
  | char :: rest => isDigit char && isGrouped isDigit rest

/-- The value of a digit; letters of either case count from ten. -/
def digitValue (char : Char) : Nat :=
  if char.isDigit then char.toNat - 48
  else if char.isLower then char.toNat - 87
  else char.toNat - 55

def isDigitOf (base : Nat) (char : Char) : Bool :=
  char.isAlphanum && digitValue char < base

def appendDigits (base : Nat) : (number : Nat) → List Char → Nat :=
  List.foldl fun number char => number * base + digitValue char

def ungrouped? (base : Nat) (text : List Char) : Option (List Char) :=
  if isGrouped (isDigitOf base) text then some (text.filter (· != '_')) else none

def grouped? (base : Nat) (text : List Char) : Option Nat :=
  (ungrouped? base text).map (appendDigits base 0)

/-- Splits a sign off; true means minus. -/
def splitSign : List Char → Bool × List Char
  | '-' :: rest => (true, rest)
  | '+' :: rest => (false, rest)
  | text => (false, text)

/-! ## Integers -/

/-- A number in base ten that does not start with a superfluous zero. -/
def magnitude? (text : List Char) : Option Nat :=
  match text with
  | '0' :: _ :: _ => none
  | _ => grouped? 10 text

def signedInteger? (text : List Char) : Option Int :=
  let (negative, digits) := splitSign text
  (magnitude? digits).map fun magnitude => if negative then -(magnitude : Int) else magnitude

def integer? (text : List Char) : Option Int := do
  let number ←
    match text with
    | '0' :: 'x' :: digits => (grouped? 16 digits).map Int.ofNat
    | '0' :: 'o' :: digits => (grouped? 8 digits).map Int.ofNat
    | '0' :: 'b' :: digits => (grouped? 2 digits).map Int.ofNat
    | _ => signedInteger? text
  if Int64.minValue.toInt ≤ number ∧ number ≤ Int64.maxValue.toInt then some number else none

/-! ## Decimals -/

/-- A number without a sign, written with a point or an exponent: what its digits make up without
the point, times a power of ten. -/
structure Decimal where
  digits : Nat
  exponent : Int

namespace Decimal

def isExponentMark (char : Char) : Bool :=
  char == 'e' || char == 'E'

/-- The number that the digits of an exponent denote. From 65536 on further digits change nothing:
it would take as many digits before the exponent to make up for them. -/
def exponentSize (digits : List Char) : Nat :=
  digits.foldl
    (fun size char => if size < UInt16.size then size * 10 + digitValue char else size) 0

def exponent? (text : List Char) : Option Int :=
  let (negative, digits) := splitSign text
  (ungrouped? 10 digits).map fun digits =>
    if negative then -(exponentSize digits : Int) else exponentSize digits

/-- What stands before the exponent, and the exponent; it is zero if none is written. -/
def splitExponent? (text : List Char) : Option (List Char × Int) :=
  match Text.splitAtFirst isExponentMark text with
  | some (before, exponent) => (exponent? exponent).map (before, ·)
  | none => some (text, 0)

def continue? (whole : Nat) : List Char → Option Decimal
  | '.' :: rest => do
      let (fraction, exponent) ← splitExponent? rest
      let digits ← ungrouped? 10 fraction
      return ⟨appendDigits 10 whole digits, exponent - digits.length⟩
  | mark :: exponent =>
      if isExponentMark mark then (exponent? exponent).map (⟨whole, ·⟩) else none
  | [] => none

/-- Reads a whole number with a fraction, an exponent or both. -/
def ofText? (text : List Char) : Option Decimal := do
  let whole := text.takeWhile fun char => char.isDigit || char == '_'
  continue? (← magnitude? whole) (text.drop whole.length)

/-- The middle between the largest floating-point number of 64 bits and the power of two that comes
after it. -/
def overflowBound : Nat :=
  (Nat.pow 2 54 - 1) * Nat.pow 2 970

/-- The nearest floating-point number of 64 bits is infinity. The middle goes to infinity too, as
the power of two is the even neighbour. -/
def overflows : Decimal → Bool
  | ⟨digits, .ofNat exponent⟩ => overflowBound ≤ digits * Nat.pow 10 exponent
  | ⟨digits, .negSucc exponent⟩ => overflowBound * Nat.pow 10 (exponent + 1) ≤ digits

end Decimal

/-- A number with a fraction or an exponent, an infinity, or what is no number. A positive number
that overflows is refused, and a negative one is not. -/
def isDecimal (text : List Char) : Bool :=
  let (negative, magnitude) := splitSign text
  if magnitude = "inf".toList ∨ magnitude = "nan".toList then true
  else
    match Decimal.ofText? magnitude with
    | some decimal => negative || !decimal.overflows
    | none => false

end TagMachine.Toml
