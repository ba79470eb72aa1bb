import TagMachine.Bytes

/-!
Numerals: the decimal and hexadecimal text of a number, and the signed decimal number at the
start of a byte string, kept within 64 bits.
-/

namespace TagMachine.Numeral

/-! ## Writing -/

/-- The digits of a number, most significant first. Zero has the one digit 0. -/
def digits (base number : Nat) : List Nat :=
  if base < 2 ∨ number < base then [number]
  else digits base (number / base) ++ [number % base]
termination_by number
decreasing_by
  rename_i large
  exact Nat.div_lt_self (by omega) (by omega)

/-- The digits as characters; ten to fifteen are small letters. -/
def text (base number : Nat) : List Char :=
  (digits base number).map Nat.digitChar

def padded (width : Nat) (chars : List Char) : List Char :=
  List.replicate (width - chars.length) '0' ++ chars

def decimal (number : Nat) : List Char :=
  text 10 number

/-- A hexadecimal numeral of at least `width` digits, marked by `0x`. -/
def hexPadded (width number : Nat) : List Char :=
  '0' :: 'x' :: padded width (text 16 number)

def hex (number : Nat) : List Char :=
  hexPadded 1 number

/-! ## Reading -/

/-- Space, tab, line feed, vertical tab, form feed and carriage return. -/
def isBlank (byte : UInt8) : Bool :=
  byte == 32 || (9 ≤ byte && byte ≤ 13)

def isDigit (byte : UInt8) : Bool :=
  48 ≤ byte && byte ≤ 57

/-- The nearest signed 64-bit number. -/
def saturate (number : Int) : Int :=
  max Int64.minValue.toInt (min Int64.maxValue.toInt number)

/-- Takes in one more digit, staying within 64 bits after each operation. -/
def accumulate (negative : Bool) (total : Int) (digit : UInt8) : Int :=
  let scaled := saturate (total * 10)
  let value : Int := (digit - 48).toNat
  saturate (if negative then scaled - value else scaled + value)

/-- Splits an optional sign off; true means minus. -/
def splitSign : Bytes → Bool × Bytes
  | 45 :: rest => (true, rest)
  | 43 :: rest => (false, rest)
  | bytes => (false, bytes)

/-- The signed decimal number that a byte string starts with, after blanks. What follows the
digits is ignored, and no digits at all count as zero. -/
def readLong (bytes : Bytes) : Int :=
  let (negative, rest) := splitSign (bytes.dropWhile isBlank)
  (rest.takeWhile isDigit).foldl (accumulate negative) 0

end TagMachine.Numeral
