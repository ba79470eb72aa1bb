import TagMachine.Numeral

/-!
Everything that can stop a program, as causes, each with its message.
-/

namespace TagMachine

inductive IoError
  | notFound
  | alreadyExists
  | notADirectory
  | isADirectory
  | nameTooLong
  | zeroInPath
  | notUtf8
  | nothingToWrite
  | inputGone
  | outputGone
  | unexpectedEnd
  deriving DecidableEq, Repr

def IoError.message : IoError → String
  | notFound => "No such file or directory (os error 2)"
  | alreadyExists => "File exists (os error 17)"
  | notADirectory => "Not a directory (os error 20)"
  | isADirectory => "Is a directory (os error 21)"
  | nameTooLong => "File name too long (os error 36)"
  | zeroInPath => "file name contained an unexpected NUL byte"
  | notUtf8 => "stream did not contain valid UTF-8"
  | nothingToWrite => "nothing to write"
  | inputGone => "input gone"
  | outputGone => "output gone"
  | unexpectedEnd => "failed to fill whole buffer"

inductive CellKind
  | integer
  | string
  deriving DecidableEq, Repr

def CellKind.name : CellKind → String
  | integer => "integer"
  | string => "string handle"

/-- Input or program bytes that an instruction cannot use. -/
inductive Malformed
  | shortRead
  | longNumeral
  | literalPastEnd
  | emptyLine
  deriving DecidableEq, Repr

def Malformed.message : Malformed → String
  | shortRead => "short read on input"
  | longNumeral => "integer text too long"
  | literalPastEnd => "string literal runs past program end"
  | emptyLine => "empty line"

/-- What an instruction can fail with. -/
inductive Fault
  | stackUnderflow (required available : UInt64)
  | stackFull
  | typeMismatch (expected : CellKind)
  | divideByZero
  | malformed (cause : Malformed)
  | invalidFileName
  | io (cause : IoError)
  | allocationFailure
  | memoryFault (address : UInt64)
  | danglingString (id : UInt64)
  deriving DecidableEq, Repr

def Fault.message : Fault → String
  | stackUnderflow required available =>
      s!"stack underflow: {required} cell(s) required, {available} available"
  | stackFull => "stack full"
  | typeMismatch expected => "type mismatch: expected " ++ expected.name
  | divideByZero => "division by zero"
  | malformed cause => "malformed input: " ++ cause.message
  | invalidFileName => "invalid filename"
  | io cause => "io failure: " ++ cause.message
  | allocationFailure => "allocation failure"
  | memoryFault address =>
      "memory fault at word address " ++ String.ofList (Numeral.hex address.toNat)
  | danglingString id =>
      "dangling string handle " ++ String.ofList (Numeral.hex id.toNat)

end TagMachine
