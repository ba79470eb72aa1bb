import TagMachine.Files.Sandbox
import TagMachine.Machine.State
import TagMachine.Numeral
import TagMachine.Opcode
import TagMachine.Stack

/-!
What each instruction does. Every instruction looks at its preconditions in the order in which it
acts, and one that fails part of the way leaves its earlier changes in place.

Binary operations take `second op top`, with `top` the cell pushed last. A comparison stores the
negation of its relation in the flag `cmp`. String operations pop the top cell first.
-/

namespace TagMachine.Action

open Stack

/-! ## Moving along the program -/

def advance (count : UInt64) : Memory.Access Unit :=
  modify fun memory => memory.setIp (memory.ip + count)

/-- Goes to the target at the instruction pointer, or past it. -/
def jump (taken : Bool) : Memory.Access Unit := do
  if taken then
    let target ← Memory.programTarget (← get).ip
    modify (·.setIp target.toUInt64)
  else
    advance 2

/-! ## Integers -/

/-- Pushes the number that follows in the program, without its top bit. -/
def pushImmediate : Memory.Access Unit := do
  requireFree
  let word ← Memory.programWord (← get).ip
  Stack.push (Cell.ofInt word)
  advance 8

/-- Puts the result of an operation in the place of two integers. The result is written before it
is looked at. -/
def binary (operation : UInt64 → UInt64 → UInt64) : Memory.Access Unit := do
  requireInts 2
  let top ← peek 0
  let second ← peek 1
  drop 1
  poke 0 ⟨operation second.word top.word⟩
  requireInts 1

/-- A binary operation that cannot have zero on top. The top is gone before that is found out. -/
def divide (operation : UInt64 → UInt64 → UInt64) : Memory.Access Unit := do
  requireInts 2
  let top ← peek 0
  let second ← peek 1
  drop 1
  if top.word = 0 then throw .divideByZero
  poke 0 ⟨operation second.word top.word⟩
  requireInts 1

def unary (operation : UInt64 → UInt64) : Memory.Access Unit := do
  requireInts 1
  let cell ← peek 0
  poke 0 ⟨operation cell.word⟩
  requireInts 1

/-- Drops two integers and sets the flag if they do not stand in the relation. -/
def compare (relation : UInt64 → UInt64 → Bool) : Memory.Access Unit := do
  requireInts 2
  let top ← peek 0
  let second ← peek 1
  drop 2
  modify (·.setCmp (!relation second.word top.word))

/-- Exchanges the two top cells, of which only so many need to be live. -/
def exchange (required : UInt64) : Memory.Access Unit := do
  require required
  Stack.swap

/-! ## Strings on the stack -/

/-- Pops a cell and takes the string that it names out of the heap. -/
def popString : Action Bytes := do
  let cell ← Stack.pop
  match cell.value with
  | .string id => takeString id
  | .int _ => throw (.typeMismatch .string)

def pushString (string : Bytes) : Action Unit := do
  let id ← allocString string
  Stack.push (Cell.ofString id)

def print (line : Bytes) : Action Unit :=
  onOutput (Output.printLine line)

def printInt : Action Unit := do
  requireInts 1
  let cell ← Stack.pop
  print (Bytes.ofText (String.ofList (Numeral.hex cell.word.toNat)))

/-- Reads eight bytes of input and pushes the number they make, without its top bit. -/
def readInt : Action Unit := do
  requireFree
  let word ← tryCatch (onInput Input.readWord) fun
    | .io .unexpectedEnd => throw (.malformed .shortRead)
    | fault => throw fault
  Stack.push (Cell.ofInt word)

/-- Text of an integer has fewer characters than this. -/
def maxNumeralLength : Nat := 64

def intToString : Action Unit := do
  requireInts 1
  let cell ← Stack.pop
  let text := Bytes.ofText (String.ofList (Numeral.decimal cell.word.toNat))
  if maxNumeralLength ≤ text.length then throw (.malformed .longNumeral)
  pushString text

/-- Pushes the top cell again; a string is copied into a new one. -/
def copyTop : Action Unit := do
  require 1
  requireFree
  let cell ← peek 0
  match cell.value with
  | .string id =>
      let string ← lookUpString id
      let copy ← allocString string
      Stack.push (Cell.ofString copy)
  | .int _ => Stack.push cell

/-- Pushes the literal that follows in the program, up to its first zero byte. -/
def pushLiteral : Action Unit := do
  requireFree
  let length ← Memory.programByte (← get).memory.ip
  advance 1
  let memory := (← get).memory
  let start := memory.ip
  if memory.programLength.toNat < start.toNat + length.toNat then
    throw (.malformed .literalPastEnd)
  let literal ← Memory.programBytes length.toNat start
  pushString literal.untilZero
  advance length.toUInt64

def printString : Action Unit := do
  require 1
  let string ← popString
  print string

def withoutNewline (line : Bytes) : Bytes :=
  if line.getLast? = some Bytes.newline then line.dropLast else line

/-- Reads a line of input, up to its first zero byte, and pushes it without its newline. A single
byte is no line. -/
def pushLine (maxLineLength : Nat) : Action Unit := do
  requireFree
  let line ← onInput (Input.readLine (maxLineLength - 1))
  let text := line.untilZero
  if text.length ≤ 1 then throw (.malformed .emptyLine)
  pushString (withoutNewline text)

/-- Pops two strings and pushes the top one followed by the other. -/
def concat : Action Unit := do
  require 2
  let first ← popString
  let second ← popString
  pushString (first ++ second)

def stringLength : Action Unit := do
  require 1
  let string ← popString
  Stack.push (Cell.ofInt (UInt64.ofNat string.length))

/-- Pops a string and pushes the number it starts with, as a word that must be an integer cell. -/
def stringToInt : Action Unit := do
  require 1
  let string ← popString
  Stack.push ⟨UInt64.ofInt (Numeral.readLong string)⟩
  requireInts 1

/-- Pops two strings and sets the flag if they differ. -/
def compareStrings : Action Unit := do
  require 2
  let first ← popString
  let second ← popString
  (modify (·.setCmp (first != second)) : Memory.Access Unit)

/-- Pops two strings and sets the flag if the second does not occur in the top one. -/
def findString : Action Unit := do
  require 2
  let hay ← popString
  let needle ← popString
  (modify (·.setCmp (!Bytes.occursIn needle hay)) : Memory.Access Unit)

/-! ## Files -/

def writeFile (config : Config) : Action Unit := do
  require 2
  let rawName ← popString
  let content ← popString
  let name ← ofExcept (Sandbox.fileName config rawName)
  let _ ← onFiles (Sandbox.write config name content)
  print (Bytes.ofText "file written")

/-- Pops a file name and pushes what the file holds, up to its first zero byte. -/
def readFile (config : Config) : Action Unit := do
  require 1
  let rawName ← popString
  let name ← ofExcept (Sandbox.fileName config rawName)
  let content ← ofExcept ((Sandbox.read config name (← get).files).mapError .io)
  pushString content.untilZero

end TagMachine.Action

namespace TagMachine

open TagMachine.Action in
/-- What an opcode does, once its byte has been passed. -/
def Opcode.execute (config : Config) : Opcode → Action Unit
  | .nop => return ()
  | .push => pushImmediate
  | .pop => printInt
  | .read => readInt
  | .add => binary (· + ·)
  | .sub => binary (· - ·)
  | .mul => binary (· * ·)
  | .div => divide (· / ·)
  | .mod => divide (· % ·)
  | .itostr => intToString
  | .jmp => jump true
  | .lt => compare (· < ·)
  | .gt => compare (· > ·)
  | .eq => compare (· == ·)
  | .jnz => do jump (← get).memory.cmp
  | .jz => do jump (!(← get).memory.cmp)
  | .inc => unary (· + 1)
  | .dec => unary (· - 1)
  | .shl => unary (· <<< 1)
  | .shr => unary (· >>> 1)
  | .cpy => copyTop
  | .swap => exchange config.swapCheck.requiredCells
  | .pushs => pushLiteral
  | .pops => printString
  | .reads => pushLine config.maxLineLength
  | .strcat => concat
  | .strlen => stringLength
  | .strtoi => stringToInt
  | .strcmp => compareStrings
  | .instr => findString
  | .writefile => writeFile config
  | .readfile => readFile config
  | .halt => (modify (·.setHalt true) : Memory.Access Unit)

end TagMachine
