import Mathlib.Algebra.Group.Int.Defs
import Mathlib.Algebra.Group.Nat.Defs
import TagMachine.Proofs.Runner

/-!
# The machine of plain values

A machine whose stack is a list of values: integers of 63 bits, and texts that stand in the list
themselves.  It has no memory block, no tagged words and no names of strings.  Its instructions
are those of the instruction table, each a rule on the list: which values it takes off the top,
what it puts in their place, and how it fails.

`second op top` is the order of binary operations, with `top` the value pushed last.  A comparison
stores the negation of its relation.
-/

namespace TagMachine

/-- A number of 63 bits. -/
structure Integer where
  number : Nat
  small : number < 2 ^ 63
  deriving DecidableEq, Repr

/-- A string without a zero byte. -/
structure Text where
  bytes : Bytes
  zeroFree : (0 : UInt8) ∉ bytes
  deriving DecidableEq, Repr

namespace Integer

def wrap (number : Nat) : Integer :=
  ⟨number % 2 ^ 63, Nat.mod_lt _ (by decide)⟩

/-- The integer that a 64-bit result stands for, unless its top bit is set. -/
def ofResult? (result : Int) : Option Integer :=
  if small : (result % 2 ^ 64).toNat < 2 ^ 63 then some ⟨(result % 2 ^ 64).toNat, small⟩
  else none

end Integer

namespace Text

def cut (bytes : Bytes) : Text :=
  ⟨bytes.untilZero, bytes.zero_not_mem_untilZero⟩

def append (first second : Text) : Text :=
  ⟨first.bytes ++ second.bytes, by simp [first.zeroFree, second.zeroFree]⟩

end Text

namespace ValueMachine

inductive Item
  | int (integer : Integer)
  | text (text : Text)
  deriving DecidableEq, Repr

def Item.isText : Item → Bool
  | int _ => false
  | text _ => true

/-- Everything that an instruction can read or change. The stack has the top first. -/
structure State extends World where
  ip : UInt64
  cmp : Bool
  isHalted : Bool
  stack : List Item

abbrev Action := EStateM Fault State

variable {α : Type}

/-! ## The stack -/

/-- What is wrong with a stack that does not have `count` values of a kind on top. -/
def missing (expected : CellKind) (count : Nat) (stack : List Item) : Fault :=
  if stack.length < count then
    .stackUnderflow (UInt64.ofNat count) (UInt64.ofNat stack.length)
  else .typeMismatch expected

def popInt : Action Integer := fun state =>
  match state.stack with
  | .int top :: rest => .ok top { state with stack := rest }
  | stack => .error (missing .integer 1 stack) state

/-- Takes two integers off the top, the top one named first. -/
def popInts : Action (Integer × Integer) := fun state =>
  match state.stack with
  | .int top :: .int second :: rest => .ok (top, second) { state with stack := rest }
  | stack => .error (missing .integer 2 stack) state

def popText : Action Text := fun state =>
  match state.stack with
  | .text top :: rest => .ok top { state with stack := rest }
  | stack => .error (missing .string 1 stack) state

/-- Takes two texts off the top, the top one named first. -/
def popTexts : Action (Text × Text) := fun state =>
  match state.stack with
  | .text top :: .text second :: rest => .ok (top, second) { state with stack := rest }
  | stack => .error (missing .string 2 stack) state

def requireFree (config : Config) : Action Unit := fun state =>
  if state.stack.length = config.stackCapacity then .error .stackFull state
  else .ok () state

def push (item : Item) : Action Unit :=
  modify fun state => { state with stack := item :: state.stack }

/-- Puts a text on top, if the stack does not hold as many as may live. -/
def pushText (config : Config) (text : Text) : Action Unit := fun state =>
  if config.maxLiveStrings ≤ state.stack.countP Item.isText then .error .allocationFailure state
  else push (.text text) state

/-- Puts the result of a computation on top, if it is an integer. -/
def pushResult (result : Int) : Action Unit := fun state =>
  match Integer.ofResult? result with
  | some integer => push (.int integer) state
  | none => .error (.typeMismatch .integer) state

/-! ## The program -/

/-- What an instruction can read of its program: the program, the zeros that fill the store up to
whole words, and eight bytes of flags. No instruction runs while the lowest flag, halt, is set. -/
def tape (config : Config) (program : Program) (cmp : Bool) : Bytes :=
  program.bytes ++
    List.replicate (8 * ((config.programCapacity + 7) / 8) - program.length) 0 ++
    Bytes.ofLittleEndian 8 (2 ^ 32 * program.length + 2 * cmp.toNat)

/-- Reads so many operand bytes and moves past them. -/
def operand (config : Config) (program : Program) (count : Nat) : Action Bytes := fun state =>
  .ok (((tape config program state.cmp).drop state.ip.toNat).take count)
    { state with ip := state.ip + UInt64.ofNat count }

/-! ## Input, output and files -/

def onInput (reading : EStateM IoError Input α) : Action α := fun state =>
  match reading state.input with
  | .ok result input => .ok result { state with input }
  | .error cause input => .error (.io cause) { state with input }

def onOutput (writing : EStateM IoError Output α) : Action α := fun state =>
  match writing state.output with
  | .ok result output => .ok result { state with output }
  | .error cause output => .error (.io cause) { state with output }

def onFiles (access : EStateM IoError FileSystem α) : Action α := fun state =>
  match access state.files with
  | .ok result files => .ok result { state with files }
  | .error cause files => .error (.io cause) { state with files }

def ofExcept : Except Fault α → Action α
  | .ok result => return result
  | .error fault => throw fault

def print (line : Bytes) : Action Unit :=
  onOutput (Output.printLine line)

/-! ## Instructions on integers -/

section Instructions

variable (config : Config) (program : Program)

/-- Pushes the 64-bit operand without its top bit. -/
def pushImmediate : Action Unit := do
  requireFree config
  let bytes ← operand config program 8
  push (.int (Integer.wrap bytes.littleEndian))

def printInt : Action Unit := do
  let top ← popInt
  print (Bytes.ofText (String.ofList (Numeral.hex top.number)))

/-- Reads eight bytes of input and pushes them without the top bit. -/
def readInt : Action Unit := do
  requireFree config
  let word ← tryCatch (onInput Input.readWord) fun
    | .io .unexpectedEnd => throw (.malformed .shortRead)
    | fault => throw fault
  push (.int (Integer.wrap word.toNat))

/-- Pops two integers and pushes `second op top`. -/
def binary (operation : Int → Int → Int) : Action Unit := do
  let (top, second) ← popInts
  pushResult (operation second.number top.number)

/-- A binary operation for which the top must not be zero. -/
def divide (operation : Int → Int → Int) : Action Unit := do
  let (top, second) ← popInts
  if top.number = 0 then throw .divideByZero
  pushResult (operation second.number top.number)

def unary (operation : Int → Int) : Action Unit := do
  let top ← popInt
  pushResult (operation top.number)

/-- Pops two integers and sets the flag if they do not stand in the relation. -/
def compare (relation : Nat → Nat → Bool) : Action Unit := do
  let (top, second) ← popInts
  modify fun state => { state with cmp := !relation second.number top.number }

def intToString : Action Unit := do
  let top ← popInt
  let text := Bytes.ofText (String.ofList (Numeral.decimal top.number))
  if Action.maxNumeralLength ≤ text.length then throw (.malformed .longNumeral)
  pushText config (Text.cut text)

/-- Goes to the 16-bit operand, or past it. -/
def jump (taken : Bool) : Action Unit := do
  let target ← operand config program 2
  if taken then
    modify fun state => { state with ip := UInt64.ofNat target.littleEndian }

/-! ## Instructions on items of both kinds -/

def copyTop : Action Unit := do
  match (← get).stack with
  | [] => throw (.stackUnderflow 1 0)
  | .int top :: _ => do
      requireFree config
      push (.int top)
  | .text top :: _ => do
      requireFree config
      pushText config top

def swap : Action Unit := fun state =>
  match state.stack with
  | top :: second :: rest => .ok () { state with stack := second :: top :: rest }
  | stack => .error (.stackUnderflow 2 (UInt64.ofNat stack.length)) state

/-! ## Instructions on texts -/

/-- Pushes the literal that follows: a length byte and so many bytes of the program. -/
def pushLiteral : Action Unit := do
  requireFree config
  let length ← operand config program 1
  if program.length < (← get).ip.toNat + length.littleEndian then
    throw (.malformed .literalPastEnd)
  let literal ← operand config program length.littleEndian
  pushText config (Text.cut literal)

def printString : Action Unit := do
  let top ← popText
  print top.bytes

/-- Reads a line of input and pushes it without its newline. A single byte is no line. -/
def pushLine : Action Unit := do
  requireFree config
  let line ← onInput (Input.readLine (config.maxLineLength - 1))
  let text := line.untilZero
  if text.length ≤ 1 then throw (.malformed .emptyLine)
  pushText config (Text.cut (Action.withoutNewline text))

/-- Pops two texts and pushes the top one followed by the other. -/
def concat : Action Unit := do
  let (top, second) ← popTexts
  pushText config (top.append second)

def stringLength : Action Unit := do
  let top ← popText
  push (.int (Integer.wrap top.bytes.length))

def stringToInt : Action Unit := do
  let top ← popText
  pushResult (Numeral.readLong top.bytes)

/-- Pops two texts and sets the flag if they differ. -/
def compareStrings : Action Unit := do
  let (top, second) ← popTexts
  modify fun state => { state with cmp := top.bytes != second.bytes }

/-- Pops two texts and sets the flag if the second does not occur in the top one. -/
def findString : Action Unit := do
  let (top, second) ← popTexts
  modify fun state => { state with cmp := !Bytes.occursIn second.bytes top.bytes }

def writeFile : Action Unit := do
  let (top, second) ← popTexts
  let name ← ofExcept (Sandbox.fileName config top.bytes)
  let _ ← onFiles (Sandbox.write config name second.bytes)
  print (Bytes.ofText "file written")

def readFile : Action Unit := do
  let top ← popText
  let name ← ofExcept (Sandbox.fileName config top.bytes)
  let content ← ofExcept ((Sandbox.read config name (← get).files).mapError .io)
  pushText config (Text.cut content)

def execute : Opcode → Action Unit
  | .nop => return ()
  | .push => pushImmediate config program
  | .pop => printInt
  | .read => readInt config
  | .add => binary (· + ·)
  | .sub => binary (· - ·)
  | .mul => binary (· * ·)
  | .div => divide (· / ·)
  | .mod => divide (· % ·)
  | .itostr => intToString config
  | .jmp => jump config program true
  | .lt => compare (· < ·)
  | .gt => compare (· > ·)
  | .eq => compare (· == ·)
  | .jnz => do jump config program (← get).cmp
  | .jz => do jump config program (!(← get).cmp)
  | .inc => unary (· + 1)
  | .dec => unary (· - 1)
  | .shl => unary (2 * ·)
  | .shr => unary (· / 2)
  | .cpy => copyTop config
  | .swap => swap
  | .pushs => pushLiteral config program
  | .pops => printString
  | .reads => pushLine config
  | .strcat => concat config
  | .strlen => stringLength
  | .strtoi => stringToInt
  | .strcmp => compareStrings
  | .instr => findString
  | .writefile => writeFile config
  | .readfile => readFile config
  | .halt => modify fun state => { state with isHalted := true }

end Instructions

/-! ## Runs -/

/-- Why no further instruction is executed, apart from the cycle limit. -/
def stop? (program : Program) (state : State) : Option HaltReason :=
  if state.isHalted then some .haltInstruction
  else if program.length ≤ state.ip.toNat then some .endOfProgram
  else none

theorem stop?_eq_none_iff {program : Program} {state : State} :
    stop? program state = none ↔ state.isHalted = false ∧ state.ip.toNat < program.length := by
  unfold stop?
  cases state.isHalted with
  | true => simp
  | false => simp

def step (config : Config) (program : Program) : Action Unit := do
  let opcode ← operand config program 1
  execute config program (Opcode.running (UInt8.ofNat opcode.littleEndian))

def runner (config : Config) (program : Program) : Runner State where
  stop? := stop? program
  step := step config program
  halted state := { state with isHalted := true }

def start (world : World) : State :=
  { world with ip := 0, cmp := false, isHalted := false, stack := [] }

def run (config : Config) (program : Program) (world : World) : Summary × State :=
  (runner config program).runFrom config.cycleLimit 0 (start world)

end ValueMachine

end TagMachine
