import TagMachine.Files.Sandbox
import TagMachine.Machine.Run
import TagMachine.Session.Settings

/-!
The conversation with a client: a banner, a line with the length of a program, that many bytes, and
then the run of the program, with the rest of the same input as its own.
-/

namespace TagMachine

/-- Why a session ends before a program runs. -/
inductive SessionError
  | missingLength
  | invalidLength (length : UInt32)
  | shortProgram (expected : UInt32)
  | io (cause : IoError)
  | config (error : ConfigError)
  | load (error : LoadError)
  deriving DecidableEq, Repr

def SessionError.message : SessionError → String
  | missingLength => "fgets"
  | invalidLength _ => "invalid prog_length"
  | shortProgram _ => "Failed to read input"
  | io cause => cause.message
  | config error => error.message
  | load error => error.message

abbrev Exchange := EStateM SessionError World

namespace Session

variable {α : Type}

def banner : String :=
  "\n".intercalate
    ["Go program your",
      "                  __",
      "                 /  \\",
      "           .-.  |    |",
      "   *    _.-'  \\  \\__/",
      "    \\.-'       \\",
      "   /          _/",
      "  |      _  /\"",
      "  |     /_\\'",
      "   \\    \\_/",
      "    \"\"\"\""]

def greeting : List String :=
  [banner,
    "Give me your bytecode!",
    "I will load the cannon and execute it.",
    "Length:"]

def programPrompt : String :=
  "Bytecode:"

def onInput (reading : EStateM IoError Input α) : Exchange α := fun
  | ⟨input, output, files⟩ =>
      match reading input with
      | .ok result input => .ok result ⟨input, output, files⟩
      | .error cause input => .error (.io cause) ⟨input, output, files⟩

def print (line : String) : Exchange Unit := fun
  | ⟨input, output, files⟩ =>
      match Output.printLine (Bytes.ofText line) output with
      | .ok result output => .ok result ⟨input, output, files⟩
      | .error cause output => .error (.io cause) ⟨input, output, files⟩

def ensureRoot (config : Config) : Exchange Unit := fun
  | ⟨input, output, files⟩ =>
      match Sandbox.ensureRoot config files with
      | .ok result files => .ok result ⟨input, output, files⟩
      | .error cause files => .error (.io cause) ⟨input, output, files⟩

def printAll : List String → Exchange Unit
  | [] => return ()
  | line :: rest => do
      print line
      printAll rest

/-- The length that a line gives: the number it starts with, modulo `2 ^ 32`. -/
def lengthOfLine (line : Bytes) : UInt32 :=
  UInt32.ofInt (Numeral.readLong line)

def readLength (config : SessionConfig) : Exchange UInt32 := do
  printAll greeting
  let line ← onInput (Input.readLine (config.lengthLineMax - 1))
  if line.isEmpty then throw .missingLength
  return lengthOfLine line

def readProgram (length : UInt32) : Exchange Bytes := do
  print programPrompt
  tryCatch (onInput (Input.readExactly length.toNat)) fun
    | .io .unexpectedEnd => throw (.shortProgram length)
    | error => throw error

def prepare (config : Config) (bytes : Bytes) : Except SessionError Machine := do
  let program ← (Program.accept config.programCapacity bytes).mapError .load
  let machine ← (Machine.new config).mapError .config
  (machine.load program).mapError .load

def ofExcept : Except SessionError α → Exchange α
  | .ok result => return result
  | .error error => throw error

/-- The conversation up to the run: the length, and a machine ready to run. -/
def receive (config : SessionConfig) : Exchange (UInt32 × Machine) := do
  ensureRoot config.machine
  let length ← readLength config
  if config.machine.programCapacity ≤ length.toNat then throw (.invalidLength length)
  let bytes ← readProgram length
  let machine ← ofExcept (prepare config.machine bytes)
  return (length, machine)

/-- What a whole session leaves behind. -/
structure Outcome where
  length : UInt32
  summary : Summary
  machine : Machine

def serve (config : SessionConfig) : Exchange Outcome := do
  let (length, machine) ← receive config
  let (summary, machine, world) := machine.run (← get)
  set world
  return ⟨length, summary, machine⟩

end Session

end TagMachine
