/-!
The arguments of the command line: options that hold for every command, before or after its name,
and what each command takes.
-/

namespace TagMachine.Command

inductive Name
  | serve
  | run
  | asm
  | disasm
  deriving DecidableEq, Repr

/-- Options that take a value. -/
inductive Setting
  | config
  | sandboxDir
  | output
  deriving DecidableEq, Repr

/-- Options that take none. -/
inductive Flag
  | hardenedSwap
  | noTimeout
  | noDelay
  | debug
  deriving DecidableEq, Repr

/-- What is shown in place of a command. -/
inductive Notice
  | misuse
  | version
  | help
  deriving DecidableEq, Repr

/-- What was given before the name of a command, or after it. -/
structure Given where
  settings : List (Setting × String)
  flags : List Flag
  operands : List String
  deriving DecidableEq, Repr

inductive Request
  | serve
  | run (program : String)
  | assemble (source : String) (output : Option String)
  | list (program : String)
  deriving DecidableEq, Repr

def Request.fileNames : Request → List String
  | serve => []
  | run program => [program]
  | assemble source output => source :: output.toList
  | list program => [program]

def Request.runsProgram : Request → Bool
  | serve => true
  | run _ => true
  | assemble _ _ => false
  | list _ => false

/-- The options that hold for every command. -/
structure Options where
  config : Option String
  sandboxDir : Option String
  hardenedSwap : Bool
  noTimeout : Bool
  noDelay : Bool
  debug : Bool
  deriving DecidableEq, Repr

def Name.ofText? : String → Option Name
  | "serve" => some serve
  | "run" => some run
  | "asm" => some asm
  | "disasm" => some disasm
  | _ => none

def Name.operandCount : Name → Nat
  | serve => 0
  | run => 1
  | asm => 1
  | disasm => 1

/-- The option with the given long name that takes a value; an output file goes with one command
only. -/
def Setting.ofLong? (command : Option Name) : String → Option Setting
  | "config" => some config
  | "sandbox-dir" => some sandboxDir
  | "output" => if command = some .asm then some output else none
  | _ => none

def Flag.ofLong? : String → Option Flag
  | "hardened-swap" => some hardenedSwap
  | "no-timeout" => some noTimeout
  | "no-delay" => some noDelay
  | "debug" => some debug
  | _ => none

namespace Given

def nothing : Given :=
  ⟨[], [], []⟩

/-- Gives an option its value, once, and one that is not empty. -/
def set (given : Given) (setting : Setting) (value : String) : Except Notice Given :=
  if value = "" ∨ (given.settings.lookup setting).isSome then .error .misuse
  else .ok { given with settings := (setting, value) :: given.settings }

def raise (given : Given) (flag : Flag) : Except Notice Given :=
  if given.flags.contains flag then .error .misuse
  else .ok { given with flags := flag :: given.flags }

/-- Adds an operand of a command, if it takes one more. -/
def addOperand (given : Given) (command : Option Name) (operand : String) :
    Except Notice Given :=
  if operand = "" ∨ (command.elim 0 Name.operandCount) ≤ given.operands.length then
    .error .misuse
  else .ok { given with operands := given.operands ++ [operand] }

end Given

/-- A text that would be read as an option. -/
def isOption (text : String) : Bool :=
  text.startsWith "-" && text != "-"

/-- A long option, without its dashes, parted at the first equals sign. -/
def splitLong (text : String) : String × Option String :=
  let chars := text.toList
  let name := chars.takeWhile (· != '=')
  match chars.drop name.length with
  | [] => (text, none)
  | _ :: value => (String.ofList name, some (String.ofList value))

/-- What a short option asks for. -/
inductive Short
  | notice (notice : Notice)
  | output (value : Option String)

def Short.ofChars (command : Option Name) : List Char → Short
  | 'h' :: _ => notice .help
  | 'V' :: _ => notice (if command.isNone then .version else .misuse)
  | 'o' :: rest =>
      if command = some .asm then
        match rest with
        | [] => output none
        | '=' :: value => output (some (String.ofList value))
        | value => output (some (String.ofList value))
      else notice .misuse
  | _ => notice .misuse

/-- What an argument asks for, by its form. -/
inductive Form
  | operandsOnly
  | long (name : String) (value : Option String)
  | short (letters : List Char)
  | word (text : String)

def Form.ofText (text : String) : Form :=
  match text.toList with
  | ['-', '-'] => operandsOnly
  | '-' :: '-' :: rest =>
      let (name, value) := splitLong (String.ofList rest)
      long name value
  | '-' :: letter :: rest => short (letter :: rest)
  | _ => word text

/-- What asking for help on commands shows: there is help on one that exists, or on all of them. -/
def helpOn : List String → Notice
  | [] => .help
  | [command] =>
      if (Name.ofText? command).isSome ∨ command = "help" then .help else .misuse
  | _ => .misuse

/-- What was given before the name of a command, the command, and what was given after it. -/
abbrev Reading := Given × Option (Name × Given)

/-- Reads arguments. `before` holds what was given in front of the command's name, if that has been
read. -/
def readArguments (before : Option (Given × Name)) (given : Given) :
    List String → Except Notice Reading
  | [] =>
      match before with
      | none => .ok (given, none)
      | some (earlier, name) =>
          if given.operands.length = name.operandCount then .ok (earlier, some (name, given))
          else .error .misuse
  | argument :: rest => do
      let command := before.map (·.2)
      match Form.ofText argument with
      | .operandsOnly => do
          let given ← rest.foldlM (fun given operand => given.addOperand command operand) given
          match before with
          | none => return (given, none)
          | some (earlier, name) =>
              if given.operands.length = name.operandCount then
                return (earlier, some (name, given))
              else throw .misuse
      | .long name value =>
          match Setting.ofLong? command name, Flag.ofLong? name, value with
          | some setting, _, some value => do
              let given ← given.set setting value
              readArguments before given rest
          | some setting, _, none =>
              match rest with
              | [] => throw .misuse
              | value :: rest => do
                  if isOption value then throw .misuse
                  let given ← given.set setting value
                  readArguments before given rest
          | none, some flag, none => do
              let given ← given.raise flag
              readArguments before given rest
          | none, _, _ =>
              if name = "help" ∧ value = none then throw .help
              else if name = "version" ∧ value = none ∧ before.isNone then throw .version
              else throw .misuse
      | .short letters =>
          match Short.ofChars command letters with
          | .notice notice => throw notice
          | .output (some value) => do
              let given ← given.set .output value
              readArguments before given rest
          | .output none =>
              match rest with
              | [] => throw .misuse
              | value :: rest => do
                  if isOption value then throw .misuse
                  let given ← given.set .output value
                  readArguments before given rest
      | .word text =>
          match before with
          | some _ => do
              let given ← given.addOperand command text
              readArguments before given rest
          | none =>
              match Name.ofText? text with
              | some name => readArguments (some (given, name)) Given.nothing rest
              | none => throw (if text = "help" then helpOn rest else .misuse)

def Name.request (name : Name) (given : Given) : Except Notice Request :=
  match name, given.operands with
  | .serve, _ => .ok .serve
  | .run, [program] => .ok (.run program)
  | .asm, [source] => .ok (.assemble source (given.settings.lookup .output))
  | .disasm, [program] => .ok (.list program)
  | _, _ => .error .misuse

/-- The options given in front of a command and after it. A value given after it holds. -/
def Options.ofGiven (before after : Given) : Options :=
  let value (setting : Setting) : Option String :=
    (after.settings.lookup setting).or (before.settings.lookup setting)
  let raised (flag : Flag) : Bool :=
    after.flags.contains flag || before.flags.contains flag
  { config := value .config
    sandboxDir := value .sandboxDir
    hardenedSwap := raised .hardenedSwap
    noTimeout := raised .noTimeout
    noDelay := raised .noDelay
    debug := raised .debug }

/-- The options and the request that arguments make; without a command, a session is served. -/
def parse (arguments : List String) : Except Notice (Options × Request) := do
  let (before, command) ← readArguments none Given.nothing arguments
  match command with
  | none => return (Options.ofGiven before Given.nothing, .serve)
  | some (name, after) => do
      let request ← name.request after
      return (Options.ofGiven before after, request)

end TagMachine.Command
