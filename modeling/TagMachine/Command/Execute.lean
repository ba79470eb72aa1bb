import TagMachine.Code.Listing
import TagMachine.Code.Source
import TagMachine.Command.Arguments
import TagMachine.Session

/-!
What each command does with its input and the files it finds.
-/

namespace TagMachine.Command

inductive Error
  | io (cause : IoError)
  | settings (error : SettingsError)
  | assembly (error : AssemblyError)
  | fault (cause : Fault)
  | session (error : SessionError)
  deriving DecidableEq, Repr

def Error.message : Error → String
  | io cause => cause.message
  | settings error => error.message
  | assembly error => error.message
  | fault cause => cause.message
  | session error => error.message

/-- What a command leaves behind. -/
structure Outcome where
  exitCode : UInt32
  output : Bytes
  report : String
  files : FileSystem

abbrev Job := EStateM Error World

variable {α : Type}

def ofExcept : Except Error α → Job α
  | .ok result => return result
  | .error error => throw error

def ofExchange (exchange : Exchange α) : Job α := fun world =>
  match exchange world with
  | .ok result world => .ok result world
  | .error error world => .error (.session error) world

def decodeText (bytes : Bytes) : Except Error String :=
  match String.fromUTF8? ⟨bytes.toArray⟩ with
  | some text => .ok text
  | none => .error (.io .notUtf8)

def readFile (files : FileSystem) (path : String) : Except Error Bytes :=
  (files.read (Place.ofText path)).mapError .io

/-- The settings of the file that the options name, with what the options change. -/
def loadSettings (options : Options) (files : FileSystem) : Except Error SessionConfig := do
  let base ←
    match options.config with
    | none => pure {}
    | some path => do
        let text ← decodeText (← readFile files path)
        (SessionConfig.ofToml text).mapError .settings
  let machine := base.machine
  let config : SessionConfig :=
    { timeoutSeconds := if options.noTimeout then 0 else base.timeoutSeconds
      promptDelayMillis := if options.noDelay then 0 else base.promptDelayMillis
      lengthLineMax := base.lengthLineMax
      machine :=
        { machine with
          sandboxDir := options.sandboxDir.getD machine.sandboxDir
          swapCheck := if options.hardenedSwap then .hardened else machine.swapCheck
          fileWriteDelayMillis :=
            if options.noDelay then 0 else machine.fileWriteDelayMillis } }
  config.validate.mapError .settings
  return config

def emit (bytes : Bytes) : Job Unit := fun
  | ⟨input, output, files⟩ =>
      match Output.write bytes output with
      | .ok result output => .ok result ⟨input, output, files⟩
      | .error cause output => .error (.io cause) ⟨input, output, files⟩

def save (path : String) (bytes : Bytes) : Job Unit := fun
  | ⟨input, output, files⟩ =>
      match FileSystem.write (Place.ofText path) bytes files with
      | .ok result files => .ok result ⟨input, output, files⟩
      | .error cause files => .error (.io cause) ⟨input, output, files⟩

/-- Runs the program in a file on the input. -/
def runFile (config : Config) (path : String) : Job Unit := do
  ofExchange (Session.ensureRoot config)
  let bytes ← ofExcept (((← get).files.read (Place.ofText path)).mapError (.fault <| .io ·))
  let machine ← ofExcept ((Session.prepare config bytes).mapError .session)
  let (_, _, world) := machine.run (← get)
  set world

/-- Assembles the program text in a file, into another file or into the output. -/
def assembleFile (source : String) (target : Option String) : Job Unit := do
  let content ← ofExcept (readFile (← get).files source)
  let text ← ofExcept (decodeText content)
  let bytes ← ofExcept ((Source.assemble text.toList).mapError .assembly)
  match target with
  | some path => save path bytes
  | none => emit bytes

def listFile (path : String) : Job Unit := do
  let bytes ← ofExcept (readFile (← get).files path)
  emit (Bytes.ofText (String.ofList ((listing bytes).flatMap (· ++ ['\n']))))

def serve (options : Options) (request : Request) : Job Unit := do
  let config ← ofExcept (loadSettings options (← get).files)
  match request with
  | .serve => do
      let _ ← ofExchange (Session.serve config)
  | .run program => runFile config.machine program
  | .assemble source output => assembleFile source output
  | .list program => listFile program

def versionLine : String :=
  "veighty 0.1.0\n"

def usage : String :=
  "Usage: veighty [OPTIONS] [serve | run PROGRAM | asm SOURCE [-o FILE] | disasm PROGRAM]\n"

/-- Runs the command that the arguments ask for, with the given input and files. -/
def execute (arguments : List String) (input : Bytes) (files : FileSystem) : Outcome :=
  match parse arguments with
  | .error .misuse => ⟨2, [], usage, files⟩
  | .error .version => ⟨0, Bytes.ofText versionLine, "", files⟩
  | .error .help => ⟨0, Bytes.ofText usage, "", files⟩
  | .ok (options, request) =>
      match serve options request ⟨Input.ofBytes input, Output.unbounded, files⟩ with
      | .ok _ world => ⟨0, world.output.written.toList, "", world.files⟩
      | .error error world =>
          ⟨1, world.output.written.toList, error.message ++ "\n", world.files⟩

end TagMachine.Command
