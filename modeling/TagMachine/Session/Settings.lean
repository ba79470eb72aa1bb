import TagMachine.Toml.Settings

/-!
The settings of a session: those of the conversation, and the limits of the machine in the table
`vm`.
-/

namespace TagMachine

/-- The settings of a session. A timeout of zero sets no bound, and the longest length line is a
byte shorter than its buffer. -/
structure SessionConfig where
  timeoutSeconds : Nat := 45
  promptDelayMillis : Nat := 1000
  lengthLineMax : Nat := 100
  machine : Config := {}
  deriving DecidableEq, Repr, Inhabited

inductive SettingsError
  | lengthLine
  | unreadable
  | machine (error : ConfigError)
  deriving DecidableEq, Repr

def SettingsError.message : SettingsError → String
  | lengthLine => "invalid harness config: length_line_max must be at least 2"
  | unreadable => "invalid harness config: settings cannot be read"
  | machine error => error.message

namespace SessionConfig

/-- Refuses settings that cannot be honoured; the length line is looked at before the machine. -/
def validate (config : SessionConfig) : Except SettingsError Unit :=
  if config.lengthLineMax < 2 then .error .lengthLine
  else config.machine.validate.mapError .machine

def timeoutMillis? (config : SessionConfig) : Option Nat :=
  if config.timeoutSeconds = 0 then none else some (1000 * config.timeoutSeconds)

/-- The settings that a table gives, if every setting has a value of its type. -/
def ofTable? (table : Toml.Table) : Option SessionConfig := do
  let default : SessionConfig := {}
  let machine ←
    match table.lookup "vm" with
    | none => some default.machine
    | some (.table _ entries) => Toml.config? entries
    | some _ => none
  return {
    timeoutSeconds := ← Toml.natural? table "timeout_secs" default.timeoutSeconds
    promptDelayMillis := ← Toml.natural? table "prompt_delay_ms" default.promptDelayMillis
    lengthLineMax := ← Toml.natural? table "length_line_max" default.lengthLineMax
    machine }

def ofToml (text : String) : Except SettingsError SessionConfig := do
  match (Toml.read? text).bind ofTable? with
  | none => throw .unreadable
  | some config =>
      config.validate
      return config

end SessionConfig

end TagMachine
