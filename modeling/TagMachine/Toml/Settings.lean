import TagMachine.Config
import TagMachine.Toml.Document

/-!
The limits of a machine as a settings table gives them. Settings that are not there keep their
defaults, and keys that mean nothing are passed over.
-/

namespace TagMachine.Toml

/-- A setting that is a number and not negative. -/
def natural? (table : Table) (key : String) (default : Nat) : Option Nat :=
  match table.lookup key with
  | none => some default
  | some (.integer number) => if 0 ≤ number then some number.toNat else none
  | some _ => none

def text? (table : Table) (key default : String) : Option String :=
  match table.lookup key with
  | none => some default
  | some (.text text) => some text
  | some _ => none

def swapCheckNamed? (name : String) : Option SwapCheck :=
  [SwapCheck.faithful, .hardened].find? (·.name == name)

/-- The setting of the swap check: its name, or a table with that one key and nothing under it. -/
def swapCheck? (table : Table) (key : String) (default : SwapCheck) : Option SwapCheck :=
  match table.lookup key with
  | none => some default
  | some (.text name) => swapCheckNamed? name
  | some (.table _ [(name, .table _ [])]) => swapCheckNamed? name
  | some _ => none

/-- The limits that a table gives, if every setting has a value of its type. -/
def config? (table : Table) : Option Config := do
  let default : Config := {}
  return {
    stackCapacity := ← natural? table "stack_capacity" default.stackCapacity
    programCapacity := ← natural? table "program_capacity" default.programCapacity
    cycleLimit := ← natural? table "cycle_limit" default.cycleLimit
    maxFileSize := ← natural? table "max_file_size" default.maxFileSize
    maxFileNameLength := ← natural? table "max_filename_len" default.maxFileNameLength
    maxLineLength := ← natural? table "max_line_len" default.maxLineLength
    maxLiveStrings := ← natural? table "max_live_strings" default.maxLiveStrings
    sandboxDir := ← text? table "sandbox_dir" default.sandboxDir
    fileWriteDelayMillis :=
      ← natural? table "file_write_delay_ms" default.fileWriteDelayMillis
    swapCheck := ← swapCheck? table "swap_check" default.swapCheck }

end TagMachine.Toml

namespace TagMachine

def Config.ofToml (text : String) : Except ConfigError Config := do
  match (Toml.read? text).bind Toml.config? with
  | none => throw .unreadable
  | some config =>
      config.validate
      return config

end TagMachine
