/-!
The limits of one machine, and which limits a machine can honour.
-/

namespace TagMachine

/-- How many live cells `swap` asks for: two, or only one, so that a lone cell is exchanged with the
word below the stack, the stack pointer. -/
inductive SwapCheck
  | faithful
  | hardened
  deriving DecidableEq, Repr

def SwapCheck.requiredCells : SwapCheck → UInt64
  | faithful => 1
  | hardened => 2

def SwapCheck.name : SwapCheck → String
  | faithful => "faithful"
  | hardened => "hardened"

/-- The limits of a machine and the place of its files. A program must be shorter than its store,
and a line is shorter than its buffer. -/
structure Config where
  stackCapacity : Nat := 4096
  programCapacity : Nat := 4096
  cycleLimit : Nat := 4096
  maxFileSize : Nat := 4096
  maxFileNameLength : Nat := 256
  maxLineLength : Nat := 4096
  maxLiveStrings : Nat := 65536
  sandboxDir : String := "data"
  fileWriteDelayMillis : Nat := 1000
  swapCheck : SwapCheck := .faithful
  deriving DecidableEq, Repr, Inhabited

/-- Why limits are refused. A settings text that is not well formed is unreadable, and so is one
with a value of the wrong type. -/
inductive ConfigError
  | stackCapacity
  | programCapacity
  | lineLength
  | blockTooLarge
  | unreadable
  deriving DecidableEq, Repr

def ConfigError.message (error : ConfigError) : String :=
  "invalid configuration: " ++
    match error with
    | stackCapacity => "stack_capacity must be within 1..=1048576"
    | programCapacity => "program_capacity must be within 1..=65536"
    | lineLength => "max_line_len must be at least 2"
    | blockTooLarge => "machine memory size overflows"
    | unreadable => "settings cannot be read"

namespace Config

def maxStackCapacity : Nat := 1048576

/-- Program store bytes that a machine may have at most: jump targets have 16 bits. -/
def maxProgramCapacity : Nat := 65536

/-- The limits are such that a machine can honour them. -/
structure Valid (config : Config) : Prop where
  stack_pos : 0 < config.stackCapacity
  stack_le : config.stackCapacity ≤ maxStackCapacity
  program_pos : 0 < config.programCapacity
  program_le : config.programCapacity ≤ maxProgramCapacity
  line_le : 2 ≤ config.maxLineLength

/-- Refuses limits that a machine cannot honour; the stack is looked at first, then the program
store, then the line buffer. -/
def validate (config : Config) : Except ConfigError Unit :=
  if config.stackCapacity = 0 ∨ maxStackCapacity < config.stackCapacity then
    .error .stackCapacity
  else if config.programCapacity = 0 ∨ maxProgramCapacity < config.programCapacity then
    .error .programCapacity
  else if config.maxLineLength < 2 then
    .error .lineLength
  else
    .ok ()

theorem validate_eq_ok_iff (config : Config) :
    config.validate = .ok () ↔ config.Valid := by
  constructor
  · intro accepted
    unfold validate at accepted
    split at accepted
    · cases accepted
    · rename_i stackFits
      split at accepted
      · cases accepted
      · rename_i programFits
        split at accepted
        · cases accepted
        · rename_i lineFits
          exact ⟨by omega, by omega, by omega, by omega, by omega⟩
  · intro valid
    obtain ⟨stackPos, stackLe, programPos, programLe, lineLe⟩ := valid
    unfold validate
    rw [if_neg (by omega), if_neg (by omega), if_neg (by omega)]

end Config

end TagMachine
