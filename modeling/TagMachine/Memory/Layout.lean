import TagMachine.Config

/-!
Where the parts of the machine lie in its block of words: the instruction pointer, the stack
pointer, the stack cells, the program bytes packed eight to a word, and one word of flags.
-/

namespace TagMachine

/-- The sizes that fix where each part of the block lies. -/
structure Layout where
  stackCells : Nat
  programBytes : Nat
  deriving DecidableEq, Repr

namespace Layout

def ipWord : Nat := 0

def spWord : Nat := 1

def stackBase : Nat := 2

/-- The first program word, just above the stack. -/
def programBase (layout : Layout) : Nat :=
  stackBase + layout.stackCells

def programWords (layout : Layout) : Nat :=
  (layout.programBytes + 7) / 8

/-- The word of the flags, just above the program. -/
def flagsWord (layout : Layout) : Nat :=
  layout.programBase + layout.programWords

def words (layout : Layout) : Nat :=
  layout.flagsWord + 1

/-- The layout for the given limits, if 64 bits can count its words. -/
def ofConfig (config : Config) : Except ConfigError Layout :=
  let layout : Layout := ⟨config.stackCapacity, config.programCapacity⟩
  if layout.words < UInt64.size then .ok layout else .error .blockTooLarge

theorem ipWord_lt_words (layout : Layout) : ipWord < layout.words := by
  simp only [ipWord, words]
  omega

theorem spWord_lt_words (layout : Layout) : spWord < layout.words := by
  simp only [spWord, words, flagsWord, programBase, stackBase]
  omega

theorem flagsWord_lt_words (layout : Layout) :
    layout.flagsWord < layout.words := by
  simp only [words]
  omega

/-- Valid limits always have a layout. -/
theorem ofConfig_of_valid {config : Config} (valid : config.Valid) :
    ofConfig config = .ok ⟨config.stackCapacity, config.programCapacity⟩ := by
  have stackLe := valid.stack_le
  have programLe := valid.program_le
  simp only [Config.maxStackCapacity] at stackLe
  simp only [Config.maxProgramCapacity] at programLe
  unfold ofConfig
  rw [if_pos]
  simp only [words, flagsWord, programBase, programWords, stackBase, UInt64.size]
  omega

end Layout

end TagMachine
