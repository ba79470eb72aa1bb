import TagMachine.Bytes
import TagMachine.Fault
import TagMachine.Memory.Layout

/-!
The machine's memory: one flat block of 64-bit words. Stack and program addresses are computed
modulo `2 ^ 64`, so an index just below the stack meets the registers and a read past the program
meets the flags; an address outside the block is a fault.
-/

namespace TagMachine

/-- A block of words with its layout. -/
structure Memory where
  layout : Layout
  words : Array UInt64
  size_words : words.size = layout.words

/-- A computation on memory that keeps what it wrote when it faults. -/
abbrev Memory.Access := EStateM Fault Memory

namespace Memory

def blank (layout : Layout) : Memory :=
  ⟨layout, Array.replicate layout.words 0, by simp⟩

/-! ## Words -/

/-- The word at a position; zero outside the block. -/
def wordAt (memory : Memory) (position : Nat) : UInt64 :=
  memory.words.getD position 0

/-- Replaces the word at a position; nothing changes outside the block. -/
def put (memory : Memory) (position : Nat) (word : UInt64) : Memory :=
  { memory with
    words := memory.words.setIfInBounds position word
    size_words := by simp [memory.size_words] }

def InBlock (memory : Memory) (address : UInt64) : Prop :=
  address.toNat < memory.layout.words

instance (memory : Memory) (address : UInt64) : Decidable (memory.InBlock address) :=
  inferInstanceAs (Decidable (_ < _))

def load (address : UInt64) : Access UInt64 := fun memory =>
  if memory.InBlock address then .ok (memory.wordAt address.toNat) memory
  else .error (.memoryFault address) memory

def store (address word : UInt64) : Access Unit := fun memory =>
  if memory.InBlock address then .ok () (memory.put address.toNat word)
  else .error (.memoryFault address) memory

/-! ## Stack cells -/

/-- The address of the stack cell with the given index, modulo `2 ^ 64`. -/
def cellAddress (index : UInt64) : UInt64 :=
  UInt64.ofNat Layout.stackBase + index

def loadCell (index : UInt64) : Access UInt64 :=
  load (cellAddress index)

def storeCell (index word : UInt64) : Access Unit :=
  store (cellAddress index) word

/-! ## Program bytes -/

/-- The word that holds the program byte at an offset, and how far the byte is shifted in it.
A byte address of more than 64 bits is a fault at the last address. -/
def bytePosition (offset : UInt64) : Access (UInt64 × UInt64) := fun memory =>
  let address := 8 * memory.layout.programBase + offset.toNat
  if address < UInt64.size then
    .ok (UInt64.ofNat (address / 8), UInt64.ofNat (8 * (address % 8))) memory
  else .error (.memoryFault (UInt64.ofNat (UInt64.size - 1))) memory

def programByte (offset : UInt64) : Access UInt8 := do
  let (address, shift) ← bytePosition offset
  let word ← load address
  return (word >>> shift).toUInt8

def storeProgramByte (offset : UInt64) (byte : UInt8) : Access Unit := do
  let (address, shift) ← bytePosition offset
  let word ← load address
  store address ((word &&& ~~~(0xFF <<< shift)) ||| (byte.toUInt64 <<< shift))

/-- The program bytes from an offset on, offsets counted modulo `2 ^ 64`. -/
def programBytes : (count : Nat) → (offset : UInt64) → Access Bytes
  | 0, _ => return []
  | count + 1, offset => do
      let byte ← programByte offset
      let rest ← programBytes count (offset + 1)
      return byte :: rest

def programTarget (offset : UInt64) : Access UInt16 := do
  let bytes ← programBytes 2 offset
  return UInt16.ofNat bytes.littleEndian

def programWord (offset : UInt64) : Access UInt64 := do
  let bytes ← programBytes 8 offset
  return UInt64.ofNat bytes.littleEndian

/-! ## Registers -/

def ip (memory : Memory) : UInt64 :=
  memory.wordAt Layout.ipWord

def setIp (memory : Memory) (ip : UInt64) : Memory :=
  memory.put Layout.ipWord ip

/-- The stack pointer: the number of live cells. -/
def sp (memory : Memory) : UInt64 :=
  memory.wordAt Layout.spWord

def setSp (memory : Memory) (sp : UInt64) : Memory :=
  memory.put Layout.spWord sp

/-- The word of flags: bit 0 is halt, bit 1 is cmp, and the upper half the program length. -/
def flags (memory : Memory) : UInt64 :=
  memory.wordAt memory.layout.flagsWord

def setFlags (memory : Memory) (flags : UInt64) : Memory :=
  memory.put memory.layout.flagsWord flags

/-- The flags with the bits of a mask set or cleared. -/
def withFlag (flags mask : UInt64) (on : Bool) : UInt64 :=
  if on then flags ||| mask else flags &&& ~~~mask

def lowerHalf : UInt64 := 0xFFFFFFFF

def halt (memory : Memory) : Bool :=
  (memory.flags &&& 1) != 0

def setHalt (memory : Memory) (on : Bool) : Memory :=
  memory.setFlags (withFlag memory.flags 1 on)

def cmp (memory : Memory) : Bool :=
  (memory.flags &&& 2) != 0

def setCmp (memory : Memory) (on : Bool) : Memory :=
  memory.setFlags (withFlag memory.flags 2 on)

def programLength (memory : Memory) : UInt32 :=
  (memory.flags >>> 32).toUInt32

def setProgramLength (memory : Memory) (length : UInt32) : Memory :=
  let upper : UInt64 := length.toUInt64 <<< 32
  memory.setFlags ((memory.flags &&& lowerHalf) ||| upper)

/-! ## Words after a write -/

@[ext] theorem ext {left right : Memory}
    (layout : left.layout = right.layout)
    (words : left.words = right.words) :
    left = right := by
  cases left
  cases right
  simp only at layout words
  subst layout words
  rfl

@[simp] theorem layout_put (memory : Memory) (position : Nat) (word : UInt64) :
    (memory.put position word).layout = memory.layout := rfl

theorem wordAt_put (memory : Memory) (position other : Nat) (word : UInt64) :
    (memory.put position word).wordAt other =
      if position = other ∧ position < memory.layout.words then word
      else memory.wordAt other := by
  have size := memory.size_words
  simp only [wordAt, put, Array.getD_eq_getD_getElem?, Array.getElem?_setIfInBounds, size]
  by_cases same : position = other
  · subst same
    by_cases inside : position < memory.layout.words
    · simp [inside]
    · simp [inside, size]
  · simp [same]

/-- Two blocks of one layout with the same words are the same. -/
theorem eq_of_wordAt {left right : Memory}
    (layout : left.layout = right.layout)
    (same : ∀ position, position < left.layout.words →
      left.wordAt position = right.wordAt position) :
    left = right := by
  apply Memory.ext layout
  apply Array.ext
  · rw [left.size_words, right.size_words, layout]
  · intro position insideLeft insideRight
    have agree := same position (by rw [← left.size_words]; exact insideLeft)
    simpa [wordAt, Array.getD_eq_getD_getElem?, insideLeft, insideRight] using agree

@[simp] theorem wordAt_blank (layout : Layout) (position : Nat) :
    (blank layout).wordAt position = 0 := by
  by_cases inside : position < layout.words <;>
    simp [wordAt, blank, Array.getD_eq_getD_getElem?, inside]

end Memory

end TagMachine
