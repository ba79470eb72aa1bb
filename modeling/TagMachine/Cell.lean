/-!
Stack cells. A cell is a 64-bit word whose top bit tells a 63-bit integer from the name of a
string in the heap.
-/

namespace TagMachine

/-- The top bit, set in the cells that name a string. -/
def tagBit : UInt64 := 0x8000000000000000

inductive Value
  | int (number : UInt64)
  | string (id : UInt64)
  deriving DecidableEq, Repr

/-- One stack cell, as its word. -/
structure Cell where
  word : UInt64
  deriving DecidableEq, Repr, Inhabited

namespace Cell

/-- An integer cell. The top bit of the number is dropped. -/
def ofInt (number : UInt64) : Cell :=
  ⟨number % tagBit⟩

/-- The cell that names the string `id`. -/
def ofString (id : UInt64) : Cell :=
  ⟨id % tagBit + tagBit⟩

def isString (cell : Cell) : Bool :=
  tagBit ≤ cell.word

def value (cell : Cell) : Value :=
  if cell.isString then .string (cell.word - tagBit) else .int cell.word

/-! ## Reading back what was written -/

theorem toNat_tagBit : tagBit.toNat = 0x8000000000000000 := rfl

theorem isString_iff (cell : Cell) :
    cell.isString = true ↔ tagBit.toNat ≤ cell.word.toNat := by
  simp [isString, UInt64.le_iff_toNat_le, toNat_tagBit]

theorem toNat_ofInt (number : UInt64) :
    (ofInt number).word.toNat = number.toNat % tagBit.toNat := by
  simp [ofInt, UInt64.toNat_mod, toNat_tagBit]

theorem toNat_ofString (id : UInt64) :
    (ofString id).word.toNat = id.toNat % tagBit.toNat + tagBit.toNat := by
  simp only [ofString, UInt64.toNat_add, UInt64.toNat_mod, toNat_tagBit]
  omega

@[simp] theorem isString_ofString (id : UInt64) :
    (ofString id).isString = true := by
  rw [isString_iff, toNat_ofString]
  omega

/-- The cell made for a string id below the tag bit names that id. -/
theorem value_ofString {id : UInt64} (small : id.toNat < tagBit.toNat) :
    (ofString id).value = .string id := by
  have tagged : (ofString id).word.toNat = id.toNat + tagBit.toNat := by
    rw [toNat_ofString, Nat.mod_eq_of_lt small]
  have word : (ofString id).word - tagBit = id := by
    apply UInt64.toNat_inj.mp
    rw [UInt64.toNat_sub_of_le _ _ (by rw [UInt64.le_iff_toNat_le]; omega)]
    omega
  simp [value, word]

end Cell

end TagMachine
