/-!
Byte strings, and the readings of them that the machine needs: little-endian numbers, text that
ends at its first zero byte, and one string occurring in another.
-/

namespace TagMachine

abbrev Bytes := List UInt8

namespace Bytes

def newline : UInt8 := 10

def ofText (text : String) : Bytes :=
  text.toList.flatMap String.utf8EncodeChar

/-- The number that the bytes denote, least significant byte first. -/
def littleEndian : Bytes → Nat
  | [] => 0
  | byte :: rest => byte.toNat + 256 * littleEndian rest

/-- The lowest `count` bytes of a number, least significant byte first. -/
def ofLittleEndian : (count number : Nat) → Bytes
  | 0, _ => []
  | count + 1, number =>
      UInt8.ofNat number :: ofLittleEndian count (number / 256)

/-- The bytes before the first zero byte. -/
def untilZero (bytes : Bytes) : Bytes :=
  bytes.takeWhile (· != 0)

/-- The needle occurs in the byte string as consecutive bytes. -/
def occursIn (needle : Bytes) : Bytes → Bool
  | [] => needle.isEmpty
  | byte :: rest =>
      needle.isPrefixOf (byte :: rest) || occursIn needle rest

/-! ## Little-endian numbers -/

@[simp] theorem length_ofLittleEndian (count number : Nat) :
    (ofLittleEndian count number).length = count := by
  induction count generalizing number with
  | zero => rfl
  | succ count inductionHypothesis =>
      simp [ofLittleEndian, inductionHypothesis]

/-! ## Text up to the first zero byte -/

theorem zero_not_mem_untilZero (bytes : Bytes) :
    (0 : UInt8) ∉ untilZero bytes := by
  induction bytes with
  | nil => simp [untilZero]
  | cons byte rest inductionHypothesis =>
      by_cases isZero : byte = 0
      · simp [untilZero, isZero]
      · simpa [untilZero, isZero, Ne.symm isZero] using inductionHypothesis

theorem untilZero_eq_self {bytes : Bytes} (zeroFree : (0 : UInt8) ∉ bytes) :
    untilZero bytes = bytes := by
  induction bytes with
  | nil => rfl
  | cons byte rest inductionHypothesis =>
      simp only [List.mem_cons, not_or] at zeroFree
      simpa [untilZero, Ne.symm zeroFree.1] using inductionHypothesis zeroFree.2

end Bytes

end TagMachine
