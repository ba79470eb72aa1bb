import Mathlib.Algebra.Group.Nat.Defs
import TagMachine.Bytes

/-!
Little-endian numbers. The bytes written for a number denote that number, as far as the bytes
reach, and bytes denote no number beyond their reach.
-/

namespace TagMachine.Bytes

theorem littleEndian_ofLittleEndian (count number : Nat) :
    littleEndian (ofLittleEndian count number) = number % 256 ^ count := by
  induction count generalizing number with
  | zero => simp [ofLittleEndian, littleEndian, Nat.mod_one]
  | succ count inductionHypothesis =>
      have split := Nat.mod_mul (x := number) (a := 256) (b := 256 ^ count)
      simp only [ofLittleEndian, littleEndian, inductionHypothesis,
        UInt8.toNat_ofNat', Nat.pow_succ, Nat.mul_comm (256 ^ count) 256]
      omega

theorem littleEndian_lt (bytes : Bytes) :
    littleEndian bytes < 256 ^ bytes.length := by
  induction bytes with
  | nil => simp [littleEndian]
  | cons byte rest inductionHypothesis =>
      have small := byte.toNat_lt
      simp only [littleEndian, List.length_cons, Nat.pow_succ]
      omega

/-- Bytes are what is written for the number that they denote. -/
theorem ofLittleEndian_littleEndian (bytes : Bytes) :
    ofLittleEndian bytes.length (littleEndian bytes) = bytes := by
  induction bytes with
  | nil => rfl
  | cons byte rest inductionHypothesis =>
      have small := byte.toNat_lt
      have high : (byte.toNat + 256 * littleEndian rest) / 256 = littleEndian rest := by omega
      have low : UInt8.ofNat (byte.toNat + 256 * littleEndian rest) = byte := by
        apply UInt8.toNat_inj.mp
        rw [UInt8.toNat_ofNat']
        omega
      rw [littleEndian, List.length_cons, ofLittleEndian, high, low, inductionHypothesis]

end TagMachine.Bytes
