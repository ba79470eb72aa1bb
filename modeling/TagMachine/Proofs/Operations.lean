import TagMachine.Machine.Execute
import TagMachine.Proofs.ValueMachine

/-!
# Operations on words and on bytes

The machine computes on words modulo `2 ^ 64`, and cuts what becomes a string at its first zero
byte.  Each word operation gives the result of the operation on integers, modulo `2 ^ 64`, and the
texts that the machine makes itself contain no zero byte.
-/

namespace TagMachine

/-! ## Words -/

/-- The word is the result modulo `2 ^ 64`. -/
def Computes (word : UInt64) (result : Int) : Prop :=
  (word.toNat : Int) = result % 2 ^ 64

namespace Computes

variable (left right : UInt64)

theorem add : Computes (left + right) (left.toNat + right.toNat) := by
  rw [Computes, UInt64.toNat_add]
  omega

theorem sub : Computes (left - right) (left.toNat - right.toNat) := by
  have small := right.toNat_lt
  rw [Computes, UInt64.toNat_sub]
  omega

theorem mul : Computes (left * right) (left.toNat * right.toNat) := by
  rw [Computes, UInt64.toNat_mul, ← Int.natCast_mul]
  omega

theorem div : Computes (left / right) (left.toNat / right.toNat) := by
  have small := left.toNat_lt
  have smaller := Nat.div_le_self left.toNat right.toNat
  rw [Computes, UInt64.toNat_div, ← Int.natCast_ediv]
  generalize left.toNat / right.toNat = quotient at smaller ⊢
  omega

theorem mod : Computes (left % right) (left.toNat % right.toNat) := by
  have small := left.toNat_lt
  have smaller := Nat.mod_le left.toNat right.toNat
  rw [Computes, UInt64.toNat_mod, ← Int.natCast_emod]
  generalize left.toNat % right.toNat = remainder at smaller ⊢
  omega

theorem shiftLeft_one : Computes (left <<< 1) (2 * left.toNat) := by
  have shifted : (left <<< 1).toNat = 2 * left.toNat % 2 ^ 64 := by
    rw [UInt64.toNat_shiftLeft, Nat.shiftLeft_eq, Nat.mul_comm]
    rfl
  rw [Computes, shifted]
  omega

theorem shiftRight_one : Computes (left >>> 1) (left.toNat / 2) := by
  have small := left.toNat_lt
  have shifted : (left >>> 1).toNat = left.toNat / 2 := by
    rw [UInt64.toNat_shiftRight, Nat.shiftRight_eq_div_pow]
    rfl
  rw [Computes, shifted]
  omega

theorem ofInt (result : Int) : Computes (UInt64.ofInt result) result := by
  rw [Computes, UInt64.ofInt, UInt64.toNat_ofNat']
  omega

/-- A word whose top bit is clear stands for its result, and one whose top bit is set for none. -/
theorem ofResult?_eq {word : UInt64} {result : Int} (computes : Computes word result) :
    Integer.ofResult? result =
      if small : word.toNat < 2 ^ 63 then some ⟨word.toNat, small⟩ else none := by
  have same : (result % 2 ^ 64).toNat = word.toNat := by
    rw [← computes]
    rfl
  simp only [Integer.ofResult?, same]

end Computes

theorem Cell.toNat_ofInt_ofNat (number : Nat) :
    (Cell.ofInt (UInt64.ofNat number)).word.toNat = (Integer.wrap number).number := by
  change _ = number % 2 ^ 63
  rw [Cell.toNat_ofInt, Cell.toNat_tagBit, UInt64.toNat_ofNat']
  omega

/-! ## Texts without a zero byte -/

theorem Text.cut_bytes {bytes : Bytes} (zeroFree : (0 : UInt8) ∉ bytes) :
    (Text.cut bytes).bytes = bytes :=
  Bytes.untilZero_eq_self zeroFree

namespace Numeral

theorem lt_base_of_mem_digits {base number digit : Nat} (large : 2 ≤ base)
    (member : digit ∈ digits base number) :
    digit < base := by
  induction number using digits.induct base with
  | case1 number small =>
      rw [digits, if_pos small, List.mem_singleton] at member
      omega
  | case2 number large inductionHypothesis =>
      rw [digits, if_neg large, List.mem_append, List.mem_singleton] at member
      rcases member with earlier | rfl
      · exact inductionHypothesis earlier
      · exact Nat.mod_lt _ (by omega)

theorem zero_not_mem_digitChar {digit : Nat} (small : digit < 16) :
    (0 : UInt8) ∉ String.utf8EncodeChar (Nat.digitChar digit) := by
  revert digit
  decide

theorem zero_not_mem_of_mem_text {base number : Nat} (large : 2 ≤ base) (small : base ≤ 16)
    {char : Char} (member : char ∈ text base number) :
    (0 : UInt8) ∉ String.utf8EncodeChar char := by
  rw [text, List.mem_map] at member
  rcases member with ⟨digit, isDigit, rfl⟩
  exact zero_not_mem_digitChar (Nat.lt_of_lt_of_le (lt_base_of_mem_digits large isDigit) small)

theorem zero_not_mem_decimal (number : Nat) :
    (0 : UInt8) ∉ Bytes.ofText (String.ofList (decimal number)) := by
  intro member
  rw [Bytes.ofText, String.toList_ofList, decimal, List.mem_flatMap] at member
  rcases member with ⟨char, isDigit, isZero⟩
  exact zero_not_mem_of_mem_text (by decide) (by decide) isDigit isZero

theorem zero_not_mem_hex (number : Nat) :
    (0 : UInt8) ∉ Bytes.ofText (String.ofList (hex number)) := by
  intro member
  rw [Bytes.ofText, String.toList_ofList, hex, hexPadded, padded, List.mem_flatMap] at member
  rcases member with ⟨char, isPart, isZero⟩
  simp only [List.mem_cons, List.mem_append, List.mem_replicate] at isPart
  rcases isPart with rfl | rfl | ⟨_, rfl⟩ | isDigit
  · exact absurd isZero (by decide)
  · exact absurd isZero (by decide)
  · exact absurd isZero (by decide)
  · exact zero_not_mem_of_mem_text (by decide) (by decide) isDigit isZero

end Numeral

theorem Action.zero_not_mem_withoutNewline {line : Bytes} (zeroFree : (0 : UInt8) ∉ line) :
    (0 : UInt8) ∉ Action.withoutNewline line := by
  unfold Action.withoutNewline
  split
  · exact fun member => zeroFree (List.dropLast_subset line member)
  · exact zeroFree

end TagMachine
