import Mathlib.Algebra.Group.Nat.Defs
import TagMachine.Memory

/-!
# Bits of a word

The flags and the packed program bytes are parts of words, cut out by masks and shifts.  Here a
word is read bit by bit: a mask with one bit sets and reads that bit alone, and writing one byte
of a word leaves the other seven.
-/

namespace TagMachine

namespace Bits

/-- The bit of a word at a place, counted from the lowest. -/
def bit (word : UInt64) (place : Nat) : Bool :=
  word.toNat.testBit place

theorem bit_eq_false_of_le {place : Nat} (outside : 64 ≤ place) (word : UInt64) :
    bit word place = false := by
  apply Nat.testBit_lt_two_pow
  calc
    word.toNat < 2 ^ 64 := word.toNat_lt
    _ ≤ 2 ^ place := Nat.pow_le_pow_right (by omega) outside

theorem eq_of_bit_eq {left right : UInt64}
    (same : ∀ place, place < 64 → bit left place = bit right place) :
    left = right := by
  apply UInt64.toNat_inj.mp
  apply Nat.eq_of_testBit_eq
  intro place
  by_cases inside : place < 64
  · exact same place inside
  · have outside : 64 ≤ place := Nat.le_of_not_lt inside
    exact (bit_eq_false_of_le outside left).trans (bit_eq_false_of_le outside right).symm

@[simp] theorem bit_zero (place : Nat) :
    bit 0 place = false := by
  simp [bit]

theorem bit_and (left right : UInt64) (place : Nat) :
    bit (left &&& right) place = (bit left place && bit right place) := by
  simp only [bit, UInt64.toNat_and, Nat.testBit_and]

theorem bit_or (left right : UInt64) (place : Nat) :
    bit (left ||| right) place = (bit left place || bit right place) := by
  simp only [bit, UInt64.toNat_or, Nat.testBit_or]

theorem bit_not {place : Nat} (inside : place < 64) (word : UInt64) :
    bit (~~~word) place = !bit word place := by
  have complement : UInt64.size - 1 - word.toNat = 2 ^ 64 - (word.toNat + 1) := by
    simp only [UInt64.size]
    omega
  simp only [bit, UInt64.toNat_not, complement,
    Nat.testBit_two_pow_sub_succ word.toNat_lt, inside, decide_true, Bool.true_and]

theorem bit_shiftLeft {distance : Nat} (short : distance < 64) (word : UInt64) (place : Nat) :
    bit (word <<< UInt64.ofNat distance) place =
      (decide (distance ≤ place ∧ place < 64) && bit word (place - distance)) := by
  have amount : distance % 2 ^ 64 % 64 = distance := by omega
  simp only [bit, UInt64.toNat_shiftLeft, UInt64.toNat_ofNat', amount,
    Nat.testBit_mod_two_pow, Nat.testBit_shiftLeft, Bool.decide_and]
  cases decide (place < 64) <;> simp

theorem bit_shiftRight {distance : Nat} (short : distance < 64) (word : UInt64) (place : Nat) :
    bit (word >>> UInt64.ofNat distance) place = bit word (distance + place) := by
  have amount : distance % 2 ^ 64 % 64 = distance := by omega
  simp only [bit, UInt64.toNat_shiftRight, UInt64.toNat_ofNat', amount, Nat.testBit_shiftRight]

/-! ## Masks of one bit -/

/-- The mask has one bit, at the given place. -/
def IsSingle (mask : UInt64) (place : Nat) : Prop :=
  place < 64 ∧ ∀ other, bit mask other = decide (other = place)

theorem isSingle_one : IsSingle 1 0 := by
  refine ⟨by omega, ?_⟩
  intro other
  simpa [bit, eq_comm] using Nat.testBit_two_pow (n := 0) (m := other)

theorem isSingle_two : IsSingle 2 1 := by
  refine ⟨by omega, ?_⟩
  intro other
  simpa [bit, eq_comm] using Nat.testBit_two_pow (n := 1) (m := other)

/-- A mask of one bit reads the bit at its place. -/
theorem and_ne_zero {mask : UInt64} {place : Nat}
    (single : IsSingle mask place) (word : UInt64) :
    ((word &&& mask) != 0) = bit word place := by
  cases set : bit word place with
  | false =>
      have zero : word &&& mask = 0 := by
        apply eq_of_bit_eq
        intro other _
        by_cases same : other = place
        · subst same
          simp [bit_and, set]
        · simp [bit_and, single.2, same]
      simp [zero]
  | true =>
      rw [bne_iff_ne]
      intro zero
      have cleared := congrArg (bit · place) zero
      simp [bit_and, set, single.2] at cleared

/-- A mask of one bit writes the bit at its place and no other. -/
theorem bit_withFlag {mask : UInt64} {place : Nat}
    (single : IsSingle mask place) (flags : UInt64) (on : Bool) (other : Nat) :
    bit (Memory.withFlag flags mask on) other =
      if other = place then on else bit flags other := by
  by_cases inside : other < 64
  · simp only [Memory.withFlag]
    cases on <;> by_cases same : other = place <;>
      simp [bit_and, bit_or, bit_not inside, bit_not single.1, single.2, same]
  · have outside : 64 ≤ other := Nat.le_of_not_lt inside
    have different : other ≠ place := by
      have := single.1
      omega
    rw [if_neg different, bit_eq_false_of_le outside, bit_eq_false_of_le outside]

/-! ## Bytes of a word -/

/-- The byte of a word in a lane, counted from the lowest. -/
def byteIn (word : UInt64) (lane : Nat) : UInt8 :=
  (word >>> UInt64.ofNat (8 * lane)).toUInt8

/-- The word with the byte in a lane replaced. -/
def withByte (word : UInt64) (lane : Nat) (byte : UInt8) : UInt64 :=
  (word &&& ~~~(0xFF <<< UInt64.ofNat (8 * lane))) |||
    (byte.toUInt64 <<< UInt64.ofNat (8 * lane))

theorem testBit_byteIn {lane : Nat} (inside : lane < 8) (word : UInt64) (place : Nat) :
    (byteIn word lane).toNat.testBit place =
      (decide (place < 8) && bit word (8 * lane + place)) := by
  have amount : 8 * lane < 64 := by omega
  have shifted := bit_shiftRight amount word place
  rw [bit] at shifted
  rw [byteIn, UInt64.toNat_toUInt8, Nat.testBit_mod_two_pow, shifted]

/-- Words that agree in every byte are the same. -/
theorem eq_of_byteIn_eq {left right : UInt64}
    (same : ∀ lane, lane < 8 → byteIn left lane = byteIn right lane) :
    left = right := by
  apply eq_of_bit_eq
  intro place inside
  have lane : place / 8 < 8 := by omega
  have low : place % 8 < 8 := Nat.mod_lt _ (by omega)
  have digit := congrArg (fun byte : UInt8 => byte.toNat.testBit (place % 8)) (same _ lane)
  simpa [testBit_byteIn lane, low, Nat.div_add_mod] using digit

/-- The byte in a lane as a digit to base 256. -/
theorem byteIn_eq_ofNat {lane : Nat} (inside : lane < 8) (word : UInt64) :
    byteIn word lane = UInt8.ofNat (word.toNat / 256 ^ lane) := by
  apply UInt8.toNat_inj.mp
  have amount : 8 * lane % 2 ^ 64 % 64 = 8 * lane := by omega
  simp only [byteIn, UInt64.toNat_toUInt8, UInt64.toNat_shiftRight, UInt64.toNat_ofNat', amount,
    Nat.shiftRight_eq_div_pow, Nat.pow_mul, UInt8.toNat_ofNat']

@[simp] theorem byteIn_zero (lane : Nat) :
    byteIn 0 lane = 0 := by
  apply UInt8.toNat_inj.mp
  simp [byteIn]

private theorem bit_lowByte (place : Nat) :
    bit 0xFF place = decide (place < 8) := by
  exact Nat.testBit_two_pow_sub_one 8 place

private theorem bit_byte {byte : UInt8} {place : Nat} (outside : 8 ≤ place) :
    bit byte.toUInt64 place = false := by
  apply Nat.testBit_lt_two_pow
  calc
    byte.toUInt64.toNat < 2 ^ 8 := by simpa using byte.toNat_lt
    _ ≤ 2 ^ place := Nat.pow_le_pow_right (by omega) outside

theorem byteIn_withByte {lane other : Nat} (inside : lane < 8) (otherInside : other < 8)
    (word : UInt64) (byte : UInt8) :
    byteIn (withByte word lane byte) other =
      if other = lane then byte else byteIn word other := by
  apply UInt8.toNat_inj.mp
  apply Nat.eq_of_testBit_eq
  intro place
  rw [testBit_byteIn otherInside]
  by_cases low : place < 8
  · have position : 8 * other + place < 64 := by omega
    have amount : 8 * lane < 64 := by omega
    simp only [withByte, bit_or, bit_and, bit_not position, bit_shiftLeft amount, bit_lowByte, low,
      decide_true, Bool.true_and]
    by_cases same : other = lane
    · subst same
      simp [low, position, bit]
    · rw [if_neg same, testBit_byteIn otherInside]
      by_cases above : 8 * lane ≤ 8 * other + place
      · have far : 8 ≤ 8 * other + place - 8 * lane := by omega
        simp [low, bit_byte far, Nat.not_lt_of_le far]
      · simp [low, above]
  · have high : 8 ≤ place := Nat.le_of_not_lt low
    have zero (value : UInt8) : value.toNat.testBit place = false := by
      apply Nat.testBit_lt_two_pow
      calc
        value.toNat < 2 ^ 8 := value.toNat_lt
        _ ≤ 2 ^ place := Nat.pow_le_pow_right (by omega) high
    simp [low, zero]

/-! ## The upper half of a word -/

theorem bit_lowerHalf (place : Nat) :
    bit Memory.lowerHalf place = decide (place < 32) :=
  Nat.testBit_two_pow_sub_one 32 place

/-- The word with its upper half replaced. -/
def withUpper (word : UInt64) (upper : UInt32) : UInt64 :=
  (word &&& Memory.lowerHalf) ||| (upper.toUInt64 <<< 32)

variable {word : UInt64} {upper : UInt32}

theorem bit_withUpper (word : UInt64) (upper : UInt32) (place : Nat) :
    bit (withUpper word upper) place =
      if place < 32 then bit word place
      else decide (place < 64) && bit upper.toUInt64 (place - 32) := by
  have shifted : bit (upper.toUInt64 <<< 32) place =
      (decide (32 ≤ place ∧ place < 64) && bit upper.toUInt64 (place - 32)) :=
    bit_shiftLeft (by decide) upper.toUInt64 place
  rw [withUpper, bit_or, bit_and, bit_lowerHalf, shifted]
  by_cases low : place < 32
  · simp [low, Nat.not_le_of_lt low]
  · simp [low, Nat.le_of_not_lt low]

/-- The lower four bytes stay. -/
theorem byteIn_withUpper {lane : Nat} (low : lane < 4) :
    byteIn (withUpper word upper) lane = byteIn word lane := by
  apply UInt8.toNat_inj.mp
  apply Nat.eq_of_testBit_eq
  intro place
  rw [testBit_byteIn (by omega), testBit_byteIn (by omega), bit_withUpper]
  by_cases inByte : place < 8
  · rw [if_pos (by omega)]
  · simp [inByte]

theorem withUpper_and_lowerHalf :
    withUpper word upper &&& Memory.lowerHalf = word &&& Memory.lowerHalf := by
  apply eq_of_bit_eq
  intro place _
  rw [bit_and, bit_and, bit_withUpper, bit_lowerHalf]
  by_cases low : place < 32 <;> simp [low]

theorem upper_withUpper : (withUpper word upper >>> 32).toUInt32 = upper := by
  have shifted : withUpper word upper >>> 32 = upper.toUInt64 := by
    apply eq_of_bit_eq
    intro place inside
    have moved : bit (withUpper word upper >>> 32) place =
        bit (withUpper word upper) (32 + place) :=
      bit_shiftRight (by decide) _ place
    rw [moved, bit_withUpper, if_neg (by omega), Nat.add_sub_cancel_left]
    by_cases low : place < 32
    · have below : 32 + place < 64 := by omega
      simp [below]
    · have zero : bit upper.toUInt64 place = false := by
        apply Nat.testBit_lt_two_pow
        calc
          upper.toUInt64.toNat < 2 ^ 32 := by simpa using upper.toNat_lt
          _ ≤ 2 ^ place := Nat.pow_le_pow_right (by omega) (Nat.le_of_not_lt low)
      simp [zero]
  rw [shifted]
  simp

end Bits

end TagMachine
