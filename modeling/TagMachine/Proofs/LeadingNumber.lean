import Mathlib.Data.List.Induction
import Mathlib.Data.List.TakeWhile
import Mathlib.Data.Nat.Digits.Defs
import TagMachine.Numeral

/-!
# The number that a text starts with

A text starts with blanks, a sign or none, and digits or none, and the longest of its beginnings of
this form is what is read of it.  The reader stays within 64 bits after each operation.  A total that
has been held there only grows on to the same side, so the reader comes to the number that all of the
digits denote, held within 64 bits once and at the end.
-/

namespace TagMachine.Numeral

/-! ## Texts of numbers -/

/-- The nearest of the integers that signed 64-bit words hold. -/
def clamp (number : Int) : Int :=
  max (-2 ^ 63) (min (2 ^ 63 - 1) number)

/-- The number with a magnitude and a sign. -/
def signed (negative : Bool) (magnitude : Nat) : Int :=
  if negative then -magnitude else magnitude

/-- The number that a row of decimal digits denotes. No digits denote zero. -/
def decimalValue (digits : Bytes) : Nat :=
  Nat.ofDigits 10 (digits.map fun digit => digit.toNat - 48).reverse

/-- The text is a sign or none at all; true means minus. -/
inductive SignText : Bytes → Bool → Prop
  | none : SignText [] false
  | plus : SignText [43] false
  | minus : SignText [45] true

/-- The text is blanks, a sign or none, and digits or none, and this is the number that it denotes. -/
inductive NumberText : Bytes → Int → Prop
  | parts {blanks sign digits : Bytes} {negative : Bool} :
      (∀ byte ∈ blanks, byte ∈ [32, 9, 10, 13, 11, 12]) →
      SignText sign negative →
      (∀ byte ∈ digits, 48 ≤ byte ∧ byte ≤ 57) →
      NumberText (blanks ++ sign ++ digits) (signed negative (decimalValue digits))

/-- The text is the longest beginning of the bytes that denotes a number. -/
structure LeadingNumber (bytes text : Bytes) (number : Int) : Prop where
  begins : text <+: bytes
  denotes : NumberText text number
  longest : ∀ other value, other <+: bytes → NumberText other value → other.length ≤ text.length

theorem isBlank_iff (byte : UInt8) :
    isBlank byte = true ↔ byte ∈ [32, 9, 10, 13, 11, 12] := by
  simp only [isBlank, Bool.or_eq_true, beq_iff_eq, Bool.and_eq_true, decide_eq_true_eq,
    List.mem_cons, List.not_mem_nil, or_false, UInt8.le_iff_toNat_le, ← UInt8.toNat_inj]
  simp only [UInt8.reduceToNat]
  omega

theorem isDigit_iff (byte : UInt8) :
    isDigit byte = true ↔ 48 ≤ byte ∧ byte ≤ 57 := by
  rw [isDigit, Bool.and_eq_true, decide_eq_true_eq, decide_eq_true_eq]

/-! ## Digit by digit -/

theorem decimalValue_concat (digits : Bytes) (digit : UInt8) :
    decimalValue (digits ++ [digit]) = decimalValue digits * 10 + (digit.toNat - 48) := by
  simp only [decimalValue, List.map_append, List.map_cons, List.map_nil, List.reverse_append,
    List.reverse_cons, List.reverse_nil, List.nil_append, List.singleton_append, Nat.ofDigits_cons]
  omega

/-- A total that was held within 64 bits comes to what it would have come to, held there. -/
theorem accumulate_clamp (negative : Bool) (magnitude : Nat) {digit : UInt8} (large : 48 ≤ digit) :
    accumulate negative (clamp (signed negative magnitude)) digit =
      clamp (signed negative (magnitude * 10 + (digit.toNat - 48))) := by
  have value : (digit - 48).toNat = digit.toNat - 48 := UInt8.toNat_sub_of_le _ _ large
  have least : Int64.minValue.toInt = -2 ^ 63 := rfl
  have greatest : Int64.maxValue.toInt = 2 ^ 63 - 1 := rfl
  rw [accumulate, value]
  cases negative with
  | false =>
      simp only [saturate, least, greatest, clamp, signed, Bool.false_eq_true, if_false]
      omega
  | true =>
      simp only [saturate, least, greatest, clamp, signed, if_true]
      omega

theorem foldl_accumulate (negative : Bool) {digits : Bytes}
    (isRow : ∀ byte ∈ digits, 48 ≤ byte ∧ byte ≤ 57) :
    digits.foldl (accumulate negative) 0 = clamp (signed negative (decimalValue digits)) := by
  induction digits using List.reverseRecOn with
  | nil => cases negative <;> rfl
  | append_singleton before last inductionHypothesis =>
      have earlier := inductionHypothesis fun byte member =>
        isRow byte (List.mem_append_left _ member)
      have large := (isRow last (List.mem_append_right _ List.mem_cons_self)).1
      rw [List.foldl_append, earlier, List.foldl_cons, List.foldl_nil,
        accumulate_clamp negative _ large, decimalValue_concat]

/-! ## The beginning that is read -/

/-- The sign at the start of the bytes. -/
def signOf : Bytes → Bytes
  | 45 :: _ => [45]
  | 43 :: _ => [43]
  | _ => []

/-- The bytes that the reader looks at: blanks, a sign, and digits. -/
def leadingText (bytes : Bytes) : Bytes :=
  let rest := bytes.dropWhile isBlank
  bytes.takeWhile isBlank ++ signOf rest ++ (splitSign rest).2.takeWhile isDigit

/-- The number that these bytes denote. -/
def leadingValue (bytes : Bytes) : Int :=
  let (negative, rest) := splitSign (bytes.dropWhile isBlank)
  signed negative (decimalValue (rest.takeWhile isDigit))

theorem splitSign_of_ne {byte : UInt8} (notMinus : byte ≠ 45) (notPlus : byte ≠ 43) (rest : Bytes) :
    splitSign (byte :: rest) = (false, byte :: rest) ∧ signOf (byte :: rest) = [] := by
  unfold splitSign signOf
  constructor <;> split <;> simp_all

theorem signText_signOf (bytes : Bytes) :
    SignText (signOf bytes) (splitSign bytes).1 ∧ signOf bytes ++ (splitSign bytes).2 = bytes := by
  cases bytes with
  | nil => exact ⟨.none, rfl⟩
  | cons byte rest =>
      by_cases minus : byte = 45
      · subst minus
        exact ⟨.minus, rfl⟩
      by_cases plus : byte = 43
      · subst plus
        exact ⟨.plus, rfl⟩
      rcases splitSign_of_ne minus plus rest with ⟨split, unsigned⟩
      rw [split, unsigned]
      exact ⟨.none, rfl⟩

theorem isRow_takeWhile (bytes : Bytes) :
    ∀ byte ∈ bytes.takeWhile isDigit, 48 ≤ byte ∧ byte ≤ 57 :=
  fun _ member => (isDigit_iff _).mp (List.mem_takeWhile_imp member)

theorem readLong_eq (bytes : Bytes) :
    readLong bytes = clamp (leadingValue bytes) :=
  foldl_accumulate _ (isRow_takeWhile _)

theorem numberText_leadingText (bytes : Bytes) :
    NumberText (leadingText bytes) (leadingValue bytes) :=
  .parts (fun _ member => (isBlank_iff _).mp (List.mem_takeWhile_imp member))
    (signText_signOf _).1 (isRow_takeWhile _)

theorem leadingText_begins (bytes : Bytes) :
    leadingText bytes <+: bytes := by
  refine ⟨(splitSign (bytes.dropWhile isBlank)).2.dropWhile isDigit, ?_⟩
  rw [leadingText, List.append_assoc, List.takeWhile_append_dropWhile, List.append_assoc,
    (signText_signOf _).2, List.takeWhile_append_dropWhile]

/-! ## The longest beginning -/

theorem not_isBlank_of_le {byte : UInt8} (large : 48 ≤ byte) :
    isBlank byte = false ∧ byte ≠ 45 ∧ byte ≠ 43 := by
  rw [UInt8.le_iff_toNat_le] at large
  rw [← Bool.not_eq_true, isBlank_iff]
  simp only [List.mem_cons, List.not_mem_nil, or_false, ne_eq, ← UInt8.toNat_inj]
  simp only [UInt8.reduceToNat] at large ⊢
  omega

section Scanning

variable {blanks sign digits text : Bytes} {negative : Bool} {number : Int}
  (isBlanks : ∀ byte ∈ blanks, byte ∈ [32, 9, 10, 13, 11, 12])
  (isSign : SignText sign negative) (isRow : ∀ byte ∈ digits, 48 ≤ byte ∧ byte ≤ 57)

include isSign isRow

/-- A sign and digits are looked at as they stand, unless there are none of either. -/
theorem splitSign_append (present : sign ++ digits ≠ []) (after : Bytes) :
    (sign ++ (digits ++ after)).dropWhile isBlank = sign ++ (digits ++ after) ∧
      (sign ++ (digits ++ after)).takeWhile isBlank = [] ∧
      splitSign (sign ++ (digits ++ after)) = (negative, digits ++ after) ∧
      signOf (sign ++ (digits ++ after)) = sign := by
  cases isSign with
  | plus => exact ⟨rfl, rfl, rfl, rfl⟩
  | minus => exact ⟨rfl, rfl, rfl, rfl⟩
  | none =>
      cases digits with
      | nil => exact absurd rfl present
      | cons digit rest =>
          rcases not_isBlank_of_le (isRow digit List.mem_cons_self).1 with ⟨solid, minus, plus⟩
          rcases splitSign_of_ne minus plus (rest ++ after) with ⟨split, unsigned⟩
          refine ⟨?_, ?_, split, unsigned⟩
          · rw [List.nil_append, List.cons_append, List.dropWhile_cons_of_neg (by simp [solid])]
          · rw [List.nil_append, List.cons_append, List.takeWhile_cons_of_neg (by simp [solid])]

include isBlanks

theorem leading_append (present : sign ++ digits ≠ []) (after : Bytes) :
    leadingText (blanks ++ sign ++ digits ++ after) =
        blanks ++ sign ++ digits ++ after.takeWhile isDigit ∧
      leadingValue (blanks ++ sign ++ digits ++ after) =
        signed negative (decimalValue (digits ++ after.takeWhile isDigit)) := by
  rcases splitSign_append isSign isRow present after with ⟨dropped, taken, split, sameSign⟩
  have blank : ∀ byte ∈ blanks, isBlank byte = true :=
    fun byte member => (isBlank_iff byte).mpr (isBlanks byte member)
  have digit : ∀ byte ∈ digits, isDigit byte = true :=
    fun byte member => (isDigit_iff byte).mpr (isRow byte member)
  have whole : blanks ++ sign ++ digits ++ after = blanks ++ (sign ++ (digits ++ after)) := by
    simp only [List.append_assoc]
  rw [leadingText, leadingValue, whole, List.dropWhile_append_of_pos blank,
    List.takeWhile_append_of_pos blank, dropped, taken, split, sameSign]
  dsimp only
  rw [List.takeWhile_append_of_pos digit, List.append_nil, List.append_assoc (blanks ++ sign)]
  exact ⟨rfl, rfl⟩

end Scanning

namespace NumberText

variable {text : Bytes} {number : Int}

/-- A text that denotes a number is read as that number, held within 64 bits. -/
theorem readLong_eq (denotes : NumberText text number) :
    readLong text = clamp number := by
  rw [Numeral.readLong_eq]
  cases denotes with
  | @parts blanks sign digits negative isBlanks isSign isRow =>
      by_cases present : sign ++ digits = []
      · rcases List.append_eq_nil_iff.mp present with ⟨rfl, rfl⟩
        cases isSign
        have blank : ∀ byte ∈ blanks, isBlank byte = true :=
          fun byte member => (isBlank_iff byte).mpr (isBlanks byte member)
        have none : blanks.dropWhile isBlank = [] := List.dropWhile_eq_nil_iff.mpr blank
        rw [List.append_nil, List.append_nil, leadingValue, none]
        rfl
      · have value := (leading_append isBlanks isSign isRow present []).2
        rw [List.takeWhile_nil, List.append_nil, List.append_nil] at value
        rw [value]

/-- No text that denotes a number reaches beyond the one that is read. -/
theorem begins_leadingText (denotes : NumberText text number) (after : Bytes) :
    text <+: leadingText (text ++ after) := by
  cases denotes with
  | @parts blanks sign digits negative isBlanks isSign isRow =>
      by_cases present : sign ++ digits = []
      · rcases List.append_eq_nil_iff.mp present with ⟨rfl, rfl⟩
        have blank : ∀ byte ∈ blanks, isBlank byte = true :=
          fun byte member => (isBlank_iff byte).mpr (isBlanks byte member)
        rw [List.append_nil, List.append_nil, leadingText, List.takeWhile_append_of_pos blank,
          List.append_assoc, List.append_assoc]
        exact List.prefix_append _ _
      · rw [(leading_append isBlanks isSign isRow present after).1]
        exact List.prefix_append _ _

end NumberText

theorem leadingNumber_leadingText (bytes : Bytes) :
    LeadingNumber bytes (leadingText bytes) (leadingValue bytes) where
  begins := leadingText_begins bytes
  denotes := numberText_leadingText bytes
  longest := by
    rintro other value ⟨after, rfl⟩ denotes
    exact (denotes.begins_leadingText after).length_le

theorem LeadingNumber.eq_leadingText {bytes text : Bytes} {number : Int}
    (leading : LeadingNumber bytes text number) :
    text = leadingText bytes := by
  have read := leadingNumber_leadingText bytes
  have sameLength : text.length = (leadingText bytes).length :=
    Nat.le_antisymm (read.longest _ _ leading.begins leading.denotes)
      (leading.longest _ _ read.begins read.denotes)
  exact (List.prefix_of_prefix_length_le leading.begins read.begins
    (Nat.le_of_eq sameLength)).eq_of_length sameLength

theorem LeadingNumber.readLong_eq {bytes text : Bytes} {number : Int}
    (leading : LeadingNumber bytes text number) :
    readLong bytes = clamp number := by
  rw [← leading.denotes.readLong_eq, leading.eq_leadingText,
    (numberText_leadingText bytes).readLong_eq, Numeral.readLong_eq]

/-- What is read at the start of the bytes is the number that their longest beginning of the form
denotes, and each such number is held within 64 bits once, in the end. -/
theorem readLong_clamped (bytes : Bytes) (value : Int) :
    readLong bytes = value ↔
      ∃ text number, LeadingNumber bytes text number ∧ clamp number = value := by
  constructor
  · rintro rfl
    exact ⟨_, _, leadingNumber_leadingText bytes, (readLong_eq bytes).symm⟩
  · rintro ⟨text, number, leading, rfl⟩
    exact leading.readLong_eq

/-- Twenty nines after a minus are held at the least number, and what follows them is not read. -/
example : readLong (32 :: 45 :: List.replicate 20 57 ++ [65, 49]) = -2 ^ 63 := by
  decide +kernel

end TagMachine.Numeral
