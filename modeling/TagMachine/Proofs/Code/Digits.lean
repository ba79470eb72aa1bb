import Mathlib.Algebra.Group.Nat.Defs
import Mathlib.Data.List.Induction
import TagMachine.Proofs.Code.Cutting

/-!
# Rows of digits

A number is written as a row of digits, with leading zeros and letters of either case.  The rows that
denote a number are those that are read as the number, in each base up to 16, and the machine itself
writes such rows.
-/

namespace TagMachine

open OperandText Source

/-! ## Characters of names -/

theorem ne_of_isLabelChar {char other : Char} (name : isLabelChar char = true)
    (outside : isLabelChar other = false) :
    char ≠ other := by
  rintro rfl
  rw [name] at outside
  cases outside

theorem isBlank_of_isLabelChar {char : Char} (name : isLabelChar char = true) :
    Text.isBlank char = false := by
  have code : 48 ≤ char.toNat ∧ char.toNat ≤ 122 := by
    delta isLabelChar Char.isAlphanum Char.isAlpha Char.isUpper Char.isLower at name
    simp only [Char.isDigit, Bool.or_eq_true, Bool.and_eq_true, decide_eq_true_eq, beq_iff_eq,
      UInt32.le_iff_toNat_le] at name
    simp only [Char.toNat]
    rcases name with ((⟨lower, upper⟩ | ⟨lower, upper⟩) | ⟨lower, upper⟩) | rfl
    · exact ⟨Nat.le_trans (by decide) lower, Nat.le_trans upper (by decide)⟩
    · exact ⟨Nat.le_trans (by decide) lower, Nat.le_trans upper (by decide)⟩
    · exact ⟨lower, Nat.le_trans upper (by decide)⟩
    · decide
  simp only [Text.isBlank, Bool.or_eq_false_iff, Bool.and_eq_false_imp, decide_eq_true_eq,
    decide_eq_false_iff_not, beq_eq_false_iff_ne]
  omega

/-! ## Numbers -/

namespace Numeral

/-- The character is the digit of the given value; letters count from ten, in either case. -/
def IsDigitOf (base digit : Nat) (char : Char) : Prop :=
  digit < base ∧ (char = Nat.digitChar digit ∨ char = (Nat.digitChar digit).toUpper)

/-- The character is a hexadecimal digit. -/
def IsHexDigit (char : Char) : Prop :=
  ∃ digit, IsDigitOf 16 digit char

/-- The row of digits denotes the number. No digits denote zero. -/
inductive Denotes (base : Nat) : List Char → Nat → Prop
  | nil : Denotes base [] 0
  | snoc {chars : List Char} {number digit : Nat} {char : Char} :
      Denotes base chars number → IsDigitOf base digit char →
      Denotes base (chars ++ [char]) (number * base + digit)

section Digits

variable {base number digit : Nat} {char : Char} {chars : List Char}

private theorem digitChar_facts : ∀ digit : Fin 16, ∀ char : Char,
    char = Nat.digitChar digit ∨ char = (Nat.digitChar digit).toUpper →
      digitValue? 16 char = some digit.val ∧ isLabelChar char = true ∧
        (digit.val < 10 → char.isDigit = true) := by
  intro digit char spelled
  rcases spelled with rfl | rfl <;> revert digit <;> decide

private theorem IsDigitOf.facts (isDigit : IsDigitOf base digit char) (small : base ≤ 16) :
    digitValue? 16 char = some digit ∧ isLabelChar char = true ∧
      (digit < 10 → char.isDigit = true) :=
  digitChar_facts ⟨digit, Nat.lt_of_lt_of_le isDigit.1 small⟩ char isDigit.2

theorem digitValue?_eq (isDigit : IsDigitOf base digit char) (small : base ≤ 16) :
    digitValue? base char = some digit := by
  have read := (isDigit.facts small).1
  simp only [digitValue?, Option.filter_eq_some_iff, decide_eq_true_eq] at read ⊢
  exact ⟨read.1, isDigit.1⟩

theorem digitsValue?_append (before after : List Char) (value : Nat) :
    digitsValue? base value (before ++ after) =
      (digitsValue? base value before).bind fun between => digitsValue? base between after := by
  induction before generalizing value with
  | nil => rfl
  | cons first before inductionHypothesis =>
      rw [List.cons_append, digitsValue?, digitsValue?]
      cases digitValue? base first with
      | none => rfl
      | some digit => exact inductionHypothesis (value * base + digit)

namespace Denotes

theorem digitsValue?_eq (denotes : Denotes base chars number) (small : base ≤ 16) :
    digitsValue? base 0 chars = some number := by
  induction denotes with
  | nil => rfl
  | snoc _ isDigit inductionHypothesis =>
      rw [digitsValue?_append, inductionHypothesis, Option.bind_some, digitsValue?,
        digitValue?_eq isDigit small]
      rfl

theorem unique {other : Nat} (denotes : Denotes base chars number)
    (denotesOther : Denotes base chars other) (small : base ≤ 16) :
    number = other := by
  have read := denotes.digitsValue?_eq small
  rw [denotesOther.digitsValue?_eq small] at read
  exact (Option.some.inj read).symm

theorem exists_digit (denotes : Denotes base chars number) (member : char ∈ chars) :
    ∃ digit, IsDigitOf base digit char := by
  induction denotes with
  | nil => cases member
  | snoc _ isDigit inductionHypothesis =>
      rcases List.mem_append.mp member with earlier | last
      · exact inductionHypothesis earlier
      · rw [List.mem_singleton] at last
        exact ⟨_, last ▸ isDigit⟩

theorem isLabelChar (denotes : Denotes base chars number) (small : base ≤ 16)
    (member : char ∈ chars) :
    isLabelChar char = true := by
  rcases denotes.exists_digit member with ⟨digit, isDigit⟩
  exact (isDigit.facts small).2.1

theorem isDigit (denotes : Denotes 10 chars number) (member : char ∈ chars) :
    char.isDigit = true := by
  rcases denotes.exists_digit member with ⟨digit, isDigit⟩
  exact (isDigit.facts (by decide)).2.2 isDigit.1

theorem unsigned?_eq {bound : Nat} (denotes : Denotes base chars number) (small : base ≤ 16)
    (nonempty : chars ≠ []) (inBound : number < bound) :
    unsigned? base bound chars = some number := by
  have read := denotes.digitsValue?_eq small
  cases chars with
  | nil => exact absurd rfl nonempty
  | cons first rest =>
      have noSign : first ≠ '+' :=
        ne_of_isLabelChar (denotes.isLabelChar small List.mem_cons_self) (by decide)
      unfold unsigned?
      split
      · rename_i signed
        exact absurd (List.cons.inj signed).1 noSign
      · simp [read, inBound]

/-! Rows that the machine writes itself. -/

theorem zero_cons (denotes : Denotes base chars number) (positive : 0 < base) :
    Denotes base ('0' :: chars) number := by
  induction denotes with
  | nil =>
      have single : Denotes base ([] ++ ['0']) (0 * base + 0) := nil.snoc ⟨positive, Or.inl rfl⟩
      simpa using single
  | snoc _ isDigit inductionHypothesis => exact inductionHypothesis.snoc isDigit

theorem text (large : 2 ≤ base) (number : Nat) :
    Denotes base (Numeral.text base number) number := by
  rw [Numeral.text]
  induction number using digits.induct base with
  | case1 number small =>
      have single : Denotes base ([] ++ [Nat.digitChar number]) (0 * base + number) :=
        nil.snoc ⟨by omega, Or.inl rfl⟩
      rw [digits, if_pos small]
      simpa using single
  | case2 number notSmall inductionHypothesis =>
      have longer := inductionHypothesis.snoc
        (⟨Nat.mod_lt number (by omega), Or.inl rfl⟩ :
          IsDigitOf base (number % base) (Nat.digitChar (number % base)))
      rw [Nat.div_add_mod'] at longer
      rw [digits, if_neg notSmall, List.map_append]
      exact longer

theorem padded (denotes : Denotes base chars number) (positive : 0 < base) (width : Nat) :
    Denotes base (Numeral.padded width chars) number := by
  rw [Numeral.padded]
  induction width - chars.length with
  | zero => exact denotes
  | succ count inductionHypothesis => exact inductionHypothesis.zero_cons positive

end Denotes

/-! Rows that are read. -/

private theorem spelled_of_code : ∀ code : Fin 128, ∀ digit ∈ digitValue? 16 (Char.ofNat code),
    Char.ofNat code = Nat.digitChar digit ∨ Char.ofNat code = (Nat.digitChar digit).toUpper := by
  decide

theorem isDigitOf_of_digitValue? (small : base ≤ 16) (read : digitValue? base char = some digit) :
    IsDigitOf base digit char := by
  simp only [digitValue?, Option.filter_eq_some_iff, decide_eq_true_eq] at read
  have coded : digitValue? 16 char = some digit := by
    simp only [digitValue?, Option.filter_eq_some_iff, decide_eq_true_eq]
    exact ⟨read.1, Nat.lt_of_lt_of_le read.2 small⟩
  have ascii : char.toNat < 128 := by
    have ranged := read.1
    split_ifs at ranged
    all_goals omega
  have spelled := spelled_of_code ⟨char.toNat, ascii⟩
  rw [Char.ofNat_toNat] at spelled
  exact ⟨read.2, spelled digit coded⟩

theorem denotes_of_digitsValue? (small : base ≤ 16)
    (read : digitsValue? base 0 chars = some number) :
    Denotes base chars number := by
  induction chars using List.reverseRecOn generalizing number with
  | nil =>
      obtain rfl := Option.some.inj read
      exact .nil
  | append_singleton before last inductionHypothesis =>
      rw [digitsValue?_append, Option.bind_eq_some_iff] at read
      rcases read with ⟨between, readBefore, readLast⟩
      rw [digitsValue?, Option.bind_eq_bind, Option.bind_eq_some_iff] at readLast
      rcases readLast with ⟨digit, isDigit, total⟩
      obtain rfl := Option.some.inj total
      exact (inductionHypothesis readBefore).snoc (isDigitOf_of_digitValue? small isDigit)

theorem text_ne_nil (base number : Nat) :
    text base number ≠ [] := by
  rw [text, digits]
  split <;> simp

theorem padded_ne_nil {width : Nat} {chars : List Char} (nonempty : chars ≠ []) :
    padded width chars ≠ [] := by
  simp [padded, nonempty]

end Digits

end Numeral

end TagMachine
