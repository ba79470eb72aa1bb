import TagMachine.Proofs.Code.Digits

/-!
# The operands that are read

An integer is read when it is a row of digits below `2 ^ 64`, which a plus sign may precede, and a
string when it stands between double quotes, whatever quotes there are inside, and each backslash
starts an escape.  The two characters of a hexadecimal escape are meant to be digits, but they are
read as a number too, so that a plus sign before a digit passes, and so does one digit at the end.
-/

namespace TagMachine

open OperandText Source

/-! ## Readers that may fail -/

theorem exists_of_bind_eq_ok {ε α β : Type} {first : Except ε α} {rest : α → Except ε β}
    {result : β} (read : first >>= rest = .ok result) :
    ∃ value, first = .ok value ∧ rest value = .ok result := by
  cases first with
  | error cause => cases read
  | ok value => exact ⟨value, rfl, read⟩

theorem exists_of_map_eq_ok {ε α β : Type} {first : Except ε α} {change : α → β} {result : β}
    (read : first.map change = .ok result) :
    ∃ value, first = .ok value ∧ change value = result := by
  cases first with
  | error cause => cases read
  | ok value => exact ⟨value, rfl, Except.ok.inj read⟩

theorem eq_ok_of_mapError {ε δ α : Type} {first : Except ε α} {change : ε → δ} {result : α}
    (read : first.mapError change = .ok result) :
    first = .ok result := by
  cases first with
  | error cause => cases read
  | ok value => exact congrArg Except.ok (Except.ok.inj read)

open Numeral (Denotes IsHexDigit)

/-! ## Integers -/

/-- The text is a row of digits that denotes the number.  Where it may, a plus sign precedes it. -/
inductive DigitsText (plus : Bool) (base : Nat) : List Char → Nat → Prop
  | bare {digits : List Char} {number : Nat} :
      digits ≠ [] → Denotes base digits number → DigitsText plus base digits number
  | signed {digits : List Char} {number : Nat} :
      plus = true → digits ≠ [] → Denotes base digits number →
      DigitsText plus base ('+' :: digits) number

/-- The text is a number, decimal, or hexadecimal after `0x` or `0X`. -/
inductive MagnitudeText (plus : Bool) : List Char → Nat → Prop
  | decimal {digits : List Char} {number : Nat} :
      DigitsText plus 10 digits number → MagnitudeText plus digits number
  | hexadecimal {mark : Char} {digits : List Char} {number : Nat} :
      mark = 'x' ∨ mark = 'X' → DigitsText plus 16 digits number →
      MagnitudeText plus ('0' :: mark :: digits) number

/-- The text is a number below `2 ^ 64`, or one behind a minus sign, which negates it modulo
`2 ^ 64`. -/
inductive IntegerOperand (plus : Bool) : List Char → UInt64 → Prop
  | plain {text : List Char} {number : Nat} :
      MagnitudeText plus text number → number < UInt64.size →
      IntegerOperand plus text (UInt64.ofNat number)
  | negated {text : List Char} {number : Nat} :
      MagnitudeText plus text number → number < UInt64.size →
      IntegerOperand plus ('-' :: text) (0 - UInt64.ofNat number)

section Integers

variable {base bound number : Nat} {text : List Char} {word : UInt64}

theorem DigitsText.mem_chars {plus : Bool} (spelled : DigitsText plus base text number) {char : Char}
    (member : char ∈ text) :
    (plus = true ∧ char = '+') ∨ ∃ row, Denotes base row number ∧ char ∈ row := by
  cases spelled with
  | bare _ denotes => exact Or.inr ⟨text, denotes, member⟩
  | signed allowed _ denotes =>
      rcases List.mem_cons.mp member with rfl | member
      · exact Or.inl ⟨allowed, rfl⟩
      · exact Or.inr ⟨_, denotes, member⟩

theorem DigitsText.mem_named {plus : Bool} (spelled : DigitsText plus base text number)
    (small : base ≤ 16) {char : Char} (member : char ∈ text) :
    (plus = true ∧ char = '+') ∨ isLabelChar char = true :=
  (spelled.mem_chars member).imp_right fun ⟨_, denotes, inRow⟩ => denotes.isLabelChar small inRow

theorem MagnitudeText.mem_chars {plus : Bool} (spelled : MagnitudeText plus text number) {char : Char}
    (member : char ∈ text) :
    (plus = true ∧ char = '+') ∨ isLabelChar char = true := by
  cases spelled with
  | decimal spelled => exact spelled.mem_named (by decide) member
  | hexadecimal mark spelled =>
      simp only [List.mem_cons] at member
      rcases member with rfl | rfl | member
      · exact Or.inr (by decide)
      · rcases mark with rfl | rfl
        · exact Or.inr (by decide)
        · exact Or.inr (by decide)
      · exact spelled.mem_named (by decide) member

theorem MagnitudeText.isLabelChar (spelled : MagnitudeText false text number) {char : Char}
    (member : char ∈ text) :
    isLabelChar char = true := by
  rcases spelled.mem_chars member with ⟨allowed, -⟩ | named
  · cases allowed
  · exact named

theorem DigitsText.not_mem_of_letter {plus : Bool} (spelled : DigitsText plus 10 text number)
    {letter : Char} (noSign : letter ≠ '+') (noDigit : letter.isDigit = false) :
    letter ∉ text := by
  intro member
  rcases spelled.mem_chars member with ⟨-, sign⟩ | ⟨row, denotes, inRow⟩
  · exact noSign sign
  · rw [denotes.isDigit inRow] at noDigit
    cases noDigit

theorem MagnitudeText.bare {plus : Bool} (spelled : MagnitudeText plus text number)
    (noPlus : '+' ∉ text) :
    MagnitudeText false text number := by
  have bareDigits {base : Nat} {digits : List Char} (spelled : DigitsText plus base digits number)
      (noPlus : '+' ∉ digits) : DigitsText false base digits number := by
    cases spelled with
    | bare nonempty denotes => exact .bare nonempty denotes
    | signed => exact absurd List.mem_cons_self noPlus
  cases spelled with
  | decimal spelled => exact .decimal (bareDigits spelled noPlus)
  | hexadecimal mark spelled =>
      refine .hexadecimal mark (bareDigits spelled fun member => noPlus ?_)
      exact List.mem_cons_of_mem _ (List.mem_cons_of_mem _ member)

/-- A row of digits that is not empty, read as a number below the bound. -/
theorem digitsRead_eq_some_iff (small : base ≤ 16) :
    (do if text.isEmpty then none
        let value ← digitsValue? base 0 text
        if value < bound then some value else none : Option Nat) = some number ↔
      text ≠ [] ∧ Denotes base text number ∧ number < bound := by
  cases text with
  | nil => simp
  | cons first rest =>
      simp only [List.isEmpty_cons, Bool.false_eq_true, if_false, Option.bind_eq_bind,
        Option.bind_eq_some_iff, Option.ite_none_right_eq_some, Option.some.injEq]
      constructor
      · rintro ⟨value, read, inBound, rfl⟩
        exact ⟨List.cons_ne_nil _ _, Numeral.denotes_of_digitsValue? small read, inBound⟩
      · rintro ⟨-, denotes, inBound⟩
        exact ⟨number, denotes.digitsValue?_eq small, inBound, rfl⟩

theorem unsigned?_eq_some_iff (small : base ≤ 16) :
    unsigned? base bound text = some number ↔
      DigitsText true base text number ∧ number < bound := by
  constructor
  · intro read
    unfold unsigned? at read
    split at read
    · rcases (digitsRead_eq_some_iff small).mp read with ⟨nonempty, denotes, inBound⟩
      exact ⟨.signed rfl nonempty denotes, inBound⟩
    · rcases (digitsRead_eq_some_iff small).mp read with ⟨nonempty, denotes, inBound⟩
      exact ⟨.bare nonempty denotes, inBound⟩
  · rintro ⟨spelled, inBound⟩
    cases spelled with
    | bare nonempty denotes => exact denotes.unsigned?_eq small nonempty inBound
    | signed _ nonempty denotes =>
        exact (digitsRead_eq_some_iff small).mpr ⟨nonempty, denotes, inBound⟩

theorem magnitude?_eq_some_iff :
    magnitude? text = some number ↔ MagnitudeText true text number ∧ number < UInt64.size := by
  constructor
  · intro read
    unfold magnitude? at read
    split at read
    · rcases (unsigned?_eq_some_iff (by decide)).mp read with ⟨spelled, inBound⟩
      exact ⟨.hexadecimal (Or.inl rfl) spelled, inBound⟩
    · rcases (unsigned?_eq_some_iff (by decide)).mp read with ⟨spelled, inBound⟩
      exact ⟨.hexadecimal (Or.inr rfl) spelled, inBound⟩
    · rcases (unsigned?_eq_some_iff (by decide)).mp read with ⟨spelled, inBound⟩
      exact ⟨.decimal spelled, inBound⟩
  · rintro ⟨spelled, inBound⟩
    cases spelled with
    | hexadecimal mark spelled =>
        rcases mark with rfl | rfl
        · exact (unsigned?_eq_some_iff (by decide)).mpr ⟨spelled, inBound⟩
        · exact (unsigned?_eq_some_iff (by decide)).mpr ⟨spelled, inBound⟩
    | decimal spelled =>
        unfold magnitude?
        split
        · exact absurd (List.mem_cons_of_mem _ List.mem_cons_self)
            (spelled.not_mem_of_letter (by decide) (by decide : Char.isDigit 'x' = false))
        · exact absurd (List.mem_cons_of_mem _ List.mem_cons_self)
            (spelled.not_mem_of_letter (by decide) (by decide : Char.isDigit 'X' = false))
        · exact (unsigned?_eq_some_iff (by decide)).mpr ⟨spelled, inBound⟩

theorem integer?_eq_some_iff :
    integer? text = some word ↔ IntegerOperand true text word := by
  constructor
  · intro read
    unfold integer? at read
    split at read
    · rcases Option.map_eq_some_iff.mp read with ⟨number, magnitude, rfl⟩
      rcases magnitude?_eq_some_iff.mp magnitude with ⟨spelled, inBound⟩
      exact .negated spelled inBound
    · rcases Option.map_eq_some_iff.mp read with ⟨number, magnitude, rfl⟩
      rcases magnitude?_eq_some_iff.mp magnitude with ⟨spelled, inBound⟩
      exact .plain spelled inBound
  · intro spelled
    cases spelled with
    | negated spelled inBound =>
        rw [integer?, magnitude?_eq_some_iff.mpr ⟨spelled, inBound⟩]
        rfl
    | plain spelled inBound =>
        unfold integer?
        split
        · rcases spelled.mem_chars List.mem_cons_self with ⟨-, sign⟩ | named
          · cases sign
          · cases named
        · rw [magnitude?_eq_some_iff.mpr ⟨spelled, inBound⟩]
          rfl

theorem IntegerOperand.plus_not_mem (spelled : IntegerOperand false text word) :
    '+' ∉ text := by
  have noSign {digits : List Char} {number : Nat} (spelled : MagnitudeText false digits number) :
      '+' ∉ digits := by
    intro member
    cases spelled.isLabelChar member
  cases spelled with
  | plain spelled _ => exact noSign spelled
  | negated spelled _ =>
      intro member
      exact noSign spelled (List.mem_of_ne_of_mem (by decide) member)

theorem readInteger_eq_ok_iff :
    readInteger text = .ok word ↔ IntegerOperand true text word := by
  rw [← integer?_eq_some_iff, readInteger]
  cases integer? text with
  | none => simp
  | some read => simp

end Integers

/-! ## Byte strings -/

/-- The characters that stand for a byte behind a backslash. -/
def escapes : List (Char × UInt8) :=
  [('n', 10), ('t', 9), ('0', 0), ('\\', 92), ('"', 34)]

/-- The text is a character that stands for itself, or an escape.  A quote stands for itself where it
may, a backslash never does. -/
inductive PieceText (quotes : Bool) : List Char → Bytes → Prop
  | plain {char : Char} :
      char ≠ '\\' → (char = '"' → quotes = true) →
      PieceText quotes [char] (String.utf8EncodeChar char)
  | escape {char : Char} {byte : UInt8} :
      (char, byte) ∈ escapes → PieceText quotes ['\\', char] [byte]
  | hexadecimal {high low : Char} {byte : UInt8} :
      Denotes 16 [high, low] byte.toNat → PieceText quotes ['\\', 'x', high, low] [byte]

/-- The text is a row of characters and escapes that denotes the bytes. -/
inductive BodyText (quotes : Bool) : List Char → Bytes → Prop
  | nil : BodyText quotes [] []
  | cons {piece rest : List Char} {front bytes : Bytes} :
      PieceText quotes piece front → BodyText quotes rest bytes →
      BodyText quotes (piece ++ rest) (front ++ bytes)

/-- The text is a row of characters and escapes between double quotes. -/
def StringOperand (quotes : Bool) (text : List Char) (bytes : Bytes) : Prop :=
  ∃ body, text = '"' :: body ++ ['"'] ∧ BodyText quotes body bytes

/-- The text starts with a hexadecimal escape that one digit is left for, or a sign and a digit. -/
inductive LooseEscape : List Char → Prop
  | last {digit : Char} : IsHexDigit digit → LooseEscape ['\\', 'x', digit]
  | signed {digit : Char} {rest : List Char} :
      IsHexDigit digit → LooseEscape ('\\' :: 'x' :: '+' :: digit :: rest)

/-- The text is a row of characters and escapes up to a loose escape. -/
def LooseBody (body : List Char) : Prop :=
  ∃ before after bytes, body = before ++ after ∧ BodyText true before bytes ∧ LooseEscape after

/-- The text is a string between double quotes up to a loose escape. -/
def LooseString (text : List Char) : Prop :=
  ∃ body, text = '"' :: body ++ ['"'] ∧ LooseBody body

section Strings

variable {piece body text : List Char} {front bytes : Bytes}

theorem readEscape_eq_ok_iff {char : Char} {byte : UInt8} :
    readEscape char = .ok byte ↔ (char, byte) ∈ escapes := by
  unfold readEscape
  split
  all_goals simp_all [escapes, eq_comm]

theorem PieceText.unescape_append (spelled : PieceText true piece front) (rest : List Char) :
    unescape (piece ++ rest) = (unescape rest).map (front ++ ·) := by
  cases spelled with
  | plain notBackslash =>
      rw [List.singleton_append, unescape]
      · cases unescape rest <;> rfl
      all_goals simp [notBackslash]
  | @escape char _ escape =>
      have notX : char ≠ 'x' := by
        rintro rfl
        simp [escapes] at escape
      simp only [List.cons_append, List.nil_append]
      rw [unescape, readEscape_eq_ok_iff.mpr escape]
      · cases unescape rest <;> rfl
      all_goals simp [notX]
  | hexadecimal denotes =>
      have read : unsigned? 16 256 _ = some _ :=
        denotes.unsigned?_eq (by decide) (by simp) (UInt8.toNat_lt _)
      simp only [List.cons_append, List.nil_append, unescape, readHexByte, read, UInt8.ofNat_toNat]
      cases unescape rest <;> rfl

theorem BodyText.unescape_eq (spelled : BodyText true body bytes) :
    unescape body = .ok bytes := by
  induction spelled with
  | nil => rfl
  | cons first _ inductionHypothesis =>
      rw [first.unescape_append, inductionHypothesis]
      rfl

theorem LooseBody.cons (spelled : PieceText true piece front) (loose : LooseBody body) :
    LooseBody (piece ++ body) := by
  rcases loose with ⟨before, after, bytes, rfl, wellFormed, loose⟩
  exact ⟨piece ++ before, after, front ++ bytes, (List.append_assoc _ _ _).symm,
    .cons spelled wellFormed, loose⟩

theorem LooseEscape.looseBody (loose : LooseEscape body) : LooseBody body :=
  ⟨[], body, [], rfl, .nil, loose⟩

/-- The characters of an escape are read as any number is, behind a plus sign too. -/
theorem readHexByte_eq_ok {digits : List Char} {byte : UInt8} (read : readHexByte digits = .ok byte) :
    DigitsText true 16 digits byte.toNat := by
  unfold readHexByte at read
  split at read
  · rename_i value number
    obtain rfl := Except.ok.inj read
    rcases (unsigned?_eq_some_iff (by decide)).mp number with ⟨spelled, inBound⟩
    rwa [UInt8.toNat_ofNat_of_lt' inBound]
  · cases read

/-- The walk over a body goes on behind each piece, until it comes to the end or to a loose escape. -/
theorem bodyText_or_looseBody (read : unescape body = .ok bytes) :
    BodyText true body bytes ∨ LooseBody body := by
  have onward {piece rest : List Char} {front after : Bytes} (spelled : PieceText true piece front)
      (others : BodyText true rest after ∨ LooseBody rest) :
      BodyText true (piece ++ rest) (front ++ after) ∨ LooseBody (piece ++ rest) :=
    others.imp (.cons spelled) (.cons spelled)
  fun_induction unescape body generalizing bytes with
  | case1 =>
      obtain rfl := Except.ok.inj read
      exact Or.inl .nil
  | case2 high low rest inductionHypothesis =>
      rcases exists_of_bind_eq_ok read with ⟨byte, isByte, read⟩
      rcases exists_of_bind_eq_ok read with ⟨after, readRest, result⟩
      obtain rfl := Except.ok.inj result
      cases readHexByte_eq_ok isByte with
      | bare _ denotes => exact onward (.hexadecimal denotes) (inductionHypothesis readRest)
      | signed _ _ denotes =>
          rcases denotes.exists_digit List.mem_cons_self with ⟨digit, isDigit⟩
          exact Or.inr (LooseEscape.signed ⟨digit, isDigit⟩).looseBody
  | case3 digits short =>
      rcases exists_of_bind_eq_ok read with ⟨byte, isByte, -⟩
      cases readHexByte_eq_ok isByte with
      | bare nonempty denotes =>
          rcases List.exists_cons_of_ne_nil nonempty with ⟨first, rest, rfl⟩
          cases rest with
          | nil =>
              rcases denotes.exists_digit List.mem_cons_self with ⟨digit, isDigit⟩
              exact Or.inr (LooseEscape.last ⟨digit, isDigit⟩).looseBody
          | cons second rest => exact (short first second rest rfl).elim
      | signed _ nonempty _ =>
          rcases List.exists_cons_of_ne_nil nonempty with ⟨second, rest, rfl⟩
          exact (short '+' second rest rfl).elim
  | case4 char rest _ _ inductionHypothesis =>
      rcases exists_of_bind_eq_ok read with ⟨byte, isByte, read⟩
      rcases exists_of_bind_eq_ok read with ⟨after, readRest, result⟩
      obtain rfl := Except.ok.inj result
      exact onward (.escape (readEscape_eq_ok_iff.mp isByte)) (inductionHypothesis readRest)
  | case5 => cases read
  | case6 char rest _ _ escaped alone inductionHypothesis =>
      rcases exists_of_bind_eq_ok read with ⟨after, readRest, result⟩
      obtain rfl := Except.ok.inj result
      have notBackslash : char ≠ '\\' := by
        rintro rfl
        cases rest with
        | nil => exact alone rfl rfl
        | cons second rest => exact escaped second rest rfl rfl
      exact onward (.plain notBackslash fun _ => rfl) (inductionHypothesis readRest)

theorem OperandText.readString_quoted (inner : List Char) :
    readString ('"' :: inner ++ ['"']) = unescape inner := by
  have found : quoted? ('"' :: inner ++ ['"']) = some inner := by
    simp [quoted?]
  rw [readString, found]

theorem eq_of_quoted? {inner : List Char} (found : quoted? text = some inner) :
    text = '"' :: inner ++ ['"'] := by
  unfold quoted? at found
  split at found
  · rename_i rest
    split at found
    · rename_i closed
      obtain rfl := Option.some.inj found
      rw [List.cons_append, List.dropLast_append_getLast? _ closed]
    · cases found
  · cases found

theorem readString_of_stringOperand (spelled : StringOperand true text bytes) :
    readString text = .ok bytes := by
  rcases spelled with ⟨body, rfl, spelled⟩
  rw [readString_quoted]
  exact spelled.unescape_eq

theorem stringOperand_or_looseString (read : readString text = .ok bytes) :
    StringOperand true text bytes ∨ LooseString text := by
  unfold readString at read
  split at read
  · rename_i inner found
    exact (bodyText_or_looseBody read).imp (fun spelled => ⟨inner, eq_of_quoted? found, spelled⟩)
      (fun loose => ⟨inner, eq_of_quoted? found, loose⟩)
  · cases read

/-- A character other than a backslash stands for itself. -/
theorem BodyText.of_cons {quotes : Bool} {char : Char} {rest : List Char}
    (spelled : BodyText quotes (char :: rest) bytes) (notBackslash : char ≠ '\\') :
    (char = '"' → quotes = true) ∧ ∃ others, BodyText quotes rest others := by
  generalize whole : char :: rest = body at spelled
  cases spelled with
  | nil => cases whole
  | cons first others =>
      cases first with
      | plain _ allowed =>
          obtain ⟨rfl, rfl⟩ := List.cons.inj whole
          exact ⟨allowed, _, others⟩
      | escape | hexadecimal => exact absurd (List.cons.inj whole).1 notBackslash

end Strings

/-- The integers that are read are the numbers of 64 bits, negated or not, and the strings that are
read are the rows of characters and escapes between double quotes.  Only what follows a loose escape
may be read as well. -/
theorem OperandText.reads_operands (text : List Char) :
    (∀ word, readInteger text = .ok word ↔ IntegerOperand true text word) ∧
      (∀ bytes, StringOperand true text bytes → readString text = .ok bytes) ∧
      ∀ bytes, readString text = .ok bytes → StringOperand true text bytes ∨ LooseString text :=
  ⟨fun _ => readInteger_eq_ok_iff, fun _ => readString_of_stringOperand,
    fun _ => stringOperand_or_looseString⟩

/-- A string with a quote inside and a hexadecimal escape. -/
theorem OperandText.reads_operands_quote :
    let text := ['"', 'a', '"', '\\', 'x', '4', 'B', '"']
    StringOperand true text [97, 34, 75] ∧ readString text = .ok [97, 34, 75] := by
  intro text
  have spelled : StringOperand true text [97, 34, 75] := by
    have itself (char : Char) (ordinary : char ≠ '\\') :
        PieceText true [char] (String.utf8EncodeChar char) :=
      .plain ordinary fun _ => rfl
    have four : Numeral.IsDigitOf 16 4 '4' := ⟨by decide, by decide⟩
    have eleven : Numeral.IsDigitOf 16 11 'B' := ⟨by decide, by decide⟩
    have digits : Denotes 16 ['4', 'B'] (UInt8.toNat 75) := (Denotes.nil.snoc four).snoc eleven
    exact ⟨['a', '"', '\\', 'x', '4', 'B'], rfl,
      .cons (itself 'a' (by decide)) (.cons (itself '"' (by decide))
        (.cons (.hexadecimal digits) .nil))⟩
  exact ⟨spelled, (OperandText.reads_operands text).2.1 _ spelled⟩

/-- An integer behind a plus sign is read, and so is a string with a bare quote inside. -/
theorem OperandText.reads_operands_lenient :
    (readInteger ['+', '5'] = .ok 5 ∧ ∀ word, ¬IntegerOperand false ['+', '5'] word) ∧
      readString ['"', 'a', '"', 'b', '"'] = .ok [97, 34, 98] ∧
        ∀ bytes, ¬StringOperand false ['"', 'a', '"', 'b', '"'] bytes := by
  refine ⟨⟨by decide, fun _ spelled => spelled.plus_not_mem (by decide)⟩, by decide, ?_⟩
  rintro bytes ⟨body, quoted, spelled⟩
  obtain rfl : body = ['a', '"', 'b'] := by
    simpa using (List.append_cancel_right (List.cons.inj quoted).2 :
      ['a', '"', 'b'] = body).symm
  rcases spelled.of_cons (by decide) with ⟨-, _, others⟩
  cases (others.of_cons (by decide)).1 rfl

end TagMachine
