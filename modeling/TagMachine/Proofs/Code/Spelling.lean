import TagMachine.Proofs.Code.Grammar

/-!
# How operands are spelled

A number is spelled as a row of digits, decimal or, after `0x`, hexadecimal, with leading zeros and
letters of either case; an integer may be negated.  A byte of a literal stands for itself or is
spelled by an escape.  Each spelling is a relation between a text and what it denotes, and is an
operand of the grammar, so that what it denotes is what is read from it.
-/

namespace TagMachine

open OperandText Source

open Numeral (Denotes)

/-! ## Integers -/

/-- The text spells the number: decimal digits, or `0x` and hexadecimal digits. -/
inductive NumberText : List Char → Nat → Prop
  | decimal {digits : List Char} {number : Nat} :
      digits ≠ [] → Denotes 10 digits number → NumberText digits number
  | hexadecimal {digits : List Char} {number : Nat} :
      digits ≠ [] → Denotes 16 digits number → NumberText ('0' :: 'x' :: digits) number

/-- The text spells the word: a number of 64 bits, or one that is negated modulo `2 ^ 64`. -/
inductive IntegerText : List Char → UInt64 → Prop
  | plain {text : List Char} {number : Nat} :
      NumberText text number → number < UInt64.size → IntegerText text (UInt64.ofNat number)
  | negated {text : List Char} {number : Nat} :
      NumberText text number → number < UInt64.size →
      IntegerText ('-' :: text) (0 - UInt64.ofNat number)

namespace NumberText

variable {text : List Char} {number : Nat}

theorem magnitudeText (spells : NumberText text number) (plus : Bool) :
    MagnitudeText plus text number := by
  cases spells with
  | decimal nonempty denotes => exact .decimal (.bare nonempty denotes)
  | hexadecimal nonempty denotes => exact .hexadecimal (Or.inl rfl) (.bare nonempty denotes)

/-- A number starts with a digit, and all of it could stand in a name. -/
theorem cons_digit (spells : NumberText text number) :
    ∃ first rest, text = first :: rest ∧ first.isDigit = true ∧
      ∀ char ∈ text, isLabelChar char = true := by
  have named : ∀ char ∈ text, isLabelChar char = true :=
    fun char member => (spells.magnitudeText false).isLabelChar member
  cases spells with
  | decimal nonempty denotes =>
      rcases List.exists_cons_of_ne_nil nonempty with ⟨first, rest, rfl⟩
      exact ⟨first, rest, rfl, denotes.isDigit List.mem_cons_self, named⟩
  | @hexadecimal digits _ _ _ => exact ⟨'0', 'x' :: digits, rfl, by decide, named⟩

end NumberText

namespace IntegerText

variable {text : List Char} {word : UInt64}

theorem integerOperand (spells : IntegerText text word) (plus : Bool) :
    IntegerOperand plus text word := by
  cases spells with
  | plain spelled small => exact .plain (spelled.magnitudeText plus) small
  | negated spelled small => exact .negated (spelled.magnitudeText plus) small

theorem readInteger_eq (spells : IntegerText text word) :
    readInteger text = .ok word :=
  readInteger_eq_ok_iff.mpr (spells.integerOperand true)

/-- An integer consists of the characters of names, apart from its sign. -/
theorem mem_chars (spells : IntegerText text word) {char : Char} (member : char ∈ text) :
    char = '-' ∨ isLabelChar char = true := by
  cases spells with
  | plain spelled _ =>
      rcases spelled.cons_digit with ⟨_, _, _, _, named⟩
      exact Or.inr (named char member)
  | negated spelled _ =>
      rcases spelled.cons_digit with ⟨_, _, _, _, named⟩
      exact (List.mem_cons.mp member).imp_right (named char)

theorem ne_nil (spells : IntegerText text word) :
    text ≠ [] := by
  cases spells with
  | plain spelled _ =>
      rcases spelled.cons_digit with ⟨_, _, rfl, _⟩
      exact List.cons_ne_nil _ _
  | negated _ _ => exact List.cons_ne_nil _ _

end IntegerText

/-! ## Literals -/

/-- The text spells the byte between double quotes: itself, if it is printable and neither a quote
nor a backslash, or an escape. -/
inductive ByteText : List Char → UInt8 → Prop
  | plain {byte : UInt8} :
      32 ≤ byte.toNat → byte.toNat ≤ 126 → byte ≠ 34 → byte ≠ 92 →
      ByteText [Char.ofNat byte.toNat] byte
  | quote : ByteText ['\\', '"'] 34
  | backslash : ByteText ['\\', '\\'] 92
  | newline : ByteText ['\\', 'n'] 10
  | tab : ByteText ['\\', 't'] 9
  | hexadecimal {high low : Char} {byte : UInt8} :
      Denotes 16 [high, low] byte.toNat → ByteText ['\\', 'x', high, low] byte

/-- The text spells the bytes between double quotes, one after another. -/
inductive LiteralText : List Char → Bytes → Prop
  | nil : LiteralText [] []
  | cons {first rest : List Char} {byte : UInt8} {bytes : Bytes} :
      ByteText first byte → LiteralText rest bytes →
      LiteralText (first ++ rest) (byte :: bytes)

namespace ByteText

variable {text : List Char} {byte : UInt8}

private theorem printable_facts : ∀ code : Fin 127, 32 ≤ code.val → code.val ≠ 34 →
    code.val ≠ 92 → ∀ char : Char, char = Char.ofNat code.val →
      String.utf8EncodeChar char = [UInt8.ofNat code.val] ∧ char ≠ '"' ∧ char ≠ '\\' ∧
        char ≠ '\n' := by
  rintro code printable noQuote noBackslash char rfl
  revert code
  decide

private theorem plain_facts {byte : UInt8} (lower : 32 ≤ byte.toNat) (upper : byte.toNat ≤ 126)
    (noQuote : byte ≠ 34) (noBackslash : byte ≠ 92) :
    String.utf8EncodeChar (Char.ofNat byte.toNat) = [byte] ∧ Char.ofNat byte.toNat ≠ '"' ∧
      Char.ofNat byte.toNat ≠ '\\' ∧ Char.ofNat byte.toNat ≠ '\n' := by
  have facts := printable_facts ⟨byte.toNat, by omega⟩ lower
    (fun same => noQuote (UInt8.toNat_inj.mp same))
    (fun same => noBackslash (UInt8.toNat_inj.mp same)) _ rfl
  simpa using facts

theorem pieceText (spells : ByteText text byte) (quotes : Bool) :
    PieceText quotes text [byte] := by
  cases spells with
  | plain lower upper noQuote noBackslash =>
      rcases plain_facts lower upper noQuote noBackslash with ⟨encoded, notQuote, notBackslash, -⟩
      rw [← encoded]
      exact .plain notBackslash fun same => absurd same notQuote
  | hexadecimal denotes => exact .hexadecimal denotes
  | quote | backslash | newline | tab => exact .escape (by decide)

theorem unescape_append (spells : ByteText text byte) (rest : List Char) :
    unescape (text ++ rest) = (unescape rest).map (byte :: ·) :=
  (spells.pieceText true).unescape_append rest

/-- Between quotes, the comment scanner passes the spelling of a byte. -/
theorem withoutComment_append (spells : ByteText text byte) (rest : List Char) :
    withoutComment true false (text ++ rest) = text ++ withoutComment true false rest := by
  have passes {char : Char} (noQuote : char ≠ '"') (noBackslash : char ≠ '\\')
      (after : List Char) :
      withoutComment true false (char :: after) = char :: withoutComment true false after := by
    rw [withoutComment, if_neg (by simp [noBackslash]), if_neg noQuote, if_neg (by simp)]
  cases spells with
  | plain lower upper noQuote noBackslash =>
      rcases plain_facts lower upper noQuote noBackslash with ⟨_, notQuote, notBackslash, _⟩
      exact passes notQuote notBackslash rest
  | @hexadecimal high low _ denotes =>
      have highNamed : isLabelChar high = true := denotes.isLabelChar (by decide) (by simp)
      have lowNamed : isLabelChar low = true := denotes.isLabelChar (by decide) (by simp)
      simp only [List.cons_append, List.nil_append]
      rw [withoutComment, if_pos (by simp), withoutComment,
        passes (ne_of_isLabelChar highNamed (by decide)) (ne_of_isLabelChar highNamed (by decide)),
        passes (ne_of_isLabelChar lowNamed (by decide)) (ne_of_isLabelChar lowNamed (by decide))]
  | quote | backslash | newline | tab =>
      simp only [List.cons_append, List.nil_append]
      rw [withoutComment, if_pos (by simp), withoutComment]

theorem newline_not_mem (spells : ByteText text byte) :
    '\n' ∉ text := by
  cases spells with
  | plain lower upper noQuote noBackslash =>
      rcases plain_facts lower upper noQuote noBackslash with ⟨_, _, _, notNewline⟩
      simp [notNewline.symm]
  | hexadecimal denotes =>
      intro member
      simp only [List.mem_cons, List.not_mem_nil, or_false] at member
      rcases member with same | same | same | same
      · cases same
      · cases same
      all_goals
        have named : isLabelChar '\n' = true := denotes.isLabelChar (by decide) (by simp [← same])
        cases named
  | quote | backslash | newline | tab => decide

end ByteText

namespace LiteralText

variable {text : List Char} {bytes : Bytes}

theorem bodyText (spells : LiteralText text bytes) (quotes : Bool) :
    BodyText quotes text bytes := by
  induction spells with
  | nil => exact .nil
  | cons first _ inductionHypothesis => exact .cons (first.pieceText quotes) inductionHypothesis

theorem withoutComment_append (spells : LiteralText text bytes) (rest : List Char) :
    withoutComment true false (text ++ rest) = text ++ withoutComment true false rest := by
  induction spells with
  | nil => rfl
  | cons first _ inductionHypothesis =>
      rw [List.append_assoc, first.withoutComment_append, inductionHypothesis, List.append_assoc]

theorem newline_not_mem (spells : LiteralText text bytes) :
    '\n' ∉ text := by
  induction spells with
  | nil => simp
  | cons first _ inductionHypothesis =>
      rw [List.mem_append, not_or]
      exact ⟨first.newline_not_mem, inductionHypothesis⟩

theorem readString_eq (spells : LiteralText text bytes) :
    readString ('"' :: text ++ ['"']) = .ok bytes :=
  readString_of_stringOperand ⟨text, rfl, spells.bodyText true⟩

end LiteralText

end TagMachine
