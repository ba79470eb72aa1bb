import TagMachine.Proofs.Code.Spelling

/-!
# The layout of program text

A line of program text has blanks in front, maybe a label, maybe an instruction, and maybe a
comment; a program is lines, each with its end.  `LineText line statements` and `SourceText text
statements` say that a text is laid out so and which statements it stands for, and those statements
are what is read from it.
-/

namespace TagMachine

open Source Text

/-! ## Pieces of a line -/

/-- Blanks inside a line. -/
structure Gap (text : List Char) : Prop where
  blanks : Blanks text
  unbroken : '\n' ∉ text

/-- A part of a line that starts and ends visibly and hides nothing of what follows it. -/
structure Piece (text : List Char) : Prop where
  nonempty : text ≠ []
  solid : Solid text
  transparent : Transparent text
  unbroken : '\n' ∉ text

theorem gap_nil : Gap [] where
  blanks := by simp [Blanks]
  unbroken := by simp

theorem gap_space : Gap [' '] where
  blanks := by simp [Blanks]; decide
  unbroken := by decide

theorem Gap.transparent {text : List Char} (gap : Gap text) :
    Transparent text :=
  transparent_of_blanks gap.blanks

theorem Gap.not_mem {text : List Char} (gap : Gap text) {char : Char}
    (visible : isBlank char = false) :
    char ∉ text := by
  intro member
  rw [gap.blanks char member] at visible
  cases visible

theorem Piece.around {left middle right : List Char} (leftPiece : Piece left) (gap : Gap middle)
    (rightPiece : Piece right) :
    Piece (left ++ middle ++ right) where
  nonempty := by simp [leftPiece.nonempty]
  solid := leftPiece.solid.around rightPiece.solid leftPiece.nonempty rightPiece.nonempty middle
  transparent := (leftPiece.transparent.append gap.transparent).append rightPiece.transparent
  unbroken := by simp [leftPiece.unbroken, gap.unbroken, rightPiece.unbroken]

theorem piece_of_chars {text : List Char} (nonempty : text ≠ [])
    (chars : ∀ char ∈ text, char = '-' ∨ isLabelChar char = true) :
    Piece text := by
  have apart {other : Char} (noSign : other ≠ '-') (outside : isLabelChar other = false) :
      other ∉ text := by
    intro member
    rcases chars other member with same | named
    · exact noSign same
    · rw [outside] at named
      cases named
  refine ⟨nonempty, solid_of_forall ?_, transparent_of_plain ?_ ?_, ?_⟩
  · intro char member
    rcases chars char member with rfl | named
    · decide
    · exact isBlank_of_isLabelChar named
  all_goals exact apart (by decide) (by decide)

theorem piece_colon : Piece [':'] where
  nonempty := by simp
  solid := solid_of_forall (List.forall_mem_singleton.mpr (by decide))
  transparent := transparent_of_plain (by decide) (by decide)
  unbroken := by decide

theorem piece_quoted {text : List Char}
    (passed : ∀ rest, withoutComment true false (text ++ rest) =
      text ++ withoutComment true false rest)
    (unbroken : '\n' ∉ text) :
    Piece ('"' :: text ++ ['"']) where
  nonempty := by simp
  solid := by
    have quote : Solid ['"'] := solid_of_forall (List.forall_mem_singleton.mpr (by decide))
    exact quote.around quote (by simp) (by simp) text
  transparent := by
    intro rest
    have opened (after : List Char) :
        withoutComment false false ('"' :: after) = '"' :: withoutComment true false after := by
      rw [withoutComment, if_neg (by simp), if_pos rfl]
      rfl
    have closed :
        withoutComment true false ('"' :: rest) = '"' :: withoutComment false false rest := by
      rw [withoutComment, if_neg (by decide), if_pos rfl]
      rfl
    rw [List.append_assoc, List.cons_append, opened, passed, List.singleton_append, closed,
      List.cons_append, List.cons_append, List.append_assoc, List.singleton_append]
  unbroken := by simp [unbroken]

theorem Opcode.ofMnemonic?_mnemonic (opcode : Opcode) :
    Opcode.ofMnemonic? opcode.mnemonic = some opcode := by
  cases opcode <;> rfl

theorem Opcode.isLabelChar_mnemonic (opcode : Opcode) :
    ∀ char ∈ opcode.mnemonic.toList, isLabelChar char = true := by
  rw [← List.all_eq_true]
  cases opcode <;> decide

theorem Opcode.piece_mnemonic (opcode : Opcode) :
    Piece opcode.mnemonic.toList :=
  piece_of_chars (by cases opcode <;> decide) fun char member =>
    Or.inr (opcode.isLabelChar_mnemonic char member)

/-! ## Instructions -/

/-- A name of letters, digits and underscores. -/
structure LabelText (name : List Char) : Prop where
  nonempty : name ≠ []
  named : ∀ char ∈ name, isLabelChar char = true

/-- The text spells an operand of the opcode, and the statement is the opcode with that operand. -/
inductive OperandSpelling : Opcode → List Char → Statement → Prop
  | integer {text : List Char} {word : UInt64} :
      IntegerText text word → OperandSpelling .push text (.push word)
  | literal {text : List Char} {literal : Bytes} :
      LiteralText text literal → literal.length ≤ 255 →
      OperandSpelling .pushs ('"' :: text ++ ['"']) (.pushs literal)
  | offset {opcode : Opcode} {text : List Char} {number : Nat} :
      opcode.operandKind = .target → NumberText text number → number < UInt16.size →
      OperandSpelling opcode text (.branchTo opcode (UInt16.ofNat number))
  | label {opcode : Opcode} {name : List Char} :
      opcode.operandKind = .target → LabelText name →
      (∀ first ∈ name.head?, first.isDigit = false) →
      OperandSpelling opcode name (.branch opcode (String.ofList name))

/-- The text is an instruction: a mnemonic, and blanks and an operand if it takes one. -/
inductive InstructionText : List Char → Statement → Prop
  | alone {opcode : Opcode} :
      opcode.operandKind = .none → InstructionText opcode.mnemonic.toList (.opcode opcode)
  | operand {opcode : Opcode} {gap text : List Char} {statement : Statement} :
      Gap gap → gap ≠ [] → OperandSpelling opcode text statement →
      InstructionText (opcode.mnemonic.toList ++ gap ++ text) statement

theorem LabelText.piece {name : List Char} (label : LabelText name) :
    Piece name :=
  piece_of_chars label.nonempty fun char member => Or.inr (label.named char member)

theorem instruction_append (opcode : Opcode) {gap operand : List Char} (blanks : Gap gap)
    (apart : gap ≠ []) (solid : Solid operand) :
    instruction (opcode.mnemonic.toList ++ gap ++ operand) = withOperand opcode operand := by
  rcases List.exists_cons_of_ne_nil apart with ⟨first, others, rfl⟩
  have isBlank : Text.isBlank first = true := blanks.blanks first List.mem_cons_self
  have later : Blanks others := fun char member =>
    blanks.blanks char (List.mem_cons_of_mem _ member)
  have split := splitAtFirst_append Text.isBlank
    (fun char member => isBlank_of_isLabelChar (opcode.isLabelChar_mnemonic char member)) isBlank
    (others ++ operand)
  have trimmed := trim_blanks_append later solid
  unfold instruction
  rw [List.append_assoc, List.cons_append, split]
  simp only [trimmed, String.ofList_toList, Opcode.ofMnemonic?_mnemonic]

namespace OperandSpelling

variable {opcode : Opcode} {text : List Char} {statement : Statement}

theorem piece (spells : OperandSpelling opcode text statement) :
    Piece text := by
  cases spells with
  | integer spelled => exact piece_of_chars spelled.ne_nil fun _ member => spelled.mem_chars member
  | literal spelled _ => exact piece_quoted spelled.withoutComment_append spelled.newline_not_mem
  | offset _ spelled _ =>
      rcases spelled.cons_digit with ⟨first, rest, rfl, _, named⟩
      exact piece_of_chars (List.cons_ne_nil _ _) fun char member => Or.inr (named char member)
  | label _ name _ => exact name.piece

theorem withOperand_eq (spells : OperandSpelling opcode text statement) :
    withOperand opcode text = .ok statement := by
  cases spells with
  | integer spelled =>
      change (OperandText.readInteger text).map Statement.push = _
      rw [spelled.readInteger_eq]
      rfl
  | literal spelled _ =>
      change (OperandText.readString _).map Statement.pushs = _
      rw [spelled.readString_eq]
      rfl
  | @offset _ _ number jumps spelled small =>
      have size : number < UInt64.size := Nat.lt_trans small (by decide)
      have read := (IntegerText.plain spelled size).readInteger_eq
      have fits : (UInt64.ofNat number).toNat < UInt16.size := by
        rw [UInt64.toNat_ofNat_of_lt' size]
        exact small
      have lowest : (UInt64.ofNat number).toUInt16 = UInt16.ofNat number := by
        apply UInt16.toNat_inj.mp
        rw [UInt64.toNat_toUInt16, UInt64.toNat_ofNat_of_lt' size, UInt16.toNat_ofNat']
      rcases spelled.cons_digit with ⟨first, rest, rfl, isDigit, _⟩
      simp only [withOperand, jumps, jump, isDigit, read, if_true, bind, Except.bind, fits, lowest]
      rfl
  | @label _ name jumps spelled noDigit =>
      rcases List.exists_cons_of_ne_nil spelled.nonempty with ⟨first, rest, rfl⟩
      simp only [withOperand, jumps, jump, noDigit first rfl, Bool.false_eq_true, if_false]
      rfl

end OperandSpelling

namespace InstructionText

variable {text : List Char} {statement : Statement}

theorem piece (spells : InstructionText text statement) :
    Piece text := by
  cases spells with
  | alone _ => exact Opcode.piece_mnemonic _
  | operand gap _ operand => exact (Opcode.piece_mnemonic _).around gap operand.piece

theorem instruction_eq (spells : InstructionText text statement) :
    instruction text = .ok statement := by
  cases spells with
  | @alone opcode kind =>
      have whole := splitAtFirst_eq_none Text.isBlank fun char member =>
        isBlank_of_isLabelChar (opcode.isLabelChar_mnemonic char member)
      simp only [instruction, whole, String.ofList_toList, Opcode.ofMnemonic?_mnemonic,
        withOperand, kind]
      rfl
  | operand gap apart operand =>
      rw [instruction_append _ gap apart operand.piece.solid, operand.withOperand_eq]

end InstructionText

/-! ## Labels -/

section Labels

variable {name between after text : List Char}

theorem splitLabel_append (label : LabelText name) (gap : Gap between) (rest : List Char) :
    splitLabel (name ++ between ++ [':'] ++ rest) =
      ([.label (String.ofList name)], trim rest) := by
  have absent : ∀ char ∈ name ++ between, (char == ':') = false := by
    intro char member
    rw [beq_eq_false_iff_ne]
    rcases List.mem_append.mp member with inName | inGap
    · exact ne_of_isLabelChar (label.named char inName) (by decide)
    · rintro rfl
      exact gap.not_mem (by decide) inGap
  have split := splitAtFirst_append (· == ':') absent (beq_self_eq_true ':') rest
  have trimmed := trim_append_blanks label.piece.solid gap.blanks
  have accepted : (!name.isEmpty && name.all isLabelChar) = true := by
    simpa [label.nonempty] using label.named
  unfold splitLabel
  rw [List.append_assoc, List.singleton_append, split]
  simp only [trimmed, accepted, if_true]

theorem splitLabel_of_not_mem (absent : ':' ∉ text) :
    splitLabel text = ([], text) := by
  have whole := splitAtFirst_eq_none (· == ':') fun other member =>
    beq_eq_false_iff_ne.mpr fun (same : other = ':') => absent (same ▸ member)
  rw [splitLabel, whole]

/-- A line is not split when something before its first colon is no part of a name. -/
theorem splitLabel_eq_self {char : Char} {rest : List Char} (absent : ':' ∉ text)
    (visible : isBlank char = false) (outside : isLabelChar char = false) (noColon : char ≠ ':') :
    splitLabel (text ++ char :: rest) = ([], text ++ char :: rest) := by
  by_cases colon : ':' ∈ rest
  · obtain ⟨early, late, rfl, first⟩ := List.eq_append_cons_of_mem colon
    have before : ∀ other ∈ text ++ char :: early, (other == ':') = false := by
      intro other member
      rw [beq_eq_false_iff_ne]
      rintro rfl
      simp only [List.mem_append, List.mem_cons] at member
      rcases member with inText | same | inEarly
      · exact absent inText
      · exact noColon same.symm
      · exact first inEarly
    have split := splitAtFirst_append (· == ':') before (beq_self_eq_true ':') late
    rw [List.append_assoc, List.cons_append] at split
    have kept : char ∈ trim (text ++ char :: early) := mem_trim (by simp) visible
    have refused : (trim (text ++ char :: early)).all isLabelChar = false := by
      rw [List.all_eq_false]
      exact ⟨char, kept, by simp [outside]⟩
    rw [splitLabel, split]
    simp only [refused, Bool.and_false, Bool.false_eq_true, if_false]
  · apply splitLabel_of_not_mem
    simp [absent, noColon.symm, colon]

end Labels

namespace InstructionText

variable {text : List Char} {statement : Statement}

/-- An instruction is not mistaken for a label: a colon can only stand in a literal, after the quote
that opens it. -/
theorem splitLabel_eq (spells : InstructionText text statement) :
    splitLabel text = ([], text) := by
  have colon {chars : List Char} (named : ∀ char ∈ chars, char = '-' ∨ isLabelChar char = true) :
      ':' ∉ chars := by
    intro member
    rcases named ':' member with same | isName
    · cases same
    · cases isName
  have visible : isBlank ':' = false := by decide
  have mnemonic (opcode : Opcode) : ':' ∉ opcode.mnemonic.toList :=
    colon fun char member => Or.inr (opcode.isLabelChar_mnemonic char member)
  cases spells with
  | alone _ => exact splitLabel_of_not_mem (mnemonic _)
  | @operand opcode gap operand _ blanks _ spelled =>
      have before : ':' ∉ opcode.mnemonic.toList ++ gap := by
        simp [mnemonic opcode, blanks.not_mem visible]
      have plain (named : ∀ char ∈ operand, char = '-' ∨ isLabelChar char = true) :
          splitLabel (opcode.mnemonic.toList ++ gap ++ operand) =
            ([], opcode.mnemonic.toList ++ gap ++ operand) := by
        apply splitLabel_of_not_mem
        rw [List.mem_append, not_or]
        exact ⟨before, colon named⟩
      cases spelled with
      | integer number => exact plain fun char member => number.mem_chars member
      | offset _ number _ =>
          rcases number.cons_digit with ⟨_, _, _, _, named⟩
          exact plain fun char member => Or.inr (named char member)
      | label _ name _ => exact plain fun char member => Or.inr (name.named char member)
      | literal _ _ => exact splitLabel_eq_self before (by decide) (by decide) (by decide)

end InstructionText

/-! ## Lines -/

/-- The text is nothing, or a `#` and what comes after it on the line. -/
inductive CommentText : List Char → Prop
  | none : CommentText []
  | hash {text : List Char} : '\n' ∉ text → CommentText ('#' :: text)

/-- The text is a line for the statements: blank, an instruction, a label, or a label before an
instruction, each with blanks and a comment. -/
inductive LineText : List Char → List Statement → Prop
  | blank {indent comment : List Char} :
      Gap indent → CommentText comment → LineText (indent ++ comment) []
  | instruction {indent text trailing comment : List Char} {statement : Statement} :
      Gap indent → InstructionText text statement → Gap trailing → CommentText comment →
      LineText (indent ++ text ++ trailing ++ comment) [statement]
  | label {indent name between trailing comment : List Char} :
      Gap indent → LabelText name → Gap between → Gap trailing → CommentText comment →
      LineText (indent ++ (name ++ between ++ [':']) ++ trailing ++ comment)
        [.label (String.ofList name)]
  | labelled {indent name between after text trailing comment : List Char}
      {statement : Statement} :
      Gap indent → LabelText name → Gap between → Gap after → InstructionText text statement →
      Gap trailing → CommentText comment →
      LineText (indent ++ (name ++ between ++ [':'] ++ after ++ text) ++ trailing ++ comment)
        [.label (String.ofList name), statement]

theorem CommentText.withoutComment_eq {comment : List Char} (isComment : CommentText comment) :
    withoutComment false false comment = [] := by
  cases isComment with
  | none => rfl
  | hash _ => exact withoutComment_hash _

theorem CommentText.unbroken {comment : List Char} (isComment : CommentText comment) :
    '\n' ∉ comment := by
  cases isComment with
  | none => simp
  | hash unbroken => simp [unbroken]

section Visible

variable {indent core trailing comment : List Char}

/-- What is seen of a line is what stands between its blanks, without the comment. -/
theorem trim_withoutComment (gap : Gap indent) (solid : Solid core) (transparent : Transparent core)
    (end_ : Gap trailing) (isComment : CommentText comment) :
    trim (withoutComment false false (indent ++ core ++ trailing ++ comment)) = core := by
  have whole := (gap.transparent.append transparent).append end_.transparent
  rw [whole comment, isComment.withoutComment_eq, List.append_nil]
  exact trim_eq gap.blanks solid end_.blanks

/-- A line with a label stands for the label and the instruction after it. -/
theorem lineStatements_labelled {name between after : List Char} (gap : Gap indent)
    (label : LabelText name) (gapBetween : Gap between) (gapAfter : Gap after) (piece : Piece core)
    (gapTrailing : Gap trailing) (isComment : CommentText comment) :
    lineStatements
        (indent ++ (name ++ between ++ [':'] ++ after ++ core) ++ trailing ++ comment) =
      (Source.instruction core).map fun statement =>
        [.label (String.ofList name), statement] := by
  have whole := (label.piece.around gapBetween piece_colon).around gapAfter piece
  have shown := trim_withoutComment gap whole.solid whole.transparent gapTrailing isComment
  have rest := trim_blanks_append gapAfter.blanks piece.solid
  have split := splitLabel_append label gapBetween (after ++ core)
  rw [rest] at split
  unfold lineStatements
  rw [shown, List.append_assoc, split]
  simp [piece.nonempty]

end Visible

namespace LineText

variable {line : List Char} {statements : List Statement}

theorem unbroken (isLine : LineText line statements) :
    '\n' ∉ line := by
  cases isLine with
  | blank indent comment => simp [indent.unbroken, comment.unbroken]
  | instruction indent instruction trailing comment =>
      simp [indent.unbroken, instruction.piece.unbroken, trailing.unbroken, comment.unbroken]
  | label indent name between trailing comment =>
      simp [indent.unbroken, name.piece.unbroken, between.unbroken, trailing.unbroken,
        comment.unbroken]
  | labelled indent name between after instruction trailing comment =>
      simp [indent.unbroken, name.piece.unbroken, between.unbroken, after.unbroken,
        instruction.piece.unbroken, trailing.unbroken, comment.unbroken]

theorem lineStatements_eq (isLine : LineText line statements) :
    lineStatements line = .ok statements := by
  cases isLine with
  | @blank indent comment gap isComment =>
      have nothing : Transparent [] := fun _ => rfl
      have shown := trim_withoutComment gap solid_nil nothing gap_nil isComment
      rw [List.append_nil, List.append_nil] at shown
      unfold lineStatements
      rw [shown]
      rfl
  | instruction gap spelled trailing isComment =>
      have piece := spelled.piece
      have shown := trim_withoutComment gap piece.solid piece.transparent trailing isComment
      unfold lineStatements
      rw [shown, spelled.splitLabel_eq]
      simp [piece.nonempty, spelled.instruction_eq, Except.map]
  | label gap name between trailing isComment =>
      have piece := name.piece.around between piece_colon
      have shown := trim_withoutComment gap piece.solid piece.transparent trailing isComment
      have split := splitLabel_append name between []
      rw [List.append_nil] at split
      unfold lineStatements
      rw [shown, split]
      rfl
  | labelled gap name between after spelled trailing isComment =>
      rw [lineStatements_labelled gap name between after spelled.piece trailing isComment,
        spelled.instruction_eq]
      rfl

end LineText

/-! ## Programs -/

section Reading

variable {line : List Char}

theorem statementsFrom_append_newline (unbroken : '\n' ∉ line) (rest : List Char) (number : Nat) :
    statementsFrom number (lines (line ++ '\n' :: rest)) = (do
      let first ← (lineStatements line).mapError (.line number)
      let others ← statementsFrom (number + 1) (lines rest)
      return first ++ others) := by
  rcases lines_append_newline unbroken rest with ⟨shown, cut, same⟩
  have read : lineStatements shown = lineStatements line := by
    rcases same with rfl | rfl
    · rfl
    · exact (lineStatements_append_return shown).symm
  rw [cut, statementsFrom, read]

theorem statementsFrom_of_unbroken (unbroken : '\n' ∉ line) (number : Nat) :
    statementsFrom number (lines line) = (lineStatements line).mapError (.line number) := by
  rw [lines_eq_of_unbroken unbroken]
  by_cases empty : line = []
  · subst empty
    rfl
  · rw [if_neg empty, statementsFrom, statementsFrom]
    cases lineStatements line <;> simp [Except.mapError, bind, Except.bind, pure, Except.pure]

theorem statementsFrom_intercalate (unbroken : '\n' ∉ line) (others : List (List Char))
    (number : Nat) :
    statementsFrom number (lines (['\n'].intercalate (line :: others))) = (do
      let first ← (lineStatements line).mapError (.line number)
      let rest ← statementsFrom (number + 1) (lines (['\n'].intercalate others))
      return first ++ rest) := by
  cases others with
  | nil =>
      have none : statementsFrom (number + 1) (lines (['\n'].intercalate [])) = .ok [] := rfl
      rw [List.intercalate_singleton, statementsFrom_of_unbroken unbroken, none]
      cases lineStatements line <;> simp [Except.mapError, bind, Except.bind, pure, Except.pure]
  | cons second others =>
      rw [List.intercalate_cons_cons, List.append_assoc, List.singleton_append,
        statementsFrom_append_newline unbroken]

end Reading

/-- The text is a program for the statements: lines, of which each but the last has its end. -/
inductive SourceText : List Char → List Statement → Prop
  | last {line : List Char} {statements : List Statement} :
      LineText line statements → SourceText line statements
  | more {line ending rest : List Char} {first others : List Statement} :
      LineText line first → (ending = ['\n'] ∨ ending = ['\r', '\n']) → SourceText rest others →
      SourceText (line ++ ending ++ rest) (first ++ others)

theorem SourceText.statementsFrom_eq {text : List Char} {statements : List Statement}
    (isSource : SourceText text statements) (number : Nat) :
    statementsFrom number (lines text) = .ok statements := by
  induction isSource generalizing number with
  | last isLine =>
      rw [statementsFrom_of_unbroken isLine.unbroken, isLine.lineStatements_eq]
      rfl
  | @more line ending rest first others isLine isEnding _ inductionHypothesis =>
      have ended : ∃ whole, line ++ ending ++ rest = whole ++ '\n' :: rest ∧ '\n' ∉ whole ∧
          lineStatements whole = .ok first := by
        have read := isLine.lineStatements_eq
        rcases isEnding with rfl | rfl
        · exact ⟨line, by simp, isLine.unbroken, read⟩
        · refine ⟨line ++ ['\r'], by simp, by simp [isLine.unbroken], ?_⟩
          rw [lineStatements_append_return, read]
      rcases ended with ⟨whole, same, unbroken, read⟩
      rw [same, statementsFrom_append_newline unbroken, read, inductionHypothesis]
      rfl

end TagMachine
