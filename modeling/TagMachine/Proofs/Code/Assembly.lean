import TagMachine.Proofs.Code.Linking
import TagMachine.Proofs.Code.ProgramText

/-!
# Assembling program text

However a program is laid out, the text becomes the program that two passes over its statements
make.  Quotes, colons and `#` in literals and comments are not mistaken for one another, and labels
may be used before they are defined.
-/

namespace TagMachine

open Source

/-! ## Statements of program text -/

theorem InstructionText.isShort {text : List Char} {statement : Statement}
    (spells : InstructionText text statement) :
    statement.IsShort := by
  cases spells with
  | alone _ => trivial
  | operand _ _ operand =>
      cases operand with
      | literal _ short => exact short
      | integer _ => trivial
      | offset _ _ _ => trivial
      | label _ _ _ => trivial

theorem LineText.isShort {line : List Char} {statements : List Statement}
    (isLine : LineText line statements) :
    ∀ statement ∈ statements, statement.IsShort := by
  cases isLine with
  | blank _ _ => simp
  | instruction _ spelled _ _ => simpa using spelled.isShort
  | label _ _ _ _ _ => simp [Statement.IsShort]
  | labelled _ _ _ _ spelled _ _ => simpa [Statement.IsShort] using spelled.isShort

theorem SourceText.isShort {text : List Char} {statements : List Statement}
    (isSource : SourceText text statements) :
    ∀ statement ∈ statements, statement.IsShort := by
  induction isSource with
  | last isLine => exact isLine.isShort
  | more isLine _ _ inductionHypothesis =>
      intro statement member
      rcases List.mem_append.mp member with first | later
      · exact isLine.isShort statement first
      · exact inductionHypothesis statement later

/-- A text whose lines stand for statements is assembled in two passes over them. -/
theorem Source.assemble_of_statementsFrom {text : List Char} {statements : List Statement}
    (read : statementsFrom 1 (Text.lines text) = .ok statements)
    (short : ∀ statement ∈ statements, statement.IsShort)
    (distinct : (Statement.definedLabels statements).Nodup) :
    Source.assemble text = (Statement.assemble statements).mapError .link := by
  rw [Source.assemble, read]
  change (Draft.build statements).mapError AssemblyError.link = _
  rw [Draft.build_eq_assemble short distinct]

/-- Program text, in any layout, is assembled into what two passes over its statements make: the
encodings in order, each jump to a label going where the label is defined, or the first jump in
order that has nowhere to go. -/
theorem Source.assemble_sourceText {text : List Char} {statements : List Statement}
    (isSource : SourceText text statements)
    (distinct : (Statement.definedLabels statements).Nodup) :
    Source.assemble text = (Statement.assemble statements).mapError .link :=
  Source.assemble_of_statementsFrom (isSource.statementsFrom_eq 1) isSource.isShort distinct

/-- Three lines: a label before a literal with `#` and a quote in it, a jump forward, and a label at
the end. -/
theorem Source.assemble_sourceText_forward :
    let text := "top: pushs \"a#\\\"\" # \"c\"\r\n\tjz end\n end :halt".toList
    let statements : List Statement :=
      [.label "top", .pushs [97, 35, 34], .branch .jz "end", .label "end", .opcode .halt]
    SourceText text statements ∧
      Source.assemble text = .ok [22, 3, 97, 35, 34, 15, 8, 0, 32] := by
  intro text statements
  have plain (byte : UInt8) (printable : 32 ≤ byte.toNat ∧ byte.toNat ≤ 126)
      (ordinary : byte ≠ 34 ∧ byte ≠ 92) : ByteText [Char.ofNat byte.toNat] byte :=
    .plain printable.1 printable.2 ordinary.1 ordinary.2
  have literal : LiteralText ['a', '#', '\\', '"'] [97, 35, 34] :=
    .cons (plain 97 (by decide) (by decide)) (.cons (plain 35 (by decide) (by decide))
      (.cons .quote .nil))
  have tab : Gap ['\t'] := ⟨by simp [Text.Blanks]; decide, by decide⟩
  have pushs : InstructionText "pushs \"a#\\\"\"".toList (.pushs [97, 35, 34]) :=
    .operand gap_space (by decide) (.literal literal (by decide))
  have top : LabelText "top".toList := ⟨by decide, List.all_eq_true.mp (by decide)⟩
  have end_ : LabelText "end".toList := ⟨by decide, List.all_eq_true.mp (by decide)⟩
  have comment : CommentText "# \"c\"".toList :=
    @CommentText.hash " \"c\"".toList (by decide)
  have target : OperandSpelling .jz "end".toList (.branch .jz "end") :=
    .label rfl end_ (by rintro _ ⟨⟩; decide)
  have jump : InstructionText "jz end".toList (.branch .jz "end") :=
    .operand gap_space (by decide) target
  have halt : InstructionText "halt".toList (.opcode .halt) :=
    @InstructionText.alone .halt rfl
  have first : LineText "top: pushs \"a#\\\"\" # \"c\"".toList
      [.label "top", .pushs [97, 35, 34]] :=
    .labelled gap_nil top gap_nil gap_space pushs gap_space comment
  have second : LineText "\tjz end".toList [.branch .jz "end"] :=
    .instruction tab jump gap_nil .none
  have third : LineText " end :halt".toList [.label "end", .opcode .halt] :=
    .labelled gap_space end_ gap_space gap_nil halt gap_nil .none
  have isSource : SourceText text statements :=
    .more first (Or.inr rfl) (.more second (Or.inl rfl) (.last third))
  refine ⟨isSource, ?_⟩
  rw [Source.assemble_sourceText isSource (by decide)]
  rfl

end TagMachine
