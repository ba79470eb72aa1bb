import TagMachine.Proofs.Code.Assembly
import TagMachine.Proofs.Code.Sweeping

/-!
# Assembling a listing

The lines of a listing are lines of program text: the offset is a label, and the item is an
instruction.  Only two escapes of a listing are not known to program text, those of a carriage
return and of a single quote; where a literal has one of these bytes the listing is refused, and
otherwise it is assembled into the program that was listed.
-/

namespace TagMachine

open Source OperandText

/-! ## Foreign escapes -/

namespace ForeignEscape

/-- The letter of the escape by which a listing shows a byte, where program text does not know that
escape. -/
def ofByte? (byte : UInt8) : Option Char :=
  if byte = 13 then some 'r' else if byte = 39 then some '\'' else none

/-- The letter of the first escape in an instruction that program text does not know. -/
def ofInstruction? (instruction : Instruction) : Option Char :=
  match instruction.operand with
  | .literal bytes => bytes.findSome? ofByte?
  | _ => none

/-- The letter of the first escape in an item that program text does not know. -/
def ofItem? : CodeItem → Option Char
  | .instruction instruction => ofInstruction? instruction
  | _ => none

/-- The line and the letter of the first escape in a listing that program text does not know. The
first of the items is on the line with the given number. -/
def firstFrom? : (number : Nat) → List CodeItem → Option (Nat × Char)
  | _, [] => none
  | number, item :: rest =>
      match ofItem? item with
      | some letter => some (number, letter)
      | none => firstFrom? (number + 1) rest

/-- What is read where a foreign escape may stand. -/
def readUnless {Value : Type} (letter? : Option Char) (value : Value) : Except LineError Value :=
  match letter? with
  | none => .ok value
  | some letter => .error (.invalidEscape (String.ofList [letter]))

theorem map_readUnless {Value Other : Type} (letter? : Option Char) (value : Value)
    (change : Value → Other) :
    (readUnless letter? value).map change = readUnless letter? (change value) := by
  cases letter? <;> rfl

end ForeignEscape

theorem Numeral.exists_digits_byte (byte : UInt8) :
    ∃ high low, padded 2 (text 16 byte.toNat) = [high, low] := by
  have small := byte.toNat_lt
  have atMost : (text 16 byte.toNat).length ≤ 2 := by
    rw [text, List.length_map, digits]
    split
    · simp
    · rw [digits, if_pos (by omega)]
      simp
  apply List.length_eq_two.mp
  rw [padded, List.length_append, List.length_replicate]
  omega

namespace ForeignEscape

open Operand (escapeByte)

/-- A byte is shown as program text has it, or by an escape that program text does not know. -/
theorem byteText_escapeByte (byte : UInt8) :
    (ofByte? byte = none ∧ ByteText (escapeByte byte) byte) ∨
      ∃ letter, ofByte? byte = some letter ∧ escapeByte byte = ['\\', letter] ∧
        (letter = 'r' ∨ letter = '\'') := by
  unfold ofByte?
  by_cases isReturn : byte = 13
  · subst isReturn
    exact Or.inr ⟨'r', rfl, rfl, Or.inl rfl⟩
  by_cases isSingle : byte = 39
  · subst isSingle
    exact Or.inr ⟨'\'', rfl, rfl, Or.inr rfl⟩
  refine Or.inl ⟨by rw [if_neg isReturn, if_neg isSingle], ?_⟩
  by_cases isTab : byte = 9
  · subst isTab
    exact .tab
  by_cases isNewline : byte = 10
  · subst isNewline
    exact .newline
  by_cases isQuote : byte = 34
  · subst isQuote
    exact .quote
  by_cases isBackslash : byte = 92
  · subst isBackslash
    exact .backslash
  by_cases printable : 32 ≤ byte ∧ byte ≤ 126
  · have shown : escapeByte byte = [Char.ofNat byte.toNat] := by
      simp [escapeByte, isTab, isReturn, isNewline, isQuote, isSingle, isBackslash, printable]
    rw [shown]
    exact .plain (UInt8.le_iff_toNat_le.mp printable.1) (UInt8.le_iff_toNat_le.mp printable.2)
      isQuote isBackslash
  · have shown : escapeByte byte =
        '\\' :: 'x' :: Numeral.padded 2 (Numeral.text 16 byte.toNat) := by
      simp [escapeByte, isTab, isReturn, isNewline, isQuote, isSingle, isBackslash, printable]
    have denotes : Numeral.Denotes 16 (Numeral.padded 2 (Numeral.text 16 byte.toNat)) byte.toNat :=
      (Numeral.Denotes.text (by decide) byte.toNat).padded (by decide) 2
    rcases Numeral.exists_digits_byte byte with ⟨high, low, digits⟩
    rw [digits] at denotes
    rw [shown, digits]
    exact .hexadecimal denotes

/-- Reading a shown literal gives the literal, or stops at the first unknown escape. -/
theorem unescape_escapeByte (literal : Bytes) :
    unescape (literal.flatMap escapeByte) =
      readUnless (literal.findSome? ofByte?) literal := by
  induction literal with
  | nil => rfl
  | cons byte rest inductionHypothesis =>
      rw [List.flatMap_cons, List.findSome?_cons]
      rcases byteText_escapeByte byte with ⟨known, spelled⟩ | ⟨letter, unknown, shown, either⟩
      · rw [known, spelled.unescape_append, inductionHypothesis, map_readUnless]
      · rw [unknown, shown]
        rcases either with rfl | rfl <;> rfl

/-- Between quotes, the comment scanner passes a shown literal. -/
theorem withoutComment_escapeByte (literal : Bytes) (rest : List Char) :
    withoutComment true false (literal.flatMap escapeByte ++ rest) =
      literal.flatMap escapeByte ++ withoutComment true false rest := by
  induction literal with
  | nil => rfl
  | cons byte others inductionHypothesis =>
      rw [List.flatMap_cons, List.append_assoc, List.append_assoc, ← inductionHypothesis]
      rcases byteText_escapeByte byte with ⟨_, spelled⟩ | ⟨letter, _, shown, _⟩
      · exact spelled.withoutComment_append _
      · rw [shown]
        simp only [List.cons_append, List.nil_append]
        rw [withoutComment, if_pos (by simp), withoutComment]

theorem newline_not_mem_escapeByte (literal : Bytes) :
    '\n' ∉ literal.flatMap escapeByte := by
  intro member
  rcases List.mem_flatMap.mp member with ⟨byte, _, inByte⟩
  rcases byteText_escapeByte byte with ⟨_, spelled⟩ | ⟨letter, _, shown, either⟩
  · exact spelled.newline_not_mem inByte
  · rw [shown] at inByte
    rcases either with rfl | rfl <;> revert inByte <;> decide

end ForeignEscape

/-! ## Instructions -/

theorem NumberText.hexPadded (width number : Nat) :
    NumberText (Numeral.hexPadded width number) number :=
  .hexadecimal (Numeral.padded_ne_nil (Numeral.text_ne_nil 16 number))
    ((Numeral.Denotes.text (by decide) number).padded (by decide) width)

namespace Instruction

/-- The statement that puts an instruction into a program. -/
def statement (instruction : Instruction) : Statement :=
  match instruction.operand with
  | .none => .opcode instruction.opcode
  | .immediate word => .push word
  | .target offset => .branchTo instruction.opcode offset
  | .literal bytes => .pushs bytes

variable {instruction : Instruction}

/-- Without foreign escapes or with them, the text of an instruction is one piece of a line, and it
is read as the instruction unless there is a foreign escape in it. -/
theorem instruction_text (wellFormed : instruction.WellFormed) :
    Piece instruction.text ∧
      Source.instruction instruction.text =
        ForeignEscape.readUnless (ForeignEscape.ofInstruction? instruction)
          instruction.statement := by
  rcases instruction with ⟨opcode, operand⟩
  have kind : operand.kind = opcode.operandKind := wellFormed.kind_eq
  cases operand with
  | none =>
      have spelled := InstructionText.alone kind.symm
      have same : text ⟨opcode, .none⟩ = opcode.mnemonic.toList := List.append_nil _
      rw [same]
      exact ⟨spelled.piece, spelled.instruction_eq⟩
  | immediate word =>
      obtain rfl := Opcode.eq_push_of_operandKind kind.symm
      have number := IntegerText.plain (NumberText.hexPadded 1 word.toNat) word.toNat_lt
      rw [UInt64.ofNat_toNat] at number
      have spelled := InstructionText.operand gap_space (by decide) (.integer number)
      rw [List.append_assoc] at spelled
      exact ⟨spelled.piece, spelled.instruction_eq⟩
  | target offset =>
      have target := OperandSpelling.offset kind.symm (NumberText.hexPadded 4 offset.toNat)
        offset.toNat_lt
      rw [UInt16.ofNat_toNat] at target
      have spelled := InstructionText.operand gap_space (by decide) target
      rw [List.append_assoc] at spelled
      exact ⟨spelled.piece, spelled.instruction_eq⟩
  | literal bytes =>
      obtain rfl := Opcode.eq_pushs_of_operandKind kind.symm
      have quoted := piece_quoted (ForeignEscape.withoutComment_escapeByte bytes)
        (ForeignEscape.newline_not_mem_escapeByte bytes)
      have whole := (Opcode.piece_mnemonic .pushs).around gap_space quoted
      have read := instruction_append .pushs gap_space (by decide) quoted.solid
      rw [List.append_assoc] at whole read
      refine ⟨whole, read.trans ?_⟩
      change (readString ('"' :: bytes.flatMap Operand.escapeByte ++ ['"'])).map Statement.pushs = _
      rw [readString_quoted, ForeignEscape.unescape_escapeByte, ForeignEscape.map_readUnless]
      rfl

theorem isShort_statement (wellFormed : instruction.WellFormed) :
    instruction.statement.IsShort := by
  rcases instruction with ⟨opcode, operand⟩
  cases operand with
  | literal bytes => exact wellFormed.literal_short bytes rfl
  | none => trivial
  | immediate word => trivial
  | target offset => trivial

theorem draftBytes_statement (wellFormed : instruction.WellFormed) :
    instruction.statement.draftBytes = instruction.encode := by
  rcases instruction with ⟨opcode, operand⟩
  have kind : operand.kind = opcode.operandKind := wellFormed.kind_eq
  cases operand with
  | none => rfl
  | immediate word => rw [Opcode.eq_push_of_operandKind kind.symm]; rfl
  | target offset => rfl
  | literal bytes => rw [Opcode.eq_pushs_of_operandKind kind.symm]; rfl

theorem wantedLabel?_statement (instruction : Instruction) :
    instruction.statement.wantedLabel? = none := by
  rcases instruction with ⟨opcode, operand⟩
  cases operand <;> rfl

theorem definedLabel?_statement (instruction : Instruction) :
    instruction.statement.definedLabel? = none := by
  rcases instruction with ⟨opcode, operand⟩
  cases operand <;> rfl

end Instruction

/-! ## Lines -/

namespace Relisting

open ForeignEscape

/-- The label that leads a line of a listing. -/
def offsetLabel (offset : Nat) : List Char :=
  Numeral.padded 4 (Numeral.text 16 offset)

/-- The line that lists an instruction. -/
def line (entry : Nat × Instruction) : List Char :=
  offsetLabel entry.1 ++ ": ".toList ++ entry.2.text

/-- The statements that a line of a listing stands for. -/
def statements (entry : Nat × Instruction) : List Statement :=
  [.label (String.ofList (offsetLabel entry.1)), entry.2.statement]

/-- The item that a listing shows. -/
def item (entry : Nat × Instruction) : CodeItem :=
  .instruction entry.2

theorem denotes_offsetLabel (offset : Nat) :
    Numeral.Denotes 16 (offsetLabel offset) offset :=
  (Numeral.Denotes.text (by decide) offset).padded (by decide) 4

theorem labelText_offsetLabel (offset : Nat) :
    LabelText (offsetLabel offset) where
  nonempty := Numeral.padded_ne_nil (Numeral.text_ne_nil 16 offset)
  named := fun _ member => (denotes_offsetLabel offset).isLabelChar (by decide) member

theorem offsetLabel_injective {first second : Nat} (same : offsetLabel first = offsetLabel second) :
    first = second := by
  have denotes := denotes_offsetLabel first
  rw [same] at denotes
  exact denotes.unique (denotes_offsetLabel second) (by decide)

section Entries

variable {entry : Nat × Instruction} {entries : List (Nat × Instruction)}

theorem newline_not_mem_line (wellFormed : entry.2.WellFormed) :
    '\n' ∉ line entry := by
  have inLabel := (labelText_offsetLabel entry.1).piece.unbroken
  have inText := (Instruction.instruction_text wellFormed).1.unbroken
  simp [line, inLabel, inText]

/-- A line of a listing stands for its statements, unless there is a foreign escape in it. -/
theorem lineStatements_line (wellFormed : entry.2.WellFormed) :
    lineStatements (line entry) = readUnless (ofInstruction? entry.2) (statements entry) := by
  rcases Instruction.instruction_text wellFormed with ⟨piece, read⟩
  have labelled := lineStatements_labelled gap_nil (labelText_offsetLabel entry.1) gap_nil
    gap_space piece gap_nil .none
  rw [read, map_readUnless] at labelled
  simpa [line, statements] using labelled

theorem statementsFrom_lines (wellFormed : ∀ entry ∈ entries, entry.2.WellFormed) (number : Nat) :
    statementsFrom number (Text.lines (['\n'].intercalate (entries.map line))) =
      match firstFrom? number (entries.map item) with
      | none => .ok (entries.flatMap statements)
      | some (place, letter) => .error (.line place (.invalidEscape (String.ofList [letter]))) := by
  induction entries generalizing number with
  | nil => rfl
  | cons entry rest inductionHypothesis =>
      have entryWellFormed := wellFormed entry List.mem_cons_self
      have unbroken := newline_not_mem_line entryWellFormed
      have later := inductionHypothesis fun other member =>
        wellFormed other (List.mem_cons_of_mem _ member)
      rw [List.map_cons, List.map_cons, statementsFrom_intercalate unbroken,
        lineStatements_line entryWellFormed, later, firstFrom?, item, ofItem?]
      cases ofInstruction? entry.2 with
      | some letter => rfl
      | none =>
          simp only [readUnless, Except.mapError]
          cases firstFrom? (number + 1) (rest.map item) <;> rfl

theorem nodup_definedLabels
    (ordered : entries.Pairwise fun earlier later => earlier.1 < later.1) :
    (Statement.definedLabels (entries.flatMap statements)).Nodup := by
  have labels : Statement.definedLabels (entries.flatMap statements) =
      entries.map fun entry => String.ofList (offsetLabel entry.1) := by
    unfold Statement.definedLabels
    induction entries with
    | nil => rfl
    | cons entry rest inductionHypothesis =>
        have first (name : String) : Statement.definedLabel? (.label name) = some name := rfl
        have second := entry.2.definedLabel?_statement
        rw [List.flatMap_cons, List.filterMap_append,
          inductionHypothesis (List.pairwise_cons.mp ordered).2, statements,
          List.filterMap_cons_some (first _), List.filterMap_cons_none second]
        rfl
  rw [labels, List.Nodup, List.pairwise_map]
  refine ordered.imp fun {earlier later} below same => ?_
  have sameOffset := offsetLabel_injective (String.ofList_injective same)
  exact Nat.ne_of_lt below sameOffset

theorem draftBytes_statements (wellFormed : ∀ entry ∈ entries, entry.2.WellFormed) :
    (entries.flatMap statements).flatMap Statement.draftBytes =
      entries.flatMap fun entry => entry.2.encode := by
  rw [List.flatMap_assoc]
  apply List.flatMap_congr
  intro entry member
  rw [statements, List.flatMap_cons, List.flatMap_cons,
    Instruction.draftBytes_statement (wellFormed entry member)]
  exact List.append_nil _

theorem eq_of_mem_statements {statement : Statement}
    (member : statement ∈ entries.flatMap statements) :
    ∃ entry ∈ entries, statement = .label (String.ofList (offsetLabel entry.1)) ∨
      statement = entry.2.statement := by
  simpa [statements] using List.mem_flatMap.mp member

theorem isShort_of_mem_statements (wellFormed : ∀ entry ∈ entries, entry.2.WellFormed)
    {statement : Statement} (member : statement ∈ entries.flatMap statements) :
    statement.IsShort := by
  rcases eq_of_mem_statements member with ⟨entry, inEntries, rfl | rfl⟩
  · trivial
  · exact Instruction.isShort_statement (wellFormed entry inEntries)

/-- Jumps in a listing go to offsets, not to labels. -/
theorem wantedLabel?_of_mem_statements {statement : Statement}
    (member : statement ∈ entries.flatMap statements) :
    statement.wantedLabel? = none := by
  rcases eq_of_mem_statements member with ⟨entry, _, rfl | rfl⟩
  · rfl
  · exact entry.2.wantedLabel?_statement

/-- Instructions that lie one after another are assembled from their listing, up to the first
foreign escape. -/
theorem assemble_lines {code : List Instruction}
    (wellFormed : ∀ instruction ∈ code, instruction.WellFormed) :
    Source.assemble (['\n'].intercalate ((Instruction.placedFrom 0 code).map line)) =
      match firstFrom? 1 ((Instruction.placedFrom 0 code).map item) with
      | none => .ok (code.flatMap Instruction.encode)
      | some (place, letter) => .error (.line place (.invalidEscape (String.ofList [letter]))) := by
  have entryWellFormed : ∀ entry ∈ Instruction.placedFrom 0 code, entry.2.WellFormed :=
    fun entry member => wellFormed _ (Instruction.mem_of_mem_placedFrom member).2
  have read := statementsFrom_lines entryWellFormed 1
  cases found : firstFrom? 1 ((Instruction.placedFrom 0 code).map item) with
  | some refused =>
      rw [found] at read
      rw [Source.assemble, read]
      rfl
  | none =>
      rw [found] at read
      have distinct := nodup_definedLabels (Instruction.pairwise_placedFrom 0 code)
      rw [Source.assemble_of_statementsFrom read
          (fun _ => isShort_of_mem_statements entryWellFormed) distinct,
        Statement.assemble_of_wantedLabel?_eq_none fun _ => wantedLabel?_of_mem_statements,
        draftBytes_statements entryWellFormed, Instruction.flatMap_placedFrom]
      rfl

end Entries

end Relisting

namespace ForeignEscape

theorem ofByte?_eq_none_iff (byte : UInt8) :
    ofByte? byte = none ↔ byte ≠ 13 ∧ byte ≠ 39 := by
  unfold ofByte?
  split
  · simp [*]
  · split <;> simp [*]

theorem ofItem?_eq_none_iff (item : CodeItem) :
    ofItem? item = none ↔
      ∀ opcode literal, item = .instruction ⟨opcode, .literal literal⟩ →
        13 ∉ literal ∧ 39 ∉ literal := by
  rcases item with ⟨opcode, operand⟩ | byte | opcode
  · cases operand with
    | literal bytes =>
        have absent : bytes.findSome? ofByte? = none ↔ 13 ∉ bytes ∧ 39 ∉ bytes := by
          simp only [List.findSome?_eq_none_iff, ofByte?_eq_none_iff]
          grind
        simpa [ofItem?, ofInstruction?] using absent
    | _ => simp [ofItem?, ofInstruction?]
  all_goals simp [ofItem?]

/-- No escape is foreign when no literal has a carriage return or a single quote. -/
theorem firstFrom?_eq_none_iff (number : Nat) (items : List CodeItem) :
    firstFrom? number items = none ↔
      ∀ item ∈ items, ∀ opcode literal, item = .instruction ⟨opcode, .literal literal⟩ →
        13 ∉ literal ∧ 39 ∉ literal := by
  induction items generalizing number with
  | nil => simp [firstFrom?]
  | cons item rest inductionHypothesis =>
      have here := ofItem?_eq_none_iff item
      rw [List.forall_mem_cons, ← inductionHypothesis (number + 1), ← here, firstFrom?]
      cases ofItem? item <;> simp

end ForeignEscape

/-- The listing of complete instructions is assembled, up to the first foreign escape. -/
theorem Relisting.assemble_eq {bytes : Bytes}
    (complete : ∀ entry ∈ CodeItem.sweep bytes, ∃ code, entry.2 = .instruction code) :
    Source.assemble (['\n'].intercalate (listing bytes)) =
      match ForeignEscape.firstFrom? 1 ((CodeItem.sweep bytes).map Prod.snd) with
      | none => .ok bytes
      | some (place, letter) => .error (.line place (.invalidEscape (String.ofList [letter]))) := by
  rcases CodeItem.exists_code_of_complete complete with ⟨code, wellFormed, rfl, swept⟩
  have lines : listing (code.flatMap Instruction.encode) =
      (Instruction.placedFrom 0 code).map Relisting.line := by
    rw [listing, CodeItem.sweep, swept, List.map_map]
    rfl
  rw [lines, Relisting.assemble_lines wellFormed, CodeItem.sweep, swept, List.map_map]
  rfl

/-- The listing of complete instructions is program text for the same bytes exactly when no literal
has a carriage return or a single quote; otherwise the first line with one of these is refused. -/
theorem Source.assemble_listing {bytes : Bytes}
    (complete : ∀ entry ∈ CodeItem.sweep bytes, ∃ code, entry.2 = .instruction code) :
    (Source.assemble (['\n'].intercalate (listing bytes)) = .ok bytes ↔
      ∀ entry ∈ CodeItem.sweep bytes, ∀ opcode literal,
        entry.2 = .instruction ⟨opcode, .literal literal⟩ → 13 ∉ literal ∧ 39 ∉ literal) ∧
    ∀ place letter,
      ForeignEscape.firstFrom? 1 ((CodeItem.sweep bytes).map Prod.snd) = some (place, letter) →
      Source.assemble (['\n'].intercalate (listing bytes)) =
        .error (.line place (.invalidEscape (String.ofList [letter]))) := by
  have assembled := Relisting.assemble_eq complete
  have plain := ForeignEscape.firstFrom?_eq_none_iff 1 ((CodeItem.sweep bytes).map Prod.snd)
  rw [List.forall_mem_map] at plain
  rw [← plain, assembled]
  refine ⟨?_, fun place letter found => by rw [found]⟩
  cases ForeignEscape.firstFrom? 1 ((CodeItem.sweep bytes).map Prod.snd) with
  | none => simp
  | some refused => simp

/-- A literal with a tab and a quote, a jump, and a number. -/
theorem Source.assemble_listing_quoted :
    let bytes : Bytes := [22, 2, 9, 34, 10, 4, 0, 1, 255, 0, 0, 0, 0, 0, 0, 0]
    (∀ entry ∈ CodeItem.sweep bytes, ∃ code, entry.2 = .instruction code) ∧
      Source.assemble (['\n'].intercalate (listing bytes)) = .ok bytes := by
  intro bytes
  have swept : CodeItem.sweep bytes =
      [(0, .instruction ⟨.pushs, .literal [9, 34]⟩), (4, .instruction ⟨.jmp, .target 4⟩),
        (7, .instruction ⟨.push, .immediate 255⟩)] := by
    decide +kernel
  have complete : ∀ entry ∈ CodeItem.sweep bytes, ∃ code, entry.2 = .instruction code := by
    simp [swept]
  refine ⟨complete, (Source.assemble_listing complete).1.mpr ?_⟩
  rw [swept]
  simp

/-- A literal of one single quote is complete, and its listing is refused. -/
theorem Source.assemble_listing_singleQuote :
    (∀ entry ∈ CodeItem.sweep [22, 1, 39], ∃ code, entry.2 = .instruction code) ∧
      Source.assemble (['\n'].intercalate (listing [22, 1, 39])) =
        .error (.line 1 (.invalidEscape "'")) ∧
      Source.assemble (['\n'].intercalate (listing [22, 1, 39])) ≠ .ok [22, 1, 39] := by
  have swept : CodeItem.sweep [22, 1, 39] = [(0, .instruction ⟨.pushs, .literal [39]⟩)] := by
    decide +kernel
  have refused : Source.assemble (['\n'].intercalate (listing [22, 1, 39])) =
      .error (.line 1 (.invalidEscape "'")) := by
    decide +kernel
  refine ⟨by simp [swept], refused, ?_⟩
  rw [refused]
  simp

end TagMachine
