import TagMachine.Bytes.LittleEndian
import TagMachine.Proofs.Code.Grammar
import TagMachine.Proofs.Code.ProgramText
import TagMachine.Proofs.Code.Resolution

/-!
# Where jumps go

A label stands for the number of bytes that the lines before it come to, and a jump to it is encoded
with that number, be the label defined before the jump or after it.  A name may start with a digit,
though, and the operand of a jump that starts with a digit is a number: it is encoded as it stands,
and a label of that name is never looked up.
-/

namespace TagMachine

open OperandText Text

/-! ## Lines -/

namespace Statement

/-- The number of bytes that statements stand for. -/
def totalLength : List Statement → Nat
  | [] => 0
  | statement :: rest => statement.length + totalLength rest

theorem totalLength_append (front back : List Statement) :
    totalLength (front ++ back) = totalLength front + totalLength back := by
  induction front with
  | nil => exact (Nat.zero_add _).symm
  | cons first front inductionHypothesis =>
      rw [List.cons_append, totalLength, inductionHypothesis, totalLength, Nat.add_assoc]

theorem length_flatMap_bytes (offset? : String → Option Nat) (statements : List Statement) :
    (statements.flatMap (bytes offset?)).length = totalLength statements := by
  induction statements with
  | nil => rfl
  | cons first rest inductionHypothesis =>
      rw [List.flatMap_cons, List.length_append, inductionHypothesis, length_bytes, totalLength]

end Statement

namespace Source

/-- What a line shows: its text without a comment and without the blanks at its ends. -/
def shown (line : List Char) : List Char :=
  trim (withoutComment false false line)

/-- The line has the label, if any, and the rest.  A label ends in the first colon that is shown, and
what is no name before that is no label. -/
inductive Parts (line : List Char) : Option (List Char) → List Char → Prop
  | labelled {before after : List Char} :
      shown line = before ++ ':' :: after → ':' ∉ before → LabelText (trim before) →
      Parts line (some (trim before)) (trim after)
  | plain :
      (∀ before after, shown line = before ++ ':' :: after → ':' ∉ before →
        ¬LabelText (trim before)) →
      Parts line none (shown line)

/-- The line defines the label. -/
def Defines (line name : List Char) : Prop :=
  ∃ rest, Parts line (some name) rest

/-- The line is an instruction, behind a label or not, with the operand. -/
def Instructs (line : List Char) (opcode : Opcode) (operand : List Char) : Prop :=
  ∃ label? blank rest, Parts line label? (opcode.mnemonic.toList ++ blank :: rest) ∧
    isBlank blank = true ∧ trim rest = operand

/-- The first character is a digit. -/
def StartsWithDigit (text : List Char) : Prop :=
  ∃ digit ∈ text.head?, digit.isDigit = true

/-- The number of bytes that a line comes to. -/
def lineSize (line : List Char) : Nat :=
  match lineStatements line with
  | .ok statements => Statement.totalLength statements
  | .error _ => 0

/-- The number of bytes that lines come to. -/
def size : List (List Char) → Nat
  | [] => 0
  | line :: rest => lineSize line + size rest

variable {line name operand rest : List Char} {label? : Option (List Char)} {opcode : Opcode}
  {statements own : List Statement} {statement : Statement}

theorem labelText_iff :
    LabelText name ↔ (!name.isEmpty && name.all isLabelChar) = true := by
  simp only [Bool.and_eq_true, Bool.not_eq_true', List.isEmpty_eq_false_iff, List.all_eq_true]
  exact ⟨fun label => ⟨label.nonempty, label.named⟩, fun accepted => ⟨accepted.1, accepted.2⟩⟩

theorem parts_of_not_mem (noColon : ':' ∉ shown line) :
    Parts line none (shown line) := by
  refine .plain fun before after split _ _ => noColon ?_
  rw [split]
  exact List.mem_append_right before List.mem_cons_self

theorem splitLabel_of_parts (parts : Parts line label? rest) :
    splitLabel (shown line) =
      ((label?.map fun name => Statement.label (String.ofList name)).toList, rest) := by
  have beforeColon {before : List Char} (noColon : ':' ∉ before) :
      ∀ char ∈ before, (char == ':') = false := by
    intro char member
    rw [beq_eq_false_iff_ne]
    rintro rfl
    exact noColon member
  cases parts with
  | @labelled before after split noColon label =>
      have cut := splitAtFirst_append (· == ':') (beforeColon noColon) (beq_self_eq_true ':') after
      rw [split]
      unfold splitLabel
      rw [cut]
      exact if_pos (labelText_iff.mp label)
  | plain unnamed =>
      by_cases colon : ':' ∈ shown line
      · obtain ⟨before, after, split, noColon⟩ := List.eq_append_cons_of_mem colon
        have cut := splitAtFirst_append (· == ':') (beforeColon noColon) (beq_self_eq_true ':') after
        unfold splitLabel
        rw [split, cut]
        exact if_neg (mt labelText_iff.mpr (unnamed before after split noColon))
      · exact splitLabel_of_not_mem colon

theorem lineStatements_of_parts (parts : Parts line label? rest) :
    lineStatements line =
      let label := (label?.map fun name => Statement.label (String.ofList name)).toList
      if rest.isEmpty then .ok label
      else (instruction rest).map fun statement => label ++ [statement] := by
  have split := splitLabel_of_parts parts
  rw [shown] at split
  unfold lineStatements
  rw [split]

theorem instruction_of_blank (opcode : Opcode) {blank : Char} (isBlank : Text.isBlank blank = true)
    (rest : List Char) :
    instruction (opcode.mnemonic.toList ++ blank :: rest) = withOperand opcode (trim rest) := by
  have split := splitAtFirst_append Text.isBlank
    (fun char member => isBlank_of_isLabelChar (opcode.isLabelChar_mnemonic char member)) isBlank
    rest
  unfold instruction
  rw [split]
  simp only [String.ofList_toList, Opcode.ofMnemonic?_mnemonic]

/-- A line that defines a label starts its statements with it. -/
theorem exists_of_defines (defines : Defines line name) (read : lineStatements line = .ok own) :
    ∃ others, own = .label (String.ofList name) :: others := by
  rcases defines with ⟨rest, parts⟩
  rw [lineStatements_of_parts parts] at read
  dsimp only at read
  split at read
  · obtain rfl := Except.ok.inj read
    exact ⟨[], rfl⟩
  · rcases exists_of_map_eq_ok read with ⟨statement, -, rfl⟩
    exact ⟨[statement], rfl⟩

/-- A jump comes behind a label of its line, if there is one. -/
theorem exists_of_instructs (target : opcode.operandKind = .target)
    (instructs : Instructs line opcode operand) (read : lineStatements line = .ok own) :
    ∃ labels statement, own = labels ++ [statement] ∧ Statement.totalLength labels = 0 ∧
      jump opcode operand = .ok statement := by
  rcases instructs with ⟨label?, blank, rest, parts, isBlank, rfl⟩
  have nonempty : (opcode.mnemonic.toList ++ blank :: rest).isEmpty = false := by simp
  have isJump : withOperand opcode (trim rest) = jump opcode (trim rest) := by
    rw [withOperand, target]
  rw [lineStatements_of_parts parts] at read
  simp only [nonempty, Bool.false_eq_true, if_false, instruction_of_blank opcode isBlank,
    isJump] at read
  rcases exists_of_map_eq_ok read with ⟨statement, jumps, rfl⟩
  refine ⟨_, statement, rfl, ?_, jumps⟩
  cases label? with
  | none => rfl
  | some name => rfl

/-- Lines one after another come to their statements one after another. -/
theorem exists_of_statementsFrom_append {number : Nat} {earlier later : List (List Char)}
    (read : statementsFrom number (earlier ++ later) = .ok statements) :
    ∃ front back, statements = front ++ back ∧ statementsFrom number earlier = .ok front ∧
      statementsFrom (number + earlier.length) later = .ok back := by
  induction earlier generalizing number statements with
  | nil => exact ⟨[], statements, rfl, rfl, read⟩
  | cons first earlier inductionHypothesis =>
      rcases exists_of_bind_eq_ok read with ⟨own, readFirst, read⟩
      rcases exists_of_bind_eq_ok read with ⟨others, readOthers, result⟩
      obtain rfl := Except.ok.inj result
      rcases inductionHypothesis readOthers with ⟨front, back, rfl, readFront, readBack⟩
      refine ⟨own ++ front, back, (List.append_assoc _ _ _).symm, ?_, ?_⟩
      · rw [statementsFrom, readFirst, readFront]
        rfl
      · rwa [List.length_cons, Nat.add_comm earlier.length, ← Nat.add_assoc]

theorem size_of_statementsFrom {number : Nat} {lines : List (List Char)}
    (read : statementsFrom number lines = .ok statements) :
    Statement.totalLength statements = size lines := by
  induction lines generalizing number statements with
  | nil =>
      obtain rfl := Except.ok.inj read
      rfl
  | cons first lines inductionHypothesis =>
      rcases exists_of_bind_eq_ok read with ⟨own, readFirst, read⟩
      rcases exists_of_bind_eq_ok read with ⟨others, readOthers, result⟩
      obtain rfl := Except.ok.inj result
      have ownSize : lineSize first = Statement.totalLength own := by
        rw [lineSize, eq_ok_of_mapError readFirst]
      rw [Statement.totalLength_append, inductionHypothesis readOthers, size, ownSize]

/-- The statements of lines, around those of one line. -/
theorem exists_of_statementsFrom {number : Nat} {earlier later : List (List Char)}
    (read : statementsFrom number (earlier ++ line :: later) = .ok statements) :
    ∃ front own back, statements = front ++ (own ++ back) ∧ lineStatements line = .ok own ∧
      Statement.totalLength front = size earlier := by
  rcases exists_of_statementsFrom_append read with ⟨front, rest, rfl, readFront, readRest⟩
  rcases exists_of_bind_eq_ok readRest with ⟨own, readOwn, readRest⟩
  rcases exists_of_bind_eq_ok readRest with ⟨back, -, result⟩
  obtain rfl := Except.ok.inj result
  exact ⟨front, own, back, rfl, eq_ok_of_mapError readOwn, size_of_statementsFrom readFront⟩

/-- An integer that starts with a digit is not negated. -/
theorem magnitudeText_of_readInteger {word : UInt64} (digit : StartsWithDigit operand)
    (read : readInteger operand = .ok word) :
    MagnitudeText true operand word.toNat := by
  cases readInteger_eq_ok_iff.mp read with
  | plain spelled small =>
      rw [UInt64.toNat_ofNat_of_lt' small]
      exact spelled
  | negated =>
      rcases digit with ⟨sign, first, isDigit⟩
      obtain rfl := Option.some.inj first
      cases isDigit

/-- The statement of a jump: a jump to a label, or to a number if the operand starts with a digit. -/
theorem cases_of_jump (jumps : jump opcode operand = .ok statement) :
    (¬StartsWithDigit operand ∧ statement = .branch opcode (String.ofList operand)) ∨
      (StartsWithDigit operand ∧ ∃ target, statement = .branchTo opcode target ∧
        MagnitudeText true operand target.toNat) := by
  cases operand with
  | nil => cases jumps
  | cons first rest =>
      rw [jump] at jumps
      split at jumps
      · rename_i isDigit
        have digit : StartsWithDigit (first :: rest) := ⟨first, rfl, isDigit⟩
        rcases exists_of_bind_eq_ok jumps with ⟨word, isWord, jumps⟩
        split at jumps
        · rename_i small
          obtain rfl := Except.ok.inj jumps
          have kept : word.toUInt16.toNat = word.toNat := by
            rw [UInt64.toNat_toUInt16]
            exact Nat.mod_eq_of_lt small
          refine .inr ⟨digit, _, rfl, ?_⟩
          rw [kept]
          exact magnitudeText_of_readInteger digit isWord
        · cases jumps
      · rename_i noDigit
        refine .inl ⟨?_, (Except.ok.inj jumps).symm⟩
        rintro ⟨other, same, digit⟩
        obtain rfl := Option.some.inj same
        exact noDigit digit

end Source

/-! ## Programs -/

namespace Draft

open Statement

/-- When statements become a program, nothing was wrong, and the program is their bytes. -/
theorem eq_of_build {statements : List Statement} {program : Bytes}
    (built : build statements = .ok program) :
    let offset? := fun name => offsetOf? name 0 statements
    (definedLabels statements).Nodup ∧
      (∀ statement ∈ statements, statement.unresolved? offset? = none) ∧
      program = statements.flatMap (bytes offset?) := by
  intro offset?
  have known : empty.Knows [] := fun name => by simp [empty, definedLabels]
  have clean : firstProblem? [] statements = none := by
    have noted := known.problem_foldl_add statements
    cases wrong : firstProblem? [] statements with
    | none => rfl
    | some problem =>
        rw [wrong] at noted
        rw [build, link, show _ = some problem from noted] at built
        cases built
  rcases short_and_nodup_of_firstProblem? clean with ⟨short, distinct, -⟩
  rw [build_eq_assemble short distinct, assemble, encodeAll_eq] at built
  cases unresolved : statements.findSome? (unresolved? offset?) with
  | some problem =>
      rw [unresolved] at built
      cases built
  | none =>
      rw [unresolved] at built
      exact ⟨distinct, List.findSome?_eq_none_iff.mp unresolved, (Except.ok.inj built).symm⟩

section Built

variable {front back : List Statement} {statement : Statement} {program : Bytes} {name : String}

/-- The bytes of a statement come behind those of the statements before it. -/
theorem take_drop_of_build (built : build (front ++ statement :: back) = .ok program) :
    (program.drop (totalLength front)).take statement.length =
      statement.bytes fun name => offsetOf? name 0 (front ++ statement :: back) := by
  rcases eq_of_build built with ⟨-, -, rfl⟩
  rw [List.flatMap_append, ← length_flatMap_bytes, List.drop_left, List.flatMap_cons,
    ← length_bytes, List.take_left]

/-- A label of a program is defined once, behind the bytes of the statements before it. -/
theorem offsetOf?_of_build (built : build (front ++ .label name :: back) = .ok program) :
    offsetOf? name 0 (front ++ .label name :: back) =
      some (totalLength front) := by
  rcases eq_of_build built with ⟨distinct, -, -⟩
  have notBefore : name ∉ definedLabels front := by
    rw [definedLabels, List.filterMap_append, List.nodup_append] at distinct
    exact fun member => distinct.2.2 name member name (by simp [definedLabel?]) rfl
  refine (offsetOf?_eq_some_iff fun _ => none).mpr ⟨front, back, rfl, notBefore, ?_⟩
  rw [length_flatMap_bytes, Nat.zero_add]

end Built

end Draft

namespace Source

variable {line defining name operand text : List Char} {earlier later before after : List (List Char)}
  {opcode : Opcode} {program : Bytes} {statements : List Statement}

theorem exists_of_assemble (assembled : assemble text = .ok program) :
    ∃ statements, statementsFrom 1 (Text.lines text) = .ok statements ∧
      Draft.build statements = .ok program := by
  rcases exists_of_bind_eq_ok assembled with ⟨statements, read, built⟩
  exact ⟨statements, read, eq_ok_of_mapError built⟩

/-- The bytes of a jump's statement stand behind what the lines before it come to. -/
theorem exists_bytes_of_instructs (read : statementsFrom 1 (Text.lines text) = .ok statements)
    (built : Draft.build statements = .ok program)
    (jumps : Text.lines text = earlier ++ line :: later) (instructs : Instructs line opcode operand)
    (isJump : opcode.operandKind = .target) :
    ∃ statement ∈ statements, jump opcode operand = .ok statement ∧
      (program.drop (size earlier)).take statement.length =
        statement.bytes fun name => Statement.offsetOf? name 0 statements := by
  rw [jumps] at read
  rcases exists_of_statementsFrom read with ⟨front, own, back, split, readLine, sized⟩
  rcases exists_of_instructs isJump instructs readLine with
    ⟨labelsHere, statement, rfl, weightless, isStatement⟩
  obtain rfl : statements = (front ++ labelsHere) ++ statement :: back := by
    rw [split]
    simp
  refine ⟨statement, by simp, isStatement, ?_⟩
  have place := Draft.take_drop_of_build built
  rwa [Statement.totalLength_append, weightless, sized, Nat.add_zero] at place

/-- A label's offset is what the lines before it come to. -/
theorem offsetOf?_of_defines (read : statementsFrom 1 (Text.lines text) = .ok statements)
    (built : Draft.build statements = .ok program)
    (labels : Text.lines text = before ++ defining :: after) (defines : Defines defining name) :
    Statement.offsetOf? (String.ofList name) 0 statements = some (size before) := by
  rw [labels] at read
  rcases exists_of_statementsFrom read with ⟨front, own, back, split, readDefining, sized⟩
  rcases exists_of_defines defines readDefining with ⟨others, rfl⟩
  obtain rfl : statements = front ++ .label (String.ofList name) :: (others ++ back) := by
    rw [split]
    simp
  rw [Draft.offsetOf?_of_build built, sized]

/-- In every text that assembles, a jump whose operand is the name of a label, wherever that is
defined, is encoded with the offset of the label, the number of bytes of the lines before it.  If the
operand starts with a digit, the jump is encoded with the number that it spells, whatever the labels
are; only behind the mark of a hexadecimal number may it have a plus sign. -/
theorem assemble_jumps (assembled : assemble text = .ok program)
    (jumps : Text.lines text = earlier ++ line :: later) (instructs : Instructs line opcode operand)
    (isJump : opcode ∈ [.jmp, .jnz, .jz]) :
    (¬StartsWithDigit operand → ∀ before defining after,
      Text.lines text = before ++ defining :: after → Defines defining operand →
      ∃ target : UInt16,
        (program.drop (size earlier)).take 3 = Instruction.encode ⟨opcode, .target target⟩ ∧
          target.toNat = size before) ∧
    (StartsWithDigit operand →
      ∃ target : UInt16,
        (program.drop (size earlier)).take 3 = Instruction.encode ⟨opcode, .target target⟩ ∧
          MagnitudeText true operand target.toNat ∧
          ('+' ∉ operand → MagnitudeText false operand target.toNat)) := by
  have kind : opcode.operandKind = .target := by
    simp only [List.mem_cons, List.not_mem_nil, or_false] at isJump
    rcases isJump with rfl | rfl | rfl <;> rfl
  rcases exists_of_assemble assembled with ⟨statements, read, built⟩
  rcases exists_bytes_of_instructs read built jumps instructs kind with
    ⟨statement, member, isStatement, place⟩
  rcases cases_of_jump isStatement with ⟨noDigit, rfl⟩ | ⟨digit, target, rfl, spelled⟩
  · refine ⟨fun _ before defining after labels defines => ?_, fun digit => absurd digit noDigit⟩
    have offset := offsetOf?_of_defines read built labels defines
    have resolved := (Draft.eq_of_build built).2.1 _ member
    rw [Statement.unresolved?, offset] at resolved
    have small : size before < UInt16.size := by
      by_contra large
      simp [large] at resolved
    have kept : (UInt16.ofNat (size before)).toNat = size before := UInt16.toNat_ofNat_of_lt' small
    refine ⟨UInt16.ofNat (size before), ?_, kept⟩
    rw [Statement.bytes, offset] at place
    rw [Instruction.encode, Operand.encode, kept]
    exact place
  · exact ⟨fun noDigit => absurd digit noDigit,
      fun _ => ⟨target, place, spelled, fun noPlus => spelled.bare noPlus⟩⟩

/-- A jump back to a label that lies behind one byte. -/
theorem assemble_jumps_back :
    let text := "nop\na: inc\njnz a".toList
    let program : Bytes := [0, 16, 14, 1, 0]
    assemble text = .ok program ∧
      Text.lines text = ["nop".toList, "a: inc".toList] ++ "jnz a".toList :: [] ∧
      Instructs "jnz a".toList .jnz ['a'] ∧
      Text.lines text = ["nop".toList] ++ "a: inc".toList :: ["jnz a".toList] ∧
      Defines "a: inc".toList ['a'] ∧
      ∃ target : UInt16, target.toNat = 1 ∧
        (program.drop 2).take 3 = Instruction.encode ⟨.jnz, .target target⟩ := by
  intro text program
  have assembled : assemble text = .ok program := by decide
  have jumps : Text.lines text = ["nop".toList, "a: inc".toList] ++ "jnz a".toList :: [] := by
    decide
  have instructs : Instructs "jnz a".toList .jnz ['a'] :=
    ⟨none, ' ', ['a'], parts_of_not_mem (by decide), by decide, by decide⟩
  have labels : Text.lines text = ["nop".toList] ++ "a: inc".toList :: ["jnz a".toList] := by
    decide
  have defines : Defines "a: inc".toList ['a'] :=
    ⟨_, @Parts.labelled _ ['a'] " inc".toList (by decide) (by decide)
      (labelText_iff.mpr (by decide))⟩
  have noDigit : ¬StartsWithDigit ['a'] := by
    rintro ⟨digit, first, isDigit⟩
    obtain rfl := Option.some.inj first
    cases isDigit
  rcases (assemble_jumps assembled jumps instructs (by decide)).1 noDigit _ _ _ labels defines with
    ⟨target, place, offset⟩
  exact ⟨assembled, jumps, instructs, labels, defines, target, offset, place⟩

/-- A jump to a label whose name is a digit goes elsewhere: the label lies behind one byte, and the
jump has the number 5. -/
theorem assemble_jumps_digit :
    let text := "nop\n5: jmp 5".toList
    let program : Bytes := [0, 10, 5, 0]
    assemble text = .ok program ∧
      Text.lines text = ["nop".toList] ++ "5: jmp 5".toList :: [] ∧
      Instructs "5: jmp 5".toList .jmp ['5'] ∧ Defines "5: jmp 5".toList ['5'] ∧
      size ["nop".toList] = 1 ∧
      ∀ target : UInt16, (program.drop 1).take 3 = Instruction.encode ⟨.jmp, .target target⟩ →
        target.toNat = 5 := by
  intro text program
  have parts : Parts "5: jmp 5".toList (some ['5']) "jmp 5".toList :=
    @Parts.labelled _ ['5'] " jmp 5".toList (by decide) (by decide) (labelText_iff.mpr (by decide))
  refine ⟨by decide, by decide, ⟨_, ' ', ['5'], parts, by decide, by decide⟩, ⟨_, parts⟩,
    by decide, fun target encoded => ?_⟩
  have operand : [5, 0] = Bytes.ofLittleEndian 2 target.toNat := (List.cons.inj encoded).2
  have value : 5 = target.toNat % 256 ^ 2 :=
    (congrArg Bytes.littleEndian operand).trans (Bytes.littleEndian_ofLittleEndian 2 _)
  have small := target.toNat_lt
  omega

end Source

end TagMachine
