import TagMachine.Proofs.Code.Sweeping

/-!
# Encoding and sweeping are inverse

The encodings of instructions, one after another, are swept into those instructions.  Any bytes at
all are cut by a sweep into spans: the encodings of the instructions it finds, single bytes past the
instruction table, and perhaps a last opcode with too few bytes behind it.
-/

namespace TagMachine

/-- The number of bytes of an operand. -/
def Operand.width : Operand → Nat
  | none => 0
  | immediate _ => 8
  | target _ => 2
  | literal bytes => 1 + bytes.length

/-- The number of bytes that an operand of the kind takes when it is read from these. -/
def OperandKind.width (kind : OperandKind) (bytes : Bytes) : Nat :=
  match kind with
  | none => 0
  | immediate => 8
  | target => 2
  | literal =>
      match bytes with
      | [] => 1
      | length :: _ => length.toNat + 1

theorem Operand.length_encode (operand : Operand) :
    operand.encode.length = operand.width := by
  cases operand with
  | none => rfl
  | immediate word => exact Bytes.length_ofLittleEndian 8 _
  | target offset => exact Bytes.length_ofLittleEndian 2 _
  | literal bytes => rw [encode, width, List.length_cons, Nat.add_comm]

theorem Instruction.encodedLength_eq (instruction : Instruction) :
    instruction.encodedLength = 1 + instruction.operand.width := by
  rw [encodedLength, encode, List.length_cons, Operand.length_encode, Nat.add_comm]

namespace CodeItem

/-! ## Sweeping over encodings -/

section Encodings

variable {taken : Bytes} {count offset : Nat} {operand : Operand} {instruction : Instruction}

theorem exactly?_append (long : taken.length = count) (rest : Bytes) :
    exactly? count (taken ++ rest) = some taken := by
  simp [exactly?, ← long]

/-- An operand is read back from its bytes, whatever stands behind them. -/
theorem operand?_encode (short : ∀ bytes, operand = .literal bytes → bytes.length ≤ 255)
    (rest : Bytes) :
    operand? operand.kind (operand.encode ++ rest) = some (operand, operand.width) := by
  cases operand with
  | none => rfl
  | immediate word =>
      have word_eq : UInt64.ofNat (Bytes.ofLittleEndian 8 word.toNat).littleEndian = word := by
        have small : word.toNat < 256 ^ 8 := word.toNat_lt
        rw [Bytes.littleEndian_ofLittleEndian, Nat.mod_eq_of_lt small, UInt64.ofNat_toNat]
      rw [Operand.kind, operand?, Operand.encode,
        exactly?_append (Bytes.length_ofLittleEndian 8 _), Option.map_some, word_eq]
      rfl
  | target place =>
      have place_eq : UInt16.ofNat (Bytes.ofLittleEndian 2 place.toNat).littleEndian = place := by
        have small : place.toNat < 256 ^ 2 := place.toNat_lt
        rw [Bytes.littleEndian_ofLittleEndian, Nat.mod_eq_of_lt small, UInt16.ofNat_toNat]
      rw [Operand.kind, operand?, Operand.encode,
        exactly?_append (Bytes.length_ofLittleEndian 2 _), Option.map_some, place_eq]
      rfl
  | literal bytes =>
      have fits := short bytes rfl
      have length_eq : (UInt8.ofNat bytes.length).toNat = bytes.length := by
        rw [UInt8.toNat_ofNat']
        omega
      have read := exactly?_append (rfl : bytes.length = bytes.length) rest
      simp only [Operand.kind, operand?, Operand.encode, List.cons_append, length_eq, read,
        Option.map_some, Operand.width, Nat.add_comm]

theorem startedBy_encode (wellFormed : instruction.WellFormed) (rest : Bytes) :
    startedBy instruction.opcode.byte (instruction.operand.encode ++ rest) =
      (.instruction instruction, instruction.operand.width) := by
  have read := operand?_encode wellFormed.literal_short rest
  rw [wellFormed.kind_eq] at read
  simp only [startedBy, Opcode.ofByte?_byte, read]

/-- A sweep finds an instruction where its encoding lies, and goes on behind it. -/
theorem sweepFrom_encode_append (wellFormed : instruction.WellFormed) (offset : Nat)
    (rest : Bytes) :
    sweepFrom offset (instruction.encode ++ rest) =
      (offset, .instruction instruction) ::
        sweepFrom (offset + instruction.encodedLength) rest := by
  have behind : (instruction.operand.encode ++ rest).drop instruction.operand.width = rest := by
    rw [← Operand.length_encode, List.drop_left]
  have next : offset + instruction.operand.width + 1 = offset + instruction.encodedLength := by
    rw [Instruction.encodedLength_eq]
    omega
  rw [Instruction.encode, List.cons_append, sweepFrom, startedBy_encode wellFormed]
  dsimp only
  rw [behind, next]

theorem sweepFrom_flatMap_encode {code : List Instruction}
    (wellFormed : ∀ instruction ∈ code, instruction.WellFormed) (offset : Nat) :
    sweepFrom offset (code.flatMap Instruction.encode) =
      code.mapIdx fun index instruction =>
        (offset + ((code.take index).flatMap Instruction.encode).length,
          .instruction instruction) := by
  induction code generalizing offset with
  | nil =>
      rw [List.flatMap_nil, sweepFrom]
      rfl
  | cons first rest inductionHypothesis =>
      have later := inductionHypothesis fun instruction member =>
        wellFormed instruction (List.mem_cons_of_mem _ member)
      rw [List.flatMap_cons, sweepFrom_encode_append (wellFormed first List.mem_cons_self), later,
        List.mapIdx_cons]
      simp only [List.take_zero, List.flatMap_nil, List.length_nil, List.take_succ_cons,
        List.flatMap_cons, List.length_append, Instruction.encodedLength, Nat.add_zero,
        Nat.add_assoc]

end Encodings

/-! ## The spans of a sweep -/

/-- What an item covers, with the spans behind its own: the bytes of an instruction, one byte past
the table, or an opcode at the very end with fewer bytes behind it than its operand takes. -/
inductive Covers : CodeItem → (span : Bytes) → (later : List Bytes) → Prop
  | instruction {code : Instruction} {later : List Bytes} :
      code.WellFormed → Covers (.instruction code) code.encode later
  | undefined {byte : UInt8} {later : List Bytes} :
      33 ≤ byte.toNat → Covers (.undefined byte) [byte] later
  | truncated {opcode : Opcode} {operand : Bytes} :
      operand.length < opcode.operandKind.width operand →
      Covers (.truncated opcode) (opcode.byte :: operand) []

theorem length_lt_width_of_operand?_eq_none {kind : OperandKind} {bytes : Bytes}
    (missing : operand? kind bytes = none) :
    bytes.length < kind.width bytes := by
  cases kind with
  | none => cases missing
  | immediate => exact length_lt_of_exactly?_eq_none (Option.map_eq_none_iff.mp missing)
  | target => exact length_lt_of_exactly?_eq_none (Option.map_eq_none_iff.mp missing)
  | literal =>
      cases bytes with
      | nil => exact Nat.one_pos
      | cons length rest =>
          have few := length_lt_of_exactly?_eq_none (Option.map_eq_none_iff.mp missing)
          exact Nat.succ_lt_succ few

theorem eq_of_startedBy_undefined {byte other : UInt8} {rest : Bytes} {count : Nat}
    (started : startedBy byte rest = (.undefined other, count)) :
    other = byte ∧ count = 0 := by
  have unknown := ofByte?_of_startedBy_undefined started
  simp only [startedBy, unknown, Prod.mk.injEq, undefined.injEq] at started
  exact ⟨started.1.symm, started.2.symm⟩

theorem count_of_startedBy_truncated {byte : UInt8} {rest : Bytes} {opcode : Opcode} {count : Nat}
    (started : startedBy byte rest = (.truncated opcode, count)) :
    count = rest.length := by
  rcases operand?_of_startedBy_truncated started with ⟨known, missing⟩
  simp only [startedBy, known, missing, Prod.mk.injEq] at started
  exact started.2.symm

/-- What a byte starts covers the byte and as many of those after it as were counted. -/
theorem covers_of_startedBy {byte : UInt8} {rest : Bytes} {item : CodeItem} {count : Nat}
    (started : startedBy byte rest = (item, count)) {later : List Bytes}
    (ended : rest.drop count = [] → later = []) :
    item.Covers (byte :: rest.take count) later ∧ count ≤ rest.length := by
  cases item with
  | instruction code =>
      rcases startedBy_eq_instruction started with ⟨wellFormed, whole, long⟩
      have encoded : code.encode = byte :: rest.take count := by
        rw [← List.take_succ_cons, ← whole, ← long, Instruction.encodedLength, List.take_left]
      have lengths := congrArg List.length whole
      rw [List.length_append, List.length_drop, List.length_cons, ← Instruction.encodedLength,
        long] at lengths
      rw [← encoded]
      exact ⟨.instruction wellFormed, by omega⟩
  | undefined other =>
      rcases eq_of_startedBy_undefined started with ⟨rfl, rfl⟩
      have unknown := ofByte?_of_startedBy_undefined started
      rw [List.take_zero]
      exact ⟨.undefined ((Opcode.ofByte?_eq_none_iff _).mp unknown), Nat.zero_le _⟩
  | truncated opcode =>
      rcases operand?_of_startedBy_truncated started with ⟨known, missing⟩
      obtain rfl := count_of_startedBy_truncated started
      rw [ended List.drop_length, List.take_length, ← Opcode.byte_of_ofByte? known]
      exact ⟨.truncated (length_lt_width_of_operand?_eq_none missing), Nat.le_refl _⟩

/-- Every item of a sweep covers a span, and the spans lie one after another. -/
theorem exists_spans (offset : Nat) (bytes : Bytes) :
    ∃ spans : List Bytes, spans.flatten = bytes ∧
      spans.length = (sweepFrom offset bytes).length ∧
      ∀ index place item, (sweepFrom offset bytes)[index]? = some (place, item) →
        ∃ span, spans[index]? = some span ∧
          place = offset + (spans.take index).flatten.length ∧
          decodeAt (spans.drop index).flatten 0 = some (item, span.length) ∧
          item.Covers span (spans.drop (index + 1)) := by
  induction offset, bytes using sweepFrom.induct with
  | case1 offset =>
      refine ⟨[], rfl, ?_, ?_⟩ <;> rw [sweepFrom]
      · rfl
      · intro index place item found
        cases found
  | case2 offset byte rest item count started inductionHypothesis =>
      rcases inductionHypothesis with ⟨later, behind, counted, covered⟩
      have unfolded : sweepFrom offset (byte :: rest) =
          (offset, item) :: sweepFrom (offset + count + 1) (rest.drop count) := by
        rw [sweepFrom, started]
      have ended : rest.drop count = [] → later = [] := by
        intro nothing
        rw [nothing, sweepFrom] at counted
        exact List.eq_nil_of_length_eq_zero counted
      rcases covers_of_startedBy started ended with ⟨covers, within⟩
      have long : (byte :: rest.take count).length = count + 1 := by
        rw [List.length_cons, List.length_take_of_le within]
      have whole : ((byte :: rest.take count) :: later).flatten = byte :: rest := by
        rw [List.flatten_cons, behind, List.cons_append, List.take_append_drop]
      refine ⟨(byte :: rest.take count) :: later, whole, ?_, ?_⟩
      · rw [unfolded, List.length_cons, List.length_cons, counted]
      · rw [unfolded]
        intro index place found_item found
        cases index with
        | zero =>
            cases found
            refine ⟨_, rfl, rfl, ?_, covers⟩
            rw [List.drop_zero, whole, long]
            exact decodeAt_of_drop rfl started
        | succ index =>
            rcases covered index place found_item found with ⟨span, spanned, placed, rest⟩
            refine ⟨span, spanned, ?_, rest⟩
            rw [placed, List.take_succ_cons, List.flatten_cons, List.length_append, long]
            omega

theorem Covers.length_pos {item : CodeItem} {span : Bytes} {later : List Bytes}
    (covers : item.Covers span later) :
    1 ≤ span.length := by
  cases covers with
  | instruction _ => exact Instruction.encodedLength_pos _
  | undefined _ => exact Nat.le_refl 1
  | truncated _ => exact Nat.succ_pos _

theorem decodeAt_eq (bytes : Bytes) (offset : Nat) :
    decodeAt bytes offset = decodeAt (bytes.drop offset) 0 := rfl

/-- Encodings of instructions are swept into those instructions, each where the encodings before it
end.  Any bytes are cut by a sweep into spans, one after another and together all of the bytes, and
each item covers its span: a decoded instruction is encoded by it. -/
theorem sweep_inverts_encode :
    (∀ code : List Instruction, (∀ instruction ∈ code, instruction.WellFormed) →
      sweep (code.flatMap Instruction.encode) =
        code.mapIdx fun index instruction =>
          (((code.take index).flatMap Instruction.encode).length, .instruction instruction)) ∧
      ∀ bytes : Bytes, ∃ spans : List Bytes,
        spans.flatten = bytes ∧ spans.length = (sweep bytes).length ∧
          decodeAt bytes bytes.length = none ∧
          ∀ index offset item, (sweep bytes)[index]? = some (offset, item) →
            ∃ span, spans[index]? = some span ∧ 1 ≤ span.length ∧
              offset = (spans.take index).flatten.length ∧
              decodeAt bytes offset = some (item, span.length) ∧
              item.Covers span (spans.drop (index + 1)) := by
  constructor
  · intro code wellFormed
    have swept := sweepFrom_flatMap_encode wellFormed 0
    simp only [Nat.zero_add] at swept
    exact swept
  · intro bytes
    rcases exists_spans 0 bytes with ⟨spans, whole, counted, covered⟩
    refine ⟨spans, whole, counted, ?_, ?_⟩
    · rw [decodeAt, List.drop_length]
    · intro index offset item found
      rcases covered index offset item found with ⟨span, spanned, placed, decoded, covers⟩
      rw [Nat.zero_add] at placed
      refine ⟨span, spanned, covers.length_pos, placed, ?_, covers⟩
      have cut : (spans.take index).flatten ++ (spans.drop index).flatten = bytes := by
        rw [← List.flatten_append, List.take_append_drop, whole]
      rw [decodeAt_eq, placed, ← cut, List.drop_left]
      exact decoded

/-- A number, a literal, a jump and a halt, swept as they were encoded; and bytes that are no
encoding, the last of them the beginning of a literal. -/
theorem sweep_inverts_encode_literal :
    let code : List Instruction :=
      [⟨.push, .immediate 5⟩, ⟨.pushs, .literal [0, 255]⟩, ⟨.jmp, .target 9⟩, ⟨.halt, .none⟩]
    (∀ instruction ∈ code, instruction.WellFormed) ∧
      sweep (code.flatMap Instruction.encode) =
        [(0, .instruction ⟨.push, .immediate 5⟩), (9, .instruction ⟨.pushs, .literal [0, 255]⟩),
          (13, .instruction ⟨.jmp, .target 9⟩), (16, .instruction ⟨.halt, .none⟩)] ∧
      ∃ spans : List Bytes, spans.flatten = [33, 22, 2, 7] ∧
        ∃ span, spans[1]? = some span ∧ Covers (.truncated .pushs) span (spans.drop 2) := by
  intro code
  have wellFormed : ∀ instruction ∈ code, instruction.WellFormed := by
    simp only [code, List.forall_mem_cons, List.not_mem_nil, false_imp_iff, implies_true, and_true]
    refine ⟨⟨rfl, ?_⟩, ⟨rfl, ?_⟩, ⟨rfl, ?_⟩, ⟨rfl, ?_⟩⟩ <;> rintro bytes same <;> cases same
    decide
  rcases sweep_inverts_encode with ⟨encodings, tilings⟩
  refine ⟨wellFormed, encodings code wellFormed, ?_⟩
  rcases tilings [33, 22, 2, 7] with ⟨spans, whole, -, -, covered⟩
  have swept : (sweep [33, 22, 2, 7])[1]? = some (1, .truncated .pushs) := by
    decide +kernel
  rcases covered 1 1 (.truncated .pushs) swept with ⟨span, spanned, -, -, -, covers⟩
  exact ⟨spans, whole, span, spanned, covers⟩

end CodeItem

end TagMachine
