import TagMachine.Bytes.LittleEndian
import TagMachine.Code.Listing

/-!
# Sweeping over a program

A sweep goes from item to item, each as long as it was read.  Bytes in which a sweep finds nothing
but complete instructions are the encodings of those instructions, one after another.
-/

namespace TagMachine

theorem Opcode.eq_push_of_operandKind {opcode : Opcode} (kind : opcode.operandKind = .immediate) :
    opcode = .push := by
  cases opcode <;> first | rfl | cases kind

theorem Opcode.eq_pushs_of_operandKind {opcode : Opcode} (kind : opcode.operandKind = .literal) :
    opcode = .pushs := by
  cases opcode <;> first | rfl | cases kind

namespace CodeItem

/-! ## What an item is read from -/

theorem exactly?_eq_some {count : Nat} {bytes taken : Bytes}
    (found : exactly? count bytes = some taken) :
    bytes.take count = taken ∧ taken.length = count := by
  simp only [exactly?, Option.ite_none_right_eq_some, Option.some.injEq] at found
  rcases found with ⟨long, rfl⟩
  exact ⟨rfl, long⟩

theorem length_lt_of_exactly?_eq_none {count : Nat} {bytes : Bytes}
    (missing : exactly? count bytes = none) :
    bytes.length < count := by
  simp only [exactly?, ite_eq_right_iff, reduceCtorEq, imp_false, List.length_take] at missing
  omega

/-- As many bytes as were asked for denote a number that is written by them. -/
theorem ofLittleEndian_of_exactly? {count : Nat} {bytes taken : Bytes}
    (found : exactly? count bytes = some taken) :
    taken.littleEndian < 256 ^ count ∧
      Bytes.ofLittleEndian count taken.littleEndian = bytes.take count := by
  rcases exactly?_eq_some found with ⟨whole, rfl⟩
  exact ⟨taken.littleEndian_lt, by rw [taken.ofLittleEndian_littleEndian, whole]⟩

section Operands

variable {kind : OperandKind} {bytes : Bytes} {operand : Operand} {count : Nat}

/-- An operand is encoded by the bytes that it was read from. -/
theorem encode_of_operand?_eq_some (found : operand? kind bytes = some (operand, count)) :
    operand.encode = bytes.take count ∧ operand.encode.length = count := by
  cases kind with
  | none =>
      cases found
      exact ⟨rfl, rfl⟩
  | immediate =>
      rcases Option.map_eq_some_iff.mp found with ⟨taken, exact, same⟩
      rcases ofLittleEndian_of_exactly? exact with ⟨small, restored⟩
      cases same
      rw [Operand.encode, UInt64.toNat_ofNat_of_lt' small]
      exact ⟨restored, Bytes.length_ofLittleEndian 8 _⟩
  | target =>
      rcases Option.map_eq_some_iff.mp found with ⟨taken, exact, same⟩
      rcases ofLittleEndian_of_exactly? exact with ⟨small, restored⟩
      cases same
      rw [Operand.encode, UInt16.toNat_ofNat_of_lt' small]
      exact ⟨restored, Bytes.length_ofLittleEndian 2 _⟩
  | literal =>
      cases bytes with
      | nil => cases found
      | cons length rest =>
          rcases Option.map_eq_some_iff.mp found with ⟨taken, exact, same⟩
          rcases exactly?_eq_some exact with ⟨whole, long⟩
          cases same
          simp [Operand.encode, whole, long]

theorem kind_of_operand?_eq_some (found : operand? kind bytes = some (operand, count)) :
    operand.kind = kind := by
  cases kind with
  | none =>
      cases found
      rfl
  | immediate =>
      rcases Option.map_eq_some_iff.mp found with ⟨_, _, same⟩
      cases same
      rfl
  | target =>
      rcases Option.map_eq_some_iff.mp found with ⟨_, _, same⟩
      cases same
      rfl
  | literal =>
      cases bytes with
      | nil => cases found
      | cons length rest =>
          rcases Option.map_eq_some_iff.mp found with ⟨_, _, same⟩
          cases same
          rfl

theorem literal_short_of_operand?_eq_some {literal : Bytes}
    (found : operand? kind bytes = some (.literal literal, count)) :
    literal.length ≤ 255 := by
  have kindEq := kind_of_operand?_eq_some found
  cases kindEq
  cases bytes with
  | nil => cases found
  | cons length rest =>
      rcases Option.map_eq_some_iff.mp found with ⟨taken, exact, same⟩
      rcases exactly?_eq_some exact with ⟨_, long⟩
      have small := length.toNat_lt
      cases same
      omega

end Operands

section Started

variable {byte : UInt8} {rest : Bytes} {count : Nat}

theorem ofByte?_of_startedBy_undefined {undefined : UInt8}
    (found : startedBy byte rest = (.undefined undefined, count)) :
    Opcode.ofByte? byte = none := by
  unfold startedBy at found
  split at found
  · assumption
  · split at found <;> cases found

theorem operand?_of_startedBy_instruction {instruction : Instruction}
    (found : startedBy byte rest = (.instruction instruction, count)) :
    Opcode.ofByte? byte = some instruction.opcode ∧
      operand? instruction.opcode.operandKind rest = some (instruction.operand, count) := by
  unfold startedBy at found
  split at found
  · cases found
  · rename_i opcode known
    split at found
    · rename_i operand taken read
      cases found
      exact ⟨known, read⟩
    · cases found

theorem operand?_of_startedBy_truncated {opcode : Opcode}
    (found : startedBy byte rest = (.truncated opcode, count)) :
    Opcode.ofByte? byte = some opcode ∧ operand? opcode.operandKind rest = none := by
  unfold startedBy at found
  split at found
  · cases found
  · rename_i known
    split at found
    · cases found
    · rename_i missing
      cases found
      exact ⟨known, missing⟩

/-- A complete instruction is well formed and encoded by the bytes that it was read from. -/
theorem startedBy_eq_instruction {instruction : Instruction}
    (found : startedBy byte rest = (.instruction instruction, count)) :
    instruction.WellFormed ∧ instruction.encode ++ rest.drop count = byte :: rest ∧
      instruction.encodedLength = count + 1 := by
  rcases operand?_of_startedBy_instruction found with ⟨known, read⟩
  rcases encode_of_operand?_eq_some read with ⟨encoded, long⟩
  refine ⟨⟨kind_of_operand?_eq_some read, ?_⟩, ?_, ?_⟩
  · intro literal same
    rw [same] at read
    exact literal_short_of_operand?_eq_some read
  · rw [Instruction.encode, Opcode.byte_of_ofByte? known, encoded, List.cons_append,
      List.take_append_drop]
  · rw [Instruction.encodedLength, Instruction.encode, List.length_cons, long]

end Started

theorem decodeAt_of_drop {bytes : Bytes} {offset : Nat} {byte : UInt8} {rest : Bytes}
    {item : CodeItem} {count : Nat} (found : bytes.drop offset = byte :: rest)
    (started : startedBy byte rest = (item, count)) :
    decodeAt bytes offset = some (item, count + 1) := by
  simp only [decodeAt, found, started]

theorem encodedLength_of_decodeAt {bytes : Bytes} {offset length : Nat} {code : Instruction}
    (decoded : decodeAt bytes offset = some (.instruction code, length)) :
    code.encodedLength = length := by
  unfold decodeAt at decoded
  split at decoded
  · cases decoded
  · rename_i byte rest _
    rcases started : startedBy byte rest with ⟨item, count⟩
    rw [started] at decoded
    cases decoded
    exact (startedBy_eq_instruction started).2.2

/-- What is cut off takes an operand. -/
theorem operandKind_ne_none_of_decodeAt {bytes : Bytes} {offset length : Nat} {opcode : Opcode}
    (decoded : decodeAt bytes offset = some (.truncated opcode, length)) :
    opcode.operandKind ≠ .none := by
  unfold decodeAt at decoded
  split at decoded
  · cases decoded
  · rename_i byte rest _
    rcases started : startedBy byte rest with ⟨item, count⟩
    rw [started] at decoded
    cases decoded
    intro kind
    have missing := (operand?_of_startedBy_truncated started).2
    rw [kind] at missing
    cases missing

/-- A sweep goes on after what is decoded at its offset. -/
theorem sweepFrom_drop (bytes : Bytes) (offset : Nat) :
    sweepFrom offset (bytes.drop offset) =
      match decodeAt bytes offset with
      | none => []
      | some (item, length) =>
          (offset, item) :: sweepFrom (offset + length) (bytes.drop (offset + length)) := by
  unfold decodeAt
  cases left : bytes.drop offset with
  | nil => rw [sweepFrom]
  | cons byte rest =>
      rcases started : startedBy byte rest with ⟨item, count⟩
      have later : bytes.drop (offset + (count + 1)) = rest.drop count := by
        rw [← List.drop_drop, left, List.drop_succ_cons]
      simp only [started]
      rw [sweepFrom, started, later]
      rfl

theorem sweepFrom_of_decodeAt {bytes : Bytes} {offset length : Nat} {item : CodeItem}
    (decoded : decodeAt bytes offset = some (item, length)) :
    sweepFrom offset (bytes.drop offset) =
      (offset, item) :: sweepFrom (offset + length) (bytes.drop (offset + length)) := by
  rw [sweepFrom_drop, decoded]

end CodeItem

/-! ## Whole programs -/

/-- Instructions with their offsets when they lie one after another, the first at `offset`. -/
def Instruction.placedFrom : (offset : Nat) → List Instruction → List (Nat × Instruction)
  | _, [] => []
  | offset, first :: rest => (offset, first) :: placedFrom (offset + first.encodedLength) rest

namespace Instruction

theorem encodedLength_pos (instruction : Instruction) :
    0 < instruction.encodedLength := by
  rw [encodedLength, encode, List.length_cons]
  exact Nat.succ_pos _

theorem mem_of_mem_placedFrom {offset : Nat} {code : List Instruction} {entry : Nat × Instruction}
    (member : entry ∈ placedFrom offset code) :
    offset ≤ entry.1 ∧ entry.2 ∈ code := by
  induction code generalizing offset with
  | nil => cases member
  | cons first rest inductionHypothesis =>
      rcases List.mem_cons.mp member with rfl | later
      · exact ⟨Nat.le_refl _, List.mem_cons_self⟩
      · rcases inductionHypothesis later with ⟨lower, inRest⟩
        exact ⟨by omega, List.mem_cons_of_mem _ inRest⟩

theorem pairwise_placedFrom (offset : Nat) (code : List Instruction) :
    (placedFrom offset code).Pairwise fun earlier later => earlier.1 < later.1 := by
  induction code generalizing offset with
  | nil => exact .nil
  | cons first rest inductionHypothesis =>
      refine .cons ?_ (inductionHypothesis _)
      intro entry member
      have lower := (mem_of_mem_placedFrom member).1
      have positive := first.encodedLength_pos
      simp only
      omega

theorem flatMap_placedFrom {Value : Type} (offset : Nat) (code : List Instruction)
    (image : Instruction → List Value) :
    ((placedFrom offset code).flatMap fun entry => image entry.2) = code.flatMap image := by
  induction code generalizing offset with
  | nil => rfl
  | cons first rest inductionHypothesis =>
      rw [placedFrom, List.flatMap_cons, List.flatMap_cons, inductionHypothesis]

end Instruction

/-- A sweep that finds nothing but complete instructions finds them where their encodings lie. -/
theorem CodeItem.exists_code_of_complete {offset : Nat} {bytes : Bytes}
    (complete : ∀ entry ∈ sweepFrom offset bytes, ∃ code, entry.2 = .instruction code) :
    ∃ code : List Instruction,
      (∀ instruction ∈ code, instruction.WellFormed) ∧
        bytes = code.flatMap Instruction.encode ∧
        sweepFrom offset bytes =
          (Instruction.placedFrom offset code).map fun (place, code) =>
            (place, .instruction code) := by
  induction offset, bytes using sweepFrom.induct with
  | case1 offset =>
      refine ⟨[], by simp, rfl, ?_⟩
      rw [sweepFrom]
      rfl
  | case2 offset byte rest item count started inductionHypothesis =>
      have unfolded : sweepFrom offset (byte :: rest) =
          (offset, item) :: sweepFrom (offset + count + 1) (rest.drop count) := by
        rw [sweepFrom, started]
      rw [unfolded] at complete ⊢
      rcases inductionHypothesis fun entry member =>
        complete entry (List.mem_cons_of_mem _ member) with ⟨code, wellFormed, bytesEq, entriesEq⟩
      obtain ⟨first, rfl⟩ : ∃ first, item = .instruction first :=
        complete (offset, item) List.mem_cons_self
      rcases startedBy_eq_instruction started with ⟨firstWellFormed, whole, long⟩
      refine ⟨first :: code, ?_, ?_, ?_⟩
      · intro instruction member
        rcases List.mem_cons.mp member with rfl | later
        · exact firstWellFormed
        · exact wellFormed instruction later
      · rw [List.flatMap_cons, ← bytesEq, whole]
      · rw [entriesEq, Instruction.placedFrom, long]
        rfl

end TagMachine
