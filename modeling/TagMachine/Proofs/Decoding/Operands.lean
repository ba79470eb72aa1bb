import TagMachine.Proofs.Code.Sweeping
import TagMachine.Proofs.Sequencing
import TagMachine.Proofs.ValueMachine

/-!
# Operands of a running program

A running machine takes its operands from the bytes after the opcode, and the sweep over a program
takes them from the same bytes.  So an instruction that the sweep finds complete is executed with
the operand that the sweep shows, and leaves the instruction pointer behind it or at its target.
-/

namespace TagMachine

/-! ## What a listed instruction does -/

/-- The opcode is a jump that is taken. -/
def Opcode.jumps (cmp : Bool) : Opcode → Bool
  | .jmp => true
  | .jnz => cmp
  | .jz => !cmp
  | _ => false

namespace Instruction

/-- The offset of the instruction that is executed after this one. -/
def successor (instruction : Instruction) (cmp : Bool) (offset : Nat) : Nat :=
  match instruction.operand with
  | .target target =>
      if instruction.opcode.jumps cmp then target.toNat else offset + instruction.encodedLength
  | _ => offset + instruction.encodedLength

/-- Only jumps go anywhere but behind themselves. -/
theorem successor_eq_add {instruction : Instruction}
    (straight : instruction.opcode.operandKind ≠ .target) (cmp : Bool) (offset : Nat) :
    instruction.successor cmp offset = offset + instruction.encodedLength := by
  rcases instruction with ⟨opcode, operand⟩
  have stays : opcode.jumps cmp = false := by
    cases opcode with
    | jmp | jnz | jz => exact absurd rfl straight
    | _ => rfl
  cases operand with
  | target target => simp only [successor, stays, Bool.false_eq_true, if_false]
  | _ => rfl

/-- The item that the operand of an instruction becomes on the stack, if it goes there: a number
without its top bit, or a literal up to its first zero byte. -/
def pushed? (instruction : Instruction) : Option ValueMachine.Item :=
  match instruction.operand with
  | .immediate word => some (.int (Integer.wrap word.toNat))
  | .literal bytes => some (.text (Text.cut bytes))
  | _ => none

end Instruction

namespace ValueMachine

variable {config : Config} {program : Program} {state next : State} {count : Nat}

/-! ## Bytes of the program -/

theorem toNat_ip_add {ip : UInt64} (inside : ip.toNat + count < UInt64.size) :
    (ip + UInt64.ofNat count).toNat = ip.toNat + count := by
  have small : count < UInt64.size := by omega
  rw [UInt64.toNat_add, UInt64.toNat_ofNat_of_lt' small]
  exact Nat.mod_eq_of_lt inside

theorem add_le_of_exactly? {offset : Nat} {taken : Bytes} (inside : offset ≤ program.length)
    (found : CodeItem.exactly? count (program.bytes.drop offset) = some taken) :
    offset + count ≤ program.length := by
  rcases CodeItem.exactly?_eq_some found with ⟨whole, long⟩
  have enough := List.length_take_le' count (program.bytes.drop offset)
  rw [whole, long, List.length_drop, ← Program.length] at enough
  omega

/-- Bytes that the program has are read as they are. -/
theorem operand_eq {taken : Bytes} (inside : state.ip.toNat ≤ program.length)
    (found : CodeItem.exactly? count (program.bytes.drop state.ip.toNat) = some taken) :
    operand config program count state =
      .ok taken { state with ip := state.ip + UInt64.ofNat count } := by
  rcases CodeItem.exactly?_eq_some found with ⟨whole, long⟩
  have enough : count ≤ (program.bytes.drop state.ip.toNat).length := by
    rw [← long, ← whole]
    exact List.length_take_le' count _
  rw [operand, tape, List.append_assoc, List.drop_append_of_le_length inside,
    List.take_append_of_le_length enough, whole]

/-- The bytes after the instruction pointer. -/
theorem drop_ip_add_one {ip : UInt64} {byte : UInt8} {rest : Bytes}
    (small : program.length < UInt64.size)
    (found : program.bytes.drop ip.toNat = byte :: rest) :
    (ip + 1).toNat = ip.toNat + 1 ∧ (ip + 1).toNat ≤ program.length ∧
      program.bytes.drop (ip + 1).toNat = rest := by
  have long := congrArg List.length found
  rw [List.length_drop, List.length_cons, ← Program.length] at long
  have moved : (ip + 1).toNat = ip.toNat + 1 :=
    toNat_ip_add (by omega : ip.toNat + 1 < UInt64.size)
  refine ⟨moved, by omega, ?_⟩
  rw [moved, ← List.drop_drop, found]
  rfl

theorem operand_one {byte : UInt8} {rest : Bytes}
    (found : program.bytes.drop state.ip.toNat = byte :: rest) :
    operand config program 1 state = .ok [byte] { state with ip := state.ip + 1 } := by
  have inside : state.ip.toNat ≤ program.length := by
    have long := congrArg List.length found
    rw [List.length_drop, List.length_cons, ← Program.length] at long
    omega
  exact operand_eq inside (by rw [found]; simp [CodeItem.exactly?])

/-- A step executes the opcode at the instruction pointer. -/
theorem step_of_drop {byte : UInt8} {rest : Bytes}
    (found : program.bytes.drop state.ip.toNat = byte :: rest) :
    step config program state =
      execute config program (Opcode.running byte) { state with ip := state.ip + 1 } := by
  have opcode : UInt8.ofNat (Bytes.littleEndian [byte]) = byte := by
    simp [Bytes.littleEndian]
  rw [step, bind_of_ok (operand_one found), opcode]

/-! ## Instructions with operands -/

theorem eq_of_requireFree (ran : requireFree config state = .ok () next) :
    next = state := by
  unfold requireFree at ran
  split at ran
  · cases ran
  · cases ran
    rfl

theorem eq_of_pushText {text : Text} (ran : pushText config text state = .ok () next) :
    next = { state with stack := .text text :: state.stack } := by
  unfold pushText at ran
  split at ran
  · cases ran
  · cases ran
    rfl

theorem eq_of_pushImmediate {taken : Bytes}
    (read : operand config program 8 state = .ok taken { state with ip := state.ip + 8 })
    (ran : pushImmediate config program state = .ok () next) :
    next =
      { state with
        ip := state.ip + 8
        stack := .int (Integer.wrap taken.littleEndian) :: state.stack } := by
  rcases exists_of_bind_ok ran with ⟨_, between, free, pushed⟩
  obtain rfl := eq_of_requireFree free
  rw [bind_of_ok read] at pushed
  cases pushed
  rfl

theorem eq_of_pushLiteral {length : UInt8} {rest taken : Bytes}
    (small : program.length < UInt64.size)
    (found : program.bytes.drop state.ip.toNat = length :: rest)
    (complete : CodeItem.exactly? length.toNat rest = some taken)
    (ran : pushLiteral config program state = .ok () next) :
    next =
      { state with
        ip := state.ip + 1 + UInt64.ofNat length.toNat
        stack := .text (Text.cut taken) :: state.stack } := by
  have counted : Bytes.littleEndian [length] = length.toNat := by
    simp [Bytes.littleEndian]
  rcases drop_ip_add_one small found with ⟨_, inside, restEq⟩
  have literalRead : operand config program length.toNat { state with ip := state.ip + 1 } =
      .ok taken { state with ip := state.ip + 1 + UInt64.ofNat length.toNat } :=
    operand_eq inside (by rw [restEq, complete])
  rcases exists_of_bind_ok ran with ⟨_, between, free, literal⟩
  obtain rfl := eq_of_requireFree free
  rw [bind_of_ok (operand_one found), get_bind, counted] at literal
  split at literal
  · cases literal
  · change (operand config program length.toNat >>= _) _ = _ at literal
    rw [bind_of_ok literalRead] at literal
    exact eq_of_pushText literal

theorem jump_eq {taken : Bytes} (jumps : Bool)
    (read : operand config program 2 state = .ok taken { state with ip := state.ip + 2 }) :
    jump config program jumps state =
      .ok () { state with
        ip := if jumps then UInt64.ofNat taken.littleEndian else state.ip + 2 } := by
  rw [jump, bind_of_ok read]
  cases jumps <;> rfl

theorem execute_jump {opcode : Opcode} (kind : opcode.operandKind = .target) :
    execute config program opcode state =
      jump config program (opcode.jumps state.cmp) state := by
  cases opcode with
  | jmp | jnz | jz => rfl
  | _ => cases kind

/-! ## Steps -/

/-- What has been executed is what the sweep shows: the instruction pointer goes on behind it or to
its target, and its operand is on the stack if it goes there. -/
structure Obeys (instruction : Instruction) (state next : State) : Prop where
  ip : next.ip.toNat = instruction.successor state.cmp state.ip.toNat
  pushed : ∀ item, instruction.pushed? = some item → next.stack = item :: state.stack

section Steps

variable {byte : UInt8} {rest : Bytes}

private theorem obeys_push {word : UInt64} (small : program.length < UInt64.size)
    (inside : (state.ip + 1).toNat ≤ program.length)
    (moved : (state.ip + 1).toNat = state.ip.toNat + 1)
    (found : CodeItem.operand? .immediate (program.bytes.drop (state.ip + 1).toNat) =
      some (.immediate word, count))
    (ran : pushImmediate config program { state with ip := state.ip + 1 } = .ok () next) :
    Obeys ⟨.push, .immediate word⟩ state next := by
  rcases Option.map_eq_some_iff.mp found with ⟨taken, exact, same⟩
  cases same
  have bound := (CodeItem.ofLittleEndian_of_exactly? exact).1
  have fits := add_le_of_exactly? inside exact
  have landed : (state.ip + 1 + 8).toNat = (state.ip + 1).toNat + 8 :=
    toNat_ip_add (by omega : (state.ip + 1).toNat + 8 < UInt64.size)
  have read : operand config program 8 { state with ip := state.ip + 1 } =
      .ok taken { state with ip := state.ip + 1 + 8 } := operand_eq inside exact
  obtain rfl := eq_of_pushImmediate read ran
  refine ⟨by rw [landed, moved]; rfl, ?_⟩
  rintro item ⟨⟩
  rw [UInt64.toNat_ofNat_of_lt' bound]

private theorem obeys_jump {opcode : Opcode} {target : UInt16}
    (small : program.length < UInt64.size)
    (inside : (state.ip + 1).toNat ≤ program.length)
    (moved : (state.ip + 1).toNat = state.ip.toNat + 1)
    (found : CodeItem.operand? .target (program.bytes.drop (state.ip + 1).toNat) =
      some (.target target, count))
    (ran : jump config program (opcode.jumps state.cmp) { state with ip := state.ip + 1 } =
      .ok () next) :
    Obeys ⟨opcode, .target target⟩ state next := by
  rcases Option.map_eq_some_iff.mp found with ⟨taken, exact, same⟩
  cases same
  have bound := (CodeItem.ofLittleEndian_of_exactly? exact).1
  have fits := add_le_of_exactly? inside exact
  have landed : (state.ip + 1 + 2).toNat = (state.ip + 1).toNat + 2 :=
    toNat_ip_add (by omega : (state.ip + 1).toNat + 2 < UInt64.size)
  have read : operand config program 2 { state with ip := state.ip + 1 } =
      .ok taken { state with ip := state.ip + 1 + 2 } := operand_eq inside exact
  rw [jump_eq _ read] at ran
  cases ran
  refine ⟨?_, by rintro item ⟨⟩⟩
  cases jumps : opcode.jumps state.cmp with
  | false =>
      simp only [Instruction.successor, jumps, Bool.false_eq_true, if_false]
      rw [landed, moved]
      rfl
  | true =>
      have wide : taken.littleEndian < UInt64.size := Nat.lt_trans bound (by decide)
      simp only [Instruction.successor, jumps, if_true]
      rw [UInt64.toNat_ofNat_of_lt' wide, UInt16.toNat_ofNat_of_lt' bound]

private theorem obeys_pushs {literal : Bytes} (small : program.length < UInt64.size)
    (moved : (state.ip + 1).toNat = state.ip.toNat + 1)
    (found : CodeItem.operand? .literal (program.bytes.drop (state.ip + 1).toNat) =
      some (.literal literal, count))
    (ran : pushLiteral config program { state with ip := state.ip + 1 } = .ok () next) :
    Obeys ⟨.pushs, .literal literal⟩ state next := by
  cases bytesLeft : program.bytes.drop (state.ip + 1).toNat with
  | nil =>
      rw [bytesLeft] at found
      cases found
  | cons length rest =>
      rw [bytesLeft] at found
      rcases Option.map_eq_some_iff.mp found with ⟨taken, exact, same⟩
      cases same
      rcases drop_ip_add_one small bytesLeft with ⟨movedOn, inside, restEq⟩
      have long := (CodeItem.exactly?_eq_some exact).2
      have fits := add_le_of_exactly? inside (by rw [restEq, exact])
      have landed : (state.ip + 1 + 1 + UInt64.ofNat length.toNat).toNat =
          (state.ip + 1 + 1).toNat + length.toNat :=
        toNat_ip_add (by omega)
      obtain rfl := eq_of_pushLiteral small bytesLeft exact ran
      refine ⟨?_, by rintro item ⟨⟩; rfl⟩
      simp only [Instruction.successor, Instruction.encodedLength, Instruction.encode,
        Operand.encode, List.length_cons]
      omega

/-- A step obeys the instruction that the sweep shows at the instruction pointer, if one without
an operand goes straight on. -/
theorem obeys_of_step {instruction : Instruction} (small : program.length < UInt64.size)
    (straight : instruction.opcode.operandKind = .none → next.ip = state.ip + 1)
    (found : program.bytes.drop state.ip.toNat = byte :: rest)
    (started : CodeItem.startedBy byte rest = (.instruction instruction, count))
    (stepped : step config program state = .ok () next) :
    Obeys instruction state next := by
  rcases instruction with ⟨opcode, shown⟩
  rcases CodeItem.operand?_of_startedBy_instruction started with ⟨known, read⟩
  rcases drop_ip_add_one small found with ⟨moved, inside, restEq⟩
  have kindEq := CodeItem.kind_of_operand?_eq_some read
  rw [step_of_drop found, Opcode.running, known, Option.getD_some] at stepped
  rw [← restEq] at read
  cases shown with
  | none =>
      refine ⟨by rw [straight kindEq.symm, moved]; rfl, ?_⟩
      rintro item ⟨⟩
  | immediate word =>
      obtain rfl := Opcode.eq_push_of_operandKind kindEq.symm
      exact obeys_push small inside moved read stepped
  | target target =>
      rw [execute_jump kindEq.symm] at stepped
      rw [← kindEq] at read
      exact obeys_jump small inside moved read stepped
  | literal literal =>
      obtain rfl := Opcode.eq_pushs_of_operandKind kindEq.symm
      exact obeys_pushs small moved read stepped

/-- A step that takes a number which the sweep finds cut off ends past the program. -/
theorem length_le_of_step_truncated (small : program.length + 8 < UInt64.size)
    (found : program.bytes.drop state.ip.toNat = byte :: rest)
    (started : CodeItem.startedBy byte rest = (.truncated .push, count))
    (stepped : step config program state = .ok () next) :
    program.length ≤ next.ip.toNat := by
  rcases CodeItem.operand?_of_startedBy_truncated started with ⟨known, missing⟩
  rcases drop_ip_add_one (by omega) found with ⟨_, inside, restEq⟩
  have short := CodeItem.length_lt_of_exactly?_eq_none (Option.map_eq_none_iff.mp missing)
  rw [← restEq, List.length_drop, ← Program.length] at short
  rw [step_of_drop found, Opcode.running, known, Option.getD_some] at stepped
  obtain rfl := eq_of_pushImmediate rfl stepped
  have landed : (state.ip + 1 + 8).toNat = (state.ip + 1).toNat + 8 :=
    toNat_ip_add (by omega : (state.ip + 1).toNat + 8 < UInt64.size)
  change program.length ≤ (state.ip + 1 + 8).toNat
  omega

end Steps

end ValueMachine

end TagMachine
