import TagMachine.Proofs.Lockstep.Strings
import TagMachine.Proofs.Lockstep.World

/-!
# Instructions on integers in lockstep

Every instruction that takes integers off the stack, or puts one there, does to a state what its
rule does to the values that the state represents.
-/

namespace TagMachine.Setting.Represents

variable {setting : Setting} {issued : Nat} {state : State} {values : ValueMachine.State}

/-! ## Moving along the program -/

private theorem toUInt64_ofNat_littleEndian {bytes : Bytes} (short : bytes.length ≤ 2) :
    (UInt16.ofNat bytes.littleEndian).toUInt64 = UInt64.ofNat bytes.littleEndian := by
  have small : bytes.littleEndian < 2 ^ 16 :=
    Nat.lt_of_lt_of_le bytes.littleEndian_lt (Nat.pow_le_pow_right (by decide) short)
  apply UInt64.toNat_inj.mp
  rw [UInt16.toNat_toUInt64, UInt16.toNat_ofNat', UInt64.toNat_ofNat']
  omega

theorem jump (now : setting.Represents issued state values)
    (running : values.isHalted = false)
    (inside : values.ip.toNat ≤ setting.program.length) (taken : Bool) :
    setting.Lockstep issued ((liftM (Action.jump taken) : Action Unit) state)
      (ValueMachine.jump setting.config setting.program taken values) := by
  have short := setting.short
  rcases now.operand running 2 (by omega) with ⟨bytes, two, read, valueRead⟩
  rw [ValueMachine.jump, bind_of_ok valueRead]
  cases taken with
  | false =>
      rcases now.advance 2 with ⟨next, moved, later⟩
      change setting.Lockstep issued ((liftM (Action.advance 2) : Action Unit) state) _
      rw [moved]
      exact later.ok
  | true =>
      have target : Memory.programTarget values.ip state.memory =
          .ok (UInt16.ofNat bytes.littleEndian) state.memory := bind_of_ok read
      have jumped : Action.jump true state.memory =
          .ok () (state.memory.setIp (UInt64.ofNat bytes.littleEndian)) := by
        change (Memory.programTarget state.memory.ip >>= _) state.memory = _
        rw [now.ip_eq, bind_of_ok target, toUInt64_ofNat_littleEndian two]
        rfl
      rw [Action.onMemory_of_ok jumped]
      exact (now.setIp _).ok

/-! ## Instructions -/

theorem pushImmediate (now : setting.Represents issued state values)
    (running : values.isHalted = false)
    (inside : values.ip.toNat ≤ setting.program.length) :
    setting.Lockstep issued ((liftM Action.pushImmediate : Action Unit) state)
      (ValueMachine.pushImmediate setting.config setting.program values) := by
  have short := setting.short
  rcases now.operand running 8 (by omega) with ⟨bytes, _, read, valueRead⟩
  have word : Memory.programWord state.memory.ip state.memory =
      .ok (UInt64.ofNat bytes.littleEndian) state.memory := by
    rw [now.ip_eq, Memory.programWord, bind_of_ok read]
    rfl
  simp only [Action.pushImmediate, Action.liftM_bind]
  refine now.requireFree fun room => ?_
  rcases now.push room (Cell.toNat_ofInt_ofNat bytes.littleEndian) with ⟨between, pushed, above⟩
  rcases above.advance 8 with ⟨next, moved, later⟩
  rw [Action.bind_get, bind_of_ok (Action.onMemory_of_ok word), bind_of_ok pushed, moved,
    bind_of_ok valueRead]
  exact later.ok

theorem printInt (now : setting.Represents issued state values) :
    setting.Lockstep issued (Action.printInt state) (ValueMachine.printInt values) := by
  refine now.popInt fun top stack shape => ?_
  rcases now.pop shape with ⟨cell, next, popped, same, later⟩
  rw [bind_of_ok popped, same]
  exact later.print _

theorem readInt (now : setting.Represents issued state values) :
    setting.Lockstep issued (Action.readInt state)
      (ValueMachine.readInt setting.config values) := by
  refine now.requireFree fun room => now.tryOnInput _ ?_ fun word input later => ?_
  · intro cause input
    by_cases ended : cause = .unexpectedEnd
    · subst ended
      exact ⟨.malformed .shortRead, rfl, rfl, rfl⟩
    · refine ⟨.io cause, rfl, ?_, ?_⟩ <;> cases cause <;> first | rfl | contradiction
  · have same := Cell.toNat_ofInt_ofNat word.toNat
    rw [UInt64.ofNat_toNat] at same
    rcases later.push room same with ⟨next, pushed, above⟩
    rw [pushed]
    exact above.ok

private theorem peekTwo (now : setting.Represents issued state values) {top second : Integer}
    {stack : List ValueMachine.Item}
    (shape : values.stack = .int top :: .int second :: stack) :
    ∃ topCell secondCell,
      (liftM (Stack.peek 0) : Action Cell) state = .ok topCell state ∧
        (liftM (Stack.peek 1) : Action Cell) state = .ok secondCell state ∧
        topCell.word.toNat = top.number ∧ secondCell.word.toNat = second.number := by
  obtain ⟨topCell, peekedTop, topSame⟩ :=
    now.peek 0 top (by rw [shape]; rfl)
  obtain ⟨secondCell, peekedSecond, secondSame⟩ :=
    now.peek 1 second (by rw [shape]; rfl)
  exact ⟨topCell, secondCell, peekedTop, peekedSecond, topSame, secondSame⟩

/-- The cells of two integers, and what is left when the top one is dropped. -/
private theorem takeTop (now : setting.Represents issued state values) {top second : Integer}
    {stack : List ValueMachine.Item}
    (shape : values.stack = .int top :: .int second :: stack) :
    ∃ topCell secondCell next,
      (liftM (Stack.peek 0) : Action Cell) state = .ok topCell state ∧
        (liftM (Stack.peek 1) : Action Cell) state = .ok secondCell state ∧
        (liftM (Stack.drop 1) : Action Unit) state = .ok () next ∧
        topCell.word.toNat = top.number ∧ secondCell.word.toNat = second.number ∧
        setting.Represents issued next { values with stack := .int second :: stack } := by
  rcases now.peekTwo shape with ⟨topCell, secondCell, peekedTop, peekedSecond, topSame, secondSame⟩
  obtain ⟨next, dropped, later⟩ := now.drop 1 (by simp [shape])
    (by simp [shape, ValueMachine.Item.isText])
  rw [shape] at later
  exact ⟨topCell, secondCell, next, peekedTop, peekedSecond, dropped, topSame, secondSame, later⟩

theorem binary (now : setting.Represents issued state values)
    (operation : UInt64 → UInt64 → UInt64) (result : Int → Int → Int)
    (computes : ∀ second top : UInt64,
      Computes (operation second top) (result second.toNat top.toNat)) :
    setting.Lockstep issued ((liftM (Action.binary operation) : Action Unit) state)
      (ValueMachine.binary result values) := by
  simp only [Action.binary, Action.liftM_bind]
  refine now.popInts fun top second stack shape => ?_
  obtain ⟨topCell, secondCell, next, peekedTop, peekedSecond, dropped, topSame, secondSame,
    later⟩ := now.takeTop shape
  have computed := computes secondCell.word topCell.word
  rw [topSame, secondSame] at computed
  rw [bind_of_ok peekedTop, bind_of_ok peekedSecond, bind_of_ok dropped]
  exact later.replace rfl computed

/-- When the top is zero it has been dropped before the machine fails. -/
theorem divide (now : setting.Represents issued state values)
    (operation : UInt64 → UInt64 → UInt64) (result : Int → Int → Int)
    (computes : ∀ second top : UInt64,
      Computes (operation second top) (result second.toNat top.toNat)) :
    setting.Lockstep issued ((liftM (Action.divide operation) : Action Unit) state)
      (ValueMachine.divide result values) := by
  simp only [Action.divide, Action.liftM_bind]
  refine now.popInts fun top second stack shape => ?_
  obtain ⟨topCell, secondCell, next, peekedTop, peekedSecond, dropped, topSame, secondSame,
    later⟩ := now.takeTop shape
  have computed := computes secondCell.word topCell.word
  rw [topSame, secondSame] at computed
  rw [bind_of_ok peekedTop, bind_of_ok peekedSecond, bind_of_ok dropped]
  have isZero : topCell.word = 0 ↔ top.number = 0 := by
    rw [← UInt64.toNat_inj, topSame, UInt64.toNat_zero]
  by_cases zero : top.number = 0
  · simp only [zero, isZero.mpr zero, if_true]
    exact .fault rfl later.confines later.world
  · simp only [zero, mt isZero.mp zero, if_false, Action.liftM_bind]
    exact later.replace rfl computed

theorem unary (now : setting.Represents issued state values) (operation : UInt64 → UInt64)
    (result : Int → Int)
    (computes : ∀ top : UInt64, Computes (operation top) (result top.toNat)) :
    setting.Lockstep issued ((liftM (Action.unary operation) : Action Unit) state)
      (ValueMachine.unary result values) := by
  simp only [Action.unary, Action.liftM_bind]
  refine now.popInt fun top stack shape => ?_
  rcases now.peek 0 top (by rw [shape]; rfl) with ⟨cell, peeked, same⟩
  have computed := computes cell.word
  rw [same] at computed
  rw [bind_of_ok peeked]
  exact now.replace shape computed

theorem compare (now : setting.Represents issued state values)
    (relation : UInt64 → UInt64 → Bool) (valueRelation : Nat → Nat → Bool)
    (agree : ∀ second top : UInt64, relation second top = valueRelation second.toNat top.toNat) :
    setting.Lockstep issued ((liftM (Action.compare relation) : Action Unit) state)
      (ValueMachine.compare valueRelation values) := by
  simp only [Action.compare, Action.liftM_bind]
  refine now.popInts fun top second stack shape => ?_
  rcases now.peekTwo shape with ⟨topCell, secondCell, peekedTop, peekedSecond, topSame, secondSame⟩
  obtain ⟨next, dropped, later⟩ := now.drop 2 (by simp [shape])
    (by simp [shape, ValueMachine.Item.isText])
  rw [bind_of_ok peekedTop, bind_of_ok peekedSecond, bind_of_ok dropped, agree, topSame, secondSame]
  rw [shape] at later
  exact (later.setCmp _).ok

theorem intToString (now : setting.Represents issued state values) :
    setting.Lockstep issued (Action.intToString state)
      (ValueMachine.intToString setting.config values) := by
  have fits := now.stack_le
  refine now.popInt fun top stack shape => ?_
  rcases now.pop shape with ⟨cell, next, popped, same, later⟩
  rw [shape, List.length_cons] at fits
  rw [bind_of_ok popped, same]
  refine later.failIf rfl fun _ => ?_
  have pushed := later.pushText fits
    (Text.cut (Bytes.ofText (String.ofList (Numeral.decimal top.number))))
  rw [Text.cut_bytes (Numeral.zero_not_mem_decimal top.number)] at pushed
  exact pushed

end TagMachine.Setting.Represents
