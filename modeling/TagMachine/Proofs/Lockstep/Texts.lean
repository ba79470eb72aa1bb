import TagMachine.Proofs.Lockstep.Strings
import TagMachine.Proofs.Lockstep.World

/-!
# Instructions on texts in lockstep

The instructions that take texts off the stack or put them there, those that move values of either
kind, and those that go to the files.
-/

namespace TagMachine

theorem Sandbox.fileName_external {config : Config} {bytes : Bytes} {fault : Fault}
    (failed : Sandbox.fileName config bytes = .error fault) :
    fault.isInternal = false := by
  unfold Sandbox.fileName at failed
  split at failed
  · cases failed
  · obtain rfl := Except.error.inj failed
    rfl

namespace Setting.Represents

open ValueMachine (Item)

variable {setting : Setting} {issued : Nat} {state : State} {values : ValueMachine.State}

/-! ## Values of both kinds -/

theorem swap (now : setting.Represents issued state values) :
    setting.Lockstep issued ((liftM (Action.exchange 2) : Action Unit) state)
      (ValueMachine.swap values) := by
  have required := now.require 2
  simp only [Action.exchange, Action.liftM_bind]
  rcases shape : values.stack with _ | ⟨top, _ | ⟨second, stack⟩⟩
  case nil | cons.nil =>
    rw [if_pos (by simp [shape])] at required
    rw [bind_of_error required, ValueMachine.swap, shape]
    exact now.error rfl
  case cons.cons =>
    rw [if_neg (by simp [shape])] at required
    rcases now.backed with ⟨cells, shown, backs⟩
    rw [shape] at backs
    obtain ⟨first, second, rest, rfl⟩ : ∃ first second rest, cells = first :: second :: rest := by
      have length := backs.length_eq
      rcases cells with _ | ⟨first, _ | ⟨second, rest⟩⟩ <;> simp_all
    rcases shown.swap rfl with ⟨memory, swapped, exchanged⟩
    rw [bind_of_ok required, Action.onMemory_of_ok swapped, ValueMachine.swap, shape]
    exact .ok (Represents.weaken ⟨now.world, ⟨_, exchanged, backs.swap⟩, now.maxLive, now.issued⟩)

/-- A text is copied into a string of its own. -/
theorem copyTop (now : setting.Represents issued state values) :
    setting.Lockstep issued (Action.copyTop state)
      (ValueMachine.copyTop setting.config values) := by
  have required := now.require 1
  rw [Action.copyTop, ValueMachine.copyTop, get_bind]
  rcases shape : values.stack with _ | ⟨top | top, stack⟩
  case nil =>
    rw [if_pos (by simp [shape])] at required
    rw [bind_of_error required, shape]
    exact now.error rfl
  case cons.int =>
    rw [if_neg (by simp [shape])] at required
    rcases now.peek 0 top (by rw [shape]; rfl) with ⟨cell, peeked, same⟩
    rw [bind_of_ok required]
    refine now.requireFree fun room => ?_
    rcases now.push room same with ⟨next, pushed, above⟩
    rw [bind_of_ok peeked]
    simp only [Heap.value_of_int same]
    rw [pushed]
    exact above.ok
  case cons.text =>
    rw [if_neg (by simp [shape])] at required
    rcases now.backed with ⟨cells, shown, backs⟩
    rw [shape] at backs
    rcases backs.getText with ⟨cell, rest, id, rfl, value, found⟩
    have peeked : Stack.peek 0 state.memory = .ok cell state.memory := shown.peek 0 rfl
    rw [bind_of_ok required]
    refine now.requireFree fun room => ?_
    rw [bind_of_ok (Action.onMemory_of_ok peeked)]
    simp only [value]
    rw [bind_of_ok (by simp only [Action.lookUpString, found]; rfl)]
    exact now.pushText room top

/-! ## Texts -/

theorem printString (now : setting.Represents issued state values) :
    setting.Lockstep issued (Action.printString state) (ValueMachine.printString values) :=
  now.popText fun _ _ _ _ later => later.print _

theorem concat (now : setting.Represents issued state values) :
    setting.Lockstep issued (Action.concat state) (ValueMachine.concat setting.config values) :=
  now.popTexts fun top second _ _ room later => later.pushText room (top.append second)

theorem stringLength (now : setting.Represents issued state values) :
    setting.Lockstep issued (Action.stringLength state) (ValueMachine.stringLength values) := by
  refine now.popText fun text next stack room later => ?_
  rcases later.push room (Cell.toNat_ofInt_ofNat text.bytes.length) with ⟨last, pushed, above⟩
  rw [pushed]
  exact above.ok

theorem compareStrings (now : setting.Represents issued state values) :
    setting.Lockstep issued (Action.compareStrings state) (ValueMachine.compareStrings values) :=
  now.popTexts fun _ _ _ _ _ later => (later.setCmp _).ok

theorem findString (now : setting.Represents issued state values) :
    setting.Lockstep issued (Action.findString state) (ValueMachine.findString values) :=
  now.popTexts fun _ _ _ _ _ later => (later.setCmp _).ok

theorem pushLine (now : setting.Represents issued state values) :
    setting.Lockstep issued (Action.pushLine setting.config.maxLineLength state)
      (ValueMachine.pushLine setting.config values) := by
  refine now.requireFree fun room => now.onInput _ fun line input later => ?_
  refine later.failIf rfl fun _ => ?_
  have pushed := later.pushText room (Text.cut (Action.withoutNewline line.untilZero))
  rw [Text.cut_bytes (Action.zero_not_mem_withoutNewline line.zero_not_mem_untilZero)] at pushed
  exact pushed

theorem stringToInt (now : setting.Represents issued state values) :
    setting.Lockstep issued (Action.stringToInt state) (ValueMachine.stringToInt values) :=
  now.popText fun _ _ _ room later => later.pushResult room (Computes.ofInt _)

/-- A text of the program is pushed by one machine before it is passed, and by the other after. -/
private theorem pushPassed (now : setting.Represents issued state values)
    (room : values.stack.length < setting.config.stackCapacity) (text : Text) (count : UInt64) :
    setting.Lockstep issued
      ((do Action.pushString text.bytes; Action.advance count : Action Unit) state)
      (ValueMachine.pushText setting.config text { values with ip := values.ip + count }) := by
  have taken := now.takesIn room text
  generalize ran : Action.pushString text.bytes state = result at taken
  unfold ValueMachine.pushText
  cases taken with
  | ok few above =>
      rcases above.advance count with ⟨last, passed, done⟩
      rw [bind_of_ok ran, passed, if_neg few]
      exact .ok done
  | tooMany many =>
      rw [bind_of_error ran, if_pos many]
      exact .fault rfl now.confines now.world
  | outOfIds spent =>
      rw [bind_of_error ran]
      exact .outOfIds now.confines spent

/-- The literal is read only when it lies inside the program. -/
theorem pushLiteral (now : setting.Represents issued state values)
    (running : values.isHalted = false)
    (inside : values.ip.toNat ≤ setting.program.length) :
    setting.Lockstep issued (Action.pushLiteral state)
      (ValueMachine.pushLiteral setting.config setting.program values) := by
  have short := setting.short
  have counted := setting.toNat_add_one inside
  rcases now.operandByte running (by omega) with ⟨byte, read, valueRead⟩
  have length : Bytes.littleEndian [byte] = byte.toNat := by
    simp [Bytes.littleEndian]
  have passed : byte.toUInt64 = UInt64.ofNat byte.toNat := by
    have small := byte.toNat_lt
    apply UInt64.toNat_inj.mp
    rw [UInt8.toNat_toUInt64, UInt64.toNat_ofNat']
    omega
  refine now.requireFree fun room => ?_
  rcases now.advance 1 with ⟨next, moved, later⟩
  rw [get_bind, now.ip_eq, bind_of_ok (Action.onMemory_of_ok read), bind_of_ok moved, get_bind,
    bind_of_ok valueRead, get_bind]
  dsimp only
  rw [length, later.ip_eq, later.programLength_eq]
  refine later.failIf rfl fun fitting => ?_
  obtain ⟨literal, _, readLiteral, valueLiteral⟩ :=
    later.operand running byte.toNat (by simp only at fitting ⊢; omega)
  rw [bind_of_ok (Action.onMemory_of_ok readLiteral), bind_of_ok valueLiteral, passed]
  exact later.pushPassed room (Text.cut literal) (UInt64.ofNat byte.toNat)

theorem writeFile (now : setting.Represents issued state values) :
    setting.Lockstep issued (Action.writeFile setting.config state)
      (ValueMachine.writeFile setting.config values) := by
  refine now.popTexts fun top second _ _ _ later => later.ofExcept ?_ fun name => ?_
  · exact fun _ failed => Sandbox.fileName_external failed
  · exact later.onFiles _ fun _ _ written => written.print _

theorem readFile (now : setting.Represents issued state values) :
    setting.Lockstep issued (Action.readFile setting.config state)
      (ValueMachine.readFile setting.config values) := by
  refine now.popText fun top next _ room later => later.ofExcept ?_ fun name => ?_
  · exact fun _ failed => Sandbox.fileName_external failed
  · have same : next.files = values.files := congrArg World.files later.world
    rw [get_bind, get_bind, same]
    refine later.ofExcept ?_ fun content => later.pushText room (Text.cut content)
    intro fault failed
    cases read : Sandbox.read setting.config name values.files with
    | ok content => simp [read, Except.mapError] at failed
    | error cause =>
        rw [read] at failed
        obtain rfl := Except.error.inj failed
        rfl

end Setting.Represents

end TagMachine
