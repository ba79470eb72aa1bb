import TagMachine.Proofs.Lockstep.Stack

/-!
# Strings in lockstep

A text that is popped leaves the stack and the heap together, and a string that is pushed enters
both.  When the values on top are not the texts asked for, the machine has popped some of them
before it finds out, and fails as the machine of values does.
-/

namespace TagMachine.Setting.Represents

open ValueMachine (Item missing)

variable {setting : Setting} {issued : Nat} {state : State} {values : ValueMachine.State}
  {stack : List Item} {text : Text}

/-! ## Popping -/

/-- Popping the cell of a text takes its string out of the heap. -/
theorem popString (now : setting.Represents issued state values)
    (shape : values.stack = .text text :: stack) :
    ∃ next, Action.popString state = .ok text.bytes next ∧
      setting.Represents issued next { values with stack } := by
  rcases now.backed with ⟨cells, shown, backs⟩
  rw [shape] at backs
  rcases backs.popText with ⟨cell, rest, id, heap, rfl, value, taken, below, nextId, maxLive⟩
  rcases shown.pop rfl with ⟨memory, popped, left⟩
  refine ⟨{ state with memory, heap }, ?_, now.world, ⟨rest, left, below⟩,
    maxLive.trans now.maxLive, nextId ▸ now.issued⟩
  rw [Action.popString, bind_of_ok (Action.onMemory_of_ok popped)]
  simp only [value, Action.takeString, taken]

/-- A cell that is popped as a string but holds an integer is of the other kind. -/
theorem popString_fails (now : setting.Represents issued state values) {integer : Integer}
    (shape : values.stack = .int integer :: stack) :
    ∃ last, Action.popString state = .error (.typeMismatch .string) last ∧
      setting.Confines last ∧ last.toWorld = values.toWorld := by
  rcases now.backed with ⟨cells, shown, backs⟩
  rw [shape] at backs
  rcases backs.popInt with ⟨cell, rest, rfl, same, _⟩
  rcases shown.pop rfl with ⟨memory, popped, left⟩
  refine ⟨{ state with memory }, ?_, ⟨_, left⟩, now.world⟩
  rw [Action.popString, bind_of_ok (Action.onMemory_of_ok popped)]
  simp only [Heap.value_of_int same]
  rfl

theorem popText (now : setting.Represents issued state values) {rest : Bytes → Action Unit}
    {valueRest : Text → ValueMachine.Action Unit}
    (continued : ∀ text next stack, stack.length < setting.config.stackCapacity →
      setting.Represents issued next { values with stack } →
      setting.Lockstep issued (rest text.bytes next) (valueRest text { values with stack })) :
    setting.Lockstep issued
      ((do Stack.require 1; let string ← Action.popString; rest string : Action Unit) state)
      ((ValueMachine.popText >>= valueRest) values) := by
  have fits := now.stack_le
  have required := now.require 1
  rcases shape : values.stack with _ | ⟨integer | text, stack⟩
  case nil =>
    rw [if_pos (by simp [shape])] at required
    rw [bind_of_error required, bind_of_error (by simp only [ValueMachine.popText, shape]; rfl)]
    rw [shape]
    exact now.error rfl
  case cons.int =>
    rcases now.popString_fails shape with ⟨last, failed, confined, world⟩
    rw [if_neg (by simp [shape])] at required
    rw [bind_of_ok required, bind_of_error failed,
      bind_of_error (by simp only [ValueMachine.popText, shape]; rfl)]
    exact .fault rfl confined world
  case cons.text =>
    rcases now.popString shape with ⟨next, popped, later⟩
    rw [if_neg (by simp [shape])] at required
    rw [bind_of_ok required, bind_of_ok popped,
      bind_of_ok (by simp only [ValueMachine.popText, shape]; rfl)]
    rw [shape, List.length_cons] at fits
    exact continued text next stack fits later

theorem popTexts (now : setting.Represents issued state values)
    {rest : Bytes → Bytes → Action Unit} {valueRest : Text × Text → ValueMachine.Action Unit}
    (continued : ∀ top second next stack, stack.length < setting.config.stackCapacity →
      setting.Represents issued next { values with stack } →
      setting.Lockstep issued (rest top.bytes second.bytes next)
        (valueRest (top, second) { values with stack })) :
    setting.Lockstep issued
      ((do
          Stack.require 2
          let top ← Action.popString
          let second ← Action.popString
          rest top second : Action Unit) state)
      ((ValueMachine.popTexts >>= valueRest) values) := by
  have fits := now.stack_le
  have required := now.require 2
  rcases shape : values.stack with _ | ⟨integer | top, _ | ⟨integer | second, stack⟩⟩
  case nil | cons.int.nil | cons.text.nil =>
    rw [if_pos (by simp [shape])] at required
    rw [bind_of_error required, bind_of_error (by simp only [ValueMachine.popTexts, shape]; rfl)]
    rw [shape]
    exact now.error rfl
  case cons.int.cons.int | cons.int.cons.text =>
    rcases now.popString_fails shape with ⟨last, failed, confined, world⟩
    rw [if_neg (by simp [shape])] at required
    rw [bind_of_ok required, bind_of_error failed,
      bind_of_error (by simp only [ValueMachine.popTexts, shape]; rfl)]
    exact .fault (by simp [Fault.isInternal]) confined world
  case cons.text.cons.int =>
    rcases now.popString shape with ⟨next, popped, later⟩
    rcases later.popString_fails rfl with ⟨last, failed, confined, world⟩
    rw [if_neg (by simp [shape])] at required
    rw [bind_of_ok required, bind_of_ok popped, bind_of_error failed,
      bind_of_error (by simp only [ValueMachine.popTexts, shape]; rfl)]
    exact .fault (by simp [Fault.isInternal]) confined world
  case cons.text.cons.text =>
    rcases now.popString shape with ⟨between, poppedTop, afterTop⟩
    rcases afterTop.popString rfl with ⟨next, poppedSecond, afterSecond⟩
    rw [if_neg (by simp [shape])] at required
    rw [bind_of_ok required, bind_of_ok poppedTop, bind_of_ok poppedSecond,
      bind_of_ok (by simp only [ValueMachine.popTexts, shape]; rfl)]
    rw [shape, List.length_cons, List.length_cons] at fits
    exact continued top second next stack (by omega) afterSecond

/-! ## Pushing -/

/-- What comes of taking a text into the heap and pushing its cell. -/
inductive TakesIn (setting : Setting) (issued : Nat) (state : State) (values : ValueMachine.State)
    (text : Text) : EStateM.Result Fault State Unit → Prop
  | ok {next : State} :
      ¬ setting.config.maxLiveStrings ≤ values.stack.countP Item.isText →
      setting.Represents (issued + 1) next
        { values with stack := .text text :: values.stack } →
      TakesIn setting issued state values text (.ok () next)
  | tooMany :
      setting.config.maxLiveStrings ≤ values.stack.countP Item.isText →
      TakesIn setting issued state values text (.error .allocationFailure state)
  | outOfIds :
      tagBit.toNat ≤ issued →
      TakesIn setting issued state values text (.error .allocationFailure state)

theorem takesIn (now : setting.Represents issued state values)
    (room : values.stack.length < setting.config.stackCapacity) (text : Text) :
    TakesIn setting issued state values text (Action.pushString text.bytes state) := by
  rcases now.backed with ⟨cells, shown, backs⟩
  have allocated := state.heap.alloc_eq text.bytes
  rw [now.maxLive, backs.live_eq] at allocated
  have fails (failed : state.heap.alloc text.bytes = .error .allocationFailure) :
      Action.pushString text.bytes state = .error .allocationFailure state := by
    rw [Action.pushString, bind_of_error]
    simp only [Action.allocString, failed]
  by_cases tooMany : setting.config.maxLiveStrings ≤ values.stack.countP Item.isText
  · rw [if_pos (Or.inl tooMany)] at allocated
    rw [fails allocated]
    exact .tooMany tooMany
  · by_cases outOfIds : tagBit ≤ state.heap.nextId
    · rw [if_pos (Or.inr outOfIds)] at allocated
      rw [fails allocated]
      exact .outOfIds (Nat.le_trans (UInt64.le_iff_toNat_le.mp outOfIds) now.issued)
    · rw [if_neg (not_or.mpr ⟨tooMany, outOfIds⟩)] at allocated
      obtain ⟨id, heap, allocated⟩ : ∃ id heap, state.heap.alloc text.bytes = .ok (id, heap) :=
        ⟨_, _, allocated⟩
      rcases backs.sound.alloc allocated with ⟨_, _, _, counted, maxLive⟩
      obtain ⟨memory, pushed, above⟩ :=
        shown.push (by rw [setting.layout, backs.length_eq]; exact room) (Cell.ofString id)
      have ran : Action.pushString text.bytes state = .ok () { state with memory, heap } := by
        rw [Action.pushString, bind_of_ok (by simp only [Action.allocString, allocated]; rfl)]
        exact Action.onMemory_of_ok pushed
      rw [ran]
      refine .ok tooMany ⟨now.world, ⟨_, above, backs.pushText allocated⟩,
        maxLive.trans now.maxLive, ?_⟩
      rw [counted]
      exact Nat.succ_le_succ now.issued

theorem pushText (now : setting.Represents issued state values)
    (room : values.stack.length < setting.config.stackCapacity) (text : Text) :
    setting.Lockstep issued (Action.pushString text.bytes state)
      (ValueMachine.pushText setting.config text values) := by
  have taken := now.takesIn room text
  generalize Action.pushString text.bytes state = result at taken
  unfold ValueMachine.pushText
  cases taken with
  | ok few later =>
      rw [if_neg few]
      exact .ok later
  | tooMany many =>
      rw [if_pos many]
      exact now.error rfl
  | outOfIds spent => exact .outOfIds now.confines spent

end TagMachine.Setting.Represents
