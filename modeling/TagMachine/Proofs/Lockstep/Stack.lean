import TagMachine.Machine.Execute
import TagMachine.Proofs.Lockstep.Setting
import TagMachine.Proofs.Memory.Cells
import TagMachine.Proofs.Operations

/-!
# Stack operations in lockstep

What the checks and moves of the stack do to a state that represents values.  A rule for a check
looks at the values that stand on top: it goes on with them when they are of the kind asked for,
and otherwise both machines fail alike.  A move that cannot fail leads to a state that represents
the values moved.
-/

namespace TagMachine.Setting.Represents

open ValueMachine (Item missing)

variable {setting : Setting} {issued : Nat} {state : State} {values : ValueMachine.State}
  {stack : List Item}

/-! ## Checks -/

theorem require (now : setting.Represents issued state values) (count : UInt64) :
    (liftM (Stack.require count) : Action Unit) state =
      if values.stack.length < count.toNat then
        .error (.stackUnderflow count (UInt64.ofNat values.stack.length)) state
      else .ok () state := by
  rcases now.backed with ⟨cells, shown, backs⟩
  have required := shown.require count
  rw [backs.length_eq] at required
  by_cases few : values.stack.length < count.toNat
  · rw [if_pos few] at required ⊢
    exact Action.onMemory_of_error required
  · rw [if_neg few] at required ⊢
    exact Action.onMemory_of_ok required

theorem requireInts (now : setting.Represents issued state values) (count : UInt64) :
    (liftM (Stack.requireInts count) : Action Unit) state =
      if values.stack.length < count.toNat ∨ (values.stack.take count.toNat).any Item.isText then
        .error (missing .integer count.toNat values.stack) state
      else .ok () state := by
  rcases now.backed with ⟨cells, shown, backs⟩
  have required := shown.requireInts count
  rw [backs.length_eq, backs.any_isString] at required
  by_cases few : values.stack.length < count.toNat
  · rw [if_pos few] at required
    rw [if_pos (Or.inl few), missing, if_pos few, UInt64.ofNat_toNat]
    exact Action.onMemory_of_error required
  · rw [if_neg few] at required
    by_cases other : (values.stack.take count.toNat).any Item.isText = true
    · rw [if_pos other] at required
      rw [if_pos (Or.inr other), missing, if_neg few]
      exact Action.onMemory_of_error required
    · rw [if_neg other] at required
      rw [if_neg (not_or.mpr ⟨few, other⟩)]
      exact Action.onMemory_of_ok required

theorem requireFree (now : setting.Represents issued state values) {rest : Action Unit}
    {valueRest : ValueMachine.Action Unit}
    (continued : values.stack.length < setting.config.stackCapacity →
      setting.Lockstep issued (rest state) (valueRest values)) :
    setting.Lockstep issued ((do Stack.requireFree; rest : Action Unit) state)
      ((do ValueMachine.requireFree setting.config; valueRest) values) := by
  rcases now.backed with ⟨cells, shown, backs⟩
  have required := shown.requireFree
  rw [backs.length_eq, setting.layout] at required
  have valueRequired : ValueMachine.requireFree setting.config values =
      if values.stack.length = setting.config.stackCapacity then .error .stackFull values
      else .ok () values := rfl
  by_cases full : values.stack.length = setting.config.stackCapacity
  · rw [if_pos full] at required valueRequired
    rw [bind_of_error (Action.onMemory_of_error required), bind_of_error valueRequired]
    exact now.error rfl
  · rw [if_neg full] at required valueRequired
    rw [bind_of_ok (Action.onMemory_of_ok required), bind_of_ok valueRequired]
    exact continued (Nat.lt_of_le_of_ne now.stack_le full)

/-! ## Integers on top -/

/-- Both machines fail alike when the integers that are asked for do not stand on top. -/
theorem requireInts_fails (now : setting.Represents issued state values) {count : UInt64}
    {rest : Action Unit} {α : Type} {popping : ValueMachine.Action α}
    {valueRest : α → ValueMachine.Action Unit}
    (absent :
      values.stack.length < count.toNat ∨ (values.stack.take count.toNat).any Item.isText)
    (popped : popping values = .error (missing .integer count.toNat values.stack) values) :
    setting.Lockstep issued ((do Stack.requireInts count; rest : Action Unit) state)
      ((popping >>= valueRest) values) := by
  rw [bind_of_error popped, bind_of_error ((now.requireInts count).trans (if_pos absent))]
  refine now.error ?_
  unfold missing
  split <;> rfl

/-- An integer on top, or the same failure. The machine looks at the cell and leaves it. -/
theorem popInt (now : setting.Represents issued state values) {rest : Action Unit}
    {valueRest : Integer → ValueMachine.Action Unit}
    (continued : ∀ top stack, values.stack = .int top :: stack →
      setting.Lockstep issued (rest state) (valueRest top { values with stack })) :
    setting.Lockstep issued ((do Stack.requireInts 1; rest : Action Unit) state)
      ((ValueMachine.popInt >>= valueRest) values) := by
  cases shape : values.stack with
  | nil =>
      exact now.requireInts_fails (by simp [shape]) (by simp [ValueMachine.popInt, shape])
  | cons item stack =>
      cases item with
      | text top =>
          exact now.requireInts_fails (by simp [shape, Item.isText])
            (by simp [ValueMachine.popInt, shape])
      | int top =>
          have popped : ValueMachine.popInt values = .ok top { values with stack } := by
            simp only [ValueMachine.popInt, shape]
          have required := (now.requireInts 1).trans (if_neg (by simp [shape, Item.isText]))
          rw [bind_of_ok popped, bind_of_ok required]
          exact continued top stack shape

theorem popInts (now : setting.Represents issued state values) {rest : Action Unit}
    {valueRest : Integer × Integer → ValueMachine.Action Unit}
    (continued : ∀ top second stack, values.stack = .int top :: .int second :: stack →
      setting.Lockstep issued (rest state) (valueRest (top, second) { values with stack })) :
    setting.Lockstep issued ((do Stack.requireInts 2; rest : Action Unit) state)
      ((ValueMachine.popInts >>= valueRest) values) := by
  rcases shape : values.stack with _ | ⟨_ | _, _ | ⟨_ | _, stack⟩⟩
  case cons.int.cons.int top second =>
    have popped : ValueMachine.popInts values = .ok (top, second) { values with stack } := by
      simp only [ValueMachine.popInts, shape]
    have required := (now.requireInts 2).trans (if_neg (by simp [shape, Item.isText]))
    rw [bind_of_ok popped, bind_of_ok required]
    exact continued top second stack shape
  all_goals
    exact now.requireInts_fails (by simp [shape, Item.isText])
      (by simp [ValueMachine.popInts, shape])

theorem peek (now : setting.Represents issued state values) (depth : UInt64) (integer : Integer)
    (found : values.stack[depth.toNat]? = some (.int integer)) :
    ∃ cell, (liftM (Stack.peek depth) : Action Cell) state = .ok cell state ∧
      cell.word.toNat = integer.number := by
  rcases now.backed with ⟨cells, shown, backs⟩
  rcases backs.getInt found with ⟨cell, atDepth, same⟩
  exact ⟨cell, Action.onMemory_of_ok (shown.peek depth atDepth), same⟩

theorem pop (now : setting.Represents issued state values) {top : Integer}
    (shape : values.stack = .int top :: stack) :
    ∃ cell next, (liftM Stack.pop : Action Cell) state = .ok cell next ∧
      cell.word.toNat = top.number ∧ setting.Represents issued next { values with stack } := by
  rcases now.backed with ⟨cells, shown, backs⟩
  rw [shape] at backs
  rcases backs.popInt with ⟨cell, rest, rfl, same, below⟩
  rcases shown.pop rfl with ⟨memory, popped, left⟩
  exact ⟨cell, { state with memory }, Action.onMemory_of_ok popped, same,
    now.world, ⟨rest, left, below⟩, now.maxLive, now.issued⟩

theorem drop (now : setting.Represents issued state values) (count : UInt64)
    (live : count.toNat ≤ values.stack.length)
    (integers : (values.stack.take count.toNat).any Item.isText = false) :
    ∃ next, (liftM (Stack.drop count) : Action Unit) state = .ok () next ∧
      setting.Represents issued next { values with stack := values.stack.drop count.toNat } := by
  rcases now.backed with ⟨cells, shown, backs⟩
  rcases shown.drop count (by rw [backs.length_eq]; exact live) with ⟨memory, dropped, left⟩
  exact ⟨{ state with memory }, Action.onMemory_of_ok dropped,
    now.world, ⟨_, left, backs.dropInts integers⟩, now.maxLive, now.issued⟩

theorem push (now : setting.Represents issued state values) {cell : Cell} {integer : Integer}
    (room : values.stack.length < setting.config.stackCapacity)
    (same : cell.word.toNat = integer.number) :
    ∃ next, (liftM (Stack.push cell) : Action Unit) state = .ok () next ∧
      setting.Represents issued next { values with stack := .int integer :: values.stack } := by
  rcases now.backed with ⟨cells, shown, backs⟩
  obtain ⟨memory, pushed, above⟩ :=
    shown.push (by rw [setting.layout, backs.length_eq]; exact room) cell
  exact ⟨{ state with memory }, Action.onMemory_of_ok pushed,
    now.world, ⟨_, above, backs.pushInt same⟩, now.maxLive, now.issued⟩

/-! ## Results -/

/-- A result on top stays if it is an integer, and fails as the other kind if its top bit is set. -/
private theorem requireResult (now : setting.Represents issued state values) {memory : Memory}
    {rest : List Cell} {word : UInt64} {result : Int} (computes : Computes word result)
    (above : memory.Shows setting.start
      ⟨values.ip, ⟨word⟩ :: rest, values.isHalted, values.cmp⟩)
    (below : state.heap.Backs rest stack) :
    setting.Lockstep issued
      ((liftM (Stack.requireInts 1) : Action Unit) { state with memory })
      (ValueMachine.pushResult result { values with stack }) := by
  have required := above.requireInts 1
  rw [ValueMachine.pushResult, computes.ofResult?_eq]
  by_cases small : word.toNat < 2 ^ 63
  · rw [dif_pos small]
    have same : (Cell.mk word).word.toNat = (Integer.mk word.toNat small).number := rfl
    rw [if_neg (by simp), if_neg (by simp [Heap.isString_of_int same])] at required
    rw [Action.onMemory_of_ok required]
    exact .ok (Represents.weaken ⟨now.world, ⟨_, above, below.pushInt same⟩, now.maxLive,
      now.issued⟩)
  · rw [dif_neg small]
    have tagged : (Cell.mk word).isString = true := by
      rw [Cell.isString_iff, Cell.toNat_tagBit]
      simp only at small ⊢
      omega
    rw [if_neg (by simp), if_pos (by simp [tagged])] at required
    rw [Action.onMemory_of_error required]
    exact .fault rfl ⟨_, above⟩ now.world

/-- A result takes the place of an integer before it is looked at. -/
theorem replace (now : setting.Represents issued state values) {old : Integer}
    (shape : values.stack = .int old :: stack) {word : UInt64} {result : Int}
    (computes : Computes word result) :
    setting.Lockstep issued
      ((do Stack.poke 0 ⟨word⟩; Stack.requireInts 1 : Action Unit) state)
      (ValueMachine.pushResult result { values with stack }) := by
  rcases now.backed with ⟨cells, shown, backs⟩
  rw [shape] at backs
  rcases backs.popInt with ⟨cell, rest, rfl, _, below⟩
  rcases shown.poke 0 (by simp) ⟨word⟩ with ⟨memory, poked, replaced⟩
  rw [bind_of_ok (Action.onMemory_of_ok poked)]
  exact now.requireResult computes replaced below

/-- A result is pushed before it is looked at. -/
theorem pushResult (now : setting.Represents issued state values)
    (room : values.stack.length < setting.config.stackCapacity) {word : UInt64} {result : Int}
    (computes : Computes word result) :
    setting.Lockstep issued
      ((do Stack.push ⟨word⟩; Stack.requireInts 1 : Action Unit) state)
      (ValueMachine.pushResult result values) := by
  rcases now.backed with ⟨cells, shown, backs⟩
  obtain ⟨memory, pushed, above⟩ :=
    shown.push (by rw [setting.layout, backs.length_eq]; exact room) ⟨word⟩
  rw [bind_of_ok (Action.onMemory_of_ok pushed)]
  exact now.requireResult computes above backs

end TagMachine.Setting.Represents
