import TagMachine.Proofs.Lockstep.Setting
import TagMachine.Proofs.Memory.Cells

/-!
# Twin machines

Two machines with a hardened `swap` hold the same program, and the second has room for more cells
and more strings.  Their states are *twins* when their blocks, which place the program and the
flags differently, show the same view, and heaps and worlds are the same.  Whatever both do leads
to twins again, with the same result or the same fault, unless the first met one of its ceilings.

A rule for a part of an instruction goes on with the rest of it, in the twins that the part has
led to.
-/

namespace TagMachine

/-- The faults of a machine that has no room. -/
def Fault.isCeiling : Fault → Bool
  | .stackFull => true
  | .allocationFailure => true
  | _ => false

/-- The same limits but for the numbers of cells and of strings. -/
def Config.raised (config : Config) (stackCapacity maxLiveStrings : Nat) : Config :=
  { config with stackCapacity, maxLiveStrings }

/-- Two settings of one program, the second with the higher ceilings. -/
structure Raising where
  small : Setting
  large : Setting
  program : large.program = small.program
  config : large.config =
    small.config.raised large.config.stackCapacity large.config.maxLiveStrings
  moreCells : small.config.stackCapacity ≤ large.config.stackCapacity
  moreStrings : small.config.maxLiveStrings ≤ large.config.maxLiveStrings

namespace Raising

variable {raising : Raising} {view : Memory.View} {left right : State} {α : Type}

theorem storeBytes_eq (raising : Raising) :
    raising.large.start.storeBytes = raising.small.start.storeBytes := by
  rw [raising.large.store, raising.small.store, raising.program, raising.config]
  rfl

theorem programLength_eq (raising : Raising) :
    raising.large.start.programLength = raising.small.start.programLength := by
  apply UInt32.toNat_inj.mp
  rw [raising.large.programLength, raising.small.programLength, raising.program]

theorem stackCells_le (raising : Raising) :
    raising.small.start.layout.stackCells ≤ raising.large.start.layout.stackCells := by
  rw [raising.small.layout, raising.large.layout]
  exact raising.moreCells

theorem programBytes_eq (raising : Raising) :
    raising.large.start.layout.programBytes = raising.small.start.layout.programBytes := by
  rw [raising.small.layout, raising.large.layout, raising.config]
  rfl

/-- The same to a program, and of one world. -/
structure Twins (raising : Raising) (view : Memory.View) (left right : State) : Prop where
  world : left.toWorld = right.toWorld
  leftShows : left.memory.Shows raising.small.start view
  rightShows : right.memory.Shows raising.large.start view
  strings : left.heap.strings = right.heap.strings
  nextId : left.heap.nextId = right.heap.nextId
  leftMax : left.heap.maxLive = raising.small.config.maxLiveStrings
  rightMax : right.heap.maxLive = raising.large.config.maxLiveStrings

/-- What the same computation comes to in twins. -/
inductive Matched (raising : Raising) :
    EStateM.Result Fault State Unit → EStateM.Result Fault State Unit → Prop
  | ok {view : Memory.View} {left right : State} :
      raising.Twins view left right → Matched raising (.ok () left) (.ok () right)
  | error {fault : Fault} {view : Memory.View} {left right : State} :
      raising.Twins view left right → Matched raising (.error fault left) (.error fault right)
  | ceiling {fault : Fault} {left : State} {result : EStateM.Result Fault State Unit} :
      fault.isCeiling = true → Matched raising (.error fault left) result

/-- The last part of an instruction is one that nothing follows. -/
theorem matched_of_bind_pure {last : Action Unit}
    (matched : raising.Matched ((last >>= fun _ => pure ()) left)
      ((last >>= fun _ => pure ()) right)) :
    raising.Matched (last left) (last right) := by
  have alone : (last >>= fun _ => pure ()) = last := bind_pure_unit
  rwa [alone] at matched

namespace Twins

/-! ## Changes of one part -/

theorem withMemory (now : raising.Twins view left right) {next : Memory.View}
    {leftMemory rightMemory : Memory} (leftShown : leftMemory.Shows raising.small.start next)
    (rightShown : rightMemory.Shows raising.large.start next) :
    raising.Twins next { left with memory := leftMemory } { right with memory := rightMemory } :=
  ⟨now.world, leftShown, rightShown, now.strings, now.nextId, now.leftMax, now.rightMax⟩

theorem setIp (now : raising.Twins view left right) (ip : UInt64) :
    raising.Twins { view with ip } { left with memory := left.memory.setIp ip }
      { right with memory := right.memory.setIp ip } :=
  now.withMemory (now.leftShows.setIp ip) (now.rightShows.setIp ip)

theorem setCmp (now : raising.Twins view left right) (cmp : Bool) :
    raising.Twins { view with cmp } { left with memory := left.memory.setCmp cmp }
      { right with memory := right.memory.setCmp cmp } :=
  now.withMemory (now.leftShows.setCmp cmp) (now.rightShows.setCmp cmp)

theorem setHalt (now : raising.Twins view left right) (on : Bool) :
    raising.Twins { view with halt := on } { left with memory := left.memory.setHalt on }
      { right with memory := right.memory.setHalt on } :=
  now.withMemory (now.leftShows.setHalt on) (now.rightShows.setHalt on)

theorem programLength (now : raising.Twins view left right) :
    left.memory.programLength = right.memory.programLength := by
  rw [now.leftShows.programLength_eq, now.rightShows.programLength_eq, raising.programLength_eq]

theorem stop?_eq (now : raising.Twins view left right) : left.stop? = right.stop? := by
  rw [State.stop?, State.stop?, now.leftShows.halt_eq, now.rightShows.halt_eq, now.programLength,
    now.leftShows.ip, now.rightShows.ip]

theorem tape_eq (now : raising.Twins view left right) :
    left.memory.tape = right.memory.tape := by
  rw [now.leftShows.tape_eq, now.rightShows.tape_eq, raising.storeBytes_eq,
    raising.programLength_eq]

/-! ## Memory -/

/-- Both blocks give the same, and go on to show the same. -/
theorem onMemory (now : raising.Twins view left right) {access : Memory.Access α} {result : α}
    {rest : α → Action Unit} {next : Memory.View} {leftMemory rightMemory : Memory}
    (leftRan : access left.memory = .ok result leftMemory)
    (rightRan : access right.memory = .ok result rightMemory)
    (leftShown : leftMemory.Shows raising.small.start next)
    (rightShown : rightMemory.Shows raising.large.start next)
    (continued : ∀ left right, raising.Twins next left right →
      raising.Matched (rest result left) (rest result right)) :
    raising.Matched (((liftM access : Action α) >>= rest) left)
      (((liftM access : Action α) >>= rest) right) := by
  rw [bind_of_ok (Action.onMemory_of_ok leftRan), bind_of_ok (Action.onMemory_of_ok rightRan)]
  exact continued _ _ (now.withMemory leftShown rightShown)

/-- Both blocks fail alike and stay as they are. -/
theorem onMemory_fails (now : raising.Twins view left right) {access : Memory.Access α}
    {rest : α → Action Unit} {fault : Fault}
    (leftFailed : access left.memory = .error fault left.memory)
    (rightFailed : access right.memory = .error fault right.memory) :
    raising.Matched (((liftM access : Action α) >>= rest) left)
      (((liftM access : Action α) >>= rest) right) := by
  rw [bind_of_error (Action.onMemory_of_error leftFailed),
    bind_of_error (Action.onMemory_of_error rightFailed)]
  exact .error now

theorem require (now : raising.Twins view left right) (count : UInt64) {rest : Action Unit}
    (continued : ∀ left right, raising.Twins view left right →
      count.toNat ≤ view.cells.length → raising.Matched (rest left) (rest right)) :
    raising.Matched ((do Stack.require count; rest : Action Unit) left)
      ((do Stack.require count; rest : Action Unit) right) := by
  have leftRequired := now.leftShows.require count
  have rightRequired := now.rightShows.require count
  by_cases few : view.cells.length < count.toNat
  · rw [if_pos few] at leftRequired rightRequired
    exact now.onMemory_fails leftRequired rightRequired
  · rw [if_neg few] at leftRequired rightRequired
    exact now.onMemory leftRequired rightRequired now.leftShows now.rightShows
      fun left right later => continued left right later (by omega)

theorem requireInts (now : raising.Twins view left right) (count : UInt64) {rest : Action Unit}
    (continued : ∀ left right, raising.Twins view left right →
      count.toNat ≤ view.cells.length → raising.Matched (rest left) (rest right)) :
    raising.Matched ((do Stack.requireInts count; rest : Action Unit) left)
      ((do Stack.requireInts count; rest : Action Unit) right) := by
  have leftRequired := now.leftShows.requireInts count
  have rightRequired := now.rightShows.requireInts count
  by_cases few : view.cells.length < count.toNat
  · rw [if_pos few] at leftRequired rightRequired
    exact now.onMemory_fails leftRequired rightRequired
  · rw [if_neg few] at leftRequired rightRequired
    by_cases other : (view.cells.take count.toNat).any Cell.isString = true
    · rw [if_pos other] at leftRequired rightRequired
      exact now.onMemory_fails leftRequired rightRequired
    · rw [if_neg other] at leftRequired rightRequired
      exact now.onMemory leftRequired rightRequired now.leftShows now.rightShows
        fun left right later => continued left right later (by omega)

/-- Where the small stack has room, the large one has. -/
theorem requireFree (now : raising.Twins view left right) {rest : Action Unit}
    (continued : ∀ left right, raising.Twins view left right →
      view.cells.length < raising.small.start.layout.stackCells →
      raising.Matched (rest left) (rest right)) :
    raising.Matched ((do Stack.requireFree; rest : Action Unit) left)
      ((do Stack.requireFree; rest : Action Unit) right) := by
  have fits := now.leftShows.fits
  have more := raising.stackCells_le
  have leftRequired := now.leftShows.requireFree
  have rightRequired := now.rightShows.requireFree
  by_cases full : view.cells.length = raising.small.start.layout.stackCells
  · rw [if_pos full] at leftRequired
    rw [bind_of_error (Action.onMemory_of_error leftRequired)]
    exact .ceiling rfl
  · rw [if_neg full] at leftRequired
    rw [if_neg (by omega)] at rightRequired
    exact now.onMemory leftRequired rightRequired now.leftShows now.rightShows
      fun left right later => continued left right later (by omega)

theorem peek (now : raising.Twins view left right) (depth : UInt64)
    (live : depth.toNat < view.cells.length) {rest : Cell → Action Unit}
    (continued : ∀ cell left right, raising.Twins view left right →
      raising.Matched (rest cell left) (rest cell right)) :
    raising.Matched ((do let cell ← Stack.peek depth; rest cell : Action Unit) left)
      ((do let cell ← Stack.peek depth; rest cell : Action Unit) right) := by
  have found := List.getElem?_eq_getElem live
  exact now.onMemory (now.leftShows.peek depth found) (now.rightShows.peek depth found)
    now.leftShows now.rightShows (continued _)

theorem drop (now : raising.Twins view left right) (count : UInt64)
    (live : count.toNat ≤ view.cells.length) {rest : Action Unit}
    (continued : ∀ left right,
      raising.Twins { view with cells := view.cells.drop count.toNat } left right →
      raising.Matched (rest left) (rest right)) :
    raising.Matched ((do Stack.drop count; rest : Action Unit) left)
      ((do Stack.drop count; rest : Action Unit) right) := by
  rcases now.leftShows.drop count live with ⟨leftMemory, leftRan, leftShown⟩
  rcases now.rightShows.drop count live with ⟨rightMemory, rightRan, rightShown⟩
  exact now.onMemory leftRan rightRan leftShown rightShown continued

theorem poke (now : raising.Twins view left right) (depth : UInt64) (cell : Cell)
    (live : depth.toNat < view.cells.length) {rest : Action Unit}
    (continued : ∀ left right,
      raising.Twins { view with cells := view.cells.set depth.toNat cell } left right →
      raising.Matched (rest left) (rest right)) :
    raising.Matched ((do Stack.poke depth cell; rest : Action Unit) left)
      ((do Stack.poke depth cell; rest : Action Unit) right) := by
  rcases now.leftShows.poke depth live cell with ⟨leftMemory, leftRan, leftShown⟩
  rcases now.rightShows.poke depth live cell with ⟨rightMemory, rightRan, rightShown⟩
  exact now.onMemory leftRan rightRan leftShown rightShown continued

theorem push (now : raising.Twins view left right) (cell : Cell)
    (room : view.cells.length < raising.small.start.layout.stackCells) {rest : Action Unit}
    (continued : ∀ left right,
      raising.Twins { view with cells := cell :: view.cells } left right →
      raising.Matched (rest left) (rest right)) :
    raising.Matched ((do Stack.push cell; rest : Action Unit) left)
      ((do Stack.push cell; rest : Action Unit) right) := by
  rcases now.leftShows.push room cell with ⟨leftMemory, leftRan, leftShown⟩
  rcases now.rightShows.push (Nat.lt_of_lt_of_le room raising.stackCells_le) cell with
    ⟨rightMemory, rightRan, rightShown⟩
  exact now.onMemory leftRan rightRan leftShown rightShown continued

/-- A cell that is popped leaves room for another. -/
theorem pop (now : raising.Twins view left right) (live : 0 < view.cells.length)
    {rest : Cell → Action Unit}
    (continued : ∀ cell left right,
      raising.Twins { view with cells := view.cells.tail } left right →
      view.cells.tail.length < raising.small.start.layout.stackCells →
      raising.Matched (rest cell left) (rest cell right)) :
    raising.Matched ((do let cell ← Stack.pop; rest cell : Action Unit) left)
      ((do let cell ← Stack.pop; rest cell : Action Unit) right) := by
  have fits := now.leftShows.fits
  cases cells : view.cells with
  | nil => simp [cells] at live
  | cons cell below =>
      rw [cells] at continued fits
      rcases now.leftShows.pop cells with ⟨leftMemory, leftRan, leftShown⟩
      rcases now.rightShows.pop cells with ⟨rightMemory, rightRan, rightShown⟩
      exact now.onMemory leftRan rightRan leftShown rightShown fun left right later =>
        continued cell left right later fits

theorem programWords_eq (now : raising.Twins view left right) :
    right.memory.layout.programWords = left.memory.layout.programWords := by
  rw [now.leftShows.layout, now.rightShows.layout, Layout.programWords, Layout.programWords,
    raising.programBytes_eq]

/-- Both read the same byte of the program, as long as it lies on the tape. -/
theorem programByte (now : raising.Twins view left right) (offset : UInt64)
    (inside : offset.toNat < 8 * (raising.small.start.layout.programWords + 1)) :
    ∃ byte, Memory.programByte offset left.memory = .ok byte left.memory ∧
      Memory.programByte offset right.memory = .ok byte right.memory := by
  rw [← now.leftShows.layout] at inside
  have same : right.memory.byteAt offset.toNat = left.memory.byteAt offset.toNat := by
    have there := congrArg (·[offset.toNat]?) now.tape_eq
    simpa [Memory.tape, inside, now.programWords_eq] using there.symm
  refine ⟨_, Memory.programByte_eq now.leftShows.bounded_layout inside, ?_⟩
  rw [← same]
  apply Memory.programByte_eq now.rightShows.bounded_layout
  rwa [now.programWords_eq]

theorem programBytes (now : raising.Twins view left right) (count : Nat) (offset : UInt64)
    (inside : offset.toNat + count ≤ 8 * (raising.small.start.layout.programWords + 1)) :
    ∃ bytes, Memory.programBytes count offset left.memory = .ok bytes left.memory ∧
      Memory.programBytes count offset right.memory = .ok bytes right.memory := by
  rw [← now.leftShows.layout] at inside
  refine ⟨_, Memory.programBytes_eq now.leftShows.bounded_layout inside, ?_⟩
  rw [now.tape_eq]
  apply Memory.programBytes_eq now.rightShows.bounded_layout
  rwa [now.programWords_eq]

end Twins

end Raising

end TagMachine
