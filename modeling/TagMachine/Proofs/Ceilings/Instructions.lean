import TagMachine.Machine.Execute
import TagMachine.Proofs.Ceilings.Twins
import TagMachine.Proofs.Stages

/-!
# Instructions in twin machines

Every instruction comes to the same in twins, unless the first machine meets one of its ceilings:
what it reads of the stack lies among the live cells, what it reads of the program lies on the tape,
and what it pushes has room.
-/

namespace TagMachine.Raising

variable {raising : Raising} {view : Memory.View} {left right : State} {α : Type}

namespace Twins

theorem onWorld (now : raising.Twins view left right) {action : Action α}
    (onWorld : Action.OnWorld action) {rest : α → Action Unit}
    (continued : ∀ result left right, raising.Twins view left right →
      raising.Matched (rest result left) (rest result right)) :
    raising.Matched ((action >>= rest) left) ((action >>= rest) right) := by
  rcases left with ⟨world, leftMemory, leftHeap⟩
  rcases right with ⟨rightWorld, rightMemory, rightHeap⟩
  obtain rfl : world = rightWorld := now.world
  have later (world : World) : raising.Twins view ⟨world, leftMemory, leftHeap⟩
      ⟨world, rightMemory, rightHeap⟩ :=
    ⟨rfl, now.leftShows, now.rightShows, now.strings, now.nextId, now.leftMax, now.rightMax⟩
  rcases onWorld world with ⟨result, after, ran⟩ | ⟨fault, after, -, failed⟩
  · rw [bind_of_ok (ran _ _), bind_of_ok (ran _ _)]
    exact continued result _ _ (later after)
  · rw [bind_of_error (failed _ _), bind_of_error (failed _ _)]
    exact .error (later after)

theorem print (now : raising.Twins view left right) (line : Bytes) :
    raising.Matched (Action.print line left) (Action.print line right) := by
  apply matched_of_bind_pure
  exact now.onWorld (Action.onWorld_print line) fun _ _ _ later => .ok later

/-! ## Strings -/

/-- An id that the small heap gives out is the one that the large heap gives out. -/
theorem allocString (now : raising.Twins view left right) (string : Bytes)
    {rest : UInt64 → Action Unit}
    (continued : ∀ id left right, raising.Twins view left right →
      raising.Matched (rest id left) (rest id right)) :
    raising.Matched ((Action.allocString string >>= rest) left)
      ((Action.allocString string >>= rest) right) := by
  have more := raising.moreStrings
  by_cases noRoom : left.heap.maxLive ≤ left.heap.live ∨ tagBit ≤ left.heap.nextId
  · have failed : left.heap.alloc string = .error .allocationFailure := by
      rw [Heap.alloc, if_pos noRoom]
    rw [bind_of_error (by simp only [Action.allocString, failed]; rfl)]
    exact .ceiling rfl
  · have live : left.heap.live = right.heap.live := congrArg List.length now.strings
    have room : ¬(right.heap.maxLive ≤ right.heap.live ∨ tagBit ≤ right.heap.nextId) := by
      rw [now.leftMax, live, now.nextId, not_or] at noRoom
      rw [now.rightMax, not_or]
      exact ⟨by omega, noRoom.2⟩
    have leftAllocated : left.heap.alloc string = .ok (left.heap.nextId,
        { left.heap with
          strings := (left.heap.nextId, string) :: left.heap.strings
          nextId := left.heap.nextId + 1 }) := if_neg noRoom
    have rightAllocated : right.heap.alloc string = .ok (left.heap.nextId,
        { right.heap with
          strings := (left.heap.nextId, string) :: right.heap.strings
          nextId := left.heap.nextId + 1 }) := by
      rw [now.nextId]
      exact if_neg room
    rw [bind_of_ok (by simp only [Action.allocString, leftAllocated]; rfl),
      bind_of_ok (by simp only [Action.allocString, rightAllocated]; rfl)]
    refine continued _ _ _ ⟨now.world, now.leftShows, now.rightShows, ?_, rfl, now.leftMax,
      now.rightMax⟩
    exact congrArg ((left.heap.nextId, string) :: ·) now.strings

theorem find?_eq (now : raising.Twins view left right) (id : UInt64) :
    left.heap.find? id = right.heap.find? id := by
  rw [Heap.find?, Heap.find?, now.strings]

theorem lookUpString (now : raising.Twins view left right) (id : UInt64)
    {rest : Bytes → Action Unit}
    (continued : ∀ string, raising.Matched (rest string left) (rest string right)) :
    raising.Matched ((Action.lookUpString id >>= rest) left)
      ((Action.lookUpString id >>= rest) right) := by
  have same : left.heap.get id = right.heap.get id := by
    rw [Heap.get, Heap.get, now.find?_eq]
  cases got : right.heap.get id with
  | ok string =>
      rw [bind_of_ok (by simp only [Action.lookUpString, same, got]; rfl),
        bind_of_ok (by simp only [Action.lookUpString, got]; rfl)]
      exact continued string
  | error fault =>
      rw [bind_of_error (by simp only [Action.lookUpString, same, got]; rfl),
        bind_of_error (by simp only [Action.lookUpString, got]; rfl)]
      exact .error now

theorem takeString (now : raising.Twins view left right) (id : UInt64)
    {rest : Bytes → Action Unit}
    (continued : ∀ string left right, raising.Twins view left right →
      raising.Matched (rest string left) (rest string right)) :
    raising.Matched ((Action.takeString id >>= rest) left)
      ((Action.takeString id >>= rest) right) := by
  cases found : right.heap.find? id with
  | none =>
      have leftFailed : left.heap.take id = .error (.danglingString id) := by
        rw [Heap.take, now.find?_eq, found]
      have rightFailed : right.heap.take id = .error (.danglingString id) := by
        rw [Heap.take, found]
      rw [bind_of_error (by simp only [Action.takeString, leftFailed]; rfl),
        bind_of_error (by simp only [Action.takeString, rightFailed]; rfl)]
      exact .error now
  | some string =>
      have leftTaken : left.heap.take id = .ok (string,
          { left.heap with strings := left.heap.strings.filter (·.1 != id) }) := by
        rw [Heap.take, now.find?_eq, found]
      have rightTaken : right.heap.take id = .ok (string,
          { right.heap with strings := right.heap.strings.filter (·.1 != id) }) := by
        rw [Heap.take, found]
      rw [bind_of_ok (by simp only [Action.takeString, leftTaken]; rfl),
        bind_of_ok (by simp only [Action.takeString, rightTaken]; rfl)]
      refine continued string _ _ ⟨now.world, now.leftShows, now.rightShows, ?_, now.nextId,
        now.leftMax, now.rightMax⟩
      exact congrArg (List.filter (·.1 != id)) now.strings

theorem popString (now : raising.Twins view left right) (live : 0 < view.cells.length)
    {rest : Bytes → Action Unit}
    (continued : ∀ string left right,
      raising.Twins { view with cells := view.cells.tail } left right →
      view.cells.tail.length < raising.small.start.layout.stackCells →
      raising.Matched (rest string left) (rest string right)) :
    raising.Matched ((Action.popString >>= rest) left) ((Action.popString >>= rest) right) := by
  rw [Action.popString, bind_assoc]
  refine now.pop live fun cell left right below room => ?_
  cases cell.value with
  | string id =>
      exact below.takeString id fun string left right later =>
        continued string left right later room
  | int _ => exact .error below

theorem pushString (now : raising.Twins view left right) (string : Bytes)
    (room : view.cells.length < raising.small.start.layout.stackCells) {rest : Action Unit}
    (continued : ∀ cell left right,
      raising.Twins { view with cells := cell :: view.cells } left right →
      raising.Matched (rest left) (rest right)) :
    raising.Matched ((do Action.pushString string; rest : Action Unit) left)
      ((do Action.pushString string; rest : Action Unit) right) := by
  rw [Action.pushString, bind_assoc]
  exact now.allocString string fun id left right later =>
    later.push (Cell.ofString id) room (continued _)

/-! ## Moving along the program -/

theorem advance (now : raising.Twins view left right) (count : UInt64) {rest : Action Unit}
    (continued : ∀ left right, raising.Twins { view with ip := view.ip + count } left right →
      raising.Matched (rest left) (rest right)) :
    raising.Matched ((do Action.advance count; rest : Action Unit) left)
      ((do Action.advance count; rest : Action Unit) right) := by
  have leftRan : Action.advance count left.memory =
      .ok () (left.memory.setIp (view.ip + count)) := by
    rw [← now.leftShows.ip]
    rfl
  have rightRan : Action.advance count right.memory =
      .ok () (right.memory.setIp (view.ip + count)) := by
    rw [← now.rightShows.ip]
    rfl
  exact now.onMemory leftRan rightRan (now.leftShows.setIp _) (now.rightShows.setIp _) continued

/-- The longest operand after an instruction inside the program ends on the tape. -/
theorem inside_operand (raising : Raising) {ip : UInt64} {count : Nat} (short : count ≤ 8)
    (inside : ip.toNat ≤ raising.small.program.length) :
    ip.toNat + count ≤ 8 * (raising.small.start.layout.programWords + 1) := by
  have fits := raising.small.short
  rw [raising.small.layout]
  simp only [Layout.programWords]
  omega

theorem jump_of_programBytes {memory : Memory} {bytes : Bytes}
    (read : Memory.programBytes 2 memory.ip memory = .ok bytes memory) :
    Action.jump true memory =
      .ok () (memory.setIp (UInt16.ofNat bytes.littleEndian).toUInt64) := by
  have target : Memory.programTarget memory.ip memory =
      .ok (UInt16.ofNat bytes.littleEndian) memory := bind_of_ok read
  change (Memory.programTarget memory.ip >>= _) memory = _
  rw [bind_of_ok target]
  rfl

theorem jump (now : raising.Twins view left right)
    (inside : view.ip.toNat ≤ raising.small.program.length) (taken : Bool) :
    raising.Matched ((liftM (Action.jump taken) : Action Unit) left)
      ((liftM (Action.jump taken) : Action Unit) right) := by
  cases taken with
  | false =>
      apply matched_of_bind_pure
      exact now.advance 2 fun _ _ later => .ok later
  | true =>
      rcases now.programBytes 2 view.ip (inside_operand raising (by decide) inside) with
        ⟨bytes, leftRead, rightRead⟩
      rw [← now.leftShows.ip] at leftRead
      rw [← now.rightShows.ip] at rightRead
      apply matched_of_bind_pure
      exact now.onMemory (jump_of_programBytes leftRead) (jump_of_programBytes rightRead)
        (now.leftShows.setIp _) (now.rightShows.setIp _) fun _ _ later => .ok later

/-- Both read the literal that follows in the program. -/
theorem literal (now : raising.Twins view left right)
    (inside : view.ip.toNat ≤ raising.small.program.length) {rest : Bytes × UInt8 → Action Unit}
    (continued : ∀ read left right, raising.Twins { view with ip := view.ip + 1 } left right →
      raising.Matched (rest read left) (rest read right)) :
    raising.Matched ((Action.literal >>= rest) left) ((Action.literal >>= rest) right) := by
  simp only [Action.literal, bind_assoc]
  rw [get_bind, get_bind, now.leftShows.ip, now.rightShows.ip]
  rcases now.programByte view.ip (inside_operand raising (by decide : 1 ≤ 8) inside) with
    ⟨length, leftRead, rightRead⟩
  refine now.onMemory leftRead rightRead now.leftShows now.rightShows fun left right now => ?_
  refine now.advance 1 fun left right now => ?_
  rw [get_bind, get_bind, now.leftShows.ip, now.rightShows.ip, ← now.programLength]
  by_cases pastEnd : left.memory.programLength.toNat < (view.ip + 1).toNat + length.toNat
  · simp only [pastEnd, if_true]
    exact .error now
  have stored := raising.small.short
  have within := pastEnd
  rw [now.leftShows.programLength_eq, raising.small.programLength] at within
  rcases now.programBytes length.toNat (view.ip + 1) (by
    rw [raising.small.layout]
    simp only [Layout.programWords]
    omega) with ⟨bytes, leftRead, rightRead⟩
  simp only [pastEnd, if_false, bind_assoc]
  exact now.onMemory leftRead rightRead now.leftShows now.rightShows fun left right now =>
    continued (bytes, length) left right now

/-- Both read the number that follows in the program. -/
theorem immediate (now : raising.Twins view left right)
    (inside : view.ip.toNat ≤ raising.small.program.length) {rest : UInt64 → Action Unit}
    (continued : ∀ word left right, raising.Twins view left right →
      raising.Matched (rest word left) (rest word right)) :
    raising.Matched
      ((do
          let word ← (do Memory.programWord (← get).ip : Memory.Access UInt64)
          rest word : Action Unit) left)
      ((do
          let word ← (do Memory.programWord (← get).ip : Memory.Access UInt64)
          rest word : Action Unit) right) := by
  rcases now.programBytes 8 view.ip (inside_operand raising (by decide) inside) with
    ⟨bytes, leftRead, rightRead⟩
  rw [← now.leftShows.ip] at leftRead
  rw [← now.rightShows.ip] at rightRead
  have leftWord : (do Memory.programWord (← get).ip : Memory.Access UInt64) left.memory =
      .ok (UInt64.ofNat bytes.littleEndian) left.memory := bind_of_ok leftRead
  have rightWord : (do Memory.programWord (← get).ip : Memory.Access UInt64) right.memory =
      .ok (UInt64.ofNat bytes.littleEndian) right.memory := bind_of_ok rightRead
  exact now.onMemory leftWord rightWord now.leftShows now.rightShows (continued _)

theorem exchange (now : raising.Twins view left right) :
    raising.Matched ((liftM (Action.exchange 2) : Action Unit) left)
      ((liftM (Action.exchange 2) : Action Unit) right) := by
  simp only [Action.exchange, Stack.swap, Action.liftM_bind]
  refine now.require 2 fun left right now live => ?_
  change 2 ≤ view.cells.length at live
  refine now.peek 0 (Nat.lt_of_lt_of_le (by decide) live) fun top left right now => ?_
  refine now.peek 1 (Nat.lt_of_lt_of_le (by decide) live) fun below left right now => ?_
  refine now.poke 0 _ (Nat.lt_of_lt_of_le (by decide) live) fun left right now => ?_
  apply matched_of_bind_pure
  exact now.poke 1 _ (by rw [List.length_set]; exact live) fun _ _ last => .ok last

end Twins

/-! ## Instructions -/

/-- What the view shows is enough for what is known at a stage. -/
structure Shown (raising : Raising) (stage : Stage) (view : Memory.View) : Prop where
  live : stage.live ≤ view.cells.length
  room : stage.room = true → view.cells.length < raising.small.start.layout.stackCells
  inside : stage.untouched = true → view.ip.toNat ≤ raising.small.program.length

namespace Shown

variable {stage : Stage}

theorem touched (shown : raising.Shown stage view) :
    raising.Shown stage.touched view :=
  ⟨shown.live, shown.room, (nomatch ·)⟩

theorem lowered {count : Nat} (shown : raising.Shown stage view)
    (room : (view.cells.drop count).length < raising.small.start.layout.stackCells) :
    raising.Shown (stage.lowered count) { view with cells := view.cells.drop count } := by
  refine ⟨?_, fun _ => room, (nomatch ·)⟩
  rw [List.length_drop]
  exact Nat.sub_le_sub_right shown.live count

end Shown

/-- At every stage the rest comes to the same in twins. -/
def twinRule (raising : Raising) (opcode : Opcode) : StageRule raising.small.config opcode where
  held _ := True
  holds stage rest := ∀ view left right, raising.Twins view left right → raising.Shown stage view →
    raising.Matched (rest left) (rest right)
  ends rest := ∀ view left right, raising.Twins view left right →
    raising.Matched (rest left) (rest right)
  stop _ _ _ _ now _ := .ok now
  fail _ _ _ _ _ _ now _ := .error now
  require _ later view _ _ now shown := now.require _ fun left right now enough =>
    later view left right now ⟨enough, shown.room, shown.inside⟩
  requireInts _ later view _ _ now shown := now.requireInts _ fun left right now enough =>
    later view left right now ⟨enough, shown.room, shown.inside⟩
  requireFree _ _ later view _ _ now shown := now.requireFree fun left right now room =>
    later view left right now ⟨shown.live, fun _ => room, shown.inside⟩
  peek inside later view _ _ now shown :=
    now.peek _ (Nat.lt_of_lt_of_le inside shown.live) fun cell left right now =>
      later cell view left right now shown
  drop some enough later view _ _ now shown := by
    have fits := now.leftShows.fits
    have live := Nat.le_trans enough shown.live
    refine now.drop _ live fun left right below => later _ left right below (shown.lowered ?_)
    rw [List.length_drop]
    omega
  pop live later view _ _ now shown :=
    now.pop (Nat.lt_of_lt_of_le live shown.live) fun cell left right below room =>
      later cell _ left right below (List.drop_one ▸ shown.lowered (List.drop_one ▸ room))
  popString live _ later view _ _ now shown :=
    now.popString (Nat.lt_of_lt_of_le live shown.live) fun string left right below room =>
      later string trivial _ left right below (List.drop_one ▸ shown.lowered (List.drop_one ▸ room))
  lookUpString id _ later view left right now shown := now.lookUpString id fun string =>
    later string trivial view left right now shown
  replaceTop cell live _ view _ _ now shown :=
    now.poke 0 cell (Nat.lt_of_lt_of_le live shown.live) fun left right above =>
      matched_of_bind_pure (above.requireInts 1 fun _ _ last _ => .ok last)
  push cell _ room _ later view _ _ now shown := now.push cell (shown.room room) (later _)
  pushResult cell room _ _ view _ _ now shown :=
    now.push cell (shown.room room) fun left right above =>
      matched_of_bind_pure (above.requireInts 1 fun _ _ last _ => .ok last)
  pushString room _ _ later view _ _ now shown :=
    now.pushString _ (shown.room room) fun cell => later _
  setCmp _ on _ _ _ _ now _ := .ok (now.setCmp on)
  setHalt _ _ _ _ _ now _ := .ok (now.setHalt true)
  readLine limit _ later view _ _ now shown :=
    now.onWorld (Action.onWorld_onInput _) fun line left right now =>
      later line view left right now shown.touched
  readWord later view _ _ now shown :=
    now.onWorld Action.onWorld_inputWord fun word left right now =>
      later word view left right now shown.touched
  writeFile _ _ later view _ _ now shown :=
    now.onWorld (Action.onWorld_onFiles _) fun count left right now =>
      later count view left right now shown.touched
  readFile _ later view _ _ now shown :=
    now.onWorld (Action.onWorld_contentOf _ _) fun content left right now =>
      later content view left right now shown.touched
  print _ _ _ _ _ _ now _ := now.print _
  exchange _ view left right now _ := by
    rw [raising.small.hardened]
    exact now.exchange
  jump taken _ view left right now shown := by
    rw [get_bind, get_bind, now.leftShows.cmp_eq, now.rightShows.cmp_eq]
    exact now.jump (shown.inside rfl) _
  immediate _ later view left right now shown :=
    now.immediate (shown.inside rfl) fun word left right now => later word view left right now shown
  literal _ later view left right now shown :=
    now.literal (shown.inside rfl) fun read left right now =>
      later read _ left right now ⟨shown.live, shown.room, (nomatch ·)⟩
  done _ _ _ now := .ok now
  advance count _ _ _ _ now := matched_of_bind_pure (now.advance count fun _ _ last => .ok last)

/-- Every instruction comes to the same in twins. -/
theorem Twins.execute (now : raising.Twins view left right)
    (inside : view.ip.toNat ≤ raising.small.program.length) (opcode : Opcode) :
    raising.Matched (opcode.execute raising.small.config left)
      (opcode.execute raising.small.config right) :=
  (raising.twinRule opcode).execute view left right now
    ⟨Nat.zero_le _, (nomatch ·), fun _ => inside⟩

end TagMachine.Raising
