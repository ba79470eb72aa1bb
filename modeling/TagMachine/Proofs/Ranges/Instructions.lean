import TagMachine.Machine.Run
import TagMachine.Proofs.Components
import TagMachine.Proofs.Operations
import TagMachine.Proofs.Ranges.Bytes
import TagMachine.Proofs.Ranges.Memory
import TagMachine.Proofs.Stages

/-!
# Instructions with checked operations

Each instruction that makes an operation with a range, or has a part that does, is followed by a
checked one.  The others only count modulo `2 ^ 64` and look words up, and have nothing to check.
The joining of two strings alone needs to know more than the bounds of the layout: that the strings
fit their buffers.
-/

namespace TagMachine

/-- The machine's memory has a bounded layout. -/
def State.Bounded (state : State) : Prop :=
  state.memory.Bounded

/-- Every live string is shorter than `2 ^ 63` bytes. -/
def Heap.StringsFit (heap : Heap) : Prop :=
  ∀ id string, heap.find? id = some string → string.length < tagBit.toNat

theorem Heap.stringsFit_of_all {heap : Heap}
    (short : heap.strings.all fun entry => entry.2.length < tagBit.toNat) :
    heap.StringsFit := by
  intro id string lives
  rcases List.lookup_eq_some_iff.mp lives with ⟨earlier, later, strings, _⟩
  have member : (id, string) ∈ heap.strings := by
    rw [strings]
    exact List.mem_append_right _ List.mem_cons_self
  simpa using List.all_eq_true.mp short (id, string) member

open Memory (looks_require looks_requireInts looks_requireFree looks_peek looks_programByte
  looks_programBytes looks_programWord)

variable {α : Type}

/-! ## Computations that keep the layout -/

section Keeps

theorem keeps_liftM {access : Memory.Access α} (keeps : Keeps Memory.Bounded access) :
    Keeps State.Bounded (liftM access : Action α) := by
  have sees : Component.memory.Sees (fun left right => left = right ∧ left.Bounded)
      fun left right => left = right ∧ left.Bounded :=
    .ofKept (fun _ bounded => bounded) fun _ _ _ bounded => bounded
  rw [Component.on_memory]
  exact sees.respects_on keeps

theorem keeps_onWorld {action : Action α} (onWorld : Action.OnWorld action) :
    Keeps State.Bounded action := by
  refine Carries.respects <|
    onWorld.carries (fun _ _ same => congrArg State.toWorld same.1) ?_ fun _ _ => id
  rintro state _ world ⟨rfl, bounded⟩
  exact ⟨rfl, bounded⟩

theorem keeps_takeString (id : UInt64) :
    Keeps State.Bounded (Action.takeString id) :=
  (SeesHeap.ofKept fun _ _ bounded => bounded).respects_takeString id

theorem keeps_popString :
    Keeps State.Bounded Action.popString := by
  refine (keeps_liftM keeps_pop).bind fun cell => ?_
  split
  · exact keeps_takeString _
  · exact respects_throw _

theorem keeps_pushString (string : Bytes) :
    Keeps State.Bounded (Action.pushString string) :=
  ((SeesHeap.ofKept fun _ _ bounded => bounded).respects_allocString string).bind fun _ =>
    keeps_liftM (keeps_push _)

theorem keeps_literal :
    Keeps State.Bounded Action.literal :=
  keeps_get_bind fun _ => (keeps_liftM (looks_programByte _).keeps).bind fun _ =>
    (keeps_liftM (keeps_advance 1)).bind fun _ => keeps_get_bind fun _ => respects_failIf _ <|
      (keeps_liftM (looks_programBytes _ _).keeps).bind fun _ => respects_pure _

/-- At every stage the layout is kept. -/
def boundedRule (config : Config) (opcode : Opcode) : StageRule config opcode where
  held _ := True
  holds _ := Keeps State.Bounded
  ends := Keeps State.Bounded
  stop _ := respects_pure ()
  fail _ _ _ := respects_throw _
  require _ later := (keeps_liftM (looks_require _).keeps).bind fun _ => later
  requireInts _ later := (keeps_liftM (looks_requireInts _).keeps).bind fun _ => later
  requireFree _ _ later := (keeps_liftM looks_requireFree.keeps).bind fun _ => later
  peek _ later := (keeps_liftM (looks_peek _).keeps).bind later
  drop _ _ later := (keeps_liftM (keeps_drop _)).bind fun _ => later
  pop _ later := (keeps_liftM keeps_pop).bind later
  popString _ _ later := keeps_popString.bind fun string => later string trivial
  lookUpString id _ later := (keeps_lookUpString id).bind fun string => later string trivial
  replaceTop cell _ _ := (keeps_liftM (keeps_poke 0 cell)).bind fun _ =>
    keeps_liftM (looks_requireInts 1).keeps
  push cell _ _ _ later := (keeps_liftM (keeps_push cell)).bind fun _ => later
  pushResult cell _ _ _ := (keeps_liftM (keeps_push cell)).bind fun _ =>
    keeps_liftM (looks_requireInts 1).keeps
  pushString _ _ _ later := (keeps_pushString _).bind fun _ => later
  setCmp _ on _ := keeps_liftM (keeps_setCmp on)
  setHalt _ _ := keeps_liftM (keeps_setHalt true)
  readLine _ _ later := (keeps_onWorld (Action.onWorld_onInput _)).bind later
  readWord later := (keeps_onWorld Action.onWorld_inputWord).bind later
  writeFile _ _ later := (keeps_onWorld (Action.onWorld_onFiles _)).bind later
  readFile _ later := (keeps_onWorld (Action.onWorld_contentOf config _)).bind later
  print _ _ _ := keeps_onWorld (Action.onWorld_print _)
  exchange _ := keeps_liftM (keeps_exchange _)
  jump _ _ := keeps_get_bind fun _ => keeps_liftM (keeps_jump _)
  immediate _ later :=
    (keeps_liftM (keeps_get_bind fun _ => (looks_programWord _).keeps)).bind later
  literal _ later := keeps_literal.bind later
  done := respects_pure ()
  advance count _ := keeps_liftM (keeps_advance count)

end Keeps

namespace Checked

/-! ## Parts of instructions -/

/-- A checked computation on memory, the rest of the state unchanged. -/
def onMemory (access : Checked Fault Memory α) : Checked Fault State α := fun
  | ⟨world, memory, heap⟩ =>
      match access memory with
      | .ok result memory => .ok result ⟨world, memory, heap⟩
      | .error trap memory => .error trap ⟨world, memory, heap⟩

def readLine (limit : Nat) : Checked Fault State Bytes := fun
  | ⟨⟨input, output, files⟩, memory, heap⟩ =>
      match lineFrom? input.ending limit [] input.pieces with
      | some (.ok line, pieces) => .ok line ⟨⟨{ input with pieces }, output, files⟩, memory, heap⟩
      | some (.error cause, pieces) =>
          .error (.failure (.io cause)) ⟨⟨{ input with pieces }, output, files⟩, memory, heap⟩
      | none => .error .outOfRange ⟨⟨input, output, files⟩, memory, heap⟩

def allocString (string : Bytes) : Checked Fault State UInt64 := do
  let heap := (← get).heap
  if heap.maxLive ≤ heap.live ∨ tagBit ≤ heap.nextId then
    throw (.failure .allocationFailure)
  let nextId ← inRange (sum? heap.nextId.toNat 1)
  modify fun state =>
    { state with
      heap := { heap with
        strings := (heap.nextId, string) :: heap.strings
        nextId := UInt64.ofNat nextId } }
  return heap.nextId

def pushString (string : Bytes) : Checked Fault State Unit := do
  let id ← allocString string
  plain (Stack.push (Cell.ofString id))

theorem follows_onMemory {checked : Checked Fault Memory α} {access : Memory.Access α}
    (follows : Follows Memory.Bounded checked access) :
    Follows State.Bounded (onMemory checked) (liftM access : Action α) := by
  rintro ⟨world, memory, heap⟩ bounded
  have came := follows memory bounded
  unfold onMemory
  dsimp only
  cases ran : access memory with
  | ok result after =>
      rw [ran] at came
      rw [Action.onMemory_of_ok ran]
      revert came
      cases checked memory <;> intro came <;> cases came
      rename_i still
      exact .ok still
  | error fault after =>
      rw [ran] at came
      rw [Action.onMemory_of_error ran]
      revert came
      cases checked memory <;> intro came <;> cases came
      rename_i still
      exact .error still

theorem follows_liftM {access : Memory.Access α} (keeps : Keeps Memory.Bounded access) :
    Follows State.Bounded (plain (liftM access : Action α)) (liftM access) :=
  follows_plain (keeps_liftM keeps)

theorem follows_readLine {limit : Nat} (counted : limit < UInt64.size) :
    Follows State.Bounded (readLine limit) (Action.onInput (Input.readLine limit)) := by
  rintro ⟨⟨⟨pieces, ending⟩, output, files⟩, memory, heap⟩ bounded
  unfold readLine Action.onInput Input.readLine
  dsimp only
  rw [lineFrom?_eq counted [] pieces (Nat.zero_le _), List.length_nil, Nat.sub_zero]
  rcases Input.lineFrom ending limit pieces with ⟨line | cause, left⟩
  · exact .error bounded
  · exact .ok bounded

theorem follows_allocString (string : Bytes) :
    Follows State.Bounded (allocString string) (Action.allocString string) := by
  intro state bounded
  unfold allocString
  rw [get_bind]
  dsimp only
  by_cases noRoom : state.heap.maxLive ≤ state.heap.live ∨ tagBit ≤ state.heap.nextId
  · have failed : state.heap.alloc string = .error .allocationFailure := if_pos noRoom
    rw [if_pos noRoom]
    simp only [Action.allocString, failed]
    exact .error bounded
  · have counted : state.heap.nextId.toNat + 1 < UInt64.size := by
      have below := (not_or.mp noRoom).2
      rw [UInt64.le_iff_toNat_le, Cell.toNat_tagBit] at below
      simp only [UInt64.size]
      omega
    have next : UInt64.ofNat (state.heap.nextId.toNat + 1) = state.heap.nextId + 1 := by
      rw [UInt64.ofNat_add, UInt64.ofNat_toNat]
      rfl
    have allocated : state.heap.alloc string = .ok (state.heap.nextId,
        { state.heap with
          strings := (state.heap.nextId, string) :: state.heap.strings
          nextId := UInt64.ofNat (state.heap.nextId.toNat + 1) }) := by
      rw [next]
      exact if_neg noRoom
    rw [if_neg noRoom, sum?, if_pos counted]
    simp only [Action.allocString, allocated]
    exact .ok bounded

theorem follows_pushString (string : Bytes) :
    Follows State.Bounded (pushString string) (Action.pushString string) :=
  (follows_allocString string).bind fun _ => follows_liftM (keeps_push _)

/-! ## Instructions -/

def jump (taken : Bool) : Checked Fault Memory Unit := do
  if taken then
    let target ← programTarget (← get).ip
    plain (modify (·.setIp target.toUInt64))
  else
    plain (Action.advance 2)

def pushImmediate : Checked Fault Memory Unit := do
  plain Stack.requireFree
  let word ← programWord (← get).ip
  plain (Stack.push (Cell.ofInt word))
  plain (Action.advance 8)

def divide (operation? : UInt64 → UInt64 → Option UInt64) : Checked Fault Memory Unit := do
  plain (Stack.requireInts 2)
  let top ← plain (Stack.peek 0)
  let second ← plain (Stack.peek 1)
  plain (Stack.drop 1)
  if top.word = 0 then throw (.failure .divideByZero)
  let result ← inRange (operation? second.word top.word)
  plain (Stack.poke 0 ⟨result⟩)
  plain (Stack.requireInts 1)

def unary (operation? : UInt64 → Option UInt64) : Checked Fault Memory Unit := do
  plain (Stack.requireInts 1)
  let cell ← plain (Stack.peek 0)
  let result ← inRange (operation? cell.word)
  plain (Stack.poke 0 ⟨result⟩)
  plain (Stack.requireInts 1)

def intToString : Checked Fault State Unit := do
  plain (Stack.requireInts 1)
  let cell ← plain Stack.pop
  let text := Bytes.ofText (String.ofList (Numeral.decimal cell.word.toNat))
  if Action.maxNumeralLength ≤ text.length then throw (.failure (.malformed .longNumeral))
  let string ← inRange (cutAtZero? text)
  pushString string

def copyTop : Checked Fault State Unit := do
  plain (Stack.require 1)
  plain Stack.requireFree
  let cell ← plain (Stack.peek 0)
  match cell.value with
  | .string id =>
      let string ← plain (Action.lookUpString id)
      let copy ← allocString string
      plain (Stack.push (Cell.ofString copy))
  | .int _ => plain (Stack.push cell)

def pushLiteral : Checked Fault State Unit := do
  plain Stack.requireFree
  let length ← onMemory (programByte (← get).memory.ip)
  plain (Action.advance 1)
  let memory := (← get).memory
  let start := memory.ip
  let programLength ← inRange (programLength? memory)
  if programLength.toNat < start.toNat + length.toNat then
    throw (.failure (.malformed .literalPastEnd))
  let literal ← onMemory (literalFrom start length.toNat 0)
  let string ← inRange (cutAtZero? literal)
  pushString string
  plain (Action.advance length.toUInt64)

def pushLine (maxLineLength : Nat) : Checked Fault State Unit := do
  plain Stack.requireFree
  let limit ← inRange (difference? maxLineLength 1)
  let line ← readLine limit
  let text ← inRange (cutAtZero? line)
  if text.length ≤ 1 then throw (.failure (.malformed .emptyLine))
  let string ← inRange (cutAtZero? (Action.withoutNewline text))
  pushString string

def concat : Checked Fault State Unit := do
  plain (Stack.require 2)
  let first ← plain Action.popString
  let second ← plain Action.popString
  let both ← inRange (joined? first second)
  pushString both

def stringToInt : Checked Fault State Unit := do
  plain (Stack.require 1)
  let string ← plain Action.popString
  let number ← inRange (readLong? string)
  plain (Stack.push ⟨UInt64.ofInt number⟩)
  plain (Stack.requireInts 1)

def findString : Checked Fault State Unit := do
  plain (Stack.require 2)
  let hay ← plain Action.popString
  let needle ← plain Action.popString
  let found ← inRange (occursIn? needle hay)
  plain (modify (·.setCmp (!found)) : Memory.Access Unit)

def readFile (config : Config) : Checked Fault State Unit := do
  plain (Stack.require 1)
  let rawName ← plain Action.popString
  let name ← plain (Action.ofExcept (Sandbox.fileName config rawName))
  let content ← plain (Action.ofExcept ((Sandbox.read config name (← get).files).mapError .io))
  let string ← inRange (cutAtZero? content)
  pushString string

/-- What an opcode does; those without checked operations do it plainly. -/
def execute (config : Config) : Opcode → Checked Fault State Unit
  | .push => onMemory pushImmediate
  | .div => onMemory (divide quotient?)
  | .mod => onMemory (divide remainder?)
  | .itostr => intToString
  | .jmp => onMemory (jump true)
  | .jnz => do onMemory (jump (← get).memory.cmp)
  | .jz => do onMemory (jump (!(← get).memory.cmp))
  | .shl => onMemory (unary (shiftLeft? · 1))
  | .shr => onMemory (unary (shiftRight? · 1))
  | .cpy => copyTop
  | .pushs => pushLiteral
  | .reads => pushLine config.maxLineLength
  | .strcat => concat
  | .strtoi => stringToInt
  | .instr => findString
  | .readfile => readFile config
  | opcode => plain (opcode.execute config)

/-- Fetches a byte and executes its opcode. -/
def step (config : Config) : Checked Fault State Unit := do
  let ip := (← get).memory.ip
  let byte ← onMemory (programByte ip)
  plain (modify (·.setIp (ip + 1)) : Memory.Access Unit)
  execute config (Opcode.running byte)

/-! ## No operation is out of range -/

section Follows

theorem follows_jump (taken : Bool) :
    Follows Memory.Bounded (jump taken) (Action.jump taken) := by
  unfold jump Action.jump
  split
  · exact follows_get_bind fun _ _ => (follows_programTarget _).bind fun _ =>
      follows_plain (keeps_setIp _)
  · exact follows_plain (keeps_advance 2)

theorem follows_pushImmediate :
    Follows Memory.Bounded pushImmediate Action.pushImmediate :=
  (follows_plain looks_requireFree.keeps).bind fun _ => follows_get_bind fun _ _ =>
    (follows_programWord _).bind fun _ => (follows_plain (keeps_push _)).bind fun _ =>
      follows_plain (keeps_advance 8)

theorem follows_divide {operation? : UInt64 → UInt64 → Option UInt64}
    {operation : UInt64 → UInt64 → UInt64}
    (within : ∀ left right, right ≠ 0 → operation? left right = some (operation left right)) :
    Follows Memory.Bounded (divide operation?) (Action.divide operation) :=
  (follows_plain (looks_requireInts 2).keeps).bind fun _ =>
    (follows_plain (looks_peek 0).keeps).bind fun _ =>
    (follows_plain (looks_peek 1).keeps).bind fun _ => (follows_plain (keeps_drop 1)).bind fun _ =>
      follows_failIf _ fun nonzero => follows_inRange (within _ _ nonzero) <|
        (follows_plain (keeps_poke _ _)).bind fun _ => follows_plain (looks_requireInts 1).keeps

theorem follows_unary {operation? : UInt64 → Option UInt64} {operation : UInt64 → UInt64}
    (within : ∀ word, operation? word = some (operation word)) :
    Follows Memory.Bounded (unary operation?) (Action.unary operation) :=
  (follows_plain (looks_requireInts 1).keeps).bind fun _ =>
    (follows_plain (looks_peek 0).keeps).bind fun _ =>
    follows_inRange (within _) <| (follows_plain (keeps_poke _ _)).bind fun _ =>
      follows_plain (looks_requireInts 1).keeps

theorem follows_intToString :
    Follows State.Bounded intToString Action.intToString := by
  refine (follows_liftM (looks_requireInts 1).keeps).bind fun _ =>
    (follows_liftM keeps_pop).bind fun cell => follows_failIf _ fun _ => ?_
  refine follows_inRange ?_ (follows_pushString _)
  rw [cutAtZero?_eq, Bytes.untilZero_eq_self (Numeral.zero_not_mem_decimal _)]

theorem follows_copyTop :
    Follows State.Bounded copyTop Action.copyTop := by
  refine (follows_liftM (looks_require 1).keeps).bind fun _ =>
    (follows_liftM looks_requireFree.keeps).bind fun _ =>
      (follows_liftM (looks_peek 0).keeps).bind fun cell => ?_
  cases cell.value with
  | string id =>
      exact (follows_plain (keeps_lookUpString id)).bind fun _ =>
        (follows_allocString _).bind fun _ => follows_liftM (keeps_push _)
  | int _ => exact follows_liftM (keeps_push cell)

theorem follows_pushLiteral :
    Follows State.Bounded pushLiteral Action.pushLiteral := by
  refine (follows_liftM looks_requireFree.keeps).bind fun _ => follows_get_bind fun _ _ =>
    (follows_onMemory (follows_programByte _)).bind fun length =>
      (follows_liftM (keeps_advance 1)).bind fun _ => follows_get_bind fun state _ =>
        follows_inRange (programLength?_eq state.memory) <| follows_failIf _ fun endsInside => ?_
  have countable := state.memory.programLength.toNat_lt
  have literal := @follows_literalFrom state.memory.ip length.toNat 0
    (by simp only [UInt64.size]; omega)
  rw [Nat.add_zero, UInt64.ofNat_toNat] at literal
  exact (follows_onMemory literal).bind fun _ => follows_inRange (cutAtZero?_eq _) <|
    (follows_pushString _).bind fun _ => follows_liftM (keeps_advance _)

theorem follows_pushLine {maxLineLength : Nat} (positive : 1 ≤ maxLineLength)
    (counted : maxLineLength < UInt64.size) :
    Follows State.Bounded (pushLine maxLineLength) (Action.pushLine maxLineLength) := by
  refine (follows_liftM looks_requireFree.keeps).bind fun _ => follows_inRange (if_pos positive) <|
    (follows_readLine (by omega)).bind fun line => follows_inRange (cutAtZero?_eq line) <|
      follows_failIf _ fun _ => follows_inRange ?_ (follows_pushString _)
  rw [cutAtZero?_eq, Bytes.untilZero_eq_self
    (Action.zero_not_mem_withoutNewline (Bytes.zero_not_mem_untilZero line))]

theorem follows_stringToInt :
    Follows State.Bounded stringToInt Action.stringToInt :=
  (follows_liftM (looks_require 1).keeps).bind fun _ =>
    (follows_plain keeps_popString).bind fun _ =>
    follows_inRange (readLong?_eq _) <| (follows_liftM (keeps_push _)).bind fun _ =>
      follows_liftM (looks_requireInts 1).keeps

theorem follows_findString :
    Follows State.Bounded findString Action.findString :=
  (follows_liftM (looks_require 2).keeps).bind fun _ =>
    (follows_plain keeps_popString).bind fun _ =>
    (follows_plain keeps_popString).bind fun _ => follows_inRange (occursIn?_eq _ _) <|
      follows_liftM (keeps_setCmp _)

theorem follows_readFile (config : Config) :
    Follows State.Bounded (readFile config) (Action.readFile config) :=
  (follows_liftM (looks_require 1).keeps).bind fun _ =>
    (follows_plain keeps_popString).bind fun _ =>
    (follows_plain (respects_ofExcept _)).bind fun _ => follows_get_bind fun _ _ =>
      (follows_plain (respects_ofExcept _)).bind fun _ => follows_inRange (cutAtZero?_eq _) <|
        follows_pushString _

end Follows

/-! ## Strings that fit -/

theorem heap_eq_of_liftM {access : Memory.Access α} {state after : State} {result : α}
    (ran : (liftM access : Action α) state = .ok result after) :
    after.heap = state.heap := by
  cases moved : access state.memory with
  | ok other memory =>
      rw [Action.onMemory_of_ok moved] at ran
      cases ran
      rfl
  | error fault memory =>
      rw [Action.onMemory_of_error moved] at ran
      cases ran

/-- A string taken from strings that fit is one of them, and those that are left fit too. -/
theorem fits_of_popString {state after : State} {string : Bytes} (fit : state.heap.StringsFit)
    (popped : Action.popString state = .ok string after) :
    string.length < tagBit.toNat ∧ after.heap.StringsFit := by
  rcases exists_of_bind_ok popped with ⟨cell, between, moved, taken⟩
  rw [← heap_eq_of_liftM moved] at fit
  cases value : cell.value with
  | int number =>
      rw [value] at taken
      cases taken
  | string id =>
      rw [value] at taken
      dsimp only [Action.takeString] at taken
      cases found : between.heap.take id with
      | error fault =>
          rw [found] at taken
          cases taken
      | ok result =>
          rcases result with ⟨other, heap⟩
          rw [found] at taken
          cases taken
          constructor
          · exact fit id _ (Heap.find?_eq_of_take found)
          · intro otherId otherString lives
            rw [Heap.find?_of_take found] at lives
            split at lives
            · cases lives
            · exact fit otherId otherString lives

theorem tracks_concat {state : State} (bounded : state.Bounded) (fit : state.heap.StringsFit) :
    Tracks State.Bounded (concat state) (Action.concat state) := by
  refine (follows_liftM (looks_require 2).keeps state bounded).bind fun _ required ran bounded => ?_
  rw [← heap_eq_of_liftM ran] at fit
  refine (follows_plain keeps_popString required bounded).bind fun first once ran bounded => ?_
  rcases fits_of_popString fit ran with ⟨firstFits, fit⟩
  refine (follows_plain keeps_popString once bounded).bind fun second twice ran bounded => ?_
  rcases fits_of_popString fit ran with ⟨secondFits, fit⟩
  refine follows_inRange (joined?_eq ?_) (follows_pushString _) twice bounded
  rw [Cell.toNat_tagBit] at firstFits secondFits
  simp only [UInt64.size]
  omega

/-! ## Steps -/

variable {config : Config} {state : State}

theorem tracks_execute (valid : config.Valid) (counted : config.maxLineLength < UInt64.size)
    (bounded : state.Bounded) (fit : state.heap.StringsFit) (opcode : Opcode) :
    Tracks State.Bounded (execute config opcode state) (opcode.execute config state) := by
  have lineLe := valid.line_le
  have plainly := follows_plain (boundedRule config opcode).execute state bounded
  cases opcode with
  | push => exact follows_onMemory follows_pushImmediate state bounded
  | div => exact follows_onMemory (follows_divide fun _ _ nonzero => if_neg nonzero) state bounded
  | mod => exact follows_onMemory (follows_divide fun _ _ nonzero => if_neg nonzero) state bounded
  | itostr => exact follows_intToString state bounded
  | jmp => exact follows_onMemory (follows_jump true) state bounded
  | jnz => exact follows_get_bind (fun _ _ => follows_onMemory (follows_jump _)) state bounded
  | jz => exact follows_get_bind (fun _ _ => follows_onMemory (follows_jump _)) state bounded
  | shl => exact follows_onMemory (follows_unary fun _ => rfl) state bounded
  | shr => exact follows_onMemory (follows_unary fun _ => rfl) state bounded
  | cpy => exact follows_copyTop state bounded
  | pushs => exact follows_pushLiteral state bounded
  | reads => exact follows_pushLine (by omega) counted state bounded
  | strcat => exact tracks_concat bounded fit
  | strtoi => exact follows_stringToInt state bounded
  | instr => exact follows_findString state bounded
  | readfile => exact follows_readFile config state bounded
  | _ => exact plainly

/-- No operation of a step is out of range, whatever the registers hold. -/
theorem tracks_step (valid : config.Valid) (counted : config.maxLineLength < UInt64.size)
    (bounded : state.Bounded) (fit : state.heap.StringsFit) :
    Tracks State.Bounded (step config state) (State.step config state) := by
  unfold step State.step
  rw [get_bind, get_bind]
  refine (follows_onMemory (follows_programByte _) state bounded).bind
    fun byte fetched ran bounded => ?_
  have fetchedHeap := heap_eq_of_liftM ran
  refine (follows_liftM (keeps_setIp _) fetched bounded).bind fun _ moved ran bounded => ?_
  have movedHeap := heap_eq_of_liftM ran
  rw [← fetchedHeap, ← movedHeap] at fit
  exact tracks_execute valid counted bounded fit (Opcode.running byte)

end Checked

end TagMachine
