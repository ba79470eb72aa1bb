import TagMachine.Machine.Execute
import TagMachine.Proofs.Carries
import TagMachine.Proofs.Operations
import TagMachine.Proofs.Sequencing

/-!
# Instructions by stages

An instruction asks for its cells and for room before it does anything else, then takes cells off
the stack, and in the end puts a result there, sets a flag or prints.  A property of what is left of
an instruction at each of these stages, with a rule for every step from one to the next, is one of
all instructions from their start.  What the instructions are is looked at here alone, and each use
of it only gives the rules.
-/

namespace TagMachine

/-! ## What an instruction asks for -/

/-- The fault says that cells are missing, or that there is no room for one. -/
def Fault.IsArity : Fault → Prop
  | .stackUnderflow _ _ => True
  | .stackFull => True
  | _ => False

namespace Opcode

/-- The number of live cells that an instruction asks for. -/
def requiredCells (config : Config) : Opcode → UInt64
  | nop | push | read | jmp | jnz | jz | pushs | reads | halt => 0
  | pop | itostr | inc | dec | shl | shr | cpy | pops | strlen | strtoi | readfile => 1
  | add | sub | mul | div | mod | lt | gt | eq | strcat | strcmp | instr | writefile => 2
  | swap => config.swapCheck.requiredCells

/-- The instruction asks for room for a cell. -/
def needsRoom : Opcode → Bool
  | push | read | cpy | pushs | reads => true
  | _ => false

/-- The flag that an instruction may change, by its place. -/
def flag? : Opcode → Option Nat
  | .lt | .gt | .eq | .strcmp | .instr => some 1
  | .halt => some 0
  | _ => none

/-- Whether a jump is taken, by the flag `cmp`. -/
def jump? : Opcode → Option (Bool → Bool)
  | jmp => some fun _ => true
  | jnz => some fun cmp => cmp
  | jz => some fun cmp => !cmp
  | _ => none

theorem operandKind_ne_none_of_jump? {opcode : Opcode} {taken : Bool → Bool}
    (jumps : opcode.jump? = some taken) :
    opcode.operandKind ≠ .none := by
  cases opcode with
  | jmp | jnz | jz => decide
  | _ => cases jumps

end Opcode

/-! ## Parts of instructions -/

namespace Action

/-- Reads eight bytes of input as a number. -/
def inputWord : Action UInt64 :=
  tryCatch (onInput Input.readWord) fun
    | .io .unexpectedEnd => throw (.malformed .shortRead)
    | fault => throw fault

/-- Reads the literal that follows in the program, with its length, and goes on to where it
starts. -/
def literal : Action (Bytes × UInt8) := do
  let length ← Memory.programByte (← get).memory.ip
  advance 1
  let memory := (← get).memory
  let start := memory.ip
  if memory.programLength.toNat < start.toNat + length.toNat then
    throw (.malformed .literalPastEnd)
  let bytes ← Memory.programBytes length.toNat start
  return (bytes, length)

def contentOf (config : Config) (name : FileName) : Action Bytes := do
  ofExcept ((Sandbox.read config name (← get).files).mapError .io)

variable {α β : Type}

theorem liftM_failIf {condition : Prop} [Decidable condition] (fault : Fault)
    (rest : Memory.Access α) :
    (liftM (if condition then do throw fault; rest else rest : Memory.Access α) : Action α) =
      if condition then do throw fault; liftM rest else liftM rest := by
  split
  · rfl
  · rfl

theorem failIf_bind {condition : Prop} [Decidable condition] (fault : Fault) (rest : Action α)
    (later : α → Action β) :
    (if condition then do throw fault; rest else rest) >>= later =
      if condition then do throw fault; rest >>= later else rest >>= later := by
  split
  · rfl
  · rfl

theorem readInt_eq :
    readInt = (do
      Stack.requireFree
      let word ← inputWord
      Stack.push (Cell.ofInt word)) := rfl

theorem pushLiteral_eq :
    pushLiteral = (do
      Stack.requireFree
      let (bytes, length) ← literal
      pushString bytes.untilZero
      advance length.toUInt64) := by
  simp only [pushLiteral, literal, bind_assoc, failIf_bind, pure_bind]

theorem readFile_eq (config : Config) :
    readFile config = (do
      Stack.require 1
      let rawName ← popString
      let name ← ofExcept (Sandbox.fileName config rawName)
      let content ← contentOf config name
      pushString content.untilZero) := by
  simp only [readFile, contentOf, bind_assoc]

/-! ### The world -/

/-- The computation sees and changes nothing but the world, and does not find cells missing. -/
def OnWorld (action : Action α) : Prop :=
  ∀ world,
    (∃ result after, ∀ memory heap,
      action ⟨world, memory, heap⟩ = .ok result ⟨after, memory, heap⟩) ∨
    ∃ fault after, ¬fault.IsArity ∧ ∀ memory heap,
      action ⟨world, memory, heap⟩ = .error fault ⟨after, memory, heap⟩

theorem onWorld_onInput (reading : EStateM IoError Input α) :
    OnWorld (onInput reading) := by
  rintro ⟨input, output, files⟩
  cases ran : reading input with
  | ok result after =>
      exact .inl ⟨result, ⟨after, output, files⟩, fun _ _ => by simp only [onInput, ran]⟩
  | error cause after =>
      exact .inr ⟨.io cause, ⟨after, output, files⟩, id, fun _ _ => by simp only [onInput, ran]⟩

theorem onWorld_onOutput (writing : EStateM IoError Output α) :
    OnWorld (onOutput writing) := by
  rintro ⟨input, output, files⟩
  cases ran : writing output with
  | ok result after =>
      exact .inl ⟨result, ⟨input, after, files⟩, fun _ _ => by simp only [onOutput, ran]⟩
  | error cause after =>
      exact .inr ⟨.io cause, ⟨input, after, files⟩, id, fun _ _ => by simp only [onOutput, ran]⟩

theorem onWorld_onFiles (access : EStateM IoError FileSystem α) :
    OnWorld (onFiles access) := by
  rintro ⟨input, output, files⟩
  cases ran : access files with
  | ok result after =>
      exact .inl ⟨result, ⟨input, output, after⟩, fun _ _ => by simp only [onFiles, ran]⟩
  | error cause after =>
      exact .inr ⟨.io cause, ⟨input, output, after⟩, id, fun _ _ => by simp only [onFiles, ran]⟩

theorem onWorld_print (line : Bytes) : OnWorld (print line) :=
  onWorld_onOutput _

/-- Failures may be turned into others. -/
theorem OnWorld.tryCatch {action : Action α} (onWorld : OnWorld action)
    {recover : Fault → Action α}
    (rethrows : ∀ fault, ¬fault.IsArity → ∃ other : Fault, ¬other.IsArity ∧
      recover fault = throw other) :
    OnWorld (tryCatch action recover) := by
  intro world
  rcases onWorld world with ⟨result, after, ran⟩ | ⟨fault, after, notArity, failed⟩
  · exact .inl ⟨result, after, fun memory heap => tryCatch_of_ok (ran memory heap)⟩
  · rcases rethrows fault notArity with ⟨other, otherNotArity, rethrown⟩
    refine .inr ⟨other, after, otherNotArity, fun memory heap => ?_⟩
    rw [tryCatch_of_error (failed memory heap), rethrown]
    rfl

theorem onWorld_inputWord : OnWorld inputWord := by
  refine (onWorld_onInput _).tryCatch fun fault notArity => ?_
  split
  · exact ⟨_, id, rfl⟩
  · exact ⟨_, notArity, rfl⟩

theorem onWorld_contentOf (config : Config) (name : FileName) :
    OnWorld (contentOf config name) := by
  intro world
  cases read : Sandbox.read config name world.files with
  | ok content =>
      refine .inl ⟨content, world, fun memory heap => ?_⟩
      rw [contentOf, get_bind, read]
      rfl
  | error cause =>
      refine .inr ⟨.io cause, world, id, fun memory heap => ?_⟩
      rw [contentOf, get_bind, read]
      rfl

/-- A relation of states with the same world, whatever it is, is kept. -/
theorem OnWorld.carries {action : Action α} (onWorld : OnWorld action)
    {related : State → State → Prop} {before : State → Prop}
    (same : ∀ left right, related left right → left.toWorld = right.toWorld)
    (kept : ∀ left right world, related left right →
      related { left with toWorld := world } { right with toWorld := world })
    (still : ∀ state world, before state → before { state with toWorld := world }) :
    Carries related before action fun _ => before := by
  rintro ⟨world, leftMemory, leftHeap⟩ ⟨rightWorld, rightMemory, rightHeap⟩ now known
  obtain rfl : world = rightWorld := same _ _ now
  rcases onWorld world with ⟨result, after, ran⟩ | ⟨fault, after, -, failed⟩
  · rw [ran, ran]
    exact .ok (kept _ _ after now) (still _ after known)
  · rw [failed, failed]
    exact .error (kept _ _ after now)

end Action

/-! ## Stages -/

/-- How far an instruction has come: so many cells are known to be live, so many have been popped,
there is known to be room for one more, and nothing at all has been changed. -/
structure Stage where
  live : Nat
  popped : Nat
  room : Bool
  untouched : Bool

namespace Stage

/-- So many cells have been asked for. -/
def asked (count : Nat) : Stage :=
  ⟨count, 0, false, true⟩

def free (stage : Stage) : Stage :=
  { stage with room := true }

def touched (stage : Stage) : Stage :=
  { stage with untouched := false }

/-- A cell that is popped leaves room for another. -/
def lowered (stage : Stage) (count : Nat) : Stage :=
  ⟨stage.live - count, stage.popped + count, true, false⟩

end Stage

/-- A property of what is left of an instruction at a stage, and one of what is left when its result
is on the stack, with a rule for every step: what begins with the step has the property if what goes
on after it does.  The strings that come out of the heap are known to be `held`. -/
structure StageRule (config : Config) (opcode : Opcode) where
  held : Bytes → Prop
  holds : Stage → Action Unit → Prop
  ends : Action Unit → Prop
  stop (stage : Stage) : holds stage (pure ())
  fail (stage : Stage) {fault : Fault} : ¬fault.IsArity → holds stage (throw fault)
  require {count : UInt64} {rest : Action Unit} :
    count = opcode.requiredCells config → holds (.asked count.toNat) rest →
    holds (.asked 0) (do Stack.require count; rest)
  requireInts {count : UInt64} {rest : Action Unit} :
    count = opcode.requiredCells config → holds (.asked count.toNat) rest →
    holds (.asked 0) (do Stack.requireInts count; rest)
  requireFree {stage : Stage} {rest : Action Unit} :
    stage.untouched = true → opcode.needsRoom = true → holds stage.free rest →
    holds stage (do Stack.requireFree; rest)
  peek {stage : Stage} {depth : UInt64} {rest : Cell → Action Unit} :
    depth.toNat < stage.live → (∀ cell, holds stage (rest cell)) →
    holds stage (do let cell ← Stack.peek depth; rest cell)
  drop {stage : Stage} {count : UInt64} {rest : Action Unit} :
    0 < count.toNat → count.toNat ≤ stage.live → holds (stage.lowered count.toNat) rest →
    holds stage (do Stack.drop count; rest)
  pop {stage : Stage} {rest : Cell → Action Unit} :
    0 < stage.live → (∀ cell, holds (stage.lowered 1) (rest cell)) →
    holds stage (do let cell ← Stack.pop; rest cell)
  popString {stage : Stage} {rest : Bytes → Action Unit} :
    0 < stage.live → stage.popped < 2 →
    (∀ string, held string → holds (stage.lowered 1) (rest string)) →
    holds stage (do let string ← Action.popString; rest string)
  lookUpString {stage : Stage} (id : UInt64) {rest : Bytes → Action Unit} :
    (∀ string, held string → holds stage (rest string)) →
    holds stage (do let string ← Action.lookUpString id; rest string)
  replaceTop {stage : Stage} (cell : Cell) :
    0 < stage.live → stage.popped < 2 →
    holds stage (do Stack.poke 0 cell; Stack.requireInts 1)
  push {stage : Stage} (cell : Cell) {rest : Action Unit} :
    stage.room = true → stage.popped ≤ 2 → ends rest →
    holds stage (do Stack.push cell; rest)
  pushResult {stage : Stage} (cell : Cell) :
    stage.room = true → 0 < stage.popped → stage.popped ≤ 2 →
    holds stage (do Stack.push cell; Stack.requireInts 1)
  pushString {stage : Stage} {string : Bytes} {rest : Action Unit} :
    stage.room = true → stage.popped ≤ 2 →
    ((∀ other, held other → (0 : UInt8) ∉ other) → (0 : UInt8) ∉ string) → ends rest →
    holds stage (do Action.pushString string; rest)
  setCmp (stage : Stage) (on : Bool) :
    opcode.flag? = some 1 →
    holds stage (liftM (modify (·.setCmp on) : Memory.Access Unit))
  setHalt (stage : Stage) :
    opcode.flag? = some 0 →
    holds stage (liftM (modify (·.setHalt true) : Memory.Access Unit))
  readLine {stage : Stage} (limit : Nat) {rest : Bytes → Action Unit} :
    (∀ line, holds stage.touched (rest line)) →
    holds stage (do let line ← Action.onInput (Input.readLine limit); rest line)
  readWord {stage : Stage} {rest : UInt64 → Action Unit} :
    (∀ word, holds stage.touched (rest word)) →
    holds stage (do let word ← Action.inputWord; rest word)
  writeFile {stage : Stage} {name : FileName} {content : Bytes} {rest : Nat → Action Unit} :
    name.bytes.length ≤ config.maxFileNameLength → held content →
    (∀ count, holds stage.touched (rest count)) →
    holds stage (do let count ← Action.onFiles (Sandbox.write config name content); rest count)
  readFile {stage : Stage} {name : FileName} {rest : Bytes → Action Unit} :
    name.bytes.length ≤ config.maxFileNameLength →
    (∀ content, holds stage.touched (rest content)) →
    holds stage (do let content ← Action.contentOf config name; rest content)
  print (stage : Stage) {line : Bytes} :
    ((∀ other, held other → (0 : UInt8) ∉ other) → (0 : UInt8) ∉ line) →
    holds stage (Action.print line)
  exchange :
    opcode = .swap → holds (.asked 0) (liftM (Action.exchange config.swapCheck.requiredCells))
  jump (taken : Bool → Bool) :
    opcode.jump? = some taken →
    holds (.asked 0) (do Action.jump (taken (← get).memory.cmp))
  immediate {rest : UInt64 → Action Unit} :
    opcode = .push → (∀ word, holds (Stage.asked 0).free (rest word)) →
    holds (Stage.asked 0).free (do
      let word ← (do Memory.programWord (← get).ip : Memory.Access UInt64)
      rest word)
  literal {rest : Bytes × UInt8 → Action Unit} :
    opcode = .pushs → (∀ read, holds (Stage.asked 0).free.touched (rest read)) →
    holds (Stage.asked 0).free (do let read ← Action.literal; rest read)
  done : ends (pure ())
  advance (count : UInt64) :
    opcode.operandKind ≠ .none → ends (liftM (Action.advance count))

namespace StageRule

variable {config : Config} {opcode : Opcode} (rule : StageRule config opcode) {stage : Stage}

/-! ## Steps -/

theorem failIf {condition : Prop} [Decidable condition] {fault : Fault} {rest : Action Unit}
    (other : ¬fault.IsArity) (later : rule.holds stage rest) :
    rule.holds stage (if condition then do throw fault; rest else rest) := by
  split
  · exact rule.fail stage other
  · exact later

theorem ofExcept {α : Type} {computed : Except Fault α} {rest : α → Action Unit}
    (other : ∀ fault, computed = .error fault → ¬fault.IsArity)
    (later : ∀ result, computed = .ok result → rule.holds stage (rest result)) :
    rule.holds stage (Action.ofExcept computed >>= rest) := by
  cases computed with
  | ok result => exact later result rfl
  | error fault => exact rule.fail stage (other fault rfl)

theorem fileName {bytes : Bytes} {rest : FileName → Action Unit}
    (later : ∀ name : FileName, name.bytes.length ≤ config.maxFileNameLength →
      rule.holds stage (rest name)) :
    rule.holds stage (Action.ofExcept (Sandbox.fileName config bytes) >>= rest) := by
  refine rule.ofExcept (fun fault refused => ?_) fun name accepted => later name ?_
  · unfold Sandbox.fileName at refused
    split at refused
    · cases refused
    · cases refused
      exact id
  · unfold Sandbox.fileName FileName.ofBytes? at accepted
    by_cases alphanumeric : bytes.all isAlphanumeric = true
    · by_cases short : bytes.length ≤ config.maxFileNameLength
      · simp only [alphanumeric, short, if_true, dite_true, Except.ok.injEq] at accepted
        rw [← accepted]
        exact short
      · simp [alphanumeric, short] at accepted
    · simp [alphanumeric] at accepted

/-- The last of a sequence is one that nothing follows. -/
theorem of_bind_pure {last : Action Unit} (holds : rule.holds stage (last >>= fun _ => pure ())) :
    rule.holds stage last := by
  have alone : (last >>= fun _ => pure ()) = last := bind_pure_unit
  rwa [alone] at holds

theorem pushLast (cell : Cell) (room : stage.room = true) (few : stage.popped ≤ 2) :
    rule.holds stage (liftM (Stack.push cell)) :=
  rule.of_bind_pure (rule.push cell room few rule.done)

theorem pushStringLast {string : Bytes} (room : stage.room = true) (few : stage.popped ≤ 2)
    (zeroFree : (∀ other, rule.held other → (0 : UInt8) ∉ other) → (0 : UInt8) ∉ string) :
    rule.holds stage (Action.pushString string) :=
  rule.of_bind_pure (rule.pushString room few zeroFree rule.done)

theorem popOne {rest : Bytes → Action Unit} (one : 1 = opcode.requiredCells config)
    (later : ∀ string, rule.held string → rule.holds ⟨0, 1, true, false⟩ (rest string)) :
    rule.holds (.asked 0) (do
      Stack.require 1
      let string ← Action.popString
      rest string) :=
  rule.require one (rule.popString (by decide) (by decide) later)

theorem popTwo {rest : Bytes → Bytes → Action Unit} (two : 2 = opcode.requiredCells config)
    (later : ∀ first second, rule.held first → rule.held second →
      rule.holds ⟨0, 2, true, false⟩ (rest first second)) :
    rule.holds (.asked 0) (do
      Stack.require 2
      let first ← Action.popString
      let second ← Action.popString
      rest first second) :=
  rule.require two (rule.popString (by decide) (by decide) fun first firstHeld =>
    rule.popString (by decide) (by decide) fun second => later first second firstHeld)

/-! ## Instructions -/

theorem pushImmediate (isPush : opcode = .push) :
    rule.holds (.asked 0) (liftM Action.pushImmediate) := by
  have parts : (liftM Action.pushImmediate : Action Unit) = (do
      Stack.requireFree
      let word ← (do Memory.programWord (← get).ip : Memory.Access UInt64)
      Stack.push (Cell.ofInt word)
      Action.advance 8) := by
    simp only [Action.pushImmediate, Action.liftM_bind, bind_assoc]
  rw [parts]
  refine rule.requireFree rfl (by rw [isPush]; rfl) ?_
  exact rule.immediate isPush fun word => rule.push _ rfl (by decide) <|
    rule.advance 8 (by rw [isPush]; decide)

theorem binary (two : 2 = opcode.requiredCells config) (operation : UInt64 → UInt64 → UInt64) :
    rule.holds (.asked 0) (liftM (Action.binary operation)) := by
  simp only [Action.binary, Action.liftM_bind]
  refine rule.requireInts two <| rule.peek (by decide) fun top =>
    rule.peek (by decide) fun second => rule.drop (by decide) (by decide) ?_
  exact rule.replaceTop _ (by decide) (by decide)

theorem divide (two : 2 = opcode.requiredCells config) (operation : UInt64 → UInt64 → UInt64) :
    rule.holds (.asked 0) (liftM (Action.divide operation)) := by
  simp only [Action.divide, Action.liftM_bind, Action.liftM_failIf]
  refine rule.requireInts two <| rule.peek (by decide) fun top =>
    rule.peek (by decide) fun second => rule.drop (by decide) (by decide) <| rule.failIf id ?_
  exact rule.replaceTop _ (by decide) (by decide)

theorem unary (one : 1 = opcode.requiredCells config) (operation : UInt64 → UInt64) :
    rule.holds (.asked 0) (liftM (Action.unary operation)) := by
  simp only [Action.unary, Action.liftM_bind]
  exact rule.requireInts one <| rule.peek (by decide) fun cell =>
    rule.replaceTop _ (by decide) (by decide)

theorem compare (two : 2 = opcode.requiredCells config) (flagged : opcode.flag? = some 1)
    (relation : UInt64 → UInt64 → Bool) :
    rule.holds (.asked 0) (liftM (Action.compare relation)) := by
  simp only [Action.compare, Action.liftM_bind]
  exact rule.requireInts two <| rule.peek (by decide) fun top =>
    rule.peek (by decide) fun second => rule.drop (by decide) (by decide) <| rule.setCmp _ _ flagged

theorem printInt (one : 1 = opcode.requiredCells config) :
    rule.holds (.asked 0) Action.printInt :=
  rule.requireInts one <| rule.pop (by decide) fun cell =>
    rule.print _ fun _ => Numeral.zero_not_mem_hex _

theorem readInt (room : opcode.needsRoom = true) :
    rule.holds (.asked 0) Action.readInt := by
  rw [Action.readInt_eq]
  exact rule.requireFree rfl room <| rule.readWord fun word => rule.pushLast _ rfl (by decide)

theorem intToString (one : 1 = opcode.requiredCells config) :
    rule.holds (.asked 0) Action.intToString :=
  rule.requireInts one <| rule.pop (by decide) fun cell => rule.failIf id <|
    rule.pushStringLast rfl (by decide) fun _ => Numeral.zero_not_mem_decimal _

theorem copyTop (one : 1 = opcode.requiredCells config) (room : opcode.needsRoom = true) :
    rule.holds (.asked 0) Action.copyTop := by
  refine rule.require one <| rule.requireFree rfl room <| rule.peek (by decide) fun cell => ?_
  split
  · exact rule.lookUpString _ fun string known =>
      rule.pushStringLast rfl (by decide) fun zeroFree => zeroFree string known
  · exact rule.pushLast cell rfl (by decide)

theorem pushLiteral (isPushs : opcode = .pushs) :
    rule.holds (.asked 0) Action.pushLiteral := by
  rw [Action.pushLiteral_eq]
  refine rule.requireFree rfl (by rw [isPushs]; rfl) <| rule.literal isPushs fun read => ?_
  exact rule.pushString rfl (by decide) (fun _ => read.1.zero_not_mem_untilZero) <|
    rule.advance _ (by rw [isPushs]; decide)

theorem pushLine (room : opcode.needsRoom = true) (maxLineLength : Nat) :
    rule.holds (.asked 0) (Action.pushLine maxLineLength) :=
  rule.requireFree rfl room <| rule.readLine _ fun line => rule.failIf id <|
    rule.pushStringLast rfl (by decide) fun _ =>
      Action.zero_not_mem_withoutNewline line.zero_not_mem_untilZero

theorem concat (two : 2 = opcode.requiredCells config) :
    rule.holds (.asked 0) Action.concat := by
  refine rule.popTwo two fun first second firstHeld secondHeld =>
    rule.pushStringLast rfl (by decide) fun zeroFree => ?_
  rw [List.mem_append, not_or]
  exact ⟨zeroFree first firstHeld, zeroFree second secondHeld⟩

theorem stringToInt (one : 1 = opcode.requiredCells config) :
    rule.holds (.asked 0) Action.stringToInt :=
  rule.popOne one fun string _ => rule.pushResult _ rfl (by decide) (by decide)

theorem writeFileNamed (two : 2 = opcode.requiredCells config) :
    rule.holds (.asked 0) (Action.writeFile config) :=
  rule.popTwo two fun rawName content _ contentHeld => rule.fileName fun name short =>
    rule.writeFile short contentHeld fun _ => rule.print _ fun _ => by decide

theorem readFileNamed (one : 1 = opcode.requiredCells config) :
    rule.holds (.asked 0) (Action.readFile config) := by
  rw [Action.readFile_eq]
  exact rule.popOne one fun rawName _ => rule.fileName fun name short =>
    rule.readFile short fun content =>
      rule.pushStringLast rfl (by decide) fun _ => content.zero_not_mem_untilZero

theorem execute (rule : StageRule config opcode) :
    rule.holds (.asked 0) (opcode.execute config) := by
  cases opcode with
  | nop => exact rule.stop _
  | push => exact rule.pushImmediate rfl
  | pop => exact rule.printInt rfl
  | read => exact rule.readInt rfl
  | add => exact rule.binary rfl (· + ·)
  | sub => exact rule.binary rfl (· - ·)
  | mul => exact rule.binary rfl (· * ·)
  | div => exact rule.divide rfl (· / ·)
  | mod => exact rule.divide rfl (· % ·)
  | itostr => exact rule.intToString rfl
  | jmp => exact rule.jump (fun _ => true) rfl
  | lt => exact rule.compare rfl rfl (· < ·)
  | gt => exact rule.compare rfl rfl (· > ·)
  | eq => exact rule.compare rfl rfl (· == ·)
  | jnz => exact rule.jump (fun cmp => cmp) rfl
  | jz => exact rule.jump (fun cmp => !cmp) rfl
  | inc => exact rule.unary rfl (· + 1)
  | dec => exact rule.unary rfl (· - 1)
  | shl => exact rule.unary rfl (· <<< 1)
  | shr => exact rule.unary rfl (· >>> 1)
  | cpy => exact rule.copyTop rfl rfl
  | swap => exact rule.exchange rfl
  | pushs => exact rule.pushLiteral rfl
  | pops =>
      exact rule.popOne rfl fun string known =>
        rule.print _ fun zeroFree => zeroFree string known
  | reads => exact rule.pushLine rfl config.maxLineLength
  | strcat => exact rule.concat rfl
  | strlen => exact rule.popOne rfl fun string _ => rule.pushLast _ rfl (by decide)
  | strtoi => exact rule.stringToInt rfl
  | strcmp => exact rule.popTwo rfl fun first second _ _ => rule.setCmp _ _ rfl
  | instr => exact rule.popTwo rfl fun hay needle _ _ => rule.setCmp _ _ rfl
  | writefile => exact rule.writeFileNamed rfl
  | readfile => exact rule.readFileNamed rfl
  | halt => exact rule.setHalt _ rfl

end StageRule

end TagMachine
