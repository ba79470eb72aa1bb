import TagMachine.Proofs.Components
import TagMachine.Proofs.Footprint.Memory
import TagMachine.Proofs.Ownership
import TagMachine.Proofs.Stages

/-!
# What an instruction changes

Beside its footprint in memory an instruction may take the strings out of the heap that the two top
cells name, and put one string in under the next id.  It does so whether it succeeds or fails.
-/

namespace TagMachine

/-- All that an instruction has changed in the heap `start`, from which it may take the strings with
the given ids. -/
structure Heap.Footprint (named : UInt64 → Prop) (start heap : Heap) : Prop where
  sound : heap.Sound
  nextId_le : start.nextId.toNat ≤ heap.nextId.toNat
  others : ∀ id, id ≠ start.nextId →
    heap.find? id = start.find? id ∨ named id ∧ heap.find? id = none

namespace Heap.Footprint

variable {named : UInt64 → Prop} {start heap next : Heap} {id : UInt64} {string : Bytes}

theorem refl (sound : start.Sound) : Heap.Footprint named start start :=
  ⟨sound, Nat.le_refl _, fun _ _ => Or.inl rfl⟩

theorem take (footprint : Heap.Footprint named start heap) (allowed : named id)
    (taken : heap.take id = .ok (string, next)) :
    Heap.Footprint named start next ∧ next.nextId = heap.nextId := by
  rcases footprint.sound.take (find?_eq_of_take taken) with ⟨_, taking, sound, -, nextId, -⟩
  rw [taken] at taking
  obtain ⟨-, rfl⟩ := Prod.mk.inj (Except.ok.inj taking)
  refine ⟨⟨sound, nextId ▸ footprint.nextId_le, fun other old => ?_⟩, nextId⟩
  rw [find?_of_take taken]
  by_cases same : other = id
  · rw [if_pos same]
    exact Or.inr ⟨same ▸ allowed, rfl⟩
  · rw [if_neg same]
    exact footprint.others other old

theorem alloc (footprint : Heap.Footprint named start heap) (first : heap.nextId = start.nextId)
    (allocated : heap.alloc string = .ok (id, next)) :
    Heap.Footprint named start next := by
  rcases footprint.sound.alloc allocated with ⟨sound, -, fresh, counted, -⟩
  refine ⟨sound, ?_, fun other old => ?_⟩
  · rw [counted, first]
    exact Nat.le_succ _
  · rw [find?_of_alloc allocated, if_neg (by rwa [fresh, first])]
    exact footprint.others other old

end Heap.Footprint

namespace State

/-- One of the two top cells names the string. -/
def Names (start : State) (id : UInt64) : Prop :=
  ∃ index, index < start.memory.sp.toNat ∧ start.memory.sp.toNat ≤ index + 2 ∧
    (⟨start.memory.wordAt (Layout.stackBase + index)⟩ : Cell).stringId? = some id

/-- All that an instruction has changed in the state `start`. -/
structure Footprint (straight : Prop) (flagged : Nat → Prop) (start state : State) : Prop where
  memory : Memory.Footprint straight flagged start.memory state.memory
  heap : Heap.Footprint start.Names start.heap state.heap

/-- The memory is as the fact has it, and no string has been put into the heap. -/
def Before (start : State) (fact : Memory → Prop) (state : State) : Prop :=
  fact state.memory ∧ state.heap.nextId = start.heap.nextId

end State

/-! ## Parts of instructions -/

namespace Action

open Memory (Looks Popped Lowered)

variable {straight : Prop} {flagged : Nat → Prop} {start : State} {fact : Memory → Prop}
  {count : Nat} {α β : Type}

/-- From states as `before` has them the computation leaves no footprint but what it may, also where
it fails. -/
abbrev Leaves (straight : Prop) (flagged : Nat → Prop) (start : State) (before : State → Prop)
    (action : Action α) (after : α → State → Prop) : Prop :=
  Carries (fun left right => left = right ∧ State.Footprint straight flagged start left)
    before action after

theorem leaves_liftM_heap (strings : Heap → Prop) {access : Memory.Access α}
    {after : α → Memory → Prop}
    (leaves : Memory.Leaves straight flagged start.memory fact access after) :
    Leaves straight flagged start (fun state => fact state.memory ∧ strings state.heap)
      (liftM access : Action α)
      fun result state => after result state.memory ∧ strings state.heap := by
  have sees : Component.memory.Sees
      (fun left right => left = right ∧ State.Footprint straight flagged start left)
      fun left right => left = right ∧ Memory.Footprint straight flagged start.memory left :=
    .ofKept (fun _ footprint => footprint.memory)
      fun _ _ footprint memory => ⟨memory, footprint.heap⟩
  rw [Component.on_memory]
  exact sees.carries_on leaves (fun _ known => known.1)
    fun _ _ _ known knownAfter => ⟨knownAfter, known.2⟩

theorem leaves_liftM {access : Memory.Access α} {after : α → Memory → Prop}
    (leaves : Memory.Leaves straight flagged start.memory fact access after) :
    Leaves straight flagged start (start.Before fact) (liftM access : Action α)
      fun result => start.Before (after result) :=
  leaves_liftM_heap (fun heap => heap.nextId = start.heap.nextId) leaves

theorem leaves_onWorld {action : Action α} (onWorld : OnWorld action) (fact : Memory → Prop) :
    Leaves straight flagged start (start.Before fact) action fun _ => start.Before fact := by
  refine onWorld.carries (fun _ _ same => congrArg State.toWorld same.1) ?_ fun _ _ known => known
  rintro state _ world ⟨rfl, footprint⟩
  exact ⟨rfl, footprint.memory, footprint.heap⟩

theorem leaves_lookUpString (id : UInt64) (before : State → Prop) :
    Leaves straight flagged start before (lookUpString id) fun _ => before := by
  rintro state _ ⟨rfl, footprint⟩ known
  unfold lookUpString
  cases state.heap.get id with
  | ok string => exact .ok ⟨rfl, footprint⟩ known
  | error fault => exact .error ⟨rfl, footprint⟩

theorem leaves_takeString {id : UInt64} (named : start.Names id) :
    Leaves straight flagged start (start.Before fact) (takeString id)
      fun _ => start.Before fact := by
  rintro state _ ⟨rfl, footprint⟩ ⟨known, ids⟩
  unfold takeString
  cases taken : state.heap.take id with
  | ok result =>
      rcases footprint.heap.take named taken with ⟨heap, nextId⟩
      exact .ok ⟨rfl, footprint.memory, heap⟩ ⟨known, nextId.trans ids⟩
  | error fault => exact .error ⟨rfl, footprint⟩

theorem leaves_allocString (string : Bytes) :
    Leaves straight flagged start (start.Before fact) (allocString string) fun _ state =>
      fact state.memory ∧ anything state.heap := by
  rintro state _ ⟨rfl, footprint⟩ ⟨known, ids⟩
  unfold allocString
  cases allocated : state.heap.alloc string with
  | ok result =>
      exact .ok ⟨rfl, footprint.memory, footprint.heap.alloc ids allocated⟩ ⟨known, trivial⟩
  | error fault => exact .error ⟨rfl, footprint⟩

/-- A fact that does not speak of the memory is at hand. -/
theorem leaves_learned {learned : Prop} {action : Action α} {after : α → State → Prop}
    (leaves : learned → Leaves straight flagged start (start.Before fact) action after) :
    Leaves straight flagged start (start.Before fun memory => fact memory ∧ learned) action after :=
  carries_of_fact (fun _ known => known.1.2) fun fact =>
    (leaves fact).mono fun _ known => ⟨known.1.1, known.2⟩

/-! ## Strings on the stack -/

theorem leaves_popString (tidy : start.memory.Tidy) (few : count < 2)
    (live : count + 1 ≤ start.memory.sp.toNat) :
    Leaves straight flagged start (start.Before (start.memory.Popped count)) popString fun _ =>
      start.Before (start.memory.Popped (count + 1)) := by
  refine (leaves_liftM (Stack.leaves_pop tidy live)).bind fun cell => leaves_learned fun word => ?_
  split
  · rename_i id value
    have named : start.Names id := by
      refine ⟨start.memory.sp.toNat - (count + 1), by omega, by omega, ?_⟩
      rw [← word]
      exact Heap.stringId?_of_string value
    exact leaves_takeString named
  · exact carries_throw _

theorem leaves_pushString (tidy : start.memory.Tidy) (few : count ≤ 2)
    (room : start.memory.sp.toNat < start.memory.layout.stackCells + count) (string : Bytes) :
    Leaves straight flagged start (start.Before (start.memory.Popped count)) (pushString string)
      fun _ => anything := by
  refine (leaves_allocString string).bind fun id => ?_
  have pushed : Memory.Leaves straight flagged start.memory (start.memory.Popped count)
      (Stack.push (Cell.ofString id)) fun _ => anything :=
    (Stack.leaves_push tidy few room _).mono fun _ known => known.sp
  exact (leaves_liftM_heap anything pushed).weaken fun _ _ _ => trivial

theorem leaves_pushCell (tidy : start.memory.Tidy) (few : count ≤ 2)
    (room : start.memory.sp.toNat < start.memory.layout.stackCells + count) (cell : Cell) :
    Leaves straight flagged start (start.Before (start.memory.Popped count))
      (liftM (Stack.push cell)) fun _ => start.Before anything :=
  leaves_liftM ((Stack.leaves_push tidy few room cell).mono fun _ known => known.sp)

theorem leaves_literal (moves : ¬straight) :
    Leaves straight flagged start (start.Before (start.memory.Popped 0)) literal fun _ =>
      start.Before (start.memory.Popped 0) := by
  refine carries_get_bind_same fun _ => (leaves_liftM ((Memory.looks_programByte _).leaves _)).bind
    fun length => (leaves_liftM (leaves_advance moves (fun _ ip popped => popped.setIp ip) 1)).bind
      fun _ => carries_get_bind_same fun _ => carries_failIf _ fun _ => ?_
  exact (leaves_liftM ((Memory.looks_programBytes _ _).leaves _)).bind fun _ =>
    carries_pure fun _ known => known

/-! ## Instructions -/

/-- What is done on memory last. -/
theorem leaves_onMemory {access : Memory.Access Unit}
    (leaves : Memory.Leaves straight flagged start.memory fact access fun _ => anything) :
    Leaves straight flagged start (start.Before fact) (liftM access) fun _ => anything :=
  (leaves_liftM leaves).weaken fun _ _ _ => trivial

end Action

/-- The cells that are known to be live, and the room, are those of the block `start`. -/
structure Stage.Fits (start : Memory) (stage : Stage) : Prop where
  live : stage.live + stage.popped ≤ start.sp.toNat
  room : stage.room = true → start.sp.toNat < start.layout.stackCells + stage.popped

theorem Stage.Fits.lowered {start : Memory} {stage : Stage} {count : Nat} (fits : stage.Fits start)
    (tidy : start.Tidy) (some : 0 < count) (enough : count ≤ stage.live) :
    (stage.lowered count).Fits start where
  live := by
    have live := fits.live
    simp only [Stage.lowered]
    omega
  room _ := tidy.room (Nat.lt_of_lt_of_le some (Nat.le_add_left _ _))

/-- No footprint is left but what the instruction may leave. -/
abbrev Opcode.Leaves {α : Type} (opcode : Opcode) :
    State → (State → Prop) → Action α → (α → State → Prop) → Prop :=
  Action.Leaves (opcode.operandKind = .none) fun place => opcode.flag? = some place

open TagMachine.Action in
/-- At every stage an instruction leaves no footprint but what it may. -/
def Opcode.footprintRule {config : Config} (hardened : config.swapCheck = .hardened) {start : State}
    (tidy : start.memory.Tidy) (opcode : Opcode) : StageRule config opcode where
  held _ := True
  holds stage rest := stage.Fits start.memory →
    opcode.Leaves start (start.Before (start.memory.Popped stage.popped)) rest fun _ => anything
  ends rest := opcode.Leaves start anything rest fun _ => anything
  stop _ _ := carries_pure fun _ _ => trivial
  fail _ _ _ _ := carries_throw _
  require _ later fits := (leaves_liftM (Stack.leaves_require _)).bind fun _ =>
    leaves_learned fun enough => later ⟨enough, fits.room⟩
  requireInts _ later fits := (leaves_liftM (Stack.leaves_requireInts _)).bind fun _ =>
    leaves_learned fun enough => later ⟨enough, fits.room⟩
  requireFree _ _ later fits := (leaves_liftM (Stack.leaves_requireFree tidy)).bind fun _ =>
    leaves_learned fun free => later ⟨fits.live, fun _ => free⟩
  peek _ later fits := (leaves_liftM ((Memory.looks_peek _).leaves _)).bind fun cell =>
    later cell fits
  drop some enough later fits :=
    (leaves_liftM (Stack.leaves_drop tidy (by have := fits.live; omega))).bind fun _ =>
      later (fits.lowered tidy some enough)
  pop live later fits :=
    (leaves_liftM (Stack.leaves_pop tidy (by have := fits.live; omega))).bind fun cell =>
      leaves_learned fun _ => later cell (fits.lowered tidy Nat.one_pos live)
  popString live few later fits :=
    (leaves_popString tidy few (by have := fits.live; omega)).bind fun string =>
      later string trivial (fits.lowered tidy Nat.one_pos live)
  lookUpString id _ later fits := (leaves_lookUpString id _).bind fun string =>
    later string trivial fits
  replaceTop cell live few fits := by
    rw [← liftM_bind]
    exact leaves_onMemory (leaves_replaceTop tidy few (by have := fits.live; omega) cell)
  push cell _ room few later fits :=
    (leaves_pushCell tidy few (fits.room room) cell).bind fun _ => later.mono fun _ _ => trivial
  pushResult cell room _ few fits := (leaves_pushCell tidy few (fits.room room) cell).bind fun _ =>
    leaves_onMemory (((Memory.looks_requireInts 1).leaves anything).weaken fun _ _ _ => trivial)
  pushString room few _ later fits :=
    (leaves_pushString tidy few (fits.room room) _).bind fun _ => later
  setCmp _ on flagged _ := leaves_onMemory (Memory.leaves_setCmp tidy flagged _ on)
  setHalt _ flagged _ := leaves_onMemory (Memory.leaves_setHalt tidy flagged _ true)
  readLine limit _ later fits := (leaves_onWorld (onWorld_onInput _) _).bind fun line =>
    later line ⟨fits.live, fits.room⟩
  readWord later fits := (leaves_onWorld onWorld_inputWord _).bind fun word =>
    later word ⟨fits.live, fits.room⟩
  writeFile _ _ later fits := (leaves_onWorld (onWorld_onFiles _) _).bind fun count =>
    later count ⟨fits.live, fits.room⟩
  readFile _ later fits := (leaves_onWorld (onWorld_contentOf config _) _).bind fun content =>
    later content ⟨fits.live, fits.room⟩
  print _ _ _ _ := (leaves_onWorld (onWorld_print _) _).weaken fun _ _ _ => trivial
  exchange _ _ := leaves_onMemory (leaves_exchange tidy (by rw [hardened]; decide))
  jump taken jumps _ := carries_get_bind_same fun _ =>
    leaves_onMemory ((leaves_jump (operandKind_ne_none_of_jump? jumps) _).mono fun _ _ => trivial)
  immediate _ later fits := by
    have looks : Memory.Looks (do Memory.programWord (← get).ip) :=
      Memory.looks_get_bind fun _ => Memory.looks_programWord _
    exact (leaves_liftM (looks.leaves _)).bind fun word => later word fits
  literal isPushs later fits := (leaves_literal (by rw [isPushs]; decide)).bind fun read =>
    later read ⟨fits.live, fits.room⟩
  done := carries_pure fun _ _ => trivial
  advance count moves := by
    have passes : Memory.Leaves (opcode.operandKind = .none)
        (fun place => opcode.flag? = some place) start.memory anything (advance count)
        fun _ => anything :=
      leaves_advance moves (fun _ _ _ => trivial) count
    exact ((leaves_liftM_heap anything passes).mono fun _ _ => ⟨trivial, trivial⟩).weaken
      fun _ _ _ => trivial

open TagMachine.Action in
/-- Every instruction leaves no footprint but what it may, however it ends. -/
theorem Opcode.leaves_execute {config : Config} (hardened : config.swapCheck = .hardened)
    {start : State} (tidy : start.memory.Tidy) (opcode : Opcode) :
    opcode.Leaves start (start.Before (start.memory.Popped 0)) (opcode.execute config)
      fun _ => anything := by
  have atStart : (Stage.asked 0).Fits start.memory := ⟨Nat.zero_le _, (nomatch ·)⟩
  exact (opcode.footprintRule hardened tidy).execute atStart

end TagMachine
