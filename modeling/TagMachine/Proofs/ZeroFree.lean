import Mathlib
import TagMachine.Proofs.Components
import TagMachine.Proofs.Memory.Loading
import TagMachine.Proofs.Runner
import TagMachine.Proofs.Stages

/-!
# No string has a zero byte

Every string that an instruction makes ends before the first zero byte of what it is made of, or is
made of strings that have none.  So no string in the heap ever has one, whatever the cells of the
stack are, nothing that is printed has one, and neither has anything that is written to a file but
nothing.
-/

namespace TagMachine

/-! ## Strings -/

namespace Heap

variable {heap next : Heap} {string : Bytes} {id : UInt64}

/-- No string of the heap has a zero byte. -/
def ZeroFree (heap : Heap) : Prop :=
  ∀ named ∈ heap.strings, (0 : UInt8) ∉ named.2

/-- The string is in the heap under some id. -/
def HasString (heap : Heap) (string : Bytes) : Prop :=
  ∃ id, heap.find? id = some string

theorem zeroFree_empty (maxLive : Nat) :
    (empty maxLive).ZeroFree := by
  simp [ZeroFree, empty]

theorem ZeroFree.of_hasString (free : heap.ZeroFree) (held : heap.HasString string) :
    (0 : UInt8) ∉ string := by
  rcases held with ⟨id, found⟩
  rw [find?, List.lookup_eq_some_iff] at found
  rcases found with ⟨before, after, split, _⟩
  exact free (id, string) (by simp [split])

theorem ZeroFree.alloc (free : heap.ZeroFree) (noZero : (0 : UInt8) ∉ string)
    (allocated : heap.alloc string = .ok (id, next)) :
    next.ZeroFree := by
  unfold Heap.alloc at allocated
  split at allocated
  · cases allocated
  · simp only [Except.ok.injEq, Prod.mk.injEq] at allocated
    rcases allocated with ⟨rfl, rfl⟩
    intro named member
    rcases List.mem_cons.mp member with rfl | earlier
    · exact noZero
    · exact free named earlier

theorem ZeroFree.take (free : heap.ZeroFree) (taken : heap.take id = .ok (string, next)) :
    next.ZeroFree := by
  unfold Heap.take at taken
  split at taken
  · simp only [Except.ok.injEq, Prod.mk.injEq] at taken
    rcases taken with ⟨_, rfl⟩
    intro named member
    exact free named (List.mem_filter.mp member).1
  · cases taken

theorem HasString.of_take {other : Bytes} (taken : heap.take id = .ok (string, next))
    (held : next.HasString other) :
    heap.HasString other := by
  rcases held with ⟨otherId, found⟩
  rw [find?_of_take taken] at found
  split at found
  · cases found
  · exact ⟨otherId, found⟩

theorem hasString_of_get (found : heap.get id = .ok string) :
    heap.HasString string := by
  unfold Heap.get at found
  split at found
  · rename_i lives
    cases found
    exact ⟨id, lives⟩
  · cases found

end Heap

/-! ## Output -/

namespace Output

variable {start output : Output}

/-- More has been written, and none of it is a zero byte. -/
def PrintedTo (start output : Output) : Prop :=
  ∃ printed, (0 : UInt8) ∉ printed ∧ output.written.toList = start.written.toList ++ printed

theorem printedTo_refl (output : Output) :
    output.PrintedTo output :=
  ⟨[], List.not_mem_nil, (List.append_nil _).symm⟩

theorem PrintedTo.trans {last : Output} (once : start.PrintedTo output)
    (again : output.PrintedTo last) :
    start.PrintedTo last := by
  rcases once with ⟨first, firstFree, wroteFirst⟩
  rcases again with ⟨second, secondFree, wroteSecond⟩
  refine ⟨first ++ second, ?_, ?_⟩
  · rw [List.mem_append, not_or]
    exact ⟨firstFree, secondFree⟩
  · rw [wroteSecond, wroteFirst, List.append_assoc]

theorem keeps_write {bytes : Bytes} (noZero : (0 : UInt8) ∉ bytes) :
    Keeps start.PrintedTo (write bytes) := by
  rintro ⟨written, room⟩ _ ⟨rfl, so⟩
  cases room with
  | none =>
      exact .ok ⟨rfl, so.trans ⟨bytes, noZero, Array.toList_appendList⟩⟩
  | some room =>
      simp only [write]
      split
      · exact .ok ⟨rfl, so.trans ⟨bytes, noZero, Array.toList_appendList⟩⟩
      · refine .error ⟨rfl, so.trans ⟨bytes.take room, ?_, Array.toList_appendList⟩⟩
        exact fun member => noZero (List.mem_of_mem_take member)

theorem keeps_printLine {line : Bytes} (noZero : (0 : UInt8) ∉ line) :
    Keeps start.PrintedTo (printLine line) :=
  (keeps_write noZero).bind fun _ => keeps_write (by decide)

end Output

/-! ## Files -/

namespace FileSystem

variable {held : Bytes → Prop} {start files last : FileSystem}

/-- Files have been emptied, or a beginning without a zero byte of a string that was held was
stored in them; nothing else has happened to the tree. -/
inductive Stored (held : Bytes → Prop) (start : FileSystem) : FileSystem → Prop
  | untouched : Stored held start start
  | emptied {files : FileSystem} (path : Path) :
      Stored held start files → Stored held start (files.put path (.file []))
  | filled {files : FileSystem} (path : Path) {string content : Bytes} :
      Stored held start files → held string → content <+: string → (0 : UInt8) ∉ content →
      Stored held start (files.put path (.file content))

theorem Stored.mono {other : Bytes → Prop} (stored : Stored held start files)
    (also : ∀ string, held string → other string) :
    Stored other start files := by
  induction stored with
  | untouched => exact .untouched
  | emptied path _ inductionHypothesis => exact .emptied path inductionHypothesis
  | filled path _ wasHeld isPrefix noZero inductionHypothesis =>
      exact .filled path inductionHypothesis (also _ wasHeld) isPrefix noZero

theorem Stored.trans (once : Stored held start files) (again : Stored held files last) :
    Stored held start last := by
  induction again with
  | untouched => exact once
  | emptied path _ inductionHypothesis => exact .emptied path inductionHypothesis
  | filled path _ wasHeld isPrefix noZero inductionHypothesis =>
      exact .filled path inductionHypothesis wasHeld isPrefix noZero

theorem keeps_write_empty (place : Place) :
    Keeps (Stored held start) (write place []) := by
  rintro files _ ⟨rfl, so⟩
  unfold write
  cases files.target place with
  | ok path => exact .ok ⟨rfl, .emptied path so⟩
  | error cause => exact .error ⟨rfl, so⟩

theorem keeps_write (place : Place) {string content : Bytes} (wasHeld : held string)
    (isPrefix : content <+: string) (noZero : (0 : UInt8) ∉ content) :
    Keeps (Stored held start) (write place content) := by
  rintro files _ ⟨rfl, so⟩
  unfold write
  cases files.target place with
  | ok path => exact .ok ⟨rfl, .filled path so wasHeld isPrefix noZero⟩
  | error cause => exact .error ⟨rfl, so⟩

end FileSystem

theorem Sandbox.keeps_write {held : Bytes → Prop} {start : FileSystem} (config : Config)
    (name : FileName) {content : Bytes} (wasHeld : held content) (noZero : (0 : UInt8) ∉ content) :
    Keeps (FileSystem.Stored held start) (Sandbox.write config name content) := by
  refine (FileSystem.keeps_write_empty _).bind fun _ => respects_failIf _ ?_
  refine (FileSystem.keeps_write _ wasHeld (List.take_prefix _ _) ?_).bind fun _ =>
    respects_pure _
  exact fun member => noZero (List.mem_of_mem_take member)

/-! ## Instructions -/

/-- What has come about since a state: no string has a zero byte, nor has anything that was printed,
and what was stored in files was held in the heap. -/
structure State.SoundSince (start state : State) : Prop where
  heap : state.heap.ZeroFree
  output : start.output.PrintedTo state.output
  files : start.files.Stored start.heap.HasString state.files

/-- The heap holds no more strings than at the start. -/
def State.NoNewStrings (start state : State) : Prop :=
  ∀ string, state.heap.HasString string → start.heap.HasString string

namespace Action

variable {start : State} {α : Type}

/-- The computation keeps what has come about, from states that hold no more strings. -/
abbrev Sound (start : State) (action : Action α) (after : α → State → Prop) : Prop :=
  Carries (fun left right => left = right ∧ start.SoundSince left) start.NoNewStrings action after

/-- An access to memory leaves what is known of the heap. -/
theorem carries_liftM_heap (fact : Heap → Prop) (access : Memory.Access α) :
    Carries (fun left right => left = right ∧ start.SoundSince left) (fun state => fact state.heap)
      (liftM access : Action α) fun _ state => fact state.heap := by
  have sees : Component.memory.Sees (fun left right => left = right ∧ start.SoundSince left)
      fun left right => left = right :=
    .ofPut fun _ _ since => ⟨since.heap, since.output, since.files⟩
  rw [Component.on_memory]
  exact sees.carries_on ((respects_eq access).carries anything) (fun _ _ => trivial)
    fun _ _ _ known _ => known

theorem keeps_liftM (access : Memory.Access α) :
    Keeps start.SoundSince (liftM access : Action α) :=
  (carries_liftM_heap anything access).respects

theorem sound_liftM (access : Memory.Access α) :
    Sound start (liftM access : Action α) fun _ => start.NoNewStrings :=
  carries_liftM_heap (fun heap => ∀ string, heap.HasString string → start.heap.HasString string)
    access

/-- So does an access to what is not the heap. -/
theorem sound_on {ε σ : Type} {component : Component ε σ} {access : EStateM ε σ α}
    (apart : ∀ state part, (component.put state part).heap = state.heap)
    (keeps : Keeps start.SoundSince (component.on access)) :
    Sound start (component.on access) fun _ => start.NoNewStrings := by
  rintro state _ ⟨rfl, since⟩ noMore
  have kept := keeps state state ⟨rfl, since⟩
  cases ran : access (component.get state) with
  | ok result after =>
      rw [Component.on_of_ok ran] at kept ⊢
      cases kept with
      | ok kept =>
          refine .ok kept ?_
          rw [State.NoNewStrings, apart]
          exact noMore
  | error failure after =>
      rw [Component.on_of_error ran] at kept ⊢
      cases kept with
      | error kept => exact .error kept

theorem sound_onInput (reading : EStateM IoError Input α) :
    Sound start (onInput reading) fun _ => start.NoNewStrings := by
  rw [Component.on_input]
  refine sound_on (fun _ _ => rfl) (Component.keeps_on_of_put ?_ reading)
  exact fun _ _ since => ⟨since.heap, since.output, since.files⟩

theorem sound_print {line : Bytes} (noZero : (0 : UInt8) ∉ line) :
    Sound start (print line) fun _ => start.NoNewStrings := by
  have sees : Component.output.Sees (fun left right => left = right ∧ start.SoundSince left)
      fun left right => left = right ∧ start.output.PrintedTo left :=
    .ofKept (fun _ since => since.output)
      fun _ _ since printed => ⟨since.heap, printed, since.files⟩
  rw [print, Component.on_output]
  exact sound_on (fun _ _ => rfl) (sees.respects_on (Output.keeps_printLine noZero))

theorem sound_onFiles {access : EStateM IoError FileSystem α}
    (keeps : Keeps (start.files.Stored start.heap.HasString) access) :
    Sound start (onFiles access) fun _ => start.NoNewStrings := by
  have sees : Component.files.Sees (fun left right => left = right ∧ start.SoundSince left)
      fun left right => left = right ∧ start.files.Stored start.heap.HasString left :=
    .ofKept (fun _ since => since.files) fun _ _ since stored => ⟨since.heap, since.output, stored⟩
  rw [Component.on_files]
  exact sound_on (fun _ _ => rfl) (sees.respects_on keeps)

theorem keeps_allocString {string : Bytes} (noZero : (0 : UInt8) ∉ string) :
    Keeps start.SoundSince (allocString string) := by
  rintro state _ ⟨rfl, since⟩
  unfold allocString
  cases allocated : state.heap.alloc string with
  | ok result =>
      exact .ok ⟨rfl, since.heap.alloc noZero allocated, since.output, since.files⟩
  | error fault => exact .error ⟨rfl, since⟩

theorem keeps_pushString {string : Bytes} (noZero : (0 : UInt8) ∉ string) :
    Keeps start.SoundSince (pushString string) :=
  (keeps_allocString noZero).bind fun _ => keeps_liftM _

/-- A string that the heap held at the start, without a zero byte. -/
def Held (start : State) (string : Bytes) : Prop :=
  (0 : UInt8) ∉ string ∧ start.heap.HasString string

/-- A string that is taken out of the heap was held. -/
theorem sound_takeString (id : UInt64) :
    Sound start (takeString id) fun string state =>
      start.NoNewStrings state ∧ Held start string := by
  rintro state _ ⟨rfl, since⟩ noMore
  unfold takeString
  cases taken : state.heap.take id with
  | ok result =>
      have held : state.heap.HasString result.1 := ⟨id, Heap.find?_eq_of_take taken⟩
      refine .ok ⟨rfl, since.heap.take taken, since.output, since.files⟩
        ⟨fun string still => ?_, since.heap.of_hasString held, noMore _ held⟩
      exact noMore string (still.of_take taken)
  | error fault => exact .error ⟨rfl, since⟩

/-- So was one that is looked up. -/
theorem sound_lookUpString (id : UInt64) :
    Sound start (lookUpString id) fun string state =>
      start.NoNewStrings state ∧ Held start string := by
  rintro state _ ⟨rfl, since⟩ noMore
  unfold lookUpString
  cases found : state.heap.get id with
  | ok string =>
      have held := Heap.hasString_of_get found
      exact .ok ⟨rfl, since⟩ ⟨noMore, since.heap.of_hasString held, noMore _ held⟩
  | error fault => exact .error ⟨rfl, since⟩

theorem sound_popString :
    Sound start popString fun string state => start.NoNewStrings state ∧ Held start string := by
  refine (sound_liftM _).bind fun cell => ?_
  split
  · exact sound_takeString _
  · exact carries_throw _

theorem sound_inputWord :
    Sound start inputWord fun _ => start.NoNewStrings := by
  refine (sound_onInput _).tryCatch fun fault => ?_
  split
  · exact carries_throw _
  · exact carries_throw _

theorem sound_contentOf (config : Config) (name : FileName) :
    Sound start (contentOf config name) fun _ => start.NoNewStrings := by
  refine carries_get_bind_same fun state => ?_
  cases (Sandbox.read config name state.files).mapError Fault.io with
  | ok content => exact carries_pure fun _ noMore => noMore
  | error fault => exact carries_throw _

theorem sound_literal :
    Sound start literal fun _ => start.NoNewStrings :=
  carries_get_bind_same fun _ => (sound_liftM _).bind fun _ => (sound_liftM _).bind fun _ =>
    carries_get_bind_same fun _ => carries_failIf _ fun _ => (sound_liftM _).bind fun _ =>
      carries_pure fun _ noMore => noMore

/-- Every string that is pushed or shown has no zero byte, since those that are popped have none. -/
def soundRule (config : Config) (opcode : Opcode) (start : State) : StageRule config opcode where
  held := Held start
  holds _ rest := Sound start rest fun _ => anything
  ends rest := Keeps start.SoundSince rest
  stop _ := carries_pure fun _ _ => trivial
  fail _ _ _ := carries_throw _
  require _ later := (sound_liftM _).bind fun _ => later
  requireInts _ later := (sound_liftM _).bind fun _ => later
  requireFree _ _ later := (sound_liftM _).bind fun _ => later
  peek _ later := (sound_liftM _).bind later
  drop _ _ later := (sound_liftM _).bind fun _ => later
  pop _ later := (sound_liftM _).bind later
  popString _ _ later := sound_popString.bind fun string => carries_learned (later string)
  lookUpString id _ later := (sound_lookUpString id).bind fun string =>
    carries_learned (later string)
  replaceTop _ _ _ := ((keeps_liftM _).bind fun _ => keeps_liftM _).carries _
  push _ _ _ _ later := ((keeps_liftM _).bind fun _ => later).carries _
  pushResult _ _ _ _ := ((keeps_liftM _).bind fun _ => keeps_liftM _).carries _
  pushString _ _ noZero later :=
    ((keeps_pushString (noZero fun _ known => known.1)).bind fun _ => later).carries _
  setCmp _ _ _ := (keeps_liftM _).carries _
  setHalt _ _ := (keeps_liftM _).carries _
  readLine _ _ later := (sound_onInput _).bind later
  readWord later := sound_inputWord.bind later
  writeFile _ known later :=
    (sound_onFiles (Sandbox.keeps_write config _ known.2 known.1)).bind later
  readFile _ later := (sound_contentOf config _).bind later
  print _ _ noZero := (sound_print (noZero fun _ known => known.1)).weaken fun _ _ _ => trivial
  exchange _ := (keeps_liftM _).carries _
  jump _ _ := (keeps_get_bind fun _ => keeps_liftM _).carries _
  immediate _ later := (sound_liftM _).bind later
  literal _ later := sound_literal.bind later
  done := respects_pure ()
  advance _ _ := keeps_liftM _

theorem sound_execute (config : Config) (opcode : Opcode) :
    Sound start (opcode.execute config) fun _ => anything :=
  (soundRule config opcode start).execute

end Action

/-! ## Runs -/

namespace State

variable {config : Config} {state : State}

theorem SoundSince.refl (free : state.heap.ZeroFree) :
    state.SoundSince state :=
  ⟨free, state.output.printedTo_refl, .untouched⟩

/-- One step from a state whose strings have no zero byte, however it ends. -/
theorem step_sound (config : Config) (free : state.heap.ZeroFree) :
    Carried (fun left right => left = right ∧ state.SoundSince left) (fun _ => anything)
      (step config state) (step config state) := by
  have stepped : Action.Sound state (step config) fun _ => anything := by
    refine carries_get_bind (fun _ _ same => by rw [same.1]) fun now => ?_
    refine ((Action.sound_liftM _).mono fun _ known => known.1).bind fun byte => ?_
    exact (Action.sound_liftM _).bind fun _ => Action.sound_execute config _
  exact stepped state state ⟨rfl, .refl free⟩ fun _ held => held

/-- A string was held by the heap at some moment of a run. -/
def HeldSince (config : Config) (start : State) (string : Bytes) : Prop :=
  ∃ count state, (runner config).after count start = some state ∧ state.heap.HasString string

/-- What has come about in a run up to a state. -/
structure SoundRun (config : Config) (start state : State) : Prop where
  heap : state.heap.ZeroFree
  output : start.output.PrintedTo state.output
  files : start.files.Stored (HeldSince config start) state.files

variable {start next : State} {count : Nat}

theorem SoundRun.trans (sound : SoundRun config start state)
    (reached : (runner config).after count start = some state) (since : state.SoundSince next) :
    SoundRun config start next where
  heap := since.heap
  output := sound.output.trans since.output
  files := sound.files.trans <| since.files.mono fun _ held => ⟨count, state, reached, held⟩

/-- By induction along the run: every step goes on from strings without a zero byte. -/
theorem soundRun_of_after (free : start.heap.ZeroFree)
    (reached : (runner config).after count start = some state) :
    SoundRun config start state := by
  have kept := Runner.after_induction
    (fun count state => (runner config).after count start = some state ∧
      SoundRun config start state)
    ⟨rfl, free, start.output.printedTo_refl, .untouched⟩
    (by
      rintro count state next ⟨earlier, sound⟩ goesOn stepped
      refine ⟨Runner.after_succ_eq_some_iff.mpr ⟨state, earlier, goesOn, stepped⟩, ?_⟩
      have now := step_sound config sound.heap
      change step config state = _ at stepped
      rw [stepped] at now
      cases now with
      | ok since _ => exact sound.trans earlier since.2)
    reached
  exact kept.2

theorem soundRun_runFrom (free : start.heap.ZeroFree) (limit : Nat) :
    SoundRun config start ((runner config).runFrom limit 0 start).2 := by
  rcases (runner config).exists_ends limit start with ⟨count, state, _, reached, ends⟩
  have sound := soundRun_of_after free reached
  revert ends
  generalize (runner config).runFrom limit 0 start = ended
  intro ends
  cases ends with
  | stopped _ => exact sound
  | outOfCycles _ _ => exact sound
  | failed _ _ stepped =>
      have now := step_sound config sound.heap
      change step config state = _ at stepped
      rw [stepped] at now
      cases now with
      | error since =>
          have last := sound.trans reached since.2
          exact ⟨last.heap, last.output, last.files⟩

end State

namespace Machine

variable {config : Config} {program : Program} {machine : Machine}

/-- In no state of a run does a string in the heap have a zero byte, whatever the program does to
its stack and to itself; nothing that the run prints has one, and what it stores in files is
nothing, or without zero bytes the beginning of a string that its heap held. -/
theorem run_zero_free (boots : machine.Boots config program) (world : World) :
    (∀ count state, (State.runner config).after count (machine.inWorld world) = some state →
        state.heap.ZeroFree) ∧
      (machine.run world).2.1.heap.ZeroFree ∧
      world.output.PrintedTo (machine.run world).2.2.output ∧
      world.files.Stored (State.HeldSince config (machine.inWorld world))
        (machine.run world).2.2.files := by
  have free : (machine.inWorld world).heap.ZeroFree := by
    rcases (boots_iff config program machine).mp boots with ⟨_, _, rfl⟩
    exact Heap.zeroFree_empty _
  rcases boots.fresh with ⟨fresh, sameConfig⟩
  have ended : State.SoundRun config (machine.inWorld world)
      ((State.runner config).runFrom config.cycleLimit 0 (machine.inWorld world)).2 :=
    State.soundRun_runFrom free config.cycleLimit
  rw [machine.run_eq fresh, sameConfig]
  refine ⟨?_, ended.heap, ended.output, ended.files⟩
  intro count state reached
  exact (State.soundRun_of_after free reached).heap

/-- A program that writes the literal `B`, zero, `C` to the file `a`: the file then holds `B`. -/
theorem run_zero_free_literal :
    let config : Config :=
      { stackCapacity := 8, programCapacity := 16, cycleLimit := 9, sandboxDir := "d" }
    let program : Program := ⟨[22, 3, 66, 0, 67, 22, 1, 97, 30, 32]⟩
    let machine := Machine.loaded config program
    let files : FileSystem := ⟨["work"], [(["work", "d"], .directory), (["work"], .directory)]⟩
    let world : World := ⟨Input.ofBytes [], Output.unbounded, files⟩
    (machine.run world).1 = ⟨.haltInstruction, 4⟩ ∧
      (machine.run world).2.2.files.node? ["work", "d", "a"] = some (.file [66]) ∧
      (machine.run world).2.1.heap.ZeroFree ∧
      world.output.PrintedTo (machine.run world).2.2.output ∧
      world.files.Stored (State.HeldSince config (machine.inWorld world))
        (machine.run world).2.2.files := by
  intro config program machine files world
  have boots : machine.Boots config program := boots_loaded rfl (by decide)
  exact ⟨by cbv, by cbv, (run_zero_free boots world).2⟩

end Machine

end TagMachine
