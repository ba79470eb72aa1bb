import TagMachine.Proofs.Footprint
import TagMachine.Proofs.Parts

/-!
# Instructions one after another

An instruction is performed in a state: its byte is passed and it does what it does.  What some
instructions do one after another is what a run does that fetches them.  However many are performed,
the heap may hold as many strings as it was made for.
-/

namespace TagMachine

namespace State

/-! ## Instructions of a run -/

/-- Passes the byte of an instruction and does what the instruction does. -/
def perform (config : Config) (opcode : Opcode) : Action Unit := fun state =>
  opcode.execute config state.passed

/-- Performs instructions one after another. -/
def performAll (config : Config) : List Opcode → Action Unit
  | [] => return ()
  | opcode :: rest => do
      perform config opcode
      performAll config rest

/-- The instructions among the next `count` that are fetched. -/
def opcodesFrom (config : Config) (count : Nat) (state : State) : List Opcode :=
  (fetchesFrom config count count state).map fun fetch => Opcode.running fetch.byte

variable {config : Config} {opcode : Opcode} {opcodes : List Opcode} {state next after : State}

theorem sp_passed (state : State) : state.passed.memory.sp = state.memory.sp :=
  state.memory.sp_setIp _

/-- A step performs the instruction that it fetches. -/
theorem step_eq_perform (config : Config) {fetch : Fetch} (fetched : state.fetched? = some fetch) :
    State.step config state = perform config (Opcode.running fetch.byte) state :=
  step_of_fetched config fetched

theorem performAll_cons (performed : perform config opcode state = .ok () next) :
    performAll config (opcode :: opcodes) state = performAll config opcodes next :=
  bind_of_ok performed

/-- An instruction that is fetched first is the next step. -/
theorem opcodesFrom_cons (performed : perform config opcode state = .ok () next)
    (fetched : opcodesFrom config (opcodes.length + 1) state = opcode :: opcodes) :
    (State.runner config).next? state = some next ∧
      opcodesFrom config opcodes.length next = opcodes := by
  cases running : state.stop? with
  | some reason =>
      simp only [opcodesFrom, fetchesFrom, running, List.map_nil, reduceCtorEq] at fetched
  | none =>
      cases fetch : state.fetched? with
      | none =>
          rcases step_of_unfetched config fetch with ⟨fault, failed⟩
          simp only [opcodesFrom, fetchesFrom, running, fetch, failed, Option.toList_none,
            List.map_nil, reduceCtorEq] at fetched
      | some first =>
          have stepped := step_eq_perform config fetch
          have same : Opcode.running first.byte = opcode := by
            simp only [opcodesFrom, fetchesFrom, running, fetch, Option.toList_some] at fetched
            split at fetched <;> exact (List.cons.inj fetched).1
          rw [same] at stepped
          have made : State.step config state = .ok () next := stepped.trans performed
          refine ⟨Runner.next?_eq_some_iff.mpr ⟨running, made⟩, ?_⟩
          simp only [opcodesFrom, fetchesFrom, running, fetch, made, Option.toList_some,
            List.singleton_append, List.map_cons] at fetched
          exact (List.cons.inj fetched).2

/-- A run that fetches the instructions comes to the state that performing them comes to. -/
theorem after_of_performAll (performed : performAll config opcodes state = .ok () after)
    (fetched : opcodesFrom config opcodes.length state = opcodes) :
    (State.runner config).after opcodes.length state = some after := by
  induction opcodes generalizing state with
  | nil =>
      obtain rfl : state = after := by
        injection performed
      rfl
  | cons opcode rest inductionHypothesis =>
      rcases exists_of_bind_ok performed with ⟨_, between, first, later⟩
      rcases opcodesFrom_cons first fetched with ⟨stepped, fetchedLater⟩
      rw [List.length_cons, Runner.after_succ_eq_bind, stepped, Option.bind_some]
      exact inductionHypothesis later fetchedLater

/-! ## Room for strings -/

/-- No part of an instruction changes how many strings may live. -/
def maxLiveRule (config : Config) (maxLive : Nat) : PartRule config where
  part := Keeps fun state : State => state.heap.maxLive = maxLive
  whole := Keeps fun state : State => state.heap.maxLive = maxLive
  ofPure := respects_pure
  ofThrow := respects_throw
  bind := Respects.bind
  catching := Respects.tryCatch
  memory access := Component.keeps_on_of_put (fun _ _ known => known) access
  getMemory _ later := keeps_get_bind later
  readLine limit := Component.keeps_on_of_put (fun _ _ known => known) _
  readWord := Component.keeps_on_of_put (fun _ _ known => known) _
  writeFile name content _ := Component.keeps_on_of_put (fun _ _ known => known) _
  getFile _ _ _ _ later := keeps_get_bind later
  allocString string := by
    rintro state _ ⟨rfl, known⟩
    unfold Action.allocString Heap.alloc
    by_cases full : state.heap.maxLive ≤ state.heap.live ∨ tagBit ≤ state.heap.nextId
    · rw [if_pos full]
      exact .error ⟨rfl, known⟩
    · rw [if_neg full]
      exact .ok ⟨rfl, known⟩
  takeString id := by
    rintro state _ ⟨rfl, known⟩
    unfold Action.takeString Heap.take
    cases state.heap.find? id with
    | some string => exact .ok ⟨rfl, known⟩
    | none => exact .error ⟨rfl, known⟩
  lookUpString := keeps_lookUpString
  print line := Component.keeps_on_of_put (fun _ _ known => known) _
  wholeOfPart := id
  bindWhole := Respects.bind

theorem maxLive_after {start : State} {count : Nat}
    (reached : (State.runner config).after count start = some state) :
    state.heap.maxLive = start.heap.maxLive := by
  refine Runner.after_induction (fun _ state => state.heap.maxLive = start.heap.maxLive) rfl ?_
    reached
  intro _ state next known _ stepped
  have kept := ((maxLiveRule config start.heap.maxLive).whole_step).stateOf known
  rwa [show State.step config state = .ok () next from stepped] at kept

end State

namespace Machine

variable {config : Config} {machine : Machine}

theorem Ready.maxLive_eq (ready : machine.Ready config) :
    machine.heap.maxLive = config.maxLiveStrings := by
  induction ready with
  | new made =>
      rcases (new_eq_ok_iff config _).mp made with ⟨_, rfl⟩
      rfl
  | load earlier loading known =>
      rcases eq_of_load earlier.fresh.memory.bounded loading with ⟨_, rfl⟩
      exact known

/-- Every heap of a run may hold as many strings as the limits say. -/
theorem Ready.maxLive_after (ready : machine.Ready config) {world : World} {count : Nat}
    {state : State}
    (reached : (State.runner config).after count (machine.inWorld world) = some state) :
    state.heap.maxLive = config.maxLiveStrings :=
  (State.maxLive_after reached).trans ready.maxLive_eq

/-- Every memory of a hardened run has as many cells as the limits say. -/
theorem Ready.stackCells_after (hardened : config.swapCheck = .hardened)
    (ready : machine.Ready config) {world : World} {count : Nat} {state : State}
    (reached : (State.runner config).after count (machine.inWorld world) = some state) :
    state.memory.layout.stackCells = config.stackCapacity := by
  have made : machine.memory.layout.stackCells = config.stackCapacity := by
    clear reached
    induction ready with
    | new made =>
        rcases (new_eq_ok_iff config _).mp made with ⟨_, rfl⟩
        rfl
    | load earlier loading known =>
        rcases eq_of_load earlier.fresh.memory.bounded loading with ⟨_, rfl⟩
        rw [Memory.setProgramLength, Memory.layout_setFlags, Memory.layout_putBytes]
        exact known
  have kept := Runner.after_induction
    (fun _ state => state.Tidy ∧ state.memory.layout = machine.memory.layout)
    ⟨ready.fresh.tidy world, rfl⟩ (fun _ state next known _ stepped => ?_) reached
  · rw [kept.2, made]
  · have footprint := State.footprint_step hardened known.1
    rw [show State.step config state = .ok () next from stepped] at footprint
    exact ⟨footprint.tidy known.1, footprint.memory.layout.trans known.2⟩

end Machine

end TagMachine
