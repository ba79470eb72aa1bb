import TagMachine.Proofs.Footprint.Instructions
import TagMachine.Proofs.Memory.Loading
import TagMachine.Proofs.Runner
import TagMachine.Proofs.SwapCheck

/-!
# What is left to look at when a machine has stopped

Under the hardened check of swap a machine's stack pointer stays within its stack, whatever was
loaded and whatever has been run.  So every instruction finds its operands in the top cells, and
all that it can have changed, be it that it failed on the way, are the two pointers, two flags, the
cells around the stack pointer, and the strings that it took over or made.
-/

namespace TagMachine

/-! ## Footprints of a failure -/

namespace Memory

variable {straight : Prop} {flagged wider : Nat → Prop} {start memory : Memory}

theorem Footprint.widen {straighter : Prop} (footprint : Footprint straight flagged start memory)
    (kept : straighter → straight) (allowed : ∀ place, flagged place → wider place) :
    Footprint straighter wider start memory :=
  ⟨footprint.layout, fun plain => footprint.ip (kept plain), footprint.fits, footprint.words,
    fun place still => footprint.flags place (mt (allowed place) still), footprint.popped⟩

theorem Footprint.halt_eq (footprint : Footprint straight flagged start memory)
    (still : ¬flagged 0) :
    memory.halt = start.halt := by
  rw [halt, halt, Bits.and_ne_zero Bits.isSingle_one, Bits.and_ne_zero Bits.isSingle_one]
  exact footprint.flags 0 still

theorem Footprint.cmp_eq (footprint : Footprint straight flagged start memory)
    (still : ¬flagged 1) :
    memory.cmp = start.cmp := by
  rw [cmp, cmp, Bits.and_ne_zero Bits.isSingle_two, Bits.and_ne_zero Bits.isSingle_two]
  exact footprint.flags 1 still

end Memory

namespace State

/-- The registers and the strings are as they can have come about. -/
structure Tidy (state : State) : Prop where
  memory : state.memory.Tidy
  heap : state.heap.Sound

/-- What an instruction leaves of a state, with the halt flag set if it failed. -/
def executed (config : Config) (opcode : Opcode) (state : State) : State :=
  match opcode.execute config state.passed with
  | .ok _ next => next
  | .error _ last => last.halted

/-- What a step leaves of a state, with the halt flag set if it failed. -/
def stepped (config : Config) (state : State) : State :=
  match State.step config state with
  | .ok _ next => next
  | .error _ last => last.halted

/-- A step changes the flag of the instruction that it fetches. -/
def Flagged (state : State) (place : Nat) : Prop :=
  ∃ fetch, state.fetched? = some fetch ∧ (Opcode.running fetch.byte).flag? = some place

variable {config : Config} {state start : State} {straight : Prop} {flagged : Nat → Prop}

theorem Footprint.refl (tidy : state.Tidy) : Footprint False flagged state state where
  memory := (Memory.Popped.refl _).footprint tidy.memory False.elim
  heap := .refl tidy.heap

theorem Footprint.tidy {after : State} (footprint : Footprint straight flagged state after)
    (tidy : state.Tidy) :
    after.Tidy where
  memory := ⟨footprint.memory.layout ▸ tidy.memory.bounded,
    footprint.memory.layout ▸ footprint.memory.fits⟩
  heap := footprint.heap.sound

theorem Footprint.halted {after : State} (footprint : Footprint straight flagged state after)
    (tidy : state.Tidy) :
    Footprint straight (fun place => place = 0 ∨ flagged place) state after.halted := by
  have widened : Memory.Footprint straight (fun place => place = 0 ∨ flagged place) state.memory
      after.memory := footprint.memory.widen id fun _ allowed => Or.inr allowed
  exact ⟨widened.setFlag tidy.memory Bits.isSingle_one (Or.inl rfl) true, footprint.heap⟩

theorem footprint_execute (hardened : config.swapCheck = .hardened) (tidy : state.Tidy)
    (opcode : Opcode) :
    Footprint (opcode.operandKind = .none) (fun place => opcode.flag? = some place) state
      (stateOf (opcode.execute config state.passed)) := by
  have popped : state.memory.Popped 0 state.passed.memory := (Memory.Popped.refl _).setIp _
  exact (opcode.leaves_execute hardened tidy.memory).stateOf
    ⟨popped.footprint tidy.memory fun _ => Memory.ip_setIp _ _, .refl tidy.heap⟩ ⟨popped, rfl⟩

theorem footprint_executed (hardened : config.swapCheck = .hardened) (tidy : state.Tidy)
    (opcode : Opcode) :
    Footprint (opcode.operandKind = .none) (fun place => place = 0 ∨ opcode.flag? = some place)
      state (state.executed config opcode) := by
  have footprint := footprint_execute hardened tidy opcode
  unfold executed
  revert footprint
  cases opcode.execute config state.passed with
  | ok _ next =>
      exact fun footprint =>
        ⟨footprint.memory.widen id fun _ allowed => Or.inr allowed, footprint.heap⟩
  | error fault last => exact fun footprint => footprint.halted tidy

theorem footprint_step (hardened : config.swapCheck = .hardened) (tidy : state.Tidy) :
    Footprint False state.Flagged state (stateOf (State.step config state)) := by
  cases fetched : state.fetched? with
  | some fetch =>
      have footprint := footprint_execute hardened tidy (Opcode.running fetch.byte)
      rw [step_of_fetched config fetched]
      exact ⟨footprint.memory.widen False.elim fun _ allowed => ⟨fetch, fetched, allowed⟩,
        footprint.heap⟩
  | none =>
      rcases step_of_unfetched config fetched with ⟨fault, failed⟩
      rw [failed]
      exact .refl tidy

/-! ## Runs -/

theorem Tidy.after (hardened : config.swapCheck = .hardened) (tidy : start.Tidy) {count : Nat}
    (reached : (State.runner config).after count start = some state) :
    state.Tidy := by
  refine Runner.after_induction (fun _ => Tidy) tidy ?_ reached
  intro _ state next tidy _ stepped
  have footprint := footprint_step hardened tidy
  rw [show State.step config state = .ok () next from stepped] at footprint
  exact footprint.tidy tidy

theorem Tidy.nextId_le (hardened : config.swapCheck = .hardened) (tidy : start.Tidy)
    {count earlier : Nat} {former : State}
    (reached : (State.runner config).after count start = some state) (sooner : earlier ≤ count)
    (before : (State.runner config).after earlier start = some former) :
    former.heap.nextId.toNat ≤ state.heap.nextId.toNat := by
  induction count generalizing state with
  | zero =>
      obtain rfl : earlier = 0 := Nat.le_zero.mp sooner
      obtain rfl : state = former := Option.some.inj (reached.symm.trans before)
      exact Nat.le_refl _
  | succ count inductionHypothesis =>
      by_cases last : earlier = count + 1
      · subst last
        obtain rfl : state = former := Option.some.inj (reached.symm.trans before)
        exact Nat.le_refl _
      · rcases Runner.after_succ_eq_some_iff.mp reached with ⟨previous, reachedBefore, -, stepped⟩
        have footprint := footprint_step hardened (tidy.after hardened reachedBefore)
        rw [show State.step config previous = .ok () state from stepped] at footprint
        exact Nat.le_trans (inductionHypothesis reachedBefore (by omega)) footprint.heap.nextId_le

/-- The next id has not been given to any string that lived earlier in the run. -/
theorem Tidy.nextId_fresh (hardened : config.swapCheck = .hardened) (tidy : start.Tidy)
    {count earlier : Nat} {former : State}
    (reached : (State.runner config).after count start = some state) (sooner : earlier ≤ count)
    (before : (State.runner config).after earlier start = some former) :
    former.heap.find? state.heap.nextId = none := by
  exact (tidy.after hardened before).heap.find?_eq_none
    (tidy.nextId_le hardened reached sooner before)

end State

/-! ## Machines that have not been run -/

namespace Machine

/-- Made for the limits and loaded any number of times, and not run. -/
inductive Ready (config : Config) : Machine → Prop
  | new {machine : Machine} :
      Machine.new config = .ok machine → Ready config machine
  | load {machine loaded : Machine} {program : Program} :
      Ready config machine → machine.load program = .ok loaded → Ready config loaded

/-- The machine has not been run, and nothing was written to it but programs. -/
structure Fresh (config : Config) (machine : Machine) : Prop where
  config : machine.config = config
  isDone : machine.isDone = false
  cycles : machine.cycles = 0
  memory : machine.memory.Tidy
  halt : machine.memory.halt = false
  heap : machine.heap.Sound

theorem load_of_le {machine : Machine} {program : Program}
    (long : machine.memory.layout.programBytes ≤ program.length) :
    machine.load program =
      .error (.tooLarge program.length machine.memory.layout.programBytes) :=
  if_pos long

theorem load_of_lt {machine : Machine} {program : Program}
    (bounded : machine.memory.layout.Bounded)
    (short : program.length < machine.memory.layout.programBytes) :
    machine.load program = .ok { machine with
      memory := (machine.memory.putBytes 0 program.bytes).setProgramLength
        (UInt32.ofNat program.length) } := by
  unfold load
  dsimp only
  rw [if_neg (Nat.not_le_of_lt short), storeFrom_of_lt bounded short]

/-- Loading writes the store and the length of the program, and nothing else. -/
theorem eq_of_load {machine next : Machine} {program : Program}
    (bounded : machine.memory.layout.Bounded) (loading : machine.load program = .ok next) :
    program.length < machine.memory.layout.programBytes ∧
      next = { machine with
        memory := (machine.memory.putBytes 0 program.bytes).setProgramLength
          (UInt32.ofNat program.length) } := by
  by_cases long : machine.memory.layout.programBytes ≤ program.length
  · rw [load_of_le long] at loading
    cases loading
  · have short := Nat.lt_of_not_le long
    rw [load_of_lt bounded short] at loading
    exact ⟨short, (Except.ok.inj loading).symm⟩

section Loading

variable {memory : Memory} {bytes : Bytes}

theorem sp_putBytes (short : bytes.length ≤ 8 * memory.layout.programWords) :
    (memory.putBytes 0 bytes).sp = memory.sp := by
  refine Memory.wordAt_putBytes (by rwa [Nat.zero_add]) (Or.inl ?_)
  simp only [Layout.spWord, Layout.programBase, Layout.stackBase]
  omega

theorem flags_putBytes (short : bytes.length ≤ 8 * memory.layout.programWords) :
    (memory.putBytes 0 bytes).flags = memory.flags := by
  rw [Memory.flags, Memory.layout_putBytes]
  exact Memory.wordAt_putBytes (by rwa [Nat.zero_add]) (Or.inr (Nat.le_refl _))

/-- The length of the program lies above the flag. -/
theorem halt_setProgramLength (length : UInt32) :
    (memory.setProgramLength length).halt = memory.halt := by
  rw [Memory.halt, Memory.halt, Bits.and_ne_zero Bits.isSingle_one,
    Bits.and_ne_zero Bits.isSingle_one, Memory.setProgramLength, Memory.flags_setFlags]
  exact (Bits.bit_withUpper memory.flags length 0).trans (if_pos (by decide))

end Loading

variable {config : Config}

theorem Fresh.load {machine next : Machine} {program : Program} (fresh : machine.Fresh config)
    (loading : machine.load program = .ok next) :
    next.Fresh config := by
  rcases eq_of_load fresh.memory.bounded loading with ⟨short, rfl⟩
  have stored : program.bytes.length ≤ 8 * machine.memory.layout.programWords := by
    simp only [Program.length] at short
    simp only [Layout.programWords]
    omega
  have layout : ((machine.memory.putBytes 0 program.bytes).setProgramLength
      (UInt32.ofNat program.length)).layout = machine.memory.layout := by
    rw [Memory.setProgramLength, Memory.layout_setFlags, Memory.layout_putBytes]
  refine ⟨fresh.config, fresh.isDone, fresh.cycles, ⟨?_, ?_⟩, ?_, fresh.heap⟩
  · exact layout ▸ fresh.memory.bounded
  · rw [layout, Memory.setProgramLength, Memory.sp_setFlags, sp_putBytes stored]
    exact fresh.memory.fits
  · rw [halt_setProgramLength, Memory.halt, flags_putBytes stored]
    exact fresh.halt

theorem Ready.fresh {machine : Machine} (ready : machine.Ready config) :
    machine.Fresh config := by
  induction ready with
  | new made =>
      rcases (new_eq_ok_iff config _).mp made with ⟨valid, rfl⟩
      refine ⟨rfl, rfl, rfl, ⟨bounded_of_valid valid, ?_⟩, ?_, Heap.sound_empty _⟩
      · rw [Memory.sp, Memory.wordAt_blank]
        exact Nat.zero_le _
      · rw [Memory.halt, Memory.flags, Memory.wordAt_blank]
        rfl
  | load _ loading fresh => exact fresh.load loading

end Machine

/-! ## Steps of a run -/

/-- What a step with the instruction may have changed: no word but the pointers, the flags, the cell
at the stack pointer and the two below it, and of those no cell that has been popped. -/
structure State.StepFrame (opcode : Opcode) (before after : State) : Prop where
  words : ∀ position, position ≠ Layout.ipWord → position ≠ Layout.spWord →
    position ≠ before.memory.layout.flagsWord →
    (∀ index, index < before.memory.layout.stackCells → index ≤ before.memory.sp.toNat →
      before.memory.sp.toNat ≤ index + 2 → position ≠ Layout.stackBase + index) →
    after.memory.wordAt position = before.memory.wordAt position
  flags : ∀ place, place ≠ 0 → place ≠ 1 →
    Bits.bit after.memory.flags place = Bits.bit before.memory.flags place
  cmp : after.memory.cmp ≠ before.memory.cmp → opcode ∈ [.lt, .gt, .eq, .strcmp, .instr]
  popped : ∀ index, after.memory.sp.toNat ≤ index → index < before.memory.sp.toNat →
    after.memory.wordAt (Layout.stackBase + index) =
      before.memory.wordAt (Layout.stackBase + index)
  lost : ∀ id string, before.heap.find? id = some string →
    after.heap.find? id = some string ∨ after.heap.find? id = none ∧ before.Names id
  gained : ∀ id string, after.heap.find? id = some string →
    before.heap.find? id = some string ∨ id = before.heap.nextId

theorem Opcode.flag?_le {opcode : Opcode} {place : Nat} (flag : opcode.flag? = some place) :
    place = 0 ∨ place = 1 := by
  cases opcode <;> simp only [flag?, reduceCtorEq, Option.some.injEq] at flag <;> omega

theorem Opcode.mem_of_flag? {opcode : Opcode} (flag : opcode.flag? = some 1) :
    opcode ∈ [.lt, .gt, .eq, .strcmp, .instr] := by
  cases opcode <;> first | decide | cases flag

namespace State

variable {config : Config} {state : State}

theorem stepFrame_executed (hardened : config.swapCheck = .hardened) (tidy : state.Tidy)
    (opcode : Opcode) :
    state.StepFrame opcode (state.executed config opcode) := by
  have footprint := footprint_executed hardened tidy opcode
  have unborn := tidy.heap.find?_eq_none (Nat.le_refl _)
  constructor
  · intro position notIp notSp notFlags far
    exact footprint.memory.words position notIp notSp notFlags
      fun index near => far index near.1 near.2.1 near.2.2
  · intro place notHalt notCmp
    refine footprint.memory.flags place ?_
    rintro (halts | flag)
    · exact notHalt halts
    · exact (Opcode.flag?_le flag).elim notHalt notCmp
  · intro changed
    apply Classical.byContradiction
    intro other
    refine changed (footprint.memory.cmp_eq ?_)
    rintro (halts | flag)
    · cases halts
    · exact other (Opcode.mem_of_flag? flag)
  · exact footprint.memory.popped
  · intro id string found
    have old : id ≠ state.heap.nextId := by
      rintro rfl
      rw [unborn] at found
      cases found
    rcases footprint.heap.others id old with same | ⟨named, dead⟩
    · exact Or.inl (same.trans found)
    · exact Or.inr ⟨dead, named⟩
  · intro id string found
    by_cases new : id = state.heap.nextId
    · exact Or.inr new
    · rcases footprint.heap.others id new with same | ⟨-, dead⟩
      · exact Or.inl (same.symm.trans found)
      · rw [dead] at found
        cases found

/-- A step executes the instruction that it fetches, or fails when there is none to fetch. -/
theorem stepped_eq (config : Config) (state : State) :
    state.stepped config =
      match state.fetched? with
      | some fetch => state.executed config (Opcode.running fetch.byte)
      | none => state.halted := by
  cases fetched : state.fetched? with
  | some fetch =>
      dsimp only
      rw [stepped, executed, step_of_fetched config fetched]
  | none =>
      rcases step_of_unfetched config fetched with ⟨fault, failed⟩
      rw [stepped, failed]

end State

namespace Machine

variable {config : Config} {machine : Machine}

theorem Fresh.tidy (fresh : machine.Fresh config) (world : World) :
    (machine.inWorld world).Tidy :=
  ⟨fresh.memory, fresh.heap⟩

/-- From every state that a hardened machine comes to, each instruction changes no more than its
frame, whether it succeeds or fails, and a string that it makes has an id of its own. -/
theorem step_frame (hardened : config.swapCheck = .hardened) (ready : machine.Ready config)
    {world : World} {count : Nat} {state : State}
    (reached : (State.runner config).after count (machine.inWorld world) = some state) :
    (∀ opcode, state.StepFrame opcode (state.executed config opcode)) ∧
      (state.stepped config =
        match state.fetched? with
        | some fetch => state.executed config (Opcode.running fetch.byte)
        | none => state.halted) ∧
      ∀ earlier ≤ count, ∀ former,
        (State.runner config).after earlier (machine.inWorld world) = some former →
        former.heap.find? state.heap.nextId = none := by
  have tidy := ready.fresh.tidy world
  exact ⟨State.stepFrame_executed hardened (tidy.after hardened reached),
    state.stepped_eq config,
    fun _ sooner _ before => tidy.nextId_fresh hardened reached sooner before⟩

/-- A concatenation that finds a number on top has popped it when it fails. -/
theorem step_frame_strcat :
    let config : Config := { swapCheck := .hardened, stackCapacity := 4, programCapacity := 16 }
    let machine := loaded config ⟨[22, 1, 97, 1, 5, 0, 0, 0, 0, 0, 0, 0, 25]⟩
    let world : World := ⟨Input.ofBytes [], Output.unbounded, FileSystem.fresh⟩
    config.swapCheck = .hardened ∧ machine.Ready config ∧
      ∃ state, (State.runner config).after 2 (machine.inWorld world) = some state ∧
        state.memory.sp = 2 ∧ (state.executed config .strcat).memory.sp = 1 ∧
        (state.executed config .strcat).memory.wordAt (Layout.stackBase + 1) =
          state.memory.wordAt (Layout.stackBase + 1) := by
  intro config machine world
  have ready : machine.Ready config := by
    rcases (boots_loaded rfl (by decide) : machine.Boots config _) with ⟨_, made, loading⟩
    exact (Ready.new made).load loading
  have pointers : ((State.runner config).after 2 (machine.inWorld world)).map (fun state =>
      (state.memory.sp, (state.executed config .strcat).memory.sp)) = some (2, 1) := by
    decide +kernel
  rcases Option.map_eq_some_iff.mp pointers with ⟨state, reached, both⟩
  have before : state.memory.sp = 2 := congrArg Prod.fst both
  have after : (state.executed config .strcat).memory.sp = 1 := congrArg Prod.snd both
  refine ⟨rfl, ready, state, reached, before, after, ?_⟩
  exact ((step_frame rfl ready reached).1 .strcat).popped 1 (by rw [after]; decide)
    (by rw [before]; decide)

end Machine

end TagMachine
