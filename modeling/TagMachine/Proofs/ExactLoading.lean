import Mathlib
import TagMachine.Proofs.Lifecycle
import TagMachine.Proofs.Memory.ByteView
import TagMachine.Proofs.Reloading

/-!
# What loading changes

A program that is shorter than the store is copied whole into any machine, and any other is refused
before a byte is written.  Of a machine that takes a program nothing changes but the bytes of the
store under it and the upper half of the flags, which tells its length.
-/

namespace TagMachine

namespace Memory

variable {memory : Memory} {program : Program}

/-! ## The block with a program in it -/

theorem flags_holding_eq (fits : program.length ≤ 8 * memory.layout.programWords) :
    (memory.holding program).flags =
      Bits.withUpper memory.flags (UInt32.ofNat program.length) := by
  rw [holding, setProgramLength, flags_setFlags, Machine.flags_putBytes fits]
  rfl

/-- The bytes behind the store are those of the flags. -/
theorem byteAt_of_le {offset : Nat} (beyond : 8 * memory.layout.programWords ≤ offset)
    (inside : offset < 8 * (memory.layout.programWords + 1)) :
    memory.byteAt offset = Bits.byteIn memory.flags (offset % 8) := by
  have word : offset / 8 = memory.layout.programWords := by omega
  rw [byteAt, word]
  rfl

/-- No byte of the store behind the program changes, and none of the lower half of the flags. -/
theorem byteRead_holding (fits : program.length ≤ 8 * memory.layout.programWords) {offset : UInt64}
    (behind : program.length ≤ offset.toNat)
    (notLength : offset.toNat < 8 * memory.layout.programWords + 4 ∨
      8 * memory.layout.programWords + 8 ≤ offset.toNat) :
    (memory.holding program).byteRead offset = memory.byteRead offset := by
  have same (inside : offset.toNat < 8 * (memory.layout.programWords + 1)) :
      (memory.holding program).byteAt offset.toNat = memory.byteAt offset.toNat := by
    by_cases inStore : offset.toNat < 8 * memory.layout.programWords
    · rw [byteAt_holding fits inStore, if_neg (Nat.not_lt_of_le behind)]
    · have beyond := Nat.le_of_not_lt inStore
      rw [byteAt_of_le beyond inside, byteAt_of_le (by rwa [layout_holding])
        (by rwa [layout_holding]), flags_holding_eq fits, Bits.byteIn_withUpper (by omega)]
  rw [byteRead_eq, byteRead_eq, layout_holding]
  split
  · split
    · rename_i inBlock
      rw [same]
      simp only [Layout.words, Layout.flagsWord] at inBlock
      omega
    · rfl
  · rfl

/-- Nothing changes below the store. -/
theorem wordAt_holding_of_lt (fits : program.length ≤ 8 * memory.layout.programWords)
    {position : Nat} (below : position < memory.layout.programBase) :
    (memory.holding program).wordAt position = memory.wordAt position :=
  wordAt_holding fits (Or.inl below)
    (Nat.ne_of_lt (Nat.lt_of_lt_of_le below memory.layout.programBase_le_flagsWord))

end Memory

namespace Machine

variable {machine : Machine} {program : Program}

/-- A program has been copied into the store of a machine, and its length recorded in the upper four
bytes of the flags. -/
structure Takes (before : Machine) (program : Program) (after : Machine) : Prop where
  copied : ∀ index byte, program.bytes[index]? = some byte →
    after.memory.byteRead (UInt64.ofNat index) = .ok byte
  length : after.memory.programLength.toNat = program.length
  others : ∀ offset : UInt64, program.length ≤ offset.toNat →
    (offset.toNat < 8 * before.memory.layout.programWords + 4 ∨
      8 * before.memory.layout.programWords + 8 ≤ offset.toNat) →
    after.memory.byteRead offset = before.memory.byteRead offset
  ip : after.memory.ip = before.memory.ip
  sp : after.memory.sp = before.memory.sp
  cells : ∀ index < before.memory.layout.stackCells,
    after.cell (UInt64.ofNat index) = before.cell (UInt64.ofNat index)
  halt : after.memory.halt = before.memory.halt
  cmp : after.memory.cmp = before.memory.cmp
  flags : after.memory.flags &&& Memory.lowerHalf = before.memory.flags &&& Memory.lowerHalf
  layout : after.memory.layout = before.memory.layout
  heap : after.heap = before.heap
  isDone : after.isDone = before.isDone
  cycles : after.cycles = before.cycles
  config : after.config = before.config

theorem takes_holding (bounded : machine.memory.layout.Bounded)
    (short : program.length < machine.memory.layout.programBytes) :
    machine.Takes program { machine with memory := machine.memory.holding program } := by
  have fits : program.length ≤ 8 * machine.memory.layout.programWords := by
    simp only [Layout.programWords]
    omega
  have programLe := bounded.program_le
  simp only [Config.maxProgramCapacity] at programLe
  have flags := Memory.flags_holding_eq fits
  have boundedAfter : (machine.memory.holding program).layout.Bounded := by
    rwa [Memory.layout_holding]
  constructor
  case copied =>
    intro index byte found
    have inProgram : index < program.length := (List.getElem?_eq_some_iff.mp found).1
    have address : (UInt64.ofNat index).toNat = index := by
      rw [UInt64.toNat_ofNat']
      omega
    dsimp only
    rw [Memory.byteRead_of_lt boundedAfter (by rw [Memory.layout_holding, address]; omega), address,
      Memory.byteAt_holding fits (by omega), if_pos inProgram, List.getD_eq_getElem?_getD, found,
      Option.getD_some]
  case length =>
    rw [Memory.programLength, flags, Bits.upper_withUpper, UInt32.toNat_ofNat']
    omega
  case others => exact fun offset behind notLength => Memory.byteRead_holding fits behind notLength
  case ip =>
    refine Memory.wordAt_holding_of_lt fits ?_
    simp only [Layout.ipWord, Layout.programBase, Layout.stackBase]
    omega
  case sp =>
    refine Memory.wordAt_holding_of_lt fits ?_
    simp only [Layout.spWord, Layout.programBase, Layout.stackBase]
    omega
  case cells =>
    intro index inside
    have insideAfter : index < (machine.memory.holding program).layout.stackCells := by
      rwa [Memory.layout_holding]
    have below : Layout.stackBase + index < machine.memory.layout.programBase :=
      Nat.add_lt_add_left inside _
    rw [cell, cell, Memory.loadCell_of_lt bounded inside,
      Memory.loadCell_of_lt boundedAfter insideAfter, Memory.wordAt_holding_of_lt fits below]
  case halt =>
    rw [Memory.halt, Memory.halt, flags, Bits.and_ne_zero Bits.isSingle_one,
      Bits.and_ne_zero Bits.isSingle_one, Bits.bit_withUpper, if_pos (by decide)]
  case cmp =>
    rw [Memory.cmp, Memory.cmp, flags, Bits.and_ne_zero Bits.isSingle_two,
      Bits.and_ne_zero Bits.isSingle_two, Bits.bit_withUpper, if_pos (by decide)]
  case flags => rw [flags, Bits.withUpper_and_lowerHalf]
  case layout => exact Memory.layout_holding machine.memory program
  all_goals rfl

/-- Whatever its registers, its strings and its history are, a machine that is laid out for its limits
refuses a program that is as long as its store or longer, with nothing changed, and takes any other,
with nothing else changed. -/
theorem load_exact (accepted : machine.config.validate = .ok ())
    (laidOut : Layout.ofConfig machine.config = .ok machine.memory.layout) (program : Program) :
    (∀ refusal, machine.load program = .error refusal ↔
      machine.config.programCapacity ≤ program.length ∧
        refusal = .tooLarge program.length machine.config.programCapacity) ∧
      (machine.config.programCapacity ≤ program.length →
        machine.call (.load program) = machine) ∧
      (program.length < machine.config.programCapacity →
        ∃ after, machine.load program = .ok after ∧ machine.call (.load program) = after ∧
          machine.Takes program after) := by
  have valid := machine.config.validate_eq_ok_iff.mp accepted
  have layout : machine.memory.layout =
      ⟨machine.config.stackCapacity, machine.config.programCapacity⟩ := by
    rw [Layout.ofConfig_of_valid valid, Except.ok.injEq] at laidOut
    exact laidOut.symm
  have capacity : machine.memory.layout.programBytes = machine.config.programCapacity := by
    rw [layout]
  have bounded : machine.memory.layout.Bounded := by
    rw [layout]
    exact bounded_of_valid valid
  rw [← capacity]
  refine ⟨fun refusal => ?_, fun long => ?_, fun short => ?_⟩
  · by_cases long : machine.memory.layout.programBytes ≤ program.length
    · rw [load_of_le long, Except.error.injEq]
      exact ⟨fun same => ⟨long, same.symm⟩, fun same => same.2.symm⟩
    · rw [load_of_lt bounded (Nat.lt_of_not_le long)]
      exact iff_of_false (fun failed => by cases failed) fun same => long same.1
  · rw [call, load_of_le long]
  · have loads := load_of_lt bounded short
    exact ⟨_, loads, by rw [call, loads], takes_holding bounded short⟩

/-- A machine that has pushed a string and halted takes another program, over the beginning of the
first: the string and the halt flag stay, and so does what lies in the store behind the new program. -/
theorem load_exact_halted :
    let config : Config := { stackCapacity := 3, programCapacity := 13 }
    let made : Machine := ⟨config, Memory.blank ⟨3, 13⟩, Heap.empty config.maxLiveStrings, false, 0⟩
    let world : World := ⟨Input.ofBytes [], Output.unbounded, FileSystem.fresh⟩
    let machine := made.afterCalls [.load ⟨[22, 1, 97, 33, 0, 0, 0, 0, 0, 5, 7, 8]⟩, .run world]
    let program : Program := ⟨[0, 1, 2, 3, 4, 5, 6, 7, 9]⟩
    Machine.new config = .ok made ∧ machine.config.validate = .ok () ∧
      Layout.ofConfig machine.config = .ok machine.memory.layout ∧ machine.isDone = true ∧
      ∃ after, machine.load program = .ok after ∧ machine.Takes program after ∧
        after.memory.byteRead 8 = .ok 9 ∧ after.memory.byteRead 9 = .ok 5 ∧
        after.memory.sp = 1 ∧ after.memory.halt = true ∧ after.heap.live = 1 := by
  intro config made world machine program
  have valid : config.Valid := (config.validate_eq_ok_iff).mp rfl
  have accepted : machine.config.validate = .ok () := by decide +kernel
  have laidOut : Layout.ofConfig machine.config = .ok machine.memory.layout := by decide +kernel
  have short : program.length < machine.config.programCapacity := by decide +kernel
  have old : machine.memory.byteRead 9 = .ok 5 := by decide +kernel
  have pushed : machine.memory.sp = 1 ∧ machine.memory.halt = true ∧ machine.heap.live = 1 := by
    decide +kernel
  rcases (load_exact accepted laidOut program).2.2 short with ⟨after, loads, _, takes⟩
  refine ⟨(new_eq_ok_iff config made).mpr ⟨valid, rfl⟩, accepted, laidOut, by decide +kernel, after,
    loads, takes, takes.copied 8 9 rfl, ?_, ?_, ?_, ?_⟩
  · rw [takes.others 9 (by decide) (Or.inl (by decide +kernel)), old]
  · rw [takes.sp, pushed.1]
  · rw [takes.halt, pushed.2.1]
  · rw [takes.heap, pushed.2.2]

end Machine

end TagMachine
