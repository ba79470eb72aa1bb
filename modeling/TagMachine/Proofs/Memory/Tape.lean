import TagMachine.Proofs.Memory.View
import TagMachine.Proofs.Sequencing
import TagMachine.Bytes.LittleEndian

/-!
# The bytes a program reads of itself

Opcodes and operands are read from the tape: the bytes of the program store and, after them, the
eight bytes of the flags.  Every read of bytes that lie on the tape succeeds and gives those bytes.
Writing a byte of the store changes the tape at that place alone.
-/

namespace TagMachine.Memory

/-- The tape's byte at an offset. -/
def byteAt (memory : Memory) (offset : Nat) : UInt8 :=
  Bits.byteIn (memory.wordAt (memory.layout.programBase + offset / 8)) (offset % 8)

/-- The bytes of the program store, and after them those of the flags. -/
def tape (memory : Memory) : Bytes :=
  (List.range (8 * (memory.layout.programWords + 1))).map memory.byteAt

/-- The bytes of the program store. -/
def storeBytes (memory : Memory) : Bytes :=
  (List.range (8 * memory.layout.programWords)).map memory.byteAt

@[simp] theorem length_tape (memory : Memory) :
    memory.tape.length = 8 * (memory.layout.programWords + 1) := by
  simp [tape]

@[simp] theorem length_storeBytes (memory : Memory) :
    memory.storeBytes.length = 8 * memory.layout.programWords := by
  simp [storeBytes]

/-! ## Reading -/

section Reading

variable {memory : Memory}

/-- A byte address on the tape splits into a word of the block and a lane. -/
theorem bytePosition_eq (bounded : memory.layout.Bounded) {offset : UInt64}
    (inside : offset.toNat < 8 * (memory.layout.programWords + 1)) :
    bytePosition offset memory =
      .ok (UInt64.ofNat (memory.layout.programBase + offset.toNat / 8),
        UInt64.ofNat (8 * (offset.toNat % 8))) memory := by
  have stackLe := bounded.stack_le
  have programLe := bounded.program_le
  simp only [Config.maxStackCapacity] at stackLe
  simp only [Config.maxProgramCapacity] at programLe
  have small : 8 * memory.layout.programBase + offset.toNat < UInt64.size := by
    simp only [Layout.programWords] at inside
    simp only [Layout.programBase, Layout.stackBase, UInt64.size]
    omega
  have word :
      (8 * memory.layout.programBase + offset.toNat) / 8 =
        memory.layout.programBase + offset.toNat / 8 := by
    omega
  have lane : (8 * memory.layout.programBase + offset.toNat) % 8 = offset.toNat % 8 := by
    omega
  simp only [bytePosition, small, if_true, word, lane]

theorem toNat_ofNat_position (bounded : memory.layout.Bounded) {position : Nat}
    (inside : position < memory.layout.words) :
    (UInt64.ofNat position).toNat = position := by
  have stackLe := bounded.stack_le
  have programLe := bounded.program_le
  simp only [Config.maxStackCapacity] at stackLe
  simp only [Config.maxProgramCapacity] at programLe
  simp only [Layout.words, Layout.flagsWord, Layout.programBase, Layout.programWords,
    Layout.stackBase] at inside
  rw [UInt64.toNat_ofNat']
  omega

theorem toNat_add_one (bounded : memory.layout.Bounded) (offset : UInt64)
    (inside : offset.toNat < 8 * (memory.layout.programWords + 1)) :
    (offset + 1).toNat = offset.toNat + 1 := by
  have programLe := bounded.program_le
  simp only [Config.maxProgramCapacity] at programLe
  simp only [Layout.programWords] at inside
  rw [UInt64.toNat_add]
  simp only [UInt64.toNat_one]
  omega

theorem load_eq (bounded : memory.layout.Bounded) {position : Nat}
    (inside : position < memory.layout.words) :
    load (UInt64.ofNat position) memory = .ok (memory.wordAt position) memory := by
  have address := toNat_ofNat_position bounded inside
  have inBlock : memory.InBlock (UInt64.ofNat position) := by
    rw [InBlock, address]
    exact inside
  simp only [load, inBlock, if_true, address]

theorem store_eq (bounded : memory.layout.Bounded) {position : Nat}
    (inside : position < memory.layout.words) (word : UInt64) :
    store (UInt64.ofNat position) word memory = .ok () (memory.put position word) := by
  have address := toNat_ofNat_position bounded inside
  have inBlock : memory.InBlock (UInt64.ofNat position) := by
    rw [InBlock, address]
    exact inside
  simp only [store, inBlock, if_true, address]

theorem programByte_eq (bounded : memory.layout.Bounded) {offset : UInt64}
    (inside : offset.toNat < 8 * (memory.layout.programWords + 1)) :
    programByte offset memory = .ok (memory.byteAt offset.toNat) memory := by
  have word : memory.layout.programBase + offset.toNat / 8 < memory.layout.words := by
    simp only [Layout.words, Layout.flagsWord]
    omega
  rw [programByte, bind_of_ok (bytePosition_eq bounded inside)]
  dsimp only
  rw [bind_of_ok (load_eq bounded word)]
  rfl

theorem programBytes_eq (bounded : memory.layout.Bounded) {count : Nat} {offset : UInt64}
    (inside : offset.toNat + count ≤ 8 * (memory.layout.programWords + 1)) :
    programBytes count offset memory =
      .ok ((memory.tape.drop offset.toNat).take count) memory := by
  induction count generalizing offset with
  | zero => rfl
  | succ count inductionHypothesis =>
      have next := toNat_add_one bounded offset (by omega)
      have here : offset.toNat < memory.tape.length := by
        rw [length_tape]
        omega
      have first : memory.tape[offset.toNat] = memory.byteAt offset.toNat := by
        simp [tape]
      rw [programBytes, bind_of_ok (programByte_eq bounded (by omega)),
        bind_of_ok (inductionHypothesis (by omega)), List.drop_eq_getElem_cons here,
        List.take_succ_cons, first, next]
      rfl

theorem eq_of_programByte {after : Memory} {offset : UInt64} {byte : UInt8}
    (read : programByte offset memory = .ok byte after) :
    after = memory := by
  unfold programByte at read
  cases place : bytePosition offset memory with
  | error fault last =>
      rw [bind_of_error place] at read
      cases read
  | ok position between =>
      have unchanged : between = memory := by
        unfold bytePosition at place
        dsimp only at place
        split at place
        · injection place with _ same
          exact same.symm
        · cases place
      subst unchanged
      rw [bind_of_ok place] at read
      rcases position with ⟨address, shift⟩
      dsimp only at read
      cases loaded : load address between with
      | error fault last =>
          rw [bind_of_error loaded] at read
          cases read
      | ok word last =>
          rw [bind_of_ok loaded] at read
          injection read with _ same
          unfold load at loaded
          split at loaded
          · injection loaded with _ kept
            rw [← same, kept]
          · cases loaded

end Reading

/-! ## The tape of a block that shows a view -/

/-- The little-endian bytes of a number are its digits to base 256. -/
theorem ofLittleEndian_eq_map (count number : Nat) :
    Bytes.ofLittleEndian count number =
      (List.range count).map fun lane => UInt8.ofNat (number / 256 ^ lane) := by
  induction count generalizing number with
  | zero => rfl
  | succ count inductionHypothesis =>
      rw [Bytes.ofLittleEndian, inductionHypothesis, List.range_succ_eq_map, List.map_cons,
        List.map_map, Nat.pow_zero, Nat.div_one]
      congr 1
      apply List.map_congr_left
      intro lane _
      simp only [Function.comp_apply, Nat.div_div_eq_div_mul, Nat.succ_eq_add_one, Nat.pow_succ,
        Nat.mul_comm]

/-- The bytes of a word, lane by lane, are its little-endian bytes. -/
theorem map_byteIn (word : UInt64) :
    (List.range 8).map (Bits.byteIn word) = Bytes.ofLittleEndian 8 word.toNat := by
  rw [ofLittleEndian_eq_map]
  apply List.map_congr_left
  intro lane inside
  exact Bits.byteIn_eq_ofNat (List.mem_range.mp inside) word

theorem tape_eq_append (memory : Memory) :
    memory.tape = memory.storeBytes ++ Bytes.ofLittleEndian 8 memory.flags.toNat := by
  have lanes :
      (List.range 8).map (memory.byteAt ∘ (8 * memory.layout.programWords + ·)) =
        (List.range 8).map (Bits.byteIn memory.flags) := by
    apply List.map_congr_left
    intro lane inside
    have small := List.mem_range.mp inside
    have word : (8 * memory.layout.programWords + lane) / 8 = memory.layout.programWords := by
      omega
    have place : (8 * memory.layout.programWords + lane) % 8 = lane := by
      omega
    simp only [Function.comp_apply, byteAt, word, place]
    rfl
  rw [tape, Nat.mul_succ, List.range_add, List.map_append, List.map_map, lanes, map_byteIn]
  rfl

theorem Shows.storeBytes_eq {memory start : Memory} {view : View}
    (shown : memory.Shows start view) :
    memory.storeBytes = start.storeBytes := by
  rw [storeBytes, storeBytes, shown.layout]
  apply List.map_congr_left
  intro offset inside
  have small := List.mem_range.mp inside
  have same := shown.program (start.layout.programBase + offset / 8) (by omega) (by
    simp only [Layout.flagsWord]
    omega)
  rw [byteAt, byteAt, shown.layout, same]

/-- The tape of a block that shows a view is the program store with the view's flags. -/
theorem Shows.tape_eq {memory start : Memory} {view : View}
    (shown : memory.Shows start view) :
    memory.tape = start.storeBytes ++
      Bytes.ofLittleEndian 8 (flagWord view.halt view.cmp start.programLength).toNat := by
  rw [tape_eq_append, shown.storeBytes_eq, shown.flags]

end TagMachine.Memory
