import TagMachine.Proofs.Memory.Anywhere
import TagMachine.Proofs.SwapCheck

/-!
# Swaps wherever the stack pointer stands

A swap reads the two top cells and writes them the other way round, each at an address counted from
the stack pointer.  It asks for a live cell, so the first write does not meet the stack pointer, and
the second goes where the second cell was read, were it in the stack pointer's own place.  Both cells
are read before any is written, so a swap that leaves the block has changed nothing.
-/

namespace TagMachine

namespace Memory

/-- The words at two positions have changed places, and nothing else has changed. -/
structure Exchanged (first second : Nat) (before after : Memory) : Prop where
  layout : after.layout = before.layout
  atFirst : after.wordAt first = before.wordAt second
  atSecond : after.wordAt second = before.wordAt first
  others : ∀ position, position ≠ first → position ≠ second →
    after.wordAt position = before.wordAt position

variable {memory : Memory}

/-- Two writes exchange two words. -/
theorem exchanged_put {first second : Nat} (different : first ≠ second)
    (firstInside : first < memory.layout.words) (secondInside : second < memory.layout.words) :
    memory.Exchanged first second
      ((memory.put first (memory.wordAt second)).put second (memory.wordAt first)) where
  layout := rfl
  atFirst := by
    rw [wordAt_put_of_ne _ different]
    exact wordAt_put_self firstInside _
  atSecond := by
    have stillInside : second < (memory.put first (memory.wordAt second)).layout.words := secondInside
    exact wordAt_put_self stillInside _
  others position notFirst notSecond := by
    rw [wordAt_put_of_ne _ notSecond, wordAt_put_of_ne _ notFirst]

end Memory

namespace Stack

open Memory (cellAddress)

variable {memory : Memory}

theorem cellAddress_index_zero (memory : Memory) :
    cellAddress (index memory 0) = 2 + (memory.sp - 1) := by
  rw [cellAddress, index, UInt64.sub_zero]
  rfl

theorem cellAddress_index_one (memory : Memory) :
    cellAddress (index memory 1) = 2 + (memory.sp - 2) := by
  change 2 + (memory.sp - 1 - 1) = 2 + (memory.sp - 2)
  grind

/-- The addresses of the two top cells differ by one. -/
theorem toNat_cellAddress_ne (memory : Memory) :
    (cellAddress (index memory 0)).toNat ≠ (cellAddress (index memory 1)).toNat := by
  intro same
  have equal := UInt64.toNat_inj.mp same
  rw [cellAddress_index_zero, cellAddress_index_one] at equal
  grind

theorem swap_of_inBlock (live : memory.sp ≠ 0)
    (topInside : memory.InBlock (cellAddress (index memory 0)))
    (belowInside : memory.InBlock (cellAddress (index memory 1))) :
    ∃ after, swap memory = .ok () after ∧
      memory.Exchanged (cellAddress (index memory 0)).toNat (cellAddress (index memory 1)).toNat
        after := by
  let between := memory.put (cellAddress (index memory 0)).toNat
    (memory.wordAt (cellAddress (index memory 1)).toNat)
  have wroteTop := poke_of_inBlock topInside
    ⟨memory.wordAt (cellAddress (index memory 1)).toNat⟩
  have sameIndex : index between 1 = index memory 1 := by
    rw [index, sp_put_cell live, index]
  have stillInside : between.InBlock (cellAddress (index between 1)) := by
    rw [sameIndex]
    exact belowInside
  have wroteBelow := poke_of_inBlock stillInside
    ⟨memory.wordAt (cellAddress (index memory 0)).toNat⟩
  rw [sameIndex] at wroteBelow
  refine ⟨_, ?_, Memory.exchanged_put (toNat_cellAddress_ne memory) topInside belowInside⟩
  rw [swap, bind_of_ok (peek_of_inBlock topInside), bind_of_ok (peek_of_inBlock belowInside),
    bind_of_ok wroteTop, wroteBelow]

theorem swap_of_not_inBlock
    (outside : ¬(memory.InBlock (cellAddress (index memory 0)) ∧
      memory.InBlock (cellAddress (index memory 1)))) :
    ∃ address,
      (address = cellAddress (index memory 0) ∨ address = cellAddress (index memory 1)) ∧
        ¬memory.InBlock address ∧ swap memory = .error (.memoryFault address) memory := by
  by_cases topInside : memory.InBlock (cellAddress (index memory 0))
  · have belowOutside := fun inside => outside ⟨topInside, inside⟩
    refine ⟨_, Or.inr rfl, belowOutside, ?_⟩
    rw [swap, bind_of_ok (peek_of_inBlock topInside),
      bind_of_error (peek_of_not_inBlock belowOutside)]
  · refine ⟨_, Or.inl rfl, topInside, ?_⟩
    rw [swap, bind_of_error (peek_of_not_inBlock topInside)]

end Stack

namespace State

variable {state : State}

/-- A swap that finds as many live cells as it asks for, on any memory, exchanges the words at the
addresses of the two top cells, if both lie in the block, and changes no other word; otherwise it
fails and has changed nothing.  The lower of a lone cell's addresses is that of the stack pointer. -/
theorem execute_swap (config : Config)
    (enough : config.swapCheck.requiredCells ≤ state.memory.sp) :
    let upper : UInt64 := 2 + (state.memory.sp - 1)
    let lower : UInt64 := 2 + (state.memory.sp - 2)
    (state.memory.InBlock upper → state.memory.InBlock lower →
      ∃ after, Opcode.swap.execute config state = .ok () { state with memory := after } ∧
        state.memory.Exchanged upper.toNat lower.toNat after) ∧
      (¬(state.memory.InBlock upper ∧ state.memory.InBlock lower) →
        ∃ address, (address = upper ∨ address = lower) ∧ ¬state.memory.InBlock address ∧
          Opcode.swap.execute config state = .error (.memoryFault address) state) ∧
      (state.memory.sp = 1 → lower.toNat = Layout.spWord) := by
  intro upper lower
  have upperAddress := Stack.cellAddress_index_zero state.memory
  have lowerAddress := Stack.cellAddress_index_one state.memory
  have live : state.memory.sp ≠ 0 := by
    intro none
    rw [none] at enough
    revert enough
    cases config.swapCheck <;> decide
  have swaps : Action.exchange config.swapCheck.requiredCells state.memory =
      Stack.swap state.memory := by
    rw [exchange_eq, if_neg (Nat.not_lt.mpr (UInt64.le_iff_toNat_le.mp enough))]
  refine ⟨fun upperInside lowerInside => ?_, fun outside => ?_, fun lone => ?_⟩
  · rcases Stack.swap_of_inBlock live (upperAddress ▸ upperInside) (lowerAddress ▸ lowerInside) with
      ⟨after, swapped, exchanged⟩
    rw [upperAddress, lowerAddress] at exchanged
    exact ⟨after, Action.onMemory_of_ok (swaps.trans swapped), exchanged⟩
  · have outsideCells : ¬(state.memory.InBlock (Memory.cellAddress (Stack.index state.memory 0)) ∧
        state.memory.InBlock (Memory.cellAddress (Stack.index state.memory 1))) := by
      rwa [upperAddress, lowerAddress]
    rcases Stack.swap_of_not_inBlock outsideCells with ⟨address, which, notInside, refused⟩
    rw [upperAddress, lowerAddress] at which
    exact ⟨address, which, notInside, Action.onMemory_of_error (swaps.trans refused)⟩
  · have address : lower = 1 := by
      change (2 : UInt64) + (state.memory.sp - 2) = 1
      rw [lone]
      decide
    rw [address]
    rfl

/-- A stack pointer beyond the stack: the cell on top is the word of flags, the one below it the last
word of the program, and the swap clears the halt flag. -/
theorem execute_swap_flags :
    let config : Config := { swapCheck := .hardened }
    let world : World := ⟨Input.ofBytes [], Output.unbounded, FileSystem.fresh⟩
    let memory := ((Memory.blank ⟨2, 16⟩).setSp 5).setHalt true
    let state : State := ⟨world, memory, Heap.empty 1⟩
    config.swapCheck.requiredCells ≤ state.memory.sp ∧ state.memory.halt = true ∧
      ∃ after, Opcode.swap.execute config state = .ok () { state with memory := after } ∧
        after.halt = false ∧ after.wordAt 5 = 1 := by
  intro config world memory state
  have enough : config.swapCheck.requiredCells ≤ state.memory.sp := by decide
  have upperInside : state.memory.InBlock (2 + (state.memory.sp - 1)) := by decide
  have lowerInside : state.memory.InBlock (2 + (state.memory.sp - 2)) := by decide
  rcases (execute_swap config enough).1 upperInside lowerInside with ⟨after, swapped, exchanged⟩
  have upperAddress : (2 + (state.memory.sp - 1)).toNat = 6 := by decide
  have lowerAddress : (2 + (state.memory.sp - 2)).toNat = 5 := by decide
  rw [upperAddress, lowerAddress] at exchanged
  have place : state.memory.layout.flagsWord = 6 := by decide
  have flags : after.flags = state.memory.wordAt 5 := by
    rw [Memory.flags, exchanged.layout, place, exchanged.atFirst]
  have one : state.memory.wordAt 6 = 1 := by decide
  refine ⟨enough, by decide, after, swapped, ?_, exchanged.atSecond.trans one⟩
  rw [Memory.halt, flags]
  decide

end State

end TagMachine
