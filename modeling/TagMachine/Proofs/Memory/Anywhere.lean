import TagMachine.Proofs.Memory.Cells

/-!
# The stack of any block

A stack pointer may hold any word, and then the cells around it are the words that their addresses
meet, if they meet any.  The address of a cell is that of the stack pointer's own word at one depth
alone, the stack pointer itself, so writing a cell at another depth leaves the stack pointer as it is.
-/

namespace TagMachine

namespace Memory

variable {memory : Memory} {address : UInt64}

theorem load_of_inBlock (inside : memory.InBlock address) :
    load address memory = .ok (memory.wordAt address.toNat) memory :=
  if_pos inside

theorem load_of_not_inBlock (outside : ¬memory.InBlock address) :
    load address memory = .error (.memoryFault address) memory :=
  if_neg outside

theorem store_of_inBlock (inside : memory.InBlock address) (word : UInt64) :
    store address word memory = .ok () (memory.put address.toNat word) :=
  if_pos inside

theorem store_of_not_inBlock (outside : ¬memory.InBlock address) (word : UInt64) :
    store address word memory = .error (.memoryFault address) memory :=
  if_neg outside

/-- Of two writes to one word the later counts. -/
theorem put_put (memory : Memory) (position : Nat) (first second : UInt64) :
    (memory.put position first).put position second = memory.put position second :=
  Memory.ext rfl (Array.setIfInBounds_setIfInBounds _)

/-- Writing the word that is there already changes nothing. -/
theorem put_wordAt (memory : Memory) (position : Nat) :
    memory.put position (memory.wordAt position) = memory := by
  refine eq_of_wordAt rfl fun other _ => ?_
  rw [wordAt_put]
  split
  · rename_i here
    rw [here.1]
  · rfl

theorem put_comm (memory : Memory) {position other : Nat} (different : position ≠ other)
    (first second : UInt64) :
    (memory.put position first).put other second = (memory.put other second).put position first :=
  Memory.ext rfl (Array.setIfInBounds_comm _ _ different)

/-- The cell with an index, wherever its address lies. -/
def cellAt (memory : Memory) (index : UInt64) : Cell :=
  ⟨memory.wordAt (cellAddress index).toNat⟩

end Memory

namespace Stack

open Memory (cellAddress)

variable {memory : Memory} {depth : UInt64}

theorem toNat_cellAddress_index_ne (different : memory.sp ≠ depth) :
    (cellAddress (index memory depth)).toNat ≠ Layout.spWord := by
  have apart : memory.sp.toNat ≠ depth.toNat := fun same => different (UInt64.toNat_inj.mp same)
  have small := memory.sp.toNat_lt
  have smallDepth := depth.toNat_lt
  simp only [cellAddress, index, Layout.stackBase, Layout.spWord, UInt64.toNat_add,
    UInt64.toNat_sub, UInt64.toNat_ofNat', UInt64.toNat_one]
  omega

/-- Writing a cell leaves the stack pointer, unless the cell lies in its place. -/
theorem sp_put_cell (different : memory.sp ≠ depth) (word : UInt64) :
    (memory.put (cellAddress (index memory depth)).toNat word).sp = memory.sp :=
  memory.wordAt_put_of_ne (toNat_cellAddress_index_ne different).symm word

theorem peek_of_inBlock (inside : memory.InBlock (cellAddress (index memory depth))) :
    peek depth memory = .ok ⟨memory.wordAt (cellAddress (index memory depth)).toNat⟩ memory :=
  peek_of_loadCell (Memory.load_of_inBlock inside)

theorem peek_of_not_inBlock (outside : ¬memory.InBlock (cellAddress (index memory depth))) :
    peek depth memory = .error (.memoryFault (cellAddress (index memory depth))) memory := by
  rw [peek, get_bind]
  exact bind_of_error (Memory.load_of_not_inBlock outside)

/-- The cell that is popped is the one on top, read with the stack pointer already below it. -/
theorem pop_of_inBlock (live : memory.sp ≠ 0)
    (inside : memory.InBlock (cellAddress (memory.sp - 1))) :
    pop memory = .ok (memory.cellAt (memory.sp - 1)) (memory.setSp (memory.sp - 1)) := by
  have apart : (cellAddress (memory.sp - 1)).toNat ≠ Layout.spWord := by
    have different := toNat_cellAddress_index_ne live
    rwa [index, UInt64.sub_zero] at different
  have stillInside : (memory.setSp (memory.sp - 1)).InBlock (cellAddress (memory.sp - 1)) := inside
  have read := Memory.load_of_inBlock stillInside
  rw [Memory.setSp, Memory.wordAt_put_of_ne _ apart] at read
  have dropped : drop 1 memory = .ok () (memory.setSp (memory.sp - 1)) := rfl
  rw [pop, bind_of_ok dropped, get_bind, Memory.sp_setSp, Memory.loadCell]
  exact bind_of_ok read

theorem push_of_inBlock (inside : memory.InBlock (cellAddress memory.sp)) (cell : Cell) :
    push cell memory =
      .ok () ((memory.put (cellAddress memory.sp).toNat cell.word).setSp (memory.sp + 1)) := by
  rw [push, get_bind, Memory.storeCell, bind_of_ok (Memory.store_of_inBlock inside _)]
  rfl

theorem poke_of_inBlock (inside : memory.InBlock (cellAddress (index memory depth))) (cell : Cell) :
    poke depth cell memory =
      .ok () (memory.put (cellAddress (index memory depth)).toNat cell.word) := by
  rw [poke_eq]
  exact Memory.store_of_inBlock inside cell.word

end Stack

end TagMachine
