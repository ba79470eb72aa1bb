import TagMachine.Proofs.Memory.Tape
import TagMachine.Stack

/-!
# The stack of a block that shows its cells

The checks and moves of the stack, on a block whose live cells are known.  A check looks at those
cells alone, and a move puts them where a list of cells would have them.
-/

namespace TagMachine

namespace Stack

variable {memory : Memory} {depth word : UInt64}

theorem require_eq (count : UInt64) (memory : Memory) :
    require count memory =
      if memory.sp.toNat < count.toNat then .error (.stackUnderflow count memory.sp) memory
      else .ok () memory := by
  rw [require, get_bind]
  simp only [UInt64.lt_iff_toNat_lt]
  split <;> rfl

theorem peek_of_loadCell (loaded : Memory.loadCell (index memory depth) memory = .ok word memory) :
    peek depth memory = .ok ⟨word⟩ memory := by
  rw [peek, get_bind, bind_of_ok loaded]
  rfl

theorem poke_eq (depth : UInt64) (cell : Cell) (memory : Memory) :
    poke depth cell memory = Memory.storeCell (index memory depth) cell.word memory := rfl

end Stack

/-! ## Addresses of cells within the stack -/

namespace Memory

section Within

variable {memory : Memory} {index : Nat}

theorem cellAddress_of_lt (inside : index < memory.layout.stackCells) :
    cellAddress (UInt64.ofNat index) = UInt64.ofNat (Layout.stackBase + index) ∧
      Layout.stackBase + index < memory.layout.words := by
  constructor
  · rw [cellAddress, UInt64.ofNat_add]
  · simp only [Layout.words, Layout.flagsWord, Layout.programBase]
    omega

theorem loadCell_of_lt (bounded : memory.layout.Bounded)
    (inside : index < memory.layout.stackCells) :
    loadCell (UInt64.ofNat index) memory =
      .ok (memory.wordAt (Layout.stackBase + index)) memory := by
  rcases cellAddress_of_lt inside with ⟨address, inBlock⟩
  rw [loadCell, address, load_eq bounded inBlock]

theorem storeCell_of_lt (bounded : memory.layout.Bounded)
    (inside : index < memory.layout.stackCells) (cell : Cell) :
    storeCell (UInt64.ofNat index) cell.word memory = .ok () (memory.putCell index cell) := by
  rcases cellAddress_of_lt inside with ⟨address, inBlock⟩
  rw [storeCell, address, store_eq bounded inBlock]
  rfl

end Within

end Memory

namespace Memory.Shows

variable {memory start : Memory} {view : View}

theorem loadCell (shown : memory.Shows start view) (index : Nat)
    (inside : index < start.layout.stackCells) :
    Memory.loadCell (UInt64.ofNat index) memory =
      .ok (memory.wordAt (Layout.stackBase + index)) memory :=
  loadCell_of_lt shown.bounded_layout (shown.layout ▸ inside)

theorem storeCell (shown : memory.Shows start view) {index : Nat}
    (inside : index < start.layout.stackCells) (cell : Cell) :
    Memory.storeCell (UInt64.ofNat index) cell.word memory =
      .ok () (memory.putCell index cell) :=
  storeCell_of_lt shown.bounded_layout (shown.layout ▸ inside) cell

theorem index_eq (shown : memory.Shows start view) {depth : UInt64}
    (live : depth.toNat < view.cells.length) :
    Stack.index memory depth = UInt64.ofNat (view.cells.length - 1 - depth.toNat) := by
  have small := shown.stack_small
  apply UInt64.toNat_inj.mp
  rw [Stack.index, shown.sp, UInt64.toNat_ofNat']
  simp only [UInt64.toNat_sub, UInt64.toNat_ofNat', UInt64.toNat_one]
  omega

/-! ## Checks -/

theorem require (shown : memory.Shows start view) (count : UInt64) :
    Stack.require count memory =
      if view.cells.length < count.toNat then
        .error (.stackUnderflow count (UInt64.ofNat view.cells.length)) memory
      else .ok () memory := by
  rw [Stack.require_eq, shown.toNat_sp, shown.sp]

theorem requireFree (shown : memory.Shows start view) :
    Stack.requireFree memory =
      if view.cells.length = start.layout.stackCells then .error .stackFull memory
      else .ok () memory := by
  rw [Stack.requireFree, get_bind, shown.toNat_sp, shown.layout]
  split <;> rfl

theorem peek (shown : memory.Shows start view) (depth : UInt64) {cell : Cell}
    (found : view.cells[depth.toNat]? = some cell) :
    Stack.peek depth memory = .ok cell memory := by
  have live := (List.getElem?_eq_some_iff.mp found).1
  have fits := shown.fits
  have loaded := shown.loadCell (view.cells.length - 1 - depth.toNat) (by omega)
  rw [← shown.index_eq live, shown.wordAt_cell _ found] at loaded
  exact Stack.peek_of_loadCell loaded

theorem requireIntsFrom (shown : memory.Shows start view) {depth : UInt64} {count : Nat}
    (live : depth.toNat + count ≤ view.cells.length) :
    Stack.requireIntsFrom depth count memory =
      if ((view.cells.drop depth.toNat).take count).any Cell.isString then
        .error (.typeMismatch .integer) memory
      else .ok () memory := by
  induction count generalizing depth with
  | zero => rfl
  | succ count inductionHypothesis =>
      have here : depth.toNat < view.cells.length := by
        omega
      have small := shown.stack_small
      have next : (depth + 1).toNat = depth.toNat + 1 := by
        rw [UInt64.toNat_add, UInt64.toNat_one]
        omega
      have deeper := @inductionHypothesis (depth + 1) (by omega)
      rw [Stack.requireIntsFrom, bind_of_ok (shown.peek depth (List.getElem?_eq_getElem here)),
        List.drop_eq_getElem_cons here, List.take_succ_cons, List.any_cons, ← next]
      by_cases isString : view.cells[depth.toNat].isString = true
      · rw [isString, Bool.true_or]
        rfl
      · rw [Bool.not_eq_true] at isString
        rw [isString, Bool.false_or]
        exact deeper

theorem requireInts (shown : memory.Shows start view) (count : UInt64) :
    Stack.requireInts count memory =
      if view.cells.length < count.toNat then
        .error (.stackUnderflow count (UInt64.ofNat view.cells.length)) memory
      else if (view.cells.take count.toNat).any Cell.isString then
        .error (.typeMismatch .integer) memory
      else .ok () memory := by
  have enough := shown.require count
  unfold Stack.requireInts
  by_cases missing : view.cells.length < count.toNat
  · rw [if_pos missing] at enough ⊢
    exact bind_of_error enough
  · rw [if_neg missing] at enough ⊢
    rw [bind_of_ok enough, shown.requireIntsFrom (by rw [UInt64.toNat_zero]; omega)]
    rfl

/-! ## Moves -/

theorem poke (shown : memory.Shows start view) (depth : UInt64)
    (live : depth.toNat < view.cells.length) (cell : Cell) :
    ∃ next, Stack.poke depth cell memory = .ok () next ∧
      next.Shows start { view with cells := view.cells.set depth.toNat cell } := by
  have fits := shown.fits
  refine ⟨_, ?_, shown.putCell live cell⟩
  rw [Stack.poke_eq, shown.index_eq live, shown.storeCell (by omega)]

theorem push (shown : memory.Shows start view)
    (room : view.cells.length < start.layout.stackCells) (cell : Cell) :
    ∃ next, Stack.push cell memory = .ok () next ∧
      next.Shows start { view with cells := cell :: view.cells } := by
  refine ⟨_, ?_, shown.setSp_push room cell⟩
  rw [Stack.push, get_bind, shown.sp, bind_of_ok (shown.storeCell room cell), UInt64.ofNat_add]
  rfl

theorem drop_eq (shown : memory.Shows start view) (count : UInt64)
    (live : count.toNat ≤ view.cells.length) :
    Stack.drop count memory =
      .ok () (memory.setSp (UInt64.ofNat (view.cells.length - count.toNat))) := by
  have small := shown.stack_small
  have lowered :
      memory.sp - count = UInt64.ofNat (view.cells.length - count.toNat) := by
    apply UInt64.toNat_inj.mp
    rw [shown.sp, UInt64.toNat_ofNat']
    simp only [UInt64.toNat_sub, UInt64.toNat_ofNat']
    omega
  rw [← lowered]
  rfl

theorem drop (shown : memory.Shows start view) (count : UInt64)
    (live : count.toNat ≤ view.cells.length) :
    ∃ next, Stack.drop count memory = .ok () next ∧
      next.Shows start { view with cells := view.cells.drop count.toNat } :=
  ⟨_, shown.drop_eq count live, shown.setSp_drop count.toNat⟩

/-- The cell that is popped is read after the stack pointer has left it. -/
theorem pop (shown : memory.Shows start view) {cell : Cell} {rest : List Cell}
    (cells : view.cells = cell :: rest) :
    ∃ next, Stack.pop memory = .ok cell next ∧
      next.Shows start { view with cells := rest } := by
  have fits := shown.fits
  have found : view.cells[0]? = some cell := by
    rw [cells]
    rfl
  have topWord := shown.wordAt_cell 0 found
  have dropped := shown.drop_eq 1 (by simp [cells])
  have lowered := shown.setSp_drop 1
  simp only [cells, List.length_cons, UInt64.toNat_one, Nat.add_sub_cancel, Nat.sub_zero,
    List.drop_succ_cons, List.drop_zero] at fits topWord dropped lowered
  refine ⟨_, ?_, lowered⟩
  have read := lowered.loadCell rest.length (by omega)
  rw [wordAt_setSp _ (Nat.le_add_right _ _), topWord] at read
  rw [Stack.pop, bind_of_ok dropped, get_bind, sp_setSp, bind_of_ok read]
  rfl

theorem swap (shown : memory.Shows start view) {top below : Cell} {rest : List Cell}
    (cells : view.cells = top :: below :: rest) :
    ∃ next, Stack.swap memory = .ok () next ∧
      next.Shows start { view with cells := below :: top :: rest } := by
  have readTop : Stack.peek 0 memory = .ok top memory := shown.peek 0 (by rw [cells]; rfl)
  have readBelow : Stack.peek 1 memory = .ok below memory :=
    shown.peek 1 (by rw [cells]; rfl)
  rcases shown.poke 0 (by simp [cells]) below with ⟨first, wroteTop, firstShown⟩
  rcases firstShown.poke 1 (by simp [cells]) top with ⟨second, wroteBelow, secondShown⟩
  refine ⟨second, ?_, by simpa [cells] using secondShown⟩
  rw [Stack.swap, bind_of_ok readTop, bind_of_ok readBelow, bind_of_ok wroteTop, wroteBelow]

end Memory.Shows

end TagMachine
