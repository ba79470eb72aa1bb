import TagMachine.Proofs.Memory.Registers

/-!
# What a memory block shows

A program sees of the block its instruction pointer, the live cells and two flags.  `Shows memory
start view` says that the block shows that view, that its stack pointer stays within the stack,
and that the program and its length are those of the block `start`.  Each write that an instruction
makes to such a block is a change of the view.
-/

namespace TagMachine

/-- The parts of the block are no larger than a valid configuration makes them. -/
structure Layout.Bounded (layout : Layout) : Prop where
  stack_le : layout.stackCells ≤ Config.maxStackCapacity
  program_le : layout.programBytes ≤ Config.maxProgramCapacity

namespace Memory

/-! ## The live cells -/

/-- The lowest `count` cells, the topmost of them first. -/
def cellsBelow (memory : Memory) : (count : Nat) → List Cell
  | 0 => []
  | count + 1 => ⟨memory.wordAt (Layout.stackBase + count)⟩ :: memory.cellsBelow count

/-- The cells below the stack pointer, the top first. -/
def liveCells (memory : Memory) : List Cell :=
  memory.cellsBelow memory.sp.toNat

theorem cellsBelow_congr {left right : Memory} {count : Nat}
    (same : ∀ index, index < count →
      left.wordAt (Layout.stackBase + index) = right.wordAt (Layout.stackBase + index)) :
    left.cellsBelow count = right.cellsBelow count := by
  induction count with
  | zero => rfl
  | succ count inductionHypothesis =>
      have top := same count (by omega)
      have below := inductionHypothesis fun index inside => same index (by omega)
      simp only [cellsBelow, top, below]

theorem drop_cellsBelow (memory : Memory) (count dropped : Nat) :
    (memory.cellsBelow count).drop dropped = memory.cellsBelow (count - dropped) := by
  induction count generalizing dropped with
  | zero => simp [cellsBelow]
  | succ count inductionHypothesis =>
      cases dropped with
      | zero => rfl
      | succ dropped =>
          rw [cellsBelow, List.drop_succ_cons, inductionHypothesis, Nat.add_sub_add_right]

theorem getElem?_cellsBelow (memory : Memory) {count depth : Nat} (live : depth < count) :
    (memory.cellsBelow count)[depth]? =
      some ⟨memory.wordAt (Layout.stackBase + (count - 1 - depth))⟩ := by
  induction count generalizing depth with
  | zero => omega
  | succ count inductionHypothesis =>
      cases depth with
      | zero => simp [cellsBelow]
      | succ depth =>
          have sameIndex : count + 1 - 1 - (depth + 1) = count - 1 - depth := by omega
          rw [cellsBelow, List.getElem?_cons_succ, inductionHypothesis (by omega), sameIndex]

theorem cellsBelow_putCell_of_le (memory : Memory) {count index : Nat}
    (above : count ≤ index) (cell : Cell) :
    (memory.putCell index cell).cellsBelow count = memory.cellsBelow count := by
  apply cellsBelow_congr
  intro lower inside
  exact memory.wordAt_put_of_ne (by omega) cell.word

theorem cellsBelow_putCell (memory : Memory) {count depth : Nat} (live : depth < count)
    (fits : Layout.stackBase + count ≤ memory.layout.words) (cell : Cell) :
    (memory.putCell (count - 1 - depth) cell).cellsBelow count =
      (memory.cellsBelow count).set depth cell := by
  induction count generalizing depth with
  | zero => omega
  | succ count inductionHypothesis =>
      cases depth with
      | zero =>
          rw [Nat.add_sub_cancel, Nat.sub_zero, cellsBelow, cellsBelow, List.set_cons_zero,
            memory.cellsBelow_putCell_of_le (Nat.le_refl count), putCell,
            wordAt_put_self (by omega)]
      | succ depth =>
          have top :
              (memory.putCell (count - 1 - depth) cell).wordAt (Layout.stackBase + count) =
                memory.wordAt (Layout.stackBase + count) :=
            memory.wordAt_put_of_ne (by omega) cell.word
          have sameIndex : count + 1 - 1 - (depth + 1) = count - 1 - depth := by omega
          rw [sameIndex, cellsBelow, cellsBelow, List.set_cons_succ,
            inductionHypothesis (by omega) (by omega), top]

@[simp] theorem cellsBelow_setIp (memory : Memory) (ip : UInt64) (count : Nat) :
    (memory.setIp ip).cellsBelow count = memory.cellsBelow count :=
  cellsBelow_congr fun _ _ => memory.wordAt_setIp (Nat.le_add_right _ _) ip

@[simp] theorem cellsBelow_setSp (memory : Memory) (sp : UInt64) (count : Nat) :
    (memory.setSp sp).cellsBelow count = memory.cellsBelow count :=
  cellsBelow_congr fun _ _ => memory.wordAt_setSp (Nat.le_add_right _ _) sp

theorem cellsBelow_setFlags (memory : Memory) {count : Nat}
    (fits : count ≤ memory.layout.stackCells) (flags : UInt64) :
    (memory.setFlags flags).cellsBelow count = memory.cellsBelow count := by
  apply cellsBelow_congr
  intro index inside
  apply memory.wordAt_setFlags
  simp only [Layout.flagsWord, Layout.programBase]
  omega

/-! ## Views -/

/-- What a program sees of the machine's memory, with the live cells from the top down. -/
structure View where
  ip : UInt64
  cells : List Cell
  halt : Bool
  cmp : Bool

/-- The block shows a view, and holds the program of the block `start`. -/
structure Shows (memory start : Memory) (view : View) : Prop where
  bounded : start.layout.Bounded
  layout : memory.layout = start.layout
  ip : memory.ip = view.ip
  sp : memory.sp = UInt64.ofNat view.cells.length
  fits : view.cells.length ≤ start.layout.stackCells
  cells : memory.cellsBelow view.cells.length = view.cells
  flags : memory.flags = flagWord view.halt view.cmp start.programLength
  program : ∀ position, start.layout.programBase ≤ position →
    position < start.layout.flagsWord → memory.wordAt position = start.wordAt position

namespace Shows

variable {start memory : Memory} {view : View}

theorem bounded_layout (shown : memory.Shows start view) :
    memory.layout.Bounded := by
  rw [shown.layout]
  exact shown.bounded

theorem stack_small (shown : memory.Shows start view) :
    view.cells.length < 2 ^ 32 := by
  have fits := shown.fits
  have stackLe := shown.bounded.stack_le
  simp only [Config.maxStackCapacity] at stackLe
  omega

theorem toNat_sp (shown : memory.Shows start view) :
    memory.sp.toNat = view.cells.length := by
  have small := shown.stack_small
  rw [shown.sp, UInt64.toNat_ofNat']
  omega

theorem liveCells_eq (shown : memory.Shows start view) :
    memory.liveCells = view.cells := by
  rw [liveCells, shown.toNat_sp, shown.cells]

theorem halt_eq (shown : memory.Shows start view) :
    memory.halt = view.halt := by
  rw [halt, shown.flags, halt_flagWord]

theorem cmp_eq (shown : memory.Shows start view) :
    memory.cmp = view.cmp := by
  rw [cmp, shown.flags, cmp_flagWord]

theorem programLength_eq (shown : memory.Shows start view) :
    memory.programLength = start.programLength := by
  rw [programLength, shown.flags, programLength_flagWord]

theorem wordAt_cell (shown : memory.Shows start view) (depth : Nat) {cell : Cell}
    (found : view.cells[depth]? = some cell) :
    memory.wordAt (Layout.stackBase + (view.cells.length - 1 - depth)) = cell.word := by
  have live := (List.getElem?_eq_some_iff.mp found).1
  have read := memory.getElem?_cellsBelow live
  rw [shown.cells, found, Option.some.injEq] at read
  rw [read]

/-! Writes that an instruction makes. -/

theorem setIp (shown : memory.Shows start view) (ip : UInt64) :
    (memory.setIp ip).Shows start { view with ip } where
  bounded := shown.bounded
  layout := shown.layout
  ip := memory.ip_setIp ip
  sp := by rw [sp_setIp, shown.sp]
  fits := shown.fits
  cells := by rw [cellsBelow_setIp, shown.cells]
  flags := by rw [flags_setIp, shown.flags]
  program := by
    intro position above below
    have aboveStack := Nat.le_trans start.layout.stackBase_le_programBase above
    rw [memory.wordAt_setIp aboveStack, shown.program position above below]

theorem setFlags (shown : memory.Shows start view) (halt cmp : Bool) :
    (memory.setFlags (flagWord halt cmp start.programLength)).Shows start
      { view with halt, cmp } where
  bounded := shown.bounded
  layout := shown.layout
  ip := by rw [ip_setFlags, shown.ip]
  sp := by rw [sp_setFlags, shown.sp]
  fits := shown.fits
  cells := by
    rw [cellsBelow_setFlags _ (by rw [shown.layout]; exact shown.fits), shown.cells]
  flags := memory.flags_setFlags _
  program := by
    intro position above below
    rw [memory.wordAt_setFlags (by rw [shown.layout]; exact below),
      shown.program position above below]

theorem setHalt (shown : memory.Shows start view) (on : Bool) :
    (memory.setHalt on).Shows start { view with halt := on } := by
  rw [Memory.setHalt, shown.flags, withFlag_halt]
  exact shown.setFlags on view.cmp

theorem setCmp (shown : memory.Shows start view) (on : Bool) :
    (memory.setCmp on).Shows start { view with cmp := on } := by
  rw [Memory.setCmp, shown.flags, withFlag_cmp]
  exact shown.setFlags view.halt on

/-- Moving the stack pointer down drops cells. -/
theorem setSp_drop (shown : memory.Shows start view) (dropped : Nat) :
    (memory.setSp (UInt64.ofNat (view.cells.length - dropped))).Shows start
      { view with cells := view.cells.drop dropped } where
  bounded := shown.bounded
  layout := shown.layout
  ip := by rw [ip_setSp, shown.ip]
  sp := by rw [sp_setSp, List.length_drop]
  fits := by
    have fits := shown.fits
    simp only [List.length_drop]
    omega
  cells := by
    rw [cellsBelow_setSp, List.length_drop, ← drop_cellsBelow, shown.cells]
  flags := by rw [flags_setSp, shown.flags]
  program := by
    intro position above below
    have aboveStack := Nat.le_trans start.layout.stackBase_le_programBase above
    rw [memory.wordAt_setSp aboveStack, shown.program position above below]

/-- Writing the cell above the top and moving the stack pointer up pushes the cell. -/
theorem setSp_push (shown : memory.Shows start view)
    (room : view.cells.length < start.layout.stackCells) (cell : Cell) :
    ((memory.putCell view.cells.length cell).setSp
        (UInt64.ofNat (view.cells.length + 1))).Shows start
      { view with cells := cell :: view.cells } where
  bounded := shown.bounded
  layout := shown.layout
  ip := by rw [ip_setSp, ip_putCell, shown.ip]
  sp := by rw [sp_setSp, List.length_cons]
  fits := room
  cells := by
    have inside : Layout.stackBase + view.cells.length < memory.layout.words := by
      rw [shown.layout]
      simp only [Layout.words, Layout.flagsWord, Layout.programBase]
      omega
    rw [cellsBelow_setSp, List.length_cons, cellsBelow,
      cellsBelow_putCell_of_le _ (Nat.le_refl _), shown.cells, putCell, wordAt_put_self inside]
  flags := by
    rw [flags_setSp, memory.flags_putCell (by rw [shown.layout]; exact room), shown.flags]
  program := by
    intro position above below
    have aboveStack := Nat.le_trans start.layout.stackBase_le_programBase above
    rw [Memory.wordAt_setSp _ aboveStack,
      memory.wordAt_putCell (by rw [shown.layout]; exact room) (by rw [shown.layout]; exact above),
      shown.program position above below]

theorem putCell (shown : memory.Shows start view) {depth : Nat}
    (live : depth < view.cells.length) (cell : Cell) :
    (memory.putCell (view.cells.length - 1 - depth) cell).Shows start
      { view with cells := view.cells.set depth cell } where
  bounded := shown.bounded
  layout := shown.layout
  ip := by rw [ip_putCell, shown.ip]
  sp := by rw [sp_putCell, List.length_set, shown.sp]
  fits := by rw [List.length_set]; exact shown.fits
  cells := by
    have fits := shown.fits
    rw [List.length_set, memory.cellsBelow_putCell live, shown.cells]
    rw [shown.layout]
    simp only [Layout.words, Layout.flagsWord, Layout.programBase]
    omega
  flags := by
    have fits := shown.fits
    rw [memory.flags_putCell (by rw [shown.layout]; omega), shown.flags]
  program := by
    intro position above below
    have fits := shown.fits
    rw [memory.wordAt_putCell (by rw [shown.layout]; omega) (by rw [shown.layout]; exact above),
      shown.program position above below]

end Shows

end Memory

end TagMachine
