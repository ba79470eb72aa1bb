import TagMachine.Cell
import TagMachine.Memory

/-!
The stack, as a view of memory: the live cells are those below the stack pointer. Checks and moves
are separate, so that each instruction puts them in its own order, and a check that fails after a
move leaves the move in place.
-/

namespace TagMachine.Stack

open Memory (Access)

/-- At least `count` cells are live. -/
def require (count : UInt64) : Access Unit := do
  let sp := (← get).sp
  if sp < count then throw (.stackUnderflow count sp)

/-- The stack pointer does not stand exactly at the capacity. -/
def requireFree : Access Unit := do
  let memory ← get
  if memory.sp.toNat = memory.layout.stackCells then throw .stackFull

/-- The index of the cell `depth` places below the top, modulo `2 ^ 64`. -/
def index (memory : Memory) (depth : UInt64) : UInt64 :=
  memory.sp - depth - 1

def peek (depth : UInt64) : Access Cell := do
  let word ← Memory.loadCell (index (← get) depth)
  return ⟨word⟩

def poke (depth : UInt64) (cell : Cell) : Access Unit := do
  Memory.storeCell (index (← get) depth) cell.word

/-- The `count` cells from `depth` on are integers. -/
def requireIntsFrom (depth : UInt64) : (count : Nat) → Access Unit
  | 0 => return ()
  | count + 1 => do
      if (← peek depth).isString then throw (.typeMismatch .integer)
      requireIntsFrom (depth + 1) count

/-- At least `count` cells are live and the top `count` are integers. -/
def requireInts (count : UInt64) : Access Unit := do
  require count
  requireIntsFrom 0 count.toNat

/-- Writes at the stack pointer and moves it up. The capacity is not looked at. -/
def push (cell : Cell) : Access Unit := do
  let sp := (← get).sp
  Memory.storeCell sp cell.word
  modify (·.setSp (sp + 1))

def drop (count : UInt64) : Access Unit :=
  modify fun memory => memory.setSp (memory.sp - count)

/-- Moves the stack pointer down by one and reads the cell it then points at. -/
def pop : Access Cell := do
  drop 1
  let word ← Memory.loadCell (← get).sp
  return ⟨word⟩

def swap : Access Unit := do
  let top ← peek 0
  let below ← peek 1
  poke 0 below
  poke 1 top

end TagMachine.Stack
