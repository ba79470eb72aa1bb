import TagMachine.Bytes
import TagMachine.Cell
import TagMachine.Fault
import TagMachine.Lookup

/-!
The heap of strings. A cell carries only the id of a string; ids count up from 1 and are never
given out twice, so an id that is not alive is found out and never names a newer string.
-/

namespace TagMachine

/-- The live strings by id, the next id, and the number of strings that may live. -/
structure Heap where
  strings : List (UInt64 × Bytes)
  nextId : UInt64
  maxLive : Nat
  deriving DecidableEq, Repr

namespace Heap

def empty (maxLive : Nat) : Heap :=
  ⟨[], 1, maxLive⟩

def live (heap : Heap) : Nat :=
  heap.strings.length

def find? (heap : Heap) (id : UInt64) : Option Bytes :=
  heap.strings.lookup id

/-- Takes a string in under a fresh id. -/
def alloc (heap : Heap) (string : Bytes) : Except Fault (UInt64 × Heap) :=
  if heap.maxLive ≤ heap.live ∨ tagBit ≤ heap.nextId then
    .error .allocationFailure
  else
    .ok (heap.nextId,
      { heap with
        strings := (heap.nextId, string) :: heap.strings
        nextId := heap.nextId + 1 })

def get (heap : Heap) (id : UInt64) : Except Fault Bytes :=
  match heap.find? id with
  | some string => .ok string
  | none => .error (.danglingString id)

/-- Moves a string out of the heap; its id is dead afterwards. -/
def take (heap : Heap) (id : UInt64) : Except Fault (Bytes × Heap) :=
  match heap.find? id with
  | some string =>
      .ok (string, { heap with strings := heap.strings.filter (·.1 != id) })
  | none => .error (.danglingString id)

/-! ## What lives after an operation -/

/-- A string that was taken in is found under its id, and every other id as before. -/
theorem find?_of_alloc
    {heap next : Heap} {string : Bytes} {id : UInt64}
    (allocated : heap.alloc string = .ok (id, next)) (other : UInt64) :
    next.find? other = if other = id then some string else heap.find? other := by
  unfold alloc at allocated
  split at allocated
  · contradiction
  · simp only [Except.ok.injEq, Prod.mk.injEq] at allocated
    obtain ⟨rfl, rfl⟩ := allocated
    by_cases same : other = heap.nextId
    · simp [find?, same]
    · simp [find?, List.lookup_cons, same, beq_eq_false_iff_ne.mpr same]

/-- The string that was taken out is the one that lived under the id. -/
theorem find?_eq_of_take
    {heap next : Heap} {string : Bytes} {id : UInt64}
    (taken : heap.take id = .ok (string, next)) :
    heap.find? id = some string := by
  unfold take at taken
  split at taken
  · rename_i lives
    simp only [Except.ok.injEq, Prod.mk.injEq] at taken
    rw [lives, taken.1]
  · contradiction

/-- An id whose string was taken out is dead, and every other id is as before. -/
theorem find?_of_take
    {heap next : Heap} {string : Bytes} {id : UInt64}
    (taken : heap.take id = .ok (string, next)) (other : UInt64) :
    next.find? other = if other = id then none else heap.find? other := by
  unfold take at taken
  split at taken
  · simp only [Except.ok.injEq, Prod.mk.injEq] at taken
    obtain ⟨rfl, rfl⟩ := taken
    exact Lookup.lookup_filter_ne heap.strings id other
  · contradiction

end Heap

end TagMachine
