import Mathlib.Data.List.Forall2
import TagMachine.Proofs.ValueMachine

/-!
# Ownership of strings

A cell that names a string owns it.  `Backs heap cells items` says that the cells stand for the
items, and that the strings of the heap are owned by the cells, each by one of them: the ids named
by the cells are the ids of the heap in some order.  Popping a cell gives up its string, and a
string that is taken in is owned by the cell made for it.
-/

namespace TagMachine

/-- The id of the string that a cell names. -/
def Cell.stringId? (cell : Cell) : Option UInt64 :=
  match cell.value with
  | .string id => some id
  | .int _ => none

namespace Heap

open ValueMachine (Item)

/-- The ids of the live strings. -/
def ids (heap : Heap) : List UInt64 :=
  heap.strings.map (·.1)

/-- Live ids are distinct and were given out before, and all ids fit into a cell. -/
structure Sound (heap : Heap) : Prop where
  nodup : heap.ids.Nodup
  issued : ∀ id ∈ heap.ids, id.toNat < heap.nextId.toNat
  fits : heap.nextId.toNat ≤ tagBit.toNat

theorem sound_empty (maxLive : Nat) : (Heap.empty maxLive).Sound where
  nodup := List.nodup_nil
  issued := by simp [ids, Heap.empty]
  fits := by
    change (1 : UInt64).toNat ≤ tagBit.toNat
    decide

theorem find?_isSome_iff (heap : Heap) (id : UInt64) :
    (heap.find? id).isSome = true ↔ id ∈ heap.ids := by
  simp [find?, ids]

/-! ## Taking strings in and out -/

theorem alloc_eq (heap : Heap) (string : Bytes) :
    heap.alloc string =
      if heap.maxLive ≤ heap.live ∨ tagBit ≤ heap.nextId then .error .allocationFailure
      else
        .ok (heap.nextId,
          { heap with
            strings := (heap.nextId, string) :: heap.strings
            nextId := heap.nextId + 1 }) := rfl

theorem Sound.nextId_not_mem {heap : Heap} (sound : heap.Sound) :
    heap.nextId ∉ heap.ids := by
  intro alive
  exact Nat.lt_irrefl _ (sound.issued _ alive)

theorem Sound.find?_eq_none {heap : Heap} (sound : heap.Sound) {id : UInt64}
    (unissued : heap.nextId.toNat ≤ id.toNat) :
    heap.find? id = none := by
  rw [← Option.not_isSome_iff_eq_none, find?_isSome_iff]
  exact fun alive => Nat.not_lt.mpr unissued (sound.issued id alive)

theorem Sound.toNat_nextId_add_one {heap : Heap} (idsLeft : ¬ tagBit ≤ heap.nextId) :
    (heap.nextId + 1).toNat = heap.nextId.toNat + 1 := by
  rw [UInt64.le_iff_toNat_le, Cell.toNat_tagBit] at idsLeft
  rw [UInt64.toNat_add]
  simp only [UInt64.toNat_one]
  omega

theorem Sound.alloc {heap next : Heap} {string : Bytes} {id : UInt64}
    (sound : heap.Sound) (allocated : heap.alloc string = .ok (id, next)) :
    next.Sound ∧ next.ids = id :: heap.ids ∧ id = heap.nextId ∧
      next.nextId.toNat = heap.nextId.toNat + 1 ∧ next.maxLive = heap.maxLive := by
  rw [alloc_eq] at allocated
  split at allocated
  · cases allocated
  · rename_i room
    have idsLeft := (not_or.mp room).2
    have counted := Sound.toNat_nextId_add_one idsLeft
    simp only [Except.ok.injEq, Prod.mk.injEq] at allocated
    rcases allocated with ⟨rfl, rfl⟩
    refine ⟨⟨?_, ?_, ?_⟩, rfl, rfl, counted, rfl⟩
    · exact List.nodup_cons.mpr ⟨sound.nextId_not_mem, sound.nodup⟩
    · intro other alive
      rw [counted]
      rcases List.mem_cons.mp alive with rfl | before
      · exact Nat.lt_succ_self _
      · exact Nat.lt_succ_of_lt (sound.issued other before)
    · rw [counted]
      rw [UInt64.le_iff_toNat_le] at idsLeft
      omega

theorem ids_filter (heap : Heap) (id : UInt64) :
    (heap.strings.filter (·.1 != id)).map (·.1) = heap.ids.filter (· != id) := by
  rw [ids, List.filter_map]
  rfl

/-- A string that is alive can be taken out, and its id alone is dead then. -/
theorem Sound.take {heap : Heap} {string : Bytes} {id : UInt64}
    (sound : heap.Sound) (found : heap.find? id = some string) :
    ∃ next, heap.take id = .ok (string, next) ∧ next.Sound ∧ next.ids = heap.ids.erase id ∧
      next.nextId = heap.nextId ∧ next.maxLive = heap.maxLive := by
  have remaining : (heap.strings.filter (·.1 != id)).map (·.1) = heap.ids.erase id := by
    rw [ids_filter, sound.nodup.erase_eq_filter]
  refine ⟨{ heap with strings := heap.strings.filter (·.1 != id) }, ?_, ⟨?_, ?_, sound.fits⟩,
    remaining, rfl, rfl⟩
  · simp only [Heap.take, found]
  · rw [ids, remaining]
    exact sound.nodup.erase id
  · intro other alive
    rw [ids, remaining] at alive
    exact sound.issued other (List.mem_of_mem_erase alive)

/-! ## Cells that stand for items -/

/-- The cell stands for the item. -/
inductive Holds (heap : Heap) : Cell → Item → Prop
  | int {cell : Cell} {integer : Integer} :
      cell.word.toNat = integer.number → Holds heap cell (.int integer)
  | text {cell : Cell} {id : UInt64} {text : Text} :
      cell.value = .string id → heap.find? id = some text.bytes → Holds heap cell (.text text)

/-- The cells stand for the items, and own the strings of the heap. -/
structure Backs (heap : Heap) (cells : List Cell) (items : List Item) : Prop where
  sound : heap.Sound
  holds : List.Forall₂ heap.Holds cells items
  owned : (cells.filterMap Cell.stringId?).Perm heap.ids

variable {heap : Heap} {cell : Cell} {cells : List Cell} {item : Item} {items : List Item}

theorem isString_of_int {integer : Integer} (same : cell.word.toNat = integer.number) :
    cell.isString = false := by
  have small := integer.small
  rw [← Bool.not_eq_true, Cell.isString_iff, same, Cell.toNat_tagBit]
  omega

theorem value_of_int {integer : Integer} (same : cell.word.toNat = integer.number) :
    cell.value = .int cell.word := by
  simp [Cell.value, isString_of_int same]

theorem stringId?_of_int {integer : Integer} (same : cell.word.toNat = integer.number) :
    cell.stringId? = none := by
  simp [Cell.stringId?, value_of_int same]

theorem stringId?_of_string {id : UInt64} (value : cell.value = .string id) :
    cell.stringId? = some id := by
  simp [Cell.stringId?, value]

theorem isString_of_string {id : UInt64} (value : cell.value = .string id) :
    cell.isString = true := by
  unfold Cell.value at value
  split at value
  · assumption
  · cases value

theorem Holds.isString_eq (holds : heap.Holds cell item) :
    cell.isString = item.isText := by
  cases holds with
  | int same => exact isString_of_int same
  | text value _ => exact isString_of_string value

theorem Holds.congr {next : Heap}
    (same : ∀ id, cell.stringId? = some id → next.find? id = heap.find? id)
    (holds : heap.Holds cell item) :
    next.Holds cell item := by
  cases holds with
  | int number => exact .int number
  | text value found => exact .text value ((same _ (stringId?_of_string value)).trans found)

theorem holds_congr {next : Heap}
    (same : ∀ id ∈ cells.filterMap Cell.stringId?, next.find? id = heap.find? id)
    (holds : List.Forall₂ heap.Holds cells items) :
    List.Forall₂ next.Holds cells items := by
  induction holds with
  | nil => exact .nil
  | @cons first _ others _ head _ inductionHypothesis =>
      refine .cons (head.congr fun id named => same id ?_) (inductionHypothesis fun id named =>
        same id ?_)
      · exact List.mem_filterMap.mpr ⟨first, List.mem_cons_self, named⟩
      · rcases List.mem_filterMap.mp named with ⟨owner, member, owns⟩
        exact List.mem_filterMap.mpr ⟨owner, List.mem_cons_of_mem _ member, owns⟩

namespace Backs

theorem empty (maxLive : Nat) : (Heap.empty maxLive).Backs [] [] :=
  ⟨sound_empty maxLive, .nil, .refl _⟩

theorem length_eq (backs : heap.Backs cells items) :
    cells.length = items.length := by
  have holds := backs.holds
  clear backs
  induction holds with
  | nil => rfl
  | cons _ _ inductionHypothesis => simp [inductionHypothesis]

/-- Among the top cells those that name strings stand for texts. -/
theorem any_isString (backs : heap.Backs cells items) (count : Nat) :
    (cells.take count).any Cell.isString = (items.take count).any Item.isText := by
  have holds := backs.holds
  clear backs
  induction holds generalizing count with
  | nil => simp only [List.take_nil, List.any_nil]
  | cons head _ inductionHypothesis =>
      cases count with
      | zero => rfl
      | succ count =>
          simp only [List.take_succ_cons, List.any_cons, head.isString_eq, inductionHypothesis]

theorem live_eq (backs : heap.Backs cells items) :
    heap.live = items.countP Item.isText := by
  have count : (cells.filterMap Cell.stringId?).length = items.countP Item.isText := by
    have holds := backs.holds
    clear backs
    induction holds with
    | nil => rfl
    | cons head _ inductionHypothesis =>
        cases head with
        | int number =>
            rw [List.filterMap_cons_none (stringId?_of_int number), inductionHypothesis,
              List.countP_cons_of_neg (by simp [Item.isText])]
        | text value _ =>
            rw [List.filterMap_cons_some (stringId?_of_string value), List.length_cons,
              inductionHypothesis, List.countP_cons_of_pos (by simp [Item.isText])]
  rw [← count, backs.owned.length_eq, ids, List.length_map, live]

theorem pushInt {integer : Integer} (backs : heap.Backs cells items)
    (same : cell.word.toNat = integer.number) :
    heap.Backs (cell :: cells) (.int integer :: items) := by
  refine ⟨backs.sound, .cons (.int same) backs.holds, ?_⟩
  rw [List.filterMap_cons_none (stringId?_of_int same)]
  exact backs.owned

theorem popInt {integer : Integer} (backs : heap.Backs cells (.int integer :: items)) :
    ∃ top rest, cells = top :: rest ∧ top.word.toNat = integer.number ∧
      heap.Backs rest items := by
  rcases backs with ⟨sound, holds, owned⟩
  cases holds with
  | @cons top _ rest _ head tail =>
      cases head with
      | int same =>
          rw [List.filterMap_cons_none (stringId?_of_int same)] at owned
          exact ⟨top, rest, rfl, same, sound, tail, owned⟩

theorem getInt {depth : Nat} {integer : Integer} (backs : heap.Backs cells items)
    (found : items[depth]? = some (.int integer)) :
    ∃ cell, cells[depth]? = some cell ∧ cell.word.toNat = integer.number := by
  have holds := backs.holds
  clear backs
  induction holds generalizing depth with
  | nil => simp at found
  | @cons cell _ _ _ head _ inductionHypothesis =>
      cases depth with
      | zero =>
          obtain rfl := Option.some.inj found
          cases head with
          | int same => exact ⟨cell, rfl, same⟩
      | succ depth => exact inductionHypothesis found

/-- Integers that are dropped own nothing. -/
theorem dropInts {count : Nat} (backs : heap.Backs cells items)
    (integers : (items.take count).any Item.isText = false) :
    heap.Backs (cells.drop count) (items.drop count) := by
  induction count generalizing cells items with
  | zero => exact backs
  | succ count inductionHypothesis =>
      cases items with
      | nil =>
          obtain rfl := List.length_eq_zero_iff.mp backs.length_eq
          exact backs
      | cons item items =>
          rw [List.take_succ_cons, List.any_cons, Bool.or_eq_false_iff] at integers
          cases item with
          | int integer =>
              rcases backs.popInt with ⟨top, rest, rfl, _, below⟩
              exact inductionHypothesis below integers.2
          | text text => exact absurd integers.1 (by simp [Item.isText])

/-- The cell of a text names a live string, and gives it up. -/
theorem popText {text : Text} (backs : heap.Backs cells (.text text :: items)) :
    ∃ top rest id next, cells = top :: rest ∧ top.value = .string id ∧
      heap.take id = .ok (text.bytes, next) ∧ next.Backs rest items ∧
      next.nextId = heap.nextId ∧ next.maxLive = heap.maxLive := by
  rcases backs with ⟨sound, holds, owned⟩
  cases holds with
  | @cons top _ rest _ head tail =>
      cases head with
      | @text id _ value found =>
          rcases sound.take found with ⟨next, taken, nextSound, remaining, nextId, maxLive⟩
          rw [List.filterMap_cons_some (stringId?_of_string value)] at owned
          have distinct := owned.nodup_iff.mpr sound.nodup
          have others : id ∉ rest.filterMap Cell.stringId? := (List.nodup_cons.mp distinct).1
          refine ⟨top, rest, id, next, rfl, value, taken, ⟨nextSound, ?_, ?_⟩, nextId, maxLive⟩
          · apply holds_congr _ tail
            intro other named
            rw [find?_of_take taken, if_neg]
            rintro rfl
            exact others named
          · rw [remaining]
            simpa using owned.erase id

theorem getText {text : Text} (backs : heap.Backs cells (.text text :: items)) :
    ∃ top rest id, cells = top :: rest ∧ top.value = .string id ∧
      heap.get id = .ok text.bytes := by
  rcases backs with ⟨_, holds, _⟩
  cases holds with
  | @cons top _ rest _ head _ =>
      cases head with
      | @text id _ value found =>
          exact ⟨top, rest, id, rfl, value, by simp only [Heap.get, found]⟩

/-- A string that is taken in is owned by the cell that is made for its id. -/
theorem pushText {text : Text} {id : UInt64} {next : Heap} (backs : heap.Backs cells items)
    (allocated : heap.alloc text.bytes = .ok (id, next)) :
    next.Backs (Cell.ofString id :: cells) (.text text :: items) := by
  rcases backs.sound.alloc allocated with ⟨sound, owns, fresh, _, _⟩
  have small : id.toNat < tagBit.toNat := by
    have issued := sound.issued id (by rw [owns]; exact List.mem_cons_self)
    exact Nat.lt_of_lt_of_le issued sound.fits
  have value : (Cell.ofString id).value = .string id := Cell.value_ofString small
  refine ⟨sound, .cons (.text value ?_) (holds_congr ?_ backs.holds), ?_⟩
  · rw [find?_of_alloc allocated, if_pos rfl]
  · intro other named
    rw [find?_of_alloc allocated, if_neg]
    rintro rfl
    rw [fresh] at named
    exact backs.sound.nextId_not_mem (backs.owned.mem_iff.mp named)
  · rw [List.filterMap_cons_some (stringId?_of_string value), owns]
    exact backs.owned.cons id

theorem swap {first second : Cell} {top below : Item}
    (backs : heap.Backs (first :: second :: cells) (top :: below :: items)) :
    heap.Backs (second :: first :: cells) (below :: top :: items) := by
  rcases backs with ⟨sound, holds, owned⟩
  cases holds with
  | cons head tail =>
      cases tail with
      | cons second rest =>
          refine ⟨sound, .cons second (.cons head rest), ?_⟩
          exact ((List.Perm.swap _ _ _).filterMap _).trans owned

/-- No two cells name one string, and the strings named are those alive. -/
theorem single_owner (backs : heap.Backs cells items) :
    (cells.filterMap Cell.stringId?).Nodup ∧
      (∀ id, id ∈ cells.filterMap Cell.stringId? ↔ (heap.find? id).isSome = true) ∧
      heap.live = (cells.filterMap Cell.stringId?).length := by
  refine ⟨backs.owned.nodup_iff.mpr backs.sound.nodup, ?_, ?_⟩
  · intro id
    rw [find?_isSome_iff, backs.owned.mem_iff]
  · rw [backs.owned.length_eq, ids, List.length_map, live]

end Backs

end Heap

end TagMachine
