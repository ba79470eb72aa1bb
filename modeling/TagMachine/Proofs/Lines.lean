import TagMachine.Proofs.Arithmetic
import TagMachine.Proofs.Performing
import TagMachine.Proofs.Session.Reading

/-!
# Lines on the stack

An instruction reads one line of the input, up to its limit, and takes no byte of the next.  What
comes before the first zero byte is the text, and a text of one byte or none is no line: the
instruction fails, and only the input and the instruction pointer have moved.  Any other text is
pushed as a new string, without its newline.  So lines that fit are pushed one after another as they
stand in the input.
-/

namespace TagMachine

open Bytes (firstLine newline)

/-! ## A new cell on top -/

namespace Stack

/-- The memory with another live cell. -/
def pushed (memory : Memory) (cell : Cell) : Memory :=
  (memory.putCell memory.sp.toNat cell).setSp (memory.sp + 1)

theorem liveCells_setIp (memory : Memory) (ip : UInt64) :
    (memory.setIp ip).liveCells = memory.liveCells := by
  rw [Memory.liveCells, Memory.sp_setIp, Memory.cellsBelow_setIp, Memory.liveCells]

section Free

variable {memory : Memory} (free : memory.sp.toNat < memory.layout.stackCells)

include free

theorem requireFree_of_lt : requireFree memory = .ok () memory := by
  rw [requireFree, get_bind, if_neg (Nat.ne_of_lt free)]
  rfl

variable (tidy : memory.Tidy)

include tidy

theorem push_of_lt (cell : Cell) : push cell memory = .ok () (pushed memory cell) := by
  have stored := Memory.storeCell_of_lt tidy.bounded free cell
  rw [UInt64.ofNat_toNat] at stored
  rw [push, get_bind, bind_of_ok stored]
  rfl

theorem toNat_sp_pushed (cell : Cell) :
    (pushed memory cell).sp.toNat = memory.sp.toNat + 1 := by
  have stackLe := tidy.bounded.stack_le
  simp only [Config.maxStackCapacity] at stackLe
  rw [pushed, Memory.sp_setSp, UInt64.toNat_add, UInt64.toNat_one]
  omega

theorem tidy_pushed (cell : Cell) : (pushed memory cell).Tidy where
  bounded := tidy.bounded
  fits := by
    rw [toNat_sp_pushed free tidy]
    exact free

theorem liveCells_pushed (cell : Cell) :
    (pushed memory cell).liveCells = cell :: memory.liveCells := by
  have inside := (Memory.cellAddress_of_lt free).2
  rw [Memory.liveCells, toNat_sp_pushed free tidy, pushed, Memory.cellsBelow_setSp,
    Memory.cellsBelow, memory.cellsBelow_putCell_of_le (Nat.le_refl _), Memory.putCell,
    Memory.wordAt_put_self inside]
  rfl

end Free

end Stack

/-! ## Strings that are named -/

namespace Heap

/-- The living string that a cell names. -/
def textOf? (heap : Heap) (cell : Cell) : Option Bytes :=
  match cell.value with
  | .string id => heap.find? id
  | .int _ => none

/-- Every string of the first heap lives in the second. -/
def Within (before after : Heap) : Prop :=
  ∀ id string, before.find? id = some string → after.find? id = some string

variable {heap : Heap}

theorem find?_added (heap : Heap) (string : Bytes) :
    (heap.added string).find? heap.nextId = some string :=
  List.lookup_cons_self

theorem Sound.within_added (sound : heap.Sound) (string : Bytes) :
    heap.Within (heap.added string) := by
  intro id other found
  have old : id ≠ heap.nextId := by
    rintro rfl
    rw [sound.find?_eq_none (Nat.le_refl _)] at found
    cases found
  rw [find?, added, List.lookup_cons, beq_eq_false_iff_ne.mpr old]
  exact found

theorem textOf?_ofString {id : UInt64} (small : id.toNat < tagBit.toNat) :
    heap.textOf? (Cell.ofString id) = heap.find? id := by
  rw [textOf?, Cell.value_ofString small]

end Heap

/-! ## A text without its newline -/

theorem Action.withoutNewline_cases (text : Bytes) :
    text = withoutNewline text ++ [newline] ∨
      withoutNewline text = text ∧ text.getLast? ≠ some newline := by
  by_cases ends : text.getLast? = some newline
  · rw [withoutNewline, if_pos ends]
    exact Or.inl (List.dropLast_append_getLast? _ ends).symm
  · rw [withoutNewline, if_neg ends]
    exact Or.inr ⟨rfl, ends⟩

theorem Action.withoutNewline_concat (line : Bytes) : withoutNewline (line ++ [newline]) = line := by
  rw [withoutNewline, if_pos List.getLast?_concat, List.dropLast_concat]

/-- The line is not empty, has no zero byte and no newline, and fits into the buffer with its newline. -/
structure Bytes.FitsLine (maxLineLength : Nat) (line : Bytes) : Prop where
  present : line ≠ []
  zeroFree : (0 : UInt8) ∉ line
  single : newline ∉ line
  short : line.length + 2 ≤ maxLineLength

namespace State

open Stack

/-! ## One line -/

/-- There is room for so many more cells and strings. -/
structure HasRoom (count : Nat) (state : State) : Prop where
  tidy : state.Tidy
  cells : state.memory.sp.toNat + count ≤ state.memory.layout.stackCells
  strings : state.heap.live + count ≤ state.heap.maxLive
  ids : state.heap.nextId.toNat + count ≤ 2 ^ 63

/-- The state with the byte of the instruction passed, with what is left of the input, and with a new
string, whose name is pushed. -/
def pushing (state : State) (left : Input) (string : Bytes) : State :=
  { state with
    input := left
    memory := Stack.pushed state.passed.memory (Cell.ofString state.heap.nextId)
    heap := state.heap.added string }

variable {config : Config} {state : State} {left : Input} {line string : Bytes} {count : Nat}

theorem HasRoom.free (room : state.HasRoom (count + 1)) :
    state.passed.memory.sp.toNat < state.passed.memory.layout.stackCells := by
  have cells := room.cells
  rw [sp_passed]
  change _ < state.memory.layout.stackCells
  omega

theorem HasRoom.idsLeft (room : state.HasRoom (count + 1)) :
    state.heap.nextId.toNat < tagBit.toNat := by
  have ids := room.ids
  rw [Cell.toNat_tagBit]
  omega

/-- A string can be taken into the heap. -/
theorem HasRoom.alloc_eq (room : state.HasRoom (count + 1)) (string : Bytes) :
    state.heap.alloc string = .ok (state.heap.nextId, state.heap.added string) := by
  have strings := room.strings
  exact Heap.alloc_of_room (by omega) room.idsLeft string

/-- A line has been read, and now its text is looked at. -/
theorem perform_reads_eq (room : state.HasRoom (count + 1))
    (read : Input.readLine (config.maxLineLength - 1) state.input = .ok line left) :
    perform config .reads state =
      if line.untilZero.length ≤ 1 then
        .error (.malformed .emptyLine) { state.passed with input := left }
      else .ok () (state.pushing left (Action.withoutNewline line.untilZero)) := by
  have lineRead : Action.onInput (Input.readLine (config.maxLineLength - 1)) state.passed =
      .ok line { state.passed with input := left } := by
    rw [Component.on_input]
    exact Component.on_of_ok read
  have written := push_of_lt room.free (tidy_passed room.tidy.memory)
    (Cell.ofString state.heap.nextId)
  change Action.pushLine config.maxLineLength state.passed = _
  rw [Action.pushLine, bind_of_ok (Action.onMemory_of_ok (requireFree_of_lt room.free)),
    bind_of_ok lineRead]
  by_cases short : line.untilZero.length ≤ 1
  · simp only [if_pos short]
    rfl
  · have taken : Action.allocString (Action.withoutNewline line.untilZero)
        { state.passed with input := left } =
          .ok state.heap.nextId { state.passed with
            input := left
            heap := state.heap.added (Action.withoutNewline line.untilZero) } :=
      Action.allocString_of_ok (room.alloc_eq _)
    simp only [if_neg short]
    rw [Action.pushString, bind_of_ok taken]
    exact Action.onMemory_of_ok written

theorem liveCells_pushing (room : state.HasRoom (count + 1)) :
    (state.pushing left string).memory.liveCells =
      Cell.ofString state.heap.nextId :: state.memory.liveCells := by
  have pushed := liveCells_pushed room.free (tidy_passed room.tidy.memory)
    (Cell.ofString state.heap.nextId)
  rw [passed, liveCells_setIp] at pushed
  exact pushed

theorem HasRoom.pushing (room : state.HasRoom (count + 1)) (left : Input) (string : Bytes) :
    (state.pushing left string).HasRoom count := by
  have tidy := tidy_passed room.tidy.memory
  have cells := room.cells
  have strings := room.strings
  have ids := room.ids
  have grown := room.tidy.heap.alloc (room.alloc_eq string)
  refine ⟨⟨tidy_pushed room.free tidy _, grown.1⟩, ?_, ?_, ?_⟩
  · have raised := toNat_sp_pushed room.free tidy (Cell.ofString state.heap.nextId)
    rw [sp_passed] at raised
    change (Stack.pushed _ _).sp.toNat + count ≤ state.memory.layout.stackCells
    omega
  · change state.heap.live + 1 + count ≤ state.heap.maxLive
    omega
  · change (state.heap.added string).nextId.toNat + count ≤ _
    omega

/-! ## Lines in a row -/

theorem firstLine_of_fitsLine {maxLineLength : Nat} (fits : line.FitsLine maxLineLength)
    (more : Bytes) :
    (firstLine (line ++ newline :: more)).take (maxLineLength - 1) = line ++ [newline] ∧
      (line ++ [newline]).untilZero = line ++ [newline] ∧ 1 < (line ++ [newline]).length := by
  have short := fits.short
  have present := List.length_pos_of_ne_nil fits.present
  refine ⟨?_, ?_, ?_⟩
  · rw [Bytes.firstLine_append_newline fits.single, List.take_of_length_le]
    rw [List.length_append, List.length_singleton]
    omega
  · refine Bytes.untilZero_eq_self fun member => ?_
    rcases List.mem_append.mp member with inside | last
    · exact fits.zeroFree inside
    · rw [List.mem_singleton] at last
      exact absurd last (by decide)
  · rw [List.length_append, List.length_singleton]
    omega

/-- A line that fits is read whole and pushed without its newline. -/
theorem perform_reads_of_fitsLine (room : state.HasRoom (count + 1))
    (fits : line.FitsLine config.maxLineLength) {more : Bytes}
    (unread : state.input.unread = line ++ newline :: more) :
    ∃ left : Input, left.unread = more ∧ left.ending = state.input.ending ∧
      perform config .reads state = .ok () (state.pushing left line) := by
  rcases firstLine_of_fitsLine fits more with ⟨first, whole, long⟩
  have holds : state.input.HoldsLine (config.maxLineLength - 1) := by
    refine Or.inr (Or.inl ?_)
    rw [unread]
    exact List.mem_append_right _ List.mem_cons_self
  rcases Input.readLine_of_holdsLine holds with ⟨left, leftUnread, ending, read⟩
  rw [unread, first] at leftUnread read
  refine ⟨left, ?_, ending, ?_⟩
  · have split : line ++ newline :: more = (line ++ [newline]) ++ more := by simp
    rw [leftUnread, split, List.drop_left]
  · rw [perform_reads_eq room read, whole, if_neg (by omega), Action.withoutNewline_concat]

/-- Lines that fit are pushed one after another. -/
theorem performAll_reads {lines : List Bytes} {rest : Bytes}
    (fits : ∀ line ∈ lines, line.FitsLine config.maxLineLength)
    (room : state.HasRoom lines.length)
    (unread : state.input.unread = lines.flatMap (· ++ [newline]) ++ rest) :
    ∃ (after : State) (pushed : List Cell),
      performAll config (List.replicate lines.length .reads) state = .ok () after ∧
        after.input.unread = rest ∧ after.input.ending = state.input.ending ∧
        after.memory.liveCells = pushed.reverse ++ state.memory.liveCells ∧
        pushed.map after.heap.textOf? = lines.map some ∧ state.heap.Within after.heap := by
  induction lines generalizing state with
  | nil => exact ⟨state, [], rfl, unread, rfl, rfl, rfl, fun _ _ found => found⟩
  | cons line lines inductionHypothesis =>
      have split : state.input.unread =
          line ++ newline :: (lines.flatMap (· ++ [newline]) ++ rest) := by
        rw [unread, List.flatMap_cons]
        simp
      rcases perform_reads_of_fitsLine room (fits line List.mem_cons_self) split with
        ⟨left, leftUnread, ending, performed⟩
      rcases inductionHypothesis (fun other member => fits other (List.mem_cons_of_mem _ member))
        (room.pushing left line) leftUnread with
        ⟨after, pushed, later, unreadAfter, endingAfter, cells, named, within⟩
      refine ⟨after, Cell.ofString state.heap.nextId :: pushed, ?_, unreadAfter,
        endingAfter.trans ending, ?_, ?_, fun id string found => ?_⟩
      · rw [List.length_cons, List.replicate_succ, performAll_cons performed]
        exact later
      · rw [cells, liveCells_pushing room, List.reverse_cons, List.append_assoc,
          List.singleton_append]
      · rw [List.map_cons, List.map_cons, named, Heap.textOf?_ofString room.idsLeft,
          within _ _ (Heap.find?_added state.heap line)]
      · exact within id string (room.tidy.heap.within_added line id string found)

end State

namespace Machine

open Stack

variable {config : Config} {machine : Machine} {world : World} {count : Nat} {state : State}

theorem Ready.hasRoom (hardened : config.swapCheck = .hardened) (ready : machine.Ready config)
    (reached : (State.runner config).after count (machine.inWorld world) = some state)
    {more : Nat} (cells : state.memory.sp.toNat + more ≤ config.stackCapacity)
    (strings : state.heap.live + more ≤ config.maxLiveStrings)
    (ids : state.heap.nextId.toNat + more ≤ 2 ^ 63) (input : Input) :
    ({ state with input } : State).HasRoom more := by
  have tidy := (ready.fresh.tidy world).after hardened reached
  refine ⟨⟨tidy.memory, tidy.heap⟩, ?_, ?_, ids⟩
  · rwa [ready.stackCells_after hardened reached]
  · rwa [ready.maxLive_after reached]

/-- In every state of a hardened run with room for a cell and a string, whatever the input is, one line
is read of it and no byte of the next. A text of at most one byte is refused, with nothing changed
but the input and the instruction pointer; any other is pushed as a new string, without its newline.
So lines that fit, each with its newline, are pushed in order by as many instructions. -/
theorem reads_lines (hardened : config.swapCheck = .hardened) (ready : machine.Ready config)
    (reached : (State.runner config).after count (machine.inWorld world) = some state)
    (input : Input) :
    let start : State := { state with input }
    let line : Bytes := (firstLine input.unread).take (config.maxLineLength - 1)
    let text : Bytes := line.untilZero
    (∀ fetch, start.fetched? = some fetch →
      State.step config start = State.perform config (Opcode.running fetch.byte) start) ∧
    (input.HoldsLine (config.maxLineLength - 1) →
      state.memory.sp.toNat < config.stackCapacity → state.heap.live < config.maxLiveStrings →
      state.heap.nextId.toNat < 2 ^ 63 →
      ∃ left : Input, line ++ left.unread = input.unread ∧ left.ending = input.ending ∧
        (text.length ≤ 1 →
          State.perform config .reads start =
            .error (.malformed .emptyLine) { start.passed with input := left }) ∧
        (1 < text.length → ∃ string,
          (text = string ++ [newline] ∨ string = text ∧ text.getLast? ≠ some newline) ∧
            State.perform config .reads start = .ok () (start.pushing left string) ∧
            (start.pushing left string).memory.liveCells =
              Cell.ofString state.heap.nextId :: state.memory.liveCells ∧
            state.heap.find? state.heap.nextId = none ∧
            (start.pushing left string).heap.textOf? (Cell.ofString state.heap.nextId) =
              some string)) ∧
    ∀ (lines : List Bytes) (rest : Bytes),
      (∀ line ∈ lines, line.FitsLine config.maxLineLength) →
      state.memory.sp.toNat + lines.length ≤ config.stackCapacity →
      state.heap.live + lines.length ≤ config.maxLiveStrings →
      state.heap.nextId.toNat + lines.length ≤ 2 ^ 63 →
      input.unread = lines.flatMap (· ++ [newline]) ++ rest →
      ∃ (after : State) (pushed : List Cell),
        State.performAll config (List.replicate lines.length .reads) start = .ok () after ∧
          after.input.unread = rest ∧ after.input.ending = input.ending ∧
          after.memory.liveCells = pushed.reverse ++ state.memory.liveCells ∧
          pushed.map after.heap.textOf? = lines.map some ∧ state.heap.Within after.heap ∧
          (State.opcodesFrom config lines.length start = List.replicate lines.length .reads →
            (State.runner config).after lines.length start = some after) := by
  intro start line text
  refine ⟨fun _ => State.step_eq_perform config, ?_, ?_⟩
  · intro holds free slot idsLeft
    have room : start.HasRoom (0 + 1) := ready.hasRoom hardened reached free slot idsLeft input
    rcases Input.readLine_of_holdsLine holds with ⟨left, unread, ending, read⟩
    have performed := State.perform_reads_eq room read
    refine ⟨left, ?_, ending, fun short => ?_, fun long => ?_⟩
    · rw [unread]
      exact Bytes.append_drop_line input.unread _
    · rw [performed, if_pos short]
    · refine ⟨Action.withoutNewline text, Action.withoutNewline_cases text, ?_,
        State.liveCells_pushing room, room.tidy.heap.find?_eq_none (Nat.le_refl _), ?_⟩
      · rw [performed, if_neg (Nat.not_le.mpr long)]
      · exact (Heap.textOf?_ofString idsLeft).trans (Heap.find?_added _ _)
  · intro lines rest fits cells strings ids unread
    rcases State.performAll_reads fits (ready.hasRoom hardened reached cells strings ids input)
      unread with ⟨after, pushed, performed, unreadAfter, ending, live, named, within⟩
    refine ⟨after, pushed, performed, unreadAfter, ending, live, named, within, fun fetched => ?_⟩
    have ran := State.after_of_performAll performed
    rw [List.length_replicate] at ran
    exact ran fetched

/-- Two lines in three pieces are pushed in order, and a zero byte after the first byte of a line leaves
too short a text. -/
theorem reads_lines_two :
    let config : Config :=
      { swapCheck := .hardened, stackCapacity := 2, programCapacity := 8, maxLineLength := 4 }
    let machine := loaded config ⟨[24, 24]⟩
    let input : Input := ⟨[[97], [98, 10, 99], [10, 10]], .closed⟩
    let start := machine.inWorld ⟨input, Output.unbounded, FileSystem.fresh⟩
    config.swapCheck = .hardened ∧ machine.Ready config ∧
      (∃ after pushed, (State.runner config).after 2 start = some after ∧
        after.input.unread = [10] ∧ after.memory.liveCells = List.reverse pushed ∧
        pushed.map after.heap.textOf? = [some [97, 98], some [99]]) ∧
      ∃ left : Input, left.unread = [98, 10] ∧
        State.perform config .reads { start with input := ⟨[[97, 0], [10, 98, 10]], .closed⟩ } =
          .error (.malformed .emptyLine) { start.passed with input := left } := by
  intro config machine input start
  have ready : machine.Ready config := ready_loaded rfl (by decide)
  have reached : (State.runner config).after 0 start = some start := rfl
  have none : start.memory.liveCells = [] := by
    decide +kernel
  have fits : ∀ line ∈ [[97, 98], [99]], Bytes.FitsLine config.maxLineLength line := by
    intro line member
    rcases List.mem_pair.mp member with rfl | rfl
    · exact ⟨by decide, by decide, by decide, by decide⟩
    · exact ⟨by decide, by decide, by decide, by decide⟩
  refine ⟨rfl, ready, ?_, ?_⟩
  · rcases (reads_lines rfl ready reached input).2.2 [[97, 98], [99]] [10] fits
      (by decide) (by decide) (by decide) rfl with ⟨after, pushed, -, unread, -, cells, named, -, ran⟩
    rw [none, List.append_nil] at cells
    exact ⟨after, pushed, ran (by decide +kernel), unread, cells, named⟩
  · rcases (reads_lines rfl ready reached ⟨[[97, 0], [10, 98, 10]], .closed⟩).2.1 (Or.inl rfl)
      (by decide) (by decide) (by decide) with ⟨left, unread, -, refused, -⟩
    have parted : [97, 0, 10] ++ left.unread = [97, 0, 10] ++ [98, 10] := unread
    exact ⟨left, List.append_cancel_left parted, refused (by decide)⟩

end Machine

end TagMachine
