import TagMachine.Proofs.Components
import TagMachine.Proofs.HeapCalls
import TagMachine.Proofs.Memory.Anywhere

/-!
# Instructions on two strings

Four instructions pop two cells and take the strings that they name, the top one first.  Each cell is
gone from the stack once it has been read, and each string from the heap once it has been found, so a
failure at the second cell has used up the first with its string.  Two cells that name one string are
such a failure: the string is gone when the second is reached.  A concatenation gives back one string
for two and so always finds room for it.
-/

namespace TagMachine

/-- The state with the stack pointer some cells lower. -/
def State.lowered (state : State) (count : UInt64) : State :=
  { state with memory := state.memory.setSp (state.memory.sp - count) }

namespace Action

variable {state : State} {heap : Heap} {string : Bytes} {id number : UInt64}

/-! ## Popping a string -/

section Popping

variable (live : state.memory.sp ≠ 0)
  (inside : state.memory.InBlock (Memory.cellAddress (state.memory.sp - 1)))

include live inside

theorem popString_eq :
    popString state =
      (match (state.memory.cellAt (state.memory.sp - 1)).value with
        | .string id => takeString id
        | .int _ => throw (.typeMismatch .string) : Action Bytes) (state.lowered 1) := by
  rw [popString, bind_of_ok (onMemory_of_ok (Stack.pop_of_inBlock live inside))]
  rfl

theorem popString_of_int (value : (state.memory.cellAt (state.memory.sp - 1)).value = .int number) :
    popString state = .error (.typeMismatch .string) (state.lowered 1) := by
  rw [popString_eq live inside, value]
  rfl

theorem popString_of_dead (value : (state.memory.cellAt (state.memory.sp - 1)).value = .string id)
    (dead : state.heap.find? id = none) :
    popString state = .error (.danglingString id) (state.lowered 1) := by
  rw [popString_eq live inside, value]
  change takeString id (state.lowered 1) = _
  have sameHeap : (state.lowered 1).heap = state.heap := rfl
  simp only [takeString, Heap.take, sameHeap, dead]

theorem popString_of_take (value : (state.memory.cellAt (state.memory.sp - 1)).value = .string id)
    (taken : state.heap.take id = .ok (string, heap)) :
    popString state = .ok string { state.lowered 1 with heap } := by
  rw [popString_eq live inside, value]
  change takeString id (state.lowered 1) = _
  have sameHeap : (state.lowered 1).heap = state.heap := rfl
  simp only [takeString, sameHeap, taken]

end Popping

theorem allocString_of_ok (allocated : state.heap.alloc string = .ok (id, heap)) :
    allocString string state = .ok id { state with heap } := by
  simp only [allocString, allocated]

/-! ## Popping two strings -/

/-- Pops two strings and goes on with them, the top one first. -/
def popTwo (rest : Bytes → Bytes → Action Unit) : Action Unit := do
  Stack.require 2
  let first ← popString
  let second ← popString
  rest first second

/-- What an instruction does with the two strings that it pops. -/
def afterStrings? (config : Config) : Opcode → Option (Bytes → Bytes → Action Unit)
  | .strcat => some fun first second => pushString (first ++ second)
  | .strcmp => some fun first second =>
      (modify (·.setCmp (first != second)) : Memory.Access Unit)
  | .instr => some fun hay needle =>
      (modify (·.setCmp (!Bytes.occursIn needle hay)) : Memory.Access Unit)
  | .writefile => some fun rawName content => do
      let name ← ofExcept (Sandbox.fileName config rawName)
      let _ ← onFiles (Sandbox.write config name content)
      print (Bytes.ofText "file written")
  | _ => none

theorem execute_eq_popTwo {config : Config} {opcode : Opcode} {rest : Bytes → Bytes → Action Unit}
    (found : afterStrings? config opcode = some rest) :
    opcode.execute config = popTwo rest := by
  cases opcode <;> cases found <;> rfl

section Two

variable {once : Heap} {first : Bytes} {top other : UInt64} {rest : Bytes → Bytes → Action Unit}
  (two : 2 ≤ state.memory.sp)

include two

theorem sp_ne_zero : state.memory.sp ≠ 0 := by
  intro none
  rw [none] at two
  exact absurd two (by decide)

theorem sp_sub_one_ne_zero : state.memory.sp - 1 ≠ 0 := by
  intro none
  have lone : state.memory.sp = 1 := by grind
  rw [lone] at two
  exact absurd two (by decide)

theorem cellAddress_below_ne :
    (Memory.cellAddress (state.memory.sp - 2)).toNat ≠ Layout.spWord := by
  have below : state.memory.sp - 2 = Stack.index state.memory 1 := by
    rw [Stack.index]
    grind
  have notLone : state.memory.sp ≠ 1 := fun lone => sp_sub_one_ne_zero two (by rw [lone]; decide)
  rw [below]
  exact Stack.toNat_cellAddress_index_ne notLone

/-- With the top string gone, what was the second cell is on top. -/
theorem top_of_lowered (once : Heap) :
    let between : State := { state.lowered 1 with heap := once }
    between.memory.sp ≠ 0 ∧ between.memory.sp - 1 = state.memory.sp - 2 ∧
      between.memory.cellAt (between.memory.sp - 1) = state.memory.cellAt (state.memory.sp - 2) ∧
      between.lowered 1 = { state.lowered 2 with heap := once } := by
  intro between
  have sp : between.memory.sp = state.memory.sp - 1 := state.memory.sp_setSp _
  have below : state.memory.sp - 1 - 1 = state.memory.sp - 2 := by grind
  refine ⟨?_, ?_, ?_, ?_⟩
  · rw [sp]
    exact sp_sub_one_ne_zero two
  · rw [sp, below]
  · rw [sp, below, Memory.cellAt, Memory.cellAt]
    exact congrArg Cell.mk (state.memory.wordAt_put_of_ne (cellAddress_below_ne two) _)
  · rw [State.lowered, State.lowered, sp, below]
    have memory : between.memory.setSp (state.memory.sp - 2) =
        state.memory.setSp (state.memory.sp - 2) :=
      state.memory.put_put _ _ _
    rw [memory]
    rfl

theorem popTwo_eq :
    popTwo rest state = (do
      let first ← popString
      let second ← popString
      rest first second) state := by
  have enough : Stack.require 2 state.memory = .ok () state.memory := by
    rw [Stack.require_eq, if_neg (Nat.not_lt.mpr (UInt64.le_iff_toNat_le.mp two))]
  rw [popTwo, bind_of_ok (onMemory_of_ok enough)]

theorem popTwo_of_error {fault : Fault} {last : State} (failed : popString state = .error fault last) :
    popTwo rest state = .error fault last := by
  rw [popTwo_eq two, bind_of_error failed]

section Both

variable (topInside : state.memory.InBlock (Memory.cellAddress (state.memory.sp - 1)))
  (belowInside : state.memory.InBlock (Memory.cellAddress (state.memory.sp - 2)))
  (value : (state.memory.cellAt (state.memory.sp - 1)).value = .string top)
  (taken : state.heap.take top = .ok (first, once))

include topInside value taken

/-- The string on top is taken, and the second cell is reached. -/
theorem popTwo_of_take :
    popTwo rest state =
      (popString >>= rest first) { state.lowered 1 with heap := once } := by
  rw [popTwo_eq two, bind_of_ok (popString_of_take (sp_ne_zero two) topInside value taken)]

include belowInside

theorem popTwo_of_below_int
    (belowValue : (state.memory.cellAt (state.memory.sp - 2)).value = .int number) :
    popTwo rest state =
      .error (.typeMismatch .string) { state.lowered 2 with heap := once } := by
  rcases top_of_lowered two once with ⟨live, below, cell, lowered⟩
  have failed := popString_of_int live (by rw [below]; exact belowInside)
    (by rw [cell]; exact belowValue)
  rw [popTwo_of_take two topInside value taken, bind_of_error failed, lowered]

theorem popTwo_of_below_dead
    (belowValue : (state.memory.cellAt (state.memory.sp - 2)).value = .string other)
    (dead : once.find? other = none) :
    popTwo rest state =
      .error (.danglingString other) { state.lowered 2 with heap := once } := by
  rcases top_of_lowered two once with ⟨live, below, cell, lowered⟩
  have failed := popString_of_dead live (by rw [below]; exact belowInside)
    (by rw [cell]; exact belowValue) dead
  rw [popTwo_of_take two topInside value taken, bind_of_error failed, lowered]

theorem popTwo_of_both {second : Bytes} {twice : Heap}
    (belowValue : (state.memory.cellAt (state.memory.sp - 2)).value = .string other)
    (takenTwice : once.take other = .ok (second, twice)) :
    popTwo rest state = rest first second { state.lowered 2 with heap := twice } := by
  rcases top_of_lowered two once with ⟨live, below, cell, lowered⟩
  have popped := popString_of_take live (by rw [below]; exact belowInside)
    (by rw [cell]; exact belowValue) takenTwice
  rw [popTwo_of_take two topInside value taken, bind_of_ok popped, lowered]

end Both

end Two

/-! ## What goes on with two strings -/

section After

variable {config : Config}

/-- A string that is taken in is named where the second cell was. -/
theorem pushString_lowered {next : Heap}
    (belowInside : state.memory.InBlock (Memory.cellAddress (state.memory.sp - 2)))
    (apart : (Memory.cellAddress (state.memory.sp - 2)).toNat ≠ Layout.spWord)
    (allocated : heap.alloc string = .ok (id, next)) :
    pushString string { state.lowered 2 with heap } =
      .ok () { state with
        memory := (state.memory.put (Memory.cellAddress (state.memory.sp - 2)).toNat
          (Cell.ofString id).word).setSp (state.memory.sp - 1)
        heap := next } := by
  let memory := state.memory.setSp (state.memory.sp - 2)
  have sp : memory.sp = state.memory.sp - 2 := state.memory.sp_setSp _
  have inside : memory.InBlock (Memory.cellAddress memory.sp) := by
    rw [sp]
    exact belowInside
  have pushed := Stack.push_of_inBlock inside (Cell.ofString id)
  have raised : state.memory.sp - 2 + 1 = state.memory.sp - 1 := by grind
  have moved : (memory.put (Memory.cellAddress memory.sp).toNat (Cell.ofString id).word).setSp
      (memory.sp + 1) = (state.memory.put (Memory.cellAddress (state.memory.sp - 2)).toNat
        (Cell.ofString id).word).setSp (state.memory.sp - 1) := by
    rw [sp, raised, Memory.setSp, Memory.setSp]
    exact (congrArg (Memory.put · _ _) (state.memory.put_comm apart.symm _ _)).trans
      (Memory.put_put _ _ _ _)
  have taken : allocString string { state.lowered 2 with heap } =
      .ok id { state.lowered 2 with heap := next } := allocString_of_ok allocated
  rw [moved] at pushed
  rw [pushString, bind_of_ok taken, onMemory_of_ok pushed]
  rfl

/-- All but the concatenation leave the heap and the stack pointer as they are after both strings. -/
theorem keeps_afterStrings {opcode : Opcode} {rest : Bytes → Bytes → Action Unit}
    (found : afterStrings? config opcode = some rest) (notConcat : opcode ≠ .strcat)
    (sp : UInt64) (heap : Heap) (first second : Bytes) :
    Keeps (fun state : State => state.memory.sp = sp ∧ state.heap = heap) (rest first second) := by
  have flag (on : Bool) : Keeps (fun state : State => state.memory.sp = sp ∧ state.heap = heap)
      (liftM (modify (·.setCmp on) : Memory.Access Unit) : Action Unit) := by
    rintro state _ ⟨rfl, lowered, same⟩
    exact .ok ⟨rfl, (state.memory.sp_setFlags _).trans lowered, same⟩
  cases opcode with
  | strcat => exact absurd rfl notConcat
  | strcmp =>
      obtain rfl := Option.some.inj found
      exact flag _
  | instr =>
      obtain rfl := Option.some.inj found
      exact flag _
  | writefile =>
      obtain rfl := Option.some.inj found
      refine Respects.bind (respects_ofExcept _) fun name => Respects.bind ?_ fun _ => ?_
      · rw [Component.on_files]
        exact Component.keeps_on_of_put (fun _ _ known => known) _
      · rw [print, Component.on_output]
        exact Component.keeps_on_of_put (fun _ _ known => known) _
  | _ => cases found

end After

end Action

namespace State

open TagMachine.Action Memory

variable {config : Config} {opcode : Opcode} {state : State}

theorem exists_afterStrings (config : Config)
    (takesTwo : opcode ∈ [.strcat, .strcmp, .instr, .writefile]) :
    ∃ rest, afterStrings? config opcode = some rest := by
  simp only [List.mem_cons, List.not_mem_nil, or_false] at takesTwo
  rcases takesTwo with rfl | rfl | rfl | rfl <;> exact ⟨_, rfl⟩

/-- Both strings are found and leave the heap, and what goes on with them starts without them. -/
theorem execute_of_both {rest : Bytes → Bytes → Action Unit} {id other : UInt64}
    {first second : Bytes} (after : afterStrings? config opcode = some rest)
    (two : 2 ≤ state.memory.sp)
    (topInside : state.memory.InBlock (cellAddress (state.memory.sp - 1)))
    (belowInside : state.memory.InBlock (cellAddress (state.memory.sp - 2)))
    (sound : state.heap.Sound)
    (value : (state.memory.cellAt (state.memory.sp - 1)).value = .string id)
    (found : state.heap.find? id = some first)
    (belowValue : (state.memory.cellAt (state.memory.sp - 2)).value = .string other)
    (different : other ≠ id) (belowFound : state.heap.find? other = some second) :
    ∃ twice, state.heap.Without [other, id] twice ∧
      opcode.execute config state = rest first second { state.lowered 2 with heap := twice } := by
  rcases sound.exists_take found with ⟨once, taken, soundOnce, without⟩
  have stillFound : once.find? other = some second := by
    rw [without.find?, if_neg (by simpa using different)]
    exact belowFound
  rcases soundOnce.exists_take stillFound with ⟨twice, takenTwice, _, withoutOther⟩
  refine ⟨twice, without.trans withoutOther, ?_⟩
  rw [execute_eq_popTwo after,
    popTwo_of_both two topInside belowInside value taken belowValue takenTwice]

/-- What an instruction that takes two strings has used up when it ends.  A first cell that names no
living string is gone and nothing else is.  When the second cell names none, both cells are gone and the
first string with them; a cell that names the first string again is such a cell.  Else both strings are
gone, and a concatenation always finds room for the one that it puts in their place. -/
theorem two_strings_consumed (config : Config) {maxLive : Nat} {calls : List Heap.Call}
    (takesTwo : opcode ∈ [.strcat, .strcmp, .instr, .writefile])
    (two : 2 ≤ state.memory.sp)
    (topInside : state.memory.InBlock (cellAddress (state.memory.sp - 1)))
    (belowInside : state.memory.InBlock (cellAddress (state.memory.sp - 2)))
    (built : state.heap = (Heap.empty maxLive).afterCalls calls)
    (idsLeft : ((Heap.empty maxLive).idsGiven calls).length < 2 ^ 63 - 1) :
    (∀ number, (state.memory.cellAt (state.memory.sp - 1)).value = .int number →
      opcode.execute config state = .error (.typeMismatch .string) (state.lowered 1)) ∧
    ∀ id, (state.memory.cellAt (state.memory.sp - 1)).value = .string id →
      (state.heap.find? id = none →
        opcode.execute config state = .error (.danglingString id) (state.lowered 1)) ∧
      ∀ first, state.heap.find? id = some first →
        (∃ once, state.heap.Without [id] once ∧
          (∀ number, (state.memory.cellAt (state.memory.sp - 2)).value = .int number →
            opcode.execute config state =
              .error (.typeMismatch .string) { state.lowered 2 with heap := once }) ∧
          ∀ other, (state.memory.cellAt (state.memory.sp - 2)).value = .string other →
            other = id ∨ state.heap.find? other = none →
              opcode.execute config state =
                .error (.danglingString other) { state.lowered 2 with heap := once }) ∧
        ∀ other second, (state.memory.cellAt (state.memory.sp - 2)).value = .string other →
          other ≠ id → state.heap.find? other = some second →
            ∃ twice, state.heap.Without [other, id] twice ∧
              (opcode = .strcat → ∃ joined,
                state.heap.nextId ∉ (Heap.empty maxLive).idsGiven calls ∧
                  twice.alloc (first ++ second) = .ok (state.heap.nextId, joined) ∧
                  joined.find? state.heap.nextId = some (first ++ second) ∧
                  joined.live + 1 = state.heap.live ∧
                  (Cell.ofString state.heap.nextId).value = .string state.heap.nextId ∧
                  opcode.execute config state = .ok () { state with
                    memory := (state.memory.put (cellAddress (state.memory.sp - 2)).toNat
                      (Cell.ofString state.heap.nextId).word).setSp (state.memory.sp - 1)
                    heap := joined }) ∧
              (opcode ≠ .strcat →
                (stateOf (opcode.execute config state)).heap = twice ∧
                  (stateOf (opcode.execute config state)).memory.sp = state.memory.sp - 2) := by
  have live := sp_ne_zero two
  have counted := ((Heap.counted_empty maxLive).afterCalls calls).1
  rw [← built, Nat.zero_add] at counted
  rcases exists_afterStrings config takesTwo with ⟨rest, after⟩
  have runs := execute_eq_popTwo after
  refine ⟨fun number value => ?_, fun id value => ⟨fun dead => ?_, fun first found => ⟨?_, ?_⟩⟩⟩
  · rw [runs]
    exact popTwo_of_error two (popString_of_int live topInside value)
  · rw [runs]
    exact popTwo_of_error two (popString_of_dead live topInside value dead)
  · rcases counted.sound.exists_take found with ⟨once, taken, _, without⟩
    refine ⟨once, without, fun number belowValue => ?_, fun other belowValue gone => ?_⟩
    · rw [runs]
      exact popTwo_of_below_int two topInside belowInside value taken belowValue
    · have dead : once.find? other = none := by
        rw [without.find?]
        split
        · rfl
        · next different => exact gone.resolve_left (by simpa using different)
      rw [runs]
      exact popTwo_of_below_dead two topInside belowInside value taken belowValue dead
  · intro other second belowValue different belowFound
    rcases execute_of_both after two topInside belowInside counted.sound value found belowValue
      different belowFound with ⟨twice, without, ran⟩
    refine ⟨twice, without, ?_, ?_⟩
    · rintro rfl
      obtain rfl := Option.some.inj after
      have fresh : state.heap.nextId ∉ (Heap.empty maxLive).idsGiven calls := by
        rw [built]
        exact (Heap.counted_empty maxLive).nextId_not_mem calls
      have small : state.heap.nextId.toNat < tagBit.toNat := by
        rw [counted.nextId, Cell.toNat_tagBit]
        omega
      rcases counted.exists_alloc_without without small (by simp) (first ++ second) with
        ⟨joined, allocated, foundJoined, oneLess⟩
      simp only [List.length_cons, List.length_nil] at oneLess
      refine ⟨joined, fresh, allocated, foundJoined, Nat.succ.inj oneLess, Cell.value_ofString small, ?_⟩
      rw [ran]
      exact pushString_lowered belowInside (cellAddress_below_ne two) allocated
    · intro notConcat
      let between : State := { state.lowered 2 with heap := twice }
      have lowered : between.memory.sp = state.memory.sp - 2 := state.memory.sp_setSp _
      have kept := (keeps_afterStrings after notConcat between.memory.sp twice first
        second).stateOf ⟨rfl, rfl⟩
      rw [ran, ← lowered]
      exact ⟨kept.2, kept.1⟩

/-- A heap with room for two strings holds two. They are concatenated for all that, the string on top
first. -/
theorem two_strings_consumed_full :
    let world : World := ⟨Input.ofBytes [], Output.unbounded, FileSystem.fresh⟩
    let memory := (((Memory.blank ⟨4, 16⟩).putCell 0 (Cell.ofString 1)).putCell 1
      (Cell.ofString 2)).setSp 2
    let state : State := ⟨world, memory, (Heap.empty 2).afterCalls [.alloc [97], .alloc [98]]⟩
    state.heap.live = state.heap.maxLive ∧
      ∃ after, Opcode.strcat.execute {} state = .ok () after ∧
        (after.memory.cellAt 0).value = .string 3 ∧
        after.heap.find? 3 = some [98, 97] ∧ after.heap.live = 1 := by
  intro world memory state
  have takesTwo : Opcode.strcat ∈ [.strcat, .strcmp, .instr, .writefile] := by decide
  have two : 2 ≤ state.memory.sp := by decide
  have topInside : state.memory.InBlock (cellAddress (state.memory.sp - 1)) := by decide
  have belowInside : state.memory.InBlock (cellAddress (state.memory.sp - 2)) := by decide
  have value : (state.memory.cellAt (state.memory.sp - 1)).value = .string 2 := by decide
  have belowValue : (state.memory.cellAt (state.memory.sp - 2)).value = .string 1 := by decide
  have both := ((two_strings_consumed {} takesTwo two topInside belowInside rfl (by decide)).2 2
    value).2 [98] (by decide)
  rcases both.2 1 [97] belowValue (by decide) (by decide) with ⟨twice, _, concatenated, _⟩
  rcases concatenated rfl with ⟨joined, _, _, found, live, _, ran⟩
  have named : (((state.memory.put (cellAddress (state.memory.sp - 2)).toNat
      (Cell.ofString state.heap.nextId).word).setSp (state.memory.sp - 1)).cellAt 0).value =
        .string 3 := by
    decide
  exact ⟨by decide, _, ran, named, found, Nat.succ.inj live⟩

end State

end TagMachine
