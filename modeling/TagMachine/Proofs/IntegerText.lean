import TagMachine.Proofs.Arithmetic
import TagMachine.Proofs.LeadingNumber
import TagMachine.Proofs.Performing

/-!
# Integers as text

An integer is turned into its decimal numeral, which has at most nineteen digits, and the numeral is
read back without coming to the bounds of 64 bits.  Both instructions work in the place of the cell on
top: the first puts the name of a new string there, and the second takes that string out of the heap
again.  So the two leave everything as it was, but that one more id has been given out.
-/

namespace TagMachine

/-! ## Decimal numerals -/

namespace Numeral

/-- The text is the decimal numeral of the number, without leading zeros. -/
structure PlainNumeral (text : Bytes) (number : Nat) : Prop where
  isRow : ∀ byte ∈ text, 48 ≤ byte ∧ byte ≤ 57
  value : decimalValue text = number
  present : text ≠ []
  plain : text.head? = some 48 → text = [48]

/-- The text into which an integer is turned. -/
def decimalText (number : Nat) : Bytes :=
  Bytes.ofText (String.ofList (decimal number))

theorem utf8EncodeChar_digitChar {digit : Nat} (small : digit < 10) :
    String.utf8EncodeChar (Nat.digitChar digit) = [UInt8.ofNat (48 + digit)] := by
  revert digit
  decide

theorem toNat_digitByte {digit : Nat} (small : digit < 10) :
    (UInt8.ofNat (48 + digit)).toNat = 48 + digit := by
  rw [UInt8.toNat_ofNat']
  omega

theorem digitByte_isDigit {digit : Nat} (small : digit < 10) :
    48 ≤ UInt8.ofNat (48 + digit) ∧ UInt8.ofNat (48 + digit) ≤ 57 := by
  rw [UInt8.le_iff_toNat_le, UInt8.le_iff_toNat_le, toNat_digitByte small]
  simp only [UInt8.reduceToNat]
  omega

theorem decimalText_of_lt {number : Nat} (small : number < 10) :
    decimalText number = [UInt8.ofNat (48 + number)] := by
  rw [decimalText, decimal, text, digits, if_pos (Or.inr small), Bytes.ofText, String.toList_ofList,
    List.map_singleton, List.flatMap_singleton, utf8EncodeChar_digitChar small]

/-- The last digit comes after the numeral of the tenth. -/
theorem decimalText_of_le {number : Nat} (large : 10 ≤ number) :
    decimalText number = decimalText (number / 10) ++ [UInt8.ofNat (48 + number % 10)] := by
  have last : number % 10 < 10 := Nat.mod_lt number (by decide)
  rw [decimalText, decimal, text, digits, if_neg (by omega), Bytes.ofText, String.toList_ofList,
    List.map_append, List.flatMap_append, List.map_singleton, List.flatMap_singleton,
    utf8EncodeChar_digitChar last]
  rw [decimalText, Bytes.ofText, String.toList_ofList, decimal, text]

theorem plainNumeral_decimalText (number : Nat) :
    PlainNumeral (decimalText number) number := by
  induction number using digits.induct 10 with
  | case1 number small =>
      have digit : number < 10 := by omega
      rw [decimalText_of_lt digit]
      refine ⟨fun byte member => ?_, ?_, List.cons_ne_nil _ _, fun zero => ?_⟩
      · rw [List.mem_singleton] at member
        exact member ▸ digitByte_isDigit digit
      · have none : decimalValue [] = 0 := rfl
        rw [← List.nil_append [_], decimalValue_concat, none, toNat_digitByte digit]
        omega
      · rw [Option.some.inj zero]
  | case2 number notSmall earlier =>
      have large : 10 ≤ number := by omega
      have last : number % 10 < 10 := Nat.mod_lt number (by decide)
      rw [decimalText_of_le large]
      refine ⟨fun byte member => ?_, ?_, List.concat_ne_nil _ _, fun zero => ?_⟩
      · rcases List.mem_append.mp member with before | here
        · exact earlier.isRow byte before
        · rw [List.mem_singleton] at here
          exact here ▸ digitByte_isDigit last
      · rw [decimalValue_concat, earlier.value, toNat_digitByte last]
        omega
      · rw [List.head?_append_of_ne_nil _ earlier.present] at zero
        have value := earlier.value
        rw [earlier.plain zero] at value
        have none : number / 10 = 0 := value.symm
        omega

theorem length_decimalText_le {count number : Nat} (positive : 0 < count)
    (small : number < 10 ^ count) :
    (decimalText number).length ≤ count := by
  induction count generalizing number with
  | zero => omega
  | succ count inductionHypothesis =>
      by_cases digit : number < 10
      · rw [decimalText_of_lt digit]
        exact positive
      · have large : 10 ≤ number := by omega
        rw [Nat.pow_succ] at small
        have more : 0 < count := by
          by_contra none
          rw [Nat.eq_zero_of_not_pos none] at small
          omega
        rw [decimalText_of_le large, List.length_append, List.length_singleton]
        exact Nat.succ_le_succ (inductionHypothesis more (by omega))

/-- A numeral of 63 bits is read as its number. -/
theorem PlainNumeral.readLong_eq {text : Bytes} {number : Nat} (numeral : PlainNumeral text number)
    (small : number < 2 ^ 63) :
    readLong text = number := by
  have noBlanks : ∀ byte ∈ ([] : Bytes), byte ∈ [32, 9, 10, 13, 11, 12] := by simp
  have denotes : NumberText text (signed false (decimalValue text)) :=
    .parts noBlanks .none numeral.isRow
  rw [denotes.readLong_eq, numeral.value]
  simp only [clamp, signed, Bool.false_eq_true, if_false]
  omega

end Numeral

/-! ## In the place of the cell on top -/

namespace Stack

open Memory (cellAddress)

variable {memory : Memory}

theorem toNat_cellAddress_ne_ipWord (tidy : memory.Tidy) (live : 0 < memory.sp) :
    (cellAddress (index memory 0)).toNat ≠ Layout.ipWord := by
  have address := toNat_cellAddress_index tidy live
  rw [UInt64.lt_iff_toNat_lt, UInt64.toNat_zero] at live
  simp only [Layout.stackBase, Layout.ipWord, UInt64.toNat_zero] at address ⊢
  omega

theorem toNat_cellAddress_ne_spWord (live : 0 < memory.sp) :
    (cellAddress (index memory 0)).toNat ≠ Layout.spWord :=
  toNat_cellAddress_index_ne (UInt64.ne_of_lt live).symm

theorem putTop_putTop (live : 0 < memory.sp) (first second : UInt64) :
    putTop (putTop memory first) second = putTop memory second := by
  rw [putTop, index_putTop live, putTop, Memory.put_put, putTop]

theorem setIp_putTop (tidy : memory.Tidy) (live : 0 < memory.sp) (word ip : UInt64) :
    (putTop memory word).setIp ip = putTop (memory.setIp ip) word := by
  have place : index (memory.setIp ip) 0 = index memory 0 := by
    rw [index, index, Memory.sp_setIp]
  rw [putTop, putTop, place]
  exact Memory.put_comm _ (toNat_cellAddress_ne_ipWord tidy live) _ _

/-- A cell that is put back when another has been in its place is as it was. -/
theorem putTop_restored (tidy : memory.Tidy) (live : 0 < memory.sp) (word ip : UInt64) :
    putTop ((putTop memory word).setIp ip) (cellBelow memory 0).word = memory.setIp ip := by
  have stillLive : 0 < (memory.setIp ip).sp := by
    rw [Memory.sp_setIp]
    exact live
  rw [setIp_putTop tidy live, putTop_putTop stillLive, ← cellBelow_setIp tidy live ip]
  exact Memory.put_wordAt _ _

theorem ip_putTop (tidy : memory.Tidy) (live : 0 < memory.sp) (word : UInt64) :
    (putTop memory word).ip = memory.ip :=
  Memory.wordAt_put_of_ne _ (toNat_cellAddress_ne_ipWord tidy live).symm _

theorem tidy_putTop (tidy : memory.Tidy) (live : 0 < memory.sp) (word : UInt64) :
    (putTop memory word).Tidy := by
  refine ⟨tidy.bounded, ?_⟩
  rw [sp_putTop live]
  exact tidy.fits

/-- A cell that is pushed where one has been popped takes its place. -/
theorem push_lowered (tidy : memory.Tidy) (live : 0 < memory.sp) (cell : Cell) :
    push cell (memory.setSp (memory.sp - 1)) = .ok () (putTop memory cell.word) := by
  have below : memory.sp - 0 - 1 = memory.sp - 1 := by rw [UInt64.sub_zero]
  have inside : (memory.setSp (memory.sp - 1)).InBlock
      (cellAddress (memory.setSp (memory.sp - 1)).sp) := by
    have inBlock := inBlock_of_live tidy live
    rw [index, below] at inBlock
    rw [Memory.sp_setSp]
    exact inBlock
  have raised : memory.sp - 1 + 1 = memory.sp := by grind
  have apart := toNat_cellAddress_ne_spWord live
  have top : (cellAddress (memory.sp - 1)).toNat = (cellAddress (index memory 0)).toNat := by
    rw [index, below]
  have restored : (putTop memory cell.word).setSp memory.sp = putTop memory cell.word := by
    have same := Memory.setSp_self (putTop memory cell.word)
    rwa [sp_putTop live] at same
  rw [push_of_inBlock inside, Memory.sp_setSp, raised, top, Memory.setSp, Memory.setSp,
    Memory.put_comm _ apart.symm, Memory.put_put]
  exact congrArg (EStateM.Result.ok ()) restored

theorem pop_of_live (tidy : memory.Tidy) (live : 0 < memory.sp) :
    pop memory = .ok (cellBelow memory 0) (memory.setSp (memory.sp - 1)) := by
  have inside := inBlock_of_live tidy live
  rw [index, UInt64.sub_zero] at inside
  rw [pop_of_inBlock (UInt64.ne_of_lt live).symm inside, cellBelow, index, UInt64.sub_zero]

end Stack

/-! ## Strings that come and go -/

/-- A string that is taken out as soon as it was taken in has used up an id. -/
theorem Heap.Sound.take_of_alloc {heap next : Heap} {string : Bytes} {id : UInt64}
    (sound : heap.Sound) (allocated : heap.alloc string = .ok (id, next)) :
    next.take id = .ok (string, { heap with nextId := heap.nextId + 1 }) := by
  have found : next.find? id = some string := by
    rw [find?_of_alloc allocated, if_pos rfl]
  rw [alloc_eq] at allocated
  split at allocated
  · cases allocated
  · simp only [Except.ok.injEq, Prod.mk.injEq] at allocated
    rcases allocated with ⟨rfl, rfl⟩
    have others : heap.strings.filter (·.1 != heap.nextId) = heap.strings := by
      refine List.filter_eq_self.mpr fun entry member => ?_
      rw [bne_iff_ne]
      intro same
      exact sound.nextId_not_mem (same ▸ List.mem_map_of_mem member)
    simp only [Heap.take, found, List.filter_cons, bne_self_eq_false, Bool.false_eq_true, if_false,
      others]

namespace Action

open Stack

variable {state : State} {heap : Heap} {id : UInt64}

/-- The numeral of the integer on top is taken in and takes its place. -/
theorem intToString_eq (tidy : state.memory.Tidy) (ints : HasInts state.memory 1)
    (allocated : state.heap.alloc
      (Numeral.decimalText (cellBelow state.memory 0).word.toNat) = .ok (id, heap)) :
    intToString state =
      .ok () { state with memory := putTop state.memory (Cell.ofString id).word, heap } := by
  have live : 0 < state.memory.sp := UInt64.lt_of_lt_of_le (by decide) ints.live
  have small := ints.small 0 (by decide)
  have short : ¬maxNumeralLength ≤
      (Numeral.decimalText (cellBelow state.memory 0).word.toNat).length := by
    have length : (Numeral.decimalText (cellBelow state.memory 0).word.toNat).length ≤ 19 :=
      Numeral.length_decimalText_le (by decide) (Nat.lt_trans small (by decide))
    rw [maxNumeralLength]
    omega
  have taken : allocString (Numeral.decimalText (cellBelow state.memory 0).word.toNat)
      (state.lowered 1) = .ok id { state.lowered 1 with heap } := allocString_of_ok allocated
  rw [intToString, bind_of_ok (onMemory_of_ok (ints.requireInts_eq tidy)),
    bind_of_ok (onMemory_of_ok (pop_of_live tidy live))]
  change (if maxNumeralLength ≤ (Numeral.decimalText _).length then _ else _ : Action Unit)
    (state.lowered 1) = _
  rw [if_neg short]
  change pushString (Numeral.decimalText _) (state.lowered 1) = _
  rw [pushString, bind_of_ok taken]
  exact onMemory_of_ok (push_lowered tidy live _)

/-- The number at the start of the string on top takes its place, if it is an integer of 63 bits. -/
theorem stringToInt_eq {string : Bytes} {word : UInt64} (tidy : state.memory.Tidy)
    (live : 0 < state.memory.sp) (value : (cellBelow state.memory 0).value = .string id)
    (taken : state.heap.take id = .ok (string, heap))
    (read : UInt64.ofInt (Numeral.readLong string) = word) (small : word.toNat < 2 ^ 63) :
    stringToInt state = .ok () { state with memory := putTop state.memory word, heap } := by
  have enough : (1 : UInt64) ≤ state.memory.sp := by
    rw [UInt64.lt_iff_toNat_lt] at live
    rw [UInt64.le_iff_toNat_le]
    exact live
  have inside := inBlock_of_live tidy live
  rw [index, UInt64.sub_zero] at inside
  rw [cellBelow, index, UInt64.sub_zero] at value
  have popped := popString_of_take (UInt64.ne_of_lt live).symm inside value taken
  have checked : requireInts 1 (putTop state.memory word) = .ok () (putTop state.memory word) := by
    refine HasInts.requireInts_eq ⟨?_, fun depth top => ?_⟩ (tidy_putTop tidy live word)
    · rw [sp_putTop live]
      exact enough
    · obtain rfl : depth = 0 := by grind
      rw [cellBelow_putTop tidy live]
      exact small
  rw [stringToInt, bind_of_ok (onMemory_of_ok (require_of_le enough)), bind_of_ok popped, read]
  rw [bind_of_ok (onMemory_of_ok (push_lowered tidy live ⟨word⟩))]
  exact onMemory_of_ok checked

end Action

namespace State

open Stack

variable {config : Config} {state : State} {heap : Heap} {id : UInt64}

theorem perform_itostr (config : Config) (tidy : state.memory.Tidy) (ints : HasInts state.memory 1)
    (allocated : state.heap.alloc
      (Numeral.decimalText (cellBelow state.memory 0).word.toNat) = .ok (id, heap)) :
    perform config .itostr state =
      .ok () { state with
        memory := putTop state.passed.memory (Cell.ofString id).word
        heap } := by
  have live : 0 < state.memory.sp := UInt64.lt_of_lt_of_le (by decide) ints.live
  rw [← cellBelow_passed tidy live] at allocated
  exact Action.intToString_eq (tidy_passed tidy) (hasInts_passed tidy ints) allocated

theorem perform_strtoi {string : Bytes} {word : UInt64} (config : Config)
    (tidy : state.memory.Tidy) (live : 0 < state.memory.sp)
    (value : (cellBelow state.memory 0).value = .string id)
    (taken : state.heap.take id = .ok (string, heap))
    (read : UInt64.ofInt (Numeral.readLong string) = word) (small : word.toNat < 2 ^ 63) :
    perform config .strtoi state =
      .ok () { state with memory := putTop state.passed.memory word, heap } := by
  have stillLive : 0 < state.passed.memory.sp := by
    rw [sp_passed]
    exact live
  rw [← cellBelow_passed tidy live] at value
  exact Action.stringToInt_eq (tidy_passed tidy) stillLive value taken read small

end State

namespace Machine

open Stack

variable {config : Config} {machine : Machine} {world : World} {count : Nat} {state : State}

/-- In every state of a hardened run with an integer on top, room for a string and an id left, the
integer is turned into its decimal numeral, and turning that back leaves the integer on top, every
other word and every string as they were. -/
theorem integer_text_round_trip (hardened : config.swapCheck = .hardened)
    (ready : machine.Ready config)
    (reached : (State.runner config).after count (machine.inWorld world) = some state)
    (ints : HasInts state.memory 1) (room : state.heap.live < config.maxLiveStrings)
    (idsLeft : state.heap.nextId.toNat < 2 ^ 63) :
    ∃ between after text,
      State.perform config .itostr state = .ok () between ∧
        (cellBelow between.memory 0).value = .string state.heap.nextId ∧
        between.heap.find? state.heap.nextId = some text ∧
        Numeral.PlainNumeral text (cellBelow state.memory 0).word.toNat ∧
        State.perform config .strtoi between = .ok () after ∧
        after = { state with
          memory := state.memory.setIp (state.memory.ip + 1 + 1)
          heap := { state.heap with nextId := state.heap.nextId + 1 } } ∧
        (State.opcodesFrom config 2 state = [.itostr, .strtoi] →
          (State.runner config).after 2 state = some after) := by
  have tidyState := (ready.fresh.tidy world).after hardened reached
  have tidy := State.tidy_passed tidyState.memory
  have liveState : 0 < state.memory.sp := UInt64.lt_of_lt_of_le (by decide) ints.live
  have live : 0 < state.passed.memory.sp := by
    rw [State.sp_passed]
    exact liveState
  let number := (cellBelow state.memory 0).word.toNat
  have small : number < 2 ^ 63 := ints.small 0 (by decide)
  have numeral := Numeral.plainNumeral_decimalText number
  rcases Heap.exists_alloc (by rwa [ready.maxLive_after reached]) idsLeft
    (Numeral.decimalText number) with ⟨heap, allocated, -⟩
  have written := State.perform_itostr config tidyState.memory ints allocated
  let between : State := { state with
    memory := putTop state.passed.memory (Cell.ofString state.heap.nextId).word, heap }
  have named : (cellBelow between.memory 0).value = .string state.heap.nextId := by
    rw [cellBelow_putTop tidy live]
    exact Cell.value_ofString idsLeft
  have read : UInt64.ofInt (Numeral.readLong (Numeral.decimalText number)) =
      (cellBelow state.memory 0).word := by
    have computed := Computes.ofInt (number : Int)
    rw [Computes] at computed
    rw [numeral.readLong_eq small]
    apply UInt64.toNat_inj.mp
    omega
  have betweenTidy : between.memory.Tidy := tidy_putTop tidy live _
  have back := State.perform_strtoi config betweenTidy (by rw [sp_putTop live]; exact live) named
    (tidyState.heap.take_of_alloc allocated) read small
  have restored : putTop between.passed.memory (cellBelow state.memory 0).word =
      state.memory.setIp (state.memory.ip + 1 + 1) := by
    have ip : between.memory.ip = state.memory.ip + 1 :=
      (ip_putTop tidy live _).trans (state.memory.ip_setIp _)
    rw [State.passed, ip, ← State.cellBelow_passed tidyState.memory liveState]
    exact (putTop_restored tidy live _ _).trans (Memory.put_put _ _ _ _)
  rw [restored] at back
  refine ⟨between, _, _, written, named, ?_, numeral, back, rfl, fun fetched => ?_⟩
  · rw [Heap.find?_of_alloc allocated, if_pos rfl]
  · have both : State.performAll config [.itostr, .strtoi] state = _ :=
      (State.performAll_cons written).trans (State.performAll_cons back)
    exact State.after_of_performAll both fetched

/-- The largest integer is turned into text and back. -/
theorem integer_text_round_trip_largest :
    let config : Config := { swapCheck := .hardened, stackCapacity := 1, programCapacity := 16 }
    let machine := loaded config ⟨[1, 255, 255, 255, 255, 255, 255, 255, 127, 9, 27]⟩
    let world : World := ⟨Input.ofBytes [], Output.unbounded, FileSystem.fresh⟩
    config.swapCheck = .hardened ∧ machine.Ready config ∧
      ∃ state, (State.runner config).after 1 (machine.inWorld world) = some state ∧
        HasInts state.memory 1 ∧ state.heap.live < config.maxLiveStrings ∧
        state.heap.nextId.toNat < 2 ^ 63 ∧
        ∃ between after text,
          State.perform config .itostr state = .ok () between ∧
            between.heap.find? 1 = some text ∧ Numeral.PlainNumeral text (2 ^ 63 - 1) ∧
            (State.runner config).after 2 state = some after ∧
            (cellBelow after.memory 0).word.toNat = 2 ^ 63 - 1 := by
  intro config machine world
  have ready : machine.Ready config := ready_loaded rfl (by decide)
  have known : ((State.runner config).after 1 (machine.inWorld world)).map (fun state =>
      (state.memory.sp, (cellBelow state.memory 0).word.toNat, state.heap,
        State.opcodesFrom config 2 state)) =
        some (1, 2 ^ 63 - 1, Heap.empty config.maxLiveStrings, [.itostr, .strtoi]) := by
    decide +kernel
  rcases Option.map_eq_some_iff.mp known with ⟨state, reached, same⟩
  simp only [Prod.mk.injEq] at same
  rcases same with ⟨sp, top, heap, fetched⟩
  have ints : HasInts state.memory 1 := by
    refine ⟨sp ▸ UInt64.le_refl 1, fun depth inside => ?_⟩
    obtain rfl : depth = 0 := by grind
    rw [top]
    decide
  have room : state.heap.live < config.maxLiveStrings := by
    rw [heap]
    decide
  have idsLeft : state.heap.nextId.toNat < 2 ^ 63 := by
    rw [heap]
    decide
  rcases integer_text_round_trip rfl ready reached ints room idsLeft with
    ⟨between, after, text, written, -, found, numeral, -, unchanged, ran⟩
  rw [heap] at found
  rw [top] at numeral
  refine ⟨rfl, ready, state, reached, ints, room, idsLeft, between, after, text, written, found,
    numeral, ran fetched, ?_⟩
  rw [unchanged, cellBelow_setIp (ready.tidy_after rfl reached) (sp ▸ by decide), top]

end Machine

end TagMachine
