import TagMachine.Proofs.Footprint
import TagMachine.Proofs.Operations
import TagMachine.Proofs.TwoStrings

/-!
# Arithmetic on the stack

An operation puts its result, modulo `2 ^ 64`, in the place of its operands, and looks at the top bit of
what it has written.  A sum, a difference, a successor, a predecessor or a double of integers of 63 bits
lies so close to them that this bit tells exactly whether the result is such an integer, and a quotient,
a remainder or a half always is one.  A product can lie farther off: it is caught when the top bit of its
lower 64 bits is set, and otherwise those bits pass for the product.
-/

namespace TagMachine

/-! ## The cells on top -/

namespace Memory

theorem setSp_self (memory : Memory) : memory.setSp memory.sp = memory :=
  memory.put_wordAt _

theorem Tidy.setSp_sub {memory : Memory} (tidy : memory.Tidy) {popped : UInt64}
    (live : popped ≤ memory.sp) :
    (memory.setSp (memory.sp - popped)).Tidy where
  bounded := tidy.bounded
  fits := by
    rw [sp_setSp, UInt64.toNat_sub_of_le _ _ live]
    exact Nat.le_trans (Nat.sub_le _ _) tidy.fits

theorem Tidy.setIp {memory : Memory} (tidy : memory.Tidy) (ip : UInt64) : (memory.setIp ip).Tidy where
  bounded := tidy.bounded
  fits := by
    rw [sp_setIp]
    exact tidy.fits

end Memory

namespace Stack

open Memory (cellAddress)

/-- The cell `depth` places below the top. -/
def cellBelow (memory : Memory) (depth : UInt64) : Cell :=
  memory.cellAt (index memory depth)

/-- The `count` cells on top are live and hold integers. -/
structure HasInts (memory : Memory) (count : UInt64) : Prop where
  live : count ≤ memory.sp
  small : ∀ depth < count, (cellBelow memory depth).word.toNat < 2 ^ 63

/-- The number of live cells, and the numbers in the two on top. -/
def topTwo (memory : Memory) : UInt64 × Nat × Nat :=
  (memory.sp, (cellBelow memory 0).word.toNat, (cellBelow memory 1).word.toNat)

/-- The memory with another word in the cell on top. -/
def putTop (memory : Memory) (word : UInt64) : Memory :=
  memory.put (cellAddress (index memory 0)).toNat word

variable {memory : Memory} {depth count : UInt64}

theorem isString_eq_false_iff (cell : Cell) :
    cell.isString = false ↔ cell.word.toNat < 2 ^ 63 := by
  rw [← Bool.not_eq_true, Cell.isString_iff, Cell.toNat_tagBit]
  omega

theorem hasInts_two (live : memory.sp = 2) (top : (cellBelow memory 0).word.toNat < 2 ^ 63)
    (second : (cellBelow memory 1).word.toNat < 2 ^ 63) :
    HasInts memory 2 := by
  refine ⟨live ▸ UInt64.le_refl 2, fun depth inside => ?_⟩
  have places : depth = 0 ∨ depth = 1 := by grind
  rcases places with rfl | rfl
  · exact top
  · exact second

section Live

variable (tidy : memory.Tidy) (live : depth < memory.sp)

include tidy live

theorem toNat_cellAddress_index :
    (cellAddress (index memory depth)).toNat + depth.toNat + 1 =
      Layout.stackBase + memory.sp.toNat := by
  have below := UInt64.lt_iff_toNat_lt.mp live
  have fits := tidy.fits
  have stackLe := tidy.bounded.stack_le
  simp only [Config.maxStackCapacity] at stackLe
  simp only [cellAddress, index, Layout.stackBase, UInt64.toNat_add, UInt64.toNat_sub,
    UInt64.toNat_ofNat', UInt64.toNat_one]
  omega

theorem inBlock_of_live : memory.InBlock (cellAddress (index memory depth)) := by
  have address := toNat_cellAddress_index tidy live
  have fits := tidy.fits
  simp only [Memory.InBlock, Layout.words, Layout.flagsWord, Layout.programBase]
  omega

theorem cellBelow_setIp (ip : UInt64) :
    cellBelow (memory.setIp ip) depth = cellBelow memory depth := by
  have same : index (memory.setIp ip) depth = index memory depth := by
    rw [index, index, Memory.sp_setIp]
  have above : Layout.stackBase ≤ (cellAddress (index memory depth)).toNat := by
    have address := toNat_cellAddress_index tidy live
    have below := UInt64.lt_iff_toNat_lt.mp live
    omega
  rw [cellBelow, cellBelow, same, Memory.cellAt, Memory.cellAt, Memory.wordAt_setIp _ above]

theorem peek_of_live : peek depth memory = .ok (cellBelow memory depth) memory :=
  peek_of_inBlock (inBlock_of_live tidy live)

theorem requireIntsFrom_succ (more : Nat) :
    requireIntsFrom depth (more + 1) memory =
      if (cellBelow memory depth).isString then .error (.typeMismatch .integer) memory
      else requireIntsFrom (depth + 1) more memory := by
  rw [requireIntsFrom, bind_of_ok (peek_of_live tidy live)]
  split <;> rfl

end Live

theorem require_of_le (enough : count ≤ memory.sp) : require count memory = .ok () memory := by
  rw [require_eq, if_neg (Nat.not_lt.mpr (UInt64.le_iff_toNat_le.mp enough))]

/-- Integers that are asked for are found. -/
theorem HasInts.requireInts_eq (ints : HasInts memory count) (tidy : memory.Tidy) :
    requireInts count memory = .ok () memory := by
  have onward (remaining : Nat) : ∀ depth : UInt64, depth.toNat + remaining = count.toNat →
      requireIntsFrom depth remaining memory = .ok () memory := by
    induction remaining with
    | zero => exact fun _ _ => rfl
    | succ remaining inductionHypothesis =>
        intro depth reach
        have inside : depth < count := by
          rw [UInt64.lt_iff_toNat_lt]
          omega
        have next : (depth + 1).toNat = depth.toNat + 1 := by
          have small := count.toNat_lt
          rw [UInt64.toNat_add, UInt64.toNat_one]
          omega
        have live : depth < memory.sp := UInt64.lt_of_lt_of_le inside ints.live
        rw [requireIntsFrom_succ tidy live,
          (isString_eq_false_iff _).mpr (ints.small depth inside)]
        exact inductionHypothesis (depth + 1) (by omega)
  rw [requireInts, bind_of_ok (require_of_le ints.live)]
  exact onward count.toNat 0 (by rw [UInt64.toNat_zero, Nat.zero_add])

/-! ## A word in place of the top -/

section Top

variable (tidy : memory.Tidy) (live : 0 < memory.sp)

include live

theorem sp_putTop (word : UInt64) : (putTop memory word).sp = memory.sp := by
  refine sp_put_cell ?_ word
  intro none
  rw [none] at live
  exact absurd live (by decide)

theorem index_putTop (word : UInt64) : index (putTop memory word) 0 = index memory 0 := by
  rw [index, index, sp_putTop live]

include tidy

theorem cellBelow_putTop (word : UInt64) : cellBelow (putTop memory word) 0 = ⟨word⟩ := by
  have inside : (cellAddress (index memory 0)).toNat < memory.layout.words :=
    inBlock_of_live tidy live
  rw [cellBelow, index_putTop live, Memory.cellAt, putTop, Memory.wordAt_put_self inside]

/-- The word on top is looked at when it has been written. -/
theorem replaceTop_eq (word : UInt64) :
    (do poke 0 ⟨word⟩; requireInts 1 : Memory.Access Unit) memory =
      if word.toNat < 2 ^ 63 then .ok () (putTop memory word)
      else .error (.typeMismatch .integer) (putTop memory word) := by
  have written : poke 0 ⟨word⟩ memory = .ok () (putTop memory word) :=
    poke_of_inBlock (inBlock_of_live tidy live) ⟨word⟩
  have stillTidy : (putTop memory word).Tidy := by
    refine ⟨tidy.bounded, ?_⟩
    rw [sp_putTop live]
    exact tidy.fits
  have stillLive : 0 < (putTop memory word).sp := by
    rw [sp_putTop live]
    exact live
  have enough : (1 : UInt64) ≤ (putTop memory word).sp := by
    rw [UInt64.lt_iff_toNat_lt] at stillLive
    rw [UInt64.le_iff_toNat_le]
    exact stillLive
  have looked := requireIntsFrom_succ stillTidy stillLive 0
  rw [cellBelow_putTop tidy live] at looked
  rw [bind_of_ok written, requireInts, bind_of_ok (require_of_le enough)]
  by_cases small : word.toNat < 2 ^ 63
  · rw [(isString_eq_false_iff ⟨word⟩).mpr small] at looked
    rw [if_pos small]
    exact looked
  · have tagged : (⟨word⟩ : Cell).isString = true := by
      rw [← Bool.not_eq_false, isString_eq_false_iff]
      exact small
    rw [tagged] at looked
    rw [if_neg small]
    exact looked

end Top

end Stack

/-! ## Instructions on integers -/

namespace Action

open Stack

variable {memory : Memory}

/-- How an instruction ends that has popped some cells and put a word on top. -/
def writesTop (memory : Memory) (popped word : UInt64) : EStateM.Result Fault Memory Unit :=
  if word.toNat < 2 ^ 63 then .ok () (putTop (memory.setSp (memory.sp - popped)) word)
  else .error (.typeMismatch .integer) (putTop (memory.setSp (memory.sp - popped)) word)

theorem unary_eq (tidy : memory.Tidy) (ints : HasInts memory 1)
    (operation : UInt64 → UInt64) :
    unary operation memory = writesTop memory 0 (operation (cellBelow memory 0).word) := by
  have live : 0 < memory.sp := UInt64.lt_of_lt_of_le (by decide) ints.live
  rw [writesTop, UInt64.sub_zero, Memory.setSp_self, unary, bind_of_ok (ints.requireInts_eq tidy),
    bind_of_ok (peek_of_live tidy live)]
  exact replaceTop_eq tidy live _

section Two

variable (tidy : memory.Tidy) (ints : HasInts memory 2)

include ints

theorem live_of_two : 0 < memory.sp ∧ 1 < memory.sp ∧ 0 < (memory.setSp (memory.sp - 1)).sp := by
  have enough := UInt64.le_iff_toNat_le.mp ints.live
  have two : (2 : UInt64).toNat = 2 := rfl
  have one : 1 ≤ memory.sp := by
    rw [UInt64.le_iff_toNat_le, UInt64.toNat_one]
    omega
  simp only [Memory.sp_setSp, UInt64.lt_iff_toNat_lt, UInt64.toNat_sub_of_le _ _ one,
    UInt64.toNat_one, UInt64.toNat_zero]
  omega

include tidy

/-- What two integers on top come to when the first of them has been dropped. -/
theorem takeTop_eq (rest : Cell → Cell → Memory.Access Unit) :
    (do requireInts 2
        let top ← peek 0
        let second ← peek 1
        drop 1
        rest top second : Memory.Access Unit) memory =
      rest (cellBelow memory 0) (cellBelow memory 1) (memory.setSp (memory.sp - 1)) := by
  rcases live_of_two ints with ⟨live, liveSecond, -⟩
  have dropped : drop 1 memory = .ok () (memory.setSp (memory.sp - 1)) := rfl
  rw [bind_of_ok (ints.requireInts_eq tidy), bind_of_ok (peek_of_live tidy live),
    bind_of_ok (peek_of_live tidy liveSecond), bind_of_ok dropped]

theorem replaceBelow_eq (word : UInt64) :
    (do poke 0 ⟨word⟩; requireInts 1 : Memory.Access Unit) (memory.setSp (memory.sp - 1)) =
      writesTop memory 1 word := by
  rcases live_of_two ints with ⟨-, liveSecond, stillLive⟩
  exact replaceTop_eq (tidy.setSp_sub (UInt64.le_of_lt liveSecond)) stillLive word

theorem binary_eq (operation : UInt64 → UInt64 → UInt64) :
    binary operation memory =
      writesTop memory 1 (operation (cellBelow memory 1).word (cellBelow memory 0).word) :=
  (takeTop_eq tidy ints _).trans (replaceBelow_eq tidy ints _)

/-- A zero on top is found out when it has been dropped. -/
theorem divide_eq (operation : UInt64 → UInt64 → UInt64) :
    divide operation memory =
      if (cellBelow memory 0).word = 0 then .error .divideByZero (memory.setSp (memory.sp - 1))
      else writesTop memory 1 (operation (cellBelow memory 1).word (cellBelow memory 0).word) := by
  refine (takeTop_eq tidy ints _).trans ?_
  split
  · rfl
  · exact replaceBelow_eq tidy ints _

end Two

end Action

namespace State

open Stack

/-! ## Results -/

/-- Some cells have been popped, the cell then on top holds the word, and nothing else has changed. -/
structure Replaced (popped word : UInt64) (before after : State) : Prop where
  world : after.toWorld = before.toWorld
  heap : after.heap = before.heap
  layout : after.memory.layout = before.memory.layout
  sp : after.memory.sp = before.memory.sp - popped
  top : cellBelow after.memory 0 = ⟨word⟩
  others : ∀ position, position ≠ Layout.spWord →
    position ≠ (Memory.cellAddress (index before.memory popped)).toNat →
    after.memory.wordAt position = before.memory.wordAt position

/-- The instruction pops some integers and puts the word in the place of the next.  It fails, with
the word there, if that is no integer. -/
def Writes (config : Config) (opcode : Opcode) (popped word : UInt64) (start : State) : Prop :=
  ∃ after, start.Replaced popped word after ∧
    opcode.execute config start =
      if word.toNat < 2 ^ 63 then .ok () after else .error (.typeMismatch .integer) after

/-- The instruction pops some integers and puts the result in the place of the next, if it is an
integer of 63 bits; if it is not, the instruction fails with the result modulo `2 ^ 64` there. -/
def Yields (config : Config) (opcode : Opcode) (popped : UInt64) (result : Int) (start : State) :
    Prop :=
  ∃ after word, start.Replaced popped word after ∧ Computes word result ∧
    (0 ≤ result ∧ result < 2 ^ 63 → (word.toNat : Int) = result) ∧
    opcode.execute config start =
      if 0 ≤ result ∧ result < 2 ^ 63 then .ok () after else .error (.typeMismatch .integer) after

/-- The instruction pops some integers and puts the result in the place of the next. -/
def Completes (config : Config) (opcode : Opcode) (popped : UInt64) (result : Nat) (start : State) :
    Prop :=
  ∃ after word, start.Replaced popped word after ∧ word.toNat = result ∧
    opcode.execute config start = .ok () after

variable {config : Config} {opcode : Opcode} {popped word : UInt64} {start : State}

theorem replaced_putTop (tidy : start.memory.Tidy) (live : popped < start.memory.sp) (word : UInt64) :
    start.Replaced popped word
      { start with memory := putTop (start.memory.setSp (start.memory.sp - popped)) word } := by
  have lowered := start.memory.sp_setSp (start.memory.sp - popped)
  have stillLive : 0 < (start.memory.setSp (start.memory.sp - popped)).sp := by
    have more := UInt64.lt_iff_toNat_lt.mp live
    rw [lowered, UInt64.lt_iff_toNat_lt, UInt64.toNat_sub_of_le _ _ (UInt64.le_of_lt live),
      UInt64.toNat_zero]
    omega
  have stillTidy := tidy.setSp_sub (UInt64.le_of_lt live)
  refine ⟨rfl, rfl, rfl, (sp_putTop stillLive word).trans lowered,
    cellBelow_putTop stillTidy stillLive word, fun position notSp notTop => ?_⟩
  have place : index (start.memory.setSp (start.memory.sp - popped)) 0 =
      index start.memory popped := by
    rw [index, index, lowered, UInt64.sub_zero]
  change (putTop _ _).wordAt position = _
  rw [putTop, place, Memory.wordAt_put_of_ne _ notTop, Memory.setSp,
    Memory.wordAt_put_of_ne _ notSp]

theorem Replaced.toNat_top {after : State} {result : Int} (replaced : start.Replaced popped word after)
    (computes : Computes word result) :
    ((cellBelow after.memory 0).word.toNat : Int) = result % 2 ^ 64 := by
  rw [replaced.top]
  exact computes

theorem writes_of_writesTop {access : Memory.Access Unit} (tidy : start.memory.Tidy)
    (live : popped < start.memory.sp) (executes : opcode.execute config = liftM access)
    (ran : access start.memory = Action.writesTop start.memory popped word) :
    Writes config opcode popped word start := by
  refine ⟨_, replaced_putTop tidy live word, ?_⟩
  rw [Action.writesTop] at ran
  rw [executes]
  by_cases small : word.toNat < 2 ^ 63
  · rw [if_pos small] at ran ⊢
    exact Action.onMemory_of_ok ran
  · rw [if_neg small] at ran ⊢
    exact Action.onMemory_of_error ran

/-- A result that is not far from an integer of 63 bits is one exactly when the top bit of its word is
clear. -/
theorem Writes.yields {result : Int} (writes : Writes config opcode popped word start)
    (computes : Computes word result) (near : -2 ^ 63 ≤ result ∧ result < 2 ^ 64) :
    Yields config opcode popped result start := by
  rcases writes with ⟨after, replaced, ran⟩
  have inRange : word.toNat < 2 ^ 63 ↔ 0 ≤ result ∧ result < 2 ^ 63 := by
    rw [Computes] at computes
    omega
  refine ⟨after, word, replaced, computes, fun inside => ?_, ?_⟩
  · rw [Computes] at computes
    omega
  · rw [ran]
    exact if_congr inRange rfl rfl

theorem Writes.completes {result : Nat} (writes : Writes config opcode popped word start)
    (computes : Computes word result) (small : result < 2 ^ 63) :
    Completes config opcode popped result start := by
  rcases writes with ⟨after, replaced, ran⟩
  have same : word.toNat = result := by
    rw [Computes] at computes
    omega
  refine ⟨after, word, replaced, same, ?_⟩
  rw [ran, if_pos (same ▸ small)]

/-! ## The instructions of a state -/

section Instructions

variable {state : State} (tidy : state.memory.Tidy)

include tidy

theorem tidy_passed : state.passed.memory.Tidy :=
  tidy.setIp _

theorem cellBelow_passed {depth : UInt64} (live : depth < state.memory.sp) :
    cellBelow state.passed.memory depth = cellBelow state.memory depth :=
  cellBelow_setIp tidy live _

theorem hasInts_passed {count : UInt64} (ints : HasInts state.memory count) :
    HasInts state.passed.memory count := by
  have sp : state.passed.memory.sp = state.memory.sp := state.memory.sp_setIp _
  refine ⟨sp.symm ▸ ints.live, fun depth inside => ?_⟩
  rw [cellBelow_passed tidy (UInt64.lt_of_lt_of_le inside ints.live)]
  exact ints.small depth inside

theorem writes_unary (ints : HasInts state.memory 1) (operation : UInt64 → UInt64)
    (executes : opcode.execute config = liftM (Action.unary operation)) :
    Writes config opcode 0 (operation (cellBelow state.memory 0).word) state.passed := by
  have live : 0 < state.memory.sp := UInt64.lt_of_lt_of_le (by decide) ints.live
  have passedInts := hasInts_passed tidy ints
  have ran := Action.unary_eq (tidy_passed tidy) passedInts operation
  rw [cellBelow_passed tidy live] at ran
  exact writes_of_writesTop (tidy_passed tidy)
    (UInt64.lt_of_lt_of_le (by decide) passedInts.live) executes ran

section Two

variable (ints : HasInts state.memory 2)

include ints

theorem writes_binary (operation : UInt64 → UInt64 → UInt64)
    (executes : opcode.execute config = liftM (Action.binary operation)) :
    Writes config opcode 1
      (operation (cellBelow state.memory 1).word (cellBelow state.memory 0).word)
      state.passed := by
  rcases Action.live_of_two ints with ⟨live, liveSecond, -⟩
  have passedInts := hasInts_passed tidy ints
  have ran := Action.binary_eq (tidy_passed tidy) passedInts operation
  rw [cellBelow_passed tidy live, cellBelow_passed tidy liveSecond] at ran
  exact writes_of_writesTop (tidy_passed tidy) (Action.live_of_two passedInts).2.1 executes ran

section Dividing

variable (operation : UInt64 → UInt64 → UInt64)
  (executes : opcode.execute config = liftM (Action.divide operation))

include executes

theorem writes_divide (divisor : (cellBelow state.memory 0).word.toNat ≠ 0) :
    Writes config opcode 1
      (operation (cellBelow state.memory 1).word (cellBelow state.memory 0).word)
      state.passed := by
  rcases Action.live_of_two ints with ⟨live, liveSecond, -⟩
  have passedInts := hasInts_passed tidy ints
  have ran := Action.divide_eq (tidy_passed tidy) passedInts operation
  have notZero : (cellBelow state.memory 0).word ≠ 0 :=
    fun zero => divisor (congrArg UInt64.toNat zero)
  rw [cellBelow_passed tidy live, cellBelow_passed tidy liveSecond, if_neg notZero] at ran
  exact writes_of_writesTop (tidy_passed tidy) (Action.live_of_two passedInts).2.1 executes ran

/-- A division by zero has dropped the zero, and nothing else. -/
theorem execute_divide_zero (zero : (cellBelow state.memory 0).word.toNat = 0) :
    opcode.execute config state.passed = .error .divideByZero (state.passed.lowered 1) := by
  have ran := Action.divide_eq (tidy_passed tidy) (hasInts_passed tidy ints) operation
  rw [cellBelow_passed tidy (Action.live_of_two ints).1,
    if_pos (UInt64.toNat_inj.mp zero)] at ran
  rw [executes]
  exact Action.onMemory_of_error ran

end Dividing

/-- A product is put on top modulo `2 ^ 64`. -/
theorem exists_of_mul (config : Config) :
    let product := (cellBelow state.memory 1).word.toNat * (cellBelow state.memory 0).word.toNat
    ∃ after word, state.passed.Replaced 1 word after ∧ word.toNat = product % 2 ^ 64 ∧
      Opcode.mul.execute config state.passed =
        if product % 2 ^ 64 < 2 ^ 63 then .ok () after
        else .error (.typeMismatch .integer) after := by
  intro product
  have writes : Writes config .mul 1
      ((cellBelow state.memory 1).word * (cellBelow state.memory 0).word) state.passed :=
    writes_binary tidy ints (· * ·) rfl
  have low : ((cellBelow state.memory 1).word * (cellBelow state.memory 0).word).toNat =
      product % 2 ^ 64 :=
    UInt64.toNat_mul _ _
  rcases writes with ⟨after, replaced, ran⟩
  rw [low] at ran
  exact ⟨after, _, replaced, low, ran⟩

theorem cellBelow_lowered :
    cellBelow (state.passed.lowered 1).memory 0 = cellBelow state.memory 1 := by
  rcases Action.live_of_two ints with ⟨-, liveSecond, -⟩
  have passedLive := (Action.live_of_two (hasInts_passed tidy ints)).2.1
  have place : index (state.passed.lowered 1).memory 0 = index state.passed.memory 1 := by
    rw [index, index, lowered, Memory.sp_setSp, UInt64.sub_zero]
  have notSp := toNat_cellAddress_index_ne (UInt64.ne_of_lt passedLive).symm
  rw [← cellBelow_passed tidy liveSecond, cellBelow, place, cellBelow, Memory.cellAt,
    Memory.cellAt, lowered, Memory.setSp, Memory.wordAt_put_of_ne _ notSp]

end Two

end Instructions

end State

namespace Machine

open Stack

variable {config : Config} {machine : Machine} {world : World} {count : Nat} {state : State}

theorem ready_loaded {program : Program} (accepted : config.validate = .ok ())
    (short : program.length < config.programCapacity) :
    (loaded config program).Ready config := by
  rcases boots_loaded accepted short with ⟨_, made, loading⟩
  exact (Ready.new made).load loading

theorem Ready.tidy_after (hardened : config.swapCheck = .hardened) (ready : machine.Ready config)
    (reached : (State.runner config).after count (machine.inWorld world) = some state) :
    state.memory.Tidy :=
  ((ready.fresh.tidy world).after hardened reached).memory

/-- A state that has been reached has the integers on top that are looked up in it. -/
theorem exists_of_topTwo {reached? : Option State} {top second : Nat}
    (found : reached?.map (fun state => topTwo state.memory) = some (2, top, second))
    (small : top < 2 ^ 63) (smallSecond : second < 2 ^ 63) :
    ∃ state, reached? = some state ∧ HasInts state.memory 2 ∧
      (cellBelow state.memory 0).word.toNat = top ∧
      (cellBelow state.memory 1).word.toNat = second := by
  rcases Option.map_eq_some_iff.mp found with ⟨state, reached, same⟩
  simp only [topTwo, Prod.mk.injEq] at same
  rcases same with ⟨sp, rfl, rfl⟩
  exact ⟨state, reached, hasInts_two sp small smallSecond, rfl, rfl⟩

/-- In every state of a hardened run a sum, a difference, a successor, a predecessor and a double of
integers is the exact one if that is an integer of 63 bits, and else the instruction fails with the
result modulo `2 ^ 64` on top.  Quotients, remainders and halves are always exact, and a division by
zero fails with the dividend on top. -/
theorem integers_exact (hardened : config.swapCheck = .hardened) (ready : machine.Ready config)
    (reached : (State.runner config).after count (machine.inWorld world) = some state) :
    let start := state.passed
    let top := (cellBelow state.memory 0).word.toNat
    let second := (cellBelow state.memory 1).word.toNat
    (∀ fetch, state.fetched? = some fetch →
        State.step config state = (Opcode.running fetch.byte).execute config start) ∧
      (HasInts state.memory 1 →
        start.Yields config .inc 0 (top + 1) ∧ start.Yields config .dec 0 (top - 1) ∧
          start.Yields config .shl 0 (2 * top) ∧ start.Completes config .shr 0 (top / 2)) ∧
      (HasInts state.memory 2 →
        start.Yields config .add 1 (second + top) ∧ start.Yields config .sub 1 (second - top) ∧
          (top ≠ 0 → start.Completes config .div 1 (second / top) ∧
            start.Completes config .mod 1 (second % top)) ∧
          (top = 0 → ∀ opcode ∈ [Opcode.div, Opcode.mod],
            opcode.execute config start = .error .divideByZero (start.lowered 1) ∧
              cellBelow (start.lowered 1).memory 0 = cellBelow state.memory 1)) := by
  intro start top second
  have tidy := ready.tidy_after hardened reached
  refine ⟨fun _ => State.step_of_fetched config, fun ints => ?_, fun ints => ?_⟩
  · have small : top < 2 ^ 63 := ints.small 0 (by decide)
    let word := (cellBelow state.memory 0).word
    have inc : start.Writes config .inc 0 (word + 1) := State.writes_unary tidy ints (· + 1) rfl
    have dec : start.Writes config .dec 0 (word - 1) := State.writes_unary tidy ints (· - 1) rfl
    have shl : start.Writes config .shl 0 (word <<< 1) := State.writes_unary tidy ints (· <<< 1) rfl
    have shr : start.Writes config .shr 0 (word >>> 1) := State.writes_unary tidy ints (· >>> 1) rfl
    exact ⟨inc.yields (Computes.add word 1) ⟨by omega, by omega⟩,
      dec.yields (Computes.sub word 1) ⟨by omega, by omega⟩,
      shl.yields (Computes.shiftLeft_one word) ⟨by omega, by omega⟩,
      shr.completes (Computes.shiftRight_one word) (by omega)⟩
  · have small : top < 2 ^ 63 := ints.small 0 (by decide)
    have smallSecond : second < 2 ^ 63 := ints.small 1 (by decide)
    let word := (cellBelow state.memory 0).word
    let below := (cellBelow state.memory 1).word
    have add : start.Writes config .add 1 (below + word) := State.writes_binary tidy ints (· + ·) rfl
    have sub : start.Writes config .sub 1 (below - word) := State.writes_binary tidy ints (· - ·) rfl
    refine ⟨add.yields (Computes.add below word) ⟨by omega, by omega⟩,
      sub.yields (Computes.sub below word) ⟨by omega, by omega⟩, fun divisor => ⟨?_, ?_⟩,
      fun zero opcode division => ⟨?_, State.cellBelow_lowered tidy ints⟩⟩
    · have div : start.Writes config .div 1 (below / word) :=
        State.writes_divide tidy ints (· / ·) rfl divisor
      exact div.completes (Computes.div below word)
        (Nat.lt_of_le_of_lt (Nat.div_le_self second top) smallSecond)
    · have mod : start.Writes config .mod 1 (below % word) :=
        State.writes_divide tidy ints (· % ·) rfl divisor
      exact mod.completes (Computes.mod below word)
        (Nat.lt_of_le_of_lt (Nat.mod_le second top) smallSecond)
    · rcases List.mem_pair.mp division with rfl | rfl
      · exact State.execute_divide_zero tidy ints _ rfl zero
      · exact State.execute_divide_zero tidy ints _ rfl zero

/-- The largest integer and one: their sum is refused, with `2 ^ 63` on top, and their difference and
quotient are not. -/
theorem integers_exact_largest :
    let config : Config := { swapCheck := .hardened, stackCapacity := 4, programCapacity := 32 }
    let machine := loaded config
      ⟨[1, 255, 255, 255, 255, 255, 255, 255, 127, 1, 1, 0, 0, 0, 0, 0, 0, 0, 4]⟩
    let world : World := ⟨Input.ofBytes [], Output.unbounded, FileSystem.fresh⟩
    config.swapCheck = .hardened ∧ machine.Ready config ∧
      ∃ state, (State.runner config).after 2 (machine.inWorld world) = some state ∧
        HasInts state.memory 2 ∧
        (∃ after, Opcode.add.execute config state.passed = .error (.typeMismatch .integer) after ∧
          (cellBelow after.memory 0).word.toNat = 2 ^ 63) ∧
        (∃ after, Opcode.sub.execute config state.passed = .ok () after ∧
          (cellBelow after.memory 0).word.toNat = 2 ^ 63 - 2) ∧
        state.passed.Completes config .div 1 (2 ^ 63 - 1) := by
  intro config machine world
  have ready : machine.Ready config := ready_loaded rfl (by decide)
  have operands : ((State.runner config).after 2 (machine.inWorld world)).map
      (fun state => topTwo state.memory) = some (2, 1, 2 ^ 63 - 1) := by
    decide +kernel
  rcases exists_of_topTwo operands (by decide) (by decide) with
    ⟨state, reached, ints, top, second⟩
  have results := (integers_exact rfl ready reached).2.2 ints
  rw [top, second] at results
  rcases results with ⟨⟨after, sum, replaced, computes, -, ran⟩,
    ⟨left, difference, replacedLeft, computesLeft, -, ranLeft⟩, quotients, -⟩
  refine ⟨rfl, ready, state, reached, ints, ⟨after, ran, ?_⟩, ⟨left, ranLeft, ?_⟩,
    (quotients (by decide)).1⟩
  · have result := replaced.toNat_top computes
    omega
  · have result := replacedLeft.toNat_top computesLeft
    omega

/-- In every state of a hardened run the product of two integers is put on top modulo `2 ^ 64`, and
the instruction fails if that has its top bit set.  So a product below `2 ^ 64` is either exact or
found out, and a larger one may be neither. -/
theorem products_wrap (hardened : config.swapCheck = .hardened) (ready : machine.Ready config)
    (reached : (State.runner config).after count (machine.inWorld world) = some state)
    (ints : HasInts state.memory 2) :
    let start := state.passed
    let product := (cellBelow state.memory 1).word.toNat * (cellBelow state.memory 0).word.toNat
    (∀ fetch, state.fetched? = some fetch →
        State.step config state = (Opcode.running fetch.byte).execute config start) ∧
      ∃ after word, start.Replaced 1 word after ∧ word.toNat = product % 2 ^ 64 ∧
        (Opcode.mul.execute config start =
          if product % 2 ^ 64 < 2 ^ 63 then .ok () after
          else .error (.typeMismatch .integer) after) ∧
        (product % 2 ^ 64 < 2 ^ 63 → (word.toNat = product ↔ product < 2 ^ 63)) ∧
        (2 ^ 63 ≤ product → product < 2 ^ 64 →
          Opcode.mul.execute config start = .error (.typeMismatch .integer) after) := by
  intro start product
  have tidy := ready.tidy_after hardened reached
  rcases State.exists_of_mul tidy ints config with ⟨after, word, replaced, low, ran⟩
  refine ⟨fun _ => State.step_of_fetched config, after, word, replaced, low, ran, fun small => ?_,
    fun large fits => ?_⟩
  · rw [low]
    omega
  · rw [ran, if_neg (by omega)]

/-- A product of `2 ^ 63` is found out. -/
theorem products_wrap_caught :
    let config : Config := { swapCheck := .hardened, stackCapacity := 4, programCapacity := 32 }
    let machine := loaded config ⟨[1, 0, 0, 0, 0, 1, 0, 0, 0, 1, 0, 0, 0, 128, 0, 0, 0, 0, 6]⟩
    let world : World := ⟨Input.ofBytes [], Output.unbounded, FileSystem.fresh⟩
    config.swapCheck = .hardened ∧ machine.Ready config ∧
      ∃ state, (State.runner config).after 2 (machine.inWorld world) = some state ∧
        HasInts state.memory 2 ∧
        ∃ after, Opcode.mul.execute config state.passed = .error (.typeMismatch .integer) after ∧
          (cellBelow after.memory 0).word.toNat = 2 ^ 63 := by
  intro config machine world
  have ready : machine.Ready config := ready_loaded rfl (by decide)
  have operands : ((State.runner config).after 2 (machine.inWorld world)).map
      (fun state => topTwo state.memory) = some (2, 2 ^ 31, 2 ^ 32) := by
    decide +kernel
  rcases exists_of_topTwo operands (by decide) (by decide) with
    ⟨state, reached, ints, top, second⟩
  have wrapped := (products_wrap rfl ready reached ints).2
  rw [top, second] at wrapped
  rcases wrapped with ⟨after, word, replaced, low, -, -, caught⟩
  refine ⟨rfl, ready, state, reached, ints, after, caught (by decide) (by decide), ?_⟩
  rw [replaced.top]
  exact low

/-- A product of `2 ^ 64` is not found out: zero passes for it. -/
theorem products_wrap_lost :
    let config : Config := { swapCheck := .hardened, stackCapacity := 4, programCapacity := 32 }
    let machine := loaded config ⟨[1, 0, 0, 0, 0, 1, 0, 0, 0, 1, 0, 0, 0, 0, 1, 0, 0, 0, 6]⟩
    let world : World := ⟨Input.ofBytes [], Output.unbounded, FileSystem.fresh⟩
    config.swapCheck = .hardened ∧ machine.Ready config ∧
      ∃ state, (State.runner config).after 2 (machine.inWorld world) = some state ∧
        HasInts state.memory 2 ∧
        (cellBelow state.memory 1).word.toNat * (cellBelow state.memory 0).word.toNat = 2 ^ 64 ∧
        ∃ after, Opcode.mul.execute config state.passed = .ok () after ∧
          (cellBelow after.memory 0).word.toNat = 0 := by
  intro config machine world
  have ready : machine.Ready config := ready_loaded rfl (by decide)
  have operands : ((State.runner config).after 2 (machine.inWorld world)).map
      (fun state => topTwo state.memory) = some (2, 2 ^ 32, 2 ^ 32) := by
    decide +kernel
  rcases exists_of_topTwo operands (by decide) (by decide) with
    ⟨state, reached, ints, top, second⟩
  have product := State.exists_of_mul (ready.tidy_after rfl reached) ints config
  rw [top, second] at product
  rcases product with ⟨after, word, replaced, low, ran⟩
  refine ⟨rfl, ready, state, reached, ints, by rw [top, second]; decide, after, ran, ?_⟩
  rw [replaced.top]
  exact low

end Machine

end TagMachine
