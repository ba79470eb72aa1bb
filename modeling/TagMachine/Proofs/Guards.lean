import TagMachine.Proofs.Guards.Memory

/-!
# Refusals are clean

An instruction refuses for want of cells, or of room for one, before it has done anything: no word,
no string, no byte of input or output and no file has changed, and the cells asked for are those of
its first check.  The second look that it takes at a result always finds a cell.
-/

namespace TagMachine

namespace Action

open Memory Stack

/-! ## Parts of instructions -/

variable {α : Type} {start : State}

theorem ensures_liftM {before : Memory → Prop} {after : α → Memory → Prop}
    {failed : Fault → Memory → Prop} {access : Memory.Access α}
    (ensures : Ensures before access after failed) :
    Ensures (fun state => before state.memory) (liftM access : Action α)
      (fun result state => after result state.memory)
      fun fault state => failed fault state.memory := by
  intro state known
  cases ran : access state.memory with
  | ok result after =>
      rw [onMemory_of_ok ran]
      exact .ok (ensures.of_ok known ran)
  | error fault after =>
      rw [onMemory_of_error ran]
      exact .error (ensures.of_error known ran)

theorem sturdy_liftM {access : Memory.Access α} (sturdy : Sturdy access) :
    Sturdy (liftM access : Action α) :=
  ensures_liftM sturdy

/-- What refuses on memory alone refuses on the state. -/
theorem refused_liftM {required : UInt64} {room : Bool} {fact : Prop} {access : Memory.Access α}
    (checks : Ensures (fun now => now = start.memory) access
      (fun _ now => now = start.memory ∧ fact) (Refused required room start.memory start.memory)) :
    Ensures (fun now => now = start) (liftM access : Action α) (fun _ now => now = start ∧ fact)
      (Refused required room start.memory start) := by
  rintro now rfl
  cases ran : access now.memory with
  | ok result after =>
      rw [onMemory_of_ok ran]
      rcases checks.of_ok rfl ran with ⟨rfl, learned⟩
      exact .ok ⟨rfl, learned⟩
  | error fault after =>
      rw [onMemory_of_error ran]
      refine .error fun arity => ?_
      rcases checks.of_error rfl ran arity with ⟨rfl, refusal⟩
      exact ⟨rfl, refusal⟩

/-- What only looks at memory leaves every state as it is. -/
theorem ensures_looks {before : State → Prop} {access : Memory.Access α} (looks : Looks access)
    (sturdy : Sturdy access) :
    Ensures before (liftM access : Action α) (fun _ => before) otherwise := by
  intro state known
  have looked := looks.ensures sturdy state.memory state.memory rfl
  cases ran : access state.memory with
  | ok result after =>
      rw [ran] at looked
      rw [onMemory_of_ok ran]
      cases looked with
      | ok same =>
          rw [same]
          exact .ok known
  | error fault after =>
      rw [ran] at looked
      rw [onMemory_of_error ran]
      cases looked with
      | error other => exact .error other

theorem ensures_onWorld {before : State → Prop} {action : Action α} (onWorld : OnWorld action)
    (still : ∀ state world, before state → before { state with toWorld := world }) :
    Ensures before action (fun _ => before) otherwise := by
  rintro ⟨world, memory, heap⟩ known
  rcases onWorld world with ⟨result, after, ran⟩ | ⟨fault, after, notArity, failed⟩
  · rw [ran]
    exact .ok (still _ after known)
  · rw [failed]
    exact .error notArity

theorem sturdy_allocString (string : Bytes) : Sturdy (allocString string) := by
  intro state _
  unfold allocString Heap.alloc
  by_cases full : state.heap.maxLive ≤ state.heap.live ∨ tagBit ≤ state.heap.nextId
  · rw [if_pos full]
    exact .error id
  · rw [if_neg full]
    exact .ok trivial

theorem sturdy_pushString (string : Bytes) : Sturdy (pushString string) :=
  (sturdy_allocString string).bind fun _ => sturdy_liftM (sturdy_push _)

theorem ensures_lookUpString {before : State → Prop} (id : UInt64) :
    Ensures before (lookUpString id) (fun _ => before) otherwise := by
  intro state known
  unfold lookUpString Heap.get
  cases state.heap.find? id with
  | some string => exact .ok known
  | none => exact .error not_false

/-- The string that is popped leaves the stack pointer one lower. -/
theorem ensures_popString {count : Nat} :
    Ensures (fun state => Counts (count + 1) state.memory) popString
      (fun _ state => Counts count state.memory) otherwise := by
  refine (ensures_liftM ensures_pop).bind fun cell => ?_
  split
  · rename_i id _
    intro state lowered
    unfold takeString Heap.take
    cases state.heap.find? id with
    | some string => exact .ok lowered
    | none => exact .error not_false
  · exact ensures_throw fun _ _ => not_false

theorem sturdy_jump (taken : Bool) : Sturdy (jump taken) := by
  cases taken with
  | false => exact sturdy_modify _
  | true =>
      have target (offset : UInt64) : Sturdy (programTarget offset) :=
        (sturdy_programBytes 2 offset).bind fun _ => sturdy_pure _
      exact sturdy_get_bind fun _ => (target _).bind fun _ => sturdy_modify _

theorem refused_exchange {room : Bool} (required : UInt64) :
    Ensures (fun now => now = start) (liftM (exchange required)) (fun _ => anything)
      (Refused required room start.memory start) := by
  rw [exchange, liftM_bind]
  refine (refused_liftM (ensures_require required)).bind fun _ => ?_
  have swaps : Sturdy Stack.swap := (sturdy_peek 0).bind fun _ => (sturdy_peek 1).bind fun _ =>
    (sturdy_poke 0 _).bind fun _ => sturdy_poke 1 _
  exact ensures_ofOtherwise ((sturdy_liftM swaps).mono fun _ _ => trivial)

theorem ensures_literal {count : Nat} :
    Ensures (fun state => Counts count state.memory) literal
      (fun _ state => Counts count state.memory) otherwise := by
  have advances : Ensures (Counts count) (advance 1) (fun _ => Counts count) otherwise :=
    ensures_modify fun memory counts => (congrArg UInt64.toNat (memory.sp_setIp _)).trans counts
  refine ensures_get_bind fun _ => Ensures.mono ?_ fun _ known => known.1
  refine (ensures_looks (looks_programByte _) (sturdy_programByte _)).bind fun length => ?_
  refine (ensures_liftM advances).bind fun _ => ensures_get_bind fun _ => ?_
  refine ensures_failIf (fun _ _ _ => id) fun _ => Ensures.mono ?_ fun _ known => known.1
  exact (ensures_looks (looks_programBytes _ _) (sturdy_programBytes _ _)).bind fun _ =>
    ensures_pure fun _ known => known

end Action

/-! ## Instructions -/

/-- The state stands as an instruction that set out from `start` has left it at a stage. -/
structure Stage.Stands (start : State) (stage : Stage) (now : State) : Prop where
  unchanged : stage.untouched = true → now = start
  counts : Stack.Counts (start.memory.sp.toNat - stage.popped) now.memory
  live : stage.live + stage.popped ≤ start.memory.sp.toNat

namespace Stage.Stands

open TagMachine.Action Stack

variable {α : Type} {start : State} {stage : Stage} {first : Action α}

theorem asked {count : UInt64} (enough : count ≤ start.memory.sp) :
    (Stage.asked count.toNat).Stands start start :=
  ⟨fun _ => rfl, rfl, UInt64.le_iff_toNat_le.mp enough⟩

theorem ensures_lowered {less : Nat} (enough : less ≤ stage.live)
    (lowers : ∀ count, Ensures (fun state : State => Counts (count + less) state.memory) first
      (fun _ state => Counts count state.memory) otherwise) :
    Ensures (stage.Stands start) first (fun _ => (stage.lowered less).Stands start) otherwise := by
  intro state known
  have live := known.live
  have height : start.memory.sp.toNat - stage.popped =
      start.memory.sp.toNat - (stage.popped + less) + less := by
    omega
  have counts := known.counts
  rw [height] at counts
  refine ((lowers _).weaken (fun _ _ lowered => ?_) fun _ _ other => other) state counts
  refine ⟨(absurd · Bool.false_ne_true), lowered, ?_⟩
  simp only [Stage.lowered]
  omega

theorem ensures_touched
    (kept : ∀ count, Ensures (fun state : State => Counts count state.memory) first
      (fun _ state => Counts count state.memory) otherwise) :
    Ensures (stage.Stands start) first (fun _ => stage.touched.Stands start) otherwise :=
  fun state known => ((kept _).weaken
    (fun _ _ counts => ⟨(absurd · Bool.false_ne_true), counts, known.live⟩)
    fun _ _ other => other) state known.counts

theorem ensures_onWorld (onWorld : OnWorld first) :
    Ensures (stage.Stands start) first (fun _ => stage.touched.Stands start) otherwise :=
  ensures_touched fun _ => Action.ensures_onWorld onWorld fun _ _ => id

theorem exists_counts {now : State} (known : stage.Stands start now) (live : 0 < stage.live) :
    ∃ count, Counts (count + 1) now.memory := by
  have enough := known.live
  refine ⟨start.memory.sp.toNat - stage.popped - 1, known.counts.trans ?_⟩
  omega

end Stage.Stands

open TagMachine.Action Memory Stack in
/-- At every stage only the checks at the start can find too few cells, or no room. -/
def Opcode.guardRule (config : Config) (opcode : Opcode) (start : State) :
    StageRule config opcode where
  held _ := True
  holds stage rest := Ensures (stage.Stands start) rest (fun _ => anything)
    (Refused (opcode.requiredCells config) opcode.needsRoom start.memory start)
  ends := Sturdy
  stop _ := ensures_pure fun _ _ => trivial
  fail _ _ other := ensures_throw fun _ _ arity => (other arity).elim
  require := by
    rintro count rest rfl later
    refine Ensures.bind ((refused_liftM (ensures_require _)).mono fun _ known =>
      known.unchanged rfl) fun _ => later.mono ?_
    rintro _ ⟨rfl, enough⟩
    exact .asked enough
  requireInts := by
    rintro count rest rfl later
    refine Ensures.bind ((refused_liftM (ensures_requireInts _)).mono fun _ known =>
      known.unchanged rfl) fun _ => later.mono ?_
    rintro _ ⟨rfl, enough⟩
    exact .asked enough
  requireFree := by
    intro stage rest untouched room later now known
    obtain rfl := known.unchanged untouched
    have checked := refused_liftM (@ensures_requireFree now.memory (opcode.requiredCells config))
    rw [← room] at checked
    refine (checked.bind fun _ => later.mono ?_) now rfl
    rintro _ ⟨rfl, -⟩
    exact ⟨fun _ => rfl, known.counts, known.live⟩
  peek _ later := (ensures_ofOtherwise (ensures_looks (looks_peek _) (sturdy_peek _))).bind later
  drop _ enough later := (ensures_ofOtherwise (Stage.Stands.ensures_lowered enough fun _ =>
    ensures_liftM (ensures_drop _))).bind fun _ => later
  pop live later := (ensures_ofOtherwise (Stage.Stands.ensures_lowered live fun _ =>
    ensures_liftM ensures_pop)).bind later
  popString live _ later := (ensures_ofOtherwise (Stage.Stands.ensures_lowered live fun _ =>
    ensures_popString)).bind fun string => later string trivial
  lookUpString id _ later := (ensures_ofOtherwise (ensures_lookUpString id)).bind fun string =>
    later string trivial
  replaceTop cell live _ := by
    refine ensures_ofOtherwise fun now known => ?_
    rcases known.exists_counts live with ⟨count, counts⟩
    exact (ensures_liftM (ensures_poke cell)).bind
      (fun _ => ensures_liftM ensures_requireInts_one) now counts
  push cell _ _ _ later := (ensures_ofOtherwise ((sturdy_liftM (sturdy_push cell)).bind fun _ =>
    later)).mono fun _ _ => trivial
  pushResult {stage} cell _ popped _ := by
    refine ensures_ofOtherwise fun now known => ?_
    have live := known.live
    have small := start.memory.sp.toNat_lt
    have below : start.memory.sp.toNat - stage.popped + 1 < UInt64.size := by
      simp only [UInt64.size]
      omega
    exact (ensures_liftM (ensures_push below cell)).bind
      (fun _ => ensures_liftM ensures_requireInts_one) now known.counts
  pushString _ _ _ later := (ensures_ofOtherwise ((sturdy_pushString _).bind fun _ => later)).mono
    fun _ _ => trivial
  setCmp _ _ _ := (ensures_ofOtherwise (sturdy_liftM (sturdy_modify _))).mono fun _ _ => trivial
  setHalt _ _ := (ensures_ofOtherwise (sturdy_liftM (sturdy_modify _))).mono fun _ _ => trivial
  readLine _ _ later :=
    (ensures_ofOtherwise (Stage.Stands.ensures_onWorld (onWorld_onInput _))).bind later
  readWord later :=
    (ensures_ofOtherwise (Stage.Stands.ensures_onWorld onWorld_inputWord)).bind later
  writeFile _ _ later :=
    (ensures_ofOtherwise (Stage.Stands.ensures_onWorld (onWorld_onFiles _))).bind later
  readFile _ later :=
    (ensures_ofOtherwise (Stage.Stands.ensures_onWorld (onWorld_contentOf config _))).bind later
  print _ _ _ := (ensures_ofOtherwise (Stage.Stands.ensures_onWorld (onWorld_print _))).weaken
    (fun _ _ _ => trivial) fun _ _ => id
  exchange isSwap := by
    subst isSwap
    exact (refused_exchange _).mono fun _ known => known.unchanged rfl
  jump taken _ := (ensures_ofOtherwise (sturdy_get_bind fun _ =>
    sturdy_liftM (sturdy_jump _))).mono fun _ _ => trivial
  immediate _ later := by
    have looks : Looks (do programWord (← get).ip) := looks_get_bind fun _ => looks_programWord _
    have sturdy : Sturdy (do programWord (← get).ip) := sturdy_get_bind fun _ =>
      (sturdy_programBytes 8 _).bind fun _ => sturdy_pure _
    exact (ensures_ofOtherwise (ensures_looks looks sturdy)).bind later
  literal _ later := (ensures_ofOtherwise (Stage.Stands.ensures_touched fun _ =>
    ensures_literal)).bind later
  done := sturdy_pure ()
  advance _ _ := sturdy_liftM (sturdy_modify _)

/-- An instruction that fails for want of cells or of room has found so at first. -/
theorem Opcode.refused_execute (config : Config) (opcode : Opcode) (start : State) :
    Ensures (fun now => now = start) (opcode.execute config) (fun _ => anything)
      (Refused (opcode.requiredCells config) opcode.needsRoom start.memory start) := by
  refine Ensures.mono (opcode.guardRule config start).execute ?_
  rintro _ rfl
  exact ⟨fun _ => rfl, rfl, Nat.zero_le _⟩

namespace State

/-- From any state at all, an instruction that fails for want of cells or of room has changed
nothing, and its first check has found so. Where that check finds its cells nothing later misses
any, the second look at a result that has been written among it. -/
theorem refusals_clean (config : Config) (opcode : Opcode) (state : State) :
    (∀ fault last, opcode.execute config state = .error fault last → fault.IsArity →
      last = state ∧
        fault.IsRefusal (opcode.requiredCells config) opcode.needsRoom state.memory) ∧
      (opcode.requiredCells config ≤ state.memory.sp → ∀ required available last,
        opcode.execute config state ≠ .error (.stackUnderflow required available) last) := by
  have refused := opcode.refused_execute config state
  refine ⟨fun fault last failed arity => refused.of_error rfl failed arity, ?_⟩
  intro enough required available last failed
  rcases refused.of_error rfl failed trivial with ⟨-, -, -, few⟩
  exact UInt64.not_lt.mpr enough few

/-- A string is on top of a full stack. The copy is refused before it is made, so the heap still
holds one string and gives out the same id next. -/
theorem refusals_clean_copy :
    let config : Config := { stackCapacity := 2, programCapacity := 16 }
    let world : World := ⟨Input.ofBytes [], Output.unbounded, FileSystem.fresh⟩
    let memory := ((Memory.blank ⟨2, 16⟩).putCell 1 (Cell.ofString 1)).setSp 2
    let state : State := ⟨world, memory, ⟨[(1, [97])], 2, 8⟩⟩
    Opcode.cpy.execute config state = .error .stackFull state := by
  intro config world memory state
  obtain ⟨last, failed⟩ : ∃ last, Opcode.cpy.execute config state = .error .stackFull last :=
    ⟨_, rfl⟩
  obtain rfl := ((refusals_clean config .cpy state).1 _ last failed trivial).1
  exact failed

end State

end TagMachine
