import TagMachine.Proofs.Components
import TagMachine.Proofs.Reloading.Cells
import TagMachine.Proofs.Stages

/-!
# Instructions that read no byte left behind

Of the program an instruction reads its opcode and its operand, and of the stack so many cells from
the top.  If none of these holds a byte that was left behind, it does the same in states that differ
in such bytes alone.
-/

namespace TagMachine

open Memory (SameBut)

variable {residue : Nat → Prop}

/-! ## What an instruction reads -/

/-- The length byte and the bytes of the literal at the instruction pointer, as far as the program
reaches. -/
def Memory.literalBytes (memory : Memory) : Nat :=
  let start := (memory.ip + 1).toNat
  let length := (memory.byteAt memory.ip.toNat).toNat
  if memory.programLength.toNat < start then 0
  else if memory.programLength.toNat < start + length then 1
  else 1 + length

/-- How many bytes of the program are read after the opcode. -/
def Opcode.bytesRead (memory : Memory) : Opcode → Nat
  | .push => if memory.sp.toNat = memory.layout.stackCells then 0 else 8
  | .pushs => if memory.sp.toNat = memory.layout.stackCells then 0 else memory.literalBytes
  | .jmp => 2
  | .jnz => if memory.cmp then 2 else 0
  | .jz => if memory.cmp then 0 else 2
  | _ => 0

/-- How many cells are read, from the top on. -/
def Opcode.cellsRead : Opcode → Nat
  | .nop | .push | .read | .jmp | .jnz | .jz | .pushs | .reads | .halt => 0
  | .pop | .itostr | .inc | .dec | .shl | .shr | .cpy | .pops | .strlen | .strtoi | .readfile => 1
  | .add | .sub | .mul | .div | .mod | .lt | .gt | .eq | .swap | .strcat | .strcmp | .instr
  | .writefile => 2

/-- The instruction reads one of the bytes, once its opcode has been passed. -/
def Opcode.Reads (residue : Nat → Prop) (opcode : Opcode) (memory : Memory) : Prop :=
  (∃ place, place < opcode.bytesRead memory ∧
      residue (memory.ip + UInt64.ofNat place).toNat) ∨
    ∃ depth, depth < opcode.cellsRead ∧
      ¬memory.ClearCell residue (Stack.index memory (UInt64.ofNat depth))

instance (opcode : Opcode) (memory : Memory) [DecidablePred residue] :
    Decidable (opcode.Reads residue memory) :=
  inferInstanceAs (Decidable (_ ∨ _))

theorem Opcode.clearBelow_of_not_reads {opcode : Opcode} {memory : Memory}
    (unread : ¬opcode.Reads residue memory) :
    memory.ClearBelow residue opcode.cellsRead := by
  intro depth inside
  apply Classical.byContradiction
  intro met
  exact unread (Or.inr ⟨depth, inside, met⟩)

theorem Opcode.not_residue_of_not_reads {opcode : Opcode} {memory : Memory} {place : Nat}
    (unread : ¬opcode.Reads residue memory) (inside : place < opcode.bytesRead memory) :
    ¬residue (memory.ip + UInt64.ofNat place).toNat :=
  fun met => unread (Or.inl ⟨place, inside, met⟩)

/-- A literal and its length byte lie within the program, as far as they are read. -/
theorem Memory.lt_programLength_of_lt_literalBytes {memory : Memory} {place : Nat}
    (next : (memory.ip + 1).toNat = memory.ip.toNat + 1) (inside : place < memory.literalBytes) :
    memory.ip.toNat + place < memory.programLength.toNat := by
  simp only [literalBytes] at inside
  split at inside
  · omega
  · split at inside
    · omega
    · omega

theorem Opcode.bytesRead_le (memory : Memory) (opcode : Opcode) :
    opcode.bytesRead memory ≤ 256 := by
  have literal : memory.literalBytes ≤ 256 := by
    have small := (memory.byteAt memory.ip.toNat).toNat_lt
    simp only [Memory.literalBytes]
    split
    · omega
    · split <;> omega
  unfold bytesRead
  split
  · split <;> omega
  · split <;> omega
  · omega
  · split <;> omega
  · split <;> omega
  · omega

theorem Opcode.cellsRead_le (opcode : Opcode) :
    opcode.cellsRead ≤ 2 := by
  cases opcode <;> decide

/-- An instruction reads the cells that it asks for. -/
theorem Opcode.requiredCells_le (config : Config) (opcode : Opcode) :
    (opcode.requiredCells config).toNat ≤ opcode.cellsRead := by
  cases opcode with
  | swap => cases checking : config.swapCheck <;> simp only [requiredCells, checking] <;> decide
  | _ => exact Nat.le_refl _

theorem Opcode.clearBelow_required (config : Config) {opcode : Opcode} {memory : Memory}
    (unread : ¬opcode.Reads residue memory) :
    memory.ClearBelow residue (opcode.requiredCells config).toNat :=
  fun depth inside => clearBelow_of_not_reads unread depth
    (Nat.lt_of_lt_of_le inside (opcode.requiredCells_le config))

/-- A jump that is not taken passes its target unread. -/
theorem Opcode.bytesRead_of_jump? {opcode : Opcode} {taken : Bool → Bool}
    (jumps : opcode.jump? = some taken) (memory : Memory) :
    opcode.bytesRead memory = if taken memory.cmp then 2 else 0 := by
  cases opcode <;> cases jumps
  · rfl
  · rfl
  · cases cmp : memory.cmp <;> simp [bytesRead, cmp]

/-! ## Instructions on memory -/

namespace Action

open Memory Stack

variable {memory : Memory}

theorem respects_advance (count : UInt64) :
    Respects (SameBut residue) (advance count) := by
  refine Carries.respects (carries_modify fun clean stale same => ?_)
  rw [same.ip]
  exact same.setIp _

theorem respects_setCmp (on : Bool) :
    Respects (SameBut residue) (modify (·.setCmp on) : Memory.Access Unit) :=
  Carries.respects (carries_modify fun _ _ same => same.setCmp on)

theorem respects_setHalt (on : Bool) :
    Respects (SameBut residue) (modify (·.setHalt on) : Memory.Access Unit) :=
  Carries.respects (carries_modify fun _ _ same => same.setHalt on)

theorem carries_advance (count : UInt64) :
    Carries (SameBut residue) (fun now => now = memory) (advance count) fun _ now =>
      now = memory.setIp (memory.ip + count) := by
  have moved (clean stale : Memory) (same : clean.SameBut residue stale) :
      (clean.setIp (clean.ip + count)).SameBut residue (stale.setIp (stale.ip + count)) := by
    rw [same.ip]
    exact same.setIp _
  refine (carries_modify moved).weaken ?_
  rintro _ _ ⟨_, rfl, rfl⟩
  rfl

theorem carries_jump {taken : Bool}
    (unread : taken = true → ∀ place, place < 2 →
      ¬residue (memory.ip + UInt64.ofNat place).toNat) :
    Carries (SameBut residue) (fun now => now = memory) (jump taken) fun _ => anything := by
  cases taken with
  | false => exact (respects_advance 2).carries _
  | true =>
      refine carries_get_at (fun clean stale same => by rw [same.ip]) ?_
      refine (carries_programTarget (unread rfl)).bind fun target => ?_
      exact (Carries.respects (carries_modify fun _ _ same => same.setIp _)).carries _

theorem carries_replaceTop {count : Nat} (cell : Cell) :
    Carries (SameBut residue) (Live residue (count + 1)) (do poke 0 cell; requireInts 1)
      fun _ => anything := by
  refine (carries_poke_top cell).bind fun _ => Carries.weaken (carries_requireInts ?_) ?_
  · intro _ live depth inside
    exact live.clear depth (Nat.lt_of_lt_of_le inside (Nat.le_add_left _ _))
  · exact fun _ _ _ => trivial

theorem carries_pushResult (cell : Cell) :
    Carries (SameBut residue) (fun now => now.ClearCell residue now.sp)
      (do push cell; requireInts 1) fun _ => anything := by
  refine (carries_push cell).bind fun _ => Carries.weaken (carries_requireInts ?_) ?_
  · exact fun _ clear => clear
  · exact fun _ _ _ => trivial

theorem carries_exchange (required : UInt64) :
    Carries (SameBut residue) (ClearBelow residue 2) (exchange required) fun _ => anything := by
  refine (carries_require required).bind fun _ => ?_
  refine (carries_peek fun _ known => known.1 0 (by decide)).bind fun top => ?_
  refine (carries_peek fun _ known => known.1 1 (by decide)).bind fun below => ?_
  exact ((respects_poke 0 _).bind fun _ => respects_poke 1 _).carries _

end Action

/-! ## Instructions on the state -/

/-- The states agree in everything but such bytes of the store. -/
structure State.SameBut (residue : Nat → Prop) (clean stale : State) : Prop where
  world : clean.toWorld = stale.toWorld
  memory : clean.memory.SameBut residue stale.memory
  heap : clean.heap = stale.heap

namespace State.SameBut

variable {residue : Nat → Prop}

theorem seesMemory : Component.memory.Sees (State.SameBut residue) (Memory.SameBut residue) where
  seen same := same.memory
  replaced same memory := ⟨same.world, memory, same.heap⟩

theorem seesHeap : SeesHeap (State.SameBut residue) where
  seen same := same.heap
  replaced same _ := ⟨same.world, same.memory, rfl⟩

end State.SameBut

/-- The memory of the state is as the fact has it. -/
def State.OfMemory (fact : Memory → Prop) (state : State) : Prop :=
  fact state.memory

namespace Action

open Memory (ClearBelow Live)
open State (OfMemory)

variable {α : Type} {before : Memory → Prop} {count : Nat} {memory : Memory}

theorem carries_liftM {access : Memory.Access α} {after : α → Memory → Prop}
    (carries : Carries (SameBut residue) before access after) :
    Carries (State.SameBut residue) (OfMemory before) (liftM access : Action α)
      fun result => OfMemory (after result) := by
  rw [Component.on_memory]
  exact State.SameBut.seesMemory.carries_on carries (fun _ known => known)
    fun _ _ _ _ known => known

theorem respects_liftM {access : Memory.Access α} (respects : Respects (SameBut residue) access) :
    Respects (State.SameBut residue) (liftM access : Action α) :=
  Carries.respects (carries_liftM (respects.carries anything))

theorem carries_onWorld {action : Action α} (onWorld : OnWorld action)
    {before : State → Prop}
    (still : ∀ state world, before state → before { state with toWorld := world }) :
    Carries (State.SameBut residue) before action fun _ => before :=
  onWorld.carries (fun _ _ same => same.world)
    (fun _ _ _ same => ⟨rfl, same.memory, same.heap⟩) still

theorem carries_takeString (id : UInt64) :
    Carries (State.SameBut residue) (OfMemory before) (takeString id) fun _ => OfMemory before := by
  rintro ⟨world, clean, heap⟩ ⟨_, stale, _⟩ ⟨rfl, same, rfl⟩ known
  unfold takeString
  dsimp only
  cases heap.take id with
  | ok result => exact .ok ⟨rfl, same, rfl⟩ known
  | error fault => exact .error ⟨rfl, same, rfl⟩

theorem carries_lookUpString (id : UInt64) :
    Carries (State.SameBut residue) (OfMemory before) (lookUpString id)
      fun _ => OfMemory before := by
  rintro ⟨world, clean, heap⟩ ⟨_, stale, _⟩ ⟨rfl, same, rfl⟩ known
  unfold lookUpString
  dsimp only
  cases heap.get id with
  | ok string => exact .ok ⟨rfl, same, rfl⟩ known
  | error fault => exact .error ⟨rfl, same, rfl⟩

theorem respects_pushString (string : Bytes) :
    Respects (State.SameBut residue) (pushString string) :=
  (State.SameBut.seesHeap.respects_allocString string).bind fun _ =>
    respects_liftM (Stack.respects_push _)

theorem carries_popString :
    Carries (State.SameBut residue) (OfMemory (Live residue (count + 1))) popString fun _ =>
      OfMemory fun memory => memory.Live residue count ∧ memory.ClearCell residue memory.sp := by
  refine (carries_liftM Stack.carries_pop).bind fun cell => ?_
  split
  · exact carries_takeString _
  · exact carries_throw _

/-! ### A literal -/

/-- The memory of the state that is read is one that was known already. -/
theorem carries_get_memory {rest : State → Action α} {after : α → State → Prop}
    (common : ∀ clean stale, State.SameBut residue clean stale → rest clean = rest stale)
    (later : ∀ state, state.memory = memory →
      Carries (State.SameBut residue) (OfMemory fun now => now = memory) (rest state) after) :
    Carries (State.SameBut residue) (OfMemory fun now => now = memory)
      ((get : Action State) >>= rest) after := by
  intro clean stale same known
  rw [get_bind, get_bind, ← common clean stale same]
  exact later clean known clean stale same known

/-- What is left of a literal whose length byte lies past the program. -/
def refuseLiteral : Action (Bytes × UInt8) := do
  let ip := (← get).memory.ip
  (Memory.programByte ip >>= fun _ => pure () : Memory.Access Unit)
  advance 1
  throw (.malformed .literalPastEnd)

/-- Such a literal is refused whatever the length byte is. -/
theorem literal_eq_refuseLiteral {state : State}
    (short : state.memory.programLength.toNat < (state.memory.ip + 1).toNat) :
    literal state = refuseLiteral state := by
  rw [literal, refuseLiteral, get_bind, get_bind]
  cases read : Memory.programByte state.memory.ip state.memory with
  | error fault last =>
      rw [bind_of_error (onMemory_of_error read),
        bind_of_error (onMemory_of_error (bind_of_error read))]
  | ok length after =>
      obtain rfl := Memory.eq_of_programByte read
      have discarded : (Memory.programByte state.memory.ip >>= fun _ => pure ()) state.memory =
          .ok () state.memory := by
        rw [bind_of_ok read]
        rfl
      have moved : advance 1 state.memory = .ok () (state.memory.setIp (state.memory.ip + 1)) := rfl
      have pastEnd : (state.memory.setIp (state.memory.ip + 1)).programLength.toNat <
          (state.memory.setIp (state.memory.ip + 1)).ip.toNat + length.toNat := by
        rw [Memory.programLength, Memory.flags_setIp, Memory.ip_setIp]
        rw [Memory.programLength] at short
        omega
      rw [bind_of_ok (onMemory_of_ok read), bind_of_ok (onMemory_of_ok discarded),
        bind_of_ok (onMemory_of_ok moved), bind_of_ok (onMemory_of_ok moved), get_bind,
        if_pos pastEnd]
      rfl

theorem respects_refuseLiteral :
    Respects (State.SameBut residue) refuseLiteral := by
  refine respects_get_bind (fun clean stale same => by rw [same.memory.ip]) fun state => ?_
  refine (respects_liftM (Carries.respects (Memory.carries_programByte_discard _))).bind fun _ => ?_
  exact (respects_liftM (respects_advance 1)).bind fun _ => respects_throw _

theorem carries_literal
    (unread : ∀ place, place < memory.literalBytes →
      ¬residue (memory.ip + UInt64.ofNat place).toNat) :
    Carries (State.SameBut residue) (OfMemory fun now => now = memory) literal
      fun _ => anything := by
  by_cases short : memory.programLength.toNat < (memory.ip + 1).toNat
  · rintro clean stale same rfl
    have shortToo : stale.memory.programLength.toNat < (stale.memory.ip + 1).toNat := by
      rwa [← same.memory.programLength, ← same.memory.ip]
    rw [literal_eq_refuseLiteral short, literal_eq_refuseLiteral shortToo]
    exact respects_refuseLiteral.carries anything clean stale same trivial
  refine carries_get_memory (fun clean stale same => by rw [same.memory.ip]) ?_
  rintro state rfl
  have first : ¬residue state.memory.ip.toNat := by
    have positive : 0 < state.memory.literalBytes := by
      simp only [Memory.literalBytes, if_neg short]
      split <;> omega
    have here : ¬residue (state.memory.ip + 0).toNat := unread 0 positive
    rwa [UInt64.add_zero] at here
  refine (carries_liftM (Memory.carries_programByte first)).bind fun length => ?_
  refine carries_of_fact (fun now known => known.1 ▸ known.2) fun isLength => ?_
  refine Carries.mono ?_ fun now known => known.1
  refine (carries_liftM (carries_advance 1)).bind fun _ => ?_
  refine carries_get_memory ?_ ?_
  · intro clean stale same
    dsimp only
    rw [same.memory.ip, same.memory.programLength]
  rintro moved isMoved
  rw [isMoved]
  refine carries_failIf _ fun fits => ?_
  have sameLength : (state.memory.setIp (state.memory.ip + 1)).programLength =
      state.memory.programLength := by
    rw [Memory.programLength, Memory.flags_setIp, Memory.programLength]
  rw [Memory.ip_setIp, sameLength, isLength] at fits
  have bytes : ∀ place, place < length.toNat →
      ¬residue ((state.memory.setIp (state.memory.ip + 1)).ip + UInt64.ofNat place).toNat := by
    intro place inside
    have later := unread (place + 1) (by
      rw [isLength] at inside
      simp only [Memory.literalBytes, if_neg short, if_neg fits]
      omega)
    rwa [UInt64.ofNat_add, UInt64.ofNat_one, UInt64.add_comm _ 1, ← UInt64.add_assoc,
      ← Memory.ip_setIp state.memory (state.memory.ip + 1)] at later
  exact (carries_liftM (Memory.carries_programBytes bytes)).bind fun _ =>
    carries_pure fun _ _ => trivial

end Action

/-! ## Instructions -/

/-- The block is one that an instruction which set out from `start` and reads none of the bytes has
left at a stage. -/
structure Stage.Clear (residue : Nat → Prop) (start : Memory) (stage : Stage) (now : Memory) :
    Prop where
  unchanged : stage.untouched = true → now = start
  free : stage.untouched = true → stage.room = true → now.sp.toNat ≠ now.layout.stackCells
  live : now.Live residue stage.live
  popped : 0 < stage.popped → now.ClearCell residue now.sp

namespace Stage.Clear

open Memory (ClearBelow Live)

variable {start now : Memory} {stage : Stage} {count : Nat}

theorem refl (start : Memory) :
    (Stage.asked 0).Clear residue start start :=
  ⟨fun _ => rfl, fun _ => (absurd · Bool.false_ne_true),
    ⟨fun _ => (absurd · (Nat.not_lt_zero _)), Nat.zero_le _⟩, (absurd · (Nat.lt_irrefl 0))⟩

theorem asked (known : (Stage.asked 0).Clear residue start now)
    (clear : start.ClearBelow residue count) (enough : count ≤ now.sp.toNat) :
    (Stage.asked count).Clear residue start now :=
  ⟨known.unchanged, fun _ => (absurd · Bool.false_ne_true),
    ⟨known.unchanged rfl ▸ clear, enough⟩, (absurd · (Nat.lt_irrefl 0))⟩

/-- What has changed something need not know where it set out from. -/
theorem touched {other : Memory} {former : Stage} (known : former.Clear residue other now)
    (sameLive : former.live = stage.live) (samePopped : former.popped = stage.popped) :
    stage.touched.Clear residue start now :=
  ⟨(absurd · Bool.false_ne_true), (absurd · Bool.false_ne_true), sameLive ▸ known.live,
    fun some => known.popped (samePopped ▸ some)⟩

theorem clearCell (known : stage.Clear residue start now) {depth : UInt64}
    (inside : depth.toNat < stage.live) :
    now.ClearCell residue (Stack.index now depth) := by
  have clear := known.live.clear depth.toNat inside
  rwa [UInt64.ofNat_toNat] at clear

/-- Of a stage at which nothing is asked of the stack nothing is to be known. -/
theorem of_asked_zero (now : Memory) :
    (Stage.asked 0).free.touched.Clear residue start now :=
  (refl now).touched rfl rfl

theorem live_of_le (known : stage.Clear residue start now) (enough : count ≤ stage.live) :
    now.Live residue (stage.live - count + count) := by
  rw [Nat.sub_add_cancel enough]
  exact known.live

theorem lowered (known : now.Live residue (stage.live - count) ∧ now.ClearCell residue now.sp) :
    (stage.lowered count).Clear residue start now :=
  ⟨(absurd · Bool.false_ne_true), (absurd · Bool.false_ne_true), known.1, fun _ => known.2⟩

end Stage.Clear

open State (OfMemory) in
open TagMachine.Action in
/-- At every stage the rest does the same in both states. -/
def Opcode.residueRule (config : Config) {opcode : Opcode} {memory : Memory}
    (unread : ¬opcode.Reads residue memory) : StageRule config opcode where
  held _ := True
  holds stage rest := Carries (State.SameBut residue) (OfMemory (stage.Clear residue memory)) rest
    fun _ => anything
  ends := Respects (State.SameBut residue)
  stop _ := carries_pure fun _ _ => trivial
  fail _ _ _ := carries_throw _
  require := by
    rintro count rest rfl later
    refine (carries_liftM (Stack.carries_require _)).bind fun _ => later.mono ?_
    exact fun state known => known.1.asked (clearBelow_required config unread) known.2
  requireInts := by
    rintro count rest rfl later
    have clear := clearBelow_required config unread
    refine (carries_liftM (Stack.carries_requireInts fun now known => ?_)).bind fun _ =>
      later.mono fun state known => known.1.asked clear known.2
    exact known.unchanged rfl ▸ clear
  requireFree _ _ later := (carries_liftM Stack.carries_requireFree).bind fun _ =>
    later.mono fun _ known =>
      ⟨known.1.unchanged, fun _ _ => known.2, known.1.live, known.1.popped⟩
  peek inside later :=
    (carries_liftM (Stack.carries_peek fun _ known => known.clearCell inside)).bind later
  drop some enough later := (carries_liftM ((Stack.carries_drop some).mono fun _ known =>
    known.live_of_le enough)).bind fun _ => later.mono fun _ known => .lowered known
  pop live later := (carries_liftM (Stack.carries_pop.mono fun _ known =>
    known.live_of_le live)).bind fun cell => (later cell).mono fun _ known => .lowered known
  popString live _ later := (carries_popString.mono fun _ known =>
    known.live_of_le live).bind fun string =>
      (later string trivial).mono fun _ known => .lowered known
  lookUpString id _ later := (carries_lookUpString id).bind fun string => later string trivial
  replaceTop cell live _ := by
    rw [← liftM_bind]
    exact (carries_liftM (carries_replaceTop cell)).mono fun _ known => known.live_of_le live
  push cell _ _ _ later :=
    ((respects_liftM (Stack.respects_push cell)).bind fun _ => later).carries _
  pushResult cell _ popped _ := by
    rw [← liftM_bind]
    exact (carries_liftM (carries_pushResult cell)).mono fun _ known => known.popped popped
  pushString _ _ _ later := ((respects_pushString _).bind fun _ => later).carries _
  setCmp _ on _ := (respects_liftM (respects_setCmp on)).carries _
  setHalt _ _ := (respects_liftM (respects_setHalt true)).carries _
  readLine limit _ later := (carries_onWorld (onWorld_onInput _) fun _ _ => id).bind fun line =>
    (later line).mono fun _ known => known.touched rfl rfl
  readWord later := (carries_onWorld onWorld_inputWord fun _ _ => id).bind fun word =>
    (later word).mono fun _ known => known.touched rfl rfl
  writeFile _ _ later := (carries_onWorld (onWorld_onFiles _) fun _ _ => id).bind fun count =>
    (later count).mono fun _ known => known.touched rfl rfl
  readFile _ later := (carries_onWorld (onWorld_contentOf config _) fun _ _ => id).bind
    fun content => (later content).mono fun _ known => known.touched rfl rfl
  print _ _ _ :=
    (carries_onWorld (onWorld_print _) fun _ _ => id).weaken fun _ _ _ => trivial
  exchange isSwap := by
    subst isSwap
    refine (carries_liftM (carries_exchange _)).mono fun state known => ?_
    have clear := clearBelow_of_not_reads unread
    rw [← known.unchanged rfl] at clear
    exact clear
  jump taken jumps := by
    refine Carries.mono ?_ fun state known => known.unchanged rfl
    refine carries_get_memory (fun clean stale same => by rw [same.memory.cmp]) ?_
    rintro state rfl
    refine carries_liftM (carries_jump fun isTaken place inside => ?_)
    exact not_residue_of_not_reads unread (by rwa [bytesRead_of_jump? jumps, if_pos isTaken])
  immediate isPush later := by
    subst isPush
    refine (carries_liftM (carries_get_bind (fun clean stale same => by rw [same.ip]) fun state =>
      carries_of_fact (fun now known => ?_) fun unreadWord =>
        (Memory.carries_programWord unreadWord).mono fun _ known => known.1)).bind later
    rcases known with ⟨known, rfl⟩
    obtain rfl := known.unchanged rfl
    intro place inside
    exact not_residue_of_not_reads unread (by rwa [bytesRead, if_neg (known.free rfl rfl)])
  literal isPushs later := by
    subst isPushs
    refine Carries.bind (carries_of_fact (fun state known => ?_) fun unreadBytes =>
      (carries_literal unreadBytes).mono fun state known => known.unchanged rfl) fun read =>
        (later read).mono fun state _ => .of_asked_zero _
    have free := known.free rfl rfl
    rw [known.unchanged rfl] at free
    intro place inside
    exact not_residue_of_not_reads unread (by rwa [bytesRead, if_neg free])
  done := respects_pure ()
  advance count _ := respects_liftM (respects_advance count)

open State (OfMemory) in
/-- An instruction that reads none of the bytes does the same in both states. -/
theorem Opcode.carries_execute (config : Config) {opcode : Opcode} {memory : Memory}
    (unread : ¬opcode.Reads residue memory) :
    Carries (State.SameBut residue) (OfMemory fun now => now = memory) (opcode.execute config)
      fun _ => anything := by
  refine Carries.mono (residueRule config unread).execute ?_
  rintro state rfl
  exact .refl _

end TagMachine
