import TagMachine.Proofs.Components
import TagMachine.Proofs.Ensures
import TagMachine.Proofs.Memory.Anywhere
import TagMachine.Proofs.Memory.Looks
import TagMachine.Proofs.Stages

/-!
# Checks for cells and for room

Every instruction that needs live cells, or room for one, looks for them before it does anything,
and only that first check can find too few.  What comes later can fail in other ways, also on a
block whose registers hold arbitrary words: an instruction that looks at its result again has the
cell that it has just written, for a write to that cell does not meet the stack pointer.
-/

namespace TagMachine

/-- The fault is what a first check for cells and room finds on a block. -/
def Fault.IsRefusal (required : UInt64) (room : Bool) (memory : Memory) : Fault → Prop
  | .stackUnderflow wanted available =>
      wanted = required ∧ available = memory.sp ∧ memory.sp < required
  | .stackFull => room = true ∧ memory.sp.toNat = memory.layout.stackCells
  | _ => False

/-! ## Computations that do not run out of cells -/

section Sturdy

variable {σ α β : Type} {before : σ → Prop} {after : α → σ → Prop}

/-- The failure is not for want of cells or of room. -/
abbrev otherwise (fault : Fault) (_ : σ) : Prop :=
  ¬fault.IsArity

/-- From any state the computation fails, if it does, for another reason than want of cells or room. -/
abbrev Sturdy (action : EStateM Fault σ α) : Prop :=
  Ensures anything action (fun _ => anything) otherwise

/-- A failure for want of cells or of room is that of the first check, and nothing has changed. -/
def Refused (required : UInt64) (room : Bool) (memory : Memory) (start : σ) (fault : Fault)
    (last : σ) : Prop :=
  fault.IsArity → last = start ∧ fault.IsRefusal required room memory

theorem Sturdy.bind {first : EStateM Fault σ α} {rest : α → EStateM Fault σ β} (here : Sturdy first)
    (later : ∀ result, Sturdy (rest result)) :
    Sturdy (first >>= rest) :=
  Ensures.bind here later

theorem sturdy_pure (result : α) : Sturdy (pure result : EStateM Fault σ α) :=
  ensures_pure fun _ _ => trivial

theorem sturdy_modify (change : σ → σ) : Sturdy (modify change : EStateM Fault σ PUnit) :=
  ensures_modify fun _ _ => trivial

theorem sturdy_get_bind {rest : σ → EStateM Fault σ β} (later : ∀ state, Sturdy (rest state)) :
    Sturdy ((get : EStateM Fault σ σ) >>= rest) :=
  ensures_get_bind fun state => (later state).mono fun _ _ => trivial

theorem sturdy_failIf {condition : Prop} [Decidable condition] {fault : Fault}
    (other : ¬fault.IsArity) {rest : EStateM Fault σ α} (later : Sturdy rest) :
    Sturdy (if condition then do throw fault; rest else rest) :=
  ensures_failIf (fun _ _ _ => other) fun _ => later

theorem ensures_ofOtherwise {required : UInt64} {room : Bool} {memory : Memory} {start : σ}
    {action : EStateM Fault σ α} (ensures : Ensures before action after otherwise) :
    Ensures before action after (Refused required room memory start) :=
  ensures.weaken (fun _ _ known => known) fun _ _ other arity => (other arity).elim

end Sturdy

namespace Memory

/-! ## Memory -/

variable {α : Type}

theorem sturdy_load (address : UInt64) : Sturdy (load address) := by
  intro memory _
  unfold load
  split
  · exact .ok trivial
  · exact .error id

theorem sturdy_store (address word : UInt64) : Sturdy (store address word) := by
  intro memory _
  unfold store
  split
  · exact .ok trivial
  · exact .error id

theorem sturdy_bytePosition (offset : UInt64) : Sturdy (bytePosition offset) := by
  intro memory _
  unfold bytePosition
  dsimp only
  split
  · exact .ok trivial
  · exact .error id

theorem sturdy_programByte (offset : UInt64) : Sturdy (programByte offset) :=
  (sturdy_bytePosition offset).bind fun _ => (sturdy_load _).bind fun _ => sturdy_pure _

theorem sturdy_programBytes (count : Nat) (offset : UInt64) :
    Sturdy (programBytes count offset) := by
  induction count generalizing offset with
  | zero => exact sturdy_pure []
  | succ count inductionHypothesis =>
      exact (sturdy_programByte offset).bind fun _ =>
        (inductionHypothesis (offset + 1)).bind fun _ => sturdy_pure _

theorem Looks.ensures {access : Access α} (looks : Looks access) (sturdy : Sturdy access)
    (start : Memory) :
    Ensures (fun now => now = start) access (fun _ now => now = start) otherwise := by
  have kept := (looks start).ensures (sturdy.mono fun _ _ => trivial)
  exact kept.weaken (fun _ _ known => known.2) fun _ _ other => other

end Memory

namespace Stack

open Memory (Looks)

/-! ## First checks -/

variable {room : Bool} {start : Memory}

theorem ensures_require (count : UInt64) :
    Ensures (fun now => now = start) (require count) (fun _ now => now = start ∧ count ≤ start.sp)
      (Refused count room start start) := by
  rintro _ rfl
  rw [require_eq]
  split
  · rename_i few
    exact .error fun _ => ⟨rfl, rfl, rfl, UInt64.lt_iff_toNat_lt.mpr few⟩
  · rename_i enough
    exact .ok ⟨rfl, UInt64.le_iff_toNat_le.mpr (Nat.not_lt.mp enough)⟩

theorem ensures_requireFree (required : UInt64) :
    Ensures (fun now => now = start) requireFree (fun _ now => now = start ∧ True)
      (Refused required true start start) := by
  rintro _ rfl
  rw [requireFree, get_bind]
  split
  · rename_i full
    exact .error fun _ => ⟨rfl, rfl, full⟩
  · exact .ok ⟨rfl, trivial⟩

/-! ## Moves -/

/-- The stack pointer counts so many cells. -/
def Counts (count : Nat) (memory : Memory) : Prop :=
  memory.sp.toNat = count

variable {count : Nat}

theorem sturdy_peek (depth : UInt64) : Sturdy (peek depth) :=
  sturdy_get_bind fun _ => (Memory.sturdy_load _).bind fun _ => sturdy_pure _

theorem sturdy_requireIntsFrom (depth : UInt64) (count : Nat) :
    Sturdy (requireIntsFrom depth count) := by
  induction count generalizing depth with
  | zero => exact sturdy_pure ()
  | succ count inductionHypothesis =>
      exact (sturdy_peek depth).bind fun _ => sturdy_failIf id (inductionHypothesis (depth + 1))

theorem ensures_requireInts (count : UInt64) :
    Ensures (fun now => now = start) (requireInts count)
      (fun _ now => now = start ∧ count ≤ start.sp) (Refused count room start start) := by
  refine (ensures_require count).bind fun _ => ?_
  rintro now ⟨rfl, enough⟩
  have looked := (Memory.looks_requireIntsFrom 0 count.toNat).ensures (sturdy_requireIntsFrom _ _)
  exact ensures_ofOtherwise ((looked now).weaken (fun _ _ same => ⟨same, enough⟩)
    fun _ _ other => other) _ rfl

/-- Integers are asked for again when there is a cell. -/
theorem ensures_requireInts_one :
    Ensures (Counts (count + 1)) (requireInts 1) (fun _ => anything) otherwise := by
  intro memory live
  have enough : ¬memory.sp.toNat < (1 : UInt64).toNat := by
    rw [show memory.sp.toNat = count + 1 from live, UInt64.toNat_one]
    omega
  have passed : require 1 memory = .ok () memory := by
    rw [require_eq, if_neg enough]
  rw [requireInts, bind_of_ok passed]
  exact sturdy_requireIntsFrom 0 _ memory trivial

theorem ensures_drop (less : UInt64) :
    Ensures (Counts (count + less.toNat)) (drop less) (fun _ => Counts count) otherwise := by
  refine ensures_modify fun memory live => ?_
  have before : memory.sp.toNat = count + less.toNat := live
  rw [Counts, Memory.sp_setSp, UInt64.toNat_sub_of_le _ _ (by rw [UInt64.le_iff_toNat_le]; omega)]
  omega

theorem ensures_pop :
    Ensures (Counts (count + 1)) pop (fun _ => Counts count) otherwise := by
  refine (ensures_drop 1).bind fun _ => ?_
  intro memory lowered
  have read := (Memory.looks_load (Memory.cellAddress memory.sp)).ensures (Memory.sturdy_load _)
  refine (read memory).bind (fun _ => ensures_pure ?_) memory rfl
  rintro _ rfl
  exact lowered

/-- A written cell leaves the stack pointer, for it lies below it. -/
theorem ensures_poke (cell : Cell) :
    Ensures (Counts (count + 1)) (poke 0 cell) (fun _ => Counts (count + 1)) otherwise := by
  intro memory live
  have isLive : memory.sp ≠ 0 := by
    intro none
    rw [Counts, none] at live
    exact absurd live (Nat.succ_ne_zero count).symm
  by_cases inside : memory.InBlock (Memory.cellAddress (index memory 0))
  · rw [poke_of_inBlock inside]
    refine .ok ?_
    rwa [Counts, sp_put_cell isLive]
  · rw [poke_eq, Memory.storeCell, Memory.store_of_not_inBlock inside]
    exact .error id

theorem ensures_push (small : count + 1 < UInt64.size) (cell : Cell) :
    Ensures (Counts count) (push cell) (fun _ => Counts (count + 1)) otherwise := by
  intro memory live
  refine Ensures.bind (Memory.sturdy_store _ _) (fun _ => ensures_modify ?_) memory trivial
  intro after _
  have before : memory.sp.toNat = count := live
  simp only [UInt64.size] at small
  rw [Counts, after.sp_setSp, UInt64.toNat_add, UInt64.toNat_one, before]
  omega

theorem sturdy_poke (depth : UInt64) (cell : Cell) : Sturdy (poke depth cell) :=
  sturdy_get_bind fun _ => Memory.sturdy_store _ _

theorem sturdy_push (cell : Cell) : Sturdy (push cell) :=
  sturdy_get_bind fun _ => (Memory.sturdy_store _ _).bind fun _ => sturdy_modify _

end Stack

end TagMachine
