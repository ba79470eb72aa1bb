import TagMachine.Machine.Execute
import TagMachine.Proofs.Memory.Looks
import TagMachine.Proofs.Memory.View
import TagMachine.Proofs.Ranges.Checked

/-!
# Memory with checked operations

The registers lie in every block, and cells are found modulo `2 ^ 64` and looked up with a check of
their own.  What is left are the positions of program bytes: the byte address of the store is a
product, and a byte is shifted out of its word by eight times its place in it.  No memory access
changes the layout, so that the store of a bounded layout stays where it is.
-/

namespace TagMachine

theorem Memory.registers_lt_size (memory : Memory) :
    Layout.ipWord < memory.words.size ∧ Layout.spWord < memory.words.size ∧
      memory.layout.flagsWord < memory.words.size := by
  rw [memory.size_words]
  exact ⟨memory.layout.ipWord_lt_words, memory.layout.spWord_lt_words,
    memory.layout.flagsWord_lt_words⟩

/-- The layout of the block is bounded. -/
def Memory.Bounded (memory : Memory) : Prop :=
  memory.layout.Bounded

/-! ## Accesses that keep the layout -/

section Keeps

open Stack

theorem keeps_store (address word : UInt64) :
    Keeps Memory.Bounded (Memory.store address word) := by
  rintro memory _ ⟨rfl, bounded⟩
  unfold Memory.store
  split
  · exact .ok ⟨rfl, bounded⟩
  · exact .error ⟨rfl, bounded⟩

theorem keeps_setIp (ip : UInt64) :
    Keeps Memory.Bounded (modify (·.setIp ip) : Memory.Access Unit) :=
  keeps_modify fun _ bounded => bounded

theorem keeps_setCmp (on : Bool) :
    Keeps Memory.Bounded (modify (·.setCmp on) : Memory.Access Unit) :=
  keeps_modify fun _ bounded => bounded

theorem keeps_setHalt (on : Bool) :
    Keeps Memory.Bounded (modify (·.setHalt on) : Memory.Access Unit) :=
  keeps_modify fun _ bounded => bounded

theorem keeps_poke (depth : UInt64) (cell : Cell) :
    Keeps Memory.Bounded (poke depth cell) :=
  keeps_get_bind fun _ => keeps_store _ _

theorem keeps_push (cell : Cell) :
    Keeps Memory.Bounded (push cell) :=
  keeps_get_bind fun _ => (keeps_store _ _).bind fun _ => keeps_modify fun _ bounded => bounded

theorem keeps_drop (count : UInt64) :
    Keeps Memory.Bounded (drop count) :=
  keeps_modify fun _ bounded => bounded

theorem keeps_pop :
    Keeps Memory.Bounded pop :=
  (keeps_drop 1).bind fun _ => keeps_get_bind fun _ => (Memory.looks_load _).keeps.bind fun _ =>
    respects_pure _

theorem keeps_exchange (required : UInt64) :
    Keeps Memory.Bounded (Action.exchange required) :=
  (Memory.looks_require required).keeps.bind fun _ => (Memory.looks_peek 0).keeps.bind fun _ =>
    (Memory.looks_peek 1).keeps.bind fun _ => (keeps_poke _ _).bind fun _ => keeps_poke _ _

theorem keeps_advance (count : UInt64) :
    Keeps Memory.Bounded (Action.advance count) :=
  keeps_modify fun _ bounded => bounded

theorem keeps_jump (taken : Bool) :
    Keeps Memory.Bounded (Action.jump taken) := by
  cases taken with
  | false => exact keeps_advance 2
  | true =>
      exact keeps_get_bind fun _ => (Memory.looks_programTarget _).keeps.bind fun _ => keeps_setIp _

end Keeps

namespace Checked

/-! ## Program bytes -/

/-- The word that holds a program byte, and how far the byte is shifted in it. -/
def bytePosition (offset : UInt64) : Checked Fault Memory (UInt64 × UInt64) := do
  let base ← inRange (product? UInt64.size (← get).layout.programBase 8)
  if UInt64.size ≤ base + offset.toNat then
    throw (.failure (.memoryFault (UInt64.ofNat (UInt64.size - 1))))
  let address := UInt64.ofNat (base + offset.toNat)
  let word ← inRange (quotient? address 8)
  let place ← inRange (remainder? address 8)
  let shift ← inRange (product? UInt32.size place.toNat 8)
  return (word, UInt64.ofNat shift)

def programByte (offset : UInt64) : Checked Fault Memory UInt8 := do
  let (address, shift) ← bytePosition offset
  let word ← plain (Memory.load address)
  let shifted ← inRange (shiftRight? word shift)
  return shifted.toUInt8

def storeProgramByte (offset : UInt64) (byte : UInt8) : Checked Fault Memory Unit := do
  let (address, shift) ← bytePosition offset
  let word ← plain (Memory.load address)
  let mask ← inRange (shiftLeft? 0xFF shift)
  let shifted ← inRange (shiftLeft? byte.toUInt64 shift)
  plain (Memory.store address ((word &&& ~~~mask) ||| shifted))

def programBytes : (count : Nat) → (offset : UInt64) → Checked Fault Memory Bytes
  | 0, _ => return []
  | count + 1, offset => do
      let byte ← programByte offset
      let rest ← programBytes count (offset + 1)
      return byte :: rest

def programTarget (offset : UInt64) : Checked Fault Memory UInt16 := do
  let bytes ← programBytes 2 offset
  return UInt16.ofNat bytes.littleEndian

def programWord (offset : UInt64) : Checked Fault Memory UInt64 := do
  let bytes ← programBytes 8 offset
  return UInt64.ofNat bytes.littleEndian

/-- The program bytes from `start + index` on. -/
def literalFrom (start : UInt64) : (count index : Nat) → Checked Fault Memory Bytes
  | 0, _ => return []
  | count + 1, index => do
      let offset ← inRange (sum? start.toNat index)
      let byte ← programByte (UInt64.ofNat offset)
      let rest ← literalFrom start count (index + 1)
      return byte :: rest

def programLength? (memory : Memory) : Option UInt32 :=
  (shiftRight? memory.flags 32).map (·.toUInt32)

def setProgramLength? (memory : Memory) (length : UInt32) : Option Memory :=
  (shiftLeft? length.toUInt64 32).map fun upper =>
    memory.setFlags ((memory.flags &&& Memory.lowerHalf) ||| upper)

theorem programLength?_eq (memory : Memory) :
    programLength? memory = some memory.programLength := rfl

/-! ## No operation is out of range -/

theorem bytePosition_eq_bind (offset : UInt64) :
    Memory.bytePosition offset = (do
      let base := 8 * (← get).layout.programBase
      if UInt64.size ≤ base + offset.toNat then
        throw (.memoryFault (UInt64.ofNat (UInt64.size - 1)))
      let address := UInt64.ofNat (base + offset.toNat)
      return (address / 8, UInt64.ofNat ((address % 8).toNat * 8))) := by
  funext memory
  rw [get_bind, Memory.bytePosition]
  dsimp only
  by_cases narrow : 8 * memory.layout.programBase + offset.toNat < UInt64.size
  · have address := UInt64.toNat_ofNat_of_lt' narrow
    have word : UInt64.ofNat (8 * memory.layout.programBase + offset.toNat) / 8 =
        UInt64.ofNat ((8 * memory.layout.programBase + offset.toNat) / 8) := by
      apply UInt64.toNat_inj.mp
      rw [UInt64.toNat_div, address, UInt64.toNat_ofNat_of_lt']
      · rfl
      · omega
    have place : (UInt64.ofNat (8 * memory.layout.programBase + offset.toNat) % 8).toNat =
        (8 * memory.layout.programBase + offset.toNat) % 8 := by
      rw [UInt64.toNat_mod, address]
      rfl
    rw [if_pos narrow, if_neg (Nat.not_le.mpr narrow), word, place, Nat.mul_comm _ 8]
    rfl
  · rw [if_neg narrow, if_pos (Nat.le_of_not_lt narrow)]
    rfl

theorem toNat_mod_eight_lt (word : UInt64) : (word % 8).toNat < 8 := by
  rw [UInt64.toNat_mod]
  exact Nat.mod_lt _ (by decide)

theorem follows_bytePosition (offset : UInt64) :
    Follows Memory.Bounded (bytePosition offset) (Memory.bytePosition offset) := by
  rw [bytePosition_eq_bind]
  refine follows_get_bind fun memory bounded => ?_
  have stackLe := bounded.stack_le
  simp only [Config.maxStackCapacity] at stackLe
  have base : product? UInt64.size memory.layout.programBase 8 =
      some (8 * memory.layout.programBase) := by
    rw [product?, if_pos, Nat.mul_comm]
    simp only [Layout.programBase, Layout.stackBase, UInt64.size]
    omega
  refine follows_inRange base <| follows_failIf _ fun narrow => ?_
  have place := toNat_mod_eight_lt (UInt64.ofNat (8 * memory.layout.programBase + offset.toNat))
  refine follows_inRange rfl <| follows_inRange rfl <| follows_inRange (if_pos ?_) <|
    follows_pure _
  simp only [UInt32.size]
  omega

theorem shift_lt_of_bytePosition {offset address shift : UInt64} {memory after : Memory}
    (found : Memory.bytePosition offset memory = .ok (address, shift) after) :
    shift < 64 := by
  unfold Memory.bytePosition at found
  dsimp only at found
  split at found
  · simp only [EStateM.Result.ok.injEq, Prod.mk.injEq] at found
    rcases found with ⟨⟨-, rfl⟩, -⟩
    rw [UInt64.lt_iff_toNat_lt, UInt64.toNat_ofNat']
    change _ < 64
    omega
  · cases found

theorem follows_programByte (offset : UInt64) :
    Follows Memory.Bounded (programByte offset) (Memory.programByte offset) := by
  intro memory bounded
  refine (follows_bytePosition offset memory bounded).bind ?_
  rintro ⟨address, shift⟩ after found still
  have narrow := shift_lt_of_bytePosition found
  refine Follows.bind (follows_plain (Memory.looks_load address).keeps) (fun word => ?_) after still
  exact follows_inRange (if_pos narrow) (follows_pure _)

theorem follows_storeProgramByte (offset : UInt64) (byte : UInt8) :
    Follows Memory.Bounded (storeProgramByte offset byte)
      (Memory.storeProgramByte offset byte) := by
  intro memory bounded
  refine (follows_bytePosition offset memory bounded).bind ?_
  rintro ⟨address, shift⟩ after found still
  have narrow := shift_lt_of_bytePosition found
  refine Follows.bind (follows_plain (Memory.looks_load address).keeps) (fun word => ?_) after still
  exact follows_inRange (if_pos narrow) <| follows_inRange (if_pos narrow) <|
    follows_plain (keeps_store _ _)

theorem follows_programBytes (count : Nat) (offset : UInt64) :
    Follows Memory.Bounded (programBytes count offset) (Memory.programBytes count offset) := by
  induction count generalizing offset with
  | zero => exact follows_pure []
  | succ count inductionHypothesis =>
      exact (follows_programByte offset).bind fun _ =>
        (inductionHypothesis (offset + 1)).bind fun _ => follows_pure _

theorem follows_programTarget (offset : UInt64) :
    Follows Memory.Bounded (programTarget offset) (Memory.programTarget offset) :=
  (follows_programBytes 2 offset).bind fun _ => follows_pure _

theorem follows_programWord (offset : UInt64) :
    Follows Memory.Bounded (programWord offset) (Memory.programWord offset) :=
  (follows_programBytes 8 offset).bind fun _ => follows_pure _

/-- The literal is read at sums, which are in range when its end is. -/
theorem follows_literalFrom {start : UInt64} {count index : Nat}
    (within : start.toNat + index + count < UInt64.size) :
    Follows Memory.Bounded (literalFrom start count index)
      (Memory.programBytes count (UInt64.ofNat (start.toNat + index))) := by
  induction count generalizing index with
  | zero => exact follows_pure []
  | succ count inductionHypothesis =>
      have next : UInt64.ofNat (start.toNat + index) + 1 =
          UInt64.ofNat (start.toNat + (index + 1)) :=
        (UInt64.ofNat_add (start.toNat + index) 1).symm
      refine follows_inRange (if_pos (by omega)) <| (follows_programByte _).bind fun _ => ?_
      rw [next]
      exact (inductionHypothesis (by omega)).bind fun _ => follows_pure _

/-- No literal goes on past the last offset. -/
example (memory : Memory) :
    literalFrom 0xFFFFFFFFFFFFFFFF 1 1 memory = .error .outOfRange memory := by
  rfl

end Checked

end TagMachine
