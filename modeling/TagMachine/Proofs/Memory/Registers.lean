import TagMachine.Cell
import TagMachine.Proofs.Bits

/-!
# Registers of a memory block

The instruction pointer, the stack pointer and the word of flags each have a word of their own, so
writing one of them shows in that one alone.  The word of flags holds two bits and, above them, the
length of the program, and none of the three touches another.
-/

namespace TagMachine

namespace Layout

theorem stackBase_le_programBase (layout : Layout) :
    stackBase ≤ layout.programBase := by
  simp only [programBase]
  omega

theorem programBase_le_flagsWord (layout : Layout) :
    layout.programBase ≤ layout.flagsWord := by
  simp only [flagsWord]
  omega

theorem ne_ipWord {position : Nat} (above : stackBase ≤ position) :
    position ≠ ipWord := by
  simp only [stackBase] at above
  simp only [ipWord]
  omega

theorem ne_spWord {position : Nat} (above : stackBase ≤ position) :
    position ≠ spWord := by
  simp only [stackBase] at above
  simp only [spWord]
  omega

theorem stackBase_le_flagsWord (layout : Layout) :
    stackBase ≤ layout.flagsWord :=
  Nat.le_trans layout.stackBase_le_programBase layout.programBase_le_flagsWord

end Layout

namespace Memory

/-! ## The word of flags -/

section Flags

open Bits

/-- The word of flags of a machine whose program has the given length. -/
def flagWord (halt cmp : Bool) (length : UInt32) : UInt64 :=
  (length.toUInt64 <<< 32) ||| (if halt then 1 else 0) ||| (if cmp then 2 else 0)

/-- The flags as a number: two bits, and the length in the upper half. -/
theorem toNat_flagWord (halt cmp : Bool) (length : UInt32) :
    (flagWord halt cmp length).toNat =
      2 ^ 32 * length.toNat + (halt.toNat + 2 * cmp.toNat) := by
  have upper : (length.toUInt64 <<< (32 : UInt64)).toNat = 2 ^ 32 * length.toNat := by
    have small := length.toNat_lt
    have amount : (32 : UInt64).toNat % 64 = 32 := rfl
    rw [UInt64.toNat_shiftLeft, UInt32.toNat_toUInt64, amount, Nat.shiftLeft_eq]
    omega
  have disjoint (low : Nat) (small : low < 2 ^ 32) :
      2 ^ 32 * length.toNat ||| low = 2 ^ 32 * length.toNat + low :=
    (Nat.two_pow_add_eq_or_of_lt small _).symm
  rw [flagWord, UInt64.toNat_or, UInt64.toNat_or, upper, Nat.or_assoc]
  cases halt <;> cases cmp <;> exact disjoint _ (by decide)

private theorem bit_length (length : UInt32) {place : Nat} (low : place < 32) :
    bit (length.toUInt64 <<< 32) place = false := by
  have shifted :
      bit (length.toUInt64 <<< 32) place =
        (decide (32 ≤ place ∧ place < 64) && bit length.toUInt64 (place - 32)) :=
    bit_shiftLeft (by decide) length.toUInt64 place
  have below : ¬ 32 ≤ place := Nat.not_le_of_lt low
  simp [shifted, below]

private theorem bit_flagWord (halt cmp : Bool) (length : UInt32) (place : Nat) :
    bit (flagWord halt cmp length) place =
      if place = 0 then halt
      else if place = 1 then cmp
      else bit (length.toUInt64 <<< 32) place := by
  rw [flagWord, bit_or, bit_or]
  by_cases first : place = 0
  · subst first
    cases halt <;> cases cmp <;> simp [bit_length, isSingle_one.2, isSingle_two.2]
  · by_cases second : place = 1
    · subst second
      cases halt <;> cases cmp <;> simp [bit_length, isSingle_one.2, isSingle_two.2]
    · cases halt <;> cases cmp <;> simp [isSingle_one.2, isSingle_two.2, first, second]

theorem halt_flagWord (halt cmp : Bool) (length : UInt32) :
    ((flagWord halt cmp length &&& 1) != 0) = halt := by
  rw [and_ne_zero isSingle_one, bit_flagWord, if_pos rfl]

theorem cmp_flagWord (halt cmp : Bool) (length : UInt32) :
    ((flagWord halt cmp length &&& 2) != 0) = cmp := by
  rw [and_ne_zero isSingle_two, bit_flagWord, if_neg (by omega), if_pos rfl]

theorem programLength_flagWord (halt cmp : Bool) (length : UInt32) :
    (flagWord halt cmp length >>> 32).toUInt32 = length := by
  apply UInt32.toNat_inj.mp
  have small := length.toNat_lt
  have shifted :
      (flagWord halt cmp length >>> 32).toNat =
        (flagWord halt cmp length).toNat / 2 ^ 32 := by
    rw [UInt64.toNat_shiftRight]
    exact Nat.shiftRight_eq_div_pow _ _
  rw [UInt64.toNat_toUInt32, shifted, toNat_flagWord]
  cases halt <;> cases cmp <;> simp only [Bool.toNat_true, Bool.toNat_false] <;> omega

theorem withFlag_halt (halt cmp on : Bool) (length : UInt32) :
    withFlag (flagWord halt cmp length) 1 on = flagWord on cmp length := by
  apply eq_of_bit_eq
  intro place _
  rw [bit_withFlag isSingle_one, bit_flagWord, bit_flagWord]
  split <;> rfl

theorem withFlag_cmp (halt cmp on : Bool) (length : UInt32) :
    withFlag (flagWord halt cmp length) 2 on = flagWord halt on length := by
  apply eq_of_bit_eq
  intro place _
  rw [bit_withFlag isSingle_two, bit_flagWord, bit_flagWord]
  by_cases second : place = 1
  · simp [second]
  · simp [second]

end Flags

/-! ## Words after a write to a register -/

@[simp] theorem layout_setFlags (memory : Memory) (flags : UInt64) :
    (memory.setFlags flags).layout = memory.layout := rfl

theorem wordAt_put_self {memory : Memory} {position : Nat}
    (inside : position < memory.layout.words) (word : UInt64) :
    (memory.put position word).wordAt position = word := by
  rw [wordAt_put, if_pos ⟨rfl, inside⟩]

theorem wordAt_put_of_ne (memory : Memory) {position other : Nat}
    (different : other ≠ position) (word : UInt64) :
    (memory.put position word).wordAt other = memory.wordAt other := by
  rw [wordAt_put, if_neg (fun same => different same.1.symm)]

@[simp] theorem ip_setIp (memory : Memory) (ip : UInt64) :
    (memory.setIp ip).ip = ip :=
  wordAt_put_self memory.layout.ipWord_lt_words ip

@[simp] theorem sp_setIp (memory : Memory) (ip : UInt64) :
    (memory.setIp ip).sp = memory.sp :=
  memory.wordAt_put_of_ne (by decide) ip

@[simp] theorem flags_setIp (memory : Memory) (ip : UInt64) :
    (memory.setIp ip).flags = memory.flags :=
  memory.wordAt_put_of_ne (Layout.ne_ipWord memory.layout.stackBase_le_flagsWord) ip

theorem wordAt_setIp (memory : Memory) {position : Nat}
    (above : Layout.stackBase ≤ position) (ip : UInt64) :
    (memory.setIp ip).wordAt position = memory.wordAt position :=
  memory.wordAt_put_of_ne (Layout.ne_ipWord above) ip

@[simp] theorem ip_setSp (memory : Memory) (sp : UInt64) :
    (memory.setSp sp).ip = memory.ip :=
  memory.wordAt_put_of_ne (by decide) sp

@[simp] theorem sp_setSp (memory : Memory) (sp : UInt64) :
    (memory.setSp sp).sp = sp :=
  wordAt_put_self memory.layout.spWord_lt_words sp

@[simp] theorem flags_setSp (memory : Memory) (sp : UInt64) :
    (memory.setSp sp).flags = memory.flags :=
  memory.wordAt_put_of_ne (Layout.ne_spWord memory.layout.stackBase_le_flagsWord) sp

theorem wordAt_setSp (memory : Memory) {position : Nat}
    (above : Layout.stackBase ≤ position) (sp : UInt64) :
    (memory.setSp sp).wordAt position = memory.wordAt position :=
  memory.wordAt_put_of_ne (Layout.ne_spWord above) sp

@[simp] theorem ip_setFlags (memory : Memory) (flags : UInt64) :
    (memory.setFlags flags).ip = memory.ip :=
  memory.wordAt_put_of_ne
    (Layout.ne_ipWord memory.layout.stackBase_le_flagsWord).symm flags

@[simp] theorem sp_setFlags (memory : Memory) (flags : UInt64) :
    (memory.setFlags flags).sp = memory.sp :=
  memory.wordAt_put_of_ne
    (Layout.ne_spWord memory.layout.stackBase_le_flagsWord).symm flags

@[simp] theorem flags_setFlags (memory : Memory) (flags : UInt64) :
    (memory.setFlags flags).flags = flags :=
  wordAt_put_self memory.layout.flagsWord_lt_words flags

theorem wordAt_setFlags (memory : Memory) {position : Nat}
    (below : position < memory.layout.flagsWord) (flags : UInt64) :
    (memory.setFlags flags).wordAt position = memory.wordAt position :=
  memory.wordAt_put_of_ne (Nat.ne_of_lt below) flags

/-! ## Words after a write to a cell -/

/-- Replaces the stack cell with the given index, which lies in the stack. -/
def putCell (memory : Memory) (index : Nat) (cell : Cell) : Memory :=
  memory.put (Layout.stackBase + index) cell.word

@[simp] theorem ip_putCell (memory : Memory) (index : Nat) (cell : Cell) :
    (memory.putCell index cell).ip = memory.ip :=
  memory.wordAt_put_of_ne (Layout.ne_ipWord (Nat.le_add_right _ _)).symm cell.word

@[simp] theorem sp_putCell (memory : Memory) (index : Nat) (cell : Cell) :
    (memory.putCell index cell).sp = memory.sp :=
  memory.wordAt_put_of_ne (Layout.ne_spWord (Nat.le_add_right _ _)).symm cell.word

theorem wordAt_putCell (memory : Memory) {index position : Nat}
    (inside : index < memory.layout.stackCells)
    (above : memory.layout.programBase ≤ position) (cell : Cell) :
    (memory.putCell index cell).wordAt position = memory.wordAt position := by
  apply memory.wordAt_put_of_ne
  simp only [Layout.programBase] at above
  omega

theorem flags_putCell (memory : Memory) {index : Nat}
    (inside : index < memory.layout.stackCells) (cell : Cell) :
    (memory.putCell index cell).flags = memory.flags :=
  memory.wordAt_putCell inside memory.layout.programBase_le_flagsWord cell

end Memory

end TagMachine
