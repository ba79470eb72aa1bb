import TagMachine.Machine.Execute
import TagMachine.Proofs.Carries
import TagMachine.Proofs.Memory.Cells
import TagMachine.Proofs.Memory.Looks

/-!
# What an instruction changes in memory

An instruction that finds its operands on the stack writes no word but the two pointers, its flag
and the cells around the stack pointer: the one there and the two below.  It first pops and then
writes, so a cell that has been popped keeps its word unless a result is written over it, and it
does so as well when the instruction fails between the two.  Only operands and jumps move the
instruction pointer on from behind the opcode.
-/

namespace TagMachine

namespace Memory

/-- The block has a valid size, and its stack pointer stays within the stack. -/
structure Tidy (memory : Memory) : Prop where
  bounded : memory.layout.Bounded
  fits : memory.sp.toNat ≤ memory.layout.stackCells

/-- A cell that has been popped leaves room for another. -/
theorem Tidy.room {memory : Memory} (tidy : memory.Tidy) {count : Nat} (popped : 1 ≤ count) :
    memory.sp.toNat < memory.layout.stackCells + count :=
  Nat.lt_of_le_of_lt tidy.fits (Nat.lt_add_of_pos_right popped)

/-- The cell at the stack pointer or one of the two below it. -/
def Near (start : Memory) (index : Nat) : Prop :=
  index < start.layout.stackCells ∧ index ≤ start.sp.toNat ∧ start.sp.toNat ≤ index + 2

/-- All that an instruction has changed in the block `start`, the flags at the given places among
it.  If it goes straight on, the instruction pointer is just behind its opcode. -/
structure Footprint (straight : Prop) (flagged : Nat → Prop) (start memory : Memory) : Prop where
  layout : memory.layout = start.layout
  ip : straight → memory.ip = start.ip + 1
  fits : memory.sp.toNat ≤ start.layout.stackCells
  words : ∀ position, position ≠ Layout.ipWord → position ≠ Layout.spWord →
    position ≠ start.layout.flagsWord →
    (∀ index, start.Near index → position ≠ Layout.stackBase + index) →
    memory.wordAt position = start.wordAt position
  flags : ∀ place, ¬flagged place → Bits.bit memory.flags place = Bits.bit start.flags place
  popped : ∀ index, memory.sp.toNat ≤ index → index < start.sp.toNat →
    memory.wordAt (Layout.stackBase + index) = start.wordAt (Layout.stackBase + index)

/-- So far `count` cells have been popped, and nothing but the two pointers has changed. -/
structure Popped (start : Memory) (count : Nat) (memory : Memory) : Prop where
  layout : memory.layout = start.layout
  sp : memory.sp.toNat + count = start.sp.toNat
  words : ∀ position, position ≠ Layout.ipWord → position ≠ Layout.spWord →
    memory.wordAt position = start.wordAt position

/-- The stack pointer stands `count` cells below where it stood. -/
def Lowered (start : Memory) (count : Nat) (memory : Memory) : Prop :=
  memory.sp.toNat + count = start.sp.toNat

variable {straight : Prop} {flagged : Nat → Prop} {start memory : Memory} {count : Nat}

/-! ## Footprints of single writes -/

theorem flags_of_words (layout : memory.layout = start.layout)
    (words : memory.wordAt start.layout.flagsWord = start.wordAt start.layout.flagsWord) :
    memory.flags = start.flags := by
  rw [flags, flags, layout, words]

namespace Popped

theorem refl (start : Memory) : start.Popped 0 start :=
  ⟨rfl, rfl, fun _ _ _ => rfl⟩

theorem flags_eq (popped : start.Popped count memory) :
    memory.flags = start.flags :=
  flags_of_words popped.layout (popped.words _
    (Layout.ne_ipWord start.layout.stackBase_le_flagsWord)
    (Layout.ne_spWord start.layout.stackBase_le_flagsWord))

theorem wordAt_cell (popped : start.Popped count memory) (index : Nat) :
    memory.wordAt (Layout.stackBase + index) = start.wordAt (Layout.stackBase + index) :=
  popped.words _ (Layout.ne_ipWord (Nat.le_add_right _ _)) (Layout.ne_spWord (Nat.le_add_right _ _))

theorem footprint (popped : start.Popped count memory) (tidy : start.Tidy)
    (ip : straight → memory.ip = start.ip + 1) :
    Footprint straight flagged start memory where
  layout := popped.layout
  ip := ip
  fits := by
    have sp := popped.sp
    have fits := tidy.fits
    omega
  words position notIp notSp _ _ := popped.words position notIp notSp
  flags place _ := by rw [popped.flags_eq]
  popped index _ _ := popped.wordAt_cell index

theorem setIp (popped : start.Popped count memory) (ip : UInt64) :
    start.Popped count (memory.setIp ip) where
  layout := popped.layout
  sp := by
    rw [sp_setIp]
    exact popped.sp
  words position notIp notSp := by
    rw [Memory.setIp, wordAt_put_of_ne _ notIp]
    exact popped.words position notIp notSp

theorem setSp (popped : start.Popped count memory) {less : UInt64}
    (live : count + less.toNat ≤ start.sp.toNat) :
    start.Popped (count + less.toNat) (memory.setSp (memory.sp - less)) where
  layout := popped.layout
  sp := by
    have sp := popped.sp
    rw [sp_setSp, UInt64.toNat_sub_of_le _ _ (by rw [UInt64.le_iff_toNat_le]; omega)]
    omega
  words position notIp notSp := by
    rw [Memory.setSp, wordAt_put_of_ne _ notSp]
    exact popped.words position notIp notSp

end Popped

namespace Footprint

theorem setIp (footprint : Footprint straight flagged start memory) (moves : ¬straight)
    (ip : UInt64) :
    Footprint straight flagged start (memory.setIp ip) where
  layout := footprint.layout
  ip plain := absurd plain moves
  fits := by
    rw [sp_setIp]
    exact footprint.fits
  words position notIp notSp notFlags far := by
    rw [Memory.setIp, wordAt_put_of_ne _ notIp]
    exact footprint.words position notIp notSp notFlags far
  flags place still := by
    rw [flags_setIp]
    exact footprint.flags place still
  popped index below above := by
    rw [sp_setIp] at below
    rw [wordAt_setIp _ (Nat.le_add_right _ _)]
    exact footprint.popped index below above

theorem setFlag (footprint : Footprint straight flagged start memory) (tidy : start.Tidy)
    {mask : UInt64} {place : Nat} (single : Bits.IsSingle mask place) (allowed : flagged place) (on : Bool) :
    Footprint straight flagged start (memory.setFlags (withFlag memory.flags mask on)) where
  layout := footprint.layout
  ip plain := by
    rw [ip_setFlags]
    exact footprint.ip plain
  fits := by
    rw [sp_setFlags]
    exact footprint.fits
  words position notIp notSp notFlags far := by
    rw [setFlags, wordAt_put_of_ne _ (by rwa [footprint.layout])]
    exact footprint.words position notIp notSp notFlags far
  flags other still := by
    have different : other ≠ place := by
      rintro rfl
      exact still allowed
    rw [flags_setFlags, Bits.bit_withFlag single, if_neg different]
    exact footprint.flags other still
  popped index below above := by
    rw [sp_setFlags] at below
    rw [wordAt_setFlags]
    · exact footprint.popped index below above
    · have fits := tidy.fits
      simp only [Layout.flagsWord, Layout.programBase, footprint.layout]
      omega

/-- A live cell near the stack pointer is written. -/
theorem putCell (footprint : Footprint straight flagged start memory) {index : Nat}
    (near : start.Near index) (live : index < memory.sp.toNat) (cell : Cell) :
    Footprint straight flagged start (memory.putCell index cell) where
  layout := footprint.layout
  ip plain := by
    rw [ip_putCell]
    exact footprint.ip plain
  fits := by
    rw [sp_putCell]
    exact footprint.fits
  words position notIp notSp notFlags far := by
    rw [Memory.putCell, wordAt_put_of_ne _ (far index near)]
    exact footprint.words position notIp notSp notFlags far
  flags place still := by
    rw [flags_putCell _ (by rw [footprint.layout]; exact near.1)]
    exact footprint.flags place still
  popped other below above := by
    rw [sp_putCell] at below
    rw [Memory.putCell, wordAt_put_of_ne _ (by omega)]
    exact footprint.popped other below above

/-- The cell at the stack pointer is written and becomes a live one. -/
theorem push (footprint : Footprint straight flagged start memory) (tidy : start.Tidy)
    (near : start.Near memory.sp.toNat) (cell : Cell) :
    Footprint straight flagged start
      ((memory.putCell memory.sp.toNat cell).setSp (memory.sp + 1)) := by
  have inside := near.1
  have next : (memory.sp + 1).toNat = memory.sp.toNat + 1 := by
    have stackLe := tidy.bounded.stack_le
    simp only [Config.maxStackCapacity] at stackLe
    rw [UInt64.toNat_add, UInt64.toNat_one]
    omega
  constructor
  · exact footprint.layout
  · intro plain
    rw [ip_setSp, ip_putCell]
    exact footprint.ip plain
  · rw [sp_setSp, next]
    exact inside
  · intro position notIp notSp notFlags far
    rw [Memory.setSp, wordAt_put_of_ne _ notSp, Memory.putCell, wordAt_put_of_ne _ (far _ near)]
    exact footprint.words position notIp notSp notFlags far
  · intro place still
    rw [flags_setSp, flags_putCell _ (by rwa [footprint.layout])]
    exact footprint.flags place still
  · intro index below above
    rw [sp_setSp, next] at below
    rw [wordAt_setSp _ (Nat.le_add_right _ _), Memory.putCell, wordAt_put_of_ne _ (by omega)]
    exact footprint.popped index (by omega) above

end Footprint

end Memory

/-! ## The stack -/

section Leaves

variable {straight : Prop} {flagged : Nat → Prop} {start : Memory} {count : Nat} {α : Type}

/-- From blocks as `before` has them the computation leaves no footprint but what it may, also where
it fails. -/
abbrev Memory.Leaves (straight : Prop) (flagged : Nat → Prop) (start : Memory)
    (before : Memory → Prop) (access : Memory.Access α) (after : α → Memory → Prop) : Prop :=
  Carries (fun left right => left = right ∧ Memory.Footprint straight flagged start left)
    before access after

theorem Memory.Looks.leaves {access : Memory.Access α} (looks : Memory.Looks access)
    (before : Memory → Prop) :
    Memory.Leaves straight flagged start before access fun _ => before := by
  rintro memory _ ⟨rfl, footprint⟩ known
  have looked := looks memory memory memory ⟨rfl, rfl⟩
  revert looked
  cases access memory with
  | ok result after =>
      intro looked
      cases looked with
      | ok same =>
          obtain rfl := same.2
          exact .ok ⟨rfl, footprint⟩ known
  | error fault after =>
      intro looked
      cases looked with
      | error same =>
          obtain rfl := same.2
          exact .error ⟨rfl, footprint⟩

theorem Memory.leaves_setIp {before : Memory → Prop} (moves : ¬straight)
    (target : Memory → UInt64) (kept : ∀ memory ip, before memory → before (memory.setIp ip)) :
    Memory.Leaves straight flagged start before
      (modify fun memory => memory.setIp (target memory)) fun _ => before := by
  rintro memory _ ⟨rfl, footprint⟩ known
  exact .ok ⟨rfl, footprint.setIp moves _⟩ (kept _ _ known)

theorem Memory.leaves_setCmp (tidy : start.Tidy) (allowed : flagged 1) (before : Memory → Prop)
    (on : Bool) :
    Memory.Leaves straight flagged start before (modify (·.setCmp on)) fun _ => anything := by
  rintro memory _ ⟨rfl, footprint⟩ _
  exact .ok ⟨rfl, footprint.setFlag tidy Bits.isSingle_two allowed on⟩ trivial

theorem Memory.leaves_setHalt (tidy : start.Tidy) (allowed : flagged 0) (before : Memory → Prop)
    (on : Bool) :
    Memory.Leaves straight flagged start before (modify (·.setHalt on)) fun _ => anything := by
  rintro memory _ ⟨rfl, footprint⟩ _
  exact .ok ⟨rfl, footprint.setFlag tidy Bits.isSingle_one allowed on⟩ trivial

namespace Stack

open Memory

theorem leaves_require (count : UInt64) :
    Leaves straight flagged start (start.Popped 0) (require count) fun _ memory =>
      start.Popped 0 memory ∧ count.toNat ≤ start.sp.toNat := by
  rintro memory _ ⟨rfl, footprint⟩ popped
  have sp := popped.sp
  rw [require_eq]
  split
  · exact .error ⟨rfl, footprint⟩
  · exact .ok ⟨rfl, footprint⟩ ⟨popped, by omega⟩

theorem leaves_requireFree (tidy : start.Tidy) :
    Leaves straight flagged start (start.Popped count) requireFree fun _ memory =>
      start.Popped count memory ∧ start.sp.toNat < start.layout.stackCells + count := by
  rintro memory _ ⟨rfl, footprint⟩ popped
  have sp := popped.sp
  have fits := tidy.fits
  rw [requireFree, get_bind]
  split
  · exact .error ⟨rfl, footprint⟩
  · rename_i free
    rw [popped.layout] at free
    exact .ok ⟨rfl, footprint⟩ ⟨popped, by omega⟩

theorem leaves_requireInts (count : UInt64) :
    Leaves straight flagged start (start.Popped 0) (requireInts count) fun _ memory =>
      start.Popped 0 memory ∧ count.toNat ≤ start.sp.toNat :=
  (leaves_require count).bind fun _ => (looks_requireIntsFrom 0 _).leaves _

theorem leaves_drop (tidy : start.Tidy) {less : UInt64}
    (live : count + less.toNat ≤ start.sp.toNat) :
    Leaves straight flagged start (start.Popped count) (drop less) fun _ =>
      start.Popped (count + less.toNat) := by
  rintro memory _ ⟨rfl, footprint⟩ popped
  have lowered := popped.setSp live
  exact .ok ⟨rfl, lowered.footprint tidy (ip_setSp memory _ ▸ footprint.ip)⟩ lowered

/-- The cell that is popped is read where it was at the start. -/
theorem leaves_pop (tidy : start.Tidy) (live : count + 1 ≤ start.sp.toNat) :
    Leaves straight flagged start (start.Popped count) pop fun cell memory =>
      start.Popped (count + 1) memory ∧
        cell.word = start.wordAt (Layout.stackBase + (start.sp.toNat - (count + 1))) := by
  refine (leaves_drop tidy live).bind fun _ => ?_
  rintro memory _ ⟨rfl, footprint⟩ popped
  have sp := popped.sp
  have fits := tidy.fits
  have inside : memory.sp.toNat < memory.layout.stackCells := by
    rw [popped.layout]
    change _ + (count + 1) = _ at sp
    omega
  have read := loadCell_of_lt (popped.layout ▸ tidy.bounded) inside
  rw [UInt64.ofNat_toNat] at read
  rw [get_bind, bind_of_ok read]
  refine .ok ⟨rfl, footprint⟩ ⟨popped, ?_⟩
  have index : start.sp.toNat - (count + 1) = memory.sp.toNat := by
    change _ + (count + 1) = _ at sp
    omega
  rw [index, ← popped.wordAt_cell]

theorem leaves_poke (tidy : start.Tidy) {depth : UInt64} (few : count + depth.toNat < 2)
    (live : count + depth.toNat < start.sp.toNat) (cell : Cell) :
    Leaves straight flagged start (start.Lowered count) (poke depth cell)
      fun _ => start.Lowered count := by
  rintro memory _ ⟨rfl, footprint⟩ lowered
  have fits := tidy.fits
  have sp : memory.sp.toNat + count = start.sp.toNat := lowered
  have index : (Stack.index memory depth).toNat = start.sp.toNat - (count + depth.toNat + 1) := by
    rw [Stack.index, UInt64.toNat_sub_of_le, UInt64.toNat_sub_of_le, UInt64.toNat_one]
    · omega
    · rw [UInt64.le_iff_toNat_le]
      omega
    · rw [UInt64.le_iff_toNat_le, UInt64.toNat_one, UInt64.toNat_sub_of_le]
      · omega
      · rw [UInt64.le_iff_toNat_le]
        omega
  have near : start.Near (Stack.index memory depth).toNat := by
    rw [index]
    exact ⟨by omega, by omega, by omega⟩
  have wrote := storeCell_of_lt (footprint.layout ▸ tidy.bounded) (footprint.layout ▸ near.1) cell
  rw [UInt64.ofNat_toNat] at wrote
  rw [poke_eq, wrote]
  refine .ok ⟨rfl, footprint.putCell near (by omega) cell⟩ ?_
  rw [Lowered, sp_putCell]
  exact sp

theorem leaves_push (tidy : start.Tidy) (few : count ≤ 2)
    (room : start.sp.toNat < start.layout.stackCells + count) (cell : Cell) :
    Leaves straight flagged start (start.Lowered count) (push cell) fun _ => anything := by
  rintro memory _ ⟨rfl, footprint⟩ lowered
  have sp : memory.sp.toNat + count = start.sp.toNat := lowered
  have near : start.Near memory.sp.toNat := ⟨by omega, by omega, by omega⟩
  have wrote := storeCell_of_lt (footprint.layout ▸ tidy.bounded) (footprint.layout ▸ near.1) cell
  rw [UInt64.ofNat_toNat] at wrote
  rw [push, get_bind, bind_of_ok wrote]
  exact .ok ⟨rfl, footprint.push tidy near cell⟩ trivial

end Stack

/-! ## Instructions on memory -/

namespace Action

open Memory Stack

variable {before : Memory → Prop}

theorem leaves_advance (moves : ¬straight)
    (kept : ∀ memory ip, before memory → before (memory.setIp ip)) (count : UInt64) :
    Leaves straight flagged start before (advance count) fun _ => before :=
  leaves_setIp moves (fun memory => memory.ip + count) kept

theorem leaves_jump (moves : ¬straight) (taken : Bool) :
    Leaves straight flagged start anything (jump taken) fun _ => anything := by
  cases taken with
  | false => exact leaves_advance moves (fun _ _ _ => trivial) 2
  | true =>
      exact carries_get_bind_same fun _ => ((looks_programTarget _).leaves _).bind fun target =>
        leaves_setIp moves (fun _ => target.toUInt64) fun _ _ _ => trivial

theorem leaves_replaceTop (tidy : start.Tidy) (few : count < 2) (live : count < start.sp.toNat)
    (cell : Cell) :
    Leaves straight flagged start (start.Popped count) (do poke 0 cell; requireInts 1)
      fun _ => anything :=
  ((leaves_poke tidy few live cell).mono fun _ popped => popped.sp).bind fun _ =>
    Carries.weaken ((looks_requireInts 1).leaves _) fun _ _ _ => trivial

theorem leaves_exchange (tidy : start.Tidy) {required : UInt64} (two : 2 ≤ required.toNat) :
    Leaves straight flagged start (start.Popped 0) (exchange required) fun _ => anything := by
  refine (leaves_require required).bind fun _ => carries_learned fun enough =>
    ((looks_peek 0).leaves _).bind fun top => ((looks_peek 1).leaves _).bind fun below => ?_
  have wroteTop : Leaves straight flagged start (start.Lowered 0) (poke 0 below)
      fun _ => start.Lowered 0 :=
    leaves_poke tidy (by decide) (Nat.lt_of_lt_of_le (by decide) (Nat.le_trans two enough)) below
  have wroteBelow : Leaves straight flagged start (start.Lowered 0) (poke 1 top)
      fun _ => start.Lowered 0 :=
    leaves_poke tidy (by decide) (Nat.le_trans two enough) top
  exact (wroteTop.mono fun _ popped => popped.sp).bind fun _ =>
    wroteBelow.weaken fun _ _ _ => trivial

end Action

end Leaves

end TagMachine
