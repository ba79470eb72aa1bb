import Mathlib
import TagMachine.Proofs.Memory.Anywhere
import TagMachine.Proofs.Memory.Looks
import TagMachine.Proofs.Reloading.Residue

/-!
# The block by words and by bytes

Every word of the block belongs to one part: a register, a stack cell, a word of the program store
or the flags.  The bytes of a program are those of the words of the store and, behind them, of the
flags; each of them is read and written by its offset, an offset beyond them is refused, and a
number read from several offsets is the little-endian sum of their bytes.
-/

namespace TagMachine

/-! ## The parts of the block -/

namespace Layout

/-- What a word of the block holds. -/
inductive Part
  | ip
  | sp
  | cell (index : Nat)
  | program (index : Nat)
  | flags
  deriving DecidableEq, Repr

/-- There is such a part. -/
def Part.Within (layout : Layout) : Part → Prop
  | .cell index => index < layout.stackCells
  | .program index => index < layout.programWords
  | .ip | .sp | .flags => True

/-- The position of a part in the block. -/
def Part.position (layout : Layout) : Part → Nat
  | .ip => ipWord
  | .sp => spWord
  | .cell index => stackBase + index
  | .program index => layout.programBase + index
  | .flags => layout.flagsWord

/-- The part with the byte at an offset: a word of the store or, behind them, the flags. -/
def partAt (layout : Layout) (offset : Nat) : Part :=
  if offset / 8 < layout.programWords then .program (offset / 8) else .flags

variable {layout : Layout} {part other : Part}

theorem Part.position_lt (within : part.Within layout) : part.position layout < layout.words := by
  cases part <;>
    simp only [Within, position, words, flagsWord, programBase, stackBase, ipWord, spWord]
      at within ⊢ <;>
    omega

/-- No two parts share a word. -/
theorem Part.eq_of_position_eq (within : part.Within layout) (otherWithin : other.Within layout)
    (same : part.position layout = other.position layout) :
    part = other := by
  cases part <;> cases other <;>
    simp only [Within, position, flagsWord, programBase, stackBase, ipWord, spWord, cell.injEq,
      program.injEq, reduceCtorEq] at within otherWithin same ⊢ <;>
    omega

/-- Every word belongs to a part. -/
theorem exists_part {position : Nat} (inside : position < layout.words) :
    ∃ part : Part, part.Within layout ∧ part.position layout = position := by
  simp only [words, flagsWord, programBase] at inside
  by_cases first : position = ipWord
  · exact ⟨.ip, trivial, first.symm⟩
  by_cases second : position = spWord
  · exact ⟨.sp, trivial, second.symm⟩
  simp only [ipWord, spWord, stackBase] at first second inside
  by_cases inStack : position < stackBase + layout.stackCells
  · refine ⟨.cell (position - stackBase), ?_, ?_⟩ <;>
      simp only [Part.Within, Part.position, stackBase] at inStack ⊢ <;> omega
  by_cases inStore : position < layout.programBase + layout.programWords
  · refine ⟨.program (position - layout.programBase), ?_, ?_⟩ <;>
      simp only [Part.Within, Part.position, programBase, stackBase] at inStack inStore ⊢ <;> omega
  · refine ⟨.flags, trivial, ?_⟩
    simp only [Part.position, flagsWord, programBase, stackBase] at inStore ⊢
    omega

theorem within_partAt (layout : Layout) (offset : Nat) :
    (layout.partAt offset).Within layout := by
  unfold partAt
  split
  · assumption
  · trivial

theorem position_partAt {offset : Nat} (inside : offset < 8 * (layout.programWords + 1)) :
    (layout.partAt offset).position layout = layout.programBase + offset / 8 := by
  unfold partAt
  split
  · rfl
  · simp only [Part.position, flagsWord]
    omega

end Layout

namespace Memory

open Layout (Part)

/-! ## What is said of the two views -/

/-- The word of a part. -/
def wordOf (memory : Memory) (part : Part) : UInt64 :=
  memory.wordAt (part.position memory.layout)

/-- What the byte at an offset is read as. -/
def byteRead (memory : Memory) (offset : UInt64) : Except Fault UInt8 :=
  outcomeOf (programByte offset memory)

/-- The bytes from an offset on can be read, and the number is their little-endian sum. -/
def Spells (memory : Memory) (count : Nat) (offset : UInt64) (number : Nat) : Prop :=
  ∃ byte : Nat → UInt8,
    (∀ lane < count, memory.byteRead (offset + UInt64.ofNat lane) = .ok (byte lane)) ∧
      number = ∑ lane ∈ Finset.range count, 256 ^ lane * (byte lane).toNat

/-- Of the bytes from an offset on one cannot be read, and the first of those has the fault. -/
def Breaks (memory : Memory) (count : Nat) (offset : UInt64) (fault : Fault) : Prop :=
  ∃ lane < count, memory.byteRead (offset + UInt64.ofNat lane) = .error fault ∧
    ∀ earlier < lane, ∃ byte, memory.byteRead (offset + UInt64.ofNat earlier) = .ok byte

/-- One byte has been written, and nothing else has changed. -/
structure ByteWritten (before : Memory) (offset : UInt64) (byte : UInt8) (after : Memory) :
    Prop where
  layout : after.layout = before.layout
  bytes : ∀ other,
    after.byteRead other = if other = offset then .ok byte else before.byteRead other
  words : ∀ part : Part, part.Within before.layout → part ≠ before.layout.partAt offset.toNat →
    after.wordOf part = before.wordOf part

/-- The words and the bytes of the block agree. -/
structure ViewsAgree (memory : Memory) : Prop where
  inside : ∀ part : Part, part.Within memory.layout →
    load (UInt64.ofNat (part.position memory.layout)) memory = .ok (memory.wordOf part) memory
  covered : ∀ address, memory.InBlock address →
    ∃! part : Part, part.Within memory.layout ∧ part.position memory.layout = address.toNat
  registers : memory.wordOf .ip = memory.ip ∧ memory.wordOf .sp = memory.sp ∧
    memory.wordOf .flags = memory.flags
  cells : ∀ index < memory.layout.stackCells,
    loadCell (UInt64.ofNat index) memory = .ok (memory.wordOf (.cell index)) memory
  unread : ∀ offset, stateOf (programByte offset memory) = memory ∧
    stateOf (programTarget offset memory) = memory ∧ stateOf (programWord offset memory) = memory
  byte : ∀ offset : UInt64, offset.toNat < 8 * (memory.layout.programWords + 1) →
    memory.byteRead offset =
      .ok (UInt8.ofNat
        ((memory.wordOf (memory.layout.partAt offset.toNat)).toNat / 256 ^ (offset.toNat % 8)))
  stored : ∀ (offset : UInt64) byte, offset.toNat < 8 * (memory.layout.programWords + 1) →
    ∃ after, storeProgramByte offset byte memory = .ok () after ∧
      memory.ByteWritten offset byte after
  refused : ∀ (offset : UInt64) byte, 8 * (memory.layout.programWords + 1) ≤ offset.toNat →
    ∃ fault, memory.byteRead offset = .error fault ∧
      storeProgramByte offset byte memory = .error fault memory
  target_ok : ∀ offset target,
    outcomeOf (programTarget offset memory) = .ok target ↔ memory.Spells 2 offset target.toNat
  target_error : ∀ offset fault,
    outcomeOf (programTarget offset memory) = .error fault ↔ memory.Breaks 2 offset fault
  word_ok : ∀ offset word,
    outcomeOf (programWord offset memory) = .ok word ↔ memory.Spells 8 offset word.toNat
  word_error : ∀ offset fault,
    outcomeOf (programWord offset memory) = .error fault ↔ memory.Breaks 8 offset fault

variable {memory : Memory} {offset : UInt64} {count number : Nat} {fault : Fault}

theorem Looks.stateOf_eq {α : Type} {access : Access α} (looks : Looks access) (memory : Memory) :
    stateOf (access memory) = memory :=
  (looks memory).stateOf rfl

/-! ## Single bytes -/

theorem byteRead_eq (memory : Memory) (offset : UInt64) :
    memory.byteRead offset =
      if 8 * memory.layout.programBase + offset.toNat < UInt64.size then
        if memory.layout.programBase + offset.toNat / 8 < memory.layout.words then
          .ok (memory.byteAt offset.toNat)
        else .error (.memoryFault (UInt64.ofNat (memory.layout.programBase + offset.toNat / 8)))
      else .error (.memoryFault (UInt64.ofNat (UInt64.size - 1))) := by
  rw [byteRead, programByte_run]
  split
  · split <;> rfl
  · rfl

theorem byteRead_of_lt (bounded : memory.layout.Bounded)
    (inside : offset.toNat < 8 * (memory.layout.programWords + 1)) :
    memory.byteRead offset = .ok (memory.byteAt offset.toNat) := by
  rw [byteRead, programByte_eq bounded inside, outcomeOf]

theorem byteRead_of_le (outside : 8 * (memory.layout.programWords + 1) ≤ offset.toNat) :
    ∃ fault, memory.byteRead offset = .error fault := by
  have beyond : ¬memory.layout.programBase + offset.toNat / 8 < memory.layout.words := by
    simp only [Layout.words, Layout.flagsWord]
    omega
  rw [byteRead_eq, if_neg beyond]
  split <;> exact ⟨_, rfl⟩

/-- A byte that cannot be read cannot be written either, and for the same fault. -/
theorem storeProgramByte_of_error (byte : UInt8) (refused : memory.byteRead offset = .error fault) :
    storeProgramByte offset byte memory = .error fault memory := by
  have unchanged := (looks_bytePosition offset).stateOf_eq memory
  cases place : bytePosition offset memory with
  | error failure last =>
      rw [place] at unchanged
      obtain rfl : memory = last := unchanged.symm
      rw [byteRead, programByte, bind_of_error place] at refused
      cases refused
      exact bind_of_error place
  | ok position between =>
      rw [place] at unchanged
      obtain rfl : memory = between := unchanged.symm
      rw [byteRead, programByte, bind_of_ok place] at refused
      rw [storeProgramByte, bind_of_ok place]
      rcases position with ⟨address, shift⟩
      dsimp only at refused ⊢
      by_cases inside : memory.InBlock address
      · rw [bind_of_ok (load_of_inBlock inside)] at refused
        cases refused
      · rw [bind_of_error (load_of_not_inBlock inside)] at refused
        cases refused
        exact bind_of_error (load_of_not_inBlock inside)

theorem byteRead_putByte (bounded : memory.layout.Bounded)
    (inside : offset.toNat < 8 * (memory.layout.programWords + 1)) (byte : UInt8) (other : UInt64) :
    (memory.putByte offset.toNat byte).byteRead other =
      if other = offset then .ok byte else memory.byteRead other := by
  by_cases same : other = offset
  · have boundedAfter : (memory.putByte offset.toNat byte).layout.Bounded := bounded
    rw [same, if_pos rfl, byteRead_of_lt boundedAfter inside, byteAt_putByte inside, if_pos rfl]
  · have apart : other.toNat ≠ offset.toNat := fun equal => same (UInt64.toNat_inj.mp equal)
    rw [if_neg same, byteRead_eq, byteRead_eq, layout_putByte, byteAt_putByte inside, if_neg apart]

theorem byteWritten_putByte (bounded : memory.layout.Bounded)
    (inside : offset.toNat < 8 * (memory.layout.programWords + 1)) (byte : UInt8) :
    memory.ByteWritten offset byte (memory.putByte offset.toNat byte) where
  layout := layout_putByte memory offset.toNat byte
  bytes := byteRead_putByte bounded inside byte
  words part within different := by
    rw [wordOf, layout_putByte, putByte]
    apply wordAt_put_of_ne
    rw [← Layout.position_partAt inside]
    intro same
    exact different (Part.eq_of_position_eq within (memory.layout.within_partAt _) same)

/-! ## Several bytes -/

theorem Looks.outcomeOf_bind {α β : Type} {first : Access α} (looks : Looks first)
    (rest : α → Access β) (memory : Memory) :
    outcomeOf ((first >>= rest) memory) =
      (outcomeOf (first memory)).bind fun result => outcomeOf (rest result memory) := by
  have unchanged := looks.stateOf_eq memory
  cases ran : first memory with
  | ok result after =>
      rw [ran] at unchanged
      cases unchanged
      rw [bind_of_ok ran]
      rfl
  | error failure after =>
      rw [bind_of_error ran]
      rfl

theorem outcomeOf_programBytes_succ (memory : Memory) (count : Nat) (offset : UInt64) :
    outcomeOf (programBytes (count + 1) offset memory) =
      (memory.byteRead offset).bind fun byte =>
        (outcomeOf (programBytes count (offset + 1) memory)).map (byte :: ·) := by
  rw [programBytes, (looks_programByte offset).outcomeOf_bind]
  congr 1
  funext byte
  rw [(looks_programBytes count (offset + 1)).outcomeOf_bind]
  rfl

theorem add_ofNat_succ (offset : UInt64) (lane : Nat) :
    offset + UInt64.ofNat (lane + 1) = offset + 1 + UInt64.ofNat lane := by
  rw [UInt64.ofNat_add, UInt64.ofNat_one, UInt64.add_comm _ 1, UInt64.add_assoc]

/-- The least byte of a little-endian sum counts once, and the others 256 times. -/
theorem sum_bytes_succ (byte : Nat → Nat) :
    ∑ lane ∈ Finset.range (count + 1), 256 ^ lane * byte lane =
      byte 0 + 256 * ∑ lane ∈ Finset.range count, 256 ^ lane * byte (lane + 1) := by
  rw [Finset.sum_range_succ', pow_zero, one_mul, Nat.add_comm, Finset.mul_sum]
  congr 1
  apply Finset.sum_congr rfl
  intro lane _
  rw [pow_succ', Nat.mul_assoc]

theorem spells_zero : memory.Spells 0 offset number ↔ number = 0 := by
  simp [Spells]

theorem spells_succ :
    memory.Spells (count + 1) offset number ↔
      ∃ byte rest, memory.byteRead offset = .ok byte ∧ memory.Spells count (offset + 1) rest ∧
        number = byte.toNat + 256 * rest := by
  constructor
  · rintro ⟨byte, reads, rfl⟩
    refine ⟨byte 0, _, ?_, ⟨fun lane => byte (lane + 1), ?_, rfl⟩, ?_⟩
    · simpa using reads 0 (Nat.succ_pos count)
    · intro lane inside
      rw [← add_ofNat_succ]
      exact reads (lane + 1) (Nat.succ_lt_succ inside)
    · exact sum_bytes_succ fun lane => (byte lane).toNat
  · rintro ⟨first, rest, read, ⟨byte, reads, rfl⟩, rfl⟩
    let bytes : Nat → UInt8 := fun lane => lane.casesOn first byte
    refine ⟨bytes, ?_, (sum_bytes_succ fun lane => (bytes lane).toNat).symm⟩
    intro lane inside
    cases lane with
    | zero =>
        change memory.byteRead (offset + UInt64.ofNat 0) = .ok first
        simpa using read
    | succ lane =>
        rw [add_ofNat_succ]
        exact reads lane (Nat.lt_of_succ_lt_succ inside)

theorem not_breaks_zero : ¬memory.Breaks 0 offset fault := by
  rintro ⟨lane, inside, _⟩
  exact Nat.not_lt_zero lane inside

theorem breaks_succ :
    memory.Breaks (count + 1) offset fault ↔
      memory.byteRead offset = .error fault ∨
        (∃ byte, memory.byteRead offset = .ok byte) ∧ memory.Breaks count (offset + 1) fault := by
  constructor
  · rintro ⟨lane, inside, failed, earlier⟩
    cases lane with
    | zero => exact .inl (by simpa using failed)
    | succ lane =>
        refine .inr ⟨by simpa using earlier 0 (Nat.succ_pos lane), lane,
          Nat.lt_of_succ_lt_succ inside, ?_, ?_⟩
        · rwa [← add_ofNat_succ]
        · intro other before
          rw [← add_ofNat_succ]
          exact earlier (other + 1) (Nat.succ_lt_succ before)
  · rintro (failed | ⟨read, lane, inside, failed, earlier⟩)
    · exact ⟨0, Nat.succ_pos count, by simpa using failed, fun _ before => by cases before⟩
    · refine ⟨lane + 1, Nat.succ_lt_succ inside, ?_, ?_⟩
      · rwa [add_ofNat_succ]
      · intro other before
        cases other with
        | zero => simpa using read
        | succ other =>
            rw [add_ofNat_succ]
            exact earlier other (Nat.lt_of_succ_lt_succ before)

theorem Spells.lt (spells : memory.Spells count offset number) : number < 256 ^ count := by
  induction count generalizing offset number with
  | zero =>
      rw [spells_zero] at spells
      simp [spells]
  | succ count inductionHypothesis =>
      rcases spells_succ.mp spells with ⟨byte, rest, _, others, rfl⟩
      have small := byte.toNat_lt
      have below := inductionHypothesis others
      rw [Nat.pow_succ]
      omega

/-- The bytes are read just when each of them is, and denote their sum. -/
theorem programBytes_ok_iff :
    (∃ bytes, outcomeOf (programBytes count offset memory) = .ok bytes ∧
      Bytes.littleEndian bytes = number) ↔ memory.Spells count offset number := by
  induction count generalizing offset number with
  | zero =>
      rw [spells_zero]
      constructor
      · rintro ⟨bytes, read, rfl⟩
        cases read
        rfl
      · rintro rfl
        exact ⟨[], rfl, rfl⟩
  | succ count inductionHypothesis =>
      rw [spells_succ, outcomeOf_programBytes_succ]
      constructor
      · rintro ⟨bytes, read, rfl⟩
        cases first : memory.byteRead offset with
        | error fault => simp [first, Except.bind] at read
        | ok byte =>
            rw [first] at read
            cases others : outcomeOf (programBytes count (offset + 1) memory) with
            | error fault => simp [others, Except.bind, Except.map] at read
            | ok rest =>
                simp only [others, Except.bind, Except.map, Except.ok.injEq] at read
                subst read
                exact ⟨byte, _, rfl, inductionHypothesis.mp ⟨rest, others, rfl⟩, rfl⟩
      · rintro ⟨byte, rest, first, spelled, rfl⟩
        rcases inductionHypothesis.mpr spelled with ⟨bytes, others, rfl⟩
        exact ⟨byte :: bytes, by rw [first, others]; rfl, rfl⟩

theorem programBytes_error_iff :
    outcomeOf (programBytes count offset memory) = .error fault ↔
      memory.Breaks count offset fault := by
  induction count generalizing offset with
  | zero => exact iff_of_false (fun failed => by cases failed) not_breaks_zero
  | succ count inductionHypothesis =>
      rw [breaks_succ, outcomeOf_programBytes_succ, ← inductionHypothesis]
      cases first : memory.byteRead offset with
      | error failure => simp [Except.bind]
      | ok byte =>
          cases others : outcomeOf (programBytes count (offset + 1) memory) <;>
            simp [Except.bind, Except.map]

section Numbers

variable {α : Type} {ofNumber : Nat → α}

theorem map_programBytes_ok_iff {toNumber : α → Nat}
    (kept : ∀ number < 256 ^ count, toNumber (ofNumber number) = number)
    (restored : ∀ result, ofNumber (toNumber result) = result) (result : α) :
    (outcomeOf (programBytes count offset memory)).map
        (fun bytes => ofNumber (Bytes.littleEndian bytes)) = .ok result ↔
      memory.Spells count offset (toNumber result) := by
  constructor
  · intro read
    cases bytesRead : outcomeOf (programBytes count offset memory) with
    | error fault => simp [bytesRead, Except.map] at read
    | ok bytes =>
        simp only [bytesRead, Except.map, Except.ok.injEq] at read
        have spelled := programBytes_ok_iff.mp ⟨bytes, bytesRead, rfl⟩
        rwa [← read, kept _ spelled.lt]
  · intro spelled
    rcases programBytes_ok_iff.mpr spelled with ⟨bytes, bytesRead, same⟩
    rw [bytesRead, Except.map, same, restored]

theorem map_programBytes_error_iff :
    (outcomeOf (programBytes count offset memory)).map
        (fun bytes => ofNumber (Bytes.littleEndian bytes)) = .error fault ↔
      memory.Breaks count offset fault := by
  rw [← programBytes_error_iff]
  cases outcomeOf (programBytes count offset memory) <;> simp [Except.map]

end Numbers

theorem outcomeOf_programTarget (memory : Memory) (offset : UInt64) :
    outcomeOf (programTarget offset memory) =
      (outcomeOf (programBytes 2 offset memory)).map
        fun bytes => UInt16.ofNat (Bytes.littleEndian bytes) := by
  rw [programTarget, (looks_programBytes 2 offset).outcomeOf_bind]
  rfl

theorem outcomeOf_programWord (memory : Memory) (offset : UInt64) :
    outcomeOf (programWord offset memory) =
      (outcomeOf (programBytes 8 offset memory)).map
        fun bytes => UInt64.ofNat (Bytes.littleEndian bytes) := by
  rw [programWord, (looks_programBytes 8 offset).outcomeOf_bind]
  rfl

/-! ## The two views -/

/-- In a block that is laid out for limits that a machine can honour, every word belongs to one
part, every byte of a program lies in a word of its store or in the flags and is written without a
change to any other, and a number is read as the sum of its bytes. -/
theorem views_agree {config : Config} (accepted : config.validate = .ok ())
    (laidOut : Layout.ofConfig config = .ok memory.layout) :
    memory.ViewsAgree := by
  have valid := config.validate_eq_ok_iff.mp accepted
  have bounded : memory.layout.Bounded := by
    rw [Layout.ofConfig_of_valid valid, Except.ok.injEq] at laidOut
    rw [← laidOut]
    exact Machine.bounded_of_valid valid
  constructor
  case inside => exact fun part within => load_eq bounded (part.position_lt within)
  case covered =>
    intro address inBlock
    rcases Layout.exists_part inBlock with ⟨part, within, here⟩
    refine ⟨part, ⟨within, here⟩, fun other ⟨otherWithin, otherHere⟩ => ?_⟩
    exact Part.eq_of_position_eq otherWithin within (otherHere.trans here.symm)
  case registers => exact ⟨rfl, rfl, rfl⟩
  case cells => exact fun index inside => loadCell_of_lt bounded inside
  case unread =>
    intro offset
    exact ⟨(looks_programByte offset).stateOf_eq memory,
      (looks_programTarget offset).stateOf_eq memory, (looks_programWord offset).stateOf_eq memory⟩
  case byte =>
    intro offset inside
    rw [byteRead_of_lt bounded inside, wordOf, Layout.position_partAt inside, byteAt,
      Bits.byteIn_eq_ofNat (Nat.mod_lt _ (by decide))]
  case stored =>
    intro offset byte inside
    exact ⟨_, storeProgramByte_eq bounded inside byte, byteWritten_putByte bounded inside byte⟩
  case refused =>
    intro offset byte outside
    rcases byteRead_of_le outside with ⟨fault, refused⟩
    exact ⟨fault, refused, storeProgramByte_of_error byte refused⟩
  case target_ok =>
    intro offset target
    rw [outcomeOf_programTarget]
    refine map_programBytes_ok_iff (fun number small => ?_) (fun result => ?_) target
    · rw [UInt16.toNat_ofNat']
      exact Nat.mod_eq_of_lt small
    · exact UInt16.ofNat_toNat
  case target_error =>
    intro offset fault
    rw [outcomeOf_programTarget, map_programBytes_error_iff]
  case word_ok =>
    intro offset word
    rw [outcomeOf_programWord]
    refine map_programBytes_ok_iff (fun number small => ?_) (fun result => ?_) word
    · rw [UInt64.toNat_ofNat']
      exact Nat.mod_eq_of_lt small
    · exact UInt64.ofNat_toNat
  case word_error =>
    intro offset fault
    rw [outcomeOf_programWord, map_programBytes_error_iff]

/-- A store of thirteen bytes takes up two words, and a jump target at the end of the second has its
upper byte in the flags. -/
theorem views_agree_thirteen :
    let config : Config := { stackCapacity := 3, programCapacity := 13 }
    let memory := ((Memory.blank ⟨3, 13⟩).setFlags 0xC00000001).putByte 15 7
    config.validate = .ok () ∧ Layout.ofConfig config = .ok memory.layout ∧ memory.ViewsAgree ∧
      memory.Spells 2 15 0x107 ∧ memory.Breaks 8 17 (.memoryFault 8) := by
  intro config memory
  have accepted : config.validate = .ok () := by decide
  have laidOut : Layout.ofConfig config = .ok memory.layout := by decide
  have agree := views_agree accepted laidOut
  exact ⟨accepted, laidOut, agree, (agree.target_ok 15 0x107).mp (by decide +kernel),
    (agree.word_error 17 (.memoryFault 8)).mp (by decide +kernel)⟩

end Memory

end TagMachine
