import TagMachine.Proofs.Carries
import TagMachine.Proofs.Memory.Loading
import TagMachine.Stack

/-!
# Blocks that differ in bytes left behind

A program that was loaded before may have left bytes in the store.  `SameBut residue` relates two
blocks of memory that agree in everything but the bytes at such offsets.  What reads none of them
comes to the same on both blocks, and what is written is written alike, so that the blocks go on to
differ in nothing else.
-/

namespace TagMachine

/-- No byte of the word at a position is one of those at the offsets. -/
def Layout.Clear (layout : Layout) (residue : Nat → Prop) (position : Nat) : Prop :=
  layout.programBase ≤ position →
    ∀ lane, lane < 8 → ¬residue (8 * (position - layout.programBase) + lane)

instance (layout : Layout) (residue : Nat → Prop) [DecidablePred residue] (position : Nat) :
    Decidable (layout.Clear residue position) :=
  inferInstanceAs (Decidable (_ → _))

namespace Memory

/-- The blocks are laid out alike, and agree in every word outside the store and in every byte but
those at the offsets. -/
structure SameBut (residue : Nat → Prop) (clean stale : Memory) : Prop where
  bounded : clean.layout.Bounded
  layout : clean.layout = stale.layout
  outside : ∀ position,
    position < clean.layout.programBase ∨ clean.layout.flagsWord ≤ position →
      clean.wordAt position = stale.wordAt position
  bytes : ∀ offset, ¬residue offset → clean.byteAt offset = stale.byteAt offset

variable {residue : Nat → Prop} {clean stale memory : Memory}

namespace SameBut

theorem wordAt (same : clean.SameBut residue stale) {position : Nat}
    (clear : clean.layout.Clear residue position) :
    clean.wordAt position = stale.wordAt position := by
  by_cases above : clean.layout.programBase ≤ position
  · apply Bits.eq_of_byteIn_eq
    intro lane inside
    have byte := same.bytes _ (clear above lane inside)
    have word : (8 * (position - clean.layout.programBase) + lane) / 8 =
        position - clean.layout.programBase := by
      omega
    have place : (8 * (position - clean.layout.programBase) + lane) % 8 = lane := by
      omega
    have back : clean.layout.programBase + (position - clean.layout.programBase) = position := by
      omega
    rw [byteAt, byteAt, ← same.layout, word, place, back] at byte
    exact byte
  · exact same.outside position (Or.inl (Nat.lt_of_not_le above))

theorem ip (same : clean.SameBut residue stale) :
    clean.ip = stale.ip :=
  same.outside _ (Or.inl (Nat.lt_of_lt_of_le (by decide) clean.layout.stackBase_le_programBase))

theorem sp (same : clean.SameBut residue stale) :
    clean.sp = stale.sp :=
  same.outside _ (Or.inl (Nat.lt_of_lt_of_le (by decide) clean.layout.stackBase_le_programBase))

theorem flags (same : clean.SameBut residue stale) :
    clean.flags = stale.flags := by
  rw [Memory.flags, Memory.flags, ← same.layout]
  exact same.outside _ (Or.inr (Nat.le_refl _))

theorem halt (same : clean.SameBut residue stale) :
    clean.halt = stale.halt := by
  rw [Memory.halt, Memory.halt, same.flags]

theorem cmp (same : clean.SameBut residue stale) :
    clean.cmp = stale.cmp := by
  rw [Memory.cmp, Memory.cmp, same.flags]

theorem programLength (same : clean.SameBut residue stale) :
    clean.programLength = stale.programLength := by
  rw [Memory.programLength, Memory.programLength, same.flags]

/-- Writing the same word to both blocks leaves no new difference. -/
theorem put (same : clean.SameBut residue stale) (position : Nat) (word : UInt64) :
    (clean.put position word).SameBut residue (stale.put position word) where
  bounded := same.bounded
  layout := same.layout
  outside other outOfStore := by
    rw [wordAt_put, wordAt_put, ← same.layout, same.outside other outOfStore]
  bytes offset unread := by
    have byte := same.bytes offset unread
    rw [byteAt, byteAt, ← same.layout] at byte
    rw [byteAt, byteAt, layout_put, layout_put, ← same.layout, wordAt_put, wordAt_put,
      ← same.layout]
    split
    · rfl
    · exact byte

theorem setIp (same : clean.SameBut residue stale) (ip : UInt64) :
    (clean.setIp ip).SameBut residue (stale.setIp ip) :=
  same.put _ _

theorem setSp (same : clean.SameBut residue stale) (sp : UInt64) :
    (clean.setSp sp).SameBut residue (stale.setSp sp) :=
  same.put _ _

theorem setFlags (same : clean.SameBut residue stale) (flags : UInt64) :
    (clean.setFlags flags).SameBut residue (stale.setFlags flags) := by
  rw [Memory.setFlags, Memory.setFlags, ← same.layout]
  exact same.put _ _

theorem setHalt (same : clean.SameBut residue stale) (on : Bool) :
    (clean.setHalt on).SameBut residue (stale.setHalt on) := by
  rw [Memory.setHalt, Memory.setHalt, same.flags]
  exact same.setFlags _

theorem setCmp (same : clean.SameBut residue stale) (on : Bool) :
    (clean.setCmp on).SameBut residue (stale.setCmp on) := by
  rw [Memory.setCmp, Memory.setCmp, same.flags]
  exact same.setFlags _

end SameBut

/-! ## Reading and writing -/

section Access

variable {before : Memory → Prop}

theorem carries_load {address : UInt64}
    (clear : ∀ memory, before memory → memory.layout.Clear residue address.toNat) :
    Carries (SameBut residue) before (load address) fun _ => before := by
  intro clean stale same known
  have word := same.wordAt (clear clean known)
  by_cases inBlock : clean.InBlock address
  · have other : stale.InBlock address := by
      rwa [InBlock, ← same.layout]
    rw [load, load, if_pos inBlock, if_pos other, ← word]
    exact .ok same known
  · have other : ¬stale.InBlock address := by
      rwa [InBlock, ← same.layout]
    rw [load, load, if_neg inBlock, if_neg other]
    exact .error same

theorem carries_store (address word : UInt64) :
    Carries (SameBut residue) before (store address word) fun _ memory =>
      ∃ earlier, before earlier ∧ memory = earlier.put address.toNat word := by
  intro clean stale same known
  by_cases inBlock : clean.InBlock address
  · have other : stale.InBlock address := by
      rwa [InBlock, ← same.layout]
    rw [store, store, if_pos inBlock, if_pos other]
    exact .ok (same.put _ _) ⟨clean, known, rfl⟩
  · have other : ¬stale.InBlock address := by
      rwa [InBlock, ← same.layout]
    rw [store, store, if_neg inBlock, if_neg other]
    exact .error same

theorem respects_store (address word : UInt64) :
    Respects (SameBut residue) (store address word) :=
  Carries.respects (carries_store address word)

/-- A byte of the program is read from one word, wherever it lies. -/
theorem programByte_run (offset : UInt64) (memory : Memory) :
    programByte offset memory =
      if 8 * memory.layout.programBase + offset.toNat < UInt64.size then
        if memory.layout.programBase + offset.toNat / 8 < memory.layout.words then
          .ok (memory.byteAt offset.toNat) memory
        else
          .error (.memoryFault (UInt64.ofNat (memory.layout.programBase + offset.toNat / 8))) memory
      else .error (.memoryFault (UInt64.ofNat (UInt64.size - 1))) memory := by
  have word : (8 * memory.layout.programBase + offset.toNat) / 8 =
      memory.layout.programBase + offset.toNat / 8 := by
    omega
  have place : (8 * memory.layout.programBase + offset.toNat) % 8 = offset.toNat % 8 := by
    omega
  by_cases narrow : 8 * memory.layout.programBase + offset.toNat < UInt64.size
  · have position : bytePosition offset memory =
        .ok (UInt64.ofNat (memory.layout.programBase + offset.toNat / 8),
          UInt64.ofNat (8 * (offset.toNat % 8))) memory := by
      simp only [bytePosition, narrow, if_true, word, place]
    have address : (UInt64.ofNat (memory.layout.programBase + offset.toNat / 8)).toNat =
        memory.layout.programBase + offset.toNat / 8 := by
      simp only [UInt64.size] at narrow
      rw [UInt64.toNat_ofNat']
      omega
    rw [if_pos narrow, programByte, bind_of_ok position]
    dsimp only
    by_cases inBlock : memory.layout.programBase + offset.toNat / 8 < memory.layout.words
    · have inside : memory.InBlock
          (UInt64.ofNat (memory.layout.programBase + offset.toNat / 8)) := by
        rwa [InBlock, address]
      have loaded : load (UInt64.ofNat (memory.layout.programBase + offset.toNat / 8)) memory =
          .ok (memory.wordAt (memory.layout.programBase + offset.toNat / 8)) memory := by
        rw [load, if_pos inside, address]
      rw [if_pos inBlock, bind_of_ok loaded]
      rfl
    · have outside : ¬memory.InBlock
          (UInt64.ofNat (memory.layout.programBase + offset.toNat / 8)) := by
        rwa [InBlock, address]
      have refused : load (UInt64.ofNat (memory.layout.programBase + offset.toNat / 8)) memory =
          .error (.memoryFault (UInt64.ofNat (memory.layout.programBase + offset.toNat / 8)))
            memory := by
        rw [load, if_neg outside]
      rw [if_neg inBlock, bind_of_error refused]
  · have position : bytePosition offset memory =
        .error (.memoryFault (UInt64.ofNat (UInt64.size - 1))) memory := by
      simp only [bytePosition, narrow, if_false]
    rw [if_neg narrow, programByte, bind_of_error position]

theorem SameBut.programByte_of_ok (same : clean.SameBut residue stale) {offset : UInt64}
    (unread : ¬residue offset.toNat) {byte : UInt8} {after : Memory}
    (read : programByte offset clean = .ok byte after) :
    programByte offset stale = .ok byte stale := by
  rw [programByte_run] at read ⊢
  rw [← same.layout, ← same.bytes _ unread]
  split at read
  · split at read
    · rename_i narrow inBlock
      cases read
      rw [if_pos narrow, if_pos inBlock]
    · cases read
  · cases read

theorem SameBut.programByte_of_error (same : clean.SameBut residue stale) {offset : UInt64}
    {fault : Fault} {last : Memory} (failed : programByte offset clean = .error fault last) :
    last = clean ∧ programByte offset stale = .error fault stale := by
  rw [programByte_run] at failed ⊢
  rw [← same.layout]
  split at failed
  · split at failed
    · cases failed
    · rename_i narrow outside
      cases failed
      rw [if_pos narrow, if_neg outside]
      exact ⟨rfl, rfl⟩
  · rename_i wide
    cases failed
    rw [if_neg wide]
    exact ⟨rfl, rfl⟩

theorem carries_programByte {offset : UInt64} (unread : ¬residue offset.toNat) :
    Carries (SameBut residue) before (programByte offset) fun byte memory =>
      before memory ∧ byte = memory.byteAt offset.toNat := by
  intro clean stale same known
  rw [programByte_run, programByte_run, ← same.layout, ← same.bytes _ unread]
  split
  · split
    · exact .ok same ⟨known, rfl⟩
    · exact .error same
  · exact .error same

/-- The byte at an offset is not looked at, but whether there is one. -/
theorem carries_programByte_discard (offset : UInt64) :
    Carries (SameBut residue) before (programByte offset >>= fun _ => pure ()) fun _ => before := by
  intro clean stale same known
  have readClean := programByte_run offset clean
  have readStale := programByte_run offset stale
  rw [← same.layout] at readStale
  by_cases narrow : 8 * clean.layout.programBase + offset.toNat < UInt64.size
  · rw [if_pos narrow] at readClean readStale
    by_cases inBlock : clean.layout.programBase + offset.toNat / 8 < clean.layout.words
    · rw [if_pos inBlock] at readClean readStale
      rw [bind_of_ok readClean, bind_of_ok readStale]
      exact .ok same known
    · rw [if_neg inBlock] at readClean readStale
      rw [bind_of_error readClean, bind_of_error readStale]
      exact .error same
  · rw [if_neg narrow] at readClean readStale
    rw [bind_of_error readClean, bind_of_error readStale]
    exact .error same

theorem carries_programBytes {count : Nat} {offset : UInt64}
    (unread : ∀ place, place < count → ¬residue (offset + UInt64.ofNat place).toNat) :
    Carries (SameBut residue) before (programBytes count offset) fun _ => before := by
  induction count generalizing offset with
  | zero => exact carries_pure fun _ known => known
  | succ count inductionHypothesis =>
      have first := unread 0 (by omega)
      change ¬residue (offset + 0).toNat at first
      rw [UInt64.add_zero] at first
      refine (carries_programByte first).bind fun byte => ?_
      refine Carries.mono ?_ fun _ known => known.1
      refine Carries.bind (inductionHypothesis ?_) fun rest => carries_pure fun _ known => known
      intro place inside
      have later := unread (place + 1) (by omega)
      rwa [UInt64.ofNat_add, UInt64.ofNat_one, UInt64.add_comm _ 1, ← UInt64.add_assoc] at later

theorem carries_programTarget {offset : UInt64}
    (unread : ∀ place, place < 2 → ¬residue (offset + UInt64.ofNat place).toNat) :
    Carries (SameBut residue) before (programTarget offset) fun _ => before :=
  (carries_programBytes unread).bind fun _ => carries_pure fun _ known => known

theorem carries_programWord {offset : UInt64}
    (unread : ∀ place, place < 8 → ¬residue (offset + UInt64.ofNat place).toNat) :
    Carries (SameBut residue) before (programWord offset) fun _ => before :=
  (carries_programBytes unread).bind fun _ => carries_pure fun _ known => known

end Access

end Memory

end TagMachine
