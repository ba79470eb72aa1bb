import TagMachine.Machine.Execute
import TagMachine.Proofs.Reloading.Residue

/-!
# Cells that hold no byte left behind

While the stack pointer stays within the stack its cells lie below the store.  A stack pointer that
was exchanged for a cell may stand anywhere, and then the cells around it can be words of the store.
What the stack operations do is the same on both blocks as long as the cells they read hold no byte
that was left behind.
-/

namespace TagMachine

namespace Memory

variable {residue : Nat → Prop} {memory : Memory} {count : Nat}

/-- The cell with the index holds none of the bytes. -/
def ClearCell (residue : Nat → Prop) (memory : Memory) (index : UInt64) : Prop :=
  memory.layout.Clear residue (cellAddress index).toNat

instance (memory : Memory) (index : UInt64) [DecidablePred residue] :
    Decidable (memory.ClearCell residue index) :=
  inferInstanceAs (Decidable (Layout.Clear _ _ _))

/-- The top `count` cells hold none of the bytes. -/
def ClearBelow (residue : Nat → Prop) (count : Nat) (memory : Memory) : Prop :=
  ∀ depth, depth < count → memory.ClearCell residue (Stack.index memory (UInt64.ofNat depth))

/-- The top `count` cells hold none of the bytes, and the stack pointer counts as many. -/
structure Live (residue : Nat → Prop) (count : Nat) (memory : Memory) : Prop where
  clear : memory.ClearBelow residue count
  enough : count ≤ memory.sp.toNat

theorem index_setSp_sub (memory : Memory) (less : UInt64) (depth : Nat) :
    Stack.index (memory.setSp (memory.sp - less)) (UInt64.ofNat depth) =
      Stack.index memory (UInt64.ofNat (depth + less.toNat)) := by
  rw [Stack.index, Stack.index, sp_setSp, UInt64.ofNat_add, UInt64.ofNat_toNat]
  grind

theorem Live.drop {less : UInt64} (live : memory.Live residue (count + less.toNat)) :
    (memory.setSp (memory.sp - less)).Live residue count where
  clear depth inside := by
    have clear := live.clear (depth + less.toNat) (by omega)
    rw [ClearCell, index_setSp_sub]
    exact clear
  enough := by
    have enough := live.enough
    rw [sp_setSp, UInt64.toNat_sub_of_le _ _ (by rw [UInt64.le_iff_toNat_le]; omega)]
    omega

/-- The cell that was dropped last stands at the stack pointer. -/
theorem Live.clearCell_drop {less : UInt64} (live : memory.Live residue (count + less.toNat))
    (some : 0 < less.toNat) :
    memory.ClearCell residue (memory.sp - less) := by
  have clear := live.clear (less.toNat - 1) (by omega)
  have index : Stack.index memory (UInt64.ofNat (less.toNat - 1)) = memory.sp - less := by
    rw [Stack.index, UInt64.ofNat_sub some, UInt64.ofNat_toNat, UInt64.ofNat_one]
    grind
  rwa [index] at clear

/-- The address of the top cell is not that of the stack pointer. -/
theorem toNat_cellAddress_top (live : 0 < memory.sp.toNat) :
    (cellAddress (Stack.index memory 0)).toNat ≠ Layout.spWord := by
  have small := memory.sp.toNat_lt
  rw [cellAddress, Stack.index, UInt64.sub_zero]
  simp only [Layout.stackBase, Layout.spWord, UInt64.toNat_add, UInt64.toNat_sub,
    UInt64.toNat_ofNat', UInt64.toNat_one]
  omega

theorem Live.poke (live : memory.Live residue (count + 1)) (word : UInt64) :
    (memory.put (cellAddress (Stack.index memory 0)).toNat word).Live residue (count + 1) := by
  have enough := live.enough
  have sp : (memory.put (cellAddress (Stack.index memory 0)).toNat word).sp = memory.sp :=
    memory.wordAt_put_of_ne (toNat_cellAddress_top (by omega)).symm word
  constructor
  · intro depth inside
    have clear := live.clear depth inside
    have index : Stack.index (memory.put (cellAddress (Stack.index memory 0)).toNat word)
        (UInt64.ofNat depth) = Stack.index memory (UInt64.ofNat depth) := by
      rw [Stack.index, sp, Stack.index]
    rw [ClearCell, index]
    exact clear
  · rw [sp]
    exact enough

end Memory

namespace Stack

open Memory

variable {residue : Nat → Prop} {before : Memory → Prop} {count : Nat}

/-! ## Checks -/

theorem carries_require (count : UInt64) :
    Carries (SameBut residue) before (require count) fun _ memory =>
      before memory ∧ count.toNat ≤ memory.sp.toNat := by
  refine carries_get_bind (fun clean stale same => by rw [same.sp]) fun state => ?_
  refine Carries.weaken (carries_throwIf _) ?_
  rintro _ memory ⟨⟨known, rfl⟩, enough⟩
  rw [UInt64.not_lt, UInt64.le_iff_toNat_le] at enough
  exact ⟨known, enough⟩

theorem carries_requireFree :
    Carries (SameBut residue) before requireFree fun _ memory =>
      before memory ∧ memory.sp.toNat ≠ memory.layout.stackCells := by
  refine carries_get_bind (fun clean stale same => by rw [same.sp, same.layout]) fun state => ?_
  refine Carries.weaken (carries_throwIf _) ?_
  rintro _ memory ⟨⟨known, rfl⟩, free⟩
  exact ⟨known, free⟩

theorem carries_peek {depth : UInt64}
    (clear : ∀ memory, before memory → memory.ClearCell residue (index memory depth)) :
    Carries (SameBut residue) before (peek depth) fun _ => before := by
  have common (clean stale : Memory) (same : clean.SameBut residue stale) :
      index clean depth = index stale depth := by
    rw [index, index, same.sp]
  refine carries_get_bind (fun clean stale same => by rw [common clean stale same]) fun state => ?_
  refine Carries.bind (carries_load ?_) fun word => carries_pure fun _ known => known.1
  rintro memory ⟨known, rfl⟩
  exact clear memory known

theorem carries_requireIntsFrom (clear : ∀ memory, before memory → memory.ClearBelow residue count)
    (depth many : Nat) (inside : depth + many ≤ count) :
    Carries (SameBut residue) before (requireIntsFrom (UInt64.ofNat depth) many)
      fun _ => before := by
  induction many generalizing depth with
  | zero => exact carries_pure fun _ known => known
  | succ many inductionHypothesis =>
      have next : UInt64.ofNat depth + 1 = UInt64.ofNat (depth + 1) := by
        rw [UInt64.ofNat_add, UInt64.ofNat_one]
      refine (carries_peek fun memory known => clear memory known depth (by omega)).bind fun cell =>
        carries_failIf _ fun _ => ?_
      rw [next]
      exact inductionHypothesis (depth + 1) (by omega)

theorem carries_requireInts {count : UInt64}
    (clear : ∀ memory, before memory → memory.ClearBelow residue count.toNat) :
    Carries (SameBut residue) before (requireInts count) fun _ memory =>
      before memory ∧ count.toNat ≤ memory.sp.toNat :=
  (carries_require count).bind fun _ =>
    carries_requireIntsFrom (fun memory known => clear memory known.1) 0 count.toNat (by omega)

/-! ## Moves -/

theorem carries_drop {less : UInt64} (some : 0 < less.toNat) :
    Carries (SameBut residue) (Live residue (count + less.toNat)) (drop less) fun _ memory =>
      memory.Live residue count ∧ memory.ClearCell residue memory.sp := by
  have lowered (clean stale : Memory) (same : clean.SameBut residue stale) :
      (clean.setSp (clean.sp - less)).SameBut residue (stale.setSp (stale.sp - less)) := by
    rw [same.sp]
    exact same.setSp _
  refine (carries_modify lowered).weaken ?_
  rintro _ _ ⟨memory, live, rfl⟩
  refine ⟨live.drop, ?_⟩
  rw [sp_setSp]
  exact live.clearCell_drop some

/-- The cell that is popped is read after the stack pointer has left it. -/
theorem carries_pop :
    Carries (SameBut residue) (Live residue (count + 1)) pop fun _ memory =>
      memory.Live residue count ∧ memory.ClearCell residue memory.sp := by
  have dropped : Carries (SameBut residue) (Live residue (count + 1)) (drop 1) fun _ memory =>
      memory.Live residue count ∧ memory.ClearCell residue memory.sp :=
    @carries_drop residue count 1 (by decide)
  refine dropped.bind fun _ =>
    carries_get_bind (fun clean stale same => by rw [same.sp]) fun state => ?_
  refine Carries.bind (carries_load ?_) fun word => carries_pure fun _ known => known.1
  rintro memory ⟨⟨_, clear⟩, rfl⟩
  exact clear

theorem carries_poke_top (cell : Cell) :
    Carries (SameBut residue) (Live residue (count + 1)) (poke 0 cell) fun _ =>
      Live residue (count + 1) := by
  have common (clean stale : Memory) (same : clean.SameBut residue stale) :
      index clean 0 = index stale 0 := by
    rw [index, index, same.sp]
  refine carries_get_bind (fun clean stale same => by rw [common clean stale same]) fun state => ?_
  refine (carries_store _ _).weaken ?_
  rintro _ _ ⟨memory, ⟨live, rfl⟩, rfl⟩
  exact live.poke _

theorem respects_poke (depth : UInt64) (cell : Cell) :
    Respects (SameBut residue) (poke depth cell) := by
  have common (clean stale : Memory) (same : clean.SameBut residue stale) :
      index clean depth = index stale depth := by
    rw [index, index, same.sp]
  exact respects_get_bind (fun clean stale same => by rw [common clean stale same]) fun state =>
    respects_store _ _

/-- The cell that was pushed can be read again, if none of the bytes was in its place. -/
theorem carries_push (cell : Cell) :
    Carries (SameBut residue) (fun memory => memory.ClearCell residue memory.sp) (push cell)
      fun _ => ClearBelow residue 1 := by
  refine carries_get_bind (fun clean stale same => by rw [same.sp]) fun state => ?_
  refine (carries_store _ _).bind fun _ => Carries.weaken (carries_modify fun _ _ same =>
    same.setSp _) ?_
  rintro _ _ ⟨_, ⟨memory, ⟨clear, rfl⟩, rfl⟩, rfl⟩ depth inside
  obtain rfl : depth = 0 := by omega
  have index : Stack.index ((memory.put (cellAddress memory.sp).toNat cell.word).setSp
      (memory.sp + 1)) (UInt64.ofNat 0) = memory.sp := by
    rw [Stack.index, sp_setSp]
    change memory.sp + 1 - 0 - 1 = memory.sp
    rw [UInt64.sub_zero, UInt64.add_sub_cancel]
  rw [ClearCell, index]
  exact clear

theorem respects_push (cell : Cell) :
    Respects (SameBut residue) (push cell) :=
  respects_get_bind (fun clean stale same => by rw [same.sp]) fun state =>
    (respects_store _ _).bind fun _ =>
      Carries.respects (carries_modify fun _ _ same => same.setSp _)

end Stack

end TagMachine
