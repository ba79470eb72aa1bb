import TagMachine.Memory
import TagMachine.Proofs.Respects
import TagMachine.Stack

/-!
# Looking at memory

Reading a word, a byte of the program or a cell leaves every block as it is, whether it succeeds or
not, and so does asking for cells or for room.
-/

namespace TagMachine

namespace Memory

variable {α β : Type}

/-- The computation leaves every block as it is. -/
def Looks (access : Access α) : Prop :=
  ∀ memory, Keeps (fun now => now = memory) access

theorem looks_pure (result : α) : Looks (pure result : Access α) :=
  fun _ => respects_pure result

theorem Looks.bind {first : Access α} {rest : α → Access β} (here : Looks first)
    (later : ∀ result, Looks (rest result)) :
    Looks (first >>= rest) :=
  fun memory => (here memory).bind fun result => later result memory

theorem looks_get_bind {rest : Memory → Access β} (later : ∀ memory, Looks (rest memory)) :
    Looks ((get : Access Memory) >>= rest) :=
  fun memory => keeps_get_bind fun state => later state memory

theorem looks_load (address : UInt64) : Looks (load address) := by
  rintro _ memory _ ⟨rfl, rfl⟩
  unfold load
  split
  · exact .ok ⟨rfl, rfl⟩
  · exact .error ⟨rfl, rfl⟩

theorem looks_bytePosition (offset : UInt64) : Looks (bytePosition offset) := by
  rintro _ memory _ ⟨rfl, rfl⟩
  unfold bytePosition
  dsimp only
  split
  · exact .ok ⟨rfl, rfl⟩
  · exact .error ⟨rfl, rfl⟩

theorem looks_programByte (offset : UInt64) : Looks (programByte offset) :=
  (looks_bytePosition offset).bind fun _ => (looks_load _).bind fun _ => looks_pure _

theorem looks_programBytes (count : Nat) (offset : UInt64) : Looks (programBytes count offset) := by
  induction count generalizing offset with
  | zero => exact looks_pure []
  | succ count inductionHypothesis =>
      exact (looks_programByte offset).bind fun _ =>
        (inductionHypothesis (offset + 1)).bind fun _ => looks_pure _

theorem looks_programTarget (offset : UInt64) : Looks (programTarget offset) :=
  (looks_programBytes 2 offset).bind fun _ => looks_pure _

theorem looks_programWord (offset : UInt64) : Looks (programWord offset) :=
  (looks_programBytes 8 offset).bind fun _ => looks_pure _

theorem looks_peek (depth : UInt64) : Looks (Stack.peek depth) :=
  looks_get_bind fun _ => (looks_load _).bind fun _ => looks_pure _

theorem looks_requireIntsFrom (depth : UInt64) (count : Nat) :
    Looks (Stack.requireIntsFrom depth count) := by
  induction count generalizing depth with
  | zero => exact looks_pure ()
  | succ count inductionHypothesis =>
      exact (looks_peek depth).bind fun _ memory =>
        respects_failIf _ (inductionHypothesis (depth + 1) memory)

theorem looks_require (count : UInt64) : Looks (Stack.require count) :=
  looks_get_bind fun _ _ => respects_throwIf _

theorem looks_requireFree : Looks Stack.requireFree :=
  looks_get_bind fun _ _ => respects_throwIf _

theorem looks_requireInts (count : UInt64) : Looks (Stack.requireInts count) :=
  (looks_require count).bind fun _ => looks_requireIntsFrom 0 _

/-- What holds of a block still does when it has been looked at. -/
theorem Looks.keeps {access : Access α} (looks : Looks access) {holds : Memory → Prop} :
    Keeps holds access := by
  rintro memory _ ⟨rfl, known⟩
  have looked := looks memory memory memory ⟨rfl, rfl⟩
  revert looked
  cases access memory with
  | ok result after =>
      intro looked
      cases looked with
      | ok same => exact .ok ⟨rfl, same.2 ▸ known⟩
  | error fault after =>
      intro looked
      cases looked with
      | error same => exact .error ⟨rfl, same.2 ▸ known⟩

end Memory

end TagMachine
