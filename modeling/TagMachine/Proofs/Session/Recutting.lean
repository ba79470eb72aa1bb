import TagMachine.Proofs.Session.Reading
import TagMachine.Proofs.Worlds

/-!
# Runs do not see where the input is cut

Every reader of the input comes to the same where only the pieces of the input differ, and so does
every run.
-/

namespace TagMachine

/-- The same world but for where the input is cut. -/
structure World.Recut (left right : World) : Prop where
  input : left.input.Recut right.input
  output : left.output = right.output
  files : left.files = right.files

/-- Inputs that differ in their pieces, the same output and the same files. -/
def WorldRelation.recut (config : Config) : WorldRelation config where
  input := Input.Recut
  output left right := left = right
  files left right := left = right
  readLine limit := (Input.reads_readLine limit).respects
  readWord := Input.respects_readWord
  printLine := Output.respects_printLine_same
  writeFile := Sandbox.respects_write_same config
  readFile := Sandbox.read_same config

/-- A machine's run reports the same and leaves the same, however its input is cut. -/
theorem Machine.run_recut (machine : Machine) {left right : World} (same : left.Recut right) :
    (machine.run left).1 = (machine.run right).1 ∧
      (machine.run left).2.1 = (machine.run right).2.1 ∧
      (machine.run left).2.2.Recut (machine.run right).2.2 := by
  rcases Machine.run_worlds (.recut machine.config) ⟨same.input, same.output, same.files⟩ with
    ⟨summary, last, after⟩
  exact ⟨summary, last, after.input, after.output, after.files⟩

end TagMachine
