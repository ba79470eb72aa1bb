import TagMachine.Proofs.Memory.Loading
import TagMachine.Proofs.Worlds

/-!
# Runs under different cycle limits

No instruction reads the cycle limit, so a run under a higher limit repeats a run under a lower one
and goes on only where the lower one cut it off.  What has been printed by then stays printed.
-/

namespace TagMachine

/-! ## Runners -/

namespace Runner

variable {σ : Type} {runner : Runner σ} {state start : σ} {less more : Nat}

theorem runFrom_of_stopped {reason : HaltReason} (stopped : runner.stop? state = some reason)
    (remaining cycles : Nat) :
    runner.runFrom remaining cycles state = (⟨reason, cycles⟩, state) := by
  cases remaining with
  | zero => rw [runFrom, stopped, Option.getD_some]
  | succ remaining => rw [runFrom, stopped]

/-- A run that ends for another reason than its limit ends so under every higher limit. -/
theorem runFrom_of_reason_ne (fewer : less ≤ more)
    (finished : (runner.runFrom less 0 start).1.reason ≠ .cycleLimit) :
    runner.runFrom more 0 start = runner.runFrom less 0 start := by
  rcases runner.exists_ends less start with ⟨count, state, within, reached, ends⟩
  revert finished ends
  generalize runner.runFrom less 0 start = ended
  rintro finished ends
  cases ends with
  | stopped stopped =>
      rw [runFrom_of_after reached (by omega), runFrom_of_stopped stopped, Nat.zero_add]
  | outOfCycles _ _ => exact absurd rfl finished
  | failed running early failed =>
      exact runFrom_of_failed reached (by omega) running failed

/-- A run that its limit ends has made as many steps as that, and is where these lead to. -/
theorem after_of_reason_eq (distinct : ∀ state, runner.stop? state ≠ some .cycleLimit)
    (cutOff : (runner.runFrom less 0 start).1.reason = .cycleLimit) :
    (runner.runFrom less 0 start).1.cycles = less ∧
      runner.after less start = some (runner.runFrom less 0 start).2 := by
  rcases runner.exists_ends less start with ⟨count, state, within, reached, ends⟩
  revert cutOff ends
  generalize runner.runFrom less 0 start = ended
  rintro cutOff ends
  cases ends with
  | stopped stopped =>
      obtain rfl : _ = HaltReason.cycleLimit := cutOff
      exact absurd stopped (distinct state)
  | outOfCycles _ spent =>
      obtain rfl := spent
      exact ⟨rfl, reached⟩
  | failed _ _ _ => cases cutOff

end Runner

/-! ## What has been printed stays printed -/

/-- The same output, which goes on from what was printed before. -/
def Output.GoesOn (before : Bytes) (left right : Output) : Prop :=
  left = right ∧ before <+: left.written.toList

theorem Output.respects_write (before bytes : Bytes) :
    Respects (GoesOn before) (write bytes) := by
  rintro ⟨written, room⟩ _ ⟨rfl, printed⟩
  have longer : ∀ more : Bytes, before <+: (written ++ more).toList := by
    intro more
    rw [Array.toList_appendList]
    exact printed.trans (List.prefix_append _ _)
  cases room with
  | none => exact .ok ⟨rfl, longer bytes⟩
  | some room =>
      unfold write
      dsimp only
      split
      · exact .ok ⟨rfl, longer bytes⟩
      · exact .error ⟨rfl, longer (bytes.take room)⟩

/-- The same worlds, whose output goes on from what was printed before. -/
def WorldRelation.printing (config : Config) (before : Bytes) : WorldRelation config where
  input left right := left = right
  output := Output.GoesOn before
  files left right := left = right
  readLine := Input.respects_readLine_same
  readWord := respects_eq _
  printLine line := (Output.respects_write before line).bind fun _ =>
    Output.respects_write before [Bytes.newline]
  writeFile := Sandbox.respects_write_same config
  readFile := Sandbox.read_same config

theorem State.written_runFrom (config : Config) (remaining cycles : Nat) (state : State) :
    state.output.written.toList <+:
      ((State.runner config).runFrom remaining cycles state).2.output.written.toList := by
  have alike : (WorldRelation.printing config state.output.written.toList).States state state :=
    ⟨⟨rfl, ⟨rfl, List.prefix_rfl⟩, rfl⟩, rfl, rfl⟩
  have simulation :=
    (WorldRelation.printing config state.output.written.toList).simulation (cycles + remaining)
  exact (simulation.runFrom alike rfl).2.world.output.2

/-! ## Machines -/

/-- The same limits but for the cycle limit. -/
def Config.limited (config : Config) (cycleLimit : Nat) : Config :=
  { config with cycleLimit }

theorem State.runner_limited (config : Config) (limit : Nat) :
    State.runner (config.limited limit) = State.runner config := by
  unfold State.runner
  rw [@State.step_congr (config.limited limit) config rfl rfl rfl rfl rfl]

theorem State.stop?_ne_cycleLimit (state : State) : state.stop? ≠ some .cycleLimit := by
  rw [Ne, State.stop?_eq_some_iff]
  rintro (⟨impossible, -⟩ | ⟨impossible, -⟩) <;> cases impossible

namespace Machine

variable {config : Config} {program : Program} {less more : Nat} {short long : Machine}

theorem Boots.inWorld_limited (bootsShort : short.Boots (config.limited less) program)
    (bootsLong : long.Boots (config.limited more) program) (world : World) :
    long.inWorld world = short.inWorld world := by
  rcases (boots_iff _ _ _).mp bootsShort with ⟨_, _, rfl⟩
  rcases (boots_iff _ _ _).mp bootsLong with ⟨_, _, rfl⟩
  rfl

theorem Boots.run_eq_limited {machine : Machine} {limit : Nat}
    (boots : machine.Boots (config.limited limit) program) (world : World) :
    machine.run world =
      machine.ended ((State.runner config).runFrom limit 0 (machine.inWorld world)) := by
  rcases boots.fresh with ⟨fresh, sameConfig⟩
  rw [machine.run_eq fresh, sameConfig, State.runner_limited]
  rfl

/-- A run that its limit does not end is the run under every higher limit.  One that its limit ends
is the first part of the run under a higher limit, instruction by instruction. -/
theorem run_limited (fewer : less ≤ more)
    (bootsShort : short.Boots (config.limited less) program)
    (bootsLong : long.Boots (config.limited more) program) (world : World) :
    ((short.run world).1.reason ≠ .cycleLimit →
        (long.run world).1 = (short.run world).1 ∧
          (long.run world).2.1.memory = (short.run world).2.1.memory ∧
          (long.run world).2.1.heap = (short.run world).2.1.heap ∧
          (long.run world).2.2 = (short.run world).2.2) ∧
      ((short.run world).1.reason = .cycleLimit →
        (short.run world).1.cycles = less ∧
          (State.runner (config.limited more)).after less (long.inWorld world) =
            some ((short.run world).2.1.inWorld (short.run world).2.2) ∧
          (short.run world).2.2.output.written.toList <+:
            (long.run world).2.2.output.written.toList) := by
  rw [bootsShort.run_eq_limited, bootsLong.run_eq_limited, State.runner_limited,
    bootsShort.inWorld_limited bootsLong]
  constructor
  · intro finished
    rw [Runner.runFrom_of_reason_ne fewer finished]
    exact ⟨rfl, rfl, rfl, rfl⟩
  · intro cutOff
    rcases Runner.after_of_reason_eq State.stop?_ne_cycleLimit cutOff with ⟨spent, reached⟩
    refine ⟨spent, reached, ?_⟩
    rw [Runner.runFrom_of_after reached fewer]
    exact State.written_runFrom _ _ _ _

/-- A loop that prints, cut off at its second round and in its fourth. -/
theorem run_limited_loop :
    let config : Config := { stackCapacity := 1, programCapacity := 8 }
    let program : Program := ⟨[22, 1, 97, 23, 10, 0, 0]⟩
    let short := loaded (config.limited 3) program
    let long := loaded (config.limited 11) program
    let world : World := ⟨Input.ofBytes [], Output.unbounded, FileSystem.fresh⟩
    3 ≤ 11 ∧ short.Boots (config.limited 3) program ∧ long.Boots (config.limited 11) program ∧
      (short.run world).1 = ⟨.cycleLimit, 3⟩ ∧
      (State.runner (config.limited 11)).after 3 (long.inWorld world) =
        some ((short.run world).2.1.inWorld (short.run world).2.2) ∧
      (short.run world).2.2.output.written = #[97, 10] ∧
      (short.run world).2.2.output.written.toList <+:
        (long.run world).2.2.output.written.toList := by
  intro config program short long world
  have bootsShort : short.Boots (config.limited 3) program := boots_loaded rfl (by decide)
  have bootsLong : long.Boots (config.limited 11) program := boots_loaded rfl (by decide)
  have cutOff : (short.run world).1 = ⟨.cycleLimit, 3⟩ := by
    decide +kernel
  rcases (run_limited (by decide) bootsShort bootsLong world).2 (by rw [cutOff]) with
    ⟨-, reached, printed⟩
  exact ⟨by decide, bootsShort, bootsLong, cutOff, reached, by decide +kernel, printed⟩

end Machine

end TagMachine
