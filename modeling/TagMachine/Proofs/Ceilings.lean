import TagMachine.Proofs.Ceilings.Instructions
import TagMachine.Proofs.Runner

/-!
# Ceilings do not show until they are hit

With a hardened `swap` no program can tell how large its stack is, nor how many strings may live,
but by failing: a run that does not fail for want of room is the same with more room.
-/

namespace TagMachine

namespace Raising

variable {raising : Raising} {view : Memory.View} {left right : State}

/-- No instruction looks at the ceilings in its limits. -/
theorem step_raised (config : Config) (cells strings : Nat) :
    State.step (config.raised cells strings) = State.step config :=
  State.step_congr rfl rfl rfl rfl rfl

/-- A step that is made while nothing stops the machines comes to the same in twins. -/
theorem Twins.step (now : raising.Twins view left right) (goesOn : left.stop? = none) :
    raising.Matched (State.step raising.small.config left)
      (State.step raising.large.config right) := by
  have inside : view.ip.toNat < raising.small.program.length := by
    have running := goesOn
    unfold State.stop? at running
    split at running
    · cases running
    · split at running
      · cases running
      · rename_i notPast
        rw [now.leftShows.programLength_eq, raising.small.programLength, now.leftShows.ip]
          at notPast
        omega
  have moved := raising.small.toNat_add_one (Nat.le_of_lt inside)
  rcases now.programByte view.ip
    (inside_operand raising (by decide : 1 ≤ 8) (Nat.le_of_lt inside)) with
      ⟨byte, leftRead, rightRead⟩
  rw [raising.config, step_raised, State.step, get_bind, get_bind, now.leftShows.ip,
    now.rightShows.ip]
  refine now.onMemory leftRead rightRead now.leftShows now.rightShows fun left right now => ?_
  exact (now.setIp (view.ip + 1)).execute (by simp only; omega) (Opcode.running byte)

/-- Twins after equally many steps, along a run that hits no ceiling. -/
theorem simulation (raising : Raising) (limit : Nat) (start : State)
    (unhit : ∀ fault,
      ((State.runner raising.small.config).runFrom limit 0 start).1.reason = .fault fault →
        fault.isCeiling = false) :
    Runner.Simulation (State.runner raising.small.config) (State.runner raising.large.config) limit
      (fun count left right =>
        (State.runner raising.small.config).after count start = some left ∧
          ∃ view, raising.Twins view left right)
      (fun left right => ∃ view, raising.Twins view left right) where
  agrees now := now.2
  stop? := by
    rintro count left right ⟨_, view, now⟩
    exact now.stop?_eq
  step := by
    rintro count left right ⟨reached, view, now⟩ within goesOn
    have matched := now.step goesOn
    change Runner.Alike _ _ (State.step _ left) (State.step _ right)
    cases stepped : State.step raising.small.config left with
    | ok _ next =>
        rw [stepped] at matched
        generalize State.step raising.large.config right = result at matched
        cases matched with
        | ok later => exact .ok ⟨Runner.after_succ_eq_some_iff.mpr ⟨left, reached, goesOn, stepped⟩,
            _, later⟩
    | error fault last =>
        rw [stepped] at matched
        have ended := Runner.runFrom_of_failed reached within goesOn stepped
        have external := unhit fault (by rw [ended])
        generalize State.step raising.large.config right = result at matched
        cases matched with
        | error later => exact .error ⟨_, later.setHalt true⟩
        | ceiling hit =>
            rw [hit] at external
            cases external

/-- The settings of two machines that are loaded with one program. -/
def ofBoots {config : Config} {program : Program} {small large : Machine} {cells strings : Nat}
    (hardened : config.swapCheck = .hardened) (moreCells : config.stackCapacity ≤ cells)
    (moreStrings : config.maxLiveStrings ≤ strings) (bootsSmall : small.Boots config program)
    (bootsLarge : large.Boots (config.raised cells strings) program) : Raising where
  small := Setting.ofBoots hardened bootsSmall
  large := @Setting.ofBoots (config.raised cells strings) program large hardened bootsLarge
  program := rfl
  config := rfl
  moreCells := moreCells
  moreStrings := moreStrings

theorem twins_start {config : Config} {program : Program} {small large : Machine}
    {cells strings : Nat}
    (hardened : config.swapCheck = .hardened) (moreCells : config.stackCapacity ≤ cells)
    (moreStrings : config.maxLiveStrings ≤ strings) (bootsSmall : small.Boots config program)
    (bootsLarge : large.Boots (config.raised cells strings) program) (world : World) :
    (ofBoots hardened moreCells moreStrings bootsSmall bootsLarge).Twins ⟨0, [], false, false⟩
      (small.inWorld world) (large.inWorld world) := by
  rcases (Machine.boots_iff _ _ _).mp bootsSmall with ⟨validSmall, short, rfl⟩
  rcases (Machine.boots_iff _ _ _).mp bootsLarge with ⟨validLarge, shortLarge, rfl⟩
  exact ⟨rfl, Machine.shows_loaded validSmall short, Machine.shows_loaded validLarge shortLarge,
    rfl, rfl, rfl, rfl⟩

end Raising

namespace Machine

variable {config : Config} {program : Program} {small large : Machine} {cells strings : Nat}

/-- A run that hits neither ceiling is the same, to look at, under higher ceilings. -/
theorem run_raised (hardened : config.swapCheck = .hardened)
    (moreCells : config.stackCapacity ≤ cells) (moreStrings : config.maxLiveStrings ≤ strings)
    (bootsSmall : small.Boots config program)
    (bootsLarge : large.Boots (config.raised cells strings) program) (world : World)
    (cellsSuffice : (small.run world).1.reason ≠ .fault .stackFull)
    (stringsSuffice : (small.run world).1.reason ≠ .fault .allocationFailure) :
    (large.run world).1 = (small.run world).1 ∧
      (large.run world).2.1.memory.ip = (small.run world).2.1.memory.ip ∧
      (large.run world).2.1.memory.sp = (small.run world).2.1.memory.sp ∧
      (large.run world).2.1.memory.cmp = (small.run world).2.1.memory.cmp ∧
      (large.run world).2.1.memory.liveCells = (small.run world).2.1.memory.liveCells ∧
      (large.run world).2.1.heap.strings = (small.run world).2.1.heap.strings ∧
      (large.run world).2.1.heap.nextId = (small.run world).2.1.heap.nextId ∧
      (large.run world).2.2 = (small.run world).2.2 := by
  rcases bootsSmall.fresh with ⟨freshSmall, configSmall⟩
  rcases bootsLarge.fresh with ⟨freshLarge, configLarge⟩
  have smallRun := small.run_eq freshSmall world
  have largeRun := large.run_eq freshLarge world
  rw [configSmall] at smallRun
  rw [configLarge] at largeRun
  rw [smallRun] at cellsSuffice stringsSuffice
  have start := Raising.twins_start hardened moreCells moreStrings bootsSmall bootsLarge world
  have simulation := Raising.simulation
    (Raising.ofBoots hardened moreCells moreStrings bootsSmall bootsLarge) config.cycleLimit
    (small.inWorld world) fun fault faulted => by
      cases fault with
      | stackFull => exact absurd faulted cellsSuffice
      | allocationFailure => exact absurd faulted stringsSuffice
      | _ => rfl
  rcases simulation.runFrom ⟨rfl, _, start⟩ (Nat.zero_add _) with ⟨summary, view, last⟩
  rw [smallRun, largeRun]
  refine ⟨summary.symm, ?_, ?_, ?_, ?_, last.strings.symm, last.nextId.symm, last.world.symm⟩
  · exact last.rightShows.ip.trans last.leftShows.ip.symm
  · exact last.rightShows.sp.trans last.leftShows.sp.symm
  · exact last.rightShows.cmp_eq.trans last.leftShows.cmp_eq.symm
  · exact last.rightShows.liveCells_eq.trans last.leftShows.liveCells_eq.symm

/-- A program that fills a stack of two cells with two strings, on that stack and on a larger. -/
theorem run_raised_full :
    let config : Config :=
      { stackCapacity := 2, programCapacity := 8, maxLiveStrings := 2, swapCheck := .hardened }
    let program : Program := ⟨[22, 1, 97, 20, 25, 20, 32]⟩
    let small := loaded config program
    let large := loaded (config.raised 5 7) program
    let world : World := ⟨Input.ofBytes [], Output.unbounded, FileSystem.fresh⟩
    small.Boots config program ∧
      large.Boots (config.raised 5 7) program ∧
      (small.run world).1 = ⟨.haltInstruction, 5⟩ ∧
      (small.run world).2.1.heap.strings = [(4, [97, 97]), (3, [97, 97])] ∧
      (large.run world).1 = (small.run world).1 ∧
      (large.run world).2.1.memory.liveCells = (small.run world).2.1.memory.liveCells ∧
      (large.run world).2.1.heap.strings = (small.run world).2.1.heap.strings := by
  intro config program small large world
  have bootsSmall : small.Boots config program := boots_loaded rfl (by decide)
  have bootsLarge : large.Boots (config.raised 5 7) program := boots_loaded rfl (by decide)
  have halts : (small.run world).1 = ⟨.haltInstruction, 5⟩ := by
    decide +kernel
  rcases run_raised rfl (by decide) (by decide) bootsSmall bootsLarge world
    (by rw [halts]; simp) (by rw [halts]; simp) with ⟨summary, -, -, -, cells, strings, -, -⟩
  exact ⟨bootsSmall, bootsLarge, halts, by decide +kernel, summary, cells, strings⟩

end Machine

end TagMachine
