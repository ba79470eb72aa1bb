import TagMachine.Proofs.CycleLimit
import TagMachine.Proofs.Parts

/-!
# Outputs that break

An output that takes so many bytes and then breaks does not show before these are used up.  The
instruction that prints beyond them has done everything else by then, so a run that its output cuts
off ends where a run with an output that takes everything would have gone on from.
-/

namespace TagMachine

/-! ## Alike or cut off -/

section RespectsOrCuts

variable {ε σ α : Type} {failure : ε} {related cut : σ → σ → Prop}

/-- From related states the computation comes to the same, or it fails from the first where it
succeeds from the second. -/
def RespectsOrCuts (failure : ε) (related cut : σ → σ → Prop) (action : EStateM ε σ Unit) : Prop :=
  ∀ left right, related left right → ResultsAlike related (action left) (action right) ∨
    ∃ last next, action left = .error failure last ∧ action right = .ok () next ∧ cut last next

theorem Respects.orCuts {action : EStateM ε σ Unit} (respects : Respects related action) :
    RespectsOrCuts failure related cut action :=
  fun left right same => Or.inl (respects left right same)

theorem Respects.bind_orCuts {first : EStateM ε σ α} {rest : α → EStateM ε σ Unit}
    (here : Respects related first)
    (later : ∀ result, RespectsOrCuts failure related cut (rest result)) :
    RespectsOrCuts failure related cut (first >>= rest) := by
  intro left right same
  have started := here left right same
  cases ranLeft : first left <;> cases ranRight : first right <;>
    rw [ranLeft, ranRight] at started <;> cases started
  · rename_i after
    rw [bind_of_ok ranLeft, bind_of_ok ranRight]
    exact later _ _ _ after
  · rename_i after
    rw [bind_of_error ranLeft, bind_of_error ranRight]
    exact Or.inl (.error after)

end RespectsOrCuts

namespace Runner

variable {σ : Type} {runner : Runner σ} {fault : Fault} {related cut : σ → σ → Prop}
  {left right : σ}

/-- Runs from related states are alike to the end, or to the step at which the first is cut off. -/
theorem runFrom_alike_or_cut (step : RespectsOrCuts fault related cut runner.step)
    (stop? : ∀ left right, related left right → runner.stop? left = runner.stop? right)
    (halted : ∀ left right, related left right → related (runner.halted left) (runner.halted right))
    (limit : Nat) (same : related left right) :
    ((runner.runFrom limit 0 left).1 = (runner.runFrom limit 0 right).1 ∧
        related (runner.runFrom limit 0 left).2 (runner.runFrom limit 0 right).2) ∨
      ∃ count former state last next, count < limit ∧
        runner.after count right = some state ∧ related former state ∧
        runner.after (count + 1) right = some next ∧ cut last next ∧
        runner.runFrom limit 0 left = (⟨.fault fault, count + 1⟩, runner.halted last) := by
  suffices rest : ∀ remaining count former state, count + remaining = limit →
      runner.after count left = some former → runner.after count right = some state →
      related former state → _ from
    rest limit 0 left right (Nat.zero_add limit) rfl rfl same
  intro remaining
  induction remaining with
  | zero =>
      intro count former state spent reachedLeft reachedRight now
      have noneLeft : limit - count = 0 := by omega
      rw [runFrom_of_after reachedLeft (by omega), runFrom_of_after reachedRight (by omega), noneLeft,
        runFrom, runFrom, stop? former state now]
      exact Or.inl ⟨rfl, now⟩
  | succ remaining inductionHypothesis =>
      intro count former state spent reachedLeft reachedRight now
      cases stopped : runner.stop? former with
      | some reason =>
          rw [runFrom_of_after reachedLeft (by omega), runFrom_of_after reachedRight (by omega),
            runFrom_of_stopped stopped, runFrom_of_stopped (stop? former state now ▸ stopped)]
          exact Or.inl ⟨rfl, now⟩
      | none =>
          have stoppedRight : runner.stop? state = none := stop? former state now ▸ stopped
          rcases step former state now with alike | ⟨last, next, failed, stepped, cutOff⟩
          · cases steppedLeft : runner.step former <;> cases steppedRight : runner.step state <;>
              rw [steppedLeft, steppedRight] at alike <;> cases alike
            · rename_i after
              exact inductionHypothesis (count + 1) _ _ (by omega)
                (after_succ_eq_some_iff.mpr ⟨former, reachedLeft, stopped, steppedLeft⟩)
                (after_succ_eq_some_iff.mpr ⟨state, reachedRight, stoppedRight, steppedRight⟩) after
            · rename_i after
              rw [runFrom_of_failed reachedLeft (by omega) stopped steppedLeft,
                runFrom_of_failed reachedRight (by omega) stoppedRight steppedRight]
              exact Or.inl ⟨rfl, halted _ _ after⟩
          · exact Or.inr ⟨count, former, state, last, next, by omega, reachedRight, now,
              after_succ_eq_some_iff.mpr ⟨state, reachedRight, stoppedRight, stepped⟩, cutOff,
              runFrom_of_failed reachedLeft (by omega) stopped failed⟩

end Runner

/-! ## Printing -/

namespace Output

/-- The same has been written to both; the first takes `bound` bytes in all, the second all there
are. -/
structure Capped (bound : Nat) (left right : Output) : Prop where
  written : left.written = right.written
  within : right.written.size ≤ bound
  bounded : left.room = some (bound - right.written.size)
  unbounded : right.room = none

/-- The first is full, with more written to the second. -/
structure CutOff (bound : Nat) (left right : Output) : Prop where
  written : left.written.toList = right.written.toList.take bound
  beyond : bound < right.written.size

/-- What is written later does not matter. -/
theorem CutOff.grown {bound : Nat} {left right last : Output} (cutOff : CutOff bound left right)
    (grown : right.written.toList <+: last.written.toList) :
    CutOff bound left last where
  written := by
    obtain ⟨more, whole⟩ := grown
    rw [cutOff.written, ← whole, List.take_append_of_le_length (Nat.le_of_lt cutOff.beyond)]
  beyond := Nat.lt_of_lt_of_le cutOff.beyond grown.length_le

theorem size_append (written : Array UInt8) (bytes : Bytes) :
    (written ++ bytes).size = written.size + bytes.length := by
  rw [← Array.length_toList, Array.toList_appendList, List.length_append, Array.length_toList]

theorem printLine_unbounded (line : Bytes) (written : Array UInt8) :
    printLine line ⟨written, none⟩ = .ok () ⟨written ++ (line ++ [Bytes.newline]), none⟩ := by
  have bytes : written ++ line ++ [Bytes.newline] = written ++ (line ++ [Bytes.newline]) := by
    apply Array.toList_inj.mp
    simp only [Array.toList_appendList, List.append_assoc]
  rw [← bytes]
  rfl

theorem printLine_bounded (line : Bytes) (written : Array UInt8) (room : Nat) :
    printLine line ⟨written, some room⟩ =
      if line.length < room then
        .ok () ⟨written ++ (line ++ [Bytes.newline]), some (room - (line.length + 1))⟩
      else .error .outputGone ⟨written ++ (line ++ [Bytes.newline]).take room, some 0⟩ := by
  have writes : ∀ (bytes : Bytes) (written : Array UInt8) (room : Nat),
      write bytes ⟨written, some room⟩ =
        if bytes.length ≤ room then .ok () ⟨written ++ bytes, some (room - bytes.length)⟩
        else .error .outputGone ⟨written ++ bytes.take room, some 0⟩ := fun _ _ _ => rfl
  have newlineAfter : ∀ more : Bytes, written ++ line ++ more = written ++ (line ++ more) := by
    intro more
    apply Array.toList_inj.mp
    simp only [Array.toList_appendList, List.append_assoc]
  unfold printLine
  by_cases fits : line.length ≤ room
  · have first := writes line written room
    rw [if_pos fits] at first
    rw [bind_of_ok first, writes, List.length_singleton, newlineAfter, newlineAfter,
      List.take_append, List.take_of_length_le fits, Nat.sub_sub]
    by_cases more : line.length < room
    · rw [if_pos (by omega), if_pos more]
    · rw [if_neg (by omega), if_neg more]
  · have first := writes line written room
    rw [if_neg fits] at first
    rw [bind_of_error first, if_neg (by omega), List.take_append_of_le_length (by omega)]

theorem respectsOrCuts_printLine (bound : Nat) (line : Bytes) :
    RespectsOrCuts .outputGone (Capped bound) (CutOff bound) (printLine line) := by
  rintro ⟨written, room⟩ ⟨_, _⟩ ⟨rfl, within, bounded, rfl⟩
  change written.size ≤ bound at within
  obtain rfl : room = some (bound - written.size) := bounded
  have size := size_append written (line ++ [Bytes.newline])
  rw [List.length_append, List.length_singleton] at size
  rw [printLine_unbounded, printLine_bounded]
  by_cases fits : line.length < bound - written.size
  · rw [if_pos fits]
    refine Or.inl (.ok ⟨rfl, ?_, ?_, rfl⟩)
    · rw [size]
      omega
    · rw [size, Nat.sub_sub]
  · rw [if_neg fits]
    refine Or.inr ⟨_, _, rfl, rfl, ?_, ?_⟩
    · have full : written.toList.length ≤ bound := by rwa [Array.length_toList]
      have taken : (written.toList ++ (line ++ [Bytes.newline])).take bound = _ := List.take_append
      rw [Array.toList_appendList, Array.toList_appendList, taken, List.take_of_length_le full,
        Array.length_toList]
    · rw [size]
      omega

end Output

/-! ## Instructions -/

namespace State

/-- The same states, the output of the first of which takes `bound` bytes in all. -/
abbrev Capped (bound : Nat) : State → State → Prop :=
  Alongside (fun left right => left = right) (Output.Capped bound) fun left right => left = right

/-- The same states but for the output, which is full in the first and went on in the second. -/
abbrev CutOff (bound : Nat) : State → State → Prop :=
  Alongside (fun left right => left = right) (Output.CutOff bound) fun left right => left = right

variable {bound : Nat}

theorem respectsOrCuts_print (line : Bytes) :
    RespectsOrCuts (.io .outputGone) (Capped bound) (CutOff bound)
      (Component.output.on (Output.printLine line)) := by
  intro left right same
  rcases Output.respectsOrCuts_printLine bound line _ _ same.output with
    alike | ⟨last, next, failed, printed, cutOff⟩
  · exact Or.inl (Alongside.seesOutput.resultsAlike_on same alike)
  · exact Or.inr ⟨_, _, Component.on_of_error failed, Component.on_of_ok printed,
      same.input, cutOff, same.files, same.memory, same.heap⟩

def cappedRule (config : Config) (bound : Nat) : PartRule config where
  part := Respects (Capped bound)
  whole := RespectsOrCuts (.io .outputGone) (Capped bound) (CutOff bound)
  ofPure := respects_pure
  ofThrow := respects_throw
  bind := Respects.bind
  catching := Respects.tryCatch
  memory access := Alongside.seesMemory.respects_on (respects_eq access)
  getMemory ofMemory later :=
    respects_get_bind (fun left right same => ofMemory left right same.memory) later
  readLine limit := Alongside.seesInput.respects_on (respects_eq _)
  readWord := Alongside.seesInput.respects_on (respects_eq _)
  writeFile name content _ := Alongside.seesFiles.respects_on (respects_eq _)
  getFile name _ _ ofFile later :=
    respects_get_bind (fun left right same => ofFile left right (by rw [same.files])) later
  allocString := Alongside.seesHeap.respects_allocString
  takeString := Alongside.seesHeap.respects_takeString
  lookUpString := Alongside.seesHeap.respects_lookUpString
  print := respectsOrCuts_print
  wholeOfPart := Respects.orCuts
  bindWhole := Respects.bind_orCuts

end State

/-! ## Runs -/

theorem State.written_after {config : Config} {start former state : State} {earlier count : Nat}
    (before : (State.runner config).after earlier start = some former)
    (reached : (State.runner config).after count start = some state) (sooner : earlier ≤ count) :
    former.output.written.toList <+: state.output.written.toList := by
  have whole := Runner.runFrom_of_after reached (Nat.le_refl count) 0
  have fromFormer := Runner.runFrom_of_after before sooner 0
  rw [Nat.sub_self, Runner.runFrom] at whole
  have last := congrArg Prod.snd (fromFormer.symm.trans whole)
  have grown := State.written_runFrom config (count - earlier) (0 + earlier) former
  rwa [last] at grown

/-- The first state, cut off by its output after the second has come to `next` in `count` steps and
one more. -/
structure State.CutOffAt (config : Config) (limit bound : Nat) (start : State) (count : Nat)
    (next : State) (last : Summary × State) : Prop where
  early : count < limit
  before : ∀ earlier ≤ count, ∀ state, (State.runner config).after earlier start = some state →
    state.output.written.size ≤ bound
  reached : (State.runner config).after (count + 1) start = some next
  beyond : bound < next.output.written.size
  summary : last.1 = ⟨.fault (.io .outputGone), count + 1⟩
  memory : last.2.memory = next.memory.setHalt true
  heap : last.2.heap = next.heap
  input : last.2.input = next.input
  files : last.2.files = next.files

theorem State.runFrom_capped (config : Config) (limit : Nat) {bound : Nat} {left right : State}
    (same : Capped bound left right) :
    ((State.runner config).runFrom limit 0 left).1 =
          ((State.runner config).runFrom limit 0 right).1 ∧
        Capped bound ((State.runner config).runFrom limit 0 left).2
          ((State.runner config).runFrom limit 0 right).2 ∨
      (∃ count next, CutOffAt config limit bound right count next
          ((State.runner config).runFrom limit 0 left)) ∧
        Output.CutOff bound ((State.runner config).runFrom limit 0 left).2.output
          ((State.runner config).runFrom limit 0 right).2.output := by
  have step : RespectsOrCuts (.io .outputGone) (Capped bound) (CutOff bound)
      (State.runner config).step := (cappedRule config bound).whole_step
  rcases Runner.runFrom_alike_or_cut step (fun _ _ same => same.stop?_eq)
    (fun _ _ same => same.halted) limit same with
    alike | ⟨count, former, state, last, next, early, reached, now, reachedNext, cutOff, ran⟩
  · exact Or.inl alike
  · have grown := State.written_runFrom config (limit - (count + 1)) (0 + (count + 1)) next
    rw [← Runner.runFrom_of_after reachedNext early] at grown
    rw [ran]
    refine Or.inr ⟨⟨count, next, early, fun earlier sooner state before => ?_, reachedNext,
      cutOff.output.beyond, rfl, congrArg (Memory.setHalt · true) cutOff.memory, cutOff.heap,
      cutOff.input, cutOff.files⟩, cutOff.output.grown grown⟩
    exact Nat.le_trans (written_after before reached sooner).length_le now.output.within

namespace Machine

/-- A run whose output takes `room` bytes is the same as one whose output takes all of them, if that
prints no more.  Otherwise it is the same up to the first instruction that prints beyond, which
fails when it has done everything else. -/
theorem run_bounded (machine : Machine) (input : Input) (files : FileSystem) (room : Nat) :
    let free := machine.run ⟨input, .unbounded, files⟩
    let tight := machine.run ⟨input, .bounded room, files⟩
    let printed := free.2.2.output.written
    let after count := (State.runner machine.config).after count
      (machine.inWorld ⟨input, .unbounded, files⟩)
    (printed.size ≤ room →
        tight.1 = free.1 ∧ tight.2.1 = free.2.1 ∧
          tight.2.2 = { free.2.2 with output := ⟨printed, some (room - printed.size)⟩ }) ∧
      (room < printed.size →
        ∃ count next, count < machine.config.cycleLimit ∧
          (∀ earlier ≤ count, ∀ state, after earlier = some state →
            state.output.written.size ≤ room) ∧
          after (count + 1) = some next ∧ room < next.output.written.size ∧
          tight.1 = ⟨.fault (.io .outputGone), count + 1⟩ ∧
          tight.2.1.memory = next.memory.setHalt true ∧ tight.2.1.heap = next.heap ∧
          tight.2.2.input = next.input ∧ tight.2.2.files = next.files ∧
          tight.2.2.output.written.toList = printed.toList.take room) := by
  dsimp only
  cases done : machine.isDone with
  | true =>
      have unchanged : ∀ world, machine.run world = (⟨.alreadyHalted, 0⟩, machine, world) := by
        intro world
        simp only [run, done, if_true]
      simp only [unchanged]
      exact ⟨fun _ => ⟨trivial, trivial, rfl⟩, fun more => absurd more (Nat.not_lt_zero room)⟩
  | false =>
      have capped : State.Capped room (machine.inWorld ⟨input, .bounded room, files⟩)
          (machine.inWorld ⟨input, .unbounded, files⟩) :=
        ⟨rfl, ⟨rfl, Nat.zero_le room, rfl, rfl⟩, rfl, rfl, rfl⟩
      have ran := State.runFrom_capped machine.config machine.config.cycleLimit capped
      simp only [machine.run_eq done, ended]
      generalize (State.runner machine.config).runFrom machine.config.cycleLimit 0
        (machine.inWorld ⟨input, .bounded room, files⟩) = tight at ran ⊢
      generalize (State.runner machine.config).runFrom machine.config.cycleLimit 0
        (machine.inWorld ⟨input, .unbounded, files⟩) = free at ran ⊢
      rcases ran with ⟨summary, last⟩ | ⟨⟨count, next, cut⟩, full⟩
      · refine ⟨fun _ => ⟨summary, ?_, ?_⟩, fun more => ?_⟩
        · rw [summary, last.memory, last.heap]
        · rw [← last.output.bounded, ← last.output.written, ← last.input, ← last.files]
        · exact absurd last.output.within (Nat.not_le.mpr more)
      · refine ⟨fun within => absurd full.beyond (Nat.not_lt.mpr within), fun _ => ?_⟩
        exact ⟨count, next, cut.early, cut.before, cut.reached, cut.beyond, cut.summary, cut.memory,
          cut.heap, cut.input, cut.files, full.written⟩

/-- A loop that prints two bytes in a round, cut off in its second round. -/
theorem run_bounded_loop :
    let machine := loaded { stackCapacity := 1, programCapacity := 8, cycleLimit := 11 }
      ⟨[22, 1, 97, 23, 10, 0, 0]⟩
    let free := machine.run ⟨Input.ofBytes [], .unbounded, FileSystem.fresh⟩
    let tight := machine.run ⟨Input.ofBytes [], .bounded 3, FileSystem.fresh⟩
    3 < free.2.2.output.written.size ∧ tight.1 = ⟨.fault (.io .outputGone), 5⟩ ∧
      (∃ next, (State.runner machine.config).after 5
          (machine.inWorld ⟨Input.ofBytes [], .unbounded, FileSystem.fresh⟩) = some next ∧
        tight.2.1.memory = next.memory.setHalt true ∧ tight.2.1.heap = next.heap) ∧
      tight.2.2.output.written.toList = free.2.2.output.written.toList.take 3 := by
  intro machine free tight
  have more : 3 < free.2.2.output.written.size := by
    decide +kernel
  have summary : tight.1 = ⟨.fault (.io .outputGone), 5⟩ := by
    decide +kernel
  rcases (run_bounded machine (Input.ofBytes []) FileSystem.fresh 3).2 more with
    ⟨count, next, -, -, reached, -, cutOff, memory, heap, -, -, written⟩
  obtain rfl : count = 4 := by
    have cycles := congrArg Summary.cycles (cutOff.symm.trans summary)
    exact Nat.succ.inj cycles
  exact ⟨more, summary, ⟨next, reached, memory, heap⟩, written⟩

end Machine

end TagMachine
