import TagMachine.Proofs.Lockstep.Integers
import TagMachine.Proofs.Lockstep.Texts

/-!
# Steps in lockstep

Every instruction of a hardened machine is in lockstep with its rule on values, and so is a step,
which fetches one and executes it.  Along a run every state represents one of the machine of
values, and a step that fails does so with a fault that a program can bring about and leaves the
block confined.
-/

namespace TagMachine

theorem State.stop?_ne_fault (state : State) (fault : Fault) :
    state.stop? ≠ some (.fault fault) := by
  rw [Ne, State.stop?_eq_some_iff]
  rintro (⟨impossible, -⟩ | ⟨impossible, -⟩) <;> cases impossible

namespace Setting

variable {setting : Setting} {issued : Nat} {state : State} {values : ValueMachine.State}

namespace Represents

/-- Every instruction is in lockstep with its rule. -/
theorem execute (now : setting.Represents issued state values)
    (running : values.isHalted = false)
    (inside : values.ip.toNat ≤ setting.program.length) (opcode : Opcode) :
    setting.Lockstep issued (opcode.execute setting.config state)
      (ValueMachine.execute setting.config setting.program opcode values) := by
  cases opcode with
  | nop => exact now.ok
  | push => exact now.pushImmediate running inside
  | pop => exact now.printInt
  | read => exact now.readInt
  | add => exact now.binary (· + ·) (· + ·) Computes.add
  | sub => exact now.binary (· - ·) (· - ·) Computes.sub
  | mul => exact now.binary (· * ·) (· * ·) Computes.mul
  | div => exact now.divide (· / ·) (· / ·) Computes.div
  | mod => exact now.divide (· % ·) (· % ·) Computes.mod
  | itostr => exact now.intToString
  | jmp => exact now.jump running inside true
  | lt => exact now.compare (· < ·) (· < ·) fun _ _ => by simp only [UInt64.lt_iff_toNat_lt]
  | gt =>
      exact now.compare (· > ·) (· > ·) fun _ _ => by
        simp only [gt_iff_lt, UInt64.lt_iff_toNat_lt]
  | eq =>
      exact now.compare (· == ·) (· == ·) fun _ _ => by
        simp only [beq_eq_decide, UInt64.toNat_inj]
  | jnz =>
      rw [Opcode.execute, get_bind, now.cmp_eq]
      exact now.jump running inside values.cmp
  | jz =>
      rw [Opcode.execute, get_bind, now.cmp_eq]
      exact now.jump running inside (!values.cmp)
  | inc => exact now.unary (· + 1) (· + 1) fun top => Computes.add top 1
  | dec => exact now.unary (· - 1) (· - 1) fun top => Computes.sub top 1
  | shl => exact now.unary (· <<< 1) (2 * ·) Computes.shiftLeft_one
  | shr => exact now.unary (· >>> 1) (· / 2) Computes.shiftRight_one
  | cpy => exact now.copyTop
  | swap =>
      rw [Opcode.execute, setting.hardened]
      exact now.swap
  | pushs => exact now.pushLiteral running inside
  | pops => exact now.printString
  | reads => exact now.pushLine
  | strcat => exact now.concat
  | strlen => exact now.stringLength
  | strtoi => exact now.stringToInt
  | strcmp => exact now.compareStrings
  | instr => exact now.findString
  | writefile => exact now.writeFile
  | readfile => exact now.readFile
  | halt => exact now.setHalt.ok

/-- A step that is made while nothing stops the machine is in lockstep. -/
theorem step (now : setting.Represents issued state values)
    (goesOn : state.stop? = none) :
    setting.Lockstep issued (State.step setting.config state)
      (ValueMachine.step setting.config setting.program values) := by
  have short := setting.short
  rw [now.stop?_eq, ValueMachine.stop?_eq_none_iff] at goesOn
  rcases goesOn with ⟨running, inside⟩
  have counted := setting.toNat_add_one (Nat.le_of_lt inside)
  rcases now.operandByte running (by omega) with ⟨byte, read, valueRead⟩
  have opcode : UInt8.ofNat (Bytes.littleEndian [byte]) = byte := by
    simp [Bytes.littleEndian]
  have executed := (now.setIp (values.ip + 1)).execute running (by simp only; omega)
    (Opcode.running byte)
  rw [State.step, get_bind, now.ip_eq, bind_of_ok (Action.onMemory_of_ok read),
    ValueMachine.step, bind_of_ok valueRead, opcode]
  exact executed

end Represents

theorem Confines.halted (confined : setting.Confines state) :
    setting.Confines state.halted := by
  rcases confined with ⟨view, shown⟩
  exact ⟨_, shown.setHalt true⟩

/-- Whatever comes of a step, a failure is one that a program can bring about, and leaves the block
confined. -/
theorem Lockstep.confines_of_error {fault : Fault} {last : State}
    {result : EStateM.Result Fault ValueMachine.State Unit}
    (lockstep : setting.Lockstep issued (.error fault last) result) :
    setting.Confines last ∧ fault.isInternal = false := by
  cases lockstep with
  | fault external confined _ => exact ⟨confined, external⟩
  | outOfIds confined _ => exact ⟨confined, rfl⟩

/-! ## Runs -/

section Runs

variable {config : Config} {program : Program} {machine : Machine} {world : World} {count : Nat}

theorem represents_after (hardened : config.swapCheck = .hardened)
    (boots : machine.Boots config program)
    (reached : (State.runner config).after count (machine.inWorld world) = some state) :
    ∃ values, (ofBoots hardened boots).Represents (count + 1) state values := by
  refine Runner.after_induction
    (fun count state => ∃ values, (ofBoots hardened boots).Represents (count + 1) state values)
    ⟨_, represents_start hardened boots world⟩ ?_ reached
  rintro count state next ⟨values, now⟩ goesOn stepped
  have lockstep :
      (ofBoots hardened boots).Lockstep (count + 1) (State.step config state)
        (ValueMachine.step config program values) :=
    now.step goesOn
  change State.step config state = .ok () next at stepped
  rw [stepped] at lockstep
  generalize ValueMachine.step config program values = result at lockstep
  cases lockstep with
  | ok later => exact ⟨_, later⟩

/-- A step that fails along a run leaves the block confined. -/
theorem confines_of_failed (hardened : config.swapCheck = .hardened)
    (boots : machine.Boots config program)
    (reached : (State.runner config).after count (machine.inWorld world) = some state)
    (goesOn : state.stop? = none) {fault : Fault} {last : State}
    (failed : State.step config state = .error fault last) :
    (ofBoots hardened boots).Confines last ∧ fault.isInternal = false := by
  rcases represents_after hardened boots reached with ⟨values, now⟩
  have lockstep :
      (ofBoots hardened boots).Lockstep (count + 1) (State.step config state)
        (ValueMachine.step config program values) :=
    now.step goesOn
  rw [failed] at lockstep
  exact lockstep.confines_of_error

/-- A run leaves the block confined, and ends with no fault of the machine itself. -/
theorem confines_runFrom (hardened : config.swapCheck = .hardened)
    (boots : machine.Boots config program) (limit : Nat) (world : World) :
    (ofBoots hardened boots).Confines
        ((State.runner config).runFrom limit 0 (machine.inWorld world)).2 ∧
      ∀ fault,
        ((State.runner config).runFrom limit 0 (machine.inWorld world)).1.reason = .fault fault →
          fault.isInternal = false := by
  obtain ⟨count, state, _, reached, ends⟩ :=
    (State.runner config).exists_ends limit (machine.inWorld world)
  rcases represents_after hardened boots reached with ⟨values, now⟩
  generalize (State.runner config).runFrom limit 0 (machine.inWorld world) = ended at ends
  cases ends with
  | stopped stops =>
      refine ⟨now.confines, ?_⟩
      rintro fault rfl
      exact absurd stops (state.stop?_ne_fault fault)
  | outOfCycles _ _ => exact ⟨now.confines, fun _ faulted => by cases faulted⟩
  | failed goesOn _ fails =>
      rcases confines_of_failed hardened boots reached goesOn fails with ⟨confined, external⟩
      refine ⟨confined.halted, ?_⟩
      rintro fault faulted
      obtain rfl := HaltReason.fault.inj faulted
      exact external

end Runs

end Setting

end TagMachine
