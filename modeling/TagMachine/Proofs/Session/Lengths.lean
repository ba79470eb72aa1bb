import TagMachine.Proofs.Ensures
import TagMachine.Proofs.LeadingNumber
import TagMachine.Proofs.Operations
import TagMachine.Proofs.Session.Framing

/-!
# Lengths that are refused

The length line denotes a signed integer of 64 bits, and its low 32 bits are the length, as an unsigned
number.  A session refuses the length when these have no place in the store, before it asks for the
program.  So an integer beyond the store is refused while it has 32 bits, a negative one while it is
close to zero, and one that wraps into the store is not.
-/

namespace TagMachine.Session

/-! ## Errors after the length -/

/-- The error is not about the length. -/
def OfOther (error : SessionError) (_ : World) : Prop :=
  ∀ length, error ≠ .invalidLength length

section Errors

variable {α : Type}

theorem ensures_print (line : String) :
    Ensures (fun _ => True) (print line) (fun _ _ => True)
      (fun error _ => ∃ cause, error = .io cause) := by
  rintro ⟨input, output, files⟩ _
  cases printed : Output.printLine (Bytes.ofText line) output with
  | ok _ _ =>
      simp only [print, printed]
      exact .ok trivial
  | error cause _ =>
      simp only [print, printed]
      exact .error ⟨cause, rfl⟩

theorem ensures_onInput (reading : EStateM IoError Input α) :
    Ensures (fun _ => True) (onInput reading) (fun _ _ => True)
      (fun error _ => ∃ cause, error = .io cause) := by
  rintro ⟨input, output, files⟩ _
  cases read : reading input with
  | ok _ _ =>
      rw [onInput_of_ok read]
      exact .ok trivial
  | error cause _ =>
      rw [onInput_of_error read]
      exact .error ⟨cause, rfl⟩

theorem ofOther_of_io {error : SessionError} {world : World} (io : ∃ cause, error = .io cause) :
    OfOther error world := by
  rcases io with ⟨cause, rfl⟩
  exact fun length same => by cases same

theorem ensures_readProgram (length : UInt32) :
    Ensures (fun _ => True) (readProgram length) (fun _ _ => True) OfOther := by
  refine Ensures.bind ((ensures_print programPrompt).weaken (fun _ _ _ => trivial)
    fun _ _ => ofOther_of_io) fun _ => (ensures_onInput _).tryCatch fun error => ?_
  split
  · exact ensures_throw fun _ _ _ same => by cases same
  · exact ensures_throw fun _ => ofOther_of_io

theorem ne_invalidLength_of_prepare {config : Config} {bytes : Bytes} (length : UInt32) :
    prepare config bytes ≠ .error (.invalidLength length) := by
  unfold prepare
  cases Program.accept config.programCapacity bytes with
  | error cause => exact fun same => by cases same
  | ok program =>
      cases Machine.new config with
      | error cause => exact fun same => by cases same
      | ok machine =>
          change (machine.load program).mapError SessionError.load ≠ _
          cases machine.load program <;> exact fun same => by cases same

theorem ensures_ofExcept_prepare (config : Config) (bytes : Bytes) :
    Ensures (fun _ => True) (ofExcept (prepare config bytes)) (fun _ _ => True) OfOther := by
  intro world _
  cases prepared : prepare config bytes with
  | ok machine => exact Ends.ok trivial
  | error error =>
      refine Ends.error fun length same => ?_
      exact ne_invalidLength_of_prepare length (prepared.trans (congrArg Except.error same))

end Errors

/-! ## The length itself -/

section Lengths

variable {config : SessionConfig} {input : Input} {output printed : Output}
  {files made : FileSystem}

/-- The session ends with the length refused: the length line has been read and no byte after it, and
nothing has been printed since the greeting. -/
def Refuses (config : SessionConfig) (input : Input) (printed : Output) (made : FileSystem)
    (ended : EStateM.Result SessionError World Outcome) : Prop :=
  ∃ left : Input, left.Recut ⟨[afterLine config input.unread], input.ending⟩ ∧
    ended = .error (.invalidLength (declared config input.unread)) ⟨left, printed, made⟩

/-- The low 32 bits of what the line denotes. -/
theorem toNat_declared (config : SessionConfig) (bytes : Bytes) :
    (declared config bytes).toNat =
      (Numeral.readLong (lengthLine config bytes) % 2 ^ 32).toNat := by
  rw [declared, lengthOfLine, UInt32.ofInt, UInt32.toNat_ofNat']
  omega

variable (accepted : config.validate = .ok ())
  (rooted : Sandbox.ensureRoot config.machine files = .ok () made)
  (greeted : printAll greeting ⟨input, output, made⟩ = .ok () ⟨input, printed, made⟩)
  (holds : input.HoldsLine (config.lengthLineMax - 1))

include rooted

theorem ensureRoot_eq :
    ensureRoot config.machine ⟨input, output, files⟩ = .ok () ⟨input, output, made⟩ := by
  simp only [ensureRoot, rooted]

include accepted greeted holds

/-- A length that has no place in the store is refused. -/
theorem refuses_of_le
    (large : config.machine.programCapacity ≤ (declared config input.unread).toNat) :
    Refuses config input printed made (serve config ⟨input, output, files⟩) := by
  rcases valid_of_validate accepted with ⟨wide, valid⟩
  rcases readLength_of_greeted wide holds greeted with ⟨left, recut, read⟩
  have present : input.unread ≠ [] := by
    intro missing
    have none : (declared config input.unread).toNat = 0 := by
      rw [missing, declared, (lengthLine_eq_nil_iff wide []).mpr rfl]
      rfl
    have positive := valid.program_pos
    omega
  rw [if_neg present] at read
  have received : receive config ⟨input, output, files⟩ =
      .error (.invalidLength (declared config input.unread)) ⟨left, printed, made⟩ := by
    rw [receive, bind_of_ok (ensureRoot_eq rooted), bind_of_ok read, if_pos large]
    rfl
  exact ⟨left, recut, by rw [serve, bind_of_error received]⟩

/-- A length that has a place in the store is not. -/
theorem serve_ne_of_lt
    (fits : (declared config input.unread).toNat < config.machine.programCapacity) :
    ∀ length world, serve config ⟨input, output, files⟩ ≠ .error (.invalidLength length) world := by
  intro length world
  rcases readLength_of_greeted (valid_of_validate accepted).1 holds greeted with
    ⟨left, -, read⟩
  by_cases missing : input.unread = []
  · rw [if_pos missing] at read
    have received : receive config ⟨input, output, files⟩ =
        .error .missingLength ⟨left, printed, made⟩ := by
      rw [receive, bind_of_ok (ensureRoot_eq rooted), bind_of_error read]
    rw [serve, bind_of_error received]
    exact fun same => by cases same
  · rw [if_neg missing] at read
    have rest := receive_eq (ensureRoot_eq rooted) read fits
    have later : Ensures (fun _ => True) (do
        let bytes ← readProgram (declared config input.unread)
        let machine ← ofExcept (prepare config.machine bytes)
        return (declared config input.unread, machine) : Exchange (UInt32 × Machine))
        (fun _ _ => True) OfOther :=
      (ensures_readProgram _).bind fun bytes =>
        (ensures_ofExcept_prepare config.machine bytes).bind fun machine =>
          ensures_pure fun _ _ => trivial
    cases received : receive config ⟨input, output, files⟩ with
    | ok result last =>
        rcases result with ⟨length, machine⟩
        rw [serve_eq received]
        exact fun same => by cases same
    | error error last =>
        rw [serve, bind_of_error received]
        rw [received] at rest
        exact fun same => by
          cases same
          exact later.of_error trivial rest.symm length rfl

/-- A session refuses the length if and only if the low 32 bits of what the line denotes have no place
in the store. Of the integers of 32 bits these are the ones from the capacity on, and of the negative
ones close to zero those that wrap to such. -/
theorem serve_refuses_iff {text : Bytes} {number : Int}
    (denotes : Numeral.LeadingNumber (lengthLine config input.unread) text number) :
    let value := Numeral.clamp number
    let capacity : Int := config.machine.programCapacity
    let ended := serve config ⟨input, output, files⟩
    (capacity ≤ value % 2 ^ 32 → Refuses config input printed made ended) ∧
      (value % 2 ^ 32 < capacity →
        ∀ length world, ended ≠ .error (.invalidLength length) world) ∧
      (0 ≤ value → value < 2 ^ 32 →
        (Refuses config input printed made ended ↔ capacity ≤ value)) ∧
      (-2 ^ 32 ≤ value → value < 0 →
        (Refuses config input printed made ended ↔ capacity - 2 ^ 32 ≤ value)) := by
  intro value capacity ended
  have low : ((declared config input.unread).toNat : Int) = value % 2 ^ 32 := by
    rw [toNat_declared, denotes.readLong_eq]
    omega
  have refuses (large : capacity ≤ value % 2 ^ 32) :
      Refuses config input printed made ended :=
    refuses_of_le accepted rooted greeted holds (by omega)
  have other (fits : value % 2 ^ 32 < capacity) :
      ∀ length world, ended ≠ .error (.invalidLength length) world :=
    serve_ne_of_lt accepted rooted greeted holds (by omega)
  have exactly : Refuses config input printed made ended ↔ capacity ≤ value % 2 ^ 32 := by
    refine ⟨fun refused => ?_, refuses⟩
    rcases refused with ⟨left, -, failed⟩
    exact Int.not_lt.mp fun fits => other fits _ _ failed
  refine ⟨refuses, other, fun positive small => ?_, fun least negative => ?_⟩
  · rw [exactly, Int.emod_eq_of_lt positive small]
  · have wrapped : value % 2 ^ 32 = value + 2 ^ 32 := by
      omega
    rw [exactly, wrapped, sub_le_iff_le_add]

end Lengths

/-- Beyond the store by a multiple of `2 ^ 32`, and below zero by as much: neither is refused. -/
theorem serve_refuses_iff_wrapped :
    let config : SessionConfig := { machine := { sandboxDir := "d" } }
    let made : FileSystem := ⟨["work"], [(["work", "d"], .directory), (["work"], .directory)]⟩
    let digits : Bytes := [52, 50, 57, 52, 57, 54, 55, 50, 57, 54, 10]
    config.validate = .ok () ∧
      Sandbox.ensureRoot config.machine FileSystem.fresh = .ok () made ∧
      ∀ bytes ∈ [digits, 45 :: digits], ∃ text number,
        Numeral.LeadingNumber (lengthLine config bytes) text number ∧
          (Numeral.clamp number < 0 ∨ config.machine.programCapacity ≤ Numeral.clamp number) ∧
          ∀ length world,
            serve config ⟨Input.ofBytes bytes, Output.unbounded, FileSystem.fresh⟩ ≠
              .error (.invalidLength length) world := by
  intro config made digits
  have rooted : Sandbox.ensureRoot config.machine FileSystem.fresh = .ok () made := by
    cbv
  have known : ∀ bytes ∈ [digits, 45 :: digits],
      (Numeral.readLong (lengthLine config bytes) < 0 ∨
          config.machine.programCapacity ≤ Numeral.readLong (lengthLine config bytes)) ∧
        (declared config (Input.ofBytes bytes).unread).toNat < config.machine.programCapacity := by
    decide +kernel
  refine ⟨rfl, rooted, fun bytes member => ?_⟩
  rcases known bytes member with ⟨outside, fits⟩
  have denotes := Numeral.leadingNumber_leadingText (lengthLine config bytes)
  rw [denotes.readLong_eq] at outside
  exact ⟨_, _, denotes, outside,
    serve_ne_of_lt rfl rooted (printAll_eq rfl greeting) (Or.inl rfl) fits⟩

/-- A length of minus one is refused. -/
theorem serve_refuses_iff_negative :
    let config : SessionConfig := { machine := { sandboxDir := "d" } }
    let input : Input := ⟨[[45], [49, 10, 32]], .closed⟩
    let made : FileSystem := ⟨["work"], [(["work", "d"], .directory), (["work"], .directory)]⟩
    let printed := Output.unbounded.printed greeting
    config.validate = .ok () ∧
      Sandbox.ensureRoot config.machine FileSystem.fresh = .ok () made ∧
      printAll greeting ⟨input, Output.unbounded, made⟩ = .ok () ⟨input, printed, made⟩ ∧
      input.HoldsLine (config.lengthLineMax - 1) ∧
      Numeral.LeadingNumber (lengthLine config input.unread) [45, 49] (-1) ∧
      Refuses config input printed made
        (serve config ⟨input, Output.unbounded, FileSystem.fresh⟩) := by
  intro config input made printed
  have rooted : Sandbox.ensureRoot config.machine FileSystem.fresh = .ok () made := by
    cbv
  have greeted : printAll greeting ⟨input, Output.unbounded, made⟩ =
      .ok () ⟨input, printed, made⟩ := printAll_eq rfl greeting
  have denotes : Numeral.LeadingNumber (lengthLine config input.unread) [45, 49] (-1) :=
    Numeral.leadingNumber_leadingText (lengthLine config input.unread)
  refine ⟨rfl, rooted, greeted, Or.inl rfl, denotes, ?_⟩
  exact (serve_refuses_iff rfl rooted greeted (Or.inl rfl) denotes).1 (by decide)

end TagMachine.Session
