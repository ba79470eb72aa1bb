import Mathlib
import TagMachine.Proofs.Memory.Loading
import TagMachine.Proofs.Session.Recutting
import TagMachine.Session

/-!
# The framing of a session

A line, a block of bytes and the program's own reads share one input.  Each takes exactly its bytes,
however they arrive: the length line up to its newline, the program as many bytes as the line says,
and the run all that come after.  A session ends early in three ways only, and otherwise it is the
run of a machine that was loaded with the program.
-/

namespace TagMachine

open Bytes (firstLine newline)

/-! ## Printing -/

/-- The output with lines printed to it. -/
def Output.printed (output : Output) (lines : List String) : Output :=
  { output with
    written := output.written ++ lines.flatMap fun line => Bytes.ofText line ++ [newline] }

@[simp] theorem Output.room_printed (output : Output) (lines : List String) :
    (output.printed lines).room = output.room := rfl

theorem Output.printed_append (output : Output) (first second : List String) :
    (output.printed first).printed second = output.printed (first ++ second) := by
  rcases output with ⟨written, room⟩
  simp only [printed, Output.mk.injEq, and_true]
  apply Array.toList_inj.mp
  simp

namespace Session

section Printing

variable {input : Input} {output : Output} {files : FileSystem}

theorem print_eq (unbounded : output.room = none) (line : String) :
    print line ⟨input, output, files⟩ = .ok () ⟨input, output.printed [line], files⟩ := by
  rcases output with ⟨written, room⟩
  obtain rfl : room = none := unbounded
  have printed : Output.printLine (Bytes.ofText line) ⟨written, none⟩ =
      .ok () (Output.printed ⟨written, none⟩ [line]) := by
    have bytes : written ++ Bytes.ofText line ++ [newline] =
        written ++ [line].flatMap fun line => Bytes.ofText line ++ [newline] := by
      apply Array.toList_inj.mp
      simp
    change EStateM.Result.ok () (Output.mk (written ++ Bytes.ofText line ++ [newline]) none) = _
    rw [bytes]
    rfl
  simp only [print, printed]

theorem printAll_eq (unbounded : output.room = none) (lines : List String) :
    printAll lines ⟨input, output, files⟩ = .ok () ⟨input, output.printed lines, files⟩ := by
  induction lines generalizing output with
  | nil =>
      have same : output.printed [] = output := by simp [Output.printed]
      rw [same]
      rfl
  | cons line rest inductionHypothesis =>
      have stillUnbounded := (output.room_printed [line]).trans unbounded
      rw [printAll, bind_of_ok (print_eq unbounded line), inductionHypothesis stillUnbounded,
        Output.printed_append]
      rfl

end Printing

/-! ## The parts of the input -/

/-- The length line. -/
def lengthLine (config : SessionConfig) (bytes : Bytes) : Bytes :=
  (firstLine bytes).take (config.lengthLineMax - 1)

/-- The length that the first line gives. -/
def declared (config : SessionConfig) (bytes : Bytes) : UInt32 :=
  lengthOfLine (lengthLine config bytes)

/-- The bytes after the length line. -/
def afterLine (config : SessionConfig) (bytes : Bytes) : Bytes :=
  bytes.drop (lengthLine config bytes).length

/-- What comes of a session whose input is the bytes: which errors there are and when, what has
been printed and is left then, and otherwise the run of the machine. -/
inductive Framed (config : SessionConfig) (bytes : Bytes) (output : Output) (files : FileSystem) :
    EStateM.Result SessionError World Outcome → Prop
  | missingLength {left : Input} :
      bytes = [] →
      left.Recut (Input.ofBytes []) →
      Framed config bytes output files
        (.error .missingLength ⟨left, output.printed greeting, files⟩)
  | invalidLength {left : Input} :
      bytes ≠ [] →
      config.machine.programCapacity ≤ (declared config bytes).toNat →
      left.Recut (Input.ofBytes (afterLine config bytes)) →
      Framed config bytes output files
        (.error (.invalidLength (declared config bytes)) ⟨left, output.printed greeting, files⟩)
  | shortProgram {left : Input} :
      bytes ≠ [] →
      (declared config bytes).toNat < config.machine.programCapacity →
      (afterLine config bytes).length < (declared config bytes).toNat →
      left.Recut (Input.ofBytes []) →
      Framed config bytes output files
        (.error (.shortProgram (declared config bytes))
          ⟨left, output.printed (greeting ++ [programPrompt]), files⟩)
  | served {machine last : Machine} {summary : Summary} {world left : World} :
      bytes ≠ [] →
      (declared config bytes).toNat < config.machine.programCapacity →
      (declared config bytes).toNat ≤ (afterLine config bytes).length →
      machine.Boots config.machine
        ⟨(afterLine config bytes).take (declared config bytes).toNat⟩ →
      machine.run
          ⟨Input.ofBytes ((afterLine config bytes).drop (declared config bytes).toNat),
            output.printed (greeting ++ [programPrompt]), files⟩ =
        (summary, last, world) →
      left.Recut world →
      Framed config bytes output files (.ok ⟨declared config bytes, summary, last⟩ left)

/-! ## The parts of the conversation -/

section Parts

variable {config : SessionConfig} {input : Input} {output : Output} {files : FileSystem}

theorem lengthLine_eq_nil_iff (wide : 2 ≤ config.lengthLineMax) (bytes : Bytes) :
    lengthLine config bytes = [] ↔ bytes = [] := by
  have positive : config.lengthLineMax - 1 ≠ 0 := by omega
  rw [lengthLine, List.take_eq_nil_iff, or_iff_right positive]
  cases bytes with
  | nil => simp [firstLine]
  | cons byte rest => by_cases ends : byte = newline <;> simp [firstLine, ends]

theorem onInput_of_ok {α : Type} {reading : EStateM IoError Input α} {result : α} {left : Input}
    (read : reading input = .ok result left) :
    onInput reading ⟨input, output, files⟩ = .ok result ⟨left, output, files⟩ := by
  simp only [onInput, read]

theorem onInput_of_error {α : Type} {reading : EStateM IoError Input α} {cause : IoError}
    {left : Input} (failed : reading input = .error cause left) :
    onInput reading ⟨input, output, files⟩ = .error (.io cause) ⟨left, output, files⟩ := by
  simp only [onInput, failed]

/-- Once the greeting is printed the length line is read, and nothing after it. -/
theorem readLength_of_greeted {printed : Output} (wide : 2 ≤ config.lengthLineMax)
    (holds : input.HoldsLine (config.lengthLineMax - 1))
    (greeted : printAll greeting ⟨input, output, files⟩ = .ok () ⟨input, printed, files⟩) :
    ∃ left : Input, left.Recut ⟨[afterLine config input.unread], input.ending⟩ ∧
      readLength config ⟨input, output, files⟩ =
        if input.unread = [] then .error .missingLength ⟨left, printed, files⟩
        else .ok (declared config input.unread) ⟨left, printed, files⟩ := by
  rcases Input.readLine_of_holdsLine holds with ⟨left, unread, ending, read⟩
  have line : onInput (Input.readLine (config.lengthLineMax - 1)) ⟨input, printed, files⟩ =
      .ok (lengthLine config input.unread) ⟨left, printed, files⟩ := onInput_of_ok read
  refine ⟨left, ⟨unread.trans (List.append_nil _).symm, ending⟩, ?_⟩
  rw [readLength, bind_of_ok greeted, bind_of_ok line]
  have sameNil := lengthLine_eq_nil_iff wide input.unread
  by_cases missing : input.unread = []
  · rw [if_pos missing, sameNil.mpr missing]
    rfl
  · have there : (lengthLine config input.unread).isEmpty = false := by
      simpa using mt sameNil.mp missing
    rw [if_neg missing, there]
    rfl

theorem readLength_eq (wide : 2 ≤ config.lengthLineMax) (closed : input.ending = .closed)
    (unbounded : output.room = none) :
    ∃ left : Input, left.Recut (Input.ofBytes (afterLine config input.unread)) ∧
      readLength config ⟨input, output, files⟩ =
        if input.unread = [] then
          .error .missingLength ⟨left, output.printed greeting, files⟩
        else .ok (declared config input.unread) ⟨left, output.printed greeting, files⟩ := by
  have greeted : printAll greeting ⟨input, output, files⟩ =
      .ok () ⟨input, output.printed greeting, files⟩ := printAll_eq unbounded greeting
  have read := readLength_of_greeted wide (Or.inl closed) greeted
  rw [closed] at read
  exact read

/-- So many bytes are read, and nothing after them. -/
theorem readProgram_eq (closed : input.ending = .closed) (unbounded : output.room = none)
    (length : UInt32) :
    ∃ left : Input, left.Recut (Input.ofBytes (input.unread.drop length.toNat)) ∧
      readProgram length ⟨input, output, files⟩ =
        if input.unread.length < length.toNat then
          .error (.shortProgram length) ⟨left, output.printed [programPrompt], files⟩
        else
          .ok (input.unread.take length.toNat) ⟨left, output.printed [programPrompt], files⟩ := by
  rcases Input.reads_readExactly length.toNat input with ⟨pieces, flat, read⟩
  rw [Input.blockOf, closed] at flat read
  refine ⟨⟨pieces, .closed⟩, ⟨?_, rfl⟩, ?_⟩
  · rw [Input.unread_ofBytes, Input.unread, flat]
    split
    · rename_i few
      exact (List.drop_eq_nil_iff.mpr (Nat.le_of_lt few)).symm
    · rfl
  · rw [readProgram, bind_of_ok (print_eq unbounded programPrompt)]
    by_cases few : input.unread.length < length.toNat
    · rw [if_pos few, if_pos rfl] at read
      rw [if_pos few, tryCatch_of_error (onInput_of_error read)]
      rfl
    · rw [if_neg few] at read
      rw [if_neg few, tryCatch_of_ok (onInput_of_ok read)]

end Parts

theorem prepare_eq {config : Config} {bytes : Bytes} (valid : config.Valid)
    (short : bytes.length < config.programCapacity) :
    prepare config bytes = .ok (Machine.loaded config ⟨bytes⟩) := by
  rcases (Machine.boots_iff config ⟨bytes⟩ _).mpr ⟨valid, short, rfl⟩ with ⟨fresh, made, loading⟩
  simp only [prepare, Program.accept, if_pos short, made, Except.mapError, bind, Except.bind,
    loading]

/-! ## The whole conversation -/

theorem valid_of_validate {config : SessionConfig} (accepted : config.validate = .ok ()) :
    2 ≤ config.lengthLineMax ∧ config.machine.Valid := by
  unfold SessionConfig.validate at accepted
  split at accepted
  · cases accepted
  · rename_i wide
    refine ⟨by omega, (config.machine.validate_eq_ok_iff).mp ?_⟩
    cases checked : config.machine.validate with
    | ok => rfl
    | error refusal =>
        rw [checked] at accepted
        cases accepted

/-- With the length known and in bounds, what is left to receive is the program. -/
theorem receive_eq {config : SessionConfig} {world between later : World} {length : UInt32}
    (ensured : ensureRoot config.machine world = .ok () between)
    (lengthRead : readLength config between = .ok length later)
    (fits : length.toNat < config.machine.programCapacity) :
    receive config world =
      (do
        let bytes ← readProgram length
        let machine ← ofExcept (prepare config.machine bytes)
        return (length, machine) : Exchange (UInt32 × Machine)) later := by
  rw [receive, bind_of_ok ensured, bind_of_ok lengthRead, if_neg (by omega)]

/-- Once the program is received, the session is the run of its machine. -/
theorem serve_eq {config : SessionConfig} {world later : World} {length : UInt32}
    {machine : Machine} (received : receive config world = .ok (length, machine) later) :
    serve config world =
      .ok ⟨length, (machine.run later).1, (machine.run later).2.1⟩ (machine.run later).2.2 := by
  rw [serve, bind_of_ok received]
  rfl

/-- The run is on what is left as it came, and `Framed.served` speaks of it as one piece. -/
theorem Framed.of_run {config : SessionConfig} {bytes : Bytes} {output : Output}
    {files : FileSystem} {machine : Machine} {left : Input}
    (present : bytes ≠ []) (fits : (declared config bytes).toNat < config.machine.programCapacity)
    (whole : (declared config bytes).toNat ≤ (afterLine config bytes).length)
    (boots : machine.Boots config.machine
      ⟨(afterLine config bytes).take (declared config bytes).toNat⟩)
    (leftRecut : left.Recut
      (Input.ofBytes ((afterLine config bytes).drop (declared config bytes).toNat))) :
    let world : World := ⟨left, output.printed (greeting ++ [programPrompt]), files⟩
    Framed config bytes output files
      (.ok ⟨declared config bytes, (machine.run world).1, (machine.run world).2.1⟩
        (machine.run world).2.2) := by
  intro world
  have recut : world.Recut
      ⟨Input.ofBytes ((afterLine config bytes).drop (declared config bytes).toNat),
        output.printed (greeting ++ [programPrompt]), files⟩ := ⟨leftRecut, rfl, rfl⟩
  rcases machine.run_recut recut with ⟨sameSummary, sameLast, sameWorld⟩
  rw [sameSummary, sameLast]
  exact .served present fits whole boots rfl sameWorld

/-- A session prints these lines and reads its input as the framing says, however the input
arrives. -/
theorem serve_framed {config : SessionConfig} (accepted : config.validate = .ok ())
    {input : Input} (closed : input.ending = .closed) {output : Output}
    (unbounded : output.room = none) {files made : FileSystem}
    (rooted : Sandbox.ensureRoot config.machine files = .ok () made) :
    greeting =
        ["\n".intercalate
            ["Go program your",
              "                  __",
              "                 /  \\",
              "           .-.  |    |",
              "   *    _.-'  \\  \\__/",
              "    \\.-'       \\",
              "   /          _/",
              "  |      _  /\"",
              "  |     /_\\'",
              "   \\    \\_/",
              "    \"\"\"\""],
          "Give me your bytecode!",
          "I will load the cannon and execute it.",
          "Length:"] ∧
      programPrompt = "Bytecode:" ∧
      Framed config input.unread output made (serve config ⟨input, output, files⟩) := by
  refine ⟨rfl, rfl, ?_⟩
  rcases valid_of_validate accepted with ⟨wide, valid⟩
  have ensured : ensureRoot config.machine ⟨input, output, files⟩ =
      .ok () ⟨input, output, made⟩ := by
    simp only [ensureRoot, rooted]
  rcases @readLength_eq config input output made wide closed unbounded with
    ⟨later, laterRecut, lengthRead⟩
  have stillUnbounded := (output.room_printed greeting).trans unbounded
  by_cases missing : input.unread = []
  · rw [if_pos missing] at lengthRead
    have received : receive config ⟨input, output, files⟩ =
        .error .missingLength ⟨later, output.printed greeting, made⟩ := by
      rw [receive, bind_of_ok ensured, bind_of_error lengthRead]
    have nothingAfter : afterLine config input.unread = [] := by
      rw [missing, afterLine, List.drop_nil]
    rw [serve, bind_of_error received]
    rw [nothingAfter] at laterRecut
    exact .missingLength missing laterRecut
  rw [if_neg missing] at lengthRead
  by_cases tooLong :
      config.machine.programCapacity ≤ (declared config input.unread).toNat
  · have received : receive config ⟨input, output, files⟩ =
        .error (.invalidLength (declared config input.unread))
          ⟨later, output.printed greeting, made⟩ := by
      rw [receive, bind_of_ok ensured, bind_of_ok lengthRead, if_pos tooLong]
      rfl
    rw [serve, bind_of_error received]
    exact .invalidLength missing tooLong laterRecut
  have fits : (declared config input.unread).toNat < config.machine.programCapacity := by omega
  rcases @readProgram_eq later (output.printed greeting) made laterRecut.ending stillUnbounded
    (declared config input.unread) with ⟨left, leftRecut, programRead⟩
  rw [laterRecut.unread, Input.unread_ofBytes, Output.printed_append] at programRead
  rw [laterRecut.unread, Input.unread_ofBytes] at leftRecut
  have rest := receive_eq ensured lengthRead fits
  by_cases short :
      (afterLine config input.unread).length < (declared config input.unread).toNat
  · rw [if_pos short] at programRead
    rw [bind_of_error programRead] at rest
    rw [serve, bind_of_error rest]
    rw [List.drop_eq_nil_iff.mpr (Nat.le_of_lt short)] at leftRecut
    exact .shortProgram missing fits short leftRecut
  · rw [if_neg short] at programRead
    have lengthTaken : ((afterLine config input.unread).take
        (declared config input.unread).toNat).length < config.machine.programCapacity := by
      rw [List.length_take]
      omega
    rw [bind_of_ok programRead, prepare_eq valid lengthTaken] at rest
    rw [serve_eq rest]
    exact .of_run missing fits (by omega)
      ((Machine.boots_iff _ _ _).mpr ⟨valid, lengthTaken, rfl⟩) leftRecut

/-- A length line cut after its first digit, a program that halts, and a byte left over. -/
theorem serve_framed_halt :
    let config : SessionConfig := { machine := { sandboxDir := "d" } }
    let input : Input := ⟨[[49], [10, 32], [65]], .closed⟩
    let made : FileSystem := ⟨["work"], [(["work", "d"], .directory), (["work"], .directory)]⟩
    Sandbox.ensureRoot config.machine FileSystem.fresh = .ok () made ∧
      declared config input.unread = 1 ∧
      afterLine config input.unread = [32, 65] ∧
      Framed config input.unread Output.unbounded made
        (serve config ⟨input, Output.unbounded, FileSystem.fresh⟩) := by
  intro config input made
  have rooted : Sandbox.ensureRoot config.machine FileSystem.fresh = .ok () made := by
    cbv
  have served := @serve_framed config rfl input rfl Output.unbounded rfl _ _ rooted
  exact ⟨rooted, by decide +kernel, by decide +kernel, served.2.2⟩

end Session

end TagMachine
