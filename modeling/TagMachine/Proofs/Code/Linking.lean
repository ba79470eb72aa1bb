import TagMachine.Code.Draft

/-!
# Linking in two passes

A draft is put together in one pass, with gaps for the labels that are not known yet, and the gaps
are filled in at the end.  The same program comes of two passes over the statements: the first
finds the offset of each label, and the second encodes one statement after another and looks the
offsets up.  The first jump whose label has no offset, or one of more than 16 bits, is what fails.
-/

namespace TagMachine

/-! ## Two passes -/

namespace Statement

/-- The label that a statement defines. -/
def definedLabel? : Statement → Option String
  | .label name => some name
  | _ => none

/-- The number of bytes that a statement stands for. -/
def length : Statement → Nat
  | .opcode _ => 1
  | .raw bytes => bytes.length
  | .push _ => 9
  | .pushs literal => literal.length + 2
  | .label _ => 0
  | .branch _ _ => 3
  | .branchTo _ _ => 3

/-- A literal fits its length byte. -/
def IsShort : Statement → Prop
  | .pushs literal => literal.length ≤ 255
  | _ => True

/-- The bytes of a statement, with the label of a jump looked up. -/
def encode (offset? : String → Option Nat) : Statement → Except LinkError Bytes
  | .opcode code => .ok (Instruction.encode ⟨code, .none⟩)
  | .raw bytes => .ok bytes
  | .push word => .ok (Instruction.encode ⟨.push, .immediate word⟩)
  | .pushs literal => .ok (Instruction.encode ⟨.pushs, .literal literal⟩)
  | .label _ => .ok []
  | .branchTo code target => .ok (Instruction.encode ⟨code, .target target⟩)
  | .branch code name =>
      match offset? name with
      | none => .error (.undefinedLabel name)
      | some offset =>
          if offset < UInt16.size then
            .ok (Instruction.encode ⟨code, .target (UInt16.ofNat offset)⟩)
          else .error (.targetOutOfRange offset)

/-- The first pass: the offset of a label that is defined among the statements, the first of which
lies at `offset`. -/
def offsetOf? (name : String) : (offset : Nat) → List Statement → Option Nat
  | _, [] => none
  | offset, statement :: rest =>
      if statement.definedLabel? = some name then some offset
      else offsetOf? name (offset + statement.length) rest

/-- The second pass: the bytes of the statements, one after another. -/
def encodeAll (offset? : String → Option Nat) : List Statement → Except LinkError Bytes
  | [] => .ok []
  | statement :: rest => do
      let bytes ← statement.encode offset?
      let others ← encodeAll offset? rest
      return bytes ++ others

/-- The program that two passes over the statements make. -/
def assemble (statements : List Statement) : Except LinkError Bytes :=
  encodeAll (fun name => offsetOf? name 0 statements) statements

/-- The labels that the statements define, in order. -/
def definedLabels (statements : List Statement) : List String :=
  statements.filterMap definedLabel?

theorem mem_definedLabels_cons {statement : Statement} {rest : List Statement} {name : String} :
    name ∈ definedLabels (statement :: rest) ↔
      statement.definedLabel? = some name ∨ name ∈ definedLabels rest := by
  simp [definedLabels]

theorem nodup_definedLabels_cons {statement : Statement} {rest : List Statement} :
    (definedLabels (statement :: rest)).Nodup ↔
      (definedLabels rest).Nodup ∧
        ∀ name, statement.definedLabel? = some name → name ∉ definedLabels rest := by
  unfold definedLabels
  cases defines : statement.definedLabel? with
  | none => simp [List.filterMap_cons_none defines]
  | some label =>
      rw [List.filterMap_cons_some defines, List.nodup_cons, and_comm]
      simp

/-! ## What a draft holds -/

/-- The label of a jump that waits for its offset. -/
def wantedLabel? : Statement → Option String
  | .branch _ name => some name
  | _ => none

/-- The bytes of a statement, with zeros in place of a label's offset. -/
def draftBytes : Statement → Bytes
  | .opcode code => [code.byte]
  | .raw bytes => bytes
  | .push word => Instruction.encode ⟨.push, .immediate word⟩
  | .pushs literal => Instruction.encode ⟨.pushs, .literal literal⟩
  | .label _ => []
  | .branch code _ => [code.byte, 0, 0]
  | .branchTo code target => Instruction.encode ⟨code, .target target⟩

/-- The gap that a statement at an offset leaves. -/
def gap (statement : Statement) (offset : Nat) : List (Nat × String) :=
  (statement.wantedLabel?.map fun name => (offset + 1, name)).toList

/-- The gaps that the statements leave, the first of which lies at `offset`. -/
def gapsFrom : (offset : Nat) → List Statement → List (Nat × String)
  | _, [] => []
  | offset, statement :: rest => statement.gap offset ++ gapsFrom (offset + statement.length) rest

theorem length_draftBytes (statement : Statement) :
    statement.draftBytes.length = statement.length := by
  cases statement <;> simp [draftBytes, length, Instruction.encode, Operand.encode]

/-- What waits for no label is encoded at once. -/
theorem encode_of_wantedLabel?_eq_none {statement : Statement}
    (waits : statement.wantedLabel? = none) (offset? : String → Option Nat) :
    statement.encode offset? = .ok statement.draftBytes := by
  cases statement with
  | branch opcode name => cases waits
  | opcode opcode => rfl
  | raw bytes => rfl
  | push word => rfl
  | pushs literal => rfl
  | label name => rfl
  | branchTo opcode target => rfl

/-- Statements that wait for no label are put one after another. -/
theorem assemble_of_wantedLabel?_eq_none {statements : List Statement}
    (waits : ∀ statement ∈ statements, statement.wantedLabel? = none) :
    assemble statements = .ok (statements.flatMap draftBytes) := by
  unfold assemble
  generalize (fun name => offsetOf? name 0 statements) = offset?
  induction statements with
  | nil => rfl
  | cons statement rest inductionHypothesis =>
      rw [encodeAll, encode_of_wantedLabel?_eq_none (waits statement List.mem_cons_self),
        inductionHypothesis fun other member => waits other (List.mem_cons_of_mem _ member)]
      rfl

end Statement

namespace Draft

open Statement

/-- Adding a statement adds its bytes, its gap and its label. -/
theorem add_eq {draft : Draft} {statement : Statement} (clean : draft.problem = none)
    (short : statement.IsShort)
    (fresh : ∀ name, statement.definedLabel? = some name → draft.labels.lookup name = none) :
    draft.add statement =
      { code := draft.code ++ statement.draftBytes
        labels :=
          (statement.definedLabel?.map fun name => (name, draft.offset)).toList ++ draft.labels
        gaps := draft.gaps ++ statement.gap draft.offset
        problem := none } := by
  rcases draft with ⟨code, labels, gaps, problem⟩
  obtain rfl : problem = none := clean
  cases statement with
  | opcode opcode => simp [add, emit, draftBytes, definedLabel?, gap, wantedLabel?]
  | raw bytes => simp [add, emit, draftBytes, definedLabel?, gap, wantedLabel?]
  | push word => simp [add, emit, draftBytes, definedLabel?, gap, wantedLabel?]
  | pushs literal =>
      have fits : literal.length ≤ 255 := short
      simp [add, emit, draftBytes, definedLabel?, gap, wantedLabel?, fits]
  | label name =>
      have new : labels.lookup name = none := fresh name rfl
      simp [add, draftBytes, definedLabel?, gap, wantedLabel?, new, offset]
  | branch opcode name =>
      simp [add, emit, draftBytes, definedLabel?, gap, wantedLabel?, offset]
  | branchTo opcode target => simp [add, emit, draftBytes, definedLabel?, gap, wantedLabel?]

section Adding

variable {draft : Draft} {statement : Statement} (clean : draft.problem = none)
  (short : statement.IsShort)
  (fresh : ∀ name, statement.definedLabel? = some name → draft.labels.lookup name = none)

include clean short fresh

theorem offset_add : (draft.add statement).offset = draft.offset + statement.length := by
  rw [add_eq clean short fresh, offset, offset, ← length_draftBytes]
  simp [← Array.length_toList]

theorem lookup_add (name : String) :
    (draft.add statement).labels.lookup name =
      if statement.definedLabel? = some name then some draft.offset
      else draft.labels.lookup name := by
  rw [add_eq clean short fresh]
  cases defines : statement.definedLabel? with
  | none => simp
  | some label =>
      by_cases same : name = label
      · simp [same]
      · simp [List.lookup_cons, beq_eq_false_iff_ne.mpr same, Ne.symm same]

end Adding

/-- What a draft holds when statements with new and distinct labels have been added. -/
theorem foldl_add {statements : List Statement} {draft : Draft} (clean : draft.problem = none)
    (short : ∀ statement ∈ statements, statement.IsShort)
    (distinct : (definedLabels statements).Nodup)
    (fresh : ∀ name ∈ definedLabels statements, draft.labels.lookup name = none) :
    (statements.foldl add draft).problem = none ∧
      (statements.foldl add draft).code.toList =
        draft.code.toList ++ statements.flatMap draftBytes ∧
      (statements.foldl add draft).gaps.toList =
        draft.gaps.toList ++ gapsFrom draft.offset statements ∧
      ∀ name, (statements.foldl add draft).labels.lookup name =
        (draft.labels.lookup name).or (offsetOf? name draft.offset statements) := by
  induction statements generalizing draft with
  | nil => simp [clean, gapsFrom, offsetOf?]
  | cons statement rest inductionHypothesis =>
      have shortHere := short statement List.mem_cons_self
      have freshHere : ∀ name, statement.definedLabel? = some name →
          draft.labels.lookup name = none :=
        fun name defines => fresh name (mem_definedLabels_cons.mpr (.inl defines))
      have added := add_eq clean shortHere freshHere
      have moved := offset_add clean shortHere freshHere
      have looked := lookup_add clean shortHere freshHere
      rcases nodup_definedLabels_cons.mp distinct with ⟨distinctLater, notAgain⟩
      have stillFresh : ∀ name ∈ definedLabels rest,
          (draft.add statement).labels.lookup name = none := by
        intro name member
        rw [looked, if_neg fun defines => notAgain name defines member]
        exact fresh name (mem_definedLabels_cons.mpr (.inr member))
      have stillClean : (draft.add statement).problem = none := by rw [added]
      rcases inductionHypothesis stillClean
          (fun other member => short other (List.mem_cons_of_mem _ member))
          distinctLater stillFresh with
        ⟨problem, code, gaps, labels⟩
      rw [List.foldl_cons]
      refine ⟨problem, ?_, ?_, ?_⟩
      · rw [code, added, List.flatMap_cons]
        simp
      · rw [gaps, moved, gapsFrom, added]
        simp
      · intro name
        rw [labels, looked, moved, offsetOf?]
        by_cases defines : statement.definedLabel? = some name
        · simp [defines, freshHere name defines]
        · simp [defines]

/-! ## Filling the gaps -/

/-- A label's offset is written over the two zeros that wait for it. -/
theorem patch_eq {offset : Nat} (small : offset < UInt16.size) (before after : Bytes)
    (opcode : Opcode) :
    patch (before ++ (opcode.byte :: 0 :: 0 :: after)).toArray (before.length + 1) offset =
      (before ++ Instruction.encode ⟨opcode, .target (UInt16.ofNat offset)⟩ ++ after).toArray := by
  have kept : (UInt16.ofNat offset).toNat = offset := UInt16.toNat_ofNat_of_lt' small
  simp [patch, Instruction.encode, Operand.encode, Bytes.ofLittleEndian, kept,
    Nat.add_assoc]

/-- Filling the gaps of the statements encodes them, one after another. -/
theorem fill_gapsFrom {labels : List (String × Nat)} {offset? : String → Option Nat}
    (agree : ∀ name, labels.lookup name = offset? name) (statements : List Statement)
    (before : Bytes) :
    fill labels (gapsFrom before.length statements)
        (before ++ statements.flatMap draftBytes).toArray =
      (encodeAll offset? statements).map fun bytes => (before ++ bytes).toArray := by
  induction statements generalizing before with
  | nil => rfl
  | cons statement rest inductionHypothesis =>
      cases waits : statement.wantedLabel? with
      | none =>
          have later := inductionHypothesis (before ++ statement.draftBytes)
          rw [List.length_append, length_draftBytes, List.append_assoc] at later
          rw [gapsFrom, gap, waits, List.flatMap_cons, encodeAll,
            encode_of_wantedLabel?_eq_none waits]
          simp only [Option.map_none, Option.toList_none, List.nil_append]
          rw [later]
          cases encodeAll offset? rest <;> simp [bind, Except.bind, Except.map, pure, Except.pure]
      | some wanted =>
          obtain ⟨opcode, rfl⟩ : ∃ opcode, statement = .branch opcode wanted := by
            cases statement with
            | branch opcode name => exact ⟨opcode, by rw [Option.some.inj waits]⟩
            | _ => cases waits
          rw [gapsFrom, gap, waits, List.flatMap_cons, encodeAll, encode]
          simp only [Option.map_some, Option.toList_some, List.singleton_append, fill, agree]
          cases offset? wanted with
          | none => rfl
          | some offset =>
              by_cases small : offset < UInt16.size
              · simp only [small, if_true]
                have later := inductionHypothesis
                  (before ++ Instruction.encode ⟨opcode, .target (UInt16.ofNat offset)⟩)
                have patched := patch_eq small before (rest.flatMap draftBytes) opcode
                simp only [draftBytes, length, List.cons_append, List.nil_append] at later ⊢
                rw [patched]
                simp only [List.length_append, Instruction.encode, Operand.encode,
                  List.length_cons, Bytes.length_ofLittleEndian] at later ⊢
                rw [later]
                cases encodeAll offset? rest <;>
                  simp [bind, Except.bind, Except.map, pure, Except.pure]
              · simp only [small, if_false]
                rfl

/-- One pass with gaps makes the program that two passes make, when no label is defined twice and
every literal fits. -/
theorem build_eq_assemble {statements : List Statement}
    (short : ∀ statement ∈ statements, statement.IsShort)
    (distinct : (definedLabels statements).Nodup) :
    build statements = Statement.assemble statements := by
  have clean : empty.problem = none := rfl
  rcases foldl_add clean short distinct (fun _ _ => rfl) with
    ⟨problem, code, gaps, labels⟩
  have drafted :
      (statements.foldl add empty).code = ([] ++ statements.flatMap draftBytes).toArray :=
    Array.toList_inj.mp code
  have filled := fill_gapsFrom labels statements []
  have pending : (statements.foldl add empty).gaps.toList = gapsFrom 0 statements := gaps
  rw [build, link, problem, drafted, pending]
  simp only [List.length_nil] at filled
  rw [filled]
  change Except.map _ (Except.map _ (Statement.assemble statements)) = _
  cases Statement.assemble statements <;> simp [Except.map]

end Draft

end TagMachine
