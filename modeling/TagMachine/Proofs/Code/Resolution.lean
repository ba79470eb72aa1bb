import TagMachine.Proofs.Code.Linking

/-!
# Labels among any statements

What becomes of statements can be read off them in order, whatever they are.  What is wrong with one of
them when it is added comes before what is wrong with a jump when its label is looked up, and of either
kind the first counts.  With nothing wrong the program is the encodings of the statements, one after
another, where a jump to a label goes to the number of bytes that come before the label.
-/

namespace TagMachine

namespace Statement

/-- What is wrong with a statement that is added after others. -/
def problem? (earlier : List Statement) : Statement → Option LinkError
  | .pushs literal =>
      if literal.length ≤ 255 then none else some (.literalTooLong literal.length)
  | .label name =>
      if name ∈ definedLabels earlier then some (.duplicateLabel name) else none
  | _ => none

/-- The first thing that is wrong when statements are added, one by one, after others. -/
def firstProblem? : (earlier : List Statement) → List Statement → Option LinkError
  | _, [] => none
  | earlier, statement :: rest =>
      (statement.problem? earlier).or (firstProblem? (earlier ++ [statement]) rest)

/-- What is wrong with a statement when labels are looked up. -/
def unresolved? (offset? : String → Option Nat) : Statement → Option LinkError
  | .branch _ name =>
      match offset? name with
      | none => some (.undefinedLabel name)
      | some offset =>
          if offset < UInt16.size then none else some (.targetOutOfRange offset)
  | _ => none

/-- The bytes of a statement, with the offset of a label in place of the zeros that wait for it. -/
def bytes (offset? : String → Option Nat) : Statement → Bytes
  | .branch code name => code.byte :: Bytes.ofLittleEndian 2 ((offset? name).getD 0)
  | statement => statement.draftBytes

variable {statement : Statement} {statements earlier : List Statement} {name : String}

/-! ## Labels and where they lie -/

theorem definedLabel?_eq_some_iff : statement.definedLabel? = some name ↔ statement = .label name := by
  cases statement <;> simp [definedLabel?]

theorem definedLabels_concat (earlier : List Statement) (statement : Statement) :
    definedLabels (earlier ++ [statement]) =
      definedLabels earlier ++ statement.definedLabel?.toList := by
  rw [definedLabels, List.filterMap_append, definedLabels]
  cases defines : statement.definedLabel? <;> simp [defines]

theorem length_bytes (offset? : String → Option Nat) (statement : Statement) :
    (statement.bytes offset?).length = statement.length := by
  cases statement <;> simp [bytes, length_draftBytes, length]

/-- A label lies where it is defined first, behind all the bytes that come before. -/
theorem offsetOf?_eq_some_iff {start offset : Nat} (offset? : String → Option Nat) :
    offsetOf? name start statements = some offset ↔
      ∃ earlier later, statements = earlier ++ .label name :: later ∧
        name ∉ definedLabels earlier ∧
        offset = start + (earlier.flatMap (bytes offset?)).length := by
  induction statements generalizing start with
  | nil => simp [offsetOf?]
  | cons statement rest inductionHypothesis =>
      rw [offsetOf?]
      by_cases defines : statement.definedLabel? = some name
      · rw [if_pos defines]
        obtain rfl := definedLabel?_eq_some_iff.mp defines
        constructor
        · intro here
          exact ⟨[], rest, rfl, List.not_mem_nil, (Option.some.inj here).symm⟩
        · rintro ⟨earlier, later, split, notBefore, rfl⟩
          cases earlier with
          | nil => rfl
          | cons first others =>
              obtain ⟨rfl, -⟩ := List.cons.inj split
              exact absurd (mem_definedLabels_cons.mpr (.inl rfl)) notBefore
      · rw [if_neg defines, inductionHypothesis]
        constructor
        · rintro ⟨earlier, later, rfl, notBefore, rfl⟩
          refine ⟨statement :: earlier, later, rfl, ?_, ?_⟩
          · rw [mem_definedLabels_cons]
            exact not_or.mpr ⟨defines, notBefore⟩
          · rw [List.flatMap_cons, List.length_append, length_bytes, Nat.add_assoc]
        · rintro ⟨earlier, later, split, notBefore, rfl⟩
          cases earlier with
          | nil =>
              obtain ⟨rfl, -⟩ := List.cons.inj split
              exact absurd rfl defines
          | cons first others =>
              obtain ⟨rfl, rfl⟩ := List.cons.inj split
              refine ⟨others, later, rfl, fun before => ?_, ?_⟩
              · exact notBefore (mem_definedLabels_cons.mpr (.inr before))
              · rw [List.flatMap_cons, List.length_append, length_bytes, Nat.add_assoc]

/-! ## Looking labels up -/

theorem encode_eq (offset? : String → Option Nat) (statement : Statement) :
    statement.encode offset? =
      match statement.unresolved? offset? with
      | some problem => .error problem
      | none => .ok (statement.bytes offset?) := by
  cases statement with
  | branch code name =>
      cases found : offset? name with
      | none => simp only [encode, unresolved?, found]
      | some offset =>
          by_cases small : offset < UInt16.size
          · have kept : (UInt16.ofNat offset).toNat = offset := UInt16.toNat_ofNat_of_lt' small
            simp [encode, unresolved?, bytes, found, small, Instruction.encode, Operand.encode, kept]
          · simp [encode, unresolved?, found, small]
  | _ => rfl

/-- The second pass stops at the first jump with which something is wrong, or puts all the bytes one
after another. -/
theorem encodeAll_eq (offset? : String → Option Nat) (statements : List Statement) :
    encodeAll offset? statements =
      match statements.findSome? (unresolved? offset?) with
      | some problem => .error problem
      | none => .ok (statements.flatMap (bytes offset?)) := by
  induction statements with
  | nil => rfl
  | cons statement rest inductionHypothesis =>
      rw [encodeAll, encode_eq, inductionHypothesis, List.findSome?_cons]
      cases statement.unresolved? offset? with
      | some problem => rfl
      | none => cases rest.findSome? (unresolved? offset?) <;> rfl

/-! ## Adding statements -/

/-- With nothing wrong, literals fit and labels are new. -/
theorem short_and_nodup_of_firstProblem? (clean : firstProblem? earlier statements = none) :
    (∀ statement ∈ statements, statement.IsShort) ∧ (definedLabels statements).Nodup ∧
      ∀ name ∈ definedLabels statements, name ∉ definedLabels earlier := by
  induction statements generalizing earlier with
  | nil => simp [definedLabels]
  | cons statement rest inductionHypothesis =>
      rcases Option.or_eq_none_iff.mp clean with ⟨here, later⟩
      rcases inductionHypothesis later with ⟨short, distinct, apart⟩
      have fresh : ∀ name, statement.definedLabel? = some name → name ∉ definedLabels earlier := by
        intro name defines before
        obtain rfl := definedLabel?_eq_some_iff.mp defines
        rw [problem?, if_pos before] at here
        cases here
      have notEarlier : ∀ name ∈ definedLabels rest, name ∉ definedLabels earlier :=
        fun name member before => apart name member (by simp [definedLabels_concat, before])
      have notHere : ∀ name, statement.definedLabel? = some name → name ∉ definedLabels rest :=
        fun name defines member => apart name member (by simp [definedLabels_concat, defines])
      refine ⟨fun other member => ?_, nodup_definedLabels_cons.mpr ⟨distinct, notHere⟩,
        fun name member => ?_⟩
      · rcases List.mem_cons.mp member with rfl | member
        · cases other with
          | pushs literal =>
              rw [problem?] at here
              split at here
              · assumption
              · cases here
          | _ => trivial
        · exact short other member
      · exact (mem_definedLabels_cons.mp member).elim (fresh name) (notEarlier name)

end Statement

namespace Draft

open Statement

/-- The labels of the draft are those that the statements define. -/
def Knows (draft : Draft) (earlier : List Statement) : Prop :=
  ∀ name, (draft.labels.lookup name).isSome ↔ name ∈ definedLabels earlier

variable {draft : Draft} {earlier : List Statement}

/-- A label is known from its first definition on, also when it is defined again. -/
theorem Knows.add (knows : draft.Knows earlier) (statement : Statement) :
    (draft.add statement).Knows (earlier ++ [statement]) := by
  intro name
  rw [definedLabels_concat, List.mem_append, ← knows name]
  cases statement with
  | label other =>
      have found : ((draft.add (.label other)).labels.lookup name).isSome ↔
          (((other, draft.offset) :: draft.labels).lookup name).isSome := by
        rw [Draft.add]
        split <;> rfl
      rw [found, List.lookup_cons]
      by_cases same : name = other
      · simp [definedLabel?, same]
      · simp [definedLabel?, same, beq_eq_false_iff_ne.mpr same]
  | pushs literal =>
      rw [Draft.add]
      split <;> simp [definedLabel?, emit, fail]
  | _ => simp [Draft.add, definedLabel?, emit]

/-- A problem is noted when there was none before. -/
theorem Knows.problem_add (knows : draft.Knows earlier) (statement : Statement) :
    (draft.add statement).problem = draft.problem.or (statement.problem? earlier) := by
  cases statement with
  | label name =>
      rw [Draft.add, problem?]
      by_cases again : name ∈ definedLabels earlier
      · rw [if_pos again, if_pos ((knows name).mpr again)]
        rfl
      · rw [if_neg again, if_neg (mt (knows name).mp again)]
        exact (Option.or_none).symm
  | pushs literal =>
      rw [Draft.add, problem?]
      split
      · exact (Option.or_none).symm
      · rfl
  | _ => exact (Option.or_none).symm

/-- The first problem is the one that stays. -/
theorem Knows.problem_foldl_add (knows : draft.Knows earlier) (statements : List Statement) :
    (statements.foldl Draft.add draft).problem =
      draft.problem.or (firstProblem? earlier statements) := by
  induction statements generalizing draft earlier with
  | nil => exact (Option.or_none).symm
  | cons statement rest inductionHypothesis =>
      rw [List.foldl_cons, inductionHypothesis (knows.add statement), knows.problem_add,
        Option.or_assoc, firstProblem?]

/-- Whatever statements are added, the program is what is read off them: the first thing that is wrong
with one of them as it is added, or else the first jump whose label is not defined or lies too far away,
or else all their bytes in order.  A label lies behind the bytes of what is added before it. -/
theorem build_resolves (statements : List Statement) :
    let offset? := fun name => offsetOf? name 0 statements
    build statements =
      (match firstProblem? [] statements with
        | some problem => .error problem
        | none =>
            match statements.findSome? (unresolved? offset?) with
            | some problem => .error problem
            | none => .ok (statements.flatMap (bytes offset?))) ∧
      ∀ name offset, offset? name = some offset ↔
        ∃ earlier later, statements = earlier ++ .label name :: later ∧
          name ∉ definedLabels earlier ∧ offset = (earlier.flatMap (bytes offset?)).length := by
  intro offset?
  refine ⟨?_, fun name offset => ?_⟩
  · cases wrong : firstProblem? [] statements with
    | some problem =>
        have known : empty.Knows [] := fun name => by simp [empty, definedLabels]
        have noted : (statements.foldl Draft.add empty).problem = some problem := by
          rw [known.problem_foldl_add statements, wrong]
          rfl
        rw [build, link, noted]
    | none =>
        rcases short_and_nodup_of_firstProblem? wrong with ⟨short, distinct, -⟩
        rw [build_eq_assemble short distinct, assemble, encodeAll_eq]
  · refine (offsetOf?_eq_some_iff offset?).trans ?_
    simp only [Nat.zero_add]

/-- A label that is defined again is what is wrong, although the jump before it has nowhere to go. -/
example :
    build [.branch .jz "out", .label "top", .raw [0], .label "top"] =
      .error (.duplicateLabel "top") := by
  rfl

end Draft

end TagMachine
