import TagMachine.Code.Instruction

/-!
Programs under construction: statements are added one after another, and jumps to labels are
filled in at the end, when every label has its offset.
-/

namespace TagMachine

inductive LinkError
  | literalTooLong (length : Nat)
  | undefinedLabel (name : String)
  | duplicateLabel (name : String)
  | targetOutOfRange (offset : Nat)
  deriving DecidableEq, Repr

def LinkError.message : LinkError → String
  | literalTooLong length => s!"string literal of {length} bytes exceeds 255"
  | undefinedLabel name => "undefined label `" ++ name ++ "`"
  | duplicateLabel name => "label `" ++ name ++ "` defined twice"
  | targetOutOfRange offset =>
      "jump target " ++ String.ofList (Numeral.hex offset) ++ " does not fit in 16 bits"

/-- One addition to a program. The operand bytes of an opcode alone, if it takes any, have to
follow, and a label names the offset of what comes next. -/
inductive Statement
  | opcode (opcode : Opcode)
  | raw (bytes : Bytes)
  | push (word : UInt64)
  | pushs (literal : Bytes)
  | label (name : String)
  | branch (opcode : Opcode) (label : String)
  | branchTo (opcode : Opcode) (target : UInt16)
  deriving DecidableEq, Repr

/-- The bytes so far, the labels with their offsets, the operands to be filled in with their
labels in order, and the first thing that went wrong. -/
structure Draft where
  code : Array UInt8
  labels : List (String × Nat)
  gaps : Array (Nat × String)
  problem : Option LinkError
  deriving DecidableEq, Repr

namespace Draft

def empty : Draft :=
  ⟨#[], [], #[], none⟩

def offset (draft : Draft) : Nat :=
  draft.code.size

def emit (draft : Draft) (bytes : Bytes) : Draft :=
  { draft with code := draft.code ++ bytes }

/-- Notes a problem, unless there was one before. -/
def fail (draft : Draft) (problem : LinkError) : Draft :=
  { draft with problem := draft.problem.or (some problem) }

/-- Adds a statement. A literal that is too long adds nothing, and a label defined again stands for
its last offset; both are problems. -/
def add (draft : Draft) : Statement → Draft
  | .opcode opcode => draft.emit [opcode.byte]
  | .raw bytes => draft.emit bytes
  | .push word => draft.emit (Instruction.encode ⟨.push, .immediate word⟩)
  | .pushs literal =>
      if literal.length ≤ 255 then draft.emit (Instruction.encode ⟨.pushs, .literal literal⟩)
      else draft.fail (.literalTooLong literal.length)
  | .label name =>
      let labelled := { draft with labels := (name, draft.offset) :: draft.labels }
      if (draft.labels.lookup name).isSome then labelled.fail (.duplicateLabel name)
      else labelled
  | .branch opcode label =>
      let draft := draft.emit [opcode.byte]
      { draft with gaps := draft.gaps.push (draft.offset, label) }.emit [0, 0]
  | .branchTo opcode target => draft.emit (Instruction.encode ⟨opcode, .target target⟩)

def patch (code : Array UInt8) (position number : Nat) : Array UInt8 :=
  (code.setIfInBounds position (UInt8.ofNat number)).setIfInBounds (position + 1)
    (UInt8.ofNat (number / 256))

/-- Fills in the gaps with the offsets of their labels, in order. -/
def fill (labels : List (String × Nat)) :
    List (Nat × String) → Array UInt8 → Except LinkError (Array UInt8)
  | [], code => .ok code
  | (position, name) :: gaps, code =>
      match labels.lookup name with
      | none => .error (.undefinedLabel name)
      | some offset =>
          if offset < UInt16.size then fill labels gaps (patch code position offset)
          else .error (.targetOutOfRange offset)

def link (draft : Draft) : Except LinkError Bytes :=
  match draft.problem with
  | some problem => .error problem
  | none => (fill draft.labels draft.gaps.toList draft.code).map Array.toList

def build (statements : List Statement) : Except LinkError Bytes :=
  (statements.foldl add empty).link

end Draft

end TagMachine
