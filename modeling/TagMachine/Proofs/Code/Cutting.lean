import Mathlib.Data.List.Basic
import Mathlib.Data.List.TakeWhile
import TagMachine.Code.Source

/-!
# Cutting program text

A text comes apart into lines, a line loses its comment and the blanks at its ends, and what is left
is split at the first colon or blank.  Each cut is found where the text was put together: blanks
around a solid text are trimmed off, a comment starts at the first `#` that no quotes hide, and an
end of line ends a line.  A carriage return at the end of a line is a blank like any other.
-/

namespace TagMachine

namespace Text

/-! ## Trimming -/

/-- Nothing but blanks. -/
def Blanks (text : List Char) : Prop :=
  ∀ char ∈ text, isBlank char = true

/-- No blank at either end. -/
structure Solid (text : List Char) : Prop where
  first : ∀ char ∈ text.head?, isBlank char = false
  last : ∀ char ∈ text.getLast?, isBlank char = false

theorem Blanks.append {left right : List Char} (leftBlanks : Blanks left)
    (rightBlanks : Blanks right) :
    Blanks (left ++ right) := by
  intro char member
  rcases List.mem_append.mp member with inLeft | inRight
  · exact leftBlanks char inLeft
  · exact rightBlanks char inRight

theorem solid_nil : Solid [] where
  first := by simp
  last := by simp

theorem solid_of_forall {text : List Char} (solid : ∀ char ∈ text, isBlank char = false) :
    Solid text where
  first := fun char found => solid char (List.mem_of_mem_head? found)
  last := fun char found => solid char (List.mem_of_getLast? found)

theorem Solid.around {left right : List Char} (leftSolid : Solid left) (rightSolid : Solid right)
    (leftNonempty : left ≠ []) (rightNonempty : right ≠ []) (middle : List Char) :
    Solid (left ++ middle ++ right) where
  first := by
    rw [List.append_assoc, List.head?_append_of_ne_nil _ leftNonempty]
    exact leftSolid.first
  last := by
    rw [List.getLast?_append_of_ne_nil _ rightNonempty]
    exact rightSolid.last

theorem dropWhile_isBlank {before core : List Char} (blanks : Blanks before)
    (solid : ∀ char ∈ core.head?, isBlank char = false) :
    (before ++ core).dropWhile isBlank = core := by
  rw [List.dropWhile_append_of_pos blanks]
  cases core with
  | nil => rfl
  | cons char rest => exact List.dropWhile_cons_of_neg (by simp [solid char rfl])

/-- Blanks around a solid text are trimmed off. -/
theorem trim_eq {before core after : List Char} (blanksBefore : Blanks before) (solid : Solid core)
    (blanksAfter : Blanks after) :
    trim (before ++ core ++ after) = core := by
  have reversed : Blanks after.reverse := fun char member =>
    blanksAfter char (List.mem_reverse.mp member)
  cases core with
  | nil =>
      have dropped := dropWhile_isBlank (blanksBefore.append blanksAfter) solid_nil.first
      rw [List.append_nil] at dropped
      rw [trim, List.append_nil, dropped]
      rfl
  | cons char rest =>
      have front : (before ++ (char :: rest ++ after)).dropWhile isBlank = char :: rest ++ after :=
        dropWhile_isBlank blanksBefore (by simpa using solid.first)
      rw [trim, List.append_assoc, front, List.reverse_append,
        dropWhile_isBlank reversed (by rw [List.head?_reverse]; exact solid.last),
        List.reverse_reverse]

theorem trim_blanks_append {before core : List Char} (blanks : Blanks before) (solid : Solid core) :
    trim (before ++ core) = core := by
  rw [← List.append_nil (before ++ core)]
  exact trim_eq blanks solid (by simp [Blanks])

theorem trim_append_blanks {core after : List Char} (solid : Solid core) (blanks : Blanks after) :
    trim (core ++ after) = core :=
  @trim_eq [] core after (by simp [Blanks]) solid blanks

theorem trim_blanks {text : List Char} (blanks : Blanks text) :
    trim text = [] :=
  trim_append_blanks solid_nil blanks

theorem trim_append_blank (text : List Char) {char : Char} (blank : isBlank char = true) :
    trim (text ++ [char]) = trim text := by
  by_cases blanks : Blanks text
  · have both : Blanks (text ++ [char]) := blanks.append (by simpa [Blanks] using blank)
    rw [trim_blanks both, trim_blanks blanks]
  · have remains : text.dropWhile isBlank ≠ [] := by
      intro empty
      exact blanks (List.dropWhile_eq_nil_iff.mp empty)
    have dropped :
        (text ++ [char]).dropWhile isBlank = text.dropWhile isBlank ++ [char] := by
      rw [List.dropWhile_append, if_neg (by simpa using remains)]
    rw [trim, dropped, List.reverse_append, List.reverse_singleton, List.singleton_append,
      List.dropWhile_cons_of_pos blank, trim]

theorem mem_trim {text : List Char} {char : Char} (member : char ∈ text)
    (solid : isBlank char = false) :
    char ∈ trim text := by
  have kept {whole : List Char} (inWhole : char ∈ whole) : char ∈ whole.dropWhile isBlank := by
    rw [← List.takeWhile_append_dropWhile (p := isBlank) (l := whole)] at inWhole
    rcases List.mem_append.mp inWhole with early | late
    · have blank := List.mem_takeWhile_imp early
      rw [solid] at blank
      cases blank
    · exact late
  rw [trim, List.mem_reverse]
  exact kept (List.mem_reverse.mpr (kept member))

/-! ## Splitting -/

section Splitting

variable (kind : Char → Bool) {before : List Char} {char : Char}

theorem splitAtFirst_append (absent : ∀ other ∈ before, kind other = false)
    (found : kind char = true) (after : List Char) :
    splitAtFirst kind (before ++ char :: after) = some (before, after) := by
  have passes : ∀ other ∈ before, (!kind other) = true := fun other member => by
    rw [absent other member]
    rfl
  have stops : (!kind char) = false := by
    rw [found]
    rfl
  rw [splitAtFirst, List.dropWhile_append_of_pos passes, List.takeWhile_append_of_pos passes,
    List.dropWhile_cons, List.takeWhile_cons, stops]
  simp

theorem splitAtFirst_eq_none (absent : ∀ other ∈ before, kind other = false) :
    splitAtFirst kind before = none := by
  have passes : ∀ other ∈ before, (!kind other) = true := fun other member => by
    rw [absent other member]
    rfl
  rw [splitAtFirst, List.dropWhile_eq_nil_iff.mpr passes]

end Splitting

/-! ## Lines -/

/-- An end of line ends the first line, which may lose a carriage return there. -/
theorem lines_append_newline {line : List Char} (unbroken : '\n' ∉ line) (rest : List Char) :
    ∃ shown, lines (line ++ '\n' :: rest) = shown :: lines rest ∧
      (line = shown ∨ line = shown ++ ['\r']) := by
  induction line with
  | nil => exact ⟨[], by rw [List.nil_append, lines], Or.inl rfl⟩
  | cons char line inductionHypothesis =>
      have different : char ≠ '\n' := fun same => unbroken (same ▸ List.mem_cons_self)
      rcases inductionHypothesis (fun member => unbroken (List.mem_cons_of_mem _ member)) with
        ⟨shown, cut, same⟩
      cases line with
      | nil =>
          by_cases isReturn : char = '\r'
          · subst isReturn
            exact ⟨[], by rw [List.cons_append, List.nil_append, lines], Or.inr rfl⟩
          · refine ⟨[char], ?_, Or.inl rfl⟩
            rw [List.cons_append, List.nil_append, lines, lines]
            · simpa using isReturn
            · exact different
      | cons second line =>
          have secondDifferent : second ≠ '\n' := by
            rintro rfl
            exact unbroken (List.mem_cons_of_mem _ List.mem_cons_self)
          refine ⟨char :: shown, ?_, ?_⟩
          · rw [List.cons_append, lines, cut]
            · intro tail _ broken
              rw [List.cons_append] at broken
              exact secondDifferent (List.cons.inj broken).1
            · exact different
          · rcases same with same | same
            · exact Or.inl (by rw [same])
            · exact Or.inr (by rw [same, List.cons_append])

theorem lines_eq_of_unbroken {line : List Char} (unbroken : '\n' ∉ line) :
    lines line = if line = [] then [] else [line] := by
  induction line with
  | nil => rfl
  | cons char line inductionHypothesis =>
      have different : char ≠ '\n' := fun same => unbroken (same ▸ List.mem_cons_self)
      have later : '\n' ∉ line := fun member => unbroken (List.mem_cons_of_mem _ member)
      rw [if_neg (List.cons_ne_nil _ _), lines, inductionHypothesis later]
      · by_cases empty : line = []
        · rw [if_pos empty, empty]
        · rw [if_neg empty]
      · rintro tail _ rfl
        exact later List.mem_cons_self
      · exact different

end Text

namespace Source

open Text

/-! ## Comments -/

/-- Text that is no part of a comment and ends outside quotes: what follows it is looked at as if it
stood alone. -/
def Transparent (text : List Char) : Prop :=
  ∀ rest, withoutComment false false (text ++ rest) = text ++ withoutComment false false rest

theorem transparent_of_plain {text : List Char} (unquoted : '"' ∉ text) (bare : '#' ∉ text) :
    Transparent text := by
  intro rest
  induction text with
  | nil => rfl
  | cons char text inductionHypothesis =>
      simp only [List.mem_cons, not_or] at unquoted bare
      rw [List.cons_append, withoutComment, if_neg (by simp), if_neg (Ne.symm unquoted.1),
        if_neg (by simp [Ne.symm bare.1]), inductionHypothesis unquoted.2 bare.2, List.cons_append]

theorem Transparent.append {left right : List Char} (leftTransparent : Transparent left)
    (rightTransparent : Transparent right) :
    Transparent (left ++ right) := by
  intro rest
  rw [List.append_assoc, leftTransparent, rightTransparent, List.append_assoc]

theorem transparent_of_blanks {text : List Char} (blanks : Blanks text) :
    Transparent text := by
  apply transparent_of_plain
  · intro member
    exact absurd (blanks _ member) (by decide)
  · intro member
    exact absurd (blanks _ member) (by decide)

theorem withoutComment_hash (text : List Char) :
    withoutComment false false ('#' :: text) = [] := by
  rw [withoutComment, if_neg (by simp), if_neg (by decide), if_pos (by simp)]

/-- A blank at the end of a line is seen as one, or is part of a comment. -/
theorem trim_withoutComment_append_blank (quoted escaped : Bool) (text : List Char) {char : Char}
    (blank : isBlank char = true) :
    trim (withoutComment quoted escaped (text ++ [char])) =
      trim (withoutComment quoted escaped text) := by
  suffices whole :
      withoutComment quoted escaped (text ++ [char]) = withoutComment quoted escaped text ∨
        withoutComment quoted escaped (text ++ [char]) =
          withoutComment quoted escaped text ++ [char] by
    rcases whole with same | longer
    · rw [same]
    · rw [longer, trim_append_blank _ blank]
  induction text generalizing quoted escaped with
  | nil =>
      have ordinary : char ≠ '\\' ∧ char ≠ '"' ∧ char ≠ '#' := by
        refine ⟨?_, ?_, ?_⟩ <;> rintro rfl <;> revert blank <;> decide
      right
      cases escaped <;> simp [withoutComment, ordinary]
  | cons first text inductionHypothesis =>
      rw [List.cons_append]
      cases escaped with
      | true =>
          rw [withoutComment, withoutComment]
          exact (inductionHypothesis quoted false).imp (congrArg _) (congrArg _)
      | false =>
          rw [withoutComment, withoutComment]
          split
          · exact (inductionHypothesis quoted true).imp (congrArg _) (congrArg _)
          · split
            · exact (inductionHypothesis (!quoted) false).imp (congrArg _) (congrArg _)
            · split
              · exact Or.inl rfl
              · exact (inductionHypothesis quoted false).imp (congrArg _) (congrArg _)

/-- A carriage return at the end of a line changes nothing. -/
theorem lineStatements_append_return (line : List Char) :
    lineStatements (line ++ ['\r']) = lineStatements line := by
  unfold lineStatements
  rw [trim_withoutComment_append_blank false false line (by decide)]

end Source

end TagMachine
