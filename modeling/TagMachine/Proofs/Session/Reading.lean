import Mathlib.Data.List.Basic
import Mathlib.Data.List.TakeWhile
import TagMachine.Channel.Input
import TagMachine.Proofs.Respects

/-!
# Reading from an input in pieces

A reader looks at one piece of the input at a time.  What it returns, and the bytes that it leaves,
depend only on the bytes that are there and on how the input ends, not on where the pieces are cut.
-/

namespace TagMachine

namespace Bytes

/-- The bytes up to and including the first newline, or all of them if there is none. -/
def firstLine (bytes : Bytes) : Bytes :=
  bytes.takeWhile (· != newline) ++ (bytes.dropWhile (· != newline)).take 1

variable {bytes before after : Bytes}

theorem ne_newline_of_not_mem (absent : newline ∉ bytes) :
    ∀ byte ∈ bytes, (byte != newline) = true := by
  intro byte member
  rw [bne_iff_ne]
  rintro rfl
  exact absent member

/-- What is read as a line is where the bytes start. -/
theorem append_drop_line (bytes : Bytes) (limit : Nat) :
    (firstLine bytes).take limit ++ bytes.drop ((firstLine bytes).take limit).length = bytes := by
  have begins : firstLine bytes <+: bytes := by
    refine ⟨(bytes.dropWhile (· != newline)).drop 1, ?_⟩
    rw [firstLine, List.append_assoc, List.take_append_drop, List.takeWhile_append_dropWhile]
  exact List.prefix_iff_eq_append.mp ((List.take_prefix limit _).trans begins)

theorem firstLine_append_of_not_mem (absent : newline ∉ before) (after : Bytes) :
    firstLine (before ++ after) = before ++ firstLine after := by
  have passes := ne_newline_of_not_mem absent
  rw [firstLine, List.takeWhile_append_of_pos passes, List.dropWhile_append_of_pos passes,
    List.append_assoc, firstLine]

theorem firstLine_append_newline (absent : newline ∉ before) (after : Bytes) :
    firstLine (before ++ newline :: after) = before ++ [newline] := by
  rw [firstLine_append_of_not_mem absent]
  simp [firstLine]

end Bytes

namespace Input

open Bytes

variable {ending : Ending} {limit count : Nat} {pieces : List Bytes}

/-! ## Lines -/

/-- What is read as a line of at most `limit` bytes, and the bytes left. A broken input fails when
the line is not over where the bytes are. -/
def lineOf (limit : Nat) (ending : Ending) (bytes : Bytes) : Except IoError Bytes × Bytes :=
  let line := (firstLine bytes).take limit
  if ending = .broken ∧ newline ∉ bytes ∧ bytes.length < limit then (.error .inputGone, [])
  else (.ok line, bytes.drop line.length)

theorem lineOf_zero (ending : Ending) (bytes : Bytes) :
    lineOf 0 ending bytes = (.ok [], bytes) := by
  simp [lineOf]

/-- A newline in reach ends the line. -/
theorem lineOf_append_newline {before : Bytes} (absent : newline ∉ before)
    (reached : before.length < limit) (after : Bytes) :
    lineOf limit ending (before ++ newline :: after) = (.ok (before ++ [newline]), after) := by
  have within : (before ++ [newline]).length ≤ limit := by
    rw [List.length_append, List.length_singleton]
    exact reached
  have split : before ++ newline :: after = (before ++ [newline]) ++ after := by simp
  rw [lineOf, if_neg (by simp), firstLine_append_newline absent, List.take_of_length_le within]
  rw [split, List.drop_left]

/-- Bytes without a newline are the start of the line. -/
theorem lineOf_append_of_not_mem {before : Bytes} (absent : newline ∉ before)
    (reached : before.length ≤ limit) (after : Bytes) :
    lineOf limit ending (before ++ after) =
      ((lineOf (limit - before.length) ending after).1.map (before ++ ·),
        (lineOf (limit - before.length) ending after).2) := by
  have same : (ending = .broken ∧ newline ∉ before ++ after ∧ (before ++ after).length < limit) ↔
      (ending = .broken ∧ newline ∉ after ∧ after.length < limit - before.length) := by
    rw [List.mem_append, List.length_append]
    constructor
    · rintro ⟨broken, noNewline, short⟩
      exact ⟨broken, fun member => noNewline (Or.inr member), by omega⟩
    · rintro ⟨broken, noNewline, short⟩
      exact ⟨broken, not_or.mpr ⟨absent, noNewline⟩, by omega⟩
  unfold lineOf
  rw [firstLine_append_of_not_mem absent, List.take_append, List.take_of_length_le reached]
  by_cases fails : ending = .broken ∧ newline ∉ after ∧ after.length < limit - before.length
  · rw [if_pos (same.mpr fails), if_pos fails]
    rfl
  · rw [if_neg (mt same.mp fails), if_neg fails, List.length_append, ← List.drop_drop,
      List.drop_left]
    rfl

theorem lineOf_nil (room : 0 < limit) :
    lineOf limit ending [] =
      (match ending with
        | .closed => .ok []
        | .broken => .error .inputGone, []) := by
  cases ending with
  | closed => simp [lineOf, firstLine]
  | broken => simp [lineOf, room]

section WithoutNewline

variable {bytes : Bytes}

/-- A line without a newline is full at its limit. -/
theorem lineOf_full (absent : newline ∉ bytes.take limit) (full : limit ≤ bytes.length) :
    lineOf limit ending bytes = (.ok (bytes.take limit), bytes.drop limit) := by
  have line : lineOf limit ending (bytes.take limit ++ bytes.drop limit) = _ :=
    lineOf_append_of_not_mem absent (List.length_take_le limit bytes) _
  rw [List.take_append_drop, List.length_take_of_le full, Nat.sub_self, lineOf_zero] at line
  rw [line, Except.map, List.append_nil]

/-- A short line without a newline is over where the bytes are. -/
theorem lineOf_drained (absent : newline ∉ bytes) (short : bytes.length < limit) :
    lineOf limit ending bytes =
      (match ending with
        | .closed => .ok bytes
        | .broken => .error .inputGone, []) := by
  have line : lineOf limit ending (bytes ++ []) = _ :=
    lineOf_append_of_not_mem absent (Nat.le_of_lt short) []
  rw [List.append_nil, lineOf_nil (Nat.sub_pos_of_lt short)] at line
  rw [line]
  cases ending with
  | closed => rw [Except.map, List.append_nil]
  | broken => rfl

end WithoutNewline

/-- The three ways in which a line comes to its end. -/
theorem line_cases (limit : Nat) (bytes : Bytes) :
    (∃ before after, bytes = before ++ newline :: after ∧ newline ∉ before ∧
      before.length < limit) ∨
    (newline ∉ bytes.take limit ∧ limit ≤ bytes.length) ∨
    newline ∉ bytes ∧ bytes.length < limit := by
  by_cases found : newline ∈ bytes.take limit
  · obtain ⟨before, after, split, absent⟩ := List.eq_append_cons_of_mem found
    have within := List.length_take_le limit bytes
    have whole := List.take_append_drop limit bytes
    rw [split, List.length_append, List.length_cons] at within
    rw [split, List.append_assoc, List.cons_append] at whole
    exact Or.inl ⟨before, after ++ bytes.drop limit, whole.symm, absent, by omega⟩
  · by_cases full : limit ≤ bytes.length
    · exact Or.inr (Or.inl ⟨found, full⟩)
    · rw [List.take_of_length_le (by omega)] at found
      exact Or.inr (Or.inr ⟨found, by omega⟩)

theorem length_lineOf_le (limit : Nat) (ending : Ending) (bytes : Bytes) :
    (lineOf limit ending bytes).2.length ≤ bytes.length := by
  unfold lineOf
  split
  · exact Nat.zero_le _
  · rw [List.length_drop]
    exact Nat.sub_le _ _

/-- A newline in reach ends the line in the first piece. -/
theorem lineFrom_newline {before : Bytes} (absent : newline ∉ before) (reached : before.length ≤ limit)
    (after : Bytes) :
    lineFrom ending (limit + 1) ((before ++ newline :: after) :: pieces) =
      (.ok (before ++ [newline]), after :: pieces) := by
  have passes := ne_newline_of_not_mem absent
  have window : (before ++ newline :: after).take (limit + 1) =
      before ++ newline :: after.take (limit - before.length) := by
    rw [List.take_append, List.take_of_length_le (Nat.le_succ_of_le reached), Nat.succ_sub reached,
      List.take_succ_cons]
  have early : (before ++ newline :: after.take (limit - before.length)).takeWhile (· != newline) =
      before := by
    rw [List.takeWhile_append_of_pos passes]
    simp
  rw [lineFrom]
  dsimp only
  have more : (before ++ newline :: after.take (limit - before.length)).take (before.length + 1) =
      before ++ [newline] := by
    rw [List.take_length_add_append, List.take_succ_cons, List.take_zero]
  rw [window, early, if_pos (by simp), more, List.drop_length_add_append, List.drop_succ_cons,
    List.drop_zero]

section NoNewline

variable {piece : Bytes}

private theorem takeWhile_window (absent : newline ∉ piece.take (limit + 1)) :
    (piece.take (limit + 1)).takeWhile (· != newline) = piece.take (limit + 1) :=
  List.takeWhile_eq_self_iff.mpr (ne_newline_of_not_mem absent)

/-- A piece without a newline is the start of the line if it is short. -/
theorem lineFrom_of_short (absent : newline ∉ piece) (short : piece.length ≤ limit + 1) :
    lineFrom ending (limit + 1) (piece :: pieces) =
      ((lineFrom ending (limit + 1 - piece.length) pieces).1.map (piece ++ ·),
        (lineFrom ending (limit + 1 - piece.length) pieces).2) := by
  have window := List.take_of_length_le short
  have none : piece.drop (limit + 1) = [] := List.drop_eq_nil_iff.mpr short
  rw [lineFrom]
  dsimp only
  rw [takeWhile_window (by rwa [window]), if_neg (Nat.lt_irrefl _), none]

/-- A piece without a newline in reach is longer than the line otherwise. -/
theorem lineFrom_of_long (absent : newline ∉ piece.take (limit + 1))
    (long : limit + 1 < piece.length) :
    lineFrom ending (limit + 1) (piece :: pieces) =
      (.ok (piece.take (limit + 1)), piece.drop (limit + 1) :: pieces) := by
  rw [lineFrom]
  dsimp only
  rw [takeWhile_window absent, if_neg (Nat.lt_irrefl _)]
  split
  · rename_i none
    have short := List.drop_eq_nil_iff.mp none
    omega
  · rfl

end NoNewline

/-- A line is read from pieces as from all their bytes at once. -/
theorem lineFrom_eq (ending : Ending) (limit : Nat) (pieces : List Bytes) :
    ((lineFrom ending limit pieces).1, (lineFrom ending limit pieces).2.flatten) =
      lineOf limit ending pieces.flatten := by
  induction pieces generalizing limit with
  | nil =>
      cases limit with
      | zero => rw [lineOf_zero, lineFrom, List.flatten_nil]
      | succ limit =>
          rw [List.flatten_nil, lineOf_nil (Nat.succ_pos limit)]
          cases ending <;> rfl
  | cons piece rest inductionHypothesis =>
      cases limit with
      | zero => rw [lineOf_zero, lineFrom]
      | succ limit =>
          have whole := List.take_append_drop (limit + 1) piece
          have window := List.length_take_le (limit + 1) piece
          rw [List.flatten_cons]
          by_cases found : newline ∈ piece.take (limit + 1)
          · obtain ⟨before, after, split, absent⟩ := List.eq_append_cons_of_mem found
            rw [split, List.length_append, List.length_cons] at window
            rw [split] at whole
            rw [← whole, List.append_assoc before, List.cons_append,
              lineFrom_newline absent (by omega), List.append_assoc before, List.cons_append,
              lineOf_append_newline absent (by omega), List.flatten_cons]
          · by_cases short : piece.length ≤ limit + 1
            · rw [List.take_of_length_le short] at found
              rw [lineFrom_of_short found short, lineOf_append_of_not_mem found short,
                ← inductionHypothesis]
            · have within : limit + 1 ≤ piece.length := by omega
              have reach : (piece ++ rest.flatten).take (limit + 1) = piece.take (limit + 1) :=
                List.take_append_of_le_length within
              have full : lineOf (limit + 1) ending (piece ++ rest.flatten) = _ :=
                lineOf_full (by rwa [reach]) (by rw [List.length_append]; omega)
              rw [lineFrom_of_long found (by omega), full, reach, List.flatten_cons,
                List.drop_append_of_le_length within]

/-! ## Blocks of bytes -/

/-- A block of bytes is read from pieces as from all their bytes at once. -/
theorem bytesFrom_eq (count : Nat) (pieces : List Bytes) :
    ((bytesFrom count pieces).1, (bytesFrom count pieces).2.flatten) =
      if pieces.flatten.length < count then (none, [])
      else (some (pieces.flatten.take count), pieces.flatten.drop count) := by
  induction pieces generalizing count with
  | nil => cases count <;> simp [bytesFrom]
  | cons piece rest inductionHypothesis =>
      cases count with
      | zero => simp [bytesFrom]
      | succ count =>
          rw [List.flatten_cons, List.length_append, bytesFrom]
          by_cases short : piece.length ≤ count + 1
          · have none : piece.drop (count + 1) = [] := List.drop_eq_nil_iff.mpr short
            have later := inductionHypothesis (count + 1 - piece.length)
            have start : (piece ++ rest.flatten).take (count + 1) =
                piece ++ rest.flatten.take (count + 1 - piece.length) := by
              rw [List.take_append, List.take_of_length_le short]
            have left : (piece ++ rest.flatten).drop (count + 1) =
                rest.flatten.drop (count + 1 - piece.length) := by
              rw [List.drop_append, none, List.nil_append]
            rw [none, start, left]
            dsimp only
            by_cases few : rest.flatten.length < count + 1 - piece.length
            · rw [if_pos few] at later
              rw [if_pos (by omega), (Prod.mk.inj later).1, (Prod.mk.inj later).2]
              rfl
            · rw [if_neg few] at later
              rw [if_neg (by omega), (Prod.mk.inj later).1, (Prod.mk.inj later).2]
              rfl
          · have within : count + 1 ≤ piece.length := by omega
            rw [if_neg (by omega), List.take_append_of_le_length within,
              List.drop_append_of_le_length within]
            split
            · rename_i none
              exact absurd (List.drop_eq_nil_iff.mp none) short
            · rfl

/-- What is read as a block of bytes, and the bytes left. An input with fewer bytes fails as it ends,
with none left. -/
def blockOf (count : Nat) (ending : Ending) (bytes : Bytes) : Except IoError Bytes × Bytes :=
  if bytes.length < count then
    (.error (if ending = .closed then .unexpectedEnd else .inputGone), [])
  else (.ok (bytes.take count), bytes.drop count)

/-! ## Readers -/

/-- The same bytes are left, however they are cut, and the same end. -/
structure Recut (left right : Input) : Prop where
  unread : left.unread = right.unread
  ending : left.ending = right.ending

section Readers

variable {α : Type}

/-- The reader goes by the bytes that are there and by how the input ends: from them it has its
result and the bytes that it leaves. -/
def Reads (reading : EStateM IoError Input α)
    (seen : Ending → Bytes → Except IoError α × Bytes) : Prop :=
  ∀ input : Input, ∃ pieces, pieces.flatten = (seen input.ending input.unread).2 ∧
    reading input =
      match (seen input.ending input.unread).1 with
      | .ok result => .ok result { input with pieces }
      | .error cause => .error cause { input with pieces }

theorem Reads.respects {reading : EStateM IoError Input α}
    {seen : Ending → Bytes → Except IoError α × Bytes} (reads : Reads reading seen) :
    Respects Recut reading := by
  intro left right same
  rcases reads left with ⟨leftPieces, leftFlat, readLeft⟩
  rcases reads right with ⟨rightPieces, rightFlat, readRight⟩
  rw [same.unread, same.ending] at leftFlat readLeft
  have recut : Recut ⟨leftPieces, right.ending⟩ ⟨rightPieces, right.ending⟩ :=
    ⟨leftFlat.trans rightFlat.symm, rfl⟩
  rw [readLeft, readRight]
  cases (seen right.ending right.unread).1 with
  | ok result => exact .ok recut
  | error cause => exact .error recut

end Readers

theorem reads_readLine (limit : Nat) :
    Reads (readLine limit) (lineOf limit) := by
  intro input
  have read := lineFrom_eq input.ending limit input.pieces
  refine ⟨(lineFrom input.ending limit input.pieces).2, congrArg Prod.snd read, ?_⟩
  rw [unread, ← read]
  unfold readLine
  rcases lineFrom input.ending limit input.pieces with ⟨line | cause, pieces⟩ <;> rfl

/-- A line of at most `limit` bytes is over where the bytes are: the limit, a newline or the end comes
before the input breaks. -/
def HoldsLine (input : Input) (limit : Nat) : Prop :=
  input.ending = .closed ∨ newline ∈ input.unread ∨ limit ≤ input.unread.length

/-- A line that is over where the bytes are is read, and nothing after it. -/
theorem readLine_of_holdsLine {input : Input} (holds : input.HoldsLine limit) :
    ∃ left : Input,
      left.unread = input.unread.drop ((firstLine input.unread).take limit).length ∧
        left.ending = input.ending ∧
        readLine limit input = .ok ((firstLine input.unread).take limit) left := by
  rcases reads_readLine limit input with ⟨pieces, flat, read⟩
  have held : ¬(input.ending = .broken ∧ newline ∉ input.unread ∧ input.unread.length < limit) := by
    rintro ⟨broken, absent, short⟩
    rcases holds with closed | found | long
    · rw [broken] at closed
      cases closed
    · exact absent found
    · omega
  rw [lineOf, if_neg held] at flat read
  exact ⟨{ input with pieces }, flat, rfl, read⟩

theorem reads_readExactly (count : Nat) :
    Reads (readExactly count) (blockOf count) := by
  intro input
  have read := bytesFrom_eq count input.pieces
  refine ⟨(bytesFrom count input.pieces).2, ?_, ?_⟩
  · refine (congrArg Prod.snd read).trans ?_
    rw [blockOf, unread]
    split <;> rfl
  · unfold readExactly blockOf
    rw [← unread] at read
    generalize bytesFrom count input.pieces = found at read ⊢
    rcases found with ⟨bytes, pieces⟩
    by_cases few : input.unread.length < count
    · rw [if_pos few] at read ⊢
      obtain rfl := (Prod.mk.inj read).1
      cases input.ending <;> rfl
    · rw [if_neg few] at read ⊢
      obtain rfl := (Prod.mk.inj read).1
      rfl

theorem respects_readWord :
    Respects Recut readWord :=
  (reads_readExactly 8).respects.bind fun _ => respects_pure _

theorem unread_ofBytes (bytes : Bytes) :
    (ofBytes bytes).unread = bytes :=
  List.append_nil bytes

end Input

end TagMachine
