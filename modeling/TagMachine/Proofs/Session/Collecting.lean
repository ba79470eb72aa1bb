import TagMachine.Proofs.Session.Reading

/-!
# Lines collected by asking

A line is collected in turns: the reader is asked what comes next, shows some of it, and is moved
past what belongs to the line.  Whatever a reader chooses to show, the loop ends, the line is the
one that the bytes hold, and the reader is not asked again once the line is over.
-/

namespace TagMachine

open Bytes (newline)

/-- A reader that can be asked what comes next. It shows a beginning of all that is unread, as long
as it likes but not empty while bytes are left, and is then moved past as many of the shown bytes as
were taken. Where no byte is left, asking shows none, or fails if the reader is broken. -/
structure BufferedReader (σ ε : Type) where
  unread : σ → Bytes
  ending : Ending
  failure : ε
  ask : σ → Except ε Bytes × σ
  pass : (count : Nat) → σ → σ
  shows : ∀ state, unread state ≠ [] →
    ∃ shown, (ask state).1 = .ok shown ∧ shown ≠ [] ∧ shown <+: unread state
  ends : ∀ state, unread state = [] →
    (ask state).1 = match ending with
      | .closed => .ok []
      | .broken => .error failure
  unread_ask : ∀ state, unread (ask state).2 = unread state
  unread_pass : ∀ state shown count, (ask state).1 = .ok shown → count ≤ shown.length →
    unread (pass count (ask state).2) = (unread state).drop count

/-- What collecting a line comes to: the line or a failure, where the reader is left, and where it
was asked. -/
structure LineRead (σ ε : Type) where
  result : Except ε Bytes
  left : σ
  asked : List σ

namespace BufferedReader

variable {σ ε : Type}

/-- Collects a line of at most `limit` bytes, of which `line` has been read. There is no outcome if
the loop is not over after so many turns. -/
def collect (reader : BufferedReader σ ε) (limit : Nat) :
    (turns : Nat) → (line : Bytes) → (state : σ) → Option (LineRead σ ε)
  | 0, _, _ => none
  | turns + 1, line, state =>
      if line.length < limit then
        match reader.ask state with
        | (.error cause, after) => some ⟨.error cause, after, [state]⟩
        | (.ok shown, after) =>
            if shown.isEmpty then some ⟨.ok line, after, [state]⟩
            else
              let window := shown.take (limit - line.length)
              match window.findIdx? (· == newline) with
              | some position =>
                  some ⟨.ok (line ++ window.take (position + 1)), reader.pass (position + 1) after,
                    [state]⟩
              | none =>
                  (reader.collect limit turns (line ++ window)
                    (reader.pass window.length after)).map fun read =>
                      { read with asked := state :: read.asked }
      else some ⟨.ok line, state, []⟩

/-! ## One turn -/

/-- What a reader shows when it is asked, cut to the room that there is, and what comes after it. -/
structure Window (reader : BufferedReader σ ε) (room : Nat) (state : σ)
    (shown window rest : Bytes) : Prop where
  asked : (reader.ask state).1 = .ok shown
  taken : shown.take room = window
  present : window ≠ []
  within : window.length ≤ room
  unread : window ++ rest = reader.unread state
  passed : ∀ count ≤ window.length,
    reader.unread (reader.pass count (reader.ask state).2) = (window ++ rest).drop count

section Turn

variable {reader : BufferedReader σ ε} {limit room turns : Nat}
  {line shown window rest before after : Bytes} {state : σ}

theorem exists_window (remaining : reader.unread state ≠ []) (positive : 0 < room) :
    ∃ shown window rest, reader.Window room state shown window rest := by
  obtain ⟨shown, asked, nonempty, begins⟩ := reader.shows state remaining
  obtain ⟨rest, unread⟩ := (List.take_prefix room shown).trans begins
  refine ⟨shown, shown.take room, rest, asked, rfl, ?_, List.length_take_le room shown, unread,
    fun count few => ?_⟩
  · rw [ne_eq, List.take_eq_nil_iff, not_or]
    exact ⟨Nat.ne_of_gt positive, nonempty⟩
  · rw [unread]
    exact reader.unread_pass state shown count asked (few.trans (List.length_take_le' room shown))

theorem collect_of_full (full : limit ≤ line.length) :
    reader.collect limit (turns + 1) line state = some ⟨.ok line, state, []⟩ := by
  rw [collect, if_neg (Nat.not_lt.mpr full)]

/-- Where no byte is left, the line is over or the reader fails. -/
theorem collect_of_drained (free : line.length < limit) (drained : reader.unread state = []) :
    reader.collect limit (turns + 1) line state =
      some ⟨match reader.ending with
          | .closed => .ok line
          | .broken => .error reader.failure, (reader.ask state).2, [state]⟩ := by
  have ended := reader.ends state drained
  rw [collect, if_pos free]
  revert ended
  rcases reader.ask state with ⟨found, left⟩
  rintro rfl
  cases reader.ending <;> rfl

theorem collect_of_window (free : line.length < limit)
    (shows : reader.Window (limit - line.length) state shown window rest) :
    reader.collect limit (turns + 1) line state =
      match window.findIdx? (· == newline) with
      | some position =>
          some ⟨.ok (line ++ window.take (position + 1)),
            reader.pass (position + 1) (reader.ask state).2, [state]⟩
      | none =>
          (reader.collect limit turns (line ++ window)
            (reader.pass window.length (reader.ask state).2)).map fun read =>
              { read with asked := state :: read.asked } := by
  have pair : reader.ask state = (.ok shown, (reader.ask state).2) := Prod.ext shows.asked rfl
  have nonempty : shown ≠ [] := by
    rintro rfl
    exact shows.present (shows.taken.symm.trans List.take_nil)
  rw [collect, if_pos free, pair]
  dsimp only
  rw [if_neg (by rwa [List.isEmpty_iff]), shows.taken]

theorem findIdx?_of_not_mem {bytes : Bytes} (absent : newline ∉ bytes) :
    bytes.findIdx? (· == newline) = none := by
  rw [List.findIdx?_eq_none_iff]
  intro byte member
  rw [beq_eq_false_iff_ne]
  rintro rfl
  exact absent member

/-- A newline in the window ends the line, and the reader is moved just past it. -/
theorem collect_of_newline (free : line.length < limit)
    (shows : reader.Window (limit - line.length) state shown (before ++ newline :: after) rest)
    (absent : newline ∉ before) :
    reader.collect limit (turns + 1) line state =
      some ⟨.ok (line ++ (before ++ [newline])),
        reader.pass (before.length + 1) (reader.ask state).2, [state]⟩ := by
  have position : (before ++ newline :: after).findIdx? (· == newline) = some before.length := by
    rw [List.findIdx?_append, findIdx?_of_not_mem absent]
    simp [List.findIdx?_cons]
  have through : (before ++ newline :: after).take (before.length + 1) = before ++ [newline] := by
    rw [List.take_length_add_append, List.take_succ_cons, List.take_zero]
  rw [collect_of_window free shows, position]
  dsimp only
  rw [through]

/-- A window without a newline goes into the line, and the reader is moved past it. -/
theorem collect_of_absent (free : line.length < limit)
    (shows : reader.Window (limit - line.length) state shown window rest)
    (absent : newline ∉ window) :
    reader.collect limit (turns + 1) line state =
      (reader.collect limit turns (line ++ window)
        (reader.pass window.length (reader.ask state).2)).map fun read =>
          { read with asked := state :: read.asked } := by
  rw [collect_of_window free shows, findIdx?_of_not_mem absent]

end Turn

/-! ## What the loop comes to -/

/-- What a line is for a reader when `line` has been read before the rest of it. A failure is the
reader's own. -/
def joined (reader : BufferedReader σ ε) (line : Bytes) : Except IoError Bytes → Except ε Bytes
  | .ok more => .ok (line ++ more)
  | .error _ => .error reader.failure

theorem joined_map (reader : BufferedReader σ ε) (line window : Bytes)
    (found : Except IoError Bytes) :
    reader.joined line (found.map (window ++ ·)) = reader.joined (line ++ window) found := by
  cases found with
  | ok more => exact congrArg Except.ok (List.append_assoc line window more).symm
  | error cause => rfl

/-- The outcome of a loop with room for so many more bytes: its line goes on as the bytes do. If the
line is over where the bytes are, each ask has brought bytes of it. -/
structure Collected (reader : BufferedReader σ ε) (room : Nat) (line : Bytes) (state : σ)
    (read : LineRead σ ε) : Prop where
  result : read.result =
    reader.joined line (Input.lineOf room reader.ending (reader.unread state)).1
  left : reader.unread read.left = (Input.lineOf room reader.ending (reader.unread state)).2
  asked : newline ∈ reader.unread state ∨ room ≤ (reader.unread state).length →
    ∀ asked ∈ read.asked, (reader.unread read.left).length < (reader.unread asked).length

section Outcome

variable {reader : BufferedReader σ ε} {room : Nat} {line shown window rest before after : Bytes}
  {state : σ} {read : LineRead σ ε}

theorem collected_full (reader : BufferedReader σ ε) (line : Bytes) (state : σ) :
    reader.Collected 0 line state ⟨.ok line, state, []⟩ := by
  refine ⟨?_, ?_, fun _ asked member => absurd member List.not_mem_nil⟩
  · rw [Input.lineOf_zero, joined, List.append_nil]
  · rw [Input.lineOf_zero]

theorem collected_drained (present : 0 < room) (drained : reader.unread state = []) :
    reader.Collected room line state
      ⟨match reader.ending with
          | .closed => .ok line
          | .broken => .error reader.failure, (reader.ask state).2, [state]⟩ := by
  refine ⟨?_, ?_, fun finished => ?_⟩
  · rw [drained, Input.lineOf_nil present]
    cases reader.ending <;> simp [joined]
  · rw [reader.unread_ask, drained, Input.lineOf_nil present]
  · rw [drained, List.length_nil] at finished
    rcases finished with member | full
    · exact absurd member List.not_mem_nil
    · omega

/-- A newline in the window ends the line behind it. -/
theorem Window.collected_newline
    (shows : reader.Window room state shown (before ++ newline :: after) rest)
    (absent : newline ∉ before) :
    reader.Collected room line state
      ⟨.ok (line ++ (before ++ [newline])), reader.pass (before.length + 1) (reader.ask state).2,
        [state]⟩ := by
  have within := shows.within
  rw [List.length_append, List.length_cons] at within
  have parts := List.append_assoc before (newline :: after) rest
  have unread : reader.unread state = before ++ newline :: (after ++ rest) :=
    shows.unread.symm.trans parts
  have left : reader.unread (reader.pass (before.length + 1) (reader.ask state).2) =
      after ++ rest := by
    rw [shows.passed _ (by rw [List.length_append, List.length_cons]; omega), parts,
      List.drop_length_add_append, List.cons_append, List.drop_succ_cons, List.drop_zero]
  have whole : Input.lineOf room reader.ending (before ++ newline :: (after ++ rest)) = _ :=
    Input.lineOf_append_newline absent (by omega) _
  refine ⟨?_, ?_, fun _ asked member => ?_⟩
  · rw [unread, whole, joined]
  · rw [unread, whole, left]
  · obtain rfl := List.mem_singleton.mp member
    rw [left, unread, List.length_append, List.length_append, List.length_cons, List.length_append]
    omega

theorem Window.unread_next (shows : reader.Window room state shown window rest) :
    reader.unread (reader.pass window.length (reader.ask state).2) = rest := by
  rw [shows.passed _ (Nat.le_refl _), List.drop_left]

/-- A window without a newline goes into the line, and the loop goes on behind it. -/
theorem Window.collected_more (shows : reader.Window room state shown window rest)
    (absent : newline ∉ window)
    (later : reader.Collected (room - window.length) (line ++ window)
      (reader.pass window.length (reader.ask state).2) read) :
    reader.Collected room line state { read with asked := state :: read.asked } := by
  obtain ⟨result, left, asks⟩ := later
  rw [shows.unread_next] at result left asks
  have split : Input.lineOf room reader.ending (window ++ rest) = _ :=
    Input.lineOf_append_of_not_mem absent shows.within rest
  refine ⟨?_, ?_, fun finished asked member => ?_⟩
  · rw [← shows.unread, split, joined_map]
    exact result
  · rw [← shows.unread, split]
    exact left
  · rw [← shows.unread, List.mem_append, List.length_append] at finished
    rcases List.mem_cons.mp member with rfl | earlier
    · have taken := List.length_pos_of_ne_nil shows.present
      have shorter : (reader.unread read.left).length ≤ rest.length := by
        rw [left]
        exact Input.length_lineOf_le _ _ _
      rw [← shows.unread, List.length_append]
      change (reader.unread read.left).length < _
      omega
    · refine asks ?_ asked earlier
      rcases finished with (inside | behind) | full
      · exact absurd inside absent
      · exact Or.inl behind
      · exact Or.inr (by omega)

end Outcome

/-- The loop is over after as many turns as the rest of its line has bytes, and one more. -/
theorem exists_collected (reader : BufferedReader σ ε) {limit room : Nat} (line : Bytes)
    (split : line.length + room = limit) (state : σ) :
    ∃ read, (∀ turns, min room (reader.unread state).length ≤ turns →
        reader.collect limit (turns + 1) line state = some read) ∧
      reader.Collected room line state read := by
  induction room using Nat.strong_induction_on generalizing line state with
  | _ room inductionHypothesis =>
      rcases Nat.eq_zero_or_pos room with rfl | positive
      · exact ⟨_, fun _ _ => collect_of_full (by omega), collected_full reader line state⟩
      have free : line.length < limit := by omega
      have same : limit - line.length = room := by omega
      by_cases drained : reader.unread state = []
      · exact ⟨_, fun _ _ => collect_of_drained free drained, collected_drained positive drained⟩
      obtain ⟨shown, window, rest, shows⟩ := exists_window drained positive
      by_cases found : newline ∈ window
      · obtain ⟨before, after, rfl, absent⟩ := List.eq_append_cons_of_mem found
        exact ⟨_, fun _ _ => collect_of_newline free (same ▸ shows) absent,
          shows.collected_newline absent⟩
      · have taken := List.length_pos_of_ne_nil shows.present
        have within := shows.within
        have longer : (line ++ window).length + (room - window.length) = limit := by
          rw [List.length_append]
          omega
        obtain ⟨read, ended, later⟩ := inductionHypothesis (room - window.length) (by omega)
          (line ++ window) longer (reader.pass window.length (reader.ask state).2)
        refine ⟨_, fun turns enough => ?_, shows.collected_more found later⟩
        rw [← shows.unread, List.length_append] at enough
        rw [shows.unread_next] at ended
        obtain ⟨fewer, rfl⟩ := Nat.exists_eq_add_one_of_ne_zero (by omega : turns ≠ 0)
        rw [collect_of_absent free (same ▸ shows) found, ended fewer (by omega), Option.map_some]

/-! ## Inputs as readers -/

/-- Shows the first piece that is not empty. -/
def askPieces (ending : Ending) : List Bytes → Except IoError Bytes × List Bytes
  | [] =>
      (match ending with
        | .closed => .ok []
        | .broken => .error .inputGone, [])
  | [] :: rest => askPieces ending rest
  | (byte :: more) :: rest => (.ok (byte :: more), (byte :: more) :: rest)

/-- Either no piece has a byte, or the first piece that has one is shown. -/
theorem askPieces_cases (ending : Ending) (pieces : List Bytes) :
    (pieces.flatten = [] ∧ askPieces ending pieces =
      (match ending with
        | .closed => .ok []
        | .broken => .error .inputGone, [])) ∨
    ∃ piece rest, piece ≠ [] ∧ pieces.flatten = piece ++ rest.flatten ∧
      askPieces ending pieces = (.ok piece, piece :: rest) := by
  fun_induction askPieces ending pieces with
  | case1 => exact Or.inl ⟨rfl, rfl⟩
  | case2 rest inductionHypothesis => exact inductionHypothesis
  | case3 byte more rest => exact Or.inr ⟨byte :: more, rest, by simp, rfl, rfl⟩

/-- The pieces of an input as a reader. -/
def ofPieces (ending : Ending) : BufferedReader (List Bytes) IoError where
  unread := List.flatten
  ending := ending
  failure := .inputGone
  ask := askPieces ending
  pass count
    | [] => []
    | piece :: rest => piece.drop count :: rest
  shows pieces present := by
    obtain ⟨drained, -⟩ | ⟨piece, rest, nonempty, unread, shown⟩ := askPieces_cases ending pieces
    · exact absurd drained present
    · exact ⟨piece, congrArg Prod.fst shown, nonempty, rest.flatten, unread.symm⟩
  ends pieces drained := by
    obtain ⟨-, shown⟩ | ⟨piece, rest, nonempty, unread, -⟩ := askPieces_cases ending pieces
    · exact congrArg Prod.fst shown
    · rw [drained] at unread
      exact absurd (List.append_eq_nil_iff.mp unread.symm).1 nonempty
  unread_ask pieces := by
    obtain ⟨drained, shown⟩ | ⟨piece, rest, -, unread, shown⟩ := askPieces_cases ending pieces
    · rw [shown, drained]
      rfl
    · rw [shown, unread]
      rfl
  unread_pass pieces shown count asked few := by
    obtain ⟨drained, found⟩ | ⟨piece, rest, -, unread, found⟩ := askPieces_cases ending pieces
    · rw [found, drained]
      exact List.drop_nil.symm
    · rw [found] at asked ⊢
      obtain rfl : piece = shown := Except.ok.inj asked
      rw [unread, List.drop_append_of_le_length few]
      rfl

end BufferedReader

namespace Input

/-- A line is read as the bytes go: up to and including the first newline if that is among the first
`limit` bytes, else the first `limit` bytes if there are as many, and what comes after is left. Else
all bytes are read, and they are the line, or lost if the input is broken. Whatever a reader with
these bytes and this end shows when it is asked, the loop is over after as many turns as its line has
bytes and one more, and comes to the same; if the line ends by a newline or by its limit, each ask
was made with bytes of the line still to come. -/
theorem readLine_collects (input : Input) (limit : Nat) :
    (∀ before rest, input.unread = before ++ newline :: rest → newline ∉ before →
        before.length < limit →
      ∃ left : Input, readLine limit input = .ok (before ++ [newline]) left ∧
        left.unread = rest ∧ left.ending = input.ending) ∧
    (newline ∉ input.unread.take limit → limit ≤ input.unread.length →
      ∃ left : Input, readLine limit input = .ok (input.unread.take limit) left ∧
        left.unread = input.unread.drop limit ∧ left.ending = input.ending) ∧
    (newline ∉ input.unread.take limit → input.unread.length < limit →
      ∃ left : Input, left.unread = [] ∧ left.ending = input.ending ∧
        readLine limit input =
          match input.ending with
          | .closed => .ok input.unread left
          | .broken => .error .inputGone left) ∧
    ∀ {σ ε : Type} (reader : BufferedReader σ ε) (state : σ),
      reader.unread state = input.unread → reader.ending = input.ending →
      ∃ read : LineRead σ ε,
        (∀ turns, min limit input.unread.length ≤ turns →
          reader.collect limit (turns + 1) [] state = some read) ∧
        (match readLine limit input with
          | .ok line left => read.result = .ok line ∧ reader.unread read.left = left.unread
          | .error _ left =>
              read.result = .error reader.failure ∧ reader.unread read.left = left.unread) ∧
        (newline ∈ input.unread ∨ limit ≤ input.unread.length →
          ∀ asked ∈ read.asked,
            (reader.unread read.left).length < (reader.unread asked).length) := by
  obtain ⟨pieces, flat, read⟩ := reads_readLine limit input
  refine ⟨fun before rest split absent reached => ?_, fun absent full => ?_,
    fun absent short => ?_, fun reader state unread ending => ?_⟩
  · rw [split, lineOf_append_newline absent reached] at flat read
    exact ⟨_, read, flat, rfl⟩
  · rw [lineOf_full absent full] at flat read
    exact ⟨_, read, flat, rfl⟩
  · rw [List.take_of_length_le (Nat.le_of_lt short)] at absent
    rw [lineOf_drained absent short] at flat read
    refine ⟨{ input with pieces }, flat, rfl, read.trans ?_⟩
    cases input.ending <;> rfl
  · obtain ⟨found, ended, collected⟩ := reader.exists_collected [] (Nat.zero_add limit) state
    rw [unread] at ended
    have result := collected.result
    have left := collected.left
    rw [unread, ending] at result left
    refine ⟨found, ended, ?_, ?_⟩
    · rw [read]
      rw [← flat] at left
      cases outcome : (lineOf limit input.ending input.unread).1 with
      | ok line =>
          rw [outcome] at result
          exact ⟨result, left⟩
      | error cause =>
          rw [outcome] at result
          exact ⟨result, left⟩
    · rw [← unread]
      exact collected.asked

/-- A broken input that holds just as many bytes as the limit is not asked for more; it fails if one
more may be read. A newline just past a piece ends its line. -/
theorem readLine_collects_exact :
    let text : Input := ⟨[[65], [], [66]], .broken⟩
    let lines : Input := ⟨[[65], [10, 66]], .broken⟩
    let reader := BufferedReader.ofPieces .broken
    newline ∉ text.unread.take 2 ∧ 2 ≤ text.unread.length ∧
      (∃ left : Input, readLine 2 text = .ok [65, 66] left ∧ left.unread = []) ∧
      reader.unread text.pieces = text.unread ∧ reader.ending = text.ending ∧
      (∃ read, reader.collect 2 3 [] text.pieces = some read ∧ read.result = .ok [65, 66] ∧
        ∀ asked ∈ read.asked, reader.unread asked ≠ []) ∧
      newline ∉ text.unread.take 3 ∧ text.unread.length < 3 ∧
      (∃ left : Input, readLine 3 text = .error .inputGone left ∧ left.unread = []) ∧
      lines.unread = [65] ++ newline :: [66] ∧ newline ∉ ([65] : Bytes) ∧
      ∃ left : Input, readLine 2 lines = .ok [65, 10] left ∧ left.unread = [66] := by
  intro text lines reader
  refine ⟨by decide, by decide, ?_, rfl, rfl, ?_, by decide, by decide, ?_, rfl, by decide, ?_⟩
  · obtain ⟨left, read, unread, -⟩ := (readLine_collects text 2).2.1 (by decide) (by decide)
    exact ⟨left, read, unread⟩
  · obtain ⟨read, ended, ⟨result, -⟩, asks⟩ :=
      (readLine_collects text 2).2.2.2 reader text.pieces rfl rfl
    refine ⟨read, ended 2 (by decide), result, fun asked member drained => ?_⟩
    have longer := asks (Or.inr (by decide)) asked member
    rw [drained] at longer
    exact Nat.not_lt_zero _ longer
  · obtain ⟨left, unread, -, read⟩ := (readLine_collects text 3).2.2.1 (by decide) (by decide)
    exact ⟨left, read, unread⟩
  · obtain ⟨left, read, unread, -⟩ :=
      (readLine_collects lines 2).1 [65] [66] rfl (by decide) (by decide)
    exact ⟨left, read, unread⟩

end Input

end TagMachine
