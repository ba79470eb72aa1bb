import TagMachine.Channel.Input
import TagMachine.Numeral
import TagMachine.Proofs.Ranges.Checked

/-!
# Bytes with checked operations

A line is collected from slices of the pieces, a string is the slice before its first zero byte, two
strings are joined in a buffer as long as both, a needle is compared with the windows of its length,
and a number loses its sign to a slice and its digits their distance from zero.  Every slice and
every length is in range.
-/

namespace TagMachine.Checked

/-! ## Lines -/

/-- The loop of a reader of lines; `line` is what it has read so far. -/
def lineFrom? (ending : Ending) (limit : Nat) :
    (line : Bytes) → List Bytes → Option (Except IoError Bytes × List Bytes)
  | line, [] =>
      if limit ≤ line.length then some (.ok line, [])
      else
        match ending with
        | .closed => some (.ok line, [])
        | .broken => some (.error .inputGone, [])
  | line, piece :: pieces =>
      if limit ≤ line.length then some (.ok line, piece :: pieces)
      else do
        let room ← difference? limit line.length
        let window ← before? piece (min piece.length room)
        let position := window.findIdx (· == Bytes.newline)
        if position < window.length then
          let taken ← through? window position
          let left ← from? piece (← sum? position 1)
          return (.ok (line ++ taken), left :: pieces)
        else
          match ← from? piece window.length with
          | [] => lineFrom? ending limit (line ++ window) pieces
          | left => return (.ok (line ++ window), left :: pieces)

theorem length_takeWhile_eq_findIdx (window : Bytes) :
    (window.takeWhile (· != Bytes.newline)).length = window.findIdx (· == Bytes.newline) := by
  rw [List.takeWhile_eq_take_findIdx_not, List.length_take]
  simp only [bne, Bool.not_not]
  exact Nat.min_eq_left List.findIdx_le_length

/-- One turn of the loop, with room for `less + 1` more bytes, makes no operation out of range. -/
theorem lineFrom?_cons {ending : Ending} {limit less : Nat} (counted : limit < UInt64.size)
    {line : Bytes} (room : limit - line.length = less + 1) (piece : Bytes) (pieces : List Bytes) :
    lineFrom? ending limit line (piece :: pieces) =
      let window := piece.take (less + 1)
      let before := window.takeWhile (· != Bytes.newline)
      if before.length < window.length then
        some (.ok (line ++ window.take (before.length + 1)),
          piece.drop (before.length + 1) :: pieces)
      else
        match piece.drop window.length with
        | [] => lineFrom? ending limit (line ++ window) pieces
        | left => some (.ok (line ++ window), left :: pieces) := by
  have window : piece.take (min piece.length (less + 1)) = piece.take (less + 1) := by
    rw [Nat.min_comm, ← List.take_eq_take_min]
  rw [lineFrom?, if_neg (by omega), difference?, if_pos (by omega), room]
  simp only [Option.bind_eq_bind, Option.bind_some, before?, Nat.min_le_left, if_true, window,
    length_takeWhile_eq_findIdx]
  generalize (piece.take (less + 1)).findIdx (· == Bytes.newline) = position
  have shorter : (piece.take (less + 1)).length ≤ piece.length := List.length_take_le' _ _
  have narrower : (piece.take (less + 1)).length ≤ less + 1 := List.length_take_le _ _
  by_cases found : position < (piece.take (less + 1)).length
  · simp only [found, if_true, through?, sum?, from?, Option.bind_some,
      if_pos (by omega : position + 1 < UInt64.size),
      if_pos (by omega : position + 1 ≤ piece.length)]
    rfl
  · simp only [found, if_false, from?, shorter, if_true, Option.bind_some]
    rfl

theorem lineFrom?_eq {ending : Ending} {limit : Nat} (counted : limit < UInt64.size)
    (line : Bytes) (pieces : List Bytes) (within : line.length ≤ limit) :
    lineFrom? ending limit line pieces =
      some ((Input.lineFrom ending (limit - line.length) pieces).1.map (line ++ ·),
        (Input.lineFrom ending (limit - line.length) pieces).2) := by
  induction pieces generalizing line with
  | nil =>
      unfold lineFrom?
      cases room : limit - line.length with
      | zero =>
          rw [if_pos (by omega)]
          simp [Input.lineFrom, Except.map]
      | succ less =>
          rw [if_neg (by omega)]
          cases ending with
          | closed =>
              change some (Except.ok line, []) = some (Except.ok (line ++ []), [])
              rw [List.append_nil]
          | broken => rfl
  | cons piece pieces inductionHypothesis =>
      cases room : limit - line.length with
      | zero =>
          rw [lineFrom?, if_pos (by omega)]
          simp [Input.lineFrom, Except.map]
      | succ less =>
          rw [lineFrom?_cons counted room, Input.lineFrom]
          dsimp only
          split
          · rfl
          · by_cases short : piece.length ≤ less + 1
            · have joined : limit - (line ++ piece).length = less + 1 - piece.length := by
                rw [List.length_append]
                omega
              rw [List.take_of_length_le short, List.drop_length, List.drop_of_length_le short]
              dsimp only
              rw [inductionHypothesis (line ++ piece) (by rw [List.length_append]; omega), joined]
              cases (Input.lineFrom ending (less + 1 - piece.length) pieces).1 with
              | ok rest => simp only [Except.map, List.append_assoc]
              | error cause => rfl
            · have filled : (piece.take (less + 1)).length = less + 1 := by
                rw [List.length_take]
                omega
              rw [filled]
              cases left : piece.drop (less + 1) with
              | nil => exact absurd (List.drop_eq_nil_iff.mp left) short
              | cons byte rest => rfl

/-! ## Strings -/

/-- The string that bytes make: those before the first zero byte. -/
def cutAtZero? (bytes : Bytes) : Option Bytes :=
  before? bytes (bytes.findIdx (· == 0))

theorem cutAtZero?_eq (bytes : Bytes) : cutAtZero? bytes = some bytes.untilZero := by
  rw [cutAtZero?, before?, if_pos List.findIdx_le_length, Bytes.untilZero,
    List.takeWhile_eq_take_findIdx_not]
  simp only [bne, Bool.not_not]

/-- Two strings in a buffer of as many bytes as both have. -/
def joined? (first second : Bytes) : Option Bytes :=
  (sum? first.length second.length).map fun _ => first ++ second

theorem joined?_eq {first second : Bytes}
    (counted : first.length + second.length < UInt64.size) :
    joined? first second = some (first ++ second) := by
  rw [joined?, sum?, if_pos counted, Option.map_some]

/-- The runs of so many bytes. -/
def windows (size : Nat) : Bytes → List Bytes
  | [] => []
  | byte :: rest =>
      if size ≤ rest.length + 1 then (byte :: rest).take size :: windows size rest
      else windows size rest

/-- The runs of so many bytes, at least one. -/
def windows? (bytes : Bytes) (size : Nat) : Option (List Bytes) :=
  if size = 0 then none else some (windows size bytes)

def occursIn? (needle bytes : Bytes) : Option Bool :=
  if needle.isEmpty then some true
  else (windows? bytes needle.length).map (·.any (· == needle))

theorem any_windows_eq {needle : Bytes} (nonempty : needle ≠ []) (bytes : Bytes) :
    (windows needle.length bytes).any (· == needle) = needle.occursIn bytes := by
  induction bytes with
  | nil => cases needle with
    | nil => contradiction
    | cons byte rest => rfl
  | cons byte rest inductionHypothesis =>
      by_cases fits : needle.length ≤ rest.length + 1
      · have here : ((byte :: rest).take needle.length == needle) =
            needle.isPrefixOf (byte :: rest) := by
          rw [Bool.eq_iff_iff, beq_iff_eq, List.isPrefixOf_iff_prefix, List.prefix_iff_eq_take]
          exact eq_comm
        rw [windows, if_pos fits, List.any_cons, inductionHypothesis, here, Bytes.occursIn]
      · have nowhere : needle.isPrefixOf (byte :: rest) = false := by
          rw [← Bool.not_eq_true, List.isPrefixOf_iff_prefix]
          exact fun isPrefix => fits isPrefix.length_le
        rw [windows, if_neg fits, inductionHypothesis, Bytes.occursIn, nowhere, Bool.false_or]

theorem occursIn?_eq (needle bytes : Bytes) :
    occursIn? needle bytes = some (needle.occursIn bytes) := by
  unfold occursIn?
  cases needle with
  | nil => cases bytes <;> rfl
  | cons byte rest =>
      have nonempty : byte :: rest ≠ [] := List.cons_ne_nil byte rest
      rw [if_neg (by simp), windows?, if_neg (by simp), Option.map_some, any_windows_eq nonempty]

/-! ## Numbers -/

/-- Splits an optional sign off. -/
def splitSign? (bytes : Bytes) : Option (Bool × Bytes) :=
  match bytes with
  | 45 :: _ => (from? bytes 1).map (true, ·)
  | 43 :: _ => (from? bytes 1).map (false, ·)
  | _ => some (false, bytes)

theorem splitSign?_eq (bytes : Bytes) : splitSign? bytes = some (Numeral.splitSign bytes) := by
  unfold splitSign? Numeral.splitSign
  split <;> simp [from?]

/-- Takes in digits, staying within 64 bits after each operation. -/
def accumulate? (negative : Bool) : (total : Int) → Bytes → Option Int
  | total, [] => some total
  | total, byte :: rest => do
      let digit ← difference? byte.toNat 48
      let scaled := Numeral.saturate (total * 10)
      accumulate? negative
        (Numeral.saturate (if negative then scaled - digit else scaled + digit)) rest

theorem accumulate?_eq (negative : Bool) (total : Int) {digits : Bytes}
    (areDigits : ∀ byte ∈ digits, Numeral.isDigit byte) :
    accumulate? negative total digits =
      some (digits.foldl (Numeral.accumulate negative) total) := by
  induction digits generalizing total with
  | nil => rfl
  | cons byte rest inductionHypothesis =>
      have isDigit := areDigits byte List.mem_cons_self
      simp only [Numeral.isDigit, Bool.and_eq_true, decide_eq_true_eq] at isDigit
      have fromZero : 48 ≤ byte.toNat := isDigit.1
      have value : byte.toNat - 48 = (byte - 48).toNat :=
        (UInt8.toNat_sub_of_le byte 48 isDigit.1).symm
      rw [accumulate?, difference?, if_pos fromZero, List.foldl_cons, Numeral.accumulate, ← value]
      exact inductionHypothesis _ fun later member =>
        areDigits later (List.mem_cons_of_mem _ member)

def readLong? (bytes : Bytes) : Option Int := do
  let (negative, rest) ← splitSign? (bytes.dropWhile Numeral.isBlank)
  accumulate? negative 0 (rest.takeWhile Numeral.isDigit)

theorem readLong?_eq (bytes : Bytes) : readLong? bytes = some (Numeral.readLong bytes) := by
  unfold readLong? Numeral.readLong
  rw [splitSign?_eq]
  exact accumulate?_eq _ _ fun byte member => List.all_eq_true.mp List.all_takeWhile byte member

end TagMachine.Checked
