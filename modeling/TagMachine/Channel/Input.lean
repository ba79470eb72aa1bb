import TagMachine.Bytes
import TagMachine.Fault

/-!
The input of a program: bytes that arrive in pieces. Readers look at one piece at a time; what
they return does not hang on where the pieces are cut.
-/

namespace TagMachine

/-- What a reader meets once every byte has been read: the end of the input, or a failure. -/
inductive Ending
  | closed
  | broken
  deriving DecidableEq, Repr

/-- The pieces not read yet, and how the input ends. An empty piece shows a reader nothing. -/
structure Input where
  pieces : List Bytes
  ending : Ending
  deriving DecidableEq, Repr

namespace Input

def unread (input : Input) : Bytes :=
  input.pieces.flatten

/-- Cuts bytes into pieces of the given size; size zero leaves them in one piece. -/
def cut (size : Nat) (bytes : Bytes) : List Bytes :=
  if size = 0 ∨ bytes.drop size = [] then [bytes]
  else bytes.take size :: cut size (bytes.drop size)
termination_by bytes.length
decreasing_by
  rename_i more
  simp only [List.drop_eq_nil_iff, not_or] at more
  simp only [List.length_drop]
  omega

def ofBytes (bytes : Bytes) : Input :=
  ⟨[bytes], .closed⟩

/-- A line of at most `limit` bytes from the pieces, and the pieces left. The line stops after the
first newline, and at the end of a closed input. -/
def lineFrom (ending : Ending) :
    (limit : Nat) → List Bytes → Except IoError Bytes × List Bytes
  | 0, pieces => (.ok [], pieces)
  | _ + 1, [] =>
      match ending with
      | .closed => (.ok [], [])
      | .broken => (.error .inputGone, [])
  | limit + 1, piece :: pieces =>
      let window := piece.take (limit + 1)
      let before := window.takeWhile (· != Bytes.newline)
      if before.length < window.length then
        (.ok (window.take (before.length + 1)),
          piece.drop (before.length + 1) :: pieces)
      else
        match piece.drop (limit + 1) with
        | [] =>
            let (line, left) := lineFrom ending (limit + 1 - piece.length) pieces
            (line.map (piece ++ ·), left)
        | rest => (.ok window, rest :: pieces)

/-- Reads a line of at most `limit` bytes, its newline included; empty at the end of the input. -/
def readLine (limit : Nat) : EStateM IoError Input Bytes := fun input =>
  match lineFrom input.ending limit input.pieces with
  | (.ok line, pieces) => .ok line { input with pieces }
  | (.error cause, pieces) => .error cause { input with pieces }

def bytesFrom : (count : Nat) → List Bytes → Option Bytes × List Bytes
  | 0, pieces => (some [], pieces)
  | _ + 1, [] => (none, [])
  | count + 1, piece :: pieces =>
      match piece.drop (count + 1) with
      | [] =>
          let (bytes, left) := bytesFrom (count + 1 - piece.length) pieces
          (bytes.map (piece ++ ·), left)
      | rest => (some (piece.take (count + 1)), rest :: pieces)

/-- Reads exactly `count` bytes. An input that holds fewer is read to its end. -/
def readExactly (count : Nat) : EStateM IoError Input Bytes := fun input =>
  match bytesFrom count input.pieces with
  | (some bytes, pieces) => .ok bytes { input with pieces }
  | (none, pieces) =>
      match input.ending with
      | .closed => .error .unexpectedEnd { input with pieces }
      | .broken => .error .inputGone { input with pieces }

def readWord : EStateM IoError Input UInt64 := do
  let bytes ← readExactly 8
  return UInt64.ofNat bytes.littleEndian

end Input

end TagMachine
