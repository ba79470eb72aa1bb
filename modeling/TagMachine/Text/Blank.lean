/-!
Blank characters and the cutting of text at them: the characters with the property White_Space.
-/

namespace TagMachine.Text

/-- The code points with the property White_Space. -/
def isBlank (char : Char) : Bool :=
  let code := char.toNat
  (9 ≤ code && code ≤ 13) || code == 0x20 || code == 0x85 || code == 0xA0 || code == 0x1680
    || (0x2000 ≤ code && code ≤ 0x200A) || code == 0x2028 || code == 0x2029 || code == 0x202F
    || code == 0x205F || code == 0x3000

def trim (text : List Char) : List Char :=
  ((text.dropWhile isBlank).reverse.dropWhile isBlank).reverse

/-- The parts before and after the first character of a kind, if there is one. -/
def splitAtFirst (kind : Char → Bool) (text : List Char) : Option (List Char × List Char) :=
  match text.dropWhile (!kind ·) with
  | [] => none
  | _ :: after => some (text.takeWhile (!kind ·), after)

/-- The lines of a text. A line ends in a line feed, or in a carriage return and a line feed, and
an end of line at the end of the text starts no further line. -/
def lines : List Char → List (List Char)
  | [] => []
  | '\r' :: '\n' :: rest => [] :: lines rest
  | '\n' :: rest => [] :: lines rest
  | char :: rest =>
      match lines rest with
      | [] => [[char]]
      | line :: others => (char :: line) :: others

end TagMachine.Text
