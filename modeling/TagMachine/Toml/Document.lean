import TagMachine.Text.Blank
import TagMachine.Toml.Number
import TagMachine.Toml.Tree

/-!
Settings files in TOML, read line by line: comments, table headers, and keys set to integers,
strings on one line, booleans, decimals and inline tables.
-/

namespace TagMachine.Toml

/-! ## Words -/

def isWordChar (char : Char) : Bool :=
  char.isAlphanum || char == '_' || char == '+' || char == '-' || char == '.'

def scalar? (word : List Char) : Option Item :=
  if word = "true".toList then some (.boolean true)
  else if word = "false".toList then some (.boolean false)
  else
    match integer? word with
    | some number => some (.integer number)
    | none => if isDecimal word then some .decimal else none

/-! ## Strings -/

/-- Characters that stand for themselves in comments and strings. -/
def isPlain (char : Char) : Bool :=
  char == '\t' || (32 ≤ char.toNat && char.toNat != 127)

def quote : Char := Char.ofNat 39

def scalarValue? (digits : List Char) : Option Char :=
  if digits.all (isDigitOf 16) then
    let code := appendDigits 16 0 digits
    if code.isValidChar then some (Char.ofNat code) else none
  else none

def escape? (letter : Char) : Option Char :=
  match letter with
  | 'b' => some (Char.ofNat 8)
  | 't' => some '\t'
  | 'n' => some '\n'
  | 'f' => some (Char.ofNat 12)
  | 'r' => some '\r'
  | '"' => some '"'
  | '\\' => some '\\'
  | _ => none

def cons? (char : Option Char) (string : Option (List Char × List Char)) :
    Option (List Char × List Char) := do
  let first ← char
  let (text, after) ← string
  return (first :: text, after)

/-- The rest of a basic string, escapes resolved, and what follows its closing quote. -/
def basic? : List Char → Option (List Char × List Char)
  | [] => none
  | '"' :: rest => some ([], rest)
  | '\\' :: 'u' :: a :: b :: c :: d :: rest =>
      cons? (scalarValue? [a, b, c, d]) (basic? rest)
  | '\\' :: 'U' :: a :: b :: c :: d :: e :: f :: g :: h :: rest =>
      cons? (scalarValue? [a, b, c, d, e, f, g, h]) (basic? rest)
  | '\\' :: letter :: rest => cons? (escape? letter) (basic? rest)
  | char :: rest => if isPlain char then cons? (some char) (basic? rest) else none

/-- The rest of a literal string, where nothing is an escape, and what follows its closing
quote. -/
def literal? : List Char → Option (List Char × List Char)
  | [] => none
  | char :: rest =>
      if char = quote then some ([], rest)
      else if isPlain char then cons? (some char) (literal? rest)
      else none

def string? : List Char → Option (String × List Char)
  | '"' :: rest => (basic? rest).map fun (text, after) => (String.ofList text, after)
  | char :: rest =>
      if char = quote then
        (literal? rest).map fun (text, after) => (String.ofList text, after)
      else none
  | [] => none

/-! ## Keys and values -/

def skipSpace (text : List Char) : List Char :=
  text.dropWhile fun char => char == ' ' || char == '\t'

def isKeyChar (char : Char) : Bool :=
  char.isAlphanum || char == '-' || char == '_'

/-- A key with or without quotes, and what follows it. -/
def key? (text : List Char) : Option (String × List Char) :=
  let bare := text.takeWhile isKeyChar
  if bare.isEmpty then string? text
  else some (String.ofList bare, text.drop bare.length)

/-- So many keys are the most that a path is made of, and so many inline tables the most that stand
in one another. -/
def depthLimit : Nat := 79

/-- Keys parted by points, at most `limit` of them, and what follows them. -/
def keys? : (limit : Nat) → List Char → Option (List String × List Char)
  | 0, _ => none
  | limit + 1, text => do
      let (key, after) ← key? (skipSpace text)
      match skipSpace after with
      | '.' :: rest => do
          let (keys, after) ← keys? limit rest
          return (key :: keys, after)
      | after => return ([key], after)

def path? (text : List Char) : Option (List String × List Char) :=
  keys? depthLimit text

/-- At most `limit` entries of an inline table up to its closing brace, added to those before, and
what follows the brace. What an entry is set to is read by `value?`. -/
def entries? (value? : List Char → Option (Item × List Char)) :
    (limit : Nat) → Table → List Char → Option (Table × List Char)
  | 0, _, _ => none
  | limit + 1, table, text => do
      let (path, after) ← path? text
      match after with
      | '=' :: rest => do
          let (item, after) ← value? (skipSpace rest)
          let table ← Table.setDotted item 0 .header path table
          match skipSpace after with
          | '\x7d' :: after => return (table, after)
          | ',' :: rest => entries? value? limit table rest
          | _ => none
      | _ => none

/-- A value, with at most `depth` inline tables in one another, and what follows it. -/
def nested? : (depth : Nat) → List Char → Option (Item × List Char)
  | 0, '\x7b' :: _ => none
  | depth + 1, '\x7b' :: rest =>
      match skipSpace rest with
      | '\x7d' :: after => some (.table .inline [], after)
      | rest =>
          (entries? (nested? depth) rest.length [] rest).map fun (table, after) =>
            (.table .inline table, after)
  | _, text =>
      let word := text.takeWhile isWordChar
      if word.isEmpty then (string? text).map fun (string, after) => (.text string, after)
      else (scalar? word).map fun item => (item, text.drop word.length)

def value? (text : List Char) : Option (Item × List Char) :=
  nested? depthLimit text

/-! ## Lines -/

/-- Nothing but a comment is left of a line. -/
def isLineEnd (text : List Char) : Bool :=
  match skipSpace text with
  | [] => true
  | '#' :: comment => comment.all isPlain
  | _ => false

/-- The tables read so far, and the path of the one that is open. -/
structure Document where
  table : Table
  header : List String

def Document.readLine (document : Document) (line : List Char) : Option Document := do
  match skipSpace line with
  | '[' :: rest => do
      let (path, after) ← path? rest
      match after with
      | ']' :: after => do
          if !isLineEnd after then none
          let table ← document.table.openAt path
          return ⟨table, path⟩
      | _ => none
  | text =>
      if isLineEnd text then return document
      let (path, after) ← path? text
      match after with
      | '=' :: rest => do
          let (item, after) ← value? (skipSpace rest)
          if !isLineEnd after then none
          let table ← Table.setUnder path item document.header document.table
          return { document with table }
      | _ => none

def Document.readLines (document : Document) : List (List Char) → Option Document
  | [] => some document
  | line :: rest => do
      let next ← document.readLine line
      next.readLines rest

/-- The table that a settings text denotes, if it is well formed. A byte order mark at the start
is passed over. -/
def read? (text : String) : Option Table :=
  let chars :=
    match text.toList with
    | '\uFEFF' :: rest => rest
    | chars => chars
  (Document.readLines ⟨[], []⟩ (Text.lines chars)).map (·.table)

end TagMachine.Toml
