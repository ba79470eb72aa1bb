/-!
The tables of a settings file in TOML, and which definitions of a table may follow one another: a
key is set once, a header opens a table once, and a dotted key enters only tables that dotted keys
have made.
-/

namespace TagMachine.Toml

/-- How a table came to be: on the way of a header to a table inside it, by its own header, on the
way of a dotted key, or as a value. -/
inductive Origin
  | passed
  | header
  | dotted
  | inline
  deriving DecidableEq, Repr

/-- What a key is set to. A decimal has a fraction or an exponent, or is no number. -/
inductive Item
  | integer (number : Int)
  | text (text : String)
  | boolean (value : Bool)
  | decimal
  | table (origin : Origin) (entries : List (String × Item))
  deriving Repr

/-- Keys with what they are set to. -/
abbrev Table := List (String × Item)

namespace Table

def replace (table : Table) (key : String) (item : Item) : Table :=
  table.map fun entry => if entry.1 == key then (key, item) else entry

/-- Opens the table at a path of keys, unless that was done before. -/
def openAt : List String → Table → Option Table
  | [], _ => none
  | [key], table =>
      match table.lookup key with
      | none => some (table ++ [(key, .table .header [])])
      | some (.table .passed entries) => some (table.replace key (.table .header entries))
      | some _ => none
  | key :: path, table =>
      match table.lookup key with
      | none => do
          let inner ← openAt path []
          return table ++ [(key, .table .passed inner)]
      | some (.table .inline _) => none
      | some (.table origin entries) => do
          let inner ← openAt path entries
          return table.replace key (.table origin inner)
      | some _ => none

/-- Sets a dotted key in a table of the given origin, reached from the table that is open by
`depth` keys. -/
def setDotted (item : Item) : (depth : Nat) → Origin → List String → Table → Option Table
  | _, _, [], _ => none
  | depth, origin, [key], table =>
      if 0 < depth ∧ origin ≠ .dotted then none
      else if (table.lookup key).isSome then none
      else some (table ++ [(key, item)])
  | depth, _, key :: path, table =>
      match table.lookup key with
      | none => do
          let inner ← setDotted item (depth + 1) .dotted path []
          return table ++ [(key, .table .dotted inner)]
      | some (.table origin entries) =>
          if origin = .header ∨ origin = .inline then none
          else do
            let inner ← setDotted item (depth + 1) origin path entries
            return table.replace key (.table origin inner)
      | some _ => none

/-- Sets a dotted key in the table that a header has opened. -/
def setUnder (path : List String) (item : Item) : (header : List String) → Table → Option Table
  | [], table => setDotted item 0 .header path table
  | key :: header, table =>
      match table.lookup key with
      | some (.table origin entries) => do
          let inner ← setUnder path item header entries
          return table.replace key (.table origin inner)
      | _ => none

end Table

end TagMachine.Toml
