import TagMachine.Bytes
import TagMachine.Fault
import TagMachine.Lookup

/-!
A tree of files as a value: which paths exist, and what the files hold. A place is what a program
writes to name a path; finding it walks the tree from the working directory.
-/

namespace TagMachine

/-- The names on the way from the top to a file or directory. -/
abbrev Path := List String

inductive Node
  | file (content : Bytes)
  | directory
  deriving DecidableEq, Repr

/-- A path as a text names it: the names in order, without those that stay where they are, and the
length of the text. A directory is meant where a slash ends the text, and one that is there already
where a dot comes last. -/
structure Place where
  absolute : Bool
  names : List String
  dot : Bool
  slash : Bool
  length : Nat
  deriving DecidableEq, Repr

namespace Place

/-- The place that a text names. Names are parted by slashes; one dot stays where it is. -/
def ofText (text : String) : Place :=
  let segments := text.splitOn "/"
  { absolute := text.startsWith "/"
    names := segments.filter fun segment => segment != "" && segment != "."
    dot := (segments.filter (· != "")).getLast? = some "."
    slash := text.endsWith "/"
    length := text.utf8ByteSize }

/-- The empty text names nothing at all. -/
def isNothing (place : Place) : Bool :=
  place.length = 0

/-- A text of 4096 bytes or more is not even looked at. -/
def isTooLong (place : Place) : Bool :=
  4096 ≤ place.length

def isForDirectory (place : Place) : Bool :=
  place.dot || place.slash

/-- The place of a name inside a place, written after a slash. The empty name is the place itself,
as a directory. -/
def child (place : Place) (name : String) : Place :=
  let length := if place.isNothing || place.slash then place.length else place.length + 1
  if name = "" then { place with slash := !place.isNothing, length }
  else
    { place with
      names := place.names ++ [name]
      dot := false
      slash := false
      length := length + name.utf8ByteSize }

end Place

/-- A tree of files with a working directory. The top is always a directory. -/
structure FileSystem where
  workingDirectory : Path
  nodes : List (Path × Node)
  deriving DecidableEq, Repr

namespace FileSystem

def node? (files : FileSystem) (path : Path) : Option Node :=
  if path = [] then some .directory else files.nodes.lookup path

def put (files : FileSystem) (path : Path) (node : Node) : FileSystem :=
  { files with nodes := (path, node) :: files.nodes.filter (·.1 != path) }

/-- A node that was put is found at its path, and every other path leads where it did. -/
theorem node?_put (files : FileSystem) (path other : Path) (node : Node) :
    (files.put path node).node? other =
      if other = [] then some .directory
      else if other = path then some node
      else files.node? other := by
  by_cases top : other = []
  · simp [node?, top]
  · by_cases same : other = path
    · simp [node?, put, same]
    · simp [node?, put, top, same, List.lookup_cons, beq_eq_false_iff_ne.mpr same,
        Lookup.lookup_filter_ne]

/-- A name of more than 255 bytes is never looked up. -/
def nameTooLong (name : String) : Bool :=
  255 < name.utf8ByteSize

def walk (files : FileSystem) (directory : Path) : List String → Except IoError Path
  | [] => .ok directory
  | ".." :: names => walk files directory.dropLast names
  | name :: names =>
      if nameTooLong name then .error .nameTooLong
      else
        match files.node? (directory ++ [name]) with
        | none => .error .notFound
        | some (.file _) => .error .notADirectory
        | some .directory => walk files (directory ++ [name]) names

def start (files : FileSystem) (place : Place) : Path :=
  if place.absolute then [] else files.workingDirectory

/-- Where names lead when the last of them need not exist: the directory of the last name and that
name, or just a directory. -/
def approach (files : FileSystem) (start : Path) (names : List String) :
    Except IoError (Path × Option String) :=
  match names.getLast? with
  | none => .ok (start, none)
  | some ".." => (files.walk start names).map (·, none)
  | some name => (files.walk start names.dropLast).map (·, some name)

def locate (files : FileSystem) (place : Place) : Except IoError (Path × Option String) :=
  if place.isTooLong then .error .nameTooLong
  else if place.isNothing then .error .notFound
  else files.approach (files.start place) place.names

def find (files : FileSystem) (place : Place) : Except IoError Node := do
  match ← files.locate place with
  | (_, none) => return .directory
  | (directory, some name) =>
      if nameTooLong name then throw .nameTooLong
      match files.node? (directory ++ [name]) with
      | none => throw .notFound
      | some (.file content) =>
          if place.isForDirectory then throw .notADirectory
          return .file content
      | some .directory => return .directory

/-- Reads at most `limit` bytes of the file at a place. A directory can be opened, but not even
one byte read from it. -/
def readUpTo (files : FileSystem) (place : Place) (limit : Nat) : Except IoError Bytes := do
  match ← files.find place with
  | .file content => return content.take limit
  | .directory => if limit = 0 then return [] else throw .isADirectory

def read (files : FileSystem) (place : Place) : Except IoError Bytes := do
  match ← files.find place with
  | .file content => return content
  | .directory => throw .isADirectory

/-- The path of a file to be written at a place: a new one, or one whose content will be lost. -/
def target (files : FileSystem) (place : Place) : Except IoError Path := do
  match ← files.locate place with
  | (_, none) => throw .isADirectory
  | (directory, some name) => do
      if place.dot then let _ ← files.walk directory [name]
      if place.isForDirectory then throw .isADirectory
      if nameTooLong name then throw .nameTooLong
      if files.node? (directory ++ [name]) = some .directory then throw .isADirectory
      return directory ++ [name]

def write (place : Place) (content : Bytes) : EStateM IoError FileSystem Unit := fun files =>
  match files.target place with
  | .ok path => .ok () (files.put path (.file content))
  | .error cause => .error cause files

/-- Makes the directory that names lead to, unless it is there. After a dot it is not made. -/
def makeDirectory (start : Path) (names : List String) (dot : Bool) :
    EStateM IoError FileSystem Unit := fun files =>
  match files.approach start names with
  | .error cause => .error cause files
  | .ok (_, none) => .ok () files
  | .ok (directory, some name) =>
      if nameTooLong name then .error .nameTooLong files
      else
        match files.node? (directory ++ [name]) with
        | some .directory => .ok () files
        | some (.file _) => .error (if dot then .notADirectory else .alreadyExists) files
        | none =>
            if dot then .error .notFound files
            else .ok () (files.put (directory ++ [name]) .directory)

/-- Makes the directory that names lead to. Only if something is missing on the way, the directory
before the last name is made first, and then this one is tried again; `depth` bounds how often. -/
def makeDirectories (start : Path) :
    (depth : Nat) → (names : List String) → (dot : Bool) → EStateM IoError FileSystem Unit
  | 0, names, dot => makeDirectory start names dot
  | depth + 1, names, dot => fun files =>
      match makeDirectory start names dot files with
      | .error .notFound files =>
          (do makeDirectories start depth names.dropLast false
              makeDirectory start names dot) files
      | result => result

def ensureDirectory (place : Place) : EStateM IoError FileSystem Unit := fun files =>
  if place.isTooLong then .error .nameTooLong files
  else
    makeDirectories (files.start place) place.names.length place.names place.dot files

/-! ## Setting up and listing -/

def fresh : FileSystem :=
  ⟨["work"], [(["work"], .directory)]⟩

def plantDirectory (files : FileSystem) (path : Path) : FileSystem :=
  match makeDirectories files.workingDirectory path.length path false files with
  | .ok _ result => result
  | .error _ result => result

def plantFile (files : FileSystem) (path : Path) (content : Bytes) : FileSystem :=
  (files.plantDirectory path.dropLast).put (files.workingDirectory ++ path) (.file content)

/-- The regular files below a directory, by the rest of their paths. -/
def filesBelow (files : FileSystem) (directory : Path) : List (Path × Bytes) :=
  files.nodes.filterMap fun
    | (path, .file content) =>
        if directory.isPrefixOf path && directory.length < path.length then
          some (path.drop directory.length, content)
        else none
    | (_, .directory) => none

end FileSystem

end TagMachine
