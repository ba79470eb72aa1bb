import Mathlib.Data.List.Basic
import TagMachine.Files.Sandbox

/-!
# The directory of a program's files

A file name is looked up in two stages: the names of the root lead to a directory, and in that
directory the name is a child.  How the root is found, and what its child of a name is, decide what
reading and writing that name come to.
-/

namespace TagMachine

namespace FileSystem

variable {files left right : FileSystem} {directory found : Path} {names : List String}

/-! ## Walks -/

theorem walk_append (files : FileSystem) (directory : Path) (names more : List String) :
    files.walk directory (names ++ more) =
      (files.walk directory names).bind fun found => files.walk found more := by
  fun_induction walk files directory names with
  | case1 directory => rfl
  | case2 directory names inductionHypothesis =>
      rw [List.cons_append, walk, inductionHypothesis]
  | case3 directory name names notUp tooLong =>
      rw [List.cons_append, walk.eq_3 _ _ _ _ notUp, if_pos tooLong]
      rfl
  | case4 directory name names notUp short missing =>
      rw [List.cons_append, walk.eq_3 _ _ _ _ notUp, if_neg short, missing]
      rfl
  | case5 directory name names notUp short content isFile =>
      rw [List.cons_append, walk.eq_3 _ _ _ _ notUp, if_neg short, isFile]
      rfl
  | case6 directory name names notUp short isDirectory inductionHypothesis =>
      rw [List.cons_append, walk.eq_3 _ _ _ _ notUp, if_neg short, isDirectory,
        inductionHypothesis]

/-- A walk that arrives passes through directories alone, so it arrives wherever these are kept. -/
theorem walk_of_keeps
    (keeps : ∀ path, left.node? path = some .directory → right.node? path = some .directory)
    (arrives : left.walk directory names = .ok found) :
    right.walk directory names = .ok found := by
  fun_induction walk left directory names with
  | case1 directory => exact arrives
  | case2 directory names inductionHypothesis =>
      rw [walk]
      exact inductionHypothesis arrives
  | case3 | case4 | case5 => cases arrives
  | case6 directory name names notUp short isDirectory inductionHypothesis =>
      rw [walk.eq_3 _ _ _ _ notUp, if_neg short, keeps _ isDirectory]
      exact inductionHypothesis arrives

theorem approach_concat_up (files : FileSystem) (start : Path) (names : List String) :
    files.approach start (names ++ [".."]) =
      (files.walk start (names ++ [".."])).map (·, none) := by
  rw [approach, List.getLast?_concat]
  rfl

theorem approach_concat (files : FileSystem) (start : Path) (names : List String) {last : String}
    (notUp : last ≠ "..") :
    files.approach start (names ++ [last]) = (files.walk start names).map (·, some last) := by
  rw [approach, List.getLast?_concat, List.dropLast_concat]
  split
  · rename_i nothing
    cases nothing
  · rename_i up
    exact absurd (Option.some.inj up) notUp
  · rename_i same
    rw [Option.some.inj same]

theorem of_approach {start : Path} {last : String}
    (reached : files.approach start names = .ok (directory, some last)) :
    names.getLast? = some last ∧ last ≠ ".." := by
  rcases names.eq_nil_or_concat' with rfl | ⟨before, final, rfl⟩
  · cases reached
  · by_cases up : final = ".."
    · rw [up, approach_concat_up] at reached
      cases arrived : files.walk start (before ++ [".."]) <;> rw [arrived] at reached <;>
        cases reached
    · rw [approach_concat _ _ _ up] at reached
      cases arrived : files.walk start before <;> rw [arrived] at reached <;> cases reached
      exact ⟨List.getLast?_concat, up⟩

/-- A place for a directory alone is found by walking on to it. -/
theorem find_of_locate {place : Place} {last : String} (notUp : last ≠ "..")
    (forDirectory : place.isForDirectory = true)
    (located : files.locate place = .ok (directory, some last)) :
    files.find place = (files.walk directory [last]).map fun _ => .directory := by
  rw [find, located, walk.eq_3 _ _ _ _ notUp]
  by_cases long : nameTooLong last = true
  · simp [bind, Except.bind, Except.map, long, throw, throwThe, MonadExceptOf.throw]
  · simp only [bind, Except.bind, long, forDirectory]
    cases files.node? (directory ++ [last]) with
    | none => rfl
    | some node => cases node <;> rfl

theorem target_of_locate {place : Place} {last : String}
    (forDirectory : place.isForDirectory = true)
    (located : files.locate place = .ok (directory, some last)) :
    files.target place =
      if place.dot then (files.walk directory [last]).bind fun _ => .error .isADirectory
      else .error .isADirectory := by
  rw [target, located, forDirectory]
  by_cases dot : place.dot = true
  · rw [if_pos dot]
    simp only [bind, Except.bind, dot, if_true]
    cases files.walk directory [last] <;> rfl
  · rw [if_neg dot]
    simp only [bind, Except.bind, dot]
    rfl

end FileSystem

/-! ## Names of children -/

namespace FileName

theorem eq_of_ofNat_eq_dot {byte : UInt8} (isDot : Char.ofNat byte.toNat = '.') : byte = 46 := by
  have small := byte.toNat_lt
  have same := congrArg Char.toNat isDot
  rw [Char.ofNat, dif_pos (Or.inl (by omega))] at same
  exact UInt8.toNat_inj.mp same

theorem text_ne_up (name : FileName) : name.text ≠ ".." := by
  intro up
  have chars : name.bytes.map (fun byte => Char.ofNat byte.toNat) = ['.', '.'] := by
    have same := congrArg String.toList up
    rwa [text, String.toList_ofList] at same
  cases bytes : name.bytes with
  | nil => simp [bytes] at chars
  | cons byte rest =>
      rw [bytes, List.map_cons, List.cons.injEq] at chars
      have alphanumeric := List.all_eq_true.mp name.alphanumeric byte (by simp [bytes])
      obtain rfl := eq_of_ofNat_eq_dot chars.1
      revert alphanumeric
      decide

theorem text_eq_empty_iff (name : FileName) : name.text = "" ↔ name.bytes = [] := by
  rw [text, String.ofList_eq_empty_iff, List.map_eq_nil_iff]

end FileName

namespace Sandbox

/-- A name that a file of a program may have. -/
def IsChildName (config : Config) (name : FileName) : Prop :=
  name.bytes ≠ [] ∧ name.bytes.length ≤ config.maxFileNameLength

/-! ## The root -/

/-- What is found where the root should be. It is missing where the directory that it should lie in
is there and it is not, and unreachable where the way to it breaks off earlier: to write the root
itself then fails otherwise than where the root alone is missing. -/
inductive Standing
  | directory
  | file
  | missing
  | unreachable (cause : IoError)
  deriving DecidableEq, Repr

/-- What is found where a root should be, when the ways in which nothing is found are not told
apart. -/
inductive RootKind
  | directory
  | file
  | missing
  deriving DecidableEq, Repr

def Standing.kind : Standing → RootKind
  | directory => .directory
  | file => .file
  | missing | unreachable _ => .missing

/-- How the root is found. -/
def standing (config : Config) (files : FileSystem) : Standing :=
  match files.approach (files.start (root config)) (root config).names with
  | .error cause => .unreachable cause
  | .ok (_, none) => .directory
  | .ok (directory, some name) =>
      if FileSystem.nameTooLong name then .missing
      else
        match files.node? (directory ++ [name]) with
        | none => .missing
        | some (.file _) => .file
        | some .directory => .directory

/-- Where the names of the root lead. -/
def rootPath (config : Config) (files : FileSystem) : Except IoError Path :=
  files.walk (files.start (root config)) (root config).names

/-- The last name of the root is never looked up. -/
def isRootUnnameable (config : Config) : Bool :=
  (root config).names.getLast?.any FileSystem.nameTooLong

/-- Whether a root that is found so leads to a directory, and why not. -/
def Standing.entry (config : Config) : Standing → Except IoError Unit
  | directory => .ok ()
  | file => .error .notADirectory
  | missing => .error (if isRootUnnameable config then .nameTooLong else .notFound)
  | unreachable cause => .error cause

theorem map_walk_last {config : Config} {files : FileSystem} {directory : Path} {last : String}
    (reached : files.approach (files.start (root config)) (root config).names =
      .ok (directory, some last)) :
    (files.walk directory [last]).map (fun _ => ()) = (standing config files).entry config := by
  rcases FileSystem.of_approach reached with ⟨isLast, notUp⟩
  have unnameable : isRootUnnameable config = FileSystem.nameTooLong last := by
    rw [isRootUnnameable, isLast]
    rfl
  rw [standing, reached, FileSystem.walk.eq_3 _ _ _ _ notUp]
  by_cases long : FileSystem.nameTooLong last = true
  · simp [long, unnameable, Standing.entry, Except.map]
  · dsimp only
    rw [if_neg long, if_neg long]
    cases files.node? (directory ++ [last]) with
    | none => simp [long, unnameable, Standing.entry, Except.map]
    | some node => cases node <;> rfl

theorem standing_ne_unreachable {config : Config} {files : FileSystem} {directory : Path}
    {last : String}
    (reached : files.approach (files.start (root config)) (root config).names =
      .ok (directory, some last)) (cause : IoError) :
    standing config files ≠ .unreachable cause := by
  rw [standing, reached]
  dsimp only
  split
  · simp
  · split <;> simp

theorem map_rootPath (config : Config) (files : FileSystem) :
    (rootPath config files).map (fun _ => ()) = (standing config files).entry config := by
  rcases (root config).names.eq_nil_or_concat' with none | ⟨before, last, split⟩
  · rw [rootPath, standing, none]
    rfl
  · by_cases up : last = ".."
    · rw [rootPath, standing, split, up, FileSystem.approach_concat_up]
      cases files.walk (files.start (root config)) (before ++ [".."]) <;> rfl
    · have approached := FileSystem.approach_concat files (files.start (root config)) before up
      rw [← split] at approached
      rw [rootPath, split, FileSystem.walk_append]
      cases arrived : files.walk (files.start (root config)) before with
      | error cause =>
          rw [arrived] at approached
          rw [standing, approached]
          rfl
      | ok directory =>
          rw [arrived] at approached
          exact map_walk_last approached

theorem standing_of_rootPath {config : Config} {files : FileSystem} {directory : Path}
    (found : rootPath config files = .ok directory) : standing config files = .directory := by
  have entered := map_rootPath config files
  rw [found] at entered
  cases stands : standing config files <;> rw [stands] at entered <;> cases entered

/-! ## Children of the root -/

/-- What the root holds under a name. -/
def child? (config : Config) (files : FileSystem) (name : FileName) : Option Node :=
  match rootPath config files with
  | .ok directory => files.node? (directory ++ [name.text])
  | .error _ => none

section Child

variable {config : Config} {files : FileSystem} {name : FileName} {directory path : Path}

theorem child?_of_rootPath (found : rootPath config files = .ok directory) :
    child? config files name = files.node? (directory ++ [name.text]) := by
  rw [child?, found]

theorem child_of_ne_nil (config : Config) (files : FileSystem) (named : name.bytes ≠ []) :
    ((root config).child name.text).isNothing = false ∧
      ((root config).child name.text).isForDirectory = false ∧
      ((root config).child name.text).dot = false ∧
      ((root config).child name.text).names = (root config).names ++ [name.text] ∧
      files.start ((root config).child name.text) = files.start (root config) := by
  have written : name.text ≠ "" := mt (FileName.text_eq_empty_iff name).mp named
  have bytes : name.text.utf8ByteSize ≠ 0 := by
    rwa [ne_eq, String.utf8ByteSize_eq_zero_iff]
  simp [Place.child, Place.isNothing, Place.isForDirectory, FileSystem.start, written]

theorem locate_child (named : name.bytes ≠ []) :
    files.locate ((root config).child name.text) =
      if ((root config).child name.text).isTooLong then .error .nameTooLong
      else (rootPath config files).map (·, some name.text) := by
  rcases child_of_ne_nil config files named with
    ⟨something, -, -, names, start⟩
  rw [FileSystem.locate, something, names, start,
    FileSystem.approach_concat _ _ _ name.text_ne_up]
  rfl

theorem find_child (named : name.bytes ≠ []) :
    files.find ((root config).child name.text) =
      if ((root config).child name.text).isTooLong then .error .nameTooLong
      else ((standing config files).entry config).bind fun _ =>
        if FileSystem.nameTooLong name.text then .error .nameTooLong
        else
          match child? config files name with
          | none => .error .notFound
          | some node => .ok node := by
  rw [FileSystem.find, locate_child named, ← map_rootPath, child?]
  by_cases tooLong : ((root config).child name.text).isTooLong = true
  · rw [if_pos tooLong, if_pos tooLong]
    rfl
  · rw [if_neg tooLong, if_neg tooLong]
    cases rootPath config files with
    | error cause => rfl
    | ok directory =>
        rcases child_of_ne_nil config files named with
          ⟨-, notForDirectory, -⟩
        by_cases long : FileSystem.nameTooLong name.text = true
        · simp only [Except.map, Except.bind, bind, long, if_true]
          rfl
        · simp only [Except.map, Except.bind, bind, long, notForDirectory]
          cases files.node? (directory ++ [name.text]) with
          | none => rfl
          | some node => cases node <;> rfl

theorem child_of_eq_nil (config : Config) (files : FileSystem) (unnamed : name.bytes = []) :
    ((root config).child name.text).isNothing = (root config).isNothing ∧
      ((root config).child name.text).slash = !(root config).isNothing ∧
      ((root config).child name.text).dot = (root config).dot ∧
      ((root config).child name.text).names = (root config).names ∧
      files.start ((root config).child name.text) = files.start (root config) := by
  have written : name.text = "" := (FileName.text_eq_empty_iff name).mpr unnamed
  refine ⟨?_, ?_, ?_, ?_, ?_⟩ <;> simp only [Place.child, written, if_true]
  · simp only [Place.isNothing]
    grind
  · rfl

theorem isForDirectory_child (unnamed : name.bytes = [])
    (something : (root config).isNothing ≠ true) :
    ((root config).child name.text).isForDirectory = true := by
  rcases child_of_eq_nil config ⟨[], []⟩ unnamed with ⟨-, slash, -⟩
  simp [Place.isForDirectory, slash, something]

theorem locate_child_of_eq_nil (config : Config) (files : FileSystem)
    (unnamed : name.bytes = []) :
    files.locate ((root config).child name.text) =
      if ((root config).child name.text).isTooLong then .error .nameTooLong
      else if (root config).isNothing then .error .notFound
      else files.approach (files.start (root config)) (root config).names := by
  rcases child_of_eq_nil config files unnamed with
    ⟨nothing, -, -, names, start⟩
  rw [FileSystem.locate, nothing, names, start]

/-- What is found under the empty name is the root. -/
theorem find_child_of_eq_nil (unnamed : name.bytes = []) :
    files.find ((root config).child name.text) =
      if ((root config).child name.text).isTooLong then .error .nameTooLong
      else if (root config).isNothing then .error .notFound
      else ((standing config files).entry config).map fun _ => .directory := by
  have located := locate_child_of_eq_nil config files unnamed
  by_cases tooLong : ((root config).child name.text).isTooLong = true
  · rw [if_pos tooLong] at located ⊢
    rw [FileSystem.find, located]
    rfl
  · by_cases nothing : (root config).isNothing = true
    · rw [if_neg tooLong, if_pos nothing] at located ⊢
      rw [FileSystem.find, located]
      rfl
    · rw [if_neg tooLong, if_neg nothing] at located ⊢
      cases approached : files.approach (files.start (root config)) (root config).names with
      | error cause =>
          rw [FileSystem.find, located, standing, approached]
          rfl
      | ok reached =>
          rcases reached with ⟨directory, _ | last⟩
          · rw [FileSystem.find, located, standing, approached]
            rfl
          · rw [approached] at located
            rw [FileSystem.find_of_locate (FileSystem.of_approach approached).2
              (isForDirectory_child unnamed nothing) located, ← map_walk_last approached]
            cases files.walk directory [last] <;> rfl

/-- The path of a file to be written is that of a child that is no directory. -/
theorem target_child (named : name.bytes ≠ []) :
    files.target ((root config).child name.text) =
      if ((root config).child name.text).isTooLong then .error .nameTooLong
      else (rootPath config files).bind fun directory =>
        if FileSystem.nameTooLong name.text then .error .nameTooLong
        else if child? config files name = some .directory then .error .isADirectory
        else .ok (directory ++ [name.text]) := by
  rcases child_of_ne_nil config files named with
    ⟨-, notForDirectory, noDot, -⟩
  rw [FileSystem.target, locate_child named, notForDirectory, noDot]
  by_cases tooLong : ((root config).child name.text).isTooLong = true
  · rw [if_pos tooLong, if_pos tooLong]
    rfl
  · rw [if_neg tooLong, if_neg tooLong]
    cases found : rootPath config files with
    | error cause => rfl
    | ok directory =>
        rw [child?_of_rootPath found]
        by_cases long : FileSystem.nameTooLong name.text = true
        · simp [Except.map, Except.bind, bind, long, throw, throwThe, MonadExceptOf.throw]
        · by_cases isDirectory : files.node? (directory ++ [name.text]) = some .directory
          · simp [Except.map, Except.bind, bind, long, isDirectory, throw, throwThe,
              MonadExceptOf.throw]
          · simp [Except.map, Except.bind, bind, long, isDirectory, pure, Except.pure]

theorem target_child_eq_ok_iff (named : name.bytes ≠ []) :
    files.target ((root config).child name.text) = .ok path ↔
      ((root config).child name.text).isTooLong = false ∧
        FileSystem.nameTooLong name.text = false ∧
        ∃ directory, rootPath config files = .ok directory ∧ path = directory ++ [name.text] ∧
          files.node? path ≠ some .directory := by
  rw [target_child named]
  cases tooLong : ((root config).child name.text).isTooLong with
  | true => simp
  | false =>
      cases root : rootPath config files with
      | error cause => simp [Except.bind]
      | ok directory =>
          rw [child?_of_rootPath root]
          cases long : FileSystem.nameTooLong name.text with
          | true => simp [Except.bind]
          | false =>
              simp only [Except.bind]
              grind

/-- Why the root itself cannot be written, by how it is found. -/
def Standing.refusal (config : Config) : Standing → IoError
  | unreachable cause => cause
  | stands =>
      if (root config).dot then
        match stands.entry config with
        | .error cause => cause
        | .ok _ => .isADirectory
      else .isADirectory

theorem target_child_of_eq_nil (unnamed : name.bytes = []) :
    files.target ((root config).child name.text) =
      if ((root config).child name.text).isTooLong then .error .nameTooLong
      else if (root config).isNothing then .error .notFound
      else .error ((standing config files).refusal config) := by
  have located := locate_child_of_eq_nil config files unnamed
  by_cases tooLong : ((root config).child name.text).isTooLong = true
  · rw [if_pos tooLong] at located ⊢
    rw [FileSystem.target, located]
    rfl
  · by_cases nothing : (root config).isNothing = true
    · rw [if_neg tooLong, if_pos nothing] at located ⊢
      rw [FileSystem.target, located]
      rfl
    · rw [if_neg tooLong, if_neg nothing] at located ⊢
      cases approached : files.approach (files.start (root config)) (root config).names with
      | error cause =>
          rw [FileSystem.target, located, standing, approached]
          rfl
      | ok reached =>
          rcases reached with ⟨directory, _ | last⟩
          · rw [FileSystem.target, located, standing, approached]
            simp only [Standing.refusal, Standing.entry, ite_self]
            rfl
          · rcases child_of_eq_nil config files unnamed with ⟨-, -, dot, -⟩
            have walked := map_walk_last approached
            have reachable := standing_ne_unreachable approached
            rw [approached] at located
            rw [FileSystem.target_of_locate (isForDirectory_child unnamed nothing) located, dot]
            generalize standing config files = stands at walked reachable
            cases stands with
            | unreachable cause => exact absurd rfl (reachable cause)
            | directory | file | missing =>
                dsimp only [Standing.refusal]
                rw [← walked]
                split
                · cases files.walk directory [last] <;> rfl
                · rfl

end Child

end Sandbox

end TagMachine
