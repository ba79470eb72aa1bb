import Mathlib
import TagMachine.Proofs.Files.Isolation

/-!
# The files of a program as a store of contents

Where the root is there, writing to a name replaces what the name leads to and nothing else, however
the writing ends, and reading changes nothing.  Calls in any order are therefore answered as by a
store that knows contents by name alone, in which the last write to a name counts.  A name whose
path is too long a text is an exception: it is never looked at.
-/

namespace TagMachine

/-! ## Texts of slashes -/

namespace Place

/-- A text of slashes alone. -/
def slashes (count : Nat) : String :=
  String.ofList (List.replicate count '/')

theorem utf8Len_replicate_slash (count : Nat) :
    String.utf8Len (List.replicate count '/') = count := by
  induction count with
  | zero => rfl
  | succ count inductionHypothesis =>
      rw [List.replicate_succ, String.utf8Len_cons, inductionHypothesis]
      rfl

theorem utf8ByteSize_slashes (count : Nat) : (slashes count).utf8ByteSize = count := by
  rw [slashes, String.utf8ByteSize_ofList, utf8Len_replicate_slash]

theorem length_ofText (text : String) : (ofText text).length = text.utf8ByteSize := rfl

open String.Pos (Raw)

theorem extract_self (text : String) (place : Raw) : place.extract text place = "" :=
  if_pos (Nat.le_refl _)

theorem splitOnAux_slashes (before after : Nat) (parts : List String) :
    String.splitOnAux (slashes (before + after)) "/" ⟨before⟩ ⟨before⟩ 0 parts =
      parts.reverse ++ List.replicate (after + 1) "" := by
  induction after generalizing before parts with
  | zero =>
      have ended : Raw.atEnd (slashes (before + 0)) ⟨before⟩ = true := by
        simp [Raw.atEnd, utf8ByteSize_slashes]
      rw [String.splitOnAux, if_pos ended, extract_self]
      simp
  | succ after inductionHypothesis =>
      have goesOn : ¬Raw.atEnd (slashes (before + (after + 1))) ⟨before⟩ = true := by
        simp [Raw.atEnd, utf8ByteSize_slashes]
      have parted : List.replicate (before + (after + 1)) '/' =
          List.replicate before '/' ++ '/' :: List.replicate after '/' := by
        rw [List.replicate_add, List.replicate_succ]
      have read : Raw.get (slashes (before + (after + 1))) ⟨before⟩ = '/' := by
        have valid :=
          String.get_of_valid (List.replicate before '/') ('/' :: List.replicate after '/')
        rwa [← parted, utf8Len_replicate_slash] at valid
      have passed : Raw.next (slashes (before + (after + 1))) ⟨before⟩ = ⟨before + 1⟩ := by
        have valid :=
          String.next_of_valid (List.replicate before '/') '/' (List.replicate after '/')
        rwa [← parted, utf8Len_replicate_slash] at valid
      have separator : Raw.get "/" 0 = '/' ∧ Raw.next "/" 0 = ⟨1⟩ ∧ Raw.atEnd "/" ⟨1⟩ = true := by
        decide
      have back : Raw.unoffsetBy ⟨before + 1⟩ ⟨1⟩ = ⟨before⟩ := by
        simp [Raw.unoffsetBy]
      have later := inductionHypothesis (before + 1) ("" :: parts)
      rw [Nat.add_right_comm, Nat.add_assoc] at later
      rw [String.splitOnAux, if_neg goesOn, read, passed, separator.1, separator.2.1,
        beq_self_eq_true, if_pos rfl]
      dsimp only
      rw [if_pos separator.2.2, back, extract_self, later]
      simp [List.replicate_succ]

/-- Slashes part nothing but empty names, so they lead nowhere. -/
theorem names_ofText_slashes (count : Nat) : (ofText (slashes count)).names = [] := by
  have segments : (slashes count).splitOn "/" = List.replicate (count + 1) "" := by
    have parted := splitOnAux_slashes 0 count []
    rw [Nat.zero_add] at parted
    exact parted
  rw [ofText, segments]
  simp

end Place

/-! ## Texts of names -/

namespace FileName

theorem eq_of_ofNat_toNat {left right : UInt8}
    (same : Char.ofNat left.toNat = Char.ofNat right.toNat) : left = right := by
  have smallLeft := left.toNat_lt
  have smallRight := right.toNat_lt
  have codes := congrArg Char.toNat same
  rw [Char.ofNat, dif_pos (Or.inl (by omega)), Char.ofNat, dif_pos (Or.inl (by omega))] at codes
  exact UInt8.toNat_inj.mp codes

theorem text_inj {left right : FileName} : left.text = right.text ↔ left = right := by
  constructor
  · intro same
    have chars := congrArg String.toList same
    rw [text, text, String.toList_ofList, String.toList_ofList] at chars
    rcases left with ⟨left, _⟩
    rcases right with ⟨right, _⟩
    obtain rfl : left = right :=
      List.map_injective_iff.mpr (fun _ _ => eq_of_ofNat_toNat) chars
    rfl
  · rintro rfl
    rfl

theorem utf8Size_of_isAlphanumeric {byte : UInt8} (alphanumeric : isAlphanumeric byte = true) :
    (Char.ofNat byte.toNat).utf8Size = 1 := by
  have small : byte.toNat ≤ 127 := by
    simp only [isAlphanumeric, Bool.or_eq_true, Bool.and_eq_true, decide_eq_true_eq,
      UInt8.le_iff_toNat_le] at alphanumeric
    rcases alphanumeric with (⟨-, least⟩ | ⟨-, least⟩) | ⟨-, least⟩ <;>
      exact Nat.le_trans least (by decide)
  rw [Char.utf8Size_eq_one_iff, UInt32.le_iff_toNat_le, Char.ofNat, dif_pos (Or.inl (by omega))]
  exact small

/-- The text of a name has as many bytes as the name. -/
theorem utf8ByteSize_text (name : FileName) : name.text.utf8ByteSize = name.bytes.length := by
  rcases name with ⟨bytes, alphanumeric⟩
  rw [text, String.utf8ByteSize_ofList]
  induction bytes with
  | nil => rfl
  | cons byte rest inductionHypothesis =>
      simp only [List.all_cons, Bool.and_eq_true] at alphanumeric
      rw [List.map_cons, String.utf8Len_cons, inductionHypothesis alphanumeric.2,
        utf8Size_of_isAlphanumeric alphanumeric.1, List.length_cons]

end FileName

namespace Sandbox

/-- The path of a name is at least as long as that of the directory and the name together. -/
theorem length_add_le_length_child (place : Place) (name : FileName) :
    place.length + name.bytes.length ≤ (place.child name.text).length := by
  have bytes := name.utf8ByteSize_text
  rw [Place.child]
  split
  · rename_i empty
    rw [empty, String.utf8ByteSize_empty] at bytes
    split <;> dsimp only <;> omega
  · split <;> dsimp only <;> omega

/-! ## Calls -/

/-- What is asked of the files of a program. -/
inductive Call
  | write (name : FileName) (content : Bytes)
  | read (name : FileName)
  deriving DecidableEq, Repr

/-- What a call that does not fail answers. -/
inductive Answer
  | wrote (count : Nat)
  | gave (content : Bytes)
  deriving DecidableEq, Repr

/-- The name that a call is about. -/
def Call.name : Call → FileName
  | write name _ => name
  | read name => name

/-- Asks the files. -/
def call (config : Config) : Call → EStateM IoError FileSystem Answer
  | .write name content => do return .wrote (← write config name content)
  | .read name => fun files =>
      match read config name files with
      | .ok content => .ok (.gave content) files
      | .error cause => .error cause files

section Calls

variable {σ : Type}

/-- The answers to calls that are made one after another, whether they fail or not. -/
def answers (ask : Call → EStateM IoError σ Answer) : σ → List Call → List (Except IoError Answer)
  | _, [] => []
  | state, first :: rest =>
      outcomeOf (ask first state) :: answers ask (stateOf (ask first state)) rest

/-- What such calls leave. -/
def afterCalls (ask : Call → EStateM IoError σ Answer) : σ → List Call → σ
  | state, [] => state
  | state, first :: rest => afterCalls ask (stateOf (ask first state)) rest

end Calls

/-! ## Stores of contents -/

/-- The path of a name is too long a text to be looked at. -/
def isOutOfReach (config : Config) (name : FileName) : Bool :=
  ((root config).child name.text).isTooLong

/-- Contents by name. -/
abbrev Store := FileName → Option Bytes

/-- Asks a store. It keeps and gives as much of a content as a file may hold; that nothing is
written is a failure, but one that leaves an empty content. -/
def Store.call (config : Config) : Call → EStateM IoError Store Answer
  | .write name content => fun store =>
      if isOutOfReach config name then .error .nameTooLong store
      else
        let next := Function.update store name (some (content.take config.maxFileSize))
        if content = [] ∨ config.maxFileSize = 0 then .error .nothingToWrite next
        else .ok (.wrote (min content.length config.maxFileSize)) next
  | .read name => fun store =>
      if isOutOfReach config name then .error .nameTooLong store
      else
        match store name with
        | none => .error .notFound store
        | some content => .ok (.gave (content.take config.maxFileSize)) store

/-- The content that calls last write to a name, if they write to it. -/
def lastWritten? (name : FileName) : List Call → Option Bytes
  | [] => none
  | .write other content :: rest =>
      (lastWritten? name rest).or (if other = name then some content else none)
  | .read _ :: rest => lastWritten? name rest

/-- The contents that the files of a program have. -/
def contents (config : Config) (files : FileSystem) : Store := fun name =>
  match child? config files name with
  | some (.file content) => some content
  | _ => none

/-- A name that a file of a program may have, short enough to be looked up, under which there is no
directory. -/
structure IsFileName (config : Config) (files : FileSystem) (name : FileName) : Prop where
  isName : IsChildName config name
  short : name.bytes.length ≤ 255
  notDirectory : child? config files name ≠ some .directory

variable {config : Config} {files after : FileSystem} {name other : FileName}
  {directory : Path} {content : Bytes}

/-! ## A store after calls -/

theorem Store.stateOf_call_read (config : Config) (name : FileName) (store : Store) :
    stateOf (Store.call config (.read name) store) = store := by
  unfold Store.call
  dsimp only
  split
  · rfl
  · split <;> rfl

theorem Store.stateOf_call_write (config : Config) (name : FileName) (content : Bytes)
    (store : Store) :
    stateOf (Store.call config (.write name content) store) =
      if isOutOfReach config name then store
      else Function.update store name (some (content.take config.maxFileSize)) := by
  unfold Store.call
  dsimp only
  split
  · rfl
  · split <;> rfl

/-- The last write to a name counts. -/
theorem Store.afterCalls_apply (reached : isOutOfReach config name = false) (store : Store)
    (calls : List Call) :
    afterCalls (Store.call config) store calls name =
      match lastWritten? name calls with
      | some content => some (content.take config.maxFileSize)
      | none => store name := by
  induction calls generalizing store with
  | nil => rfl
  | cons first rest inductionHypothesis =>
      rw [afterCalls, inductionHypothesis]
      cases first with
      | read other => rw [Store.stateOf_call_read, lastWritten?]
      | write other content =>
          rw [lastWritten?]
          cases lastWritten? name rest with
          | some later => rfl
          | none =>
              rw [Store.stateOf_call_write, Option.none_or]
              by_cases same : other = name
              · rw [if_pos same, same, reached, if_neg Bool.false_ne_true, Function.update_self]
              · rw [if_neg same]
                by_cases outOfReach : isOutOfReach config other = true
                · rw [if_pos outOfReach]
                · rw [if_neg outOfReach, Function.update_of_ne (Ne.symm same)]

/-! ## Looking a name up -/

theorem target_of_isFileName (root : rootPath config files = .ok directory)
    (isFile : IsFileName config files name) :
    files.target ((Sandbox.root config).child name.text) =
      if isOutOfReach config name then .error .nameTooLong
      else .ok (directory ++ [name.text]) := by
  have nameable : FileSystem.nameTooLong name.text = false := by
    simp [FileSystem.nameTooLong, FileName.utf8ByteSize_text, isFile.short]
  rw [target_child isFile.isName.1, root, isOutOfReach]
  simp [Except.bind, nameable, isFile.notDirectory]

/-- What is read is what the store of contents gives. -/
theorem read_eq (root : rootPath config files = .ok directory)
    (isFile : IsFileName config files name) :
    read config name files =
      if isOutOfReach config name then .error .nameTooLong
      else
        match contents config files name with
        | none => .error .notFound
        | some content => .ok (content.take config.maxFileSize) := by
  have nameable : FileSystem.nameTooLong name.text = false := by
    simp [FileSystem.nameTooLong, FileName.utf8ByteSize_text, isFile.short]
  have notDirectory := isFile.notDirectory
  rw [read, FileSystem.readUpTo, find_child isFile.isName.1, standing_of_rootPath root,
    isOutOfReach, contents]
  split
  · rfl
  · rw [nameable]
    cases found : child? config files name with
    | none => rfl
    | some node =>
        cases node with
        | file content => rfl
        | directory => exact absurd found notDirectory

/-! ## One call -/

/-- A call ended as in the store of contents, and has changed nothing but the content of a name that
it wrote to. -/
structure Mirrors (config : Config) (directory : Path) (files : FileSystem) (request : Call)
    (result : EStateM.Result IoError FileSystem Answer) : Prop where
  root : rootPath config (stateOf result) = .ok directory
  outcome : outcomeOf result = outcomeOf (Store.call config request (contents config files))
  contents :
    contents config (stateOf result) = stateOf (Store.call config request (contents config files))
  elsewhere : ∀ path,
    (∀ name content, request = .write name content → path ≠ directory ++ [name.text]) →
      (stateOf result).node? path = files.node? path
  isFileName : ∀ name, IsFileName config files name → IsFileName config (stateOf result) name

theorem mirrors_read (root : rootPath config files = .ok directory)
    (isFile : IsFileName config files name) :
    Mirrors config directory files (.read name) (call config (.read name) files) := by
  have given := read_eq root isFile
  have unchanged : stateOf (call config (.read name) files) = files := by
    rw [call]
    dsimp only
    split <;> rfl
  refine ⟨?_, ?_, ?_, ?_, ?_⟩
  · rw [unchanged, root]
  · rw [call, Store.call]
    dsimp only
    rw [given]
    by_cases outOfReach : isOutOfReach config name = true
    · rw [if_pos outOfReach, if_pos outOfReach]
      rfl
    · rw [if_neg outOfReach, if_neg outOfReach]
      cases contents config files name <;> rfl
  · rw [unchanged, Store.stateOf_call_read]
  · intro path _
    rw [unchanged]
  · intro other isOther
    rwa [unchanged]

/-- A name that is not looked up is not written to. -/
theorem mirrors_write_of_isOutOfReach (root : rootPath config files = .ok directory)
    (isFile : IsFileName config files name) (outOfReach : isOutOfReach config name = true)
    (content : Bytes) :
    Mirrors config directory files (.write name content)
      (call config (.write name content) files) := by
  have refused := target_of_isFileName root isFile
  rw [if_pos outOfReach] at refused
  have failed : call config (.write name content) files = .error .nameTooLong files :=
    bind_of_error (write_of_refused content refused)
  rw [failed]
  refine ⟨root, ?_, ?_, fun _ _ => rfl, fun _ isOther => isOther⟩
  · rw [Store.call]
    dsimp only
    rw [if_pos outOfReach]
    rfl
  · rw [Store.stateOf_call_write, if_pos outOfReach]
    rfl

theorem child?_of_replaced (root : rootPath config files = .ok directory)
    (isFile : IsFileName config files name)
    (replaced : files.Replaced (directory ++ [name.text]) (.file content) after)
    (other : FileName) :
    rootPath config after = .ok directory ∧
      child? config after other =
        if other = name then some (.file content) else child? config files other := by
  have notDirectory := isFile.notDirectory
  rw [child?_of_rootPath root] at notDirectory
  have stillThere := rootPath_of_replaced root notDirectory replaced
  refine ⟨stillThere, ?_⟩
  rw [child?_of_rootPath stillThere, child?_of_rootPath root, replaced.node?]
  simp only [List.append_cancel_left_eq, List.cons.injEq, and_true, FileName.text_inj]

/-- That nothing is left to write is found out when the file has been emptied. -/
theorem exists_call_write {path : Path} (content : Bytes)
    (found : files.target ((root config).child name.text) = .ok path) :
    ∃ after, files.Replaced path (.file (content.take config.maxFileSize)) after ∧
      call config (.write name content) files =
        if content = [] ∨ config.maxFileSize = 0 then .error .nothingToWrite after
        else .ok (.wrote (min content.length config.maxFileSize)) after := by
  rcases exists_write content found with ⟨after, replaced, wrote⟩
  refine ⟨after, replaced, ?_⟩
  have isEmpty_iff : (content.take config.maxFileSize).isEmpty = true ↔
      content = [] ∨ config.maxFileSize = 0 := by
    rw [List.isEmpty_iff, List.take_eq_nil_iff, or_comm]
  simp only [isEmpty_iff] at wrote
  rw [call]
  by_cases nothing : content = [] ∨ config.maxFileSize = 0
  · rw [if_pos nothing] at wrote ⊢
    exact bind_of_error wrote
  · rw [if_neg nothing] at wrote ⊢
    rw [bind_of_ok wrote, List.length_take, min_comm]
    rfl

theorem mirrors_write (root : rootPath config files = .ok directory)
    (isFile : IsFileName config files name) (inReach : isOutOfReach config name = false)
    (content : Bytes) :
    Mirrors config directory files (.write name content)
      (call config (.write name content) files) := by
  have reaches : ¬isOutOfReach config name = true := by
    simp [inReach]
  have found := target_of_isFileName root isFile
  rw [if_neg reaches] at found
  rcases exists_call_write content found with ⟨after, replaced, called⟩
  have kept := child?_of_replaced root isFile replaced
  have left : stateOf (call config (.write name content) files) = after := by
    rw [called]
    split <;> rfl
  refine ⟨?_, ?_, ?_, ?_, ?_⟩
  · rw [left]
    exact (kept name).1
  · rw [called, Store.call]
    dsimp only
    rw [if_neg reaches]
    by_cases nothing : content = [] ∨ config.maxFileSize = 0
    · rw [if_pos nothing, if_pos nothing]
      rfl
    · rw [if_neg nothing, if_neg nothing]
      rfl
  · rw [left, Store.stateOf_call_write, if_neg reaches]
    funext other
    rw [contents, (kept other).2, Function.update_apply]
    by_cases same : other = name
    · rw [if_pos same, if_pos same]
    · rw [if_neg same, if_neg same, contents]
  · intro path apart
    rw [left, replaced.node?, if_neg (apart name content rfl)]
  · intro other isOther
    rw [left]
    refine ⟨isOther.isName, isOther.short, ?_⟩
    rw [(kept other).2]
    split
    · simp
    · exact isOther.notDirectory

theorem mirrors_call (root : rootPath config files = .ok directory) {request : Call}
    (isFile : IsFileName config files request.name) :
    Mirrors config directory files request (call config request files) := by
  cases request with
  | read name => exact mirrors_read root isFile
  | write name content =>
      cases reach : isOutOfReach config name with
      | true => exact mirrors_write_of_isOutOfReach root isFile reach content
      | false => exact mirrors_write root isFile reach content

/-! ## Many calls -/

theorem exists_rootPath (stands : standing config files = .directory) :
    ∃ directory, rootPath config files = .ok directory := by
  have entered := map_rootPath config files
  rw [stands] at entered
  cases found : rootPath config files with
  | ok directory => exact ⟨directory, rfl⟩
  | error cause =>
      rw [found] at entered
      cases entered

theorem answers_eq (root : rootPath config files = .ok directory) {calls : List Call}
    (named : ∀ request ∈ calls, IsFileName config files request.name) :
    answers (call config) files calls =
        answers (Store.call config) (contents config files) calls ∧
      contents config (afterCalls (call config) files calls) =
        afterCalls (Store.call config) (contents config files) calls ∧
      ∀ path, (∀ name content, Call.write name content ∈ calls → path ≠ directory ++ [name.text]) →
        (afterCalls (call config) files calls).node? path = files.node? path := by
  induction calls generalizing files with
  | nil => exact ⟨rfl, rfl, fun _ _ => rfl⟩
  | cons first rest inductionHypothesis =>
      have mirrors := mirrors_call root (named first List.mem_cons_self)
      have namedRest : ∀ request ∈ rest,
          IsFileName config (stateOf (call config first files)) request.name :=
        fun request member => mirrors.isFileName _ (named request (List.mem_cons_of_mem _ member))
      rcases inductionHypothesis mirrors.root namedRest with ⟨answered, left, elsewhere⟩
      rw [answers, answers, afterCalls, afterCalls, answered, left, mirrors.outcome,
        mirrors.contents]
      refine ⟨rfl, rfl, fun path apart => ?_⟩
      rw [elsewhere path fun name content member =>
        apart name content (List.mem_cons_of_mem _ member)]
      refine mirrors.elsewhere path fun name content isFirst => apart name content ?_
      rw [isFirst]
      exact List.mem_cons_self

/-- Where the root is there, its files answer calls as a store of contents does, in which the last
write to a name counts, and nothing changes but what the names written to lead to. -/
theorem last_write_counts (stands : standing config files = .directory) {calls : List Call}
    (named : ∀ request ∈ calls, IsFileName config files request.name) :
    answers (call config) files calls =
        answers (Store.call config) (contents config files) calls ∧
      (∀ name, isOutOfReach config name = false →
        contents config (afterCalls (call config) files calls) name =
          match lastWritten? name calls with
          | some content => some (content.take config.maxFileSize)
          | none => contents config files name) ∧
      ∃ directory, rootPath config files = .ok directory ∧
        ∀ path,
          (∀ name content, Call.write name content ∈ calls → path ≠ directory ++ [name.text]) →
            (afterCalls (call config) files calls).node? path = files.node? path := by
  rcases exists_rootPath stands with ⟨directory, root⟩
  rcases answers_eq root named with ⟨answered, left, elsewhere⟩
  refine ⟨answered, fun name reached => ?_, directory, root, elsewhere⟩
  rw [left, Store.afterCalls_apply reached]

/-- A file longer than a file may be is cut when it is read, a longer content when it is written,
and what holds nothing is read as nothing. -/
theorem last_write_counts_cut :
    let config : Config := { maxFileSize := 2, sandboxDir := "d" }
    let files := (FileSystem.fresh.put ["work", "d"] .directory).put ["work", "d", "h"]
      (.file [1, 2, 3])
    let calls : List Call :=
      [.read ⟨[104], by decide⟩, .write ⟨[104], by decide⟩ [7, 8, 9], .write ⟨[107], by decide⟩ [],
        .read ⟨[104], by decide⟩, .read ⟨[107], by decide⟩, .read ⟨[109], by decide⟩]
    standing config files = .directory ∧
      (∀ request ∈ calls, IsFileName config files request.name) ∧
      answers (call config) files calls =
        [.ok (.gave [1, 2]), .ok (.wrote 2), .error .nothingToWrite, .ok (.gave [7, 8]),
          .ok (.gave []), .error .notFound] := by
  intro config files calls
  have root : rootPath config files = .ok ["work", "d"] := by
    cbv
  have stands := standing_of_rootPath root
  have named : ∀ request ∈ calls, IsFileName config files request.name := by
    intro request member
    refine ⟨⟨?_, ?_⟩, ?_, ?_⟩
    · revert request
      decide
    · revert request
      decide
    · revert request
      decide
    · rw [child?_of_rootPath root]
      revert request
      decide +kernel
  refine ⟨stands, named, ?_⟩
  rw [(last_write_counts stands named).1]
  cbv

/-- A name in a root that is there, under which there is nothing, is neither read as such nor
written to where its path is too long a text. -/
theorem last_write_counts_long :
    let config : Config := { sandboxDir := Place.slashes 4094 }
    let name : FileName := ⟨[97, 98], by decide⟩
    standing config FileSystem.fresh = .directory ∧
      IsFileName config FileSystem.fresh name ∧
      contents config FileSystem.fresh name = none ∧
      read config name FileSystem.fresh = .error .nameTooLong ∧
      write config name [120] FileSystem.fresh = .error .nameTooLong FileSystem.fresh := by
  intro config name
  have root : rootPath config FileSystem.fresh =
      .ok (FileSystem.fresh.start (Sandbox.root config)) := by
    rw [rootPath, Sandbox.root, Place.names_ofText_slashes]
    rfl
  have missing : child? config FileSystem.fresh name = none := by
    rw [child?_of_rootPath root, FileSystem.start]
    split <;> decide +kernel
  have isFile : IsFileName config FileSystem.fresh name :=
    ⟨⟨by decide, by decide⟩, by decide, by simp [missing]⟩
  have outOfReach : isOutOfReach config name = true := by
    have long := length_add_le_length_child (Sandbox.root config) name
    have rootLength : (Sandbox.root config).length = 4094 := by
      rw [Sandbox.root, Place.length_ofText, Place.utf8ByteSize_slashes]
    have nameLength : name.bytes.length = 2 := rfl
    rw [isOutOfReach, Place.isTooLong, decide_eq_true_eq]
    omega
  refine ⟨standing_of_rootPath root, isFile, ?_, ?_, ?_⟩
  · rw [contents, missing]
  · rw [read_eq root isFile, if_pos outOfReach]
  · have refused := target_of_isFileName root isFile
    rw [if_pos outOfReach] at refused
    exact write_of_refused [120] refused

end Sandbox

end TagMachine
