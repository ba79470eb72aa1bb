import Mathlib
import TagMachine.Proofs.Files.Standing
import TagMachine.Proofs.Memory.Loading
import TagMachine.Proofs.Worlds

/-!
# A program meets nothing but the files in its directory

Two trees of files that agree on how the root is found and on its children are the same to every
program, whatever else they hold; and of either tree nothing changes but those children, which are
files of a bounded length when they have changed.
-/

namespace TagMachine

/-- Only what one path leads to has changed. -/
structure FileSystem.Replaced (before : FileSystem) (path : Path) (node : Node)
    (after : FileSystem) : Prop where
  workingDirectory : after.workingDirectory = before.workingDirectory
  node? : ∀ other, after.node? other = if other = path then some node else before.node? other

theorem FileSystem.replaced_put (files : FileSystem) {path : Path} (notTop : path ≠ [])
    (node : Node) : files.Replaced path node (files.put path node) where
  workingDirectory := rfl
  node? other := by
    rw [node?_put]
    by_cases top : other = []
    · rw [if_pos top, if_neg (by rw [top]; exact notTop.symm), top]
      rfl
    · rw [if_neg top]

theorem FileSystem.Replaced.trans {first second third : FileSystem} {path : Path}
    {node last : Node} (once : first.Replaced path node second)
    (again : second.Replaced path last third) : first.Replaced path last third where
  workingDirectory := again.workingDirectory.trans once.workingDirectory
  node? other := by
    rw [again.node?, once.node?]
    split <;> rfl

namespace Sandbox

variable {config : Config} {files after left right initial : FileSystem} {name : FileName}
  {path directory : Path} {node : Node}

/-! ## What a program sees and what it may change -/

/-- The same to a program of these limits. -/
structure SameView (config : Config) (left right : FileSystem) : Prop where
  standing : standing config left = standing config right
  child? : ∀ name, IsChildName config name → child? config left name = child? config right name

/-- The path of a child of the root with a name that a file of a program may have. -/
def IsChild (config : Config) (files : FileSystem) (path : Path) : Prop :=
  ∃ directory name, rootPath config files = .ok directory ∧ IsChildName config name ∧
    path = directory ++ [name.text]

/-- Nothing has changed but children of the root, and those to files of a bounded length. -/
structure Confined (config : Config) (before after : FileSystem) : Prop where
  workingDirectory : after.workingDirectory = before.workingDirectory
  rootPath : rootPath config after = rootPath config before
  unchanged : ∀ path, ¬IsChild config before path → after.node? path = before.node? path
  changed : ∀ path, after.node? path ≠ before.node? path →
    before.node? path ≠ some .directory ∧
      ∃ content, after.node? path = some (.file content) ∧ content.length ≤ config.maxFileSize

theorem confined_refl (config : Config) (files : FileSystem) : Confined config files files where
  workingDirectory := rfl
  rootPath := rfl
  unchanged _ _ := rfl
  changed _ altered := absurd rfl altered

/-! ## A child replaced -/

theorem rootPath_of_replaced (found : rootPath config files = .ok directory)
    (notDirectory : files.node? path ≠ some .directory)
    (replaced : files.Replaced path node after) :
    rootPath config after = .ok directory := by
  have start : after.start (root config) = files.start (root config) := by
    simp only [FileSystem.start, replaced.workingDirectory]
  rw [rootPath, start]
  apply FileSystem.walk_of_keeps _ found
  intro other isDirectory
  rw [replaced.node?, if_neg, isDirectory]
  rintro rfl
  exact notDirectory isDirectory

theorem exists_of_target (found : files.target ((root config).child name.text) = .ok path) :
    name.bytes ≠ [] ∧ ∃ directory, rootPath config files = .ok directory ∧
      path = directory ++ [name.text] ∧ files.node? path ≠ some .directory := by
  by_cases unnamed : name.bytes = []
  · rw [target_child_of_eq_nil unnamed] at found
    split_ifs at found
  · rcases (target_child_eq_ok_iff unnamed).mp found with ⟨-, -, reached⟩
    exact ⟨unnamed, reached⟩

theorem target_of_replaced {content : Bytes}
    (found : files.target ((root config).child name.text) = .ok path)
    (replaced : files.Replaced path (.file content) after) :
    after.target ((root config).child name.text) = .ok path := by
  have named := (exists_of_target found).1
  rw [target_child_eq_ok_iff named] at found ⊢
  rcases found with ⟨short, nameable, directory, root, split, notDirectory⟩
  refine ⟨short, nameable, directory, rootPath_of_replaced root notDirectory replaced, split, ?_⟩
  rw [replaced.node?, if_pos rfl]
  simp

theorem write_of_refused {cause : IoError} (content : Bytes)
    (refused : files.target ((root config).child name.text) = .error cause) :
    write config name content files = .error cause files := by
  have notWritten : FileSystem.write ((root config).child name.text) [] files =
      .error cause files := by
    rw [FileSystem.write, refused]
  rw [write, bind_of_error notWritten]

/-- Writing replaces one file by as much of the content as a file may hold. -/
theorem exists_write (content : Bytes)
    (found : files.target ((root config).child name.text) = .ok path) :
    ∃ after, files.Replaced path (.file (content.take config.maxFileSize)) after ∧
      write config name content files =
        if (content.take config.maxFileSize).isEmpty then .error .nothingToWrite after
        else .ok (content.take config.maxFileSize).length after := by
  rcases exists_of_target found with ⟨-, directory, -, split, -⟩
  have notTop : path ≠ [] := by
    rw [split]
    exact List.concat_ne_nil _ _
  have emptied := files.replaced_put notTop (.file [])
  have written : FileSystem.write ((root config).child name.text) [] files =
      .ok () (files.put path (.file [])) := by
    rw [FileSystem.write, found]
  rw [write, bind_of_ok written]
  dsimp only
  generalize kept_eq : content.take config.maxFileSize = kept
  cases kept with
  | nil => exact ⟨_, emptied, rfl⟩
  | cons byte rest =>
      have again : FileSystem.write ((root config).child name.text) (byte :: rest)
          (files.put path (.file [])) =
            .ok () ((files.put path (.file [])).put path (.file (byte :: rest))) := by
        rw [FileSystem.write, target_of_replaced found emptied]
      refine ⟨_, emptied.trans (FileSystem.replaced_put _ notTop _), ?_⟩
      simp only [List.isEmpty_cons, Bool.false_eq_true, if_false]
      exact bind_of_ok again

/-! ## Views -/

theorem SameView.rootPath (same : SameView config left right) :
    (rootPath config left).map (fun _ => ()) = (rootPath config right).map (fun _ => ()) := by
  rw [map_rootPath, map_rootPath, same.standing]

theorem SameView.target (same : SameView config left right)
    (short : name.bytes.length ≤ config.maxFileNameLength) :
    (left.target ((root config).child name.text)).map (fun _ => ()) =
      (right.target ((root config).child name.text)).map (fun _ => ()) := by
  by_cases unnamed : name.bytes = []
  · rw [target_child_of_eq_nil unnamed, target_child_of_eq_nil unnamed, same.standing]
  · have entered := same.rootPath
    rw [target_child unnamed, target_child unnamed, same.child? name ⟨unnamed, short⟩]
    split
    · rfl
    · cases leftRoot : Sandbox.rootPath config left <;>
        cases rightRoot : Sandbox.rootPath config right <;>
        rw [leftRoot, rightRoot] at entered <;> cases entered
      · rfl
      · dsimp only [Except.bind]
        split_ifs <;> rfl

theorem SameView.read (same : SameView config left right)
    (short : name.bytes.length ≤ config.maxFileNameLength) :
    read config name left = read config name right := by
  have found : left.find ((root config).child name.text) =
      right.find ((root config).child name.text) := by
    by_cases unnamed : name.bytes = []
    · rw [find_child_of_eq_nil unnamed, find_child_of_eq_nil unnamed, same.standing]
    · rw [find_child unnamed, find_child unnamed, same.standing,
        same.child? name ⟨unnamed, short⟩]
  rw [Sandbox.read, Sandbox.read, FileSystem.readUpTo, FileSystem.readUpTo, found]

theorem SameView.replaced {leftPath rightPath : Path} {leftAfter rightAfter : FileSystem}
    (same : SameView config left right)
    (leftFound : left.target ((root config).child name.text) = .ok leftPath)
    (rightFound : right.target ((root config).child name.text) = .ok rightPath)
    (leftReplaced : left.Replaced leftPath node leftAfter)
    (rightReplaced : right.Replaced rightPath node rightAfter) :
    SameView config leftAfter rightAfter := by
  rcases exists_of_target leftFound with ⟨-, leftDirectory, leftRoot, rfl, leftKept⟩
  rcases exists_of_target rightFound with ⟨-, rightDirectory, rightRoot, rfl, rightKept⟩
  have leftStill := rootPath_of_replaced leftRoot leftKept leftReplaced
  have rightStill := rootPath_of_replaced rightRoot rightKept rightReplaced
  constructor
  · rw [standing_of_rootPath leftStill, standing_of_rootPath rightStill]
  · intro other isName
    have before := same.child? other isName
    rw [child?_of_rootPath leftRoot, child?_of_rootPath rightRoot] at before
    rw [child?_of_rootPath leftStill, child?_of_rootPath rightStill, leftReplaced.node?,
      rightReplaced.node?, before]
    simp only [List.append_cancel_left_eq]

theorem Confined.replaced {content : Bytes} (confined : Confined config initial files)
    (short : name.bytes.length ≤ config.maxFileNameLength)
    (found : files.target ((root config).child name.text) = .ok path)
    (replaced : files.Replaced path (.file content) after)
    (bounded : content.length ≤ config.maxFileSize) :
    Confined config initial after := by
  rcases exists_of_target found with ⟨named, directory, root, rfl, notDirectory⟩
  have initialRoot := confined.rootPath.symm.trans root
  refine ⟨replaced.workingDirectory.trans confined.workingDirectory, ?_, ?_, ?_⟩
  · rw [rootPath_of_replaced root notDirectory replaced, initialRoot]
  · intro other outside
    rw [replaced.node?, if_neg, confined.unchanged other outside]
    rintro rfl
    exact outside ⟨directory, name, initialRoot, ⟨named, short⟩, rfl⟩
  · intro other altered
    rw [replaced.node?] at altered ⊢
    by_cases here : other = directory ++ [name.text]
    · rw [if_pos here]
      refine ⟨?_, content, rfl, bounded⟩
      intro wasDirectory
      by_cases same : files.node? other = initial.node? other
      · rw [here] at same wasDirectory
        exact notDirectory (same.trans wasDirectory)
      · exact (confined.changed other same).1 wasDirectory
    · rw [if_neg here] at altered ⊢
      exact confined.changed other altered

/-- What stays true of two trees of files that start as these. -/
structure Isolated (config : Config) (leftInitial rightInitial left right : FileSystem) : Prop where
  view : SameView config left right
  left : Confined config leftInitial left
  right : Confined config rightInitial right

theorem respects_write {leftInitial rightInitial : FileSystem} (content : Bytes)
    (short : name.bytes.length ≤ config.maxFileNameLength) :
    Respects (Isolated config leftInitial rightInitial) (write config name content) := by
  intro left right same
  have targets := same.view.target short
  cases leftFound : left.target ((root config).child name.text) <;>
    cases rightFound : right.target ((root config).child name.text) <;>
    rw [leftFound, rightFound] at targets <;> cases targets
  · rw [write_of_refused content leftFound, write_of_refused content rightFound]
    exact .error same
  · rcases exists_write content leftFound with ⟨leftAfter, leftReplaced, leftWrote⟩
    rcases exists_write content rightFound with ⟨rightAfter, rightReplaced, rightWrote⟩
    have isolated : Isolated config leftInitial rightInitial leftAfter rightAfter :=
      ⟨same.view.replaced leftFound rightFound leftReplaced rightReplaced,
        same.left.replaced short leftFound leftReplaced (List.length_take_le _ _),
        same.right.replaced short rightFound rightReplaced (List.length_take_le _ _)⟩
    rw [leftWrote, rightWrote]
    split
    · exact .error isolated
    · exact .ok isolated

end Sandbox

/-- Trees of files that a program cannot tell apart, and the same input and output. -/
def WorldRelation.isolated (config : Config) (left right : FileSystem) : WorldRelation config where
  input left right := left = right
  output left right := left = right
  files := Sandbox.Isolated config left right
  readLine := Input.respects_readLine_same
  readWord := respects_eq _
  printLine := Output.respects_printLine_same
  writeFile _ content short := Sandbox.respects_write content short
  readFile _ _ _ short same := same.view.read short

/-- Where two trees of files agree on how the root is found and on its children, a machine's run is
the same and leaves the same children.  Nothing else changes in either tree, and what changes ends
as a file of a bounded length. -/
theorem Machine.run_isolated (machine : Machine) {left right : FileSystem}
    (same : Sandbox.SameView machine.config left right) (input : Input) (output : Output) :
    let leftRun := machine.run ⟨input, output, left⟩
    let rightRun := machine.run ⟨input, output, right⟩
    leftRun.1 = rightRun.1 ∧
      leftRun.2.1 = rightRun.2.1 ∧
      leftRun.2.2.input = rightRun.2.2.input ∧
      leftRun.2.2.output = rightRun.2.2.output ∧
      Sandbox.SameView machine.config leftRun.2.2.files rightRun.2.2.files ∧
      Sandbox.Confined machine.config left leftRun.2.2.files ∧
      Sandbox.Confined machine.config right rightRun.2.2.files := by
  intro leftRun rightRun
  have alike : (WorldRelation.isolated machine.config left right).Worlds
      ⟨input, output, left⟩ ⟨input, output, right⟩ :=
    ⟨rfl, rfl, same, Sandbox.confined_refl _ _, Sandbox.confined_refl _ _⟩
  rcases Machine.run_worlds _ alike with ⟨summary, last, ⟨read, printed, files⟩⟩
  exact ⟨summary, last, read, printed, files.view, files.left, files.right⟩

/-- A program that writes a file writes it beside a secret as without one, and leaves the secret. -/
theorem Machine.run_isolated_secret :
    let config : Config := { stackCapacity := 4, programCapacity := 8, sandboxDir := "d" }
    let machine := Machine.loaded config ⟨[22, 1, 104, 20, 30, 32]⟩
    let plain := FileSystem.fresh.put ["work", "d"] .directory
    let withSecret := plain.put ["work", "secret"] (.file [115])
    let plainRun := machine.run ⟨Input.ofBytes [], Output.unbounded, plain⟩
    let secretRun := machine.run ⟨Input.ofBytes [], Output.unbounded, withSecret⟩
    Sandbox.SameView config plain withSecret ∧
      plainRun.1 = secretRun.1 ∧
      plainRun.2.1 = secretRun.2.1 ∧
      plainRun.2.2.output = secretRun.2.2.output ∧
      Sandbox.SameView config plainRun.2.2.files secretRun.2.2.files ∧
      plainRun.2.2.files.node? ["work", "d", "h"] = some (.file [104]) ∧
      secretRun.2.2.files.node? ["work", "secret"] = some (.file [115]) := by
  intro config machine plain withSecret plainRun secretRun
  have plainRoot : Sandbox.rootPath config plain = .ok ["work", "d"] := by
    cbv
  have secretRoot : Sandbox.rootPath config withSecret = .ok ["work", "d"] := by
    cbv
  have same : Sandbox.SameView config plain withSecret := by
    constructor
    · rw [Sandbox.standing_of_rootPath plainRoot, Sandbox.standing_of_rootPath secretRoot]
    · intro name _
      rw [Sandbox.child?_of_rootPath plainRoot, Sandbox.child?_of_rootPath secretRoot,
        FileSystem.node?_put plain, if_neg (by simp), if_neg (by simp)]
  rcases machine.run_isolated same (Input.ofBytes []) Output.unbounded with
    ⟨summary, last, -, printed, files, -, right⟩
  refine ⟨same, summary, last, printed, files, by cbv, ?_⟩
  rw [right.unchanged]
  · rfl
  · rintro ⟨directory, name, found, -, path⟩
    obtain rfl := Except.ok.inj (secretRoot.symm.trans found)
    simp at path

/-- That the root is missing from both trees does not make them the same to a program: what writing
the empty name comes to depends on whether the directory that the root should lie in is there. -/
theorem Machine.run_isolated_missing :
    let config : Config := { stackCapacity := 4, programCapacity := 8, sandboxDir := "a/b" }
    let machine := Machine.loaded config ⟨[22, 1, 120, 22, 0, 30]⟩
    let bare := FileSystem.fresh
    let begun := bare.put ["work", "a"] .directory
    config.Valid ∧
      (Sandbox.standing config bare).kind = .missing ∧
      (Sandbox.standing config begun).kind = .missing ∧
      (∀ name, Sandbox.child? config bare name = Sandbox.child? config begun name) ∧
      (machine.run ⟨Input.ofBytes [], Output.unbounded, bare⟩).1 =
        ⟨.fault (.io .notFound), 3⟩ ∧
      (machine.run ⟨Input.ofBytes [], Output.unbounded, begun⟩).1 =
        ⟨.fault (.io .isADirectory), 3⟩ := by
  intro config machine bare begun
  have bareRoot : Sandbox.rootPath config bare = .error .notFound := by
    cbv
  have begunRoot : Sandbox.rootPath config begun = .error .notFound := by
    cbv
  refine ⟨by constructor <;> decide, by cbv, by cbv, ?_, by cbv, by cbv⟩
  intro name
  rw [Sandbox.child?, Sandbox.child?, bareRoot, begunRoot]

end TagMachine
