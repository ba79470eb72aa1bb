import TagMachine.Command.Execute

/-!
The program itself. It looks at the files that a command can meet, lets the command run on them as
a value, and then makes on the disk the changes that the command made in that value.
-/

namespace TagMachine.Command

def look (path : Path) : IO (Option Node) := do
  let location := (← IO.currentDir) / ("/" ++ "/".intercalate path)
  if ← location.isDir then return some .directory
  if ← location.pathExists then return some (.file (← IO.FS.readBinFile location).toList)
  return none

/-- Takes over from the disk what is found under names on the way down from a directory. A name
that is missing may be made and left again, so the names after it count too. -/
def survey (files : FileSystem) (directory : Path) : List String → IO FileSystem
  | [] => return files
  | ".." :: names => survey files directory.dropLast names
  | name :: names => do
      let path := directory ++ [name]
      match ← look path with
      | none => survey files path names
      | some node => survey (files.put path node) path names

def surveyPlace (files : FileSystem) (text : String) : IO FileSystem :=
  let place := Place.ofText text
  survey files (files.start place) place.names

/-- Takes over the files in a directory that a program can name. -/
def surveyInside (files : FileSystem) (text : String) : IO FileSystem := do
  let files ← surveyPlace files text
  let place := Place.ofText text
  let directory := place.names.foldl
    (fun path name => if name = ".." then path.dropLast else path ++ [name]) (files.start place)
  let location := (← IO.currentDir) / ("/" ++ "/".intercalate directory)
  if !(← location.isDir) then return files
  let names := ((← location.readDir).toList.map (·.fileName)).filter fun name =>
    (Bytes.ofText name).all isAlphanumeric
  names.foldlM (fun files name => survey files directory [name]) files

def surveyWorkingDirectory : IO FileSystem := do
  let names := (← IO.currentDir).components.filter (· != "")
  survey ⟨names, []⟩ [] names

def surveyFor (options : Options) (request : Request) : IO FileSystem := do
  let files ← surveyWorkingDirectory
  let files ← (options.config.toList ++ request.fileNames).foldlM surveyPlace files
  match loadSettings options files with
  | .error _ => return files
  | .ok config =>
      if request.runsProgram && !config.machine.sandboxDir.contains (Char.ofNat 0) then
        surveyInside files config.machine.sandboxDir
      else return files

/-- Brings the disk up to date, oldest change first. -/
def commit (before after : FileSystem) : IO Unit :=
  after.nodes.reverse.forM fun (path, node) => do
    if before.node? path != some node then
      let location := (← IO.currentDir) / ("/" ++ "/".intercalate path)
      match node with
      | .directory => IO.FS.createDirAll location
      | .file content => IO.FS.writeBinFile location ⟨content.toArray⟩

partial def readRest (stream : IO.FS.Stream) (collected : ByteArray) : IO ByteArray := do
  let piece ← stream.read 4096
  if piece.isEmpty then return collected
  readRest stream (collected ++ piece)

end TagMachine.Command

open TagMachine TagMachine.Command in
/-- Runs the command that the arguments ask for. The input is read to its end first. -/
def main (arguments : List String) : IO UInt32 := do
  let (files, input) ←
    match parse arguments with
    | .error _ => pure (⟨[], []⟩, ByteArray.empty)
    | .ok (options, request) => do
        let files ← surveyFor options request
        if request.runsProgram then
          pure (files, ← readRest (← IO.getStdin) ByteArray.empty)
        else pure (files, ByteArray.empty)
  let outcome := execute arguments input.toList files
  commit files outcome.files
  let output ← IO.getStdout
  output.write ⟨outcome.output.toArray⟩
  output.flush
  IO.eprint outcome.report
  return outcome.exitCode
