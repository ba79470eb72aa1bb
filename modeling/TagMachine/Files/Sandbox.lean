import TagMachine.Config
import TagMachine.Files.FileSystem

/-!
The files of a program: flat files in one directory. A file name is made of ASCII letters and
digits only, so none can lead out of that directory.
-/

namespace TagMachine

def isAlphanumeric (byte : UInt8) : Bool :=
  (48 ≤ byte && byte ≤ 57) || (65 ≤ byte && byte ≤ 90) || (97 ≤ byte && byte ≤ 122)

/-- A file name that has passed the check. -/
structure FileName where
  bytes : Bytes
  alphanumeric : bytes.all isAlphanumeric = true
  deriving DecidableEq, Repr

namespace FileName

def ofBytes? (maxLength : Nat) (bytes : Bytes) : Option FileName :=
  if alphanumeric : bytes.all isAlphanumeric = true then
    if bytes.length ≤ maxLength then some ⟨bytes, alphanumeric⟩ else none
  else none

def text (name : FileName) : String :=
  String.ofList (name.bytes.map fun byte => Char.ofNat byte.toNat)

end FileName

namespace Sandbox

/-- The directory that confines a program's files. -/
def root (config : Config) : Place :=
  Place.ofText config.sandboxDir

def ensureRoot (config : Config) : EStateM IoError FileSystem Unit :=
  if config.sandboxDir.contains (Char.ofNat 0) then throw .zeroInPath
  else FileSystem.ensureDirectory (root config)

def fileName (config : Config) (bytes : Bytes) : Except Fault FileName :=
  match FileName.ofBytes? config.maxFileNameLength bytes with
  | some name => .ok name
  | none => .error .invalidFileName

/-- Writes as much of the content as a file may hold. The file is made, or emptied, first: writing
nothing is a failure that leaves it empty. -/
def write (config : Config) (name : FileName) (content : Bytes) :
    EStateM IoError FileSystem Nat := do
  let place := (root config).child name.text
  FileSystem.write place []
  let kept := content.take config.maxFileSize
  if kept.isEmpty then throw .nothingToWrite
  FileSystem.write place kept
  return kept.length

def read (config : Config) (name : FileName) (files : FileSystem) : Except IoError Bytes :=
  files.readUpTo ((root config).child name.text) config.maxFileSize

end Sandbox

end TagMachine
