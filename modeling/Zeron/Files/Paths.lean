import Zeron.Data.Resolution
import Zeron.Files.Source

/-!
# Where the paths of a workspace lead

The checks walk a path component by component, and what follows them hands the path to the
system as it was spelled.  A slash at its end is no component.
-/

namespace Zeron.Files.Paths

open Zeron.Data.Resolution
open WorkspaceFilesError

/-- The disk with its links. -/
abbrev LinkedDisk := Data.Resolution.Tree FileNode

/-- A path as it is spelled, up to repeated separators. -/
structure WorkspaceRelativePath where
  components : Path
  slash : Bool
  deriving DecidableEq

/-- `WorkspaceRelativePath::file`. -/
def WorkspaceRelativePath.file (path : String) :
    Except WorkspaceFilesError WorkspaceRelativePath :=
  (relativePath path).map fun components =>
    { components, slash := decide ((path.toList.splitOn '/').getLast? = some []) }

/-- `WorkspaceRelativePath::directory`. -/
def WorkspaceRelativePath.directory (path : String) :
    Except WorkspaceFilesError WorkspaceRelativePath :=
  if path = "" then .ok { components := [], slash := false }
  else WorkspaceRelativePath.file path

def WorkspaceRelativePath.wirePath (relative : WorkspaceRelativePath) : String :=
  Files.wirePath relative.components

/-- `root.join`. -/
def WorkspaceRelativePath.joined (root : Path) (relative : WorkspaceRelativePath) : Path :=
  root ++ relative.components ++ if relative.slash then ["."] else []

/-! ## Calls of the system -/

def osMessage : OsError → String
  | .notFound => "No such file or directory (os error 2)"
  | .notDirectory => "Not a directory (os error 20)"
  | .tooManyLinks => "Too many levels of symbolic links (os error 40)"

def ioError (reason : OsError) : WorkspaceFilesError :=
  io (osMessage reason)

section

variable (disk : LinkedDisk)

/-- The entry that a path leads to, and its place. -/
def entryAt (followLast : Bool) (path : Path) : Except OsError (Path × Entry FileNode) :=
  match resolve disk followLast path with
  | .error reason => .error reason
  | .ok place =>
      match disk place with
      | none => .error .notFound
      | some entry => .ok (place, entry)

def symlinkMetadata (path : Path) : Except OsError (Path × Entry FileNode) :=
  entryAt disk false path

def canonicalize (path : Path) : Except OsError Path :=
  (entryAt disk true path).map Prod.fst

/-- `fs::read`. -/
def readBytes (path : Path) : Except WorkspaceFilesError (Path × List UInt8) :=
  match entryAt disk true path with
  | .error reason => .error (ioError reason)
  | .ok (place, .file node) => .ok (place, node.bytes)
  | .ok (_, .directory) | .ok (_, .link _) => .error (io "Is a directory (os error 21)")
  | .ok (_, .special) => .error (io "Invalid argument (os error 22)")

/-! ## Checks -/

/-- The loop of `checked_file_metadata`. -/
def checkedComponents : Path → Path → Except WorkspaceFilesError Path
  | current, [] => .ok current
  | current, component :: rest =>
      match symlinkMetadata disk (current ++ [component]) with
      | .error .notFound => .error (notFound "file not found")
      | .error reason => .error (ioError reason)
      | .ok (_, .link _) =>
          .error (unsupported (if rest = [] then "path is a symlink" else "path traverses a symlink"))
      | .ok (_, .directory) =>
          if rest = [] then .error (unsupported "path is not a regular file")
          else checkedComponents (current ++ [component]) rest
      | .ok (_, .file _) =>
          if rest = [] then checkedComponents (current ++ [component]) rest
          else .error (unsupported "file parent is not a directory")
      | .ok (_, .special) =>
          .error (unsupported
            (if rest = [] then "path is not a regular file" else "file parent is not a directory"))

variable (root : Path)

def checkedFileMetadata (relative : WorkspaceRelativePath) :
    Except WorkspaceFilesError (Path × Entry FileNode) := do
  let current ← checkedComponents disk root relative.components
  let canonical ← (canonicalize disk current).mapError ioError
  if ¬ root <+: canonical then throw (authorization "file escaped workspace")
  (symlinkMetadata disk canonical).mapError ioError

/-- The loop of `checked_directory`. -/
def checkedDirectories : Path → Path → Except WorkspaceFilesError Path
  | current, [] => .ok current
  | current, component :: rest =>
      match symlinkMetadata disk (current ++ [component]) with
      | .error reason => .error (ioError reason)
      | .ok (_, .link _) => .error (unsupported "symlink directories cannot be traversed")
      | .ok (_, .directory) => checkedDirectories (current ++ [component]) rest
      | .ok (_, .file _) | .ok (_, .special) =>
          .error (unsupported "directory path is not a directory")

def checkedDirectory (directory : WorkspaceRelativePath) : Except WorkspaceFilesError Path := do
  let canonicalRoot ← (canonicalize disk root).mapError ioError
  let current ← checkedDirectories disk root directory.components
  let canonical ← (canonicalize disk current).mapError ioError
  if ¬ canonicalRoot <+: canonical then throw (authorization "directory escaped workspace")
  return canonical

/-! ## Reads and writes -/

def maxPreviewFileBytes : Nat := 8 * 1024 * 1024

/-- What `read_file_blocking` answers from. -/
def readFile (relative : WorkspaceRelativePath) : Except WorkspaceFilesError Path :=
  let path := relative.joined root
  match checkedFileMetadata disk root relative with
  | .error error =>
      if error = unsupported "path is a symlink" ∨
          error = unsupported "path is not a regular file" then
        ((symlinkMetadata disk path).map Prod.fst).mapError ioError
      else .error error
  | .ok (place, .file node) =>
      if maxPreviewFileBytes < node.bytes.length then .ok place
      else (readBytes disk path).map Prod.fst
  | .ok (place, _) => .ok place

/-- The file that `read_image_blocking` opens, if no other check of the request rejects it. -/
def readImage (relative : WorkspaceRelativePath) : Except WorkspaceFilesError Path := do
  let _ ← checkedFileMetadata disk root relative
  (readBytes disk (relative.joined root)).map Prod.fst

/-- The bytes of `current_write_revision`. -/
def currentWriteRevision (relative : WorkspaceRelativePath) :
    Except WorkspaceFilesError (List UInt8) := do
  let before ← checkedFileMetadata disk root relative
  let length := match before.2 with
    | .file node => node.bytes.length
    | _ => 0
  if maxEditableFileBytes < length then throw (unsupported "file exceeds the editable limit")
  let bytes ← readBytes disk (relative.joined root)
  return bytes.2

/-- The directory of the temporary file of `write_file_blocking` and the place that it is
renamed to, if the current bytes are the ones to be replaced. -/
def writeFile (expected : List UInt8 → Bool) (relative : WorkspaceRelativePath) :
    Except WorkspaceFilesError (Option (Path × Path)) := do
  let bytes ← currentWriteRevision disk root relative
  if expected bytes = false then return none
  let parent := root ++ relative.components.dropLast
  let directory ← (resolve disk true (parent ++ ["."])).mapError ioError
  match relative.components.getLast?, relative.slash with
  | some name, false => return some (directory, directory ++ [name])
  | _, _ => throw (ioError .notDirectory)

/-! ## Moves and deletions -/

inductive WorkspaceEntryKind where
  | directory
  | file
  | symlink
  deriving DecidableEq

/-- `WorkspaceMutationRejection`. -/
inductive Reason where
  | workspaceChanged
  | sourceMissing
  | sourceChanged
  | destinationExists
  | invalidDestination
  | invalidPath
  | unsupported
  | busy
  deriving DecidableEq

structure MoveWorkspaceEntryRequest where
  operationId : String
  sourcePath : String
  destinationPath : String
  expectedSourceRevision : String
  expectedKind : WorkspaceEntryKind
  deriving DecidableEq

structure DeleteWorkspaceEntryRequest where
  operationId : String
  path : String
  expectedSourceRevision : String
  expectedKind : WorkspaceEntryKind
  recursive : Bool
  deriving DecidableEq

def domainError : WorkspaceFilesError → Reason × String
  | badParams message => (.invalidPath, message)
  | authorization message => (.workspaceChanged, message)
  | notFound message => (.sourceMissing, message)
  | unsupported message => (.unsupported, message)
  | io message => (.invalidDestination, message)

def systemError : OsError → Reason × String
  | .notFound => (.sourceMissing, osMessage .notFound)
  | reason => (.invalidDestination, osMessage reason)

def isDirectory : Entry FileNode → Bool
  | .directory => true
  | .file _ | .link _ | .special => false

/-- The directory that holds a path. -/
def WorkspaceRelativePath.parent (relative : WorkspaceRelativePath) : WorkspaceRelativePath where
  components := relative.components.dropLast
  slash := false

section

variable (revision : Entry FileNode → String)

def source (path expected : String) (kind : WorkspaceEntryKind) :
    Except (Reason × String) (WorkspaceRelativePath × Entry FileNode) := do
  let relative ← (WorkspaceRelativePath.file path).mapError domainError
  if relative.wirePath ≠ path then
    throw (.invalidPath, "Path must use canonical workspace-relative spelling")
  let _ ← (checkedDirectory disk root relative.parent).mapError domainError
  let metadata ← (symlinkMetadata disk (relative.joined root)).mapError systemError
  let actual ←
    match metadata.2 with
    | .link _ | .special => throw (.unsupported, "Links and special files cannot be mutated")
    | .directory => pure WorkspaceEntryKind.directory
    | .file _ => pure WorkspaceEntryKind.file
  if actual ≠ kind ∨ expected = "" ∨ revision metadata.2 ≠ expected then
    throw (.sourceChanged, "Entry changed; refresh before trying again")
  return (relative, metadata.2)

/-- The directories that are opened below a place, none of them through a link. -/
def openDirectories : Path → Path → Except OsError Path
  | place, [] => .ok place
  | place, name :: rest =>
      match disk (place ++ [name]) with
      | none => .error .notFound
      | some .directory => openDirectories (place ++ [name]) rest
      | some (.link _) | some (.file _) | some .special => .error .notDirectory

def openParent (relative : WorkspaceRelativePath) : Except OsError Path := do
  let place ← resolve disk false root
  match disk place with
  | some .directory => openDirectories disk place relative.components.dropLast
  | _ => throw .notDirectory

/-- `move_no_replace`: the places that an entry is moved from and to. -/
def moveNoReplace (source destination : WorkspaceRelativePath) :
    Except (Reason × String) (Path × Path) := do
  let fromParent ← (openParent disk root source).mapError systemError
  let toParent ← (openParent disk root destination).mapError systemError
  match source.components.getLast?, destination.components.getLast? with
  | some fromName, some toName =>
      if (disk (fromParent ++ [fromName])).isNone then throw (systemError .notFound)
      if (disk (toParent ++ [toName])).isSome then
        throw (.destinationExists, "File exists (os error 17)")
      return (fromParent ++ [fromName], toParent ++ [toName])
  | _, _ => throw (.invalidDestination, "invalid input parameter")

def moveEntry (cancelled : Bool) (request : MoveWorkspaceEntryRequest) :
    Except (Reason × String) (Path × Path) := do
  if request.operationId = "" ∨ 128 < request.operationId.utf8ByteSize then
    throw (.invalidPath, "Invalid operation identity")
  let (source, metadata) ← source disk root revision request.sourcePath
    request.expectedSourceRevision request.expectedKind
  let destination ← (WorkspaceRelativePath.file request.destinationPath).mapError domainError
  if destination.wirePath ≠ request.destinationPath then
    throw (.invalidPath, "Invalid destination spelling")
  if destination.components = source.components ∨
      (isDirectory metadata ∧ source.components <+: destination.components) then
    throw (.invalidDestination, "Cannot move an entry into itself")
  let _ ← (checkedDirectory disk root destination.parent).mapError domainError
  if cancelled then throw (.busy, "Move cancelled before execution")
  moveNoReplace disk root source destination

/-- `delete_blocking`: the place that is removed, with all that is below it. -/
def deleteEntry (cancelled : Bool) (request : DeleteWorkspaceEntryRequest) :
    Except (Reason × String) Path := do
  if request.operationId = "" ∨ 128 < request.operationId.utf8ByteSize then
    throw (.invalidPath, "Invalid operation identity")
  let (relative, metadata) ← source disk root revision request.path
    request.expectedSourceRevision request.expectedKind
  if isDirectory metadata ∧ request.recursive = false then
    throw (.invalidDestination, "Deleting a folder requires recursive confirmation")
  if cancelled then throw (.busy, "Delete cancelled before execution")
  -- Neither removal follows the last component.
  ((symlinkMetadata disk (relative.joined root)).map Prod.fst).mapError systemError

end

end

end Zeron.Files.Paths
