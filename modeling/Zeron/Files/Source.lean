import Mathlib.Data.List.Infix

/-!
# Workspace files

How a request names a file of a checkout, which bytes are text that can be edited, and the bytes
that a save writes.
-/

namespace Zeron.Files

abbrev Path := List String

/-- `revision` stands for length, time of change, device and inode. -/
structure FileNode where
  revision : Nat
  bytes : List UInt8
  deriving DecidableEq

inductive WorkspaceFilesError where
  | badParams (message : String)
  | authorization (message : String)
  | notFound (message : String)
  | unsupported (message : String)
  | io (message : String)
  deriving DecidableEq

open WorkspaceFilesError

def maxRelativePathBytes : Nat := 4096

def maxRelativePathComponents : Nat := 256

def maxEditableFileBytes : Nat := 1024 * 1024

/-- `eq_ignore_ascii_case` with `.git`. -/
def isGit (component : String) : Bool :=
  decide (component.toList.map Char.toLower = ".git".toList)

/-- `WorkspaceRelativePath::file`. -/
def relativePath (path : String) : Except WorkspaceFilesError Path :=
  let parts := path.toList.splitOn '/'
  let components := parts.filter fun part => decide (part ≠ [])
  if path = "" then .error (badParams "path must not be empty")
  else if maxRelativePathBytes < path.utf8ByteSize then .error (badParams "path is too long")
  else if path.toList.any fun c => decide (c = '\x00' ∨ c = '\\' ∨ c = ':') then
    .error (badParams "path contains an invalid character")
  else if path.toList.head? = some '/' then .error (badParams "path must be workspace-relative")
  else if parts.any fun part => decide (part = ['.'] ∨ part = ['.', '.']) then
    .error (badParams "path must not contain . or ..")
  -- The components are checked one by one, and counted on the way.
  else if (components.take maxRelativePathComponents).any fun part => isGit (String.ofList part) then
    .error (badParams ".git paths are not accessible")
  else if maxRelativePathComponents < components.length then
    .error (badParams "path has too many components")
  else .ok (components.map String.ofList)

/-- `wire_path`. -/
def wirePath (path : Path) : String :=
  String.intercalate "/" path

/-! ## Line endings -/

inductive LineEnding where
  | none
  | lf
  | crlf
  | mixed
  deriving DecidableEq

/-- The pairs, the line feeds and the returns that stand alone. -/
def countLineEndings : List UInt8 → Nat × Nat × Nat
  | [] => (0, 0, 0)
  | 13 :: 10 :: rest =>
      let counts := countLineEndings rest
      (counts.1 + 1, counts.2.1, counts.2.2)
  | byte :: rest =>
      let counts := countLineEndings rest
      if byte = 13 then (counts.1, counts.2.1, counts.2.2 + 1)
      else if byte = 10 then (counts.1, counts.2.1 + 1, counts.2.2)
      else counts

def detectLineEnding (bytes : List UInt8) : LineEnding :=
  match countLineEndings bytes with
  | (0, 0, 0) => .none
  | (0, _, 0) => .lf
  | (_, 0, 0) => .crlf
  | _ => .mixed

def byteOrderMark : List UInt8 := [0xef, 0xbb, 0xbf]

def withoutMark (bytes : List UInt8) : List UInt8 :=
  if byteOrderMark.isPrefixOf bytes then bytes.drop 3 else bytes

/-- `validate_writable_source`. -/
def validateWritableSource (bytes : List UInt8) : Except WorkspaceFilesError Unit :=
  let source := withoutMark bytes
  if 0 ∈ bytes then .error (unsupported "binary files are not writable")
  else if ByteArray.validateUTF8 ⟨source.toArray⟩ = false then
    .error (unsupported "unsupported text encoding is not writable")
  else if detectLineEnding source = .mixed then
    .error (unsupported "mixed line endings are not writable")
  else .ok ()

/-! ## Saves -/

structure WorkspaceTarget where
  chatId : Option String
  spaceId : Option String
  checkoutPath : Option String
  deriving DecidableEq

structure WriteWorkspaceFileRequest where
  target : WorkspaceTarget
  path : String
  expectedCheckoutId : String
  expectedContentHash : String
  text : String
  /-- The lines end with a return and a line feed. -/
  crlf : Bool
  /-- The text is written with a byte order mark. -/
  mark : Bool
  deriving DecidableEq

/-- `encode_write_text`. -/
def encodeWriteText (request : WriteWorkspaceFileRequest) :
    Except WorkspaceFilesError (List UInt8) :=
  let text := request.text.toList
  if '\x00' ∈ text then .error (badParams "write text must not contain NUL bytes")
  else if '\r' ∈ text then .error (badParams "write text must use normalized LF line endings")
  else if request.expectedContentHash = "" then
    .error (badParams "expectedContentHash must not be empty")
  else
    let source := if request.crlf then
        text.flatMap fun c => if c = '\n' then ['\r', '\n'] else [c]
      else text
    let bytes := (if request.mark then byteOrderMark else []) ++
      source.flatMap String.utf8EncodeChar
    if maxEditableFileBytes < bytes.length then
      .error (unsupported "write exceeds the 1048576-byte editable limit")
    else .ok bytes

end Zeron.Files
