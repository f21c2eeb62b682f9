import Zeron.Data.Assoc
import Zeron.Data.SortBy
import Zeron.Files.Source

/-!
# Watched files

The events of a burst are folded into one change for each path.  A rename is kept under its
new path.
-/

namespace Zeron.Files

open Zeron.Data

/-- The name of a file as the system has it. -/
inductive OsName where
  | utf8 (name : String)
  | other (bytes : List UInt8)
  deriving DecidableEq

inductive RenameMode where
  | any
  | to
  | from
  | both
  | other
  deriving DecidableEq

inductive ModifyKind where
  | any
  | data
  | metadata
  | name (mode : RenameMode)
  | other
  deriving DecidableEq

inductive EventKind where
  | any
  | access
  | create
  | modify (kind : ModifyKind)
  | remove
  | other
  deriving DecidableEq

/-- `notify::Event`. -/
structure WatchEvent where
  kind : EventKind
  paths : List (List OsName)
  deriving DecidableEq

inductive WorkspaceFileChangeKind where
  | created
  | modified
  | removed
  | renamed
  deriving DecidableEq

structure WorkspaceFileChange where
  operationId : Option String
  kind : WorkspaceFileChangeKind
  path : String
  oldPath : Option String
  deriving DecidableEq

def watchChangePriority : WorkspaceFileChangeKind → Nat
  | .modified => 0
  | .created => 1
  | .renamed => 2
  | .removed => 3

/-- `OsStr::to_str`. -/
def OsName.toStr : OsName → Option String
  | .utf8 name => some name
  | .other _ => none

def containsGitComponent (path : List OsName) : Bool :=
  path.any fun component => component.toStr.any isGit

def pathToWire (path : List OsName) : Option String :=
  (path.mapM OsName.toStr).map wirePath

def isInternalTempWirePath (path : String) : Bool :=
  let name := ((path.toList.splitOn '/').getLast?).getD []
  ".zeron-save-".toList.isPrefixOf name && ".tmp".toList.isSuffixOf name

section

variable (root : List OsName)

def normalizeWatchPathIncludingTemp (path : List OsName) : Option String := do
  let relative ← path.dropPrefix? root
  if relative = [] ∨ containsGitComponent relative then none
  else pathToWire relative

def normalizeWatchPath (path : List OsName) : Option String := do
  let path ← normalizeWatchPathIncludingTemp root path
  if isInternalTempWirePath path then none else some path

/-- What an event says of each of its paths. -/
def changeKindOf : EventKind → Option WorkspaceFileChangeKind
  | .create | .modify (.name .to) => some .created
  | .remove | .modify (.name .from) => some .removed
  | .modify _ | .any | .other => some .modified
  | .access => none

abbrev Changes := List (String × WorkspaceFileChange)

def WorkspaceFileChange.plain (kind : WorkspaceFileChangeKind) (path : String) :
    WorkspaceFileChange where
  operationId := none
  kind := kind
  path := path
  oldPath := none

/-- A change of one path is folded into those before it. -/
def foldChange (changes : Changes) (kind : WorkspaceFileChangeKind) (path : String) : Changes :=
  let incoming := WorkspaceFileChange.plain kind path
  match changes.lookup path with
  | some existing =>
      -- A file that is removed and made again exists again.
      if existing.kind = .removed ∧ kind = .created then Assoc.put changes path incoming
      else if watchChangePriority kind < watchChangePriority existing.kind then changes
      else Assoc.put changes path incoming
  | none => Assoc.put changes path incoming

/-- A rename that is reported at once. -/
def foldRename (changes : Changes) (oldPath path : String) : Changes :=
  if isInternalTempWirePath oldPath then
    Assoc.put changes path (WorkspaceFileChange.plain .modified path)
  else
    Assoc.put changes path
      { operationId := none, kind := .renamed, path, oldPath := some oldPath }

/-- The body of the loop over the events of a burst. -/
def foldWatchEvent (state : Bool × Changes) : Except String WatchEvent → Bool × Changes
  | .error _ => (true, state.2)
  | .ok { kind := .modify (.name .both), paths := first :: second :: rest } =>
      let path := (second :: rest).getLast?.bind (normalizeWatchPath root)
      match normalizeWatchPathIncludingTemp root first, path with
      | some oldPath, some path => (state.1, foldRename state.2 oldPath path)
      | _, _ => state
  | .ok event =>
      match changeKindOf event.kind with
      | none => state
      | some kind =>
          (state.1, event.paths.foldl (fun changes path =>
            match normalizeWatchPath root path with
            | none => changes
            | some path => foldChange changes kind path) state.2)

def normalizeWatchEvents (events : List (Except String WatchEvent)) :
    Bool × List WorkspaceFileChange :=
  let state := events.foldl (foldWatchEvent root) (false, [])
  (state.1, sortBy WorkspaceFileChange.path (state.2.map Prod.snd))

end

/-! ## What a burst reports -/

/-- How a rename is reported. -/
inductive RenameReport where
  | both
  | fromTo
  deriving DecidableEq

/-- An operation on the files of a workspace, which are known by their wire paths. -/
inductive FileOp (α : Type) where
  | create (path : String) (content : α)
  | modify (path : String) (content : α)
  | remove (path : String)
  | rename (report : RenameReport) (oldPath path : String)

abbrev Tree (α : Type) := String → Option α

variable {α : Type}

/-- The tree after an operation that can be done. -/
def FileOp.apply (tree : Tree α) : FileOp α → Option (Tree α)
  | .create path content =>
      if (tree path).isNone then some (Function.update tree path (some content)) else none
  | .modify path content =>
      if (tree path).isSome then some (Function.update tree path (some content)) else none
  | .remove path =>
      if (tree path).isSome then some (Function.update tree path none) else none
  | .rename _ oldPath path =>
      if (tree oldPath).isSome ∧ oldPath ≠ path then
        some (Function.update (Function.update tree path (tree oldPath)) oldPath none)
      else none

def runOps (tree : Tree α) (ops : List (FileOp α)) : Option (Tree α) :=
  ops.foldlM FileOp.apply tree

/-- An event that is about no file of the workspace, or an error. -/
def Quiet (root : List OsName) : Except String WatchEvent → Prop
  | .error _ => True
  | .ok event => event.kind = .access ∨ ∀ path ∈ event.paths, normalizeWatchPath root path = none

/-- The kinds of events that a change of a file's content may have. -/
def IsModify (kind : EventKind) : Prop :=
  changeKindOf kind = some .modified ∧ kind ≠ .modify (.name .both)

/-- A burst that reports operations in order. -/
inductive Reports (root : List OsName) :
    List (FileOp α) → List (Except String WatchEvent) → Prop where
  | nil : Reports root [] []
  | quiet {ops events event} : Quiet root event → Reports root ops events →
      Reports root ops (event :: events)
  | create {ops events path key content} : normalizeWatchPath root path = some key →
      Reports root ops events →
      Reports root (.create key content :: ops)
        (.ok { kind := .create, paths := [path] } :: events)
  | modify {ops events path key content kind} : normalizeWatchPath root path = some key →
      IsModify kind → Reports root ops events →
      Reports root (.modify key content :: ops) (.ok { kind, paths := [path] } :: events)
  | remove {ops events path key} : normalizeWatchPath root path = some key →
      Reports root ops events →
      Reports root (.remove key :: ops) (.ok { kind := .remove, paths := [path] } :: events)
  | both {ops events oldPath path oldKey key} : normalizeWatchPath root oldPath = some oldKey →
      normalizeWatchPath root path = some key → Reports root ops events →
      Reports root (.rename .both oldKey key :: ops)
        (.ok { kind := .modify (.name .both), paths := [oldPath, path] } :: events)
  | fromTo {ops events between oldPath path oldKey key} :
      normalizeWatchPath root oldPath = some oldKey →
      normalizeWatchPath root path = some key → (∀ event ∈ between, Quiet root event) →
      Reports root ops events →
      Reports root (.rename .fromTo oldKey key :: ops)
        (.ok { kind := .modify (.name .from), paths := [oldPath] } ::
          (between ++ .ok { kind := .modify (.name .to), paths := [path] } :: events))

/-- What the changes of a burst should say of the trees around it. -/
structure Faithful (start finish : Tree α) (changes : List WorkspaceFileChange) : Prop where
  complete : ∀ path, start path ≠ finish path →
    ∃ change ∈ changes, change.path = path ∨ change.oldPath = some path
  present : ∀ path, finish path ≠ none →
    (∃ change ∈ changes, change.path = path ∨ change.oldPath = some path) →
    ∃ change ∈ changes, change.path = path ∧ change.kind ≠ .removed
  gone : ∀ change ∈ changes, finish change.path = none → change.kind = .removed
  joined : ∀ change ∈ changes, change.kind = .renamed →
    ∃ oldPath, change.oldPath = some oldPath ∧ finish oldPath = none ∧ finish change.path ≠ none

end Zeron.Files
