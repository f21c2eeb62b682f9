import Zeron.Data.Map
import Zeron.Transition.Run

/-!
# A checkout

What the commands of Git do with `HEAD`, the index, the files of a work tree and the refs.
A tree stands for its object id.
-/

namespace Zeron.Restore

open Zeron.Data

abbrev Path := List String

/-- Files by their paths, with their modes and contents. -/
abbrev Tree := Std.ExtTreeMap Path String compare

instance : DecidableEq Tree := inferInstance

/-- A hidden commit: a tree, and the index beside it. -/
structure Captured where
  head : Option String
  tree : Tree
  indexTree : Tree

structure Repo where
  /-- The commit at `HEAD` and its tree. -/
  head : Option (String × Tree)
  index : Tree
  /-- All files, also ignored ones. -/
  work : Tree
  refs : String → Option Captured

/-- What Git knows besides: ignore rules, patterns of paths, and `git status`. -/
structure Git where
  /-- The rules come from files of the work tree. -/
  ignores : Tree → Path → Bool
  /-- The path is meant by a path on the command line. -/
  isMeant : Path → Path → Bool
  status : Repo → String

variable (git : Git) (repo : Repo)

def Repo.headTree : Tree :=
  match repo.head with
  | none => ∅
  | some head => head.2

/-- `snapshot_tree`: its index starts with the paths of `HEAD`, and then all is added. -/
def snapshotTree : Tree :=
  repo.work.filter fun path _ => repo.headTree.contains path || !git.ignores repo.work path

/-- The files that Git does not ignore: those in the index, and those that no rule is about. -/
def nonIgnored : Tree :=
  repo.work.filter fun path _ => repo.index.contains path || !git.ignores repo.work path

/-- `git ls-files --others --ignored --exclude-standard`. -/
def ignoredFiles : List Path :=
  (repo.work.filter fun path _ => git.ignores repo.work path && !repo.index.contains path).keys

/-- What the digest is made of; SHA-256 is taken as free of collisions. -/
structure Checksum where
  head : String
  tree : Tree
  index : Tree
  status : String
  deriving DecidableEq

structure Observation where
  head : Option String
  tree : Tree
  checksum : Checksum

/-- `observe`. -/
def observe : Observation :=
  let head := repo.head.map Prod.fst
  let tree := snapshotTree git repo
  { head, tree
    checksum := { head := head.getD "", tree, index := repo.index, status := git.status repo } }

/-- `capture`: a ref that is there already answers for itself. -/
def capture (reference : String) : Captured × Repo :=
  match repo.refs reference with
  | some captured => (captured, repo)
  | none =>
      let captured :=
        { head := repo.head.map Prod.fst, tree := snapshotTree git repo, indexTree := repo.index }
      (captured, { repo with refs := Function.update repo.refs reference (some captured) })

inductive PathKind where
  | added
  | deleted
  | modified
  deriving DecidableEq

structure RestorePath where
  kind : PathKind
  path : Path
  deriving DecidableEq

/-- `validate_path`. -/
def validatePath (path : Path) : Bool :=
  !path.any fun part => decide (part = "" ∨ part = "." ∨ part = ".." ∨ part = ".git")

/-- `git diff --no-renames --name-status` of two trees. -/
def changedPaths (current target : Tree) : List RestorePath :=
  (current.toList.filterMap fun entry =>
      match target[entry.1]? with
      | none => some { kind := .deleted, path := entry.1 }
      | some content =>
          if content = entry.2 then none else some { kind := .modified, path := entry.1 }) ++
    target.toList.filterMap fun entry =>
      if current.contains entry.1 then none else some { kind := .added, path := entry.1 }

/-- `restore_paths`. -/
def restorePaths (current target : Tree) : Except String (List RestorePath) :=
  let paths := changedPaths current target
  if paths.all fun path => validatePath path.path then .ok paths
  else .error "Checkpoint contains an unsafe path."

def related (first second : Path) : Bool :=
  decide (first <+: second) || decide (second <+: first)

/-- `ignored_collision`. -/
def ignoredCollision (paths : List RestorePath) : Bool :=
  (ignoredFiles git repo).any fun ignored => paths.any fun path => related path.path ignored

/-- A file has to be written, and something else is at its place, above or below it. -/
def inTheWay (work source : Tree) (path : Path) : Bool :=
  source.toList.any fun entry => decide (work[entry.1]? ≠ some entry.2) && related entry.1 path

/-- `git restore --source --worktree --staged -- .`: paths of the index that the source lacks
are removed. -/
def Repo.restoreFrom (source : Tree) : Repo :=
  { repo with
    index := source
    work := source.foldl (fun work path content => work.insert path content)
      (repo.work.filter fun path _ => !repo.index.contains path && !inTheWay repo.work source path) }

/-- `git clean -fd -- path`. -/
def Repo.clean (path : Path) : Repo :=
  { repo with
    work := repo.work.filter fun other _ =>
      !(git.isMeant path other && !repo.index.contains other && !git.ignores repo.work other) }

/-- `git reset --quiet -- .`. -/
def Repo.resetIndex : Repo :=
  { repo with index := repo.headTree }

end Zeron.Restore

/-!
## Ignored files

A restore writes the paths in which the checkpoint differs from the work tree.  If no
ignored file is at, above or below one of them, no ignored file changes.
-/

namespace Zeron.Restore

open Zeron.Data

variable {git : Git} {repo : Repo} {current source : Tree} {path other : Path} {content : String}
  {paths : List RestorePath}

theorem mem_ignoredFiles_iff :
    path ∈ ignoredFiles git repo ↔
      path ∈ repo.work ∧ git.ignores repo.work path = true ∧ repo.index.contains path = false := by
  simp only [ignoredFiles, Std.ExtTreeMap.mem_keys, mem_iff_exists, getElem?_filter_eq_some_iff,
    Bool.and_eq_true, Bool.not_eq_true', exists_and_right]

theorem changedPaths_of_ne (differ : current[path]? ≠ source[path]?) (there : path ∈ source) :
    ∃ change ∈ changedPaths current source, change.path = path := by
  obtain ⟨content, in_source⟩ := mem_iff_exists.mp there
  cases here : current[path]? with
  | none =>
      refine ⟨{ kind := .added, path }, List.mem_append_right _ (List.mem_filterMap.mpr ?_), rfl⟩
      refine ⟨(path, content), Std.ExtTreeMap.mem_toList_iff_getElem?_eq_some.mpr in_source, ?_⟩
      simp [Std.ExtTreeMap.contains_eq_isSome_getElem?, here]
  | some old =>
      refine ⟨{ kind := .modified, path }, List.mem_append_left _ (List.mem_filterMap.mpr ?_), rfl⟩
      refine ⟨(path, old), Std.ExtTreeMap.mem_toList_iff_getElem?_eq_some.mpr here, ?_⟩
      rw [here, in_source] at differ
      simp [in_source, show content ≠ old from fun same => differ (by rw [same])]

/-- A deleted path is a file of the work tree that the checkpoint does not have. -/
theorem deleted_of_mem_changedPaths {change : RestorePath}
    (listed : change ∈ changedPaths current source) (deleted : change.kind = .deleted) :
    change.path ∈ current ∧ change.path ∉ source := by
  obtain first | second := List.mem_append.mp listed
  · obtain ⟨entry, stored, made⟩ := List.mem_filterMap.mp first
    split at made
    · rename_i absent
      cases made
      refine ⟨mem_iff_exists.mpr
        ⟨entry.2, Std.ExtTreeMap.mem_toList_iff_getElem?_eq_some.mp stored⟩, fun there => ?_⟩
      obtain ⟨content, in_source⟩ := mem_iff_exists.mp there
      cases absent.symm.trans in_source
    · split at made
      · cases made
      · cases made
        cases deleted
  · obtain ⟨entry, -, made⟩ := List.mem_filterMap.mp second
    split at made
    · cases made
    · cases made
      cases deleted

/-- No ignored file is at, above or below a path that changes. -/
theorem not_related_of_no_collision (clear : ignoredCollision git repo paths = false)
    (ignored : other ∈ ignoredFiles git repo) {change : RestorePath} (listed : change ∈ paths) :
    related change.path other = false := by
  rw [ignoredCollision, List.any_eq_false] at clear
  have apart := clear other ignored
  rw [Bool.not_eq_true, List.any_eq_false] at apart
  exact Bool.not_eq_true _ ▸ apart change listed

/-- What a snapshot has of a path is what the work tree has of it, or nothing. -/
theorem snapshotTree_cases (path : Path) :
    (snapshotTree git repo)[path]? = repo.work[path]? ∨
      (snapshotTree git repo)[path]? = none := by
  cases snapped : (snapshotTree git repo)[path]? with
  | none => exact .inr rfl
  | some content =>
      rw [snapshotTree, getElem?_filter_eq_some_iff] at snapped
      exact .inl snapped.1.symm

/-- A file that is written by a restore is among the changed paths. -/
theorem changed_of_written (there : source[path]? = some content)
    (differ : repo.work[path]? ≠ some content) :
    ∃ change ∈ changedPaths (snapshotTree git repo) source, change.path = path := by
  refine changedPaths_of_ne ?_ ?_
  · rw [there]
    obtain same | absent : (snapshotTree git repo)[path]? = repo.work[path]? ∨ _ :=
      snapshotTree_cases path
    · rwa [same]
    · rw [absent]
      exact nofun
  · exact mem_iff_exists.mpr ⟨content, there⟩

theorem related_self (path : Path) : related path path = true := by
  simp [related]

/-- `git restore` leaves ignored files alone. -/
theorem restoreFrom_ignored
    (clear : ignoredCollision git repo (changedPaths (snapshotTree git repo) source) = false)
    (ignored : path ∈ ignoredFiles git repo) :
    (repo.restoreFrom source).work[path]? = repo.work[path]? := by
  have apart : ∀ change ∈ changedPaths (snapshotTree git repo) source,
      related change.path path = false := fun _ => not_related_of_no_collision clear ignored
  obtain ⟨there, -, untracked⟩ := mem_ignoredFiles_iff.mp ignored
  rw [Repo.restoreFrom, getElem?_foldl_insert]
  cases in_source : source[path]? with
  | some content =>
      by_contra differ
      obtain ⟨change, listed, rfl⟩ : ∃ change ∈ changedPaths (snapshotTree git repo) source, _ :=
        changed_of_written in_source (Ne.symm differ)
      exact absurd (apart change listed) (by simp [related_self])
  | none =>
      rw [Option.none_or]
      obtain ⟨content, stored⟩ := mem_iff_exists.mp there
      rw [stored, getElem?_filter_eq_some_iff]
      refine ⟨stored, ?_⟩
      simp only [Bool.and_eq_true, Bool.not_eq_true']
      refine ⟨untracked, ?_⟩
      rw [inTheWay, List.any_eq_false]
      rintro ⟨written, value⟩ listed in_way
      have in_source := Std.ExtTreeMap.mem_toList_iff_getElem?_eq_some.mp listed
      simp only [Bool.and_eq_true, decide_eq_true_eq] at in_way
      obtain ⟨change, changed, rfl⟩ : ∃ change ∈ changedPaths (snapshotTree git repo) source, _ :=
        changed_of_written in_source in_way.1
      simp [apart change changed] at in_way

/-- `git clean` leaves alone what it is not told to clean. -/
theorem clean_of_not_meant (apart : git.isMeant path other = false) :
    (repo.clean git path).work[other]? = repo.work[other]? := by
  cases stored : repo.work[other]? with
  | some content =>
      rw [Repo.clean, getElem?_filter_eq_some_iff]
      exact ⟨stored, by simp [apart]⟩
  | none =>
      by_contra there
      obtain ⟨content, kept⟩ := Option.ne_none_iff_exists'.mp there
      rw [Repo.clean, getElem?_filter_eq_some_iff, stored] at kept
      cases kept.1

end Zeron.Restore

/-!
## Restoring a checkpoint

`FileCheckpointService::restore` in its steps.  Other processes may edit the checkout, and
move refs, between any two of them.
-/

namespace Zeron.Restore

open Zeron.Transition

/-- What the caller has confirmed. -/
structure Request where
  reference : String
  tree : Tree
  expectedHead : Option String
  expectedChecksum : Checksum

/-- A checkpoint in the store. -/
structure Backup where
  id : String
  reference : String
  head : Option String
  tree : Tree
  indexTree : Tree
  deriving DecidableEq

inductive Phase where
  | started
  | previewed (paths : List RestorePath)
  /-- The backup has its ref. -/
  | captured (paths : List RestorePath) (backup : Backup)
  /-- The backup is in the store. -/
  | published (paths : List RestorePath) (backup : Backup)
  | observed (paths : List RestorePath) (backup : Backup)
  | isolated (paths : List RestorePath) (backup : Backup)
  /-- No ignored file is in the way; the work tree is written next. -/
  | checked (paths : List RestorePath) (backup : Backup)
  | cleaning (paths : List RestorePath) (backup : Backup)
  | reset (backup : Backup)
  | restored (backup : Backup)
  | failed (error : String)
  deriving DecidableEq

/-- The checkout when its work tree was first written, and whether anyone else had edited it. -/
structure Moment where
  repo : Repo
  /-- Nobody has, since the backup was captured. -/
  sinceCapture : Bool
  /-- Nobody has, since the second observation. -/
  sinceObservation : Bool
  /-- Nobody has, between the preview and the capture. -/
  asPreviewed : Bool

structure Restoring where
  repo : Repo
  phase : Phase
  backups : List Backup
  /-- The checkout as another process has last left it. -/
  left : Repo
  sincePreview : Bool
  sinceCapture : Bool
  sinceObservation : Bool
  asPreviewed : Bool
  written : Option Moment

def Restoring.start (repo : Repo) : Restoring :=
  { repo, phase := .started, backups := [], left := repo, sincePreview := false
    sinceCapture := false, sinceObservation := false, asPreviewed := false, written := none }

/-- What the preview learns outside of Git. -/
structure Answers where
  /-- Neither a sparse checkout nor one with submodules. -/
  full : Bool
  /-- The checkpoint is of this folder. -/
  sameFolder : Bool
  isolated : Bool
  idle : Bool

inductive Event where
  /-- Another process has changed the checkout or its refs. -/
  | edit (repo : Repo)
  | preview (answers : Answers)
  /-- The backup gets a random name that no ref has. -/
  | capture (id : String)
  | publish (accepted : Bool)
  | observe
  | isolate (isolated : Bool)
  | check
  | write
  | clean
  | unstage
  | verify
  /-- A command fails before the work tree is written. -/
  | fail (message : String)
  /-- A command fails later, and leaves the checkout as it is by then. -/
  | breakOff (message : String) (index work : Tree)

def sharedWorkspaceRestoreMessage : String :=
  "File restore requires an isolated worktree. This workspace may contain changes from another " ++
    "thread. Rewind the conversation without restoring files instead."

/-- `preview_locked`, and what `restore` checks of it. -/
def previewRestore (git : Git) (repo : Repo) (request : Request) (answers : Answers) :
    Except String (List RestorePath) := do
  unless answers.full do
    throw "File checkpoints for sparse checkouts are not implemented yet."
  unless ((repo.refs request.reference).map Captured.tree) = some request.tree do
    throw "Checkpoint ref is missing or stale."
  unless answers.sameFolder do
    throw "Checkpoint workspace identity changed."
  let observation := observe git repo
  let paths ← restorePaths observation.tree request.tree
  unless answers.isolated do
    throw sharedWorkspaceRestoreMessage
  unless answers.idle do
    throw "File restore requires an idle thread."
  if ignoredCollision git repo paths then
    throw "Checkpoint restore would overwrite ignored files."
  if observation.head ≠ request.expectedHead then
    throw "Checkpoint restore refused: HEAD changed since preview."
  if observation.checksum ≠ request.expectedChecksum then
    throw "Checkpoint restore refused: workspace changed since preview."
  return paths

def backupReference (id : String) : String :=
  "refs/noches/checkpoints/checkpoint%3Abackup%3A" ++ id

/-- `git restore`, unless neither the index nor the checkpoint has a file. -/
def writeWork (repo : Repo) (request : Request) : Option Repo :=
  if repo.index = ∅ ∧ request.tree = ∅ then some repo
  else (repo.refs request.reference).map fun captured => repo.restoreFrom captured.tree

/-- `restore`. -/
def restoreStep (git : Git) (request : Request) (state : Restoring) : Event → Option Restoring
  | .edit repo =>
      match state.phase with
      | .restored _ | .failed _ => none
      | _ => some { state with
          repo, left := repo
          sincePreview := false, sinceCapture := false, sinceObservation := false }
  | .preview answers =>
      match state.phase with
      | .started =>
          match previewRestore git state.repo request answers with
          | .ok paths => some { state with sincePreview := true, phase := .previewed paths }
          | .error error => some { state with phase := .failed error }
      | _ => none
  | .capture id =>
      match state.phase with
      | .previewed paths =>
          let reference := backupReference id
          if (state.repo.refs reference).isSome then none
          else
            let made := capture git state.repo reference
            some { state with
              repo := made.2, sinceCapture := true, asPreviewed := state.sincePreview
              phase := .captured paths
                { id, reference, head := made.1.head, tree := made.1.tree
                  indexTree := made.1.indexTree } }
      | _ => none
  | .publish accepted =>
      match state.phase with
      | .captured paths backup =>
          if accepted then
            some { state with
              backups := state.backups ++ [backup], phase := .published paths backup }
          else some { state with phase := .failed "rejected" }
      | _ => none
  | .observe =>
      match state.phase with
      | .published paths backup =>
          let observation := observe git state.repo
          if observation.head ≠ request.expectedHead ∨
              observation.checksum ≠ request.expectedChecksum then
            some { state with
              phase := .failed ("Checkpoint restore refused: workspace changed while creating backup "
                ++ backup.id ++ ".") }
          else some { state with sinceObservation := true, phase := .observed paths backup }
      | _ => none
  | .isolate isolated =>
      match state.phase with
      | .observed paths backup =>
          if isolated then some { state with phase := .isolated paths backup }
          else some { state with phase := .failed sharedWorkspaceRestoreMessage }
      | _ => none
  | .check =>
      match state.phase with
      | .isolated paths backup =>
          if ignoredCollision git state.repo paths then
            some { state with
              phase := .failed "Checkpoint restore would overwrite ignored files." }
          else some { state with phase := .checked paths backup }
      | _ => none
  | .write =>
      match state.phase with
      | .checked paths backup =>
          match writeWork state.repo request with
          | some repo => some { state with
              repo, written := some
                { repo := state.repo, sinceCapture := state.sinceCapture
                  sinceObservation := state.sinceObservation, asPreviewed := state.asPreviewed }
              phase := .cleaning (paths.filter fun path => decide (path.kind = .deleted)) backup }
          | none => none
      | _ => none
  | .clean =>
      match state.phase with
      | .cleaning (path :: rest) backup =>
          if validatePath path.path then
            some { state with
              repo := state.repo.clean git path.path, phase := .cleaning rest backup }
          else some { state with phase := .failed "Checkpoint contains an unsafe path." }
      | _ => none
  | .unstage =>
      match state.phase with
      | .cleaning [] backup =>
          some { state with
            repo := if state.repo.head.isSome then state.repo.resetIndex else state.repo
            phase := .reset backup }
      | _ => none
  | .verify =>
      match state.phase with
      | .reset backup =>
          if (observe git state.repo).tree = request.tree then
            some { state with phase := .restored backup }
          else some { state with
            phase := .failed "Checkpoint restore was incomplete; inspect retained backup." }
      | _ => none
  | .fail message =>
      match state.phase with
      | .restored _ | .failed _ | .cleaning .. | .reset _ => none
      | _ => some { state with phase := .failed message }
  | .breakOff message index work =>
      match state.phase with
      | .checked .. | .cleaning .. | .reset _ => some { state with
          repo := { state.repo with index, work }
          written := state.written.or (some
            { repo := state.repo, sinceCapture := state.sinceCapture
              sinceObservation := state.sinceObservation, asPreviewed := state.asPreviewed })
          phase := .failed message }
      | _ => none

end Zeron.Restore
