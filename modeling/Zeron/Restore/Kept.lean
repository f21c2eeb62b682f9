import Zeron.Restore.Service

/-!
# What a restore destroys has a backup

A restore writes the work tree only after it has seen it twice as the caller has confirmed
it, and has recorded its files.  What other processes do after the second look is not seen.
-/

namespace Zeron.Restore

open Zeron.Data Zeron.Transition

variable {git : Git} {request : Request} {state next : Restoring} {repo : Repo}

/-- An ignored file is in the index exactly if it is in `HEAD`. -/
def Tracked (git : Git) (repo : Repo) : Prop :=
  ∀ path ∈ repo.work, git.ignores repo.work path = true →
    repo.index.contains path = repo.headTree.contains path

/-- Git reads the paths that a restore deletes as themselves, not as patterns. -/
def Literal (git : Git) (current target : Tree) : Prop :=
  ∀ path, path ∈ current → path ∉ target → ∀ other, git.isMeant path other = true → path <+: other

/-- Nobody has edited the checkout after the capture, or only between the capture and the
second look. -/
def Moment.Undisturbed (moment : Moment) : Prop :=
  moment.sinceCapture = true ∨ moment.asPreviewed = true ∧ moment.sinceObservation = true

/-- What is true of a restore that has succeeded. -/
structure Restored (git : Git) (request : Request) (state : Restoring) (backup : Backup)
    (moment : Moment) : Prop where
  stored : backup ∈ state.backups
  /-- The work tree was as confirmed, unless someone has edited it after the second look. -/
  confirmed : moment.sinceObservation = true →
    (observe git moment.repo).head = request.expectedHead ∧
      (observe git moment.repo).checksum = request.expectedChecksum
  /-- The backup has what was overwritten, unless someone has edited it after the backup and
  it was not seen. -/
  backed : moment.Undisturbed → backup.tree = snapshotTree git moment.repo
  backedAll : moment.Undisturbed → Tracked git moment.repo →
    backup.tree = nonIgnored git moment.repo
  /-- No ignored file has changed, if nobody has edited the checkout after the second look. -/
  ignored : state.sinceObservation = true →
    (moment.repo.refs request.reference).map Captured.tree = some request.tree →
    Literal git (snapshotTree git moment.repo) request.tree →
    ∀ path ∈ ignoredFiles git moment.repo, state.repo.work[path]? = moment.repo.work[path]?
  result : snapshotTree git state.repo = request.tree
  resultAll : state.sinceObservation = true →
    (moment.repo.refs request.reference).map Captured.tree = some request.tree →
    nonIgnored git state.repo = request.tree

/-- Restores destroy nothing without a backup. -/
structure Restoring.Safe (git : Git) (request : Request) (state : Restoring) : Prop where
  /-- Before the first write the checkout is as other processes have left it. -/
  untouched : state.written.isNone →
    state.repo.work = state.left.work ∧ state.repo.index = state.left.index
  head : state.repo.head = state.left.head
  restored : ∀ backup, state.phase = .restored backup →
    ∃ moment, state.written = some moment ∧ Restored git request state backup moment

/-! ## The invariant -/

/-- The paths of the preview. -/
def Previewed (request : Request) (paths : List RestorePath) : Prop :=
  paths = changedPaths request.expectedChecksum.tree request.tree

/-- The checkout has been seen again as it was confirmed. -/
def Confirmed (git : Git) (request : Request) (repo : Repo) : Prop :=
  (observe git repo).head = request.expectedHead ∧
    (observe git repo).checksum = request.expectedChecksum

/-- What is known of the moment of the first write. -/
structure Moment.Sound (git : Git) (request : Request) (backup : Backup) (moment : Moment) :
    Prop where
  confirmed : moment.sinceObservation = true → Confirmed git request moment.repo
  backed : moment.Undisturbed → backup.tree = snapshotTree git moment.repo
  clear : moment.sinceObservation = true →
    ignoredCollision git moment.repo
      (changedPaths request.expectedChecksum.tree request.tree) = false

/-- What the writes have left, if nobody has edited the checkout meanwhile. -/
structure Moment.Kept (git : Git) (request : Request) (moment : Moment) (state : Restoring) :
    Prop where
  since : state.sinceObservation = true → moment.sinceObservation = true
  head : state.sinceObservation = true → state.repo.head = moment.repo.head
  ignored : state.sinceObservation = true →
    (moment.repo.refs request.reference).map Captured.tree = some request.tree →
    Literal git (snapshotTree git moment.repo) request.tree →
    ∀ path ∈ ignoredFiles git moment.repo, state.repo.work[path]? = moment.repo.work[path]?

/-- The backup has the checkout as it was previewed, or as it still is. -/
def Backed (git : Git) (request : Request) (state : Restoring) (backup : Backup) : Prop :=
  (state.sinceCapture = true → backup.tree = snapshotTree git state.repo) ∧
    (state.asPreviewed = true → backup.tree = request.expectedChecksum.tree)

def Phase.Sound (git : Git) (request : Request) (state : Restoring) : Phase → Prop
  | .started => state.written = none
  | .previewed paths =>
      state.written = none ∧ Previewed request paths ∧
        (state.sincePreview = true →
          snapshotTree git state.repo = request.expectedChecksum.tree)
  | .captured paths backup =>
      state.written = none ∧ Previewed request paths ∧
        Backed git request state backup
  | .published paths backup =>
      state.written = none ∧ Previewed request paths ∧ backup ∈ state.backups ∧
        Backed git request state backup
  | .observed paths backup | .isolated paths backup =>
      state.written = none ∧ Previewed request paths ∧ backup ∈ state.backups ∧
        Backed git request state backup ∧
        (state.sinceObservation = true → Confirmed git request state.repo)
  | .checked paths backup =>
      state.written = none ∧ Previewed request paths ∧ backup ∈ state.backups ∧
        Backed git request state backup ∧
        (state.sinceObservation = true → Confirmed git request state.repo ∧
          ignoredCollision git state.repo paths = false)
  | .cleaning paths backup =>
      ∃ moment, state.written = some moment ∧ moment.Sound git request backup ∧
        moment.Kept git request state ∧ backup ∈ state.backups ∧
        (∀ path ∈ paths, path.kind = .deleted ∧
          path ∈ changedPaths request.expectedChecksum.tree request.tree) ∧
        (state.sinceObservation = true →
          (moment.repo.refs request.reference).map Captured.tree = some request.tree →
          state.repo.index = request.tree)
  | .reset backup =>
      ∃ moment, state.written = some moment ∧ moment.Sound git request backup ∧
        moment.Kept git request state ∧ backup ∈ state.backups ∧
        (state.sinceObservation = true →
          (moment.repo.refs request.reference).map Captured.tree = some request.tree →
          state.repo.index = if state.repo.head.isSome then state.repo.headTree else request.tree)
  | .restored backup => ∃ moment, state.written = some moment ∧ Restored git request state backup moment
  | .failed _ => True

structure Restoring.Sound (git : Git) (request : Request) (state : Restoring) : Prop where
  untouched : state.written.isNone →
    state.repo.work = state.left.work ∧ state.repo.index = state.left.index
  head : state.repo.head = state.left.head
  phase : state.phase.Sound git request state

end Zeron.Restore

/-!
## The steps of a restore keep what is known
-/

namespace Zeron.Restore

open Zeron.Data Zeron.Transition

variable {git : Git} {request : Request} {state next : Restoring} {repo : Repo}
  {paths : List RestorePath} {backup : Backup}

theorem start_sound (repo : Repo) : (Restoring.start repo).Sound git request where
  untouched := fun _ => ⟨rfl, rfl⟩
  head := rfl
  phase := rfl

/-- A failure leaves the checkout as it is. -/
theorem Restoring.Sound.fails (sound : state.Sound git request) (error : String) :
    ({ state with phase := .failed error } : Restoring).Sound git request where
  untouched := sound.untouched
  head := sound.head
  phase := trivial

theorem Phase.Sound.edited {phase : Phase} (known : phase.Sound git request state)
    (running : ∀ backup, phase ≠ .restored backup) :
    phase.Sound git request
      { state with
        repo, left := repo
        sincePreview := false, sinceCapture := false, sinceObservation := false } := by
  cases phase with
  | started => exact known
  | previewed => exact ⟨known.1, known.2.1, nofun⟩
  | captured => exact ⟨known.1, known.2.1, nofun, known.2.2.2⟩
  | published => exact ⟨known.1, known.2.1, known.2.2.1, nofun, known.2.2.2.2⟩
  | observed | isolated | checked =>
      obtain ⟨unwritten, previewed, stored, ⟨-, backed⟩, -⟩ := known
      exact ⟨unwritten, previewed, stored, ⟨nofun, backed⟩, nofun⟩
  | cleaning =>
      obtain ⟨moment, written, sound, -, stored, deleted, -⟩ := known
      exact ⟨moment, written, sound, ⟨nofun, nofun, nofun⟩, stored, deleted, nofun⟩
  | reset =>
      obtain ⟨moment, written, sound, -, stored, -⟩ := known
      exact ⟨moment, written, sound, ⟨nofun, nofun, nofun⟩, stored, nofun⟩
  | restored backup => exact absurd rfl (running backup)
  | failed => trivial

theorem edit_sound (sound : state.Sound git request)
    (stepped : restoreStep git request state (.edit repo) = some next) :
    next.Sound git request := by
  simp only [restoreStep] at stepped
  split at stepped
  · cases stepped
  · cases stepped
  · rename_i running _
    cases stepped
    exact ⟨fun _ => ⟨rfl, rfl⟩, rfl, sound.phase.edited running⟩

/-! ## Looking -/

theorem restorePaths_ok {current target : Tree} (accepted : restorePaths current target = .ok paths) :
    paths = changedPaths current target := by
  unfold restorePaths at accepted
  dsimp only at accepted
  split at accepted <;> cases accepted
  rfl

/-- A preview that is accepted has found the checkout as it was confirmed. -/
theorem previewRestore_ok {answers : Answers}
    (accepted : previewRestore git repo request answers = .ok paths) :
    Previewed request paths ∧ snapshotTree git repo = request.expectedChecksum.tree := by
  unfold previewRestore at accepted
  simp only [bind, Except.bind, throw, throwThe, MonadExceptOf.throw] at accepted
  split at accepted
  case isFalse => cases accepted
  split at accepted
  case isFalse => cases accepted
  split at accepted
  case isFalse => cases accepted
  split at accepted
  · cases accepted
  rename_i found listed
  split at accepted
  case isFalse => cases accepted
  split at accepted
  case isFalse => cases accepted
  split at accepted
  · cases accepted
  split at accepted
  · cases accepted
  split at accepted
  · cases accepted
  rename_i same
  cases accepted
  have tree : (observe git repo).tree = request.expectedChecksum.tree :=
    congrArg Checksum.tree (not_not.mp same)
  refine ⟨?_, tree⟩
  rw [Previewed, ← tree]
  exact restorePaths_ok listed

section

variable (sound : state.Sound git request)
include sound

theorem preview_sound {answers : Answers}
    (stepped : restoreStep git request state (.preview answers) = some next) :
    next.Sound git request := by
  have known := sound.phase
  simp only [restoreStep] at stepped
  split at stepped
  · rename_i phase
    rw [phase] at known
    split at stepped
    · rename_i accepted
      cases stepped
      obtain ⟨previewed, seen⟩ := previewRestore_ok accepted
      exact ⟨sound.untouched, sound.head, known, previewed, fun _ => seen⟩
    · cases stepped
      exact sound.fails _
  · cases stepped

theorem capture_sound {id : String}
    (stepped : restoreStep git request state (.capture id) = some next) :
    next.Sound git request := by
  have known := sound.phase
  simp only [restoreStep] at stepped
  split at stepped
  · rename_i phase
    rw [phase] at known
    split at stepped
    · cases stepped
    · rename_i free
      have fresh := Option.not_isSome_iff_eq_none.mp free
      cases stepped
      simp only [capture, fresh]
      exact ⟨sound.untouched, sound.head, known.1, known.2.1, fun _ => rfl, known.2.2⟩
  · cases stepped

theorem publish_sound {accepted : Bool}
    (stepped : restoreStep git request state (.publish accepted) = some next) :
    next.Sound git request := by
  have known := sound.phase
  simp only [restoreStep] at stepped
  split at stepped
  · rename_i phase
    rw [phase] at known
    split at stepped
    · cases stepped
      exact ⟨sound.untouched, sound.head, known.1, known.2.1,
        List.mem_append_right _ (List.mem_singleton.mpr rfl), known.2.2⟩
    · cases stepped
      exact sound.fails _
  · cases stepped

/-- The second look has found the checkout as it was confirmed. -/
theorem observe_sound (stepped : restoreStep git request state .observe = some next) :
    next.Sound git request := by
  have known := sound.phase
  simp only [restoreStep] at stepped
  split at stepped
  · rename_i phase
    rw [phase] at known
    split at stepped
    · cases stepped
      exact sound.fails _
    · rename_i same
      cases stepped
      obtain ⟨unwritten, previewed, stored, backed⟩ := known
      refine ⟨sound.untouched, sound.head, unwritten, previewed, stored, backed, fun _ => ?_⟩
      exact ⟨not_not.mp (not_or.mp same).1, not_not.mp (not_or.mp same).2⟩
  · cases stepped

theorem isolate_sound {isolated : Bool}
    (stepped : restoreStep git request state (.isolate isolated) = some next) :
    next.Sound git request := by
  have known := sound.phase
  simp only [restoreStep] at stepped
  split at stepped
  · rename_i phase
    rw [phase] at known
    split at stepped
    · cases stepped
      exact ⟨sound.untouched, sound.head, known⟩
    · cases stepped
      exact sound.fails _
  · cases stepped

theorem check_sound (stepped : restoreStep git request state .check = some next) :
    next.Sound git request := by
  have known := sound.phase
  simp only [restoreStep] at stepped
  split at stepped
  · rename_i phase
    rw [phase] at known
    split at stepped
    · cases stepped
      exact sound.fails _
    · rename_i clear
      cases stepped
      obtain ⟨unwritten, previewed, stored, backed, confirmed⟩ := known
      exact ⟨sound.untouched, sound.head, unwritten, previewed, stored, backed, fun since =>
        ⟨confirmed since, Bool.not_eq_true _ ▸ clear⟩⟩
  · cases stepped

end

/-! ## Writing -/

theorem writeWork_head {written : Repo} (wrote : writeWork repo request = some written) :
    written.head = repo.head := by
  unfold writeWork at wrote
  split at wrote
  · cases wrote
    rfl
  · obtain ⟨captured, -, rfl⟩ := Option.map_eq_some_iff.mp wrote
    rfl

/-- The index becomes the tree of the checkpoint. -/
theorem writeWork_index {written : Repo} (wrote : writeWork repo request = some written)
    (source : (repo.refs request.reference).map Captured.tree = some request.tree) :
    written.index = request.tree := by
  unfold writeWork at wrote
  split at wrote
  · rename_i both
    cases wrote
    rw [both.1, both.2]
  · obtain ⟨captured, there, rfl⟩ := Option.map_eq_some_iff.mp wrote
    rw [there] at source
    exact Option.some.inj source

theorem writeWork_ignored {written : Repo} {path : Path}
    (wrote : writeWork repo request = some written)
    (source : (repo.refs request.reference).map Captured.tree = some request.tree)
    (clear : ignoredCollision git repo (changedPaths (snapshotTree git repo) request.tree) = false)
    (ignored : path ∈ ignoredFiles git repo) : written.work[path]? = repo.work[path]? := by
  unfold writeWork at wrote
  split at wrote
  · cases wrote
    rfl
  · obtain ⟨captured, there, rfl⟩ := Option.map_eq_some_iff.mp wrote
    rw [there] at source
    rw [show captured.tree = request.tree from Option.some.inj source]
    exact restoreFrom_ignored clear ignored

theorem Confirmed.tree (confirmed : Confirmed git request repo) :
    snapshotTree git repo = request.expectedChecksum.tree :=
  congrArg Checksum.tree confirmed.2

theorem write_sound (sound : state.Sound git request)
    (stepped : restoreStep git request state .write = some next) : next.Sound git request := by
  have known := sound.phase
  simp only [restoreStep] at stepped
  split at stepped
  · rename_i paths backup phase
    rw [phase] at known
    obtain ⟨unwritten, previewed, stored, backed, confirmed⟩ := known
    split at stepped
    · rename_i repo wrote
      cases stepped
      refine ⟨nofun, (writeWork_head wrote).trans sound.head, _, rfl, ⟨?_, ?_, ?_⟩,
        ⟨id, fun _ => writeWork_head wrote, ?_⟩, stored, ?_, fun _ => writeWork_index wrote⟩
      · exact fun since => (confirmed since).1
      · rintro (since | ⟨previewed, since⟩)
        · exact backed.1 since
        · exact (backed.2 previewed).trans (confirmed since).1.tree.symm
      · intro since
        rw [← previewed]
        exact (confirmed since).2
      · intro since source _ path ignored
        obtain ⟨seen, clear⟩ := confirmed since
        rw [previewed, ← seen.tree] at clear
        exact writeWork_ignored wrote source clear ignored
      · intro path listed
        obtain ⟨there, deleted⟩ := List.mem_filter.mp listed
        rw [previewed] at there
        exact ⟨by simpa using deleted, there⟩
    · cases stepped
  · cases stepped

theorem clean_sound (sound : state.Sound git request)
    (stepped : restoreStep git request state .clean = some next) : next.Sound git request := by
  have known := sound.phase
  simp only [restoreStep] at stepped
  split at stepped
  · rename_i path rest backup phase
    rw [phase] at known
    split at stepped
    · cases stepped
      obtain ⟨moment, written, moment_sound, kept, stored, deleted, index⟩ := known
      refine ⟨fun unwritten => ?_, sound.head, moment, written, moment_sound,
        ⟨kept.since, kept.head, ?_⟩, stored, fun other listed =>
          deleted other (List.mem_cons_of_mem _ listed), index⟩
      · simp [written] at unwritten
      · intro since source literal other ignored
        obtain ⟨kind, listed⟩ := deleted path List.mem_cons_self
        have seen := (moment_sound.confirmed (kept.since since)).tree
        have clear := moment_sound.clear (kept.since since)
        rw [← seen] at listed clear
        obtain ⟨there, gone⟩ := deleted_of_mem_changedPaths listed kind
        rw [clean_of_not_meant, kept.ignored since source literal other ignored]
        by_contra meant
        have above := literal path.path there gone other (by simpa using meant)
        have apart := not_related_of_no_collision clear ignored listed
        simp [related, above] at apart
    · cases stepped
      exact sound.fails _
  · cases stepped

theorem unstage_sound (sound : state.Sound git request)
    (stepped : restoreStep git request state .unstage = some next) : next.Sound git request := by
  have known := sound.phase
  simp only [restoreStep] at stepped
  split at stepped
  · rename_i backup phase
    rw [phase] at known
    cases stepped
    obtain ⟨moment, written, moment_sound, kept, stored, -, index⟩ := known
    cases head : state.repo.head with
    | none =>
        refine ⟨sound.untouched, sound.head, moment, written, moment_sound,
          ⟨kept.since, kept.head, kept.ignored⟩, stored, ?_⟩
        intro since source
        simpa [head] using index since source
    | some commit =>
        refine ⟨fun unwritten => ?_, sound.head, moment, written, moment_sound,
          ⟨kept.since, kept.head, kept.ignored⟩, stored, ?_⟩
        · simp [written] at unwritten
        · intro _ _
          simp [Repo.resetIndex, head, Repo.headTree]
  · cases stepped

/-! ## The end -/

/-- What is in the backup is all that Git does not ignore. -/
theorem snapshotTree_eq_nonIgnored (tracked : Tracked git repo) :
    snapshotTree git repo = nonIgnored git repo := by
  refine Std.ExtTreeMap.ext_getElem? fun path => Option.ext fun content => ?_
  simp only [snapshotTree, nonIgnored, getElem?_filter_eq_some_iff]
  refine and_congr_right fun stored => ?_
  cases ignored : git.ignores repo.work path with
  | false => simp
  | true => rw [tracked path (mem_iff_exists.mpr ⟨content, stored⟩) ignored]

/-- A path of the index that is ignored is in the snapshot all the same. -/
theorem nonIgnored_eq_of_snapshot {tree : Tree} (result : snapshotTree git repo = tree)
    (index : repo.index = if repo.head.isSome then repo.headTree else tree) :
    nonIgnored git repo = tree := by
  rw [← result]
  refine Std.ExtTreeMap.ext_getElem? fun path => Option.ext fun content => ?_
  cases head : repo.head with
  | some commit =>
      rw [head] at index
      simp only [snapshotTree, nonIgnored, show repo.index = repo.headTree from index]
  | none =>
      rw [head] at index
      constructor
      · intro kept
        rw [nonIgnored, getElem?_filter_eq_some_iff, index] at kept
        obtain ⟨stored, indexed | unignored⟩ := And.imp_right Bool.or_eq_true_iff.mp kept
        · obtain ⟨other, snapped⟩ := mem_iff_exists.mp (Std.ExtTreeMap.contains_iff_mem.mp indexed)
          rw [← result] at snapped
          have same := (getElem?_filter_eq_some_iff.mp snapped).1
          rw [stored] at same
          cases same
          exact snapped
        · exact getElem?_filter_eq_some_iff.mpr ⟨stored, by simp [unignored]⟩
      · intro snapped
        rw [snapshotTree, getElem?_filter_eq_some_iff] at snapped
        obtain ⟨stored, unignored⟩ := snapped
        rw [Repo.headTree, head] at unignored
        simp only [Std.ExtTreeMap.contains_empty, Bool.false_or] at unignored
        exact getElem?_filter_eq_some_iff.mpr ⟨stored, by simp [unignored]⟩

theorem verify_sound (sound : state.Sound git request)
    (stepped : restoreStep git request state .verify = some next) : next.Sound git request := by
  have known := sound.phase
  simp only [restoreStep] at stepped
  split at stepped
  · rename_i backup phase
    rw [phase] at known
    split at stepped
    · rename_i result
      cases stepped
      obtain ⟨moment, written, moment_sound, kept, stored, index⟩ := known
      exact ⟨sound.untouched, sound.head, moment, written,
        { stored
          confirmed := moment_sound.confirmed
          backed := moment_sound.backed
          backedAll := fun since tracked =>
            (moment_sound.backed since).trans (snapshotTree_eq_nonIgnored tracked)
          ignored := kept.ignored
          result
          resultAll := fun since source =>
            nonIgnored_eq_of_snapshot result (index since source) }⟩
    · cases stepped
      exact sound.fails _
  · cases stepped

theorem fail_sound {message : String} (sound : state.Sound git request)
    (stepped : restoreStep git request state (.fail message) = some next) :
    next.Sound git request := by
  simp only [restoreStep] at stepped
  split at stepped
  · cases stepped
  · cases stepped
  · cases stepped
  · cases stepped
  · cases stepped
    exact sound.fails _

theorem breakOff_sound {message : String} {index work : Tree} (sound : state.Sound git request)
    (stepped : restoreStep git request state (.breakOff message index work) = some next) :
    next.Sound git request := by
  have broken : ∀ {moment : Moment}, ({ state with
      repo := { state.repo with index, work }, written := state.written.or (some moment)
      phase := .failed message } : Restoring).Sound git request := by
    intro moment
    refine ⟨fun unwritten => ?_, sound.head, trivial⟩
    cases written : state.written <;> simp [written] at unwritten
  simp only [restoreStep] at stepped
  split at stepped
  · cases stepped
    exact broken
  · cases stepped
    exact broken
  · cases stepped
    exact broken
  · cases stepped

theorem restoreStep_sound {event : Event} (sound : state.Sound git request)
    (stepped : restoreStep git request state event = some next) : next.Sound git request := by
  cases event with
  | edit => exact edit_sound sound stepped
  | preview => exact preview_sound sound stepped
  | capture => exact capture_sound sound stepped
  | publish => exact publish_sound sound stepped
  | observe => exact observe_sound sound stepped
  | isolate => exact isolate_sound sound stepped
  | check => exact check_sound sound stepped
  | write => exact write_sound sound stepped
  | clean => exact clean_sound sound stepped
  | unstage => exact unstage_sound sound stepped
  | verify => exact verify_sound sound stepped
  | fail => exact fail_sound sound stepped
  | breakOff => exact breakOff_sound sound stepped

theorem Restoring.Sound.safe (sound : state.Sound git request) : state.Safe git request where
  untouched := sound.untouched
  head := sound.head
  restored := by
    intro backup phase
    have known := sound.phase
    rw [phase] at known
    exact known

/-- In every interleaving of a restore with edits by others, what the work tree lost is in
the backup as far as nobody has edited it after the backup and the second look. -/
theorem restore_is_safe (git : Git) (request : Request) (repo : Repo) (events : List Event) :
    EveryState (restoreStep git request) (Restoring.Safe git request) (Restoring.start repo)
      events :=
  everyState_of_invariant restoreStep_sound Restoring.Sound.safe (start_sound repo) events

/-! ## A checkout with one file -/

def treeOf (files : List (Path × String)) : Tree :=
  files.foldl (fun tree file => tree.insert file.1 file.2) ∅

/-- The file `secret` is ignored, and no path is a pattern. -/
def plainGit : Git where
  ignores := fun _ path => decide (path = ["secret"])
  isMeant := fun path other => decide (path <+: other)
  status := fun repo => if repo.work = repo.headTree then "" else " M a"

/-- A checkout with a commit and a checkpoint of that commit. -/
def checkoutOf (index work : Tree) : Repo where
  head := some ("commit", treeOf [(["a"], "one")])
  index := index
  work := work
  refs := fun reference =>
    if reference = "checkpoint" then
      some { head := some "commit", tree := treeOf [(["a"], "one")]
             indexTree := treeOf [(["a"], "one")] }
    else none

def editedCheckout : Repo :=
  checkoutOf (treeOf [(["a"], "one")]) (treeOf [(["a"], "two")])

/-- To restore the checkpoint, as the checkout is. -/
def restoreOf (repo : Repo) : Request where
  reference := "checkpoint"
  tree := treeOf [(["a"], "one")]
  expectedHead := some "commit"
  expectedChecksum := (observe plainGit repo).checksum

def allIsWell : Answers :=
  { full := true, sameFolder := true, isolated := true, idle := true }

/-- A restore with an edit after the second look. -/
def disturbed : List Event :=
  [.preview allIsWell, .capture "b", .publish true, .observe,
    .edit (checkoutOf (treeOf [(["a"], "one")]) (treeOf [(["a"], "three")])),
    .isolate true, .check, .write, .unstage, .verify]

/-- An edit after the second look is overwritten by a restore that succeeds, and is in no
backup. -/
theorem late_edit_is_lost :
    (run (restoreStep plainGit (restoreOf editedCheckout)) (Restoring.start editedCheckout)
      disturbed).map (fun state => (state.phase,
        state.written.map fun moment => nonIgnored plainGit moment.repo, state.repo.work)) =
      some (.restored
        { id := "b", reference := backupReference "b", head := some "commit"
          tree := treeOf [(["a"], "two")], indexTree := treeOf [(["a"], "one")] },
        some (treeOf [(["a"], "three")]), treeOf [(["a"], "one")]) ∧
    (run (restoreStep plainGit (restoreOf editedCheckout)) (Restoring.start editedCheckout)
      disturbed).all (fun state => state.written.all fun moment =>
        decide ((observe plainGit moment.repo).checksum ≠
          (restoreOf editedCheckout).expectedChecksum)) = true := by
  constructor <;> decide +kernel

end Zeron.Restore
