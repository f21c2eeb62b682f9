import Zeron.PullRequests.Kept
import Zeron.PullRequests.Settled

/-!
# The links of a thread over its whole life

All operations on the links of one thread, in any order, from a thread without links.
What the user has dismissed, what each `Sync` has reported and what became of the old
field are kept as history.
-/

namespace Zeron.PullRequests

open Transition

/-- A stack was reported for a target. -/
structure StackReport where
  target : Identity
  layers : List Int
  before : List ThreadPullRequestLink
  after : List ThreadPullRequestLink

/-- What an operation has done to the old field. -/
structure FieldReport where
  legacy : ThreadLinkedPullRequest
  cleared : Bool
  after : List ThreadPullRequestLink

/-- A thread; all but the projection is history. -/
structure Linked where
  projection : ThreadProjection
  /-- The keys of the stack layers that the user has dismissed and not brought back. -/
  dismissed : List String
  reports : List StackReport
  fields : List FieldReport

inductive LinkEvent where
  | operate (operation : PrOperation) (now : Int)
  /-- The metadata command with the old field. -/
  | metadata (linked : Option ThreadLinkedPullRequest) (now : Int)
  /-- Any other command, and the run that a wake has started. -/
  | other (next : ThreadProjection)

variable (lib : Library)

/-- The links of the thread. -/
def Linked.links (linked : Linked) : List ThreadPullRequestLink :=
  linksOf lib linked.projection.thread

/-- The layers that are dismissed after an operation. -/
def dismissedAfter (links : List ThreadPullRequestLink) (dismissed : List String) :
    PrOperation → List String
  | .link target source => if source.explicit then restored target dismissed else dismissed
  | .unlink target =>
      if isLayer lib links target then target.key :: dismissed else dismissed
  | .watch target watching => if watching then restored target dismissed else dismissed
  | .sync .. | .watchSync .. | .settle .. => dismissed

/-- The stack that an operation reports. -/
def stackReport (before after : List ThreadPullRequestLink) : PrOperation → Option StackReport
  | .sync target _ stack _ =>
      some { target, layers := (stack.map fun stack => stack.layers).getD [], before, after }
  | .link .. | .unlink .. | .watch .. | .watchSync .. | .settle .. => none

/-- What has become of the old field. -/
def fieldReport (before after : AppThread) : Option FieldReport :=
  before.linkedPullRequest.map fun legacy =>
    { legacy, cleared := after.linkedPullRequest.isNone, after := linksOf lib after }

/-- A refused operation changes nothing. -/
def linkStep : Step Linked LinkEvent
  | linked, .operate operation now =>
      match plan lib linked.projection now operation with
      | none => some linked
      | some planned =>
          some
            { projection := { linked.projection with
                throughSequence := linked.projection.throughSequence + 1
                thread := planned.thread }
              dismissed := dismissedAfter lib (linked.links lib) linked.dismissed operation
              reports := linked.reports ++
                (stackReport (linked.links lib) (linksOf lib planned.thread) operation).toList
              fields := linked.fields ++
                (fieldReport lib linked.projection.thread planned.thread).toList }
  | linked, .metadata field now =>
      let thread := updateMetadata lib linked.projection.thread field now
      some
        { linked with
          projection := { linked.projection with
            throughSequence := linked.projection.throughSequence + 1
            thread }
          dismissed := (field.map (legacyIdentity lib)).elim linked.dismissed
            (restored · linked.dismissed)
          fields := linked.fields ++
            (if field = none then fieldReport lib linked.projection.thread thread
              else none).toList }
  | linked, .other next =>
      if next.thread.pullRequests = linked.projection.thread.pullRequests ∧
          next.thread.linkedPullRequest = linked.projection.thread.linkedPullRequest then
        some { linked with projection := next }
      else none

/-! ## What is said of every state -/

/-- A stack report has taken no link away, and every layer has one link after it. -/
def StackReport.Kept (report : StackReport) : Prop :=
  report.before.map (linkKey lib) <+: report.after.map (linkKey lib) ∧
    ∀ layer ∈ report.layers, report.after.countP (isLayerOf lib report.target layer) = 1

/-- The old field was cleared exactly if its link could not be seen any more. -/
def FieldReport.Exact (report : FieldReport) : Prop :=
  report.cleared = true ↔ ¬ FieldSeen lib report.after report.legacy

structure Linked.Good (linked : Linked) : Prop where
  distinct : ((linked.links lib).map (linkKey lib)).Nodup
  watched : ∀ link ∈ linked.links lib, link.watch.isSome = true → link.visible = true
  dismissed : ∀ link ∈ linked.links lib, linkKey lib link ∈ linked.dismissed → link.visible = false
  field : ∀ legacy, linked.projection.thread.linkedPullRequest = some legacy →
    FieldSeen lib (linked.links lib) legacy
  reports : ∀ report ∈ linked.reports, report.Kept lib
  fields : ∀ report ∈ linked.fields, report.Exact lib

/-- The invariant: what is dismissed still has its link. -/
structure Linked.Inv (linked : Linked) : Prop where
  coherent : Coherent lib (linked.links lib) linked.dismissed
  field : ∀ legacy, linked.projection.thread.linkedPullRequest = some legacy →
    FieldSeen lib (linked.links lib) legacy
  reports : ∀ report ∈ linked.reports, report.Kept lib
  fields : ∀ report ∈ linked.fields, report.Exact lib

/-- Every name that is stored is the one that the URL gives, and no layer is dismissed
that is dismissed already and in no stack any more. -/
def CarefulOperation (thread : AppThread) (links : List ThreadPullRequestLink) (now : Int) :
    PrOperation → Prop
  | .link target source =>
      (∀ link ∈ links, linkKey lib link = target.key →
          link.visible = false ∧ source.explicit = true) →
        linkKey lib (storedLink lib links target source now) = target.key ∧
          ∀ branch ∈ thread.branchPullRequest.bind (parseUrl lib),
            linkKey lib (newLink branch .manual now) = branch.key
  | .unlink target =>
      ∀ link ∈ links, linkKey lib link = target.key → link.visible = false →
        isLayer lib links target = true
  | .watch target watching =>
      watching = true →
        (∀ link ∈ links, linkKey lib link = target.key → link.visible = false) →
          linkKey lib (newLink target .agent now) = target.key
  | .sync target _ stack _ =>
      ((stack.map fun stack => stack.layers).getD [] ≠ [] →
        target.key ∈ links.map (linkKey lib)) ∧
      Layered lib links target ((stack.map fun stack => stack.layers).getD []) now
  | .watchSync .. | .settle .. => True

def Careful (linked : Linked) : LinkEvent → Prop
  | .operate operation now =>
      (∀ legacy ∈ linked.projection.thread.linkedPullRequest, FieldNamed lib legacy) ∧
        CarefulOperation lib linked.projection.thread (linked.links lib) now operation
  | .metadata field now =>
      ∀ legacy ∈ field, linkKey lib (newLink (legacyIdentity lib legacy) .manual now) =
        (legacyIdentity lib legacy).key
  | .other _ => True

instance (legacy : ThreadLinkedPullRequest) : Decidable (FieldNamed lib legacy) :=
  inferInstanceAs (Decidable (_ = _))

instance (links : List ThreadPullRequestLink) (target : Identity) (layers : List Int)
    (time : Int) : Decidable (Layered lib links target layers time) := by
  unfold Layered
  infer_instance

instance (thread : AppThread) (links : List ThreadPullRequestLink) (now : Int)
    (operation : PrOperation) : Decidable (CarefulOperation lib thread links now operation) := by
  cases operation <;> unfold CarefulOperation <;> infer_instance

instance (linked : Linked) (event : LinkEvent) : Decidable (Careful lib linked event) := by
  cases event <;> unfold Careful <;> infer_instance

variable {lib} {linked next : Linked} {event : LinkEvent} {operation : PrOperation} {now : Int}

theorem Linked.Inv.good (inv : linked.Inv lib) : linked.Good lib :=
  { distinct := inv.coherent.distinct
    watched := inv.coherent.watched
    dismissed := fun _ listed gone => inv.coherent.hidden gone listed rfl
    field := inv.field
    reports := inv.reports
    fields := inv.fields }

variable {planned : Planned}

/-- What an operation commits is a new list of links. -/
theorem exists_withLinks {projection : ThreadProjection}
    (committed : plan lib projection now operation = some planned) :
    ∃ thread, thread.linkedPullRequest = projection.thread.linkedPullRequest ∧
      planned.thread = withLinks lib thread (linksOf lib planned.thread) := by
  cases operation with
  | settle expectedSequence settledAt autoMerge afterDays =>
      simp only [plan] at committed
      split at committed
      · cases committed
      · split at committed
        · cases committed
        · cases committed
          exact ⟨{ projection.thread with
            settledAt := some settledAt
            settledOverride := some .settled
            pinnedAt := none }, rfl, rfl⟩
  | link target source =>
      cases committed
      exact ⟨_, rfl, rfl⟩
  | unlink target =>
      cases committed
      exact ⟨_, rfl, rfl⟩
  | watch target watching =>
      obtain ⟨after, -, rfl⟩ := Option.map_eq_some_iff.mp committed
      exact ⟨_, rfl, rfl⟩
  | sync target snapshot stack preserveStack =>
      obtain ⟨after, -, rfl⟩ := Option.map_eq_some_iff.mp committed
      exact ⟨_, rfl, rfl⟩
  | watchSync target startedAt watch wake =>
      obtain ⟨after, -, rfl⟩ := Option.map_eq_some_iff.mp committed
      exact ⟨_, rfl, rfl⟩

section

variable (inv : linked.Inv lib) (careful : Careful lib linked (.operate operation now)) (committed : plan lib linked.projection now operation = some planned)
include inv careful committed

/-- The links stay coherent, and the report of a stack is kept. -/
theorem Linked.Inv.plan_spec :
    Coherent lib (linksOf lib planned.thread)
        (dismissedAfter lib (linked.links lib) linked.dismissed operation) ∧
      ∀ report, stackReport (linked.links lib) (linksOf lib planned.thread) operation =
        some report → report.Kept lib := by
  obtain ⟨-, careful⟩ := careful
  cases operation with
  | settle expectedSequence settledAt autoMerge afterDays =>
      refine ⟨?_, fun _ report => by cases report⟩
      simp only [plan] at committed
      split at committed
      · cases committed
      · split at committed
        · cases committed
        · cases committed
          exact inv.coherent
  | link target source =>
      cases committed
      exact ⟨inv.coherent.planLink careful, fun _ report => by cases report⟩
  | unlink target =>
      cases committed
      exact ⟨inv.coherent.planUnlink careful, fun _ report => by cases report⟩
  | watch target watching =>
      obtain ⟨after, planned, rfl⟩ := Option.map_eq_some_iff.mp committed
      exact ⟨inv.coherent.planWatch careful planned, fun _ report => by cases report⟩
  | sync target snapshot stack preserveStack =>
      obtain ⟨after, planned, rfl⟩ := Option.map_eq_some_iff.mp committed
      obtain ⟨coherent, kept, present⟩ := inv.coherent.planSync careful.1 careful.2 planned
      refine ⟨coherent, fun report reported => ?_⟩
      cases reported
      exact ⟨kept, present⟩
  | watchSync target startedAt watch wake =>
      obtain ⟨after, planned, rfl⟩ := Option.map_eq_some_iff.mp committed
      exact ⟨inv.coherent.planWatchSync planned, fun _ report => by cases report⟩

/-- An operation that commits keeps the invariant. -/
theorem Linked.Inv.operate (stepped : linkStep lib linked (.operate operation now) = some next) :
    next.Inv lib := by
  obtain ⟨coherent, reported⟩ := inv.plan_spec careful committed
  obtain ⟨thread, same, commits⟩ := exists_withLinks committed
  simp only [linkStep, committed, Option.some.injEq] at stepped
  subst stepped
  have field : ∀ legacy, linked.projection.thread.linkedPullRequest = some legacy →
      (FieldSeen lib (linksOf lib planned.thread) legacy ∧
        planned.thread.linkedPullRequest = some legacy) ∨
      (¬ FieldSeen lib (linksOf lib planned.thread) legacy ∧
        planned.thread.linkedPullRequest = none) := by
    intro legacy there
    have kept := linkedPullRequest_withLinks (linksOf lib planned.thread) (same.trans there)
      (careful.1 legacy there)
    rwa [← commits] at kept
  exact
    { coherent := coherent
      field := fun legacy there => by
        cases before : linked.projection.thread.linkedPullRequest with
        | none =>
            have none : (withLinks lib thread (linksOf lib planned.thread)).linkedPullRequest =
                none := linkedPullRequest_withLinks_of_none (same.trans before)
            rw [← commits] at none
            exact absurd (there.symm.trans none) nofun
        | some old =>
            obtain ⟨seen, kept⟩ | ⟨-, cleared⟩ := field old before
            · rw [Option.some.inj (there.symm.trans kept)]
              exact seen
            · exact absurd (there.symm.trans cleared) nofun
      reports := fun report listed => by
        obtain listed | listed := List.mem_append.mp listed
        · exact inv.reports report listed
        · exact reported report (Option.mem_toList.mp listed)
      fields := fun report listed => by
        obtain listed | listed := List.mem_append.mp listed
        · exact inv.fields report listed
        · obtain ⟨legacy, there, rfl⟩ := Option.map_eq_some_iff.mp (Option.mem_toList.mp listed)
          obtain ⟨seen, kept⟩ | ⟨unseen, cleared⟩ := field legacy there
          · simp [FieldReport.Exact, kept, seen]
          · simp [FieldReport.Exact, cleared, unseen] }

end

theorem Linked.Inv.metadata {field : Option ThreadLinkedPullRequest} (inv : linked.Inv lib)
    (careful : Careful lib linked (.metadata field now))
    (stepped : linkStep lib linked (.metadata field now) = some next) : next.Inv lib := by
  obtain ⟨coherent, seen, unseen⟩ := inv.coherent.metadata inv.field careful
  cases stepped
  exact
    { coherent := coherent
      field := seen
      reports := inv.reports
      fields := fun report listed => by
        obtain listed | listed := List.mem_append.mp listed
        · exact inv.fields report listed
        · cases field with
          | none =>
              obtain ⟨legacy, there, rfl⟩ := Option.map_eq_some_iff.mp (Option.mem_toList.mp listed)
              exact iff_of_true rfl (unseen rfl legacy there)
          | some legacy => simp at listed }

theorem Linked.Inv.step (inv : linked.Inv lib) (careful : Careful lib linked event)
    (stepped : linkStep lib linked event = some next) : next.Inv lib := by
  cases event with
  | operate operation now =>
      cases committed : plan lib linked.projection now operation with
      | none =>
          simp only [linkStep, committed, Option.some.injEq] at stepped
          subst stepped
          exact inv
      | some planned => exact inv.operate careful committed stepped
  | metadata field now => exact inv.metadata careful stepped
  | other projection =>
      simp only [linkStep] at stepped
      split at stepped
      · rename_i same
        cases stepped
        have links : Linked.links lib { linked with projection } = linked.links lib := by
          simp [Linked.links, linksOf, same]
        exact
          { coherent := links ▸ inv.coherent
            field := fun legacy there => by
              rw [links]
              exact inv.field legacy (same.2 ▸ there)
            reports := inv.reports
            fields := inv.fields }
      · cases stepped

/-- A thread that has no links yet. -/
def startLinked (projection : ThreadProjection) : Linked where
  projection := projection
  dismissed := []
  reports := []
  fields := []

/-- The links of a thread stay coherent in every run in which every name is the one that
the URL gives and no layer is dismissed twice. -/
theorem links_stay_coherent_of_careful (lib : Library) (projection : ThreadProjection)
    (no_links : projection.thread.pullRequests.getD [] = [])
    (no_field : projection.thread.linkedPullRequest = none) (events : List LinkEvent)
    (careful : EveryStep (linkStep lib) (Careful lib) (startLinked projection) events) :
    EveryState (linkStep lib) (Linked.Good lib) (startLinked projection) events := by
  have empty : linksOf lib projection.thread = [] := by
    cases list : projection.thread.pullRequests with
    | none => simp [linksOf, list, no_field]
    | some links => simpa [linksOf, list] using no_links
  refine everyState_of_everyStep (fun inv careful stepped => inv.step careful stepped)
    Linked.Inv.good ?_ careful
  refine
    { coherent := ?_
      field := fun legacy there => by cases no_field.symm.trans there
      reports := fun _ listed => by cases listed
      fields := fun _ listed => by cases listed }
  change Coherent lib (linksOf lib projection.thread) []
  rw [empty]
  exact
    { distinct := List.nodup_nil
      watched := fun _ listed => by cases listed
      gone := fun _ listed => by cases listed }

/-! ## Runs at one host -/

/-- URLs of the form `https://host/path`. -/
def plainLibrary : Library where
  parse value := (stripPrefix "https://" value).bind fun rest =>
    match Data.segments '/' rest with
    | [] => none
    | host :: path =>
        some
          { scheme := "https", rest := "", host := some host.toLower, port := none
            path := String.intercalate "/" ("" :: path) }
  render url := url.scheme ++ "://" ++ url.rest ++ url.host.getD "" ++ url.path
  lowercase := String.toLower

/-- A pull request of one repository. -/
def pullRequest (number : Int) : Identity where
  host := "github.com"
  repository := "a/b"
  number := number
  url := "https://github.com/a/b/pull/" ++ toString number

def openedSnapshot : ThreadPullRequestSnapshot where
  state := .opened
  headBranch := "feature"
  baseBranch := "main"
  closedAt := none
  mergedAt := none

/-- A stack is reported, its second layer is dismissed, and linked again by name. -/
def dismissedAndLinked : List LinkEvent :=
  [.operate (.link (pullRequest 1) .manual) 1,
    .operate (.sync (pullRequest 1) openedSnapshot (some { id := "stack", layers := [1, 2] }) false) 2,
    .operate (.unlink (pullRequest 2)) 3,
    .operate (.sync (pullRequest 1) openedSnapshot (some { id := "stack", layers := [1, 2] }) false) 4,
    .operate (.link (pullRequest 2) .agent) 5,
    .operate (.watch (pullRequest 2) true) 6,
    .metadata
      (some { repository := "a/b", number := 2, url := "https://github.com/a/b/pull/2" }) 7,
    .operate (.unlink (pullRequest 2)) 8]

theorem links_stay_coherent_when_linked_again :
    ((run (linkStep plainLibrary) (startLinked quietThread) dismissedAndLinked).map fun linked =>
        (linked.dismissed, linked.reports.length, linked.fields.map fun field => field.cleared)) =
      some (["github.com/a/b#2"], 2, [true]) ∧
    EveryState (linkStep plainLibrary) (Linked.Good plainLibrary) (startLinked quietThread)
      dismissedAndLinked :=
  ⟨by decide +kernel,
    links_stay_coherent_of_careful plainLibrary quietThread rfl rfl dismissedAndLinked
      (everyStep_of_checkSteps (fun linked event => decide (Careful plainLibrary linked event))
        (fun _ _ careful => of_decide_eq_true careful) (by decide +kernel))⟩

/-- A layer is dismissed, dismissed again while no stack names it, and reported again. -/
def dismissedTwice : List LinkEvent :=
  [.operate (.link (pullRequest 1) .manual) 1,
    .operate (.sync (pullRequest 1) openedSnapshot (some { id := "stack", layers := [1, 2] }) false) 2,
    .operate (.unlink (pullRequest 2)) 3,
    .operate (.sync (pullRequest 1) openedSnapshot none false) 4,
    .operate (.unlink (pullRequest 2)) 5,
    .operate (.sync (pullRequest 1) openedSnapshot (some { id := "stack", layers := [1, 2] }) false) 6]

/-- A layer that is dismissed twice comes back with the next stack. -/
theorem layer_dismissed_twice_comes_back :
    ¬ ∀ (lib : Library) (projection : ThreadProjection),
      projection.thread.pullRequests.getD [] = [] →
      projection.thread.linkedPullRequest = none →
      ∀ events, EveryState (linkStep lib) (Linked.Good lib) (startLinked projection) events := by
  intro always
  have seen : ((run (linkStep plainLibrary) (startLinked quietThread) dismissedTwice).any
      fun linked => (linked.links plainLibrary).any fun link =>
        decide (linkKey plainLibrary link ∈ linked.dismissed) && link.visible) = true := by
    decide +kernel
  obtain ⟨linked, ran, seen⟩ := (Option.any_eq_true _ _).mp seen
  obtain ⟨link, listed, seen⟩ := List.any_eq_true.mp seen
  obtain ⟨dismissed, visible⟩ := Bool.and_eq_true_iff.mp seen
  have good := (always plainLibrary quietThread rfl rfl dismissedTwice).final ran
  rw [good.dismissed link listed (of_decide_eq_true dismissed)] at visible
  cases visible

end Zeron.PullRequests
