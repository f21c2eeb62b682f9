import Zeron.Orchestration.Thread
import Zeron.PullRequests.Links
import Mathlib.Data.Int.ConditionallyCompleteOrder
import Mathlib.Order.ConditionallyCompleteLattice.Basic

/-!
# When a thread settles by itself

A thread settles when its work is done and its last pull request is closed or merged, or
when nobody has touched it for days.
-/

namespace Zeron.PullRequests

open Orchestration (RunStatus)

/-- The rows of runs are in the order of their ordinals. -/
structure Run where
  ordinal : Nat
  status : RunStatus
  requestedAt : Option Int
  startedAt : Option Int
  completedAt : Option Int

structure Message where
  user : Bool
  notification : Bool
  createdAt : Option Int

/-- The read model of a thread, as far as pull requests go. -/
structure ThreadProjection where
  throughSequence : Nat
  thread : AppThread
  runs : List Run
  messages : List Message
  /-- Of each runtime request, whether it is pending. -/
  pendingRequests : List Bool
  /-- The background tasks of each provider thread. -/
  backgroundTasks : List (List String)
  subagents : List RunStatus

structure Candidate where
  createdAt : Option Int
  userAt : Option Int
  requestedAt : Option Int
  startedAt : Option Int
  completedAt : Option Int
  hasRun : Bool
  failed : Bool
  archived : Bool
  overridePresent : Bool
  pinned : Bool
  autoDisabled : Bool
  pendingRequest : Bool
  active : Bool
  background : Bool
  snoozedUntil : Option Int
  snoozedAt : Option Int

/-- `active_run`, as far as it is asked whether there is one. -/
def hasActiveRun (projection : ThreadProjection) : Bool :=
  projection.runs.any fun run => !run.status.terminal && decide (run.status ≠ .queued)

/-- `max` of the times that are there. -/
def latestTime (times : List (Option Int)) : Option Int :=
  (times.filterMap id).max?

def candidate (projection : ThreadProjection) : Candidate where
  createdAt := projection.thread.createdAt
  -- Monitor wakes are not user engagement.
  userAt := latestTime <| (projection.messages.filter fun message =>
    message.user && !message.notification).map fun message => message.createdAt
  requestedAt := projection.runs.getLast?.bind fun run => run.requestedAt
  startedAt := projection.runs.getLast?.bind fun run => run.startedAt
  completedAt := projection.runs.getLast?.bind fun run => run.completedAt
  hasRun := projection.runs.getLast?.isSome
  failed := projection.runs.getLast?.any fun run => decide (run.status = .failed)
  archived := projection.thread.archivedAt.isSome || projection.thread.deletedAt.isSome
  overridePresent := projection.thread.settledOverride.isSome
  pinned := projection.thread.pinnedAt.isSome
  autoDisabled := projection.thread.autoSettleDisabledAt.isSome
  pendingRequest := projection.pendingRequests.any id
  active := hasActiveRun projection
  background := (projection.backgroundTasks.any fun tasks => decide (tasks ≠ [])) ||
    projection.subagents.any fun status => !status.terminal
  snoozedUntil := projection.thread.snoozedUntil
  snoozedAt := projection.thread.snoozedAt

/-- A message was sent just now, and no run has answered it yet. -/
def queuedStart (c : Candidate) (now : Int) : Bool :=
  match c.userAt with
  | none => false
  | some sent =>
      if c.failed ∨ 120000 < (now - sent).natAbs then false
      else
        !c.hasRun || [c.requestedAt, c.startedAt, c.completedAt].all fun time =>
          time.all fun time => decide (time < sent)

def eligible (c : Candidate) (now : Int) : Bool :=
  if c.archived || c.overridePresent || c.pinned || c.autoDisabled || c.pendingRequest ||
      c.active || c.background || queuedStart c now then false
  else if c.snoozedUntil.all fun ends => decide (ends ≤ now) then true
  else
    let completedAfter := c.snoozedAt.any fun snoozed =>
      c.completedAt.any fun completed => decide (snoozed < completed)
    (c.failed && (c.snoozedAt.isNone || completedAfter)) || completedAfter

/-- When a pull request was closed or merged. -/
def ThreadPullRequestSnapshot.endedAt (snapshot : ThreadPullRequestSnapshot) : Option Int :=
  match snapshot.state with
  | .merged => snapshot.mergedAt
  | .opened | .closed => snapshot.closedAt

/-- The states of pull requests with their ends. -/
abbrev Ended := PullRequestState × WithBot Int

instance decidableEndLE : DecidableLE (WithBot Int)
  | none, _ => isTrue bot_le
  | some first, none => isFalse (WithBot.not_coe_le_bot first)
  | some first, some second => decidable_of_iff (first ≤ second) WithBot.coe_le_coe.symm

/-- `max_by_key`: of several that are the latest, the last one. -/
def latestOf : List Ended → Option Ended
  | [] => none
  | first :: rest => some (rest.foldl (fun best next => if best.2 ≤ next.2 then next else best) first)

def ThreadPullRequestSnapshot.ended (snapshot : ThreadPullRequestSnapshot) : Ended :=
  (snapshot.state, snapshot.endedAt)

def activity (c : Candidate) : Option Int :=
  latestTime [c.userAt, c.requestedAt, c.startedAt, c.completedAt]

/-- The last time that the user has touched the thread. -/
def anchor (c : Candidate) : Option Int :=
  latestTime [c.createdAt, c.userAt, c.requestedAt]

/-- The thread has been inactive for longer than the days. -/
def inactiveSince (c : Candidate) (now : Int) (afterDays : Option Int) : Option Int :=
  (activity c).filter fun time => afterDays.any fun days => decide (time < now - days * 86400000)

/-- What the last end of a pull request leads to. -/
def settleBy (c : Candidate) (now : Int) (autoMerge : Bool) (afterDays : Option Int) (since : Int) :
    Option Ended → Option Int
  | some (state, some time) =>
      if since ≤ time ∧ (state = .closed ∨ state = .merged ∧ autoMerge = true) then
        (activity c).or c.createdAt
      else inactiveSince c now afterDays
  | _ => inactiveSince c now afterDays

/-- `settlement::resolve`: the time as of which a thread settles. -/
def resolve (c : Candidate) (links : List ThreadPullRequestLink) (now : Int) (autoMerge : Bool)
    (afterDays : Option Int) : Option Int :=
  let links := links.filter fun link => link.visible
  if links.any fun link => link.snapshot.all fun snapshot => decide (snapshot.state = .opened) then
    none
  else if eligible c now then
    (anchor c).bind fun since =>
      settleBy c now autoMerge afterDays since
        (latestOf (links.filterMap fun link => link.snapshot.map fun snapshot => snapshot.ended))
  else none

end Zeron.PullRequests

/-!
## Operations on the pull requests of a thread

An operation is planned on one snapshot of the thread, in the transaction that commits
it.  A refused one commits nothing.
-/

namespace Zeron.PullRequests

open Data

/-- News of a pull request, as a message for the agent. -/
structure Wake where
  text : List String
  outcome : String
  summary : String

inductive PrOperation where
  | link (target : Identity) (source : ThreadPullRequestLinkSource)
  | unlink (target : Identity)
  | watch (target : Identity) (watching : Bool)
  | sync (target : Identity) (snapshot : ThreadPullRequestSnapshot)
      (stack : Option ThreadPullRequestStack) (preserveStack : Bool)
  | watchSync (target : Identity) (startedAt : Int) (watch : Option ThreadPullRequestWatch)
      (wake : Option Wake)
  | settle (expectedSequence : Nat) (settledAt : Int) (autoMerge : Bool) (afterDays : Option Int)

/-- The run that a wake is queued or started as. -/
structure QueuedWake where
  ordinal : Nat
  queued : Bool
  wake : Wake

/-- What an operation commits. -/
structure Planned where
  thread : AppThread
  wake : Option QueuedWake
  settled : Bool

variable (lib : Library)

/-- The link of a target. -/
def indexOf (links : List ThreadPullRequestLink) (target : Identity) : Option Nat :=
  links.findIdx? fun link => decide (linkKey lib link = target.key)

/-- The pull request of the branch, which goes in front of the first manual link. -/
def branchLink (thread : AppThread) (links : List ThreadPullRequestLink) (target : Identity)
    (source : ThreadPullRequestLinkSource) (time : Int) : Option ThreadPullRequestLink :=
  if source = .manual ∧ links.all (fun link => !link.visible) = true then
    (thread.branchPullRequest.bind (parseUrl lib)).bind fun branch =>
      if branch.key ≠ target.key ∧ links.all (fun link => decide (linkKey lib link ≠ branch.key)) then
        some (newLink branch .manual time)
      else none
  else none

/-- The arm for `Link`. -/
def planLink (thread : AppThread) (links : List ThreadPullRequestLink) (target : Identity)
    (source : ThreadPullRequestLinkSource) (time : Int) : List ThreadPullRequestLink :=
  let index := indexOf lib links target
  let found := index.bind fun i => links[i]?
  let undismiss := found.any fun link =>
    decide (link.source = .stackDismissed) && decide (source ≠ .stack ∧ source ≠ .stackDismissed)
  if index.isNone ∨ undismiss = true then
    let rest := match index with
      | some i => links.eraseIdx i
      | none => links
    let link := { found.getD (newLink target source time) with source, url := target.url }
    (branchLink lib thread rest target source time).toList ++ rest ++ [link]
  else links

/-- A link in the same repository that has the target in its stack. -/
def namedByStack (links : List ThreadPullRequestLink) (target : Identity) : Bool :=
  links.any fun link =>
    decide ((identity lib link).host = target.host) &&
      decide ((identity lib link).repository = target.repository) &&
      link.stack.any fun stack => decide (target.number ∈ stack.layers)

/-- The arm for `Unlink`: a layer of a stack is dismissed. -/
def planUnlink (links : List ThreadPullRequestLink) (target : Identity) :
    List ThreadPullRequestLink :=
  match indexOf lib links target with
  | none => links
  | some i =>
      match links[i]? with
      | none => links
      | some link =>
          if link.source = .stack ∨ link.stack.isSome ∨ namedByStack lib links target = true then
            links.set i { link with source := .stackDismissed, watch := none }
          else links.eraseIdx i

def freshWatch (time : Int) : ThreadPullRequestWatch where
  startedAt := time
  headSha := none
  failedChecks := []
  passed := false
  remarksThrough := time
  remarkIds := []
  conflicting := false
  wakes := 0

/-- The arm for `Watch`.  A dismissed link is replaced. -/
def planWatch (links : List ThreadPullRequestLink) (target : Identity) (watching : Bool)
    (time : Int) : Option (List ThreadPullRequestLink) :=
  let index := (indexOf lib links target).filter fun i =>
    links[i]?.any fun link => link.visible
  let added := (links.filter fun link => decide (linkKey lib link ≠ target.key)) ++
    [newLink target .agent time]
  let place : List ThreadPullRequestLink × Option Nat :=
    if watching = true ∧ index = none then (added, some (added.length - 1)) else (links, index)
  match place.2 with
  | none => some place.1
  | some i =>
      match place.1[i]? with
      | none => some place.1
      | some link =>
          if watching = true ∧ link.snapshot.any (fun snapshot =>
              decide (snapshot.state ≠ .opened)) = true then none
          else
            some (place.1.set i { link with
              watch := if watching then some (link.watch.getD (freshWatch time)) else none })

/-- The layers of a stack that are not linked yet, each with a link of its own. -/
def addLayers (target : Identity) (time : Int) :
    List Int → List ThreadPullRequestLink → Option (List ThreadPullRequestLink)
  | [], links => some links
  | layer :: layers, links =>
      if links.any fun link =>
          decide ((identity lib link).host = target.host) &&
            decide ((identity lib link).repository = target.repository) &&
            decide (link.number = layer) then
        addLayers target time layers links
      else
        (siblingUrl lib target.url layer).bind fun url =>
          addLayers target time layers
            (links ++ [newLink { target with number := layer, url } .stack time])

/-- The arm for `Sync`: all siblings are there before a snapshot is recorded. -/
def planSync (links : List ThreadPullRequestLink) (target : Identity)
    (snapshot : ThreadPullRequestSnapshot) (stack : Option ThreadPullRequestStack)
    (preserveStack : Bool) (time : Int) : Option (List ThreadPullRequestLink) :=
  match indexOf lib links target with
  | none => some links
  | some i =>
      (addLayers lib target time ((stack.map fun stack => stack.layers).getD []) links).map
        fun links => links.modify i fun link =>
          { link with
            snapshot := some snapshot
            stack := if preserveStack then link.stack else stack }

/-- A thread that is not woken. -/
def AppThread.unwakeable (thread : AppThread) : Bool :=
  thread.archivedAt.isSome || thread.deletedAt.isSome || thread.settledAt.isSome ||
    decide (thread.settledOverride = some .settled) || thread.providerSubagent

/-- The arm for `WatchSync`, which compares the watch with the one that was read. -/
def planWatchSync (thread : AppThread) (links : List ThreadPullRequestLink) (target : Identity)
    (startedAt : Int) (watch : Option ThreadPullRequestWatch) (wake : Option Wake) :
    Option (List ThreadPullRequestLink) :=
  match (indexOf lib links target).filter fun i => links[i]?.any fun link =>
      link.visible && link.watch.any fun watch => decide (watch.startedAt = startedAt) with
  | none => none
  | some i =>
      if wake.isSome = true ∧ thread.unwakeable = true then none
      else some (links.modify i fun link => { link with watch })

/-- The run for a wake. -/
def queueWake (projection : ThreadProjection) (wake : Wake) : QueuedWake where
  ordinal := ((projection.runs.map fun run => run.ordinal).max?).getD 0 + 1
  queued := hasActiveRun projection
  wake := wake

/-- The old field is cleared when its link cannot be seen any more. -/
def clearLegacy (thread : AppThread) (links : List ThreadPullRequestLink) : AppThread :=
  match thread.linkedPullRequest with
  | none => thread
  | some legacy =>
      if links.any fun link => link.visible &&
          decide (some (linkKey lib link) = (parseUrl lib legacy.url).map Identity.key) then thread
      else { thread with linkedPullRequest := none }

/-- The thread with a new list of links. -/
def withLinks (thread : AppThread) (links : List ThreadPullRequestLink) : AppThread :=
  { clearLegacy lib thread links with pullRequests := some links }

/-- `plan`. -/
def plan (projection : ThreadProjection) (now : Int) : PrOperation → Option Planned
  | .settle expectedSequence settledAt autoMerge afterDays =>
      let thread := projection.thread
      let links := linksOf lib thread
      if projection.throughSequence ≠ expectedSequence then none
      else if (resolve (candidate projection) links now autoMerge afterDays).isNone then none
      else
        some
          { thread := withLinks lib { thread with
              settledAt := some settledAt
              settledOverride := some .settled
              pinnedAt := none } links
            wake := none
            settled := true }
  | .link target source =>
      some
        { thread := withLinks lib projection.thread
            (planLink lib projection.thread (linksOf lib projection.thread) target source now)
          wake := none
          settled := false }
  | .unlink target =>
      some
        { thread := withLinks lib projection.thread
            (planUnlink lib (linksOf lib projection.thread) target)
          wake := none
          settled := false }
  | .watch target watching =>
      (planWatch lib (linksOf lib projection.thread) target watching now).map fun next =>
        { thread := withLinks lib projection.thread next, wake := none, settled := false }
  | .sync target snapshot stack preserveStack =>
      (planSync lib (linksOf lib projection.thread) target snapshot stack preserveStack now).map
        fun next =>
          { thread := withLinks lib projection.thread next, wake := none, settled := false }
  | .watchSync target startedAt watch wake =>
      (planWatchSync lib projection.thread (linksOf lib projection.thread) target startedAt watch
        wake).map fun next =>
          { thread := withLinks lib projection.thread next
            wake := wake.map (queueWake projection)
            settled := false }

end Zeron.PullRequests
