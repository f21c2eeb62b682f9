import Zeron.Data.Text

/-!
# Identities of pull requests

A pull request is named by a host, a repository and a number, and most often by a URL.
Hosts that go by several names are given one of them.
-/

namespace Zeron.PullRequests

open Data

/-- The parts of a URL that are read; `rest` is the part before the host. -/
structure Url where
  scheme : String
  rest : String
  host : Option String
  port : Option Nat
  path : String

/-- The operations of other libraries: parsing a URL, showing one without its query and
fragment, and `to_lowercase`. -/
structure Library where
  parse : String → Option Url
  render : Url → String
  lowercase : String → String

structure Identity where
  host : String
  repository : String
  number : Int
  url : String

def Identity.key (identity : Identity) : String :=
  identity.host ++ "/" ++ identity.repository ++ "#" ++ toString identity.number

/-- `is_host`. -/
def isHost (host apex label : String) : Bool :=
  decide (host = apex) || ('.' :: apex.toList).isSuffixOf host.toList ||
    decide (label ∈ segments '.' host)

/-- `strip_suffix`. -/
def stripSuffix (suffix text : String) : Option String :=
  if suffix.toList.isSuffixOf text.toList then
    some (String.ofList (text.toList.take (text.toList.length - suffix.toList.length)))
  else none

/-- `strip_prefix`. -/
def stripPrefix (start text : String) : Option String :=
  if start.toList.isPrefixOf text.toList then
    some (String.ofList (text.toList.drop start.toList.length))
  else none

variable (lib : Library)

/-- The one name of a repository at hosts with several. -/
def canonical (host repository : String) : String × String :=
  let host := lib.lowercase (trimmed host)
  let repository := lib.lowercase (trimmed repository)
  let visualStudio : Option (String × String) :=
    (stripSuffix ".visualstudio.com" host).bind fun org =>
      if '.' ∈ org.toList then none
      else
        let path := (stripPrefix "defaultcollection/" repository).getD repository
        match segments '/' path with
        | [_, "_git", _] => some ("dev.azure.com", org ++ "/" ++ path)
        | _ => none
  match segments '/' repository with
  | ["v3", org, project, name] =>
      if host = "ssh.dev.azure.com" ∨ host = "vs-ssh.visualstudio.com" then
        ("dev.azure.com", org ++ "/" ++ project ++ "/_git/" ++ name)
      else visualStudio.getD (host, repository)
  | _ => visualStudio.getD (host, repository)

/-- Where a host has its pull requests: which hosts, which repositories, and what stands
between the repository and the number. -/
structure Route where
  allowed : String → Bool
  repository : List String → Bool
  marker : List String
  /-- The port belongs to the host. -/
  withPort : Bool

/-- `ROUTES`, in the order in which they are tried. -/
def routes : List Route :=
  [{ allowed := fun host => isHost host "github.com" "github"
     repository := fun parts => decide (parts.length = 2)
     marker := ["pull"], withPort := false },
   { allowed := fun _ => true
     repository := fun parts => decide (2 ≤ parts.length)
     marker := ["pulls"], withPort := true },
   { allowed := fun _ => true
     repository := fun parts => decide (2 ≤ parts.length)
     marker := ["-", "merge_requests"], withPort := false },
   { allowed := fun host => isHost host "bitbucket.org" "bitbucket"
     repository := fun parts => decide (parts.length = 2)
     marker := ["pull-requests"], withPort := false },
   { allowed := fun host =>
      isHost host "dev.azure.com" "" || ".visualstudio.com".toList.isSuffixOf host.toList
     repository := fun parts => decide (parts.reverse[1]? = some "_git")
     marker := ["pullrequest"], withPort := false }]

def isNumber (text : String) : Bool :=
  decide (text ≠ "") && text.toList.all Char.isDigit

/-- The value of a number. -/
def numberOf (text : String) : Nat :=
  text.toList.foldl (fun value digit => 10 * value + (digit.toNat - '0'.toNat)) 0

/-- The repository and the number in the segments of a path.  The repository is as long
as it can be. -/
def Route.captures (route : Route) (parts : List String) : Option (List String × String) :=
  (List.range parts.length).reverse.findSome? fun i =>
    let repository := parts.take i
    if route.repository repository && repository.all (fun part => decide (part ≠ "")) &&
        route.marker.isPrefixOf (parts.drop i) then
      match (parts.drop (i + route.marker.length)).head? with
      | some number => if isNumber number then some (repository, number) else none
      | none => none
    else none

/-- `parse_url`. -/
def parseUrl (value : String) : Option Identity :=
  (lib.parse value).bind fun url =>
    if url.scheme = "http" ∨ url.scheme = "https" then
      url.host.bind fun host =>
        let host := lib.lowercase host
        -- A path begins with a slash.
        let parts := (segments '/' url.path).tail
        (routes.findSome? fun route =>
          if route.allowed host then (route.captures parts).map fun found => (route, found)
          else none).bind fun found =>
            let number := numberOf found.2.2
            if 1 ≤ number ∧ number ≤ 9007199254740991 then
              let authority :=
                match found.1.withPort, url.port with
                | true, some port => host ++ ":" ++ toString port
                | _, _ => host
              let names := canonical lib authority (String.intercalate "/" found.2.1)
              some { host := names.1, repository := names.2, number, url := value }
            else none
    else none

/-- `sibling_url`: the same URL with another number. -/
def siblingUrl (value : String) (number : Int) : Option String :=
  (lib.parse value).bind fun url =>
    let parts := segments '/' url.path
    let markers := ["pull", "pulls", "pull-requests", "merge_requests", "pullrequest"]
    (parts.findIdx? fun part => decide (part ∈ markers)).bind fun index =>
      if index + 1 < parts.length then
        some (lib.render { url with
          path := String.intercalate "/" (parts.take (index + 1) ++ [toString number]) })
      else none

end Zeron.PullRequests

/-!
## The pull requests of a thread

A thread has a list of links to pull requests, and a field from the time when it had
one.  A link that the user has dismissed stays in the list as long as a stack names it.
-/

namespace Zeron.PullRequests

open Data

inductive PullRequestState where
  | opened
  | closed
  | merged
  deriving DecidableEq

/-- Times that cannot be parsed count as absent. -/
structure ThreadPullRequestSnapshot where
  state : PullRequestState
  headBranch : String
  baseBranch : String
  closedAt : Option Int
  mergedAt : Option Int
  deriving DecidableEq

/-- The name of a stack, and the numbers of its layers. -/
structure ThreadPullRequestStack where
  id : String
  layers : List Int
  deriving DecidableEq

/-- What has been reported of a pull request since the watch began. -/
structure ThreadPullRequestWatch where
  startedAt : Int
  headSha : Option String
  failedChecks : List String
  passed : Bool
  remarksThrough : Int
  remarkIds : List String
  conflicting : Bool
  wakes : Nat
  deriving DecidableEq

inductive ThreadPullRequestLinkSource where
  | manual
  | created
  | agent
  | stack
  | stackDismissed
  deriving DecidableEq

structure ThreadPullRequestLink where
  host : String
  repository : String
  number : Int
  url : String
  source : ThreadPullRequestLinkSource
  linkedAt : Int
  snapshot : Option ThreadPullRequestSnapshot
  stack : Option ThreadPullRequestStack
  watch : Option ThreadPullRequestWatch
  deriving DecidableEq

/-- The link of the time when a thread had one. -/
structure ThreadLinkedPullRequest where
  repository : String
  number : Int
  url : String
  deriving DecidableEq

inductive SettledOverride where
  | settled
  | active
  deriving DecidableEq

structure AppThread where
  createdAt : Option Int
  archivedAt : Option Int
  deletedAt : Option Int
  settledAt : Option Int
  settledOverride : Option SettledOverride
  pinnedAt : Option Int
  autoSettleDisabledAt : Option Int
  snoozedUntil : Option Int
  snoozedAt : Option Int
  /-- A subagent that a provider has created. -/
  providerSubagent : Bool
  pullRequests : Option (List ThreadPullRequestLink)
  linkedPullRequest : Option ThreadLinkedPullRequest
  /-- The URL of the pull request of the branch. -/
  branchPullRequest : Option String

/-- `visible`: not dismissed. -/
def ThreadPullRequestLink.visible (link : ThreadPullRequestLink) : Bool :=
  decide (link.source ≠ .stackDismissed)

/-- `new_link`. -/
def newLink (target : Identity) (source : ThreadPullRequestLinkSource) (now : Int) :
    ThreadPullRequestLink where
  host := target.host
  repository := target.repository
  number := target.number
  url := target.url
  source := source
  linkedAt := now
  snapshot := none
  stack := none
  watch := none

variable (lib : Library)

/-- `chains::identity`: the host is that of the URL, if the URL names the same pull
request. -/
def identity (link : ThreadPullRequestLink) : Identity :=
  let parsed := (parseUrl lib link.url).filter fun found =>
    decide (found.repository = lib.lowercase (trimmed link.repository)) &&
      decide (found.number = link.number)
  let names := canonical lib ((parsed.map fun found => found.host).getD link.host) link.repository
  { host := names.1, repository := names.2, number := link.number, url := link.url }

/-- The identity key of a link. -/
def linkKey (link : ThreadPullRequestLink) : String :=
  (identity lib link).key

/-- `legacy_identity`. -/
def legacyIdentity (link : ThreadLinkedPullRequest) : Identity :=
  let plain : Identity :=
    { host := (((lib.parse link.url).bind fun url => url.host.map lib.lowercase).filter
        fun host => decide (host ≠ "")).getD "unknown"
      repository := lib.lowercase (trimmed link.repository)
      number := link.number
      url := link.url }
  match (parseUrl lib link.url).filter fun found => decide (found.number = link.number) with
  | some found => if found.host = "dev.azure.com" ∨ ':' ∈ found.host.toList then found else plain
  | none => plain

/-- `links_of`: a thread without a list has the one link of its old field. -/
def linksOf (thread : AppThread) : List ThreadPullRequestLink :=
  match thread.pullRequests with
  | some links => links
  | none =>
      (thread.linkedPullRequest.map fun legacy =>
        newLink (legacyIdentity lib legacy) .manual 0).toList

/-- `update_metadata`: the old field and the list are written together. -/
def updateMetadata (thread : AppThread) (linked : Option ThreadLinkedPullRequest) (now : Int) :
    AppThread :=
  let links := linksOf lib thread
  let previous := thread.linkedPullRequest.map (legacyIdentity lib)
  let target := linked.map (legacyIdentity lib)
  let watch := target.bind fun target =>
    (links.find? fun link => decide (linkKey lib link = target.key)).bind fun link => link.watch
  let kept := links.filter fun link =>
    previous.all (fun id => decide (id.key ≠ linkKey lib link)) &&
      target.all fun id => decide (id.key ≠ linkKey lib link)
  let added := target.map fun target => { newLink target .manual now with watch }
  { thread with linkedPullRequest := linked, pullRequests := some (kept ++ added.toList) }

end Zeron.PullRequests
