import Zeron.Data.SortBy
import Zeron.Registry.Overlay

/-!
# The typed surface

The workspace's entities over the replica: each call turns an entity, or some
fields of one, into operations under a fresh clock.  Calls on an existing row
look for it in the reads first and write nothing when it is missing.
-/

namespace Zeron.Registry

open Zeron.Data
open Zeron.Wire

def kindDevices : String := "devices"
def kindSpaces : String := "spaces"
def kindChats : String := "chats"
def kindSessions : String := "sessions"

/-- `UNTITLED_THREAD_TITLE`. -/
def untitledThreadTitle : String := "Conversation"

/-- What the time library reads from a text: milliseconds, if it is a time. -/
structure TimeTexts where
  fromStr : String → Option Int
  parseFromRfc3339 : String → Option Int

/-! ## Values -/

/-- `json!` of an integer. -/
def number (value : Int) : Json :=
  .num (toString value)

def optStr (value : Option String) : Json :=
  (value.map Json.str).getD .null

def optMs (value : Option Int) : Json :=
  (value.map number).getD .null

def fields (entries : List (String × Json)) : FieldMap Json :=
  .ofList entries compare

/-- `Value::as_i64`: a number written as an integer, within 64 bits. -/
def asI64 : Json → Option Int
  | .num literal =>
      literal.toInt?.filter fun value =>
        toString value = literal ∧ -2 ^ 63 ≤ value ∧ value < 2 ^ 63
  | _ => none

def asU32 (value : Json) : Option Int :=
  (asI64 value).filter fun read => 0 ≤ read ∧ read < 2 ^ 32

def asBool : Json → Option Bool
  | .bool value => some value
  | _ => none

/-- `value[name]`. -/
def index (value : Json) (name : String) : Json :=
  (value.member name).getD .null

section Reading

variable {α : Type} (read : Json → Option α) (members : FieldMap Json) (name : String)

def requiredAs : Option α :=
  members[name]?.bind read

/-- A member that may be missing or null. -/
def optionalAs : Option (Option α) :=
  match members[name]? with
  | none => some none
  | some .null => some none
  | some value => (read value).map some

/-- A member that may be missing, but not null. -/
def defaultedAs (default : α) : Option α :=
  match members[name]? with
  | none => some default
  | some value => read value

end Reading

/-! ## Entities, with instants in milliseconds -/

structure Device where
  id : String
  name : String
  platform : String
  lastSeenAt : Option Int
  createdAt : Option Int
  version : Option String
  cursorSdkVersion : Option String
  capabilities : List String

structure Space where
  id : String
  deviceId : String
  path : String
  name : Option String
  gitDetected : Bool
  gitCheckedAt : Option Int
  checkoutId : Option String
  createdAt : Int

structure ConversationSourceContext where
  checkoutId : String
  repoRoot : String
  cwd : String
  branch : String
  headSha : Option String
  /-- As it is printed. -/
  observedAt : String

structure Chat where
  id : String
  deviceId : String
  title : Option String
  archived : Bool
  cwd : Option String
  branch : Option String
  checkoutId : Option String
  sourceContext : Option ConversationSourceContext
  /-- As it is encoded. -/
  config : Option Json
  lastMessagePreview : Option String
  lastMessageAt : Option Int
  createdAt : Int
  harnessSessionId : Option String
  harnessSessionCwd : Option String
  harnessSessionInstanceId : Option String
  spaceId : Option String
  lastSeenAt : Option Int
  roomGen : Option Nat

inductive SessionStatus where
  | idle
  | working
  | awaitingInput
  | errored

structure Session where
  chatId : String
  deviceId : String
  status : SessionStatus
  lastCompletedTurn : Option String
  startedAt : Option Int
  updatedAt : Int

def SessionStatus.text : SessionStatus → String
  | idle => "idle"
  | working => "working"
  | awaitingInput => "awaitingInput"
  | errored => "errored"

def ConversationSourceContext.encode (context : ConversationSourceContext) : Json :=
  .obj ([("checkoutId", .str context.checkoutId), ("repoRoot", .str context.repoRoot),
      ("cwd", .str context.cwd), ("branch", .str context.branch)] ++
    optionalMember "headSha" (context.headSha.map Json.str) ++
    [("observedAt", .str context.observedAt)])

/-! ## The chats that this build can read -/

/-- `RawChat`, as far as a cascade looks at it. -/
structure RawChat where
  id : String
  spaceId : Option String

/-- A source context reads from an object, or from an array of its members in order. -/
def readSourceContext (times : TimeTexts) : Json → Option Unit
  | .obj entries => do
      let members : FieldMap Json := fields entries
      let _ ← requiredAs Json.asString members "checkoutId"
      let _ ← requiredAs Json.asString members "repoRoot"
      let _ ← requiredAs Json.asString members "cwd"
      let _ ← requiredAs Json.asString members "branch"
      let _ ← optionalAs Json.asString members "headSha"
      let observedAt ← requiredAs Json.asString members "observedAt"
      let _ ← times.fromStr observedAt
      return ()
  | .arr [checkoutId, repoRoot, cwd, branch, headSha, observedAt] => do
      let _ ← checkoutId.asString
      let _ ← repoRoot.asString
      let _ ← cwd.asString
      let _ ← branch.asString
      let _ ← optionalAs Json.asString (fields [("headSha", headSha)]) "headSha"
      let _ ← times.fromStr (← observedAt.asString)
      return ()
  | _ => none

/-- `RawChat`'s decoder: one member of the wrong type costs the row, the `config` apart. -/
def RawChat.read (times : TimeTexts) (members : FieldMap Json) : Option RawChat := do
  let id ← requiredAs Json.asString members "id"
  let _ ← requiredAs Json.asString members "deviceId"
  let _ ← optionalAs Json.asString members "title"
  let _ ← defaultedAs asBool members "archived" false
  let _ ← optionalAs Json.asString members "cwd"
  let _ ← optionalAs Json.asString members "branch"
  let _ ← optionalAs Json.asString members "checkoutId"
  let _ ← optionalAs (readSourceContext times) members "sourceContext"
  let _ ← optionalAs Json.asString members "lastMessagePreview"
  let _ ← optionalAs asI64 members "lastMessageAt"
  let _ ← defaultedAs asI64 members "createdAt" 0
  let _ ← optionalAs Json.asString members "harnessSessionId"
  let _ ← optionalAs Json.asString members "harnessSessionCwd"
  let _ ← optionalAs Json.asString members "harnessSessionInstanceId"
  let spaceId ← optionalAs Json.asString members "spaceId"
  let _ ← optionalAs asI64 members "lastSeenAt"
  let _ ← optionalAs asU32 members "roomGen"
  return { id, spaceId }

namespace RegistryDoc

/-- The ids of `overlay_rows`.  The code walks a hash map first; here it is the order of
the keys. -/
def overlayIds (doc : RegistryDoc) (kind : String) : List String :=
  (doc.pending.flatMap PendingBatch.ops).foldl
    (fun ids op => if op.kind = kind ∧ op.id ∉ ids then ids ++ [op.id] else ids)
    ((doc.authoritative.keys.filter fun key => key.kind = kind).map RowKey.id)

/-- `overlay_rows`: all live rows of a kind. -/
def overlayRows (doc : RegistryDoc) (kind : String) : List RegistryRow :=
  (doc.overlayIds kind).filterMap fun id => doc.overlayRow ⟨kind, id⟩

/-- `read_chats`. -/
def readChats (times : TimeTexts) (doc : RegistryDoc) : List RawChat :=
  sortBy RawChat.id ((doc.overlayRows kindChats).filterMap fun row => RawChat.read times row.fields)

/-- `row_exists`. -/
def rowExists (doc : RegistryDoc) (key : RowKey) : Bool :=
  (doc.overlayRow key).isSome

/-- The shape of the calls that change fields of a row: `false` when there is no such row. -/
def updateRow (doc : RegistryDoc) (now : Nat → Nat) (kind id : String) (set : FieldMap Json) :
    RegistryDoc × Bool :=
  if doc.rowExists ⟨kind, id⟩ then (doc.write now kind id .update set, true) else (doc, false)

theorem updateRow_of_exists {doc : RegistryDoc} {now : Nat → Nat} {kind id : String}
    {set : FieldMap Json} (there : doc.rowExists ⟨kind, id⟩ = true) :
    doc.updateRow now kind id set = (doc.write now kind id .update set, true) :=
  if_pos there

theorem updateRow_of_missing {doc : RegistryDoc} {now : Nat → Nat} {kind id : String}
    {set : FieldMap Json} (missing : doc.rowExists ⟨kind, id⟩ = false) :
    doc.updateRow now kind id set = (doc, false) :=
  if_neg (Bool.eq_false_iff.mp missing)

variable (doc : RegistryDoc) (now : Nat → Nat)

/-! ## Devices -/

def deviceFields (device : Device) : FieldMap Json :=
  fields [("id", .str device.id), ("name", .str device.name), ("platform", .str device.platform),
    ("lastSeenAt", optMs device.lastSeenAt), ("createdAt", optMs device.createdAt),
    ("version", optStr device.version), ("cursorSdkVersion", optStr device.cursorSdkVersion),
    ("cursorSdkEngineVersion", optStr device.version),
    ("capabilities", .arr (device.capabilities.map Json.str))]

def upsertDevice (device : Device) : RegistryDoc :=
  doc.write now kindDevices device.id .upsert (deviceFields device)

def renameDevice (deviceId name : String) : RegistryDoc × Bool :=
  doc.updateRow now kindDevices deviceId (fields [("name", .str name)])

def setDeviceLastSeen (deviceId : String) (at_time : Int) : RegistryDoc × Bool :=
  doc.updateRow now kindDevices deviceId (fields [("lastSeenAt", number at_time)])

/-! ## Spaces -/

def spaceFields (space : Space) : FieldMap Json :=
  fields [("id", .str space.id), ("deviceId", .str space.deviceId), ("path", .str space.path),
    ("name", optStr space.name), ("gitDetected", .bool space.gitDetected),
    ("gitCheckedAt", optMs space.gitCheckedAt), ("checkoutId", optStr space.checkoutId),
    ("createdAt", number space.createdAt)]

def upsertSpace (space : Space) : RegistryDoc :=
  doc.write now kindSpaces space.id .upsert (spaceFields space)

def renameSpace (spaceId : String) (name : Option String) : RegistryDoc × Bool :=
  doc.updateRow now kindSpaces spaceId (fields [("name", optStr name)])

def setSpaceGit (spaceId : String) (detected : Bool) (checkoutId : Option String)
    (checkedAt : Int) : RegistryDoc × Bool :=
  doc.updateRow now kindSpaces spaceId
    (fields [("gitDetected", .bool detected), ("checkoutId", optStr checkoutId),
      ("gitCheckedAt", number checkedAt)])

/-- The rows that go with a space: its chats as this build reads them, with their sessions. -/
def spaceKeys (times : TimeTexts) (spaceId : String) : List RowKey :=
  (((doc.readChats times).filter fun chat => chat.spaceId = some spaceId).flatMap fun chat =>
    [⟨kindChats, chat.id⟩, ⟨kindSessions, chat.id⟩]) ++ [⟨kindSpaces, spaceId⟩]

/-- `delete_space`: whether the space was there, and the chats removed with it. -/
def deleteSpace (times : TimeTexts) (spaceId : String) : RegistryDoc × (Bool × List String) :=
  (doc.deleteRowOps now (doc.spaceKeys times spaceId),
    (doc.rowExists ⟨kindSpaces, spaceId⟩,
      ((doc.readChats times).filter fun chat => chat.spaceId = some spaceId).map RawChat.id))

/-! ## Chats -/

def chatFields (chat : Chat) : FieldMap Json :=
  fields [("id", .str chat.id), ("deviceId", .str chat.deviceId), ("title", optStr chat.title),
    ("archived", .bool chat.archived), ("cwd", optStr chat.cwd), ("branch", optStr chat.branch),
    ("checkoutId", optStr chat.checkoutId),
    ("sourceContext", (chat.sourceContext.map ConversationSourceContext.encode).getD .null),
    ("config", chat.config.getD .null), ("lastMessagePreview", optStr chat.lastMessagePreview),
    ("lastMessageAt", optMs chat.lastMessageAt), ("createdAt", number chat.createdAt),
    ("harnessSessionId", optStr chat.harnessSessionId),
    ("harnessSessionCwd", optStr chat.harnessSessionCwd),
    ("harnessSessionInstanceId", optStr chat.harnessSessionInstanceId),
    ("spaceId", optStr chat.spaceId), ("lastSeenAt", optMs chat.lastSeenAt),
    ("roomGen", (chat.roomGen.map fun roomGen => number roomGen).getD .null)]

def upsertChat (chat : Chat) : RegistryDoc :=
  doc.write now kindChats chat.id .upsert (chatFields chat)

/-- The fields that a claim knows; the others carry no write. -/
def claimFields (chatId : String) (cwd spaceId : Option String) (createdAt : Int) :
    FieldMap Json :=
  fields ([("id", .str chatId), ("deviceId", .str doc.deviceId), ("createdAt", number createdAt)] ++
    optionalMember "cwd" (cwd.map Json.str) ++ optionalMember "spaceId" (spaceId.map Json.str))

def claimChat (chatId : String) (cwd spaceId : Option String) (createdAt : Int) : RegistryDoc :=
  doc.write now kindChats chatId .upsert (doc.claimFields chatId cwd spaceId createdAt)

/-- `set_chat_seen`: nothing is written when the stored stamp is as late already. -/
def setChatSeen (chatId : String) (at_time : Int) : RegistryDoc × Bool :=
  match doc.overlayRow ⟨kindChats, chatId⟩ with
  | none => (doc, false)
  | some row =>
      if (row.fields["lastSeenAt"]?.bind asI64).any fun ms => at_time ≤ ms then (doc, true)
      else (doc.write now kindChats chatId .update (fields [("lastSeenAt", number at_time)]), true)

/-- `hostEpoch` and `version` of a summary. -/
def summaryStamp (summary : Json) : Int × Int :=
  ((asI64 (index summary "hostEpoch")).getD (-1), (asI64 (index summary "version")).getD (-1))

/-- A stamp is not later than another. -/
def stampLe (first second : Int × Int) : Bool :=
  first.1 < second.1 || (first.1 = second.1 && first.2 ≤ second.2)

/-- The fields of the patch besides the summary: only what has changed since the last one. -/
def sourceChanges (times : TimeTexts) (previous : Option Json) (summary : Json) :
    List (String × Json) :=
  let changed (name : String) : Bool :=
    previous.all fun old => index old name ≠ index summary name
  let title :=
    if changed "title" then
      (index summary "title").asString.filter fun title => title ≠ untitledThreadTitle
    else none
  let archived :=
    if previous.any fun old => index old "archivedAt" ≠ index summary "archivedAt" then
      some (!(index summary "archivedAt").isNull)
    else none
  let visited :=
    if changed "lastVisitedAt" then
      (index summary "lastVisitedAt").asString.bind times.parseFromRfc3339
    else none
  optionalMember "title" (title.map Json.str) ++
    optionalMember "archived" (archived.map Json.bool) ++
    optionalMember "lastSeenAt" (visited.map number)

/-- What `set_chat_orchestration` writes over a row: nothing for a summary that is not newer. -/
def orchestrationPatch (times : TimeTexts) (row : RegistryRow) (summary : Json) :
    Except String (Option (FieldMap Json)) :=
  let patch := fields ([("orchestration", summary)] ++
    sourceChanges times row.fields["orchestration"]? summary)
  match row.fields["orchestration"]? with
  | none => .ok (some patch)
  | some previous =>
      if index previous "hostId" ≠ index summary "hostId" then
        .error "foreign orchestration registry owner"
      else if stampLe (summaryStamp summary) (summaryStamp previous) then .ok none
      else .ok (some patch)

def setChatOrchestration (times : TimeTexts) (id : String) (summary : Json) :
    RegistryDoc × Except String Unit :=
  match doc.overlayRow ⟨kindChats, id⟩ with
  | none => (doc, .error "orchestration chat missing")
  | some row =>
      match orchestrationPatch times row summary with
      | .error message => (doc, .error message)
      | .ok none => (doc, .ok ())
      | .ok (some patch) => (doc.write now kindChats id .update patch, .ok ())

def renameChat (chatId title : String) : RegistryDoc × Bool :=
  doc.updateRow now kindChats chatId (fields [("title", .str title)])

def setChatArchived (chatId : String) (archived : Bool) : RegistryDoc × Bool :=
  doc.updateRow now kindChats chatId (fields [("archived", .bool archived)])

def setChatRoomGen (chatId : String) (roomGen : Nat) : RegistryDoc × Bool :=
  doc.updateRow now kindChats chatId (fields [("roomGen", number roomGen)])

def setChatBranch (chatId branch : String) : RegistryDoc × Bool :=
  doc.updateRow now kindChats chatId (fields [("branch", .str branch)])

def setChatSourceContext (chatId : String) (context : ConversationSourceContext) :
    RegistryDoc × Bool :=
  doc.updateRow now kindChats chatId
    (fields [("sourceContext", context.encode), ("branch", .str context.branch),
      ("checkoutId", .str context.checkoutId)])

def setChatCwd (chatId cwd : String) : RegistryDoc × Bool :=
  doc.updateRow now kindChats chatId (fields [("cwd", .str cwd)])

def setChatCheckout (chatId checkoutId : String) : RegistryDoc × Bool :=
  doc.updateRow now kindChats chatId (fields [("checkoutId", .str checkoutId)])

def setChatConfig (chatId : String) (config : Json) : RegistryDoc × Bool :=
  doc.updateRow now kindChats chatId (fields [("config", config)])

def setChatHarnessSession (chatId sessionId cwd : String) : RegistryDoc × Bool :=
  doc.updateRow now kindChats chatId
    (fields [("harnessSessionId", .str sessionId), ("harnessSessionCwd", .str cwd)])

def setChatHarnessSessionInstance (chatId : String) (instanceId : Option String) :
    RegistryDoc × Bool :=
  doc.updateRow now kindChats chatId (fields [("harnessSessionInstanceId", optStr instanceId)])

def setChatHarnessSessionBinding (chatId sessionId cwd : String) (instanceId : Option String) :
    RegistryDoc × Bool :=
  doc.updateRow now kindChats chatId
    (fields [("harnessSessionId", .str sessionId), ("harnessSessionCwd", .str cwd),
      ("harnessSessionInstanceId", optStr instanceId)])

def setChatLastMessage (chatId preview : String) (at_time : Int) : RegistryDoc × Bool :=
  doc.updateRow now kindChats chatId
    (fields [("lastMessagePreview", .str preview), ("lastMessageAt", number at_time)])

/-- `delete_chat`: the chat and its session status, whether or not they were there. -/
def deleteChat (chatId : String) : RegistryDoc × Bool :=
  (doc.deleteRowOps now [⟨kindChats, chatId⟩, ⟨kindSessions, chatId⟩],
    doc.rowExists ⟨kindChats, chatId⟩)

/-! ## Sessions -/

def sessionFields (session : Session) : FieldMap Json :=
  fields [("chatId", .str session.chatId), ("deviceId", .str session.deviceId),
    ("status", .str session.status.text), ("lastCompletedTurn", optStr session.lastCompletedTurn),
    ("startedAt", optMs session.startedAt), ("updatedAt", number session.updatedAt)]

def upsertSession (session : Session) : RegistryDoc :=
  doc.write now kindSessions session.chatId .upsert (sessionFields session)

end RegistryDoc

end Zeron.Registry
