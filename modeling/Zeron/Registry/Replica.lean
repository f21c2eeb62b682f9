import Zeron.Registry.Typed
import Zeron.Transition.Run

/-!
# Runs of a replica

Everything that happens to a replica: the typed calls, the seeding from the
legacy document, the frames of the server, and its own bookkeeping.  Each event
carries what the wall clock shows while it lasts.
-/

namespace Zeron.Registry

open Zeron.Data
open Zeron.Wire

/-! ## Typed calls -/

inductive Mutation where
  | upsertDevice (device : Device)
  | renameDevice (deviceId name : String)
  | setDeviceLastSeen (deviceId : String) (at_time : Int)
  | upsertSpace (space : Space)
  | renameSpace (spaceId : String) (name : Option String)
  | setSpaceGit (spaceId : String) (detected : Bool) (checkoutId : Option String) (checkedAt : Int)
  | deleteSpace (spaceId : String)
  | upsertChat (chat : Chat)
  | claimChat (chatId : String) (cwd spaceId : Option String) (createdAt : Int)
  | setChatSeen (chatId : String) (at_time : Int)
  | setChatOrchestration (id : String) (summary : Json)
  | renameChat (chatId title : String)
  | setChatArchived (chatId : String) (archived : Bool)
  | setChatRoomGen (chatId : String) (roomGen : Nat)
  | setChatBranch (chatId branch : String)
  | setChatSourceContext (chatId : String) (context : ConversationSourceContext)
  | setChatCwd (chatId cwd : String)
  | setChatCheckout (chatId checkoutId : String)
  | setChatConfig (chatId : String) (config : Json)
  | setChatHarnessSession (chatId sessionId cwd : String)
  | setChatHarnessSessionInstance (chatId : String) (instanceId : Option String)
  | setChatHarnessSessionBinding (chatId sessionId cwd : String) (instanceId : Option String)
  | setChatLastMessage (chatId preview : String) (at_time : Int)
  | deleteChat (chatId : String)
  | upsertSession (session : Session)

namespace RegistryDoc

/-- The call, and whether it reports success. -/
def mutate (times : TimeTexts) (doc : RegistryDoc) (now : Nat → Nat) :
    Mutation → RegistryDoc × Bool
  | .upsertDevice device => (doc.upsertDevice now device, true)
  | .renameDevice deviceId name => doc.renameDevice now deviceId name
  | .setDeviceLastSeen deviceId at_time => doc.setDeviceLastSeen now deviceId at_time
  | .upsertSpace space => (doc.upsertSpace now space, true)
  | .renameSpace spaceId name => doc.renameSpace now spaceId name
  | .setSpaceGit spaceId detected checkoutId checkedAt =>
      doc.setSpaceGit now spaceId detected checkoutId checkedAt
  | .deleteSpace spaceId => ((doc.deleteSpace now times spaceId).1, true)
  | .upsertChat chat => (doc.upsertChat now chat, true)
  | .claimChat chatId cwd spaceId createdAt =>
      (doc.claimChat now chatId cwd spaceId createdAt, true)
  | .setChatSeen chatId at_time => doc.setChatSeen now chatId at_time
  | .setChatOrchestration id summary =>
      let (next, result) := doc.setChatOrchestration now times id summary
      (next, result.toBool)
  | .renameChat chatId title => doc.renameChat now chatId title
  | .setChatArchived chatId archived => doc.setChatArchived now chatId archived
  | .setChatRoomGen chatId roomGen => doc.setChatRoomGen now chatId roomGen
  | .setChatBranch chatId branch => doc.setChatBranch now chatId branch
  | .setChatSourceContext chatId context => doc.setChatSourceContext now chatId context
  | .setChatCwd chatId cwd => doc.setChatCwd now chatId cwd
  | .setChatCheckout chatId checkoutId => doc.setChatCheckout now chatId checkoutId
  | .setChatConfig chatId config => doc.setChatConfig now chatId config
  | .setChatHarnessSession chatId sessionId cwd =>
      doc.setChatHarnessSession now chatId sessionId cwd
  | .setChatHarnessSessionInstance chatId instanceId =>
      doc.setChatHarnessSessionInstance now chatId instanceId
  | .setChatHarnessSessionBinding chatId sessionId cwd instanceId =>
      doc.setChatHarnessSessionBinding now chatId sessionId cwd instanceId
  | .setChatLastMessage chatId preview at_time =>
      doc.setChatLastMessage now chatId preview at_time
  | .deleteChat chatId => doc.deleteChat now chatId
  | .upsertSession session => (doc.upsertSession now session, true)

end RegistryDoc

/-! ## What a call is asked for -/

inductive Intent where
  /-- Fields of a row, if it is there. -/
  | update (kind id : String) (set : FieldMap Json)
  | upsert (kind id : String) (set : FieldMap Json)
  | delete (keys : List RowKey)
  /-- Nothing of the row is to change. -/
  | rest (kind id : String)

namespace RegistryDoc

/-- The values that a call is given, and for a cascade the rows found. -/
def intent (times : TimeTexts) (doc : RegistryDoc) : Mutation → Intent
  | .upsertDevice device => .upsert kindDevices device.id (deviceFields device)
  | .renameDevice deviceId name => .update kindDevices deviceId (fields [("name", .str name)])
  | .setDeviceLastSeen deviceId at_time =>
      .update kindDevices deviceId (fields [("lastSeenAt", number at_time)])
  | .upsertSpace space => .upsert kindSpaces space.id (spaceFields space)
  | .renameSpace spaceId name => .update kindSpaces spaceId (fields [("name", optStr name)])
  | .setSpaceGit spaceId detected checkoutId checkedAt =>
      .update kindSpaces spaceId
        (fields [("gitDetected", .bool detected), ("checkoutId", optStr checkoutId),
          ("gitCheckedAt", number checkedAt)])
  | .deleteSpace spaceId => .delete (doc.spaceKeys times spaceId)
  | .upsertChat chat => .upsert kindChats chat.id (chatFields chat)
  | .claimChat chatId cwd spaceId createdAt =>
      .upsert kindChats chatId (doc.claimFields chatId cwd spaceId createdAt)
  | .setChatSeen chatId at_time =>
      -- A stamp that is as late already is left alone.
      if ((doc.overlayRow ⟨kindChats, chatId⟩).bind fun row =>
          row.fields["lastSeenAt"]?.bind asI64).any fun ms => at_time ≤ ms then
        .rest kindChats chatId
      else .update kindChats chatId (fields [("lastSeenAt", number at_time)])
  | .setChatOrchestration id summary =>
      -- A summary that is not newer, or is refused, changes nothing.
      match (doc.overlayRow ⟨kindChats, id⟩).bind fun row =>
          (orchestrationPatch times row summary).toOption.join with
      | some patch => .update kindChats id patch
      | none => .rest kindChats id
  | .renameChat chatId title => .update kindChats chatId (fields [("title", .str title)])
  | .setChatArchived chatId archived =>
      .update kindChats chatId (fields [("archived", .bool archived)])
  | .setChatRoomGen chatId roomGen =>
      .update kindChats chatId (fields [("roomGen", number roomGen)])
  | .setChatBranch chatId branch => .update kindChats chatId (fields [("branch", .str branch)])
  | .setChatSourceContext chatId context =>
      .update kindChats chatId
        (fields [("sourceContext", context.encode), ("branch", .str context.branch),
          ("checkoutId", .str context.checkoutId)])
  | .setChatCwd chatId cwd => .update kindChats chatId (fields [("cwd", .str cwd)])
  | .setChatCheckout chatId checkoutId =>
      .update kindChats chatId (fields [("checkoutId", .str checkoutId)])
  | .setChatConfig chatId config => .update kindChats chatId (fields [("config", config)])
  | .setChatHarnessSession chatId sessionId cwd =>
      .update kindChats chatId
        (fields [("harnessSessionId", .str sessionId), ("harnessSessionCwd", .str cwd)])
  | .setChatHarnessSessionInstance chatId instanceId =>
      .update kindChats chatId (fields [("harnessSessionInstanceId", optStr instanceId)])
  | .setChatHarnessSessionBinding chatId sessionId cwd instanceId =>
      .update kindChats chatId
        (fields [("harnessSessionId", .str sessionId), ("harnessSessionCwd", .str cwd),
          ("harnessSessionInstanceId", optStr instanceId)])
  | .setChatLastMessage chatId preview at_time =>
      .update kindChats chatId
        (fields [("lastMessagePreview", .str preview), ("lastMessageAt", number at_time)])
  | .deleteChat chatId => .delete [⟨kindChats, chatId⟩, ⟨kindSessions, chatId⟩]
  | .upsertSession session => .upsert kindSessions session.chatId (sessionFields session)

/-- An intent carried out. -/
def perform (doc : RegistryDoc) (now : Nat → Nat) : Intent → RegistryDoc
  | .update kind id set => (doc.updateRow now kind id set).1
  | .upsert kind id set => doc.write now kind id .upsert set
  | .delete keys => doc.deleteRowOps now keys
  | .rest _ _ => doc

/-- Every call carries out what it is asked for. -/
theorem mutate_eq_perform (times : TimeTexts) (doc : RegistryDoc) (now : Nat → Nat)
    (mutation : Mutation) :
    (doc.mutate times now mutation).1 = doc.perform now (doc.intent times mutation) := by
  cases mutation with
  | setChatSeen chatId at_time =>
      simp only [mutate, setChatSeen, intent]
      cases shown : doc.overlayRow ⟨kindChats, chatId⟩ with
      | none =>
          have missing : doc.rowExists ⟨kindChats, chatId⟩ = false := by simp [rowExists, shown]
          exact (congrArg Prod.fst (updateRow_of_missing missing)).symm
      | some row =>
          have there : doc.rowExists ⟨kindChats, chatId⟩ = true := by simp [rowExists, shown]
          simp only [Option.bind_some]
          split
          · rfl
          · exact (congrArg Prod.fst (updateRow_of_exists there)).symm
  | setChatOrchestration id summary =>
      simp only [mutate, setChatOrchestration, intent]
      cases shown : doc.overlayRow ⟨kindChats, id⟩ with
      | none => rfl
      | some row =>
          have there : doc.rowExists ⟨kindChats, id⟩ = true := by simp [rowExists, shown]
          simp only [Option.bind_some]
          match orchestrationPatch times row summary with
          | .error _ | .ok none => rfl
          | .ok (some patch) => exact (congrArg Prod.fst (updateRow_of_exists there)).symm
  | _ => rfl

/-- A call on a row that is to be there succeeds only if it is. -/
theorem exists_of_success {times : TimeTexts} {doc : RegistryDoc} {now : Nat → Nat}
    {mutation : Mutation} (success : (doc.mutate times now mutation).2 = true) {kind id : String}
    (asks : (∃ set, doc.intent times mutation = .update kind id set) ∨
      doc.intent times mutation = .rest kind id) : doc.rowExists ⟨kind, id⟩ = true := by
  have updates : ∀ {kind id : String} {set : FieldMap Json},
      (doc.updateRow now kind id set).2 = true → doc.rowExists ⟨kind, id⟩ = true := by
    intro kind id set done
    unfold updateRow at done
    split at done
    · assumption
    · cases done
  cases mutation with
  | setChatSeen chatId at_time =>
      have named : kind = kindChats ∧ id = chatId := by
        simp only [intent] at asks
        split at asks <;> simpa [eq_comm] using asks
      obtain ⟨rfl, rfl⟩ := named
      simp only [mutate, setChatSeen] at success
      cases shown : doc.overlayRow ⟨kindChats, id⟩ with
      | none =>
          rw [shown] at success
          cases success
      | some row => simp [rowExists, shown]
  | setChatOrchestration chatId summary =>
      have named : kind = kindChats ∧ id = chatId := by
        simp only [intent] at asks
        split at asks <;> simpa [eq_comm] using asks
      obtain ⟨rfl, rfl⟩ := named
      simp only [mutate, setChatOrchestration] at success
      cases shown : doc.overlayRow ⟨kindChats, id⟩ with
      | none =>
          rw [shown] at success
          cases success
      | some row => simp [rowExists, shown]
  | upsertDevice | upsertSpace | upsertChat | claimChat | upsertSession | deleteSpace
  | deleteChat => simp [intent] at asks
  | _ =>
      obtain ⟨set, asked⟩ | asked := asks
      · cases asked
        exact updates success
      · cases asked

end RegistryDoc

/-! ## Seeding from the legacy document -/

structure WorkspaceState where
  devices : List Device
  spaces : List Space
  chats : List Chat
  sessions : List Session

/-- `newest`. -/
def newest (candidates : List (Option Int)) : Int :=
  (candidates.reduceOption.max?).getD 1

/-- One migrated row, under a clock of its own newest instant. -/
def seedOp (kind id : String) (ms : Int) (set : FieldMap Json) : RowOp :=
  .fieldWrite kind id .upsert set (encodeHlc (max ms 1).toNat 0 "migration")

/-- A migrated chat has no room and no source context. -/
def seedChatFields (chat : Chat) : FieldMap Json :=
  ((RegistryDoc.chatFields chat).erase "roomGen").erase "sourceContext"

/-- The operations of `seed_from_workspace`. -/
def seedOps (state : WorkspaceState) : List RowOp :=
  state.devices.map (fun device =>
    seedOp kindDevices device.id (newest [device.lastSeenAt, device.createdAt])
      (RegistryDoc.deviceFields device)) ++
  state.spaces.map (fun space =>
    seedOp kindSpaces space.id (newest [space.gitCheckedAt, some space.createdAt])
      (RegistryDoc.spaceFields space)) ++
  state.chats.map (fun chat =>
    seedOp kindChats chat.id
      (newest [chat.lastMessageAt, chat.lastSeenAt, some chat.createdAt]) (seedChatFields chat)) ++
  state.sessions.map (fun session =>
    seedOp kindSessions session.chatId (newest [some session.updatedAt, session.startedAt])
      (RegistryDoc.sessionFields session))

namespace RegistryDoc

/-- One call of `enqueue_ops` for each chunk; none of them takes more than one reading of
the clock. -/
def enqueueChunks (now : Nat → Nat) : RegistryDoc → List (List RowOp) → RegistryDoc
  | doc, [] => doc
  | doc, chunk :: rest =>
      enqueueChunks (fun reading => now (reading + 1)) (doc.enqueueOps now chunk) rest

/-- `seed_from_workspace`: in chunks as long as a batch may be. -/
def seedFromWorkspace (doc : RegistryDoc) (now : Nat → Nat) (state : WorkspaceState) :
    RegistryDoc :=
  doc.enqueueChunks now (splitOps (seedOps state).length (seedOps state))

/-- `to_bytes`, then `from_bytes`: nothing is in flight any more.  A snapshot from before
the last cursor fix asks for everything again. -/
def reload (doc : RegistryDoc) (outdated : Bool) : RegistryDoc :=
  { doc with
    serverSeq := if outdated then 0 else doc.serverSeq
    pending := doc.pending.map fun batch => { batch with inFlight := false }
    generation := 0 }

/-! ## Events -/

inductive Event where
  | mutate (now : Nat → Nat) (mutation : Mutation)
  | seed (now : Nat → Nat) (state : WorkspaceState)
  | state (now : Nat → Nat) (frame : StateFrame)
  | rows (seq : Nat) (rows : List RegistryRow)
  | ack (batch : String)
  | takePushable
  | markDisconnected
  | reload (outdated : Bool)

/-- What an event leaves. -/
def after (times : TimeTexts) (doc : RegistryDoc) : Event → RegistryDoc
  | .mutate now mutation => (doc.mutate times now mutation).1
  | .seed now state => doc.seedFromWorkspace now state
  | .state now frame => (doc.applyState now frame).1
  | .rows seq rows => (doc.applyRows seq rows).1
  | .ack batch => doc.ackBatch batch
  | .takePushable => doc.takePushable.1
  | .markDisconnected => doc.markDisconnected
  | .reload outdated => doc.reload outdated

def step (times : TimeTexts) : Transition.Step RegistryDoc Event :=
  fun doc event => some (doc.after times event)

end RegistryDoc

end Zeron.Registry
