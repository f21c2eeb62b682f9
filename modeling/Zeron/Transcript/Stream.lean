import Zeron.Transcript.Exact
import Zeron.Transition.Run

/-!
# What a streaming entry shows

The writer keeps a mirror of the parts that it has written and brings the entry up to the
folded parts by their differences.  A map of the document only ever gains fields.
-/

namespace Zeron.Transcript.Stream

open Transition

/-- JSON that is written into a part, and what is read of it after the document has kept it. -/
structure Serde (value α : Type) where
  encode : α → value
  decode : value → Option α

/-- The types of other crates that parts carry. -/
structure Payloads where
  Value : Type
  ToolCall : Type
  Question : Type
  Request : Type
  ToolDiff : Type
  Stat : Type
  call : Serde Value ToolCall
  questions : Serde Value (List Question)
  request : Serde Value Request
  diff : Serde Value ToolDiff
  diffStats : Serde Value (List Stat)
  isSubagentSpawn : ToolCall → Bool
  requestId : Request → String
  /-- The default request with the state `Expired`. -/
  expired : Request
  diffStat : ToolDiff → Stat
  [decideCall : DecidableEq ToolCall]
  [decideQuestion : DecidableEq Question]
  [decideRequest : DecidableEq Request]
  [decideDiff : DecidableEq ToolDiff]
  [decideStat : DecidableEq Stat]

attribute [instance] Payloads.decideCall Payloads.decideQuestion Payloads.decideRequest
  Payloads.decideDiff Payloads.decideStat

inductive SubagentStatus where
  | running
  | done
  | failed
  deriving DecidableEq

variable (p : Payloads)

@[ext]
structure Tool where
  id : String
  call : p.ToolCall
  isError : Bool
  resolved : Bool
  output : Option String
  diff : Option p.ToolDiff
  outputRef : Option String
  outputBytes : Option Nat
  diffRef : Option String
  diffStats : Option (List p.Stat)
  subagentRef : Option String
  subagentStatus : Option SubagentStatus
  subagentTail : Option String
  deriving DecidableEq

inductive MessagePart where
  | text (id text : String)
  | image (id path name mimeType : String)
  | reasoning (id text : String)
  | tool (tool : Tool p)
  | input (id requestId : String) (questions : List p.Question) (resolved : Bool)
  | permission (id : String) (request : p.Request)
  | error (id message : String)
  deriving DecidableEq

/-- The map of a part; `text` and `reasoning` are text containers. -/
structure DocPartJson where
  id : String
  kind : String
  path : Option String := none
  name : Option String := none
  mimeType : Option String := none
  text : Option String := none
  reasoning : Option String := none
  call : Option p.Value := none
  isError : Option Bool := none
  questions : Option p.Value := none
  resolved : Option Bool := none
  message : Option String := none
  output : Option String := none
  diff : Option p.Value := none
  outputRef : Option String := none
  outputBytes : Option Nat := none
  diffRef : Option String := none
  diffStats : Option p.Value := none
  subagentRef : Option String := none
  subagentStatus : Option String := none
  subagentTail : Option String := none

variable {p}

def SubagentStatus.toString : SubagentStatus → String
  | .running => "running"
  | .done => "done"
  | .failed => "failed"

def SubagentStatus.ofString? : String → Option SubagentStatus
  | "running" => some .running
  | "done" => some .done
  | "failed" => some .failed
  | _ => none

def toDocPart : MessagePart p → DocPartJson p
  | .image id path name mimeType =>
      { id, kind := "image", path := some path, name := some name, mimeType := some mimeType }
  | .text id text => { id, kind := "text", text := some text }
  | .reasoning id text => { id, kind := "reasoning", reasoning := some text }
  | .tool tool => {
      id := tool.id
      kind := "tool"
      call := some (p.call.encode tool.call)
      isError := if tool.resolved then some tool.isError else none
      output := tool.output
      diff := tool.diff.map p.diff.encode
      outputRef := tool.outputRef
      outputBytes := tool.outputBytes
      diffRef := tool.diffRef
      diffStats := tool.diffStats.map p.diffStats.encode
      subagentRef := tool.subagentRef
      subagentStatus := tool.subagentStatus.map SubagentStatus.toString
      subagentTail := tool.subagentTail }
  | .input _ requestId questions resolved =>
      { id := requestId, kind := "input", questions := some (p.questions.encode questions)
        resolved := some resolved }
  | .permission id request =>
      { id, kind := "permission", questions := some (p.request.encode request) }
  | .error id message => { id, kind := "error", message := some message }

def imagePart (id : String) : Option String → Option String → Option String → MessagePart p
  | some path, some name, some mimeType =>
      if path ≠ "" ∧ name ≠ "" ∧
          mimeType ∈ ["image/png", "image/jpeg", "image/webp", "image/gif"] then
        .image id path name mimeType
      else .error id "Generated image unavailable"
  | _, _, _ => .error id "Generated image unavailable"

def fromDocPart (part : DocPartJson p) : MessagePart p :=
  if part.kind = "image" then imagePart part.id part.path part.name part.mimeType
  else if part.kind = "tool" then
    match part.call.bind p.call.decode with
    | some call => .tool {
        id := part.id
        call
        isError := part.isError.getD false
        resolved := part.isError.isSome
        output := part.output
        diff := part.diff.bind p.diff.decode
        outputRef := part.outputRef
        outputBytes := part.outputBytes
        diffRef := part.diffRef
        diffStats := part.diffStats.bind p.diffStats.decode
        subagentRef := part.subagentRef
        subagentStatus := part.subagentStatus.bind SubagentStatus.ofString?
        subagentTail := part.subagentTail }
    | none => .text part.id ""
  else if part.kind = "input" then
    .input part.id part.id ((part.questions.bind p.questions.decode).getD [])
      (part.resolved.getD false)
  else if part.kind = "permission" then
    .permission part.id ((part.questions.bind p.request.decode).getD p.expired)
  else if part.kind = "error" then .error part.id (part.message.getD "")
  else if part.kind = "reasoning" then .reasoning part.id (part.reasoning.getD "")
  else .text part.id (part.text.getD "")

/-! ## The fold -/

/-- The events that the fold reads; `other` are those that it skips. -/
inductive AgentEvent (p : Payloads) where
  | sessionStarted
  | steered
  | textDelta (text : String)
  | generatedImage (id path name mimeType : String)
  | reasoningDelta (text : String)
  | toolCall (id : String) (call : p.ToolCall)
  | toolResult (id : String) (isError : Bool) (output : Option String) (diff : Option p.ToolDiff)
  | inputRequested (requestId : String) (questions : List p.Question)
  | inputResolved (requestId : String)
  | permissionRequested (request : p.Request)
  | permissionUpdated (request : p.Request)
  | error (message : String)
  | done (errored : Bool) (error : Option String)
  | userMessage
  | subagent (parentToolUseId : String) (event : AgentEvent p)
  | other

namespace MessagePart

def id : MessagePart p → String
  | .text id _ | .image id _ _ _ | .reasoning id _ | .input id _ _ _ | .permission id _
  | .error id _ => id
  | .tool chip => chip.id

def isTool (id : String) : MessagePart p → Bool
  | .tool chip => chip.id == id
  | _ => false

/-- A change of the tool parts with an id. -/
def onTool (id : String) (change : Tool p → Tool p) : MessagePart p → MessagePart p
  | .tool chip => if chip.id = id then .tool (change chip) else .tool chip
  | part => part

def resolveInput (requestId : String) : MessagePart p → MessagePart p
  | .input id rid questions resolved =>
      .input id rid questions (if rid = requestId then true else resolved)
  | part => part

def asks (request : p.Request) : MessagePart p → Bool
  | .permission _ current => p.requestId current == p.requestId request
  | _ => false

def updateRequest (request : p.Request) : MessagePart p → MessagePart p
  | .permission id current =>
      .permission id (if p.requestId current = p.requestId request then request else current)
  | part => part

end MessagePart

/-- What an event of a subagent says of its status, if it says more than that it lives. -/
def subagentStatusOf : AgentEvent p → Option SubagentStatus
  | .done errored _ => some (if errored then .failed else .done)
  | .userMessage | .steered => some .running
  | _ => none

/-- `fold_event_into_parts`. -/
def foldEventIntoParts (out : List (MessagePart p)) : AgentEvent p → List (MessagePart p)
  | .sessionStarted | .steered => []
  | .textDelta text =>
      match out.getLast? with
      | some (.text id tail) => out.dropLast ++ [.text id (tail ++ text)]
      | _ => out ++ [.text ("t" ++ toString out.length) text]
  | .generatedImage id path name mimeType =>
      if out.any fun part => part.id == id then
        out.set (out.findIdx fun part => part.id == id) (.image id path name mimeType)
      else out ++ [.image id path name mimeType]
  | .reasoningDelta text =>
      if text = "" then out
      else
        match out.getLast? with
        | some (.reasoning id tail) => out.dropLast ++ [.reasoning id (tail ++ text)]
        | _ => out ++ [.reasoning ("r" ++ toString out.length) text]
  | .toolCall id call =>
      if out.any (MessagePart.isTool id) then
        out.modify (out.findIdx (MessagePart.isTool id))
          (MessagePart.onTool id fun tool => { tool with call })
      else
        out ++ [.tool {
          id, call, isError := false, resolved := false, output := none, diff := none
          outputRef := none, outputBytes := none, diffRef := none, diffStats := none
          subagentRef := none, subagentStatus := none, subagentTail := none }]
  | .toolResult id isError _ diff =>
      out.map (MessagePart.onTool id fun tool => { tool with
        isError, resolved := true, output := none, outputBytes := none, diff := none
        diffStats := diff.map fun diff => [p.diffStat diff] })
  | .inputRequested requestId questions =>
      if out.any fun part => part.id == "in-" ++ requestId then out
      else out ++ [.input ("in-" ++ requestId) requestId questions false]
  | .inputResolved requestId => out.map (MessagePart.resolveInput requestId)
  | .permissionRequested request =>
      if out.any (MessagePart.asks request) then out
      else out ++ [.permission ("permission-" ++ p.requestId request) request]
  | .permissionUpdated request => out.map (MessagePart.updateRequest request)
  | .error message => out ++ [.error ("e" ++ toString out.length) message]
  | .done _ (some message) => out ++ [.error ("e" ++ toString out.length) message]
  | .done _ none => out
  | .subagent parentToolUseId event =>
      out.map (MessagePart.onTool parentToolUseId fun tool =>
        if p.isSubagentSpawn tool.call then
          match subagentStatusOf event with
          | some status => { tool with subagentStatus := some status }
          | none =>
              if tool.subagentStatus = some .done ∨ tool.subagentStatus = some .failed then tool
              else { tool with subagentStatus := some .running }
        else tool)
  | .userMessage | .other => out

/-! ## The writer -/

/-- `update_part_fields`; a text container is rewritten where there is one. -/
def updatePartFields (map part : DocPartJson p) : DocPartJson p where
  id := map.id
  kind := map.kind
  path := part.path.or map.path
  name := part.name.or map.name
  mimeType := part.mimeType.or map.mimeType
  text := map.text.map fun text => part.text.getD text
  reasoning := map.reasoning.map fun text => part.reasoning.getD text
  call := part.call.or map.call
  isError := part.isError.or map.isError
  questions := part.questions.or map.questions
  resolved := part.resolved.or map.resolved
  message := part.message.or map.message
  output := part.output.or map.output
  diff := part.diff.or map.diff
  outputRef := part.outputRef.or map.outputRef
  outputBytes := part.outputBytes.or map.outputBytes
  diffRef := part.diffRef.or map.diffRef
  diffStats := part.diffStats.or map.diffStats
  subagentRef := part.subagentRef.or map.subagentRef
  subagentStatus := part.subagentStatus.or map.subagentStatus
  subagentTail := part.subagentTail.or map.subagentTail

/-- The growth of a text body, and the write of a delta at the end of its container. -/
def grown : MessagePart p → MessagePart p →
    Option (String × (String → DocPartJson p → Option (DocPartJson p)))
  | .text _ old, .text _ new => (tail? old new).map fun delta => (delta, fun delta map =>
      map.text.map fun text => { map with text := some (text ++ delta) })
  | .reasoning _ old, .reasoning _ new => (tail? old new).map fun delta => (delta, fun delta map =>
      map.reasoning.map fun text => { map with reasoning := some (text ++ delta) })
  | _, _ => none

/-- One turn of the loop of `sync` for a part that was written before; `none` is an error. -/
def writePart (prev part : MessagePart p) (map : Option (DocPartJson p)) :
    Option (Option (DocPartJson p)) :=
  if prev = part then some map
  else
    match grown prev part with
    | some (delta, append) =>
        if delta = "" then some map else (map.bind (append delta)).map some
    | none => map.map fun map => some (updatePartFields map (toDocPart part))

/-- The maps of the entry's parts and the mirror. -/
structure SegmentWriter (p : Payloads) where
  written : List (MessagePart p)
  parts : List (DocPartJson p)
  failed : Bool

/-- `sync`: the folded parts beside the mirror and the maps. -/
def sync : List (MessagePart p) → List (MessagePart p) → List (DocPartJson p) → SegmentWriter p
  | [], written, parts => { written, parts, failed := false }
  | part :: folded, [], parts =>
      { written := part :: folded, parts := parts ++ (part :: folded).map toDocPart
        failed := false }
  | part :: folded, prev :: written, parts =>
      match writePart prev part parts.head? with
      | none => { written := prev :: written, parts, failed := true }
      | some map =>
          let rest := sync folded written parts.tail
          { written := part :: rest.written, parts := map.toList ++ rest.parts
            failed := rest.failed }

/-- A segment: its fold, the writer and the entry; `synced` if nothing was folded since. -/
structure Segment (p : Payloads) where
  folded : List (MessagePart p)
  written : List (MessagePart p)
  parts : List (DocPartJson p)
  synced : Bool

inductive Event (p : Payloads) where
  | fold (event : AgentEvent p)
  | sync
  /-- `into_state` and `resume`. -/
  | resume

namespace Segment

def init : Segment p where
  folded := []
  written := []
  parts := []
  synced := false

def step (segment : Segment p) : Event p → Option (Segment p)
  | .fold event =>
      some { segment with folded := foldEventIntoParts segment.folded event, synced := false }
  | .sync =>
      let writer := Stream.sync segment.folded segment.written segment.parts
      some { segment with written := writer.written, parts := writer.parts, synced := true }
  | .resume => some segment

/-- The parts that `read_entries` returns for the entry. -/
def readParts (segment : Segment p) : List (MessagePart p) :=
  segment.parts.map fromDocPart

end Segment

/-- A part with its request id for an id, if it is an input. -/
def MessagePart.keyed : MessagePart p → MessagePart p
  | .input _ requestId questions resolved => .input requestId requestId questions resolved
  | part => part

/-- After a sync the entry shows the folded parts. -/
def Segment.ShowsFold (segment : Segment p) : Prop :=
  segment.synced = true → segment.readParts = segment.folded.map MessagePart.keyed

/-! ## What can be shown -/

namespace MessagePart

/-- A part whose values the document keeps: an image that the reader accepts, no error before
the result, and JSON that is read back. -/
def Readable : MessagePart p → Prop
  | .image _ path name mimeType =>
      path ≠ "" ∧ name ≠ "" ∧ mimeType ∈ ["image/png", "image/jpeg", "image/webp", "image/gif"]
  | .tool chip =>
      p.call.decode (p.call.encode chip.call) = some chip.call ∧
        (chip.resolved = false → chip.isError = false) ∧
          (chip.diff.map p.diff.encode).bind p.diff.decode = chip.diff ∧
            (chip.diffStats.map p.diffStats.encode).bind p.diffStats.decode = chip.diffStats
  | .input _ _ questions _ =>
      (p.questions.decode (p.questions.encode questions)).getD [] = questions
  | .permission _ request =>
      (p.request.decode (p.request.encode request)).getD p.expired = request
  | _ => True

end MessagePart

/-- No field of a tool part is set back. -/
structure Tool.Keeps (old new : Tool p) : Prop where
  resolved : new.resolved = false → old.resolved = false
  output : new.output = none → old.output = none
  diff : new.diff = none → old.diff = none
  outputRef : new.outputRef = none → old.outputRef = none
  outputBytes : new.outputBytes = none → old.outputBytes = none
  diffRef : new.diffRef = none → old.diffRef = none
  diffStats : new.diffStats = none → old.diffStats = none
  subagentRef : new.subagentRef = none → old.subagentRef = none
  subagentStatus : new.subagentStatus = none → old.subagentStatus = none
  subagentTail : new.subagentTail = none → old.subagentTail = none

/-- The part that was written and the new one are of one kind and id, and no field of it is
set back. -/
def Carried (prev part : MessagePart p) : Prop :=
  (toDocPart prev).kind = (toDocPart part).kind ∧ (toDocPart prev).id = (toDocPart part).id ∧
    match prev, part with
    | .tool old, .tool new => old.Keeps new
    | _, _ => True

/-- No written part is gone, each is carried, and all parts are readable. -/
def Streamable (written folded : List (MessagePart p)) : Prop :=
  written.length ≤ folded.length ∧ (∀ pair ∈ written.zip folded, Carried pair.1 pair.2) ∧
    ∀ part ∈ folded, part.Readable

namespace Segment

/-- A sync meets parts that can be shown. -/
def Showable (segment : Segment p) : Event p → Prop
  | .sync => Streamable segment.written segment.folded
  | _ => True

end Segment

/-! ## One part -/

section Part

variable {prev part : MessagePart p} {map : DocPartJson p}

@[simp]
theorem ofString?_toString (status : SubagentStatus) :
    SubagentStatus.ofString? status.toString = some status := by
  cases status <;> rfl

theorem or_eq_left_iff {α : Type} {new old : Option α} :
    new.or old = new ↔ (new = none → old = none) := by
  cases new <;> simp

theorem updatePartFields_self (part : MessagePart p) :
    updatePartFields (toDocPart part) (toDocPart part) = toDocPart part := by
  cases part <;> simp [updatePartFields, toDocPart]

/-- A value that is read back through an update that may have kept the old one. -/
theorem bind_or_eq_iff {value α : Type} {serde : Serde value α} {old : Option α} (new : Option α)
    (read : (old.map serde.encode).bind serde.decode = old) :
    ((new.map serde.encode).or (old.map serde.encode)).bind serde.decode = new ↔
      (new = none → old = none) ∧ (new.map serde.encode).bind serde.decode = new := by
  cases new with
  | none =>
      rw [Option.map_none, Option.none_or, read]
      simp
  | some value => simp

theorem error_or_eq_iff (new old : Tool p) :
    ((if new.resolved then some new.isError else none).or
          (if old.resolved then some old.isError else none)).getD false = new.isError ∧
        ((if new.resolved then some new.isError else none).or
          (if old.resolved then some old.isError else none)).isSome = new.resolved ↔
      (new.resolved = false → old.resolved = false) ∧
        (new.resolved = false → new.isError = false) := by
  cases new.resolved <;> cases old.resolved <;> cases new.isError <;> simp

/-- A tool part shows exactly if it is readable and keeps all fields. -/
theorem fromDocPart_updated_tool {old new : Tool p} (read : (MessagePart.tool old).Readable)
    (same : old.id = new.id) :
    fromDocPart (updatePartFields (toDocPart (.tool old)) (toDocPart (.tool new))) = .tool new ↔
      old.Keeps new ∧ (MessagePart.tool new).Readable := by
  have diff := bind_or_eq_iff new.diff read.2.2.1
  have stats := bind_or_eq_iff new.diffStats read.2.2.2
  have error := error_or_eq_iff new old
  have status : ((new.subagentStatus.map SubagentStatus.toString).or
      (old.subagentStatus.map SubagentStatus.toString)).bind SubagentStatus.ofString? =
        new.subagentStatus.or old.subagentStatus := by
    cases new.subagentStatus <;> cases old.subagentStatus <;> simp
  simp only [fromDocPart, updatePartFields, toDocPart, Option.some_or, Option.bind_some,
    String.reduceEq, if_false, if_true, status]
  cases decoded : p.call.decode (p.call.encode new.call) with
  | none =>
      refine iff_of_false (by simp) fun ⟨_, call, _⟩ => ?_
      rw [decoded] at call
      cases call
  | some call =>
      simp only [MessagePart.tool.injEq, Tool.ext_iff, or_eq_left_iff]
      constructor
      · rintro ⟨-, rfl, isError, resolved, output, kept, outputRef, outputBytes, diffRef, keptStats,
          subagentRef, subagentStatus, subagentTail⟩
        have errors := error.mp ⟨isError, resolved⟩
        exact ⟨⟨errors.1, output, (diff.mp kept).1, outputRef, outputBytes, diffRef,
          (stats.mp keptStats).1, subagentRef, subagentStatus, subagentTail⟩,
          decoded, errors.2, (diff.mp kept).2, (stats.mp keptStats).2⟩
      · rintro ⟨keeps, read_call, unresolved, read_diff, read_stats⟩
        have errors := error.mpr ⟨keeps.resolved, unresolved⟩
        exact ⟨same, Option.some.inj (decoded.symm.trans read_call), errors.1, errors.2,
          keeps.output, diff.mpr ⟨keeps.diff, read_diff⟩, keeps.outputRef, keeps.outputBytes,
          keeps.diffRef, stats.mpr ⟨keeps.diffStats, read_stats⟩, keeps.subagentRef,
          keeps.subagentStatus, keeps.subagentTail⟩

/-- A part is read back from a new map exactly if it is readable. -/
theorem fromDocPart_toDocPart :
    fromDocPart (toDocPart part) = part.keyed ↔ part.Readable := by
  cases part with
  | text id text => simp [fromDocPart, toDocPart, MessagePart.keyed, MessagePart.Readable]
  | reasoning id text => simp [fromDocPart, toDocPart, MessagePart.keyed, MessagePart.Readable]
  | error id message => simp [fromDocPart, toDocPart, MessagePart.keyed, MessagePart.Readable]
  | permission id request =>
      simp [fromDocPart, toDocPart, MessagePart.keyed, MessagePart.Readable]
  | input id requestId questions resolved =>
      simp [fromDocPart, toDocPart, MessagePart.keyed, MessagePart.Readable]
  | image id path name mimeType =>
      simp only [fromDocPart, toDocPart, imagePart, MessagePart.keyed, if_true]
      split
      · rename_i readable
        exact iff_of_true rfl readable
      · rename_i unreadable
        exact iff_of_false (by simp) unreadable
  | tool chip =>
      constructor
      · intro shown
        simp only [fromDocPart, toDocPart, MessagePart.keyed, Option.bind_some, String.reduceEq,
          if_false, if_true] at shown
        cases decoded : p.call.decode (p.call.encode chip.call) with
        | none => simp [decoded] at shown
        | some call =>
            simp only [decoded, MessagePart.tool.injEq, Tool.ext_iff] at shown
            rcases shown with ⟨-, rfl, isError, -, -, diff, -, -, -, stats, -⟩
            refine ⟨decoded, fun unresolved => ?_, diff, stats⟩
            simpa [unresolved] using isError.symm
      · intro readable
        rw [← updatePartFields_self]
        refine (fromDocPart_updated_tool readable rfl).mpr ⟨?_, readable⟩
        exact ⟨id, id, id, id, id, id, id, id, id, id⟩

theorem id_fromDocPart (map : DocPartJson p) : (toDocPart (fromDocPart map)).id = map.id := by
  unfold fromDocPart imagePart
  repeat' split
  all_goals rfl

@[simp]
theorem kind_keyed (part : MessagePart p) :
    (toDocPart part.keyed).kind = (toDocPart part).kind := by
  cases part <;> rfl

@[simp]
theorem id_keyed (part : MessagePart p) : (toDocPart part.keyed).id = (toDocPart part).id := by
  cases part <;> rfl

/-- A map keeps the kind under which it was pushed. -/
theorem kind_updated (readable : prev.Readable)
    (differs : (toDocPart prev).kind ≠ (toDocPart part).kind) :
    (toDocPart (fromDocPart (updatePartFields (toDocPart prev) (toDocPart part)))).kind =
      (toDocPart prev).kind := by
  cases prev with
  | image id path name mimeType =>
      have accepted : path ≠ "" ∧ name ≠ "" ∧
        mimeType ∈ ["image/png", "image/jpeg", "image/webp", "image/gif"] := readable
      cases part with
      | image => exact absurd rfl differs
      | _ => simp only [fromDocPart, updatePartFields, toDocPart, imagePart, Option.none_or,
          if_true, if_pos accepted]
  | tool chip =>
      cases part with
      | tool => exact absurd rfl differs
      | _ => simp only [fromDocPart, updatePartFields, toDocPart, Option.none_or, Option.bind_some,
          readable.1, String.reduceEq, if_true, if_false]
  | _ => simp [fromDocPart, updatePartFields, toDocPart]

/-- A carried part leaves nothing of the old one behind. -/
theorem updatePartFields_of_carried (carried : Carried prev part) :
    updatePartFields (toDocPart prev) (toDocPart part) = toDocPart part := by
  rcases carried with ⟨kind, id, keeps⟩
  cases prev with
  | tool old =>
      cases part with
      | tool new =>
          have error : (if new.resolved then some new.isError else none).or
              (if old.resolved then some old.isError else none) =
                if new.resolved then some new.isError else none := by
            cases resolved : new.resolved <;> simp [keeps.resolved, resolved]
          have written {α β : Type} (write : α → β) {new old : Option α}
              (kept : new = none → old = none) : (new.map write).or (old.map write) =
                new.map write := by
            rw [or_eq_left_iff, Option.map_eq_none_iff, Option.map_eq_none_iff]
            exact kept
          simp only [updatePartFields, toDocPart, error, Option.some_or, Option.or_self,
            Option.map_none, written _ keeps.diff, written _ keeps.diffStats,
            written _ keeps.subagentStatus, or_eq_left_iff.mpr keeps.output,
            or_eq_left_iff.mpr keeps.outputRef, or_eq_left_iff.mpr keeps.outputBytes,
            or_eq_left_iff.mpr keeps.diffRef, or_eq_left_iff.mpr keeps.subagentRef,
            or_eq_left_iff.mpr keeps.subagentTail, show old.id = new.id from id]
      | _ => simp [toDocPart] at kind
  | _ =>
      cases part <;> simp_all [updatePartFields, toDocPart]

/-- The growth of a text body is a carried part that differs in its text only. -/
theorem append_of_grown {delta : String}
    {append : String → DocPartJson p → Option (DocPartJson p)}
    (found : grown prev part = some (delta, append)) :
    append delta (toDocPart prev) =
        some { toDocPart part with id := (toDocPart prev).id } ∧
      (delta = "" → toDocPart prev = { toDocPart part with id := (toDocPart prev).id }) ∧
        (toDocPart prev).kind = (toDocPart part).kind ∧ part.Readable ∧
          (Carried prev part ↔ (toDocPart prev).id = (toDocPart part).id) := by
  unfold grown at found
  split at found
  rotate_left 2
  · cases found
  all_goals
    rcases Option.map_eq_some_iff.mp found with ⟨delta, growth, same⟩
    cases same
    have whole := append_tail growth
    refine ⟨by simp [toDocPart, whole], ?_, rfl, trivial, ?_⟩
    · rintro rfl
      rw [String.append_empty] at whole
      simp only [toDocPart, whole]
    · exact ⟨fun carried => carried.2.1, fun same => ⟨rfl, same, trivial⟩⟩

/-- What `sync` makes of a part that was written before: an error never, the new part if that
is carried and readable, and otherwise another one. -/
theorem writePart_toDocPart (readable : prev.Readable) (part : MessagePart p) :
    ∃ map, writePart prev part (some (toDocPart prev)) = some (some map) ∧
      (fromDocPart map = part.keyed → Carried prev part ∧ part.Readable) ∧
        (Carried prev part → map = toDocPart part) := by
  have identified (map : DocPartJson p) (shown : fromDocPart map = part.keyed) :
      map.id = (toDocPart part).id := by
    rw [← id_fromDocPart, shown, id_keyed]
  unfold writePart
  split
  · rename_i same
    rcases same with rfl
    refine ⟨_, rfl, fun shown => ⟨⟨rfl, rfl, ?_⟩, readable⟩, fun _ => rfl⟩
    cases prev <;> first | trivial | exact ⟨id, id, id, id, id, id, id, id, id, id⟩
  · cases found : grown prev part with
    | some growth =>
        rcases growth with ⟨delta, append⟩
        rcases append_of_grown found with ⟨appended, idle, kind, read, carried⟩
        refine ⟨{ toDocPart part with id := (toDocPart prev).id }, ?_, ?_, ?_⟩
        · dsimp only
          split
          · rename_i nothing
            rw [← idle nothing]
          · rw [Option.bind_some, appended]
            rfl
        · intro shown
          have same := identified _ shown
          exact ⟨carried.mpr same, read⟩
        · intro kept
          rw [carried.mp kept]
    | none =>
        refine ⟨_, rfl, ?_, updatePartFields_of_carried⟩
        intro shown
        have kind : (toDocPart prev).kind = (toDocPart part).kind := by
          by_contra differs
          have kept := kind_updated readable differs
          rw [shown, kind_keyed] at kept
          exact differs kept.symm
        have same := identified _ shown
        cases prev with
        | tool old =>
            cases part with
            | tool new =>
                rcases (fromDocPart_updated_tool readable same).mp shown with ⟨keeps, read⟩
                exact ⟨⟨kind, same, keeps⟩, read⟩
            | _ => simp [toDocPart] at kind
        | _ =>
            have carried : Carried _ part := ⟨kind, same, trivial⟩
            rw [updatePartFields_of_carried carried, fromDocPart_toDocPart] at shown
            exact ⟨carried, shown⟩

end Part

/-! ## Runs -/

/-- After a sync the maps show the folded parts only if these can be shown, and then they are
the maps of new parts. -/
theorem sync_toDocPart {folded written : List (MessagePart p)}
    (readable : ∀ part ∈ written, part.Readable) :
    ((sync folded written (written.map toDocPart)).parts.map fromDocPart =
        folded.map MessagePart.keyed → Streamable written folded) ∧
      (Streamable written folded →
        (sync folded written (written.map toDocPart)).parts = folded.map toDocPart ∧
          (sync folded written (written.map toDocPart)).written = folded) := by
  induction folded generalizing written with
  | nil =>
      constructor
      · intro shown
        simp only [sync, List.map_nil, List.map_eq_nil_iff] at shown
        rw [shown]
        exact ⟨Nat.le_refl _, by simp, by simp⟩
      · intro streamable
        rw [List.length_eq_zero_iff.mp (Nat.le_zero.mp streamable.1)]
        exact ⟨rfl, rfl⟩
  | cons part folded ih =>
      cases written with
      | nil =>
          simp only [sync, List.map_nil, List.nil_append, List.map_map]
          refine ⟨fun shown => ⟨Nat.zero_le _, by simp, fun part listed => ?_⟩, fun _ => ⟨trivial, trivial⟩⟩
          exact fromDocPart_toDocPart.mp (List.map_inj_left.mp shown part listed)
      | cons prev written =>
          rcases List.forall_mem_cons.mp readable with ⟨read, others⟩
          rcases writePart_toDocPart read part with ⟨map, wrote, shows, exactly⟩
          rcases ih others with ⟨rest_shows, rest_exactly⟩
          simp only [sync, List.map_cons, List.head?_cons, wrote,
            Option.toList_some, List.singleton_append, List.cons.injEq]
          constructor
          · rintro ⟨first, rest⟩
            rcases shows first with ⟨carried, part_read⟩
            rcases rest_shows rest with ⟨longer, all_carried, all_read⟩
            refine ⟨Nat.succ_le_succ longer, ?_, ?_⟩
            · exact List.forall_mem_cons.mpr ⟨carried, all_carried⟩
            · exact List.forall_mem_cons.mpr ⟨part_read, all_read⟩
          · rintro ⟨longer, carried, all_read⟩
            rcases List.forall_mem_cons.mp carried with ⟨first, all_carried⟩
            rcases rest_exactly ⟨Nat.le_of_succ_le_succ longer, all_carried,
              (List.forall_mem_cons.mp all_read).2⟩ with ⟨parts, mirror⟩
            exact ⟨⟨exactly first, parts⟩, trivial, mirror⟩

namespace Segment

variable {segment next : Segment p}

/-- The maps are those of the mirror's parts. -/
structure Mirrored (segment : Segment p) : Prop where
  parts : segment.parts = segment.written.map toDocPart
  readable : ∀ part ∈ segment.written, part.Readable
  synced : segment.synced = true → segment.written = segment.folded

theorem Mirrored.showsFold (mirrored : segment.Mirrored) : segment.ShowsFold := by
  intro synced
  rw [readParts, mirrored.parts, List.map_map, ← mirrored.synced synced]
  exact List.map_congr_left fun part listed =>
    fromDocPart_toDocPart.mpr (mirrored.readable part listed)

theorem Mirrored.meets (mirrored : segment.Mirrored) {event : Event p}
    (stepped : segment.step event = some next) (shows : next.ShowsFold) :
    segment.Showable event := by
  cases event with
  | fold event => trivial
  | resume => trivial
  | sync =>
      cases stepped
      have shown := shows rfl
      simp only [mirrored.parts] at shown
      exact (sync_toDocPart mirrored.readable).1 shown

theorem Mirrored.step (mirrored : segment.Mirrored) {event : Event p}
    (stepped : segment.step event = some next) (showable : segment.Showable event) :
    next.Mirrored := by
  cases event with
  | fold event =>
      cases stepped
      exact ⟨mirrored.parts, mirrored.readable, fun synced => by cases synced⟩
  | resume =>
      cases stepped
      exact mirrored
  | sync =>
      cases stepped
      have written := (sync_toDocPart mirrored.readable).2 showable
      rw [← mirrored.parts] at written
      refine ⟨?_, ?_, fun _ => written.2⟩
      · simp only [written]
      · rw [written.2]
        exact showable.2.2

theorem mirrored_init : (init : Segment p).Mirrored where
  parts := rfl
  readable := by simp [init]
  synced synced := by cases synced

/-- In every run, the entry shows the folded parts after every sync exactly if each sync meets
parts that can be shown. -/
theorem entry_shows_fold_iff (events : List (Event p)) :
    EveryState step ShowsFold (init : Segment p) events ↔
      EveryStep step Showable (init : Segment p) events := by
  have total (segment : Segment p) (event : Event p) : (segment.step event).isSome := by
    cases event <;> rfl
  rcases exists_run_of_total total init events with ⟨final, ran⟩
  exact everyState_iff_of_inv (fun mirrored => mirrored.showsFold)
    (fun mirrored => mirrored.meets) (fun mirrored => mirrored.step) mirrored_init ran

end Segment

/-- A provider whose calls, requests, diffs and statistics say nothing. -/
def units : Payloads where
  Value := Nat
  ToolCall := Unit
  Question := Unit
  Request := Unit
  ToolDiff := Unit
  Stat := Unit
  call := { encode := fun _ => 0, decode := fun _ => some () }
  questions := { encode := List.length, decode := fun count => some (List.replicate count ()) }
  request := { encode := fun _ => 0, decode := fun _ => some () }
  diff := { encode := fun _ => 0, decode := fun _ => some () }
  diffStats := { encode := List.length, decode := fun count => some (List.replicate count ()) }
  isSubagentSpawn _ := false
  requestId _ := ""
  expired := ()
  diffStat _ := ()

namespace Segment

/-- A second result without a diff leaves the statistics of the first one in the document. -/
theorem diff_stats_outlive_their_result :
    ¬EveryState step ShowsFold (init : Segment units) [
      .fold (.toolCall "a" ()), .fold (.toolResult "a" false none (some ())), .sync,
      .fold (.toolResult "a" false none none), .sync] := by
  intro every
  have shown := (((((every.2 _ rfl).2 _ rfl).2 _ rfl).2 _ rfl).2 _ rfl) rfl
  exact absurd shown (by decide)

end Segment

end Zeron.Transcript.Stream
