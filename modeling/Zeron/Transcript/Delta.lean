import Zeron.Data.Splice

/-!
# Transcript frames

A watch of a transcript sends what has changed since its last frame: entries to
put in a place, text to append to one part, and entries to take out.  A frame
that would carry most of the transcript is sent as the whole transcript.
-/

namespace Zeron.Transcript

inductive MessageRole where
  | user
  | assistant
  | system
  deriving DecidableEq

inductive MessageStatus where
  | streaming
  | complete
  | aborted
  deriving DecidableEq

/-- `content` stands for the fields of a part that are only compared. -/
inductive MessagePart (content : Type) where
  | text (id text : String)
  | image (id path name mimeType : String)
  | reasoning (id text : String)
  | tool (id : String) (call : content)
  | input (id : String) (request : content)
  | permission (id : String) (request : content)
  | error (id message : String)
  deriving DecidableEq

structure SessionMessageEntry (content : Type) where
  id : String
  role : MessageRole
  parts : List (MessagePart content)
  createdAt : Int
  deviceId : String
  status : Option MessageStatus
  continuationOf : Option String
  deriving DecidableEq

/-- An entry that goes after another one, or in front. -/
structure TranscriptUpsert (content : Type) where
  after : Option String
  entry : SessionMessageEntry content

/-- Text at the end of one part; `len` is the part's length in bytes after it. -/
structure TextAppend where
  entry : String
  part : String
  text : String
  len : Nat

inductive TranscriptFrame (content : Type) where
  | reset (entries : List (SessionMessageEntry content))
  | delta (upsert : List (TranscriptUpsert content)) (append : List TextAppend)
      (remove : List String) (count : Nat)

variable {content : Type}

namespace MessagePart

def id : MessagePart content → String
  | text id _ => id
  | image id _ _ _ => id
  | reasoning id _ => id
  | tool id _ => id
  | input id _ => id
  | permission id _ => id
  | error id _ => id

end MessagePart

/-- A transcript: entries with distinct ids, each with distinct part ids. -/
structure SessionTranscript (content : Type) where
  entries : List (SessionMessageEntry content)
  distinct : (entries.map SessionMessageEntry.id).Nodup
  parts : ∀ entry ∈ entries, (entry.parts.map MessagePart.id).Nodup

/-- `nt.starts_with(pt)` and `nt[pt.len()..]`. -/
def tail? (short long : String) : Option String :=
  if short.toList <+: long.toList then
    some (String.ofList (long.toList.drop short.toList.length))
  else none

section Diff

variable [DecidableEq content]

/-- Id and text of two text parts or of two reasoning parts. -/
def textBodies : MessagePart content → MessagePart content →
    Option ((String × String) × (String × String))
  | .text prevId prevText, .text nextId nextText => some ((prevId, prevText), (nextId, nextText))
  | .reasoning prevId prevText, .reasoning nextId nextText =>
      some ((prevId, prevText), (nextId, nextText))
  | _, _ => none

/-- The append that turns one part into another. -/
def partAppend (entry : String) (prev next : MessagePart content) : Option TextAppend :=
  match textBodies prev next with
  | none => none
  | some ((prevId, prevText), (nextId, nextText)) =>
      if prevId ≠ nextId then none
      else
        (tail? prevText nextText).map fun text =>
          { entry, part := nextId, text, len := nextText.utf8ByteSize }

/-- The loop over the parts of `try_text_append`; `append` is what it has found. -/
def appendedPart (entry : String) : List (MessagePart content × MessagePart content) →
    Option TextAppend → Option TextAppend
  | [], append => append
  | (prev, next) :: rest, append =>
      if prev = next then appendedPart entry rest append
      else
        match partAppend entry prev next, append with
        | some found, none => appendedPart entry rest (some found)
        | _, _ => none

/-- `try_text_append`. -/
def tryTextAppend (prev next : SessionMessageEntry content) : Option TextAppend :=
  if prev.id ≠ next.id ∨ prev.role ≠ next.role ∨ prev.createdAt ≠ next.createdAt ∨
      prev.deviceId ≠ next.deviceId ∨ prev.status ≠ next.status ∨
      prev.continuationOf ≠ next.continuationOf ∨ prev.parts.length ≠ next.parts.length then none
  else appendedPart next.id (prev.parts.zip next.parts) none

/-- Entries with the id of the one before each. -/
def withAfter (after : Option String) : List (SessionMessageEntry content) →
    List (Option String × SessionMessageEntry content)
  | [] => []
  | entry :: rest => (after, entry) :: withAfter (some entry.id) rest

/-- What the loop of `diff_transcript` does with one entry. -/
inductive Change (content : Type) where
  | keep
  | append (text : TextAppend)
  | upsert

/-- One turn of the loop: `after` is the predecessor in `next`. -/
def changeOf (prev : List (SessionMessageEntry content)) (after : Option String)
    (entry : SessionMessageEntry content) : Change content :=
  match (withAfter none prev).find? fun step => step.2.id == entry.id with
  | some (prevAfter, prevEntry) =>
      if prevEntry = entry ∧ prevAfter = after then .keep
      else
        match (if prevAfter = after then tryTextAppend prevEntry entry else none) with
        | some text => .append text
        | none => .upsert
  | none => .upsert

/-- `diff_transcript`. -/
def diffTranscript (prev next : List (SessionMessageEntry content)) : TranscriptFrame content :=
  let remove := (prev.filter fun entry => entry.id ∉ next.map SessionMessageEntry.id).map
    SessionMessageEntry.id
  let upsert := (withAfter none next).filterMap fun (after, entry) =>
    match changeOf prev after entry with
    | .upsert => some { after, entry }
    | _ => none
  let append := (withAfter none next).filterMap fun (after, entry) =>
    match changeOf prev after entry with
    | .append text => some text
    | _ => none
  -- A delta that touches most rows goes as a reset.
  if max next.length 1 ≤ upsert.length * 2 ∧ 4 < next.length then .reset next
  else .delta upsert append remove next.length

end Diff

/-- Where an upsert puts its entry. -/
def insertEntry (anchor : String) (entry : SessionMessageEntry content) :
    List (SessionMessageEntry content) → Option (List (SessionMessageEntry content))
  | [] => none
  | first :: rest =>
      if first.id = anchor then some (first :: entry :: rest)
      else (insertEntry anchor entry rest).map (first :: ·)

def applyUpsert (current : List (SessionMessageEntry content)) (upsert : TranscriptUpsert content) :
    Except String (List (SessionMessageEntry content)) :=
  let removed := current.eraseP fun entry => entry.id = upsert.entry.id
  match upsert.after with
  | none => .ok (upsert.entry :: removed)
  | some anchor =>
      match insertEntry anchor upsert.entry removed with
      | some placed => .ok placed
      | none => .error s!"missing anchor {anchor}"

/-- The parts after an append to the first text or reasoning part with the id,
and that part's length. -/
def appendToPart (part text : String) :
    List (MessagePart content) → Option (List (MessagePart content) × Nat)
  | [] => none
  | first :: rest =>
      let later := (appendToPart part text rest).map fun (parts, len) => (first :: parts, len)
      match first with
      | .text id body =>
          if id = part then some (.text id (body ++ text) :: rest, (body ++ text).utf8ByteSize)
          else later
      | .reasoning id body =>
          if id = part then
            some (.reasoning id (body ++ text) :: rest, (body ++ text).utf8ByteSize)
          else later
      | _ => later

def appendToEntry (target : SessionMessageEntry content) (append : TextAppend) :
    Except String (SessionMessageEntry content) :=
  match appendToPart append.part append.text target.parts with
  | none => .error s!"missing append part {append.part}"
  | some (parts, len) =>
      if len = append.len then .ok { target with parts }
      else
        let found := s!"append length mismatch on {append.entry}#{append.part}"
        .error s!"{found}: have {len}, expected {append.len}"

/-- The first entry with the id is changed in place. -/
def applyAppend (append : TextAppend) :
    List (SessionMessageEntry content) → Except String (List (SessionMessageEntry content))
  | [] => .error s!"missing append entry {append.entry}"
  | first :: rest =>
      if first.id = append.entry then
        (appendToEntry first append).map (· :: rest)
      else (applyAppend append rest).map (first :: ·)

/-- `apply_transcript_frame`; an error is the desync it reports. -/
def applyTranscriptFrame (current : List (SessionMessageEntry content)) :
    TranscriptFrame content → Except String (List (SessionMessageEntry content))
  | .reset entries => .ok entries
  | .delta upsert append remove count => do
      let retained := current.filter fun entry => entry.id ∉ remove
      let placed ← upsert.foldlM applyUpsert retained
      let appended ← append.foldlM (fun entries text => applyAppend text entries) placed
      if appended.length = count then .ok appended
      else .error s!"count mismatch: have {appended.length}, expected {count}"

end Zeron.Transcript
