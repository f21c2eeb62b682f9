import Zeron.Transcript.Stream
import Zeron.Wire.Json

/-!
# The opening tail of a transcript

`read_opening_tail` reads the last messages of a document backwards and cuts the earliest one
before it is decoded.  The full transcript decodes every message whole.
-/

namespace Zeron.Transcript.Stream

open Wire

/-- What reading takes from other crates: JSON as the decoders of the payloads see it, and the
hash of a value in hex. -/
structure Reader (p : Payloads) where
  value : Json → p.Value
  stableHash : Json → String

structure SessionMessageEntry (p : Payloads) where
  id : String
  role : MessageRole
  parts : List (MessagePart p)
  createdAt : Int
  deviceId : String
  status : Option MessageStatus
  continuationOf : Option String
  deriving DecidableEq

/-! ## Decoding -/

def asBool : Json → Option Bool
  | .bool value => some value
  | _ => none

/-- The value of some digits. -/
def digitsOf (chars : List Char) : Option Nat :=
  if chars ≠ [] ∧ chars.all Char.isDigit then some (Nat.ofDigitChars 10 chars 0) else none

def asI64 : Json → Option Int
  | .num literal =>
      let value := match literal.toList with
        | '-' :: digits => (digitsOf digits).map fun n => -(n : Int)
        | digits => (digitsOf digits).map Int.ofNat
      value.filter fun n => decide (-2 ^ 63 ≤ n ∧ n < 2 ^ 63)
  | _ => none

def asU64 : Json → Option Nat
  | .num literal => (digitsOf literal.toList).filter fun n => decide (n < 2 ^ 64)
  | _ => none

/-- A variant without fields, as `serde` reads it. -/
def unitVariant : Json → Option String
  | .str name => some name
  | .obj [(name, .null)] => some name
  | _ => none

def roleOf (json : Json) : Option MessageRole :=
  match unitVariant json with
  | some "user" => some .user
  | some "assistant" => some .assistant
  | some "system" => some .system
  | _ => none

def statusOf (json : Json) : Option MessageStatus :=
  match unitVariant json with
  | some "streaming" => some .streaming
  | some "complete" => some .complete
  | some "aborted" => some .aborted
  | _ => none

/-- A derived `Deserialize` reads the fields of an object, or of an array in their order. -/
def structFields (names : List String) : Json → Option (String → Option Json)
  | .obj members => some fun key => members.lookup key
  | .arr items =>
      if items.length ≤ names.length then some fun key => items[names.idxOf key]? else none
  | _ => none

/-- An `Option` field with a default. -/
def optional {α : Type} (read : Json → Option α) : Option Json → Option (Option α)
  | none | some .null => some none
  | some json => (read json).map some

section Reading

variable {p : Payloads} (reader : Reader p)

def docPartOfJson (json : Json) : Option (DocPartJson p) := do
  let field ← structFields ["id", "kind", "path", "name", "mimeType", "text", "reasoning", "call",
    "isError", "questions", "resolved", "message", "output", "diff", "outputRef", "outputBytes",
    "diffRef", "diffStats", "subagentRef", "subagentStatus", "subagentTail"] json
  let value := optional fun json => some (reader.value json)
  let id ← (field "id").bind Json.asString
  let kind ← (field "kind").bind Json.asString
  let path ← optional Json.asString (field "path")
  let name ← optional Json.asString (field "name")
  let mimeType ← optional Json.asString (field "mimeType")
  let text ← optional Json.asString (field "text")
  let reasoning ← optional Json.asString (field "reasoning")
  let call ← value (field "call")
  let isError ← optional asBool (field "isError")
  let questions ← value (field "questions")
  let resolved ← optional asBool (field "resolved")
  let message ← optional Json.asString (field "message")
  let output ← optional Json.asString (field "output")
  let diff ← value (field "diff")
  let outputRef ← optional Json.asString (field "outputRef")
  let outputBytes ← optional asU64 (field "outputBytes")
  let diffRef ← optional Json.asString (field "diffRef")
  let diffStats ← value (field "diffStats")
  let subagentRef ← optional Json.asString (field "subagentRef")
  let subagentStatus ← optional Json.asString (field "subagentStatus")
  let subagentTail ← optional Json.asString (field "subagentTail")
  some { id, kind, path, name, mimeType, text, reasoning, call, isError, questions, resolved,
         message, output, diff, outputRef, outputBytes, diffRef, diffStats, subagentRef,
         subagentStatus, subagentTail }

def strictPart (json : Json) : Option (MessagePart p) :=
  (docPartOfJson reader json).map fromDocPart

def salvagePart (entryId : String) (ix : Nat) : Json → Option (MessagePart p)
  | .obj members =>
      let field key := (members.lookup key).bind Json.asString
      let id := (field "id").getD (entryId ++ "#recovered-" ++ toString ix)
      if field "kind" = some "image" then
        some (imagePart id (field "path") (field "name") (field "mimeType"))
      else
        match field "reasoning", field "text" with
        | some reasoning, _ => some (.reasoning id reasoning)
        | none, some text => some (.text id text)
        | none, none =>
            match (members.lookup "call").bind fun call => p.call.decode (reader.value call) with
            | some call => some (.tool {
                id, call
                isError := ((members.lookup "isError").bind asBool).getD false
                resolved := ((members.lookup "resolved").bind asBool).getD true
                output := field "output"
                diff := none, outputRef := none, outputBytes := none, diffRef := none
                diffStats := none, subagentRef := none, subagentStatus := none
                subagentTail := none })
            | none => (field "message").map (MessagePart.error id)
  | _ => none

/-- A part of an entry that is salvaged. -/
def readPart (entryId : String) (ix : Nat) (json : Json) : Option (MessagePart p) :=
  (strictPart reader json).or (salvagePart reader entryId ix json)

def readParts (entryId : String) : Nat → List Json → List (MessagePart p)
  | _, [] => []
  | ix, item :: items =>
      (readPart reader entryId ix item).toList ++ readParts entryId (ix + 1) items

def strictParts : Option Json → Option (List (MessagePart p))
  | none => some []
  | some (.arr items) => items.mapM (strictPart reader)
  | some _ => none

/-- `RawEntry`. -/
def strictEntry (json : Json) : Option (SessionMessageEntry p) := do
  let field ← structFields
    ["id", "role", "parts", "createdAt", "deviceId", "status", "continuationOf"] json
  let id ← (field "id").bind Json.asString
  let role ← (field "role").bind roleOf
  let parts ← strictParts reader (field "parts")
  let createdAt ← (field "createdAt").bind asI64
  let deviceId ← (field "deviceId").bind Json.asString
  let status ← optional statusOf (field "status")
  let continuationOf ← optional Json.asString (field "continuationOf")
  some { id, role, parts, createdAt, deviceId, status, continuationOf }

/-- The id of an object, or one that its hash makes. -/
def idOf (members : List (String × Json)) : String :=
  ((members.lookup "id").bind Json.asString).getD
    ("recovered-" ++ reader.stableHash (.obj members))

/-- The array of an entry's parts. -/
def itemsOf : Option Json → List Json
  | some (.arr items) => items
  | _ => []

def salvageEntry (members : List (String × Json)) : SessionMessageEntry p where
  id := idOf reader members
  role := ((members.lookup "role").bind roleOf).getD .assistant
  parts := readParts reader (idOf reader members) 0 (itemsOf (members.lookup "parts"))
  createdAt := ((members.lookup "createdAt").bind asI64).getD 0
  deviceId := ((members.lookup "deviceId").bind Json.asString).getD ""
  status := (members.lookup "status").bind statusOf
  continuationOf := (members.lookup "continuationOf").bind Json.asString

def entryFromJson (json : Json) : Option (SessionMessageEntry p) :=
  (strictEntry reader json).or
    (match json with
      | .obj members => some (salvageEntry reader members)
      | _ => none)

/-! ## The two readers -/

/-- What is under `parts` in the map of a message. -/
inductive Parts where
  | absent
  /-- A list container, its items read deep. -/
  | list (items : List Json)
  | value (json : Json)

/-- An element of `messages`. -/
inductive Message where
  /-- A map container: its fields with nested containers as their ids, and read deep. -/
  | map (shallow deep : List (String × Json)) (parts : Parts)
  | value (json : Json)

/-- The fields but `parts`. -/
def ownFields (fields : List (String × Json)) : List (String × Json) :=
  fields.filter fun field => field.1 != "parts"

/-- The object of the fields with another value under `parts`. -/
def entryObject (fields : List (String × Json)) (parts : Option Json) : List (String × Json) :=
  ownFields fields ++ parts.toList.map fun json => ("parts", json)

def Parts.deep : Parts → Option Json
  | .absent => none
  | .list items => some (.arr items)
  | .value json => some json

def Message.deep : Message → Json
  | .map _ fields parts => .obj (entryObject fields parts.deep)
  | .value json => json

def readEntries (messages : List Message) : List (SessionMessageEntry p) :=
  messages.filterMap fun message => entryFromJson reader message.deep

/-- The output of `join_continuation_entries` so far, and `root_index`. -/
structure Joined (p : Payloads) where
  out : List (SessionMessageEntry p)
  rootIndex : List (String × Nat)

def SessionMessageEntry.extend (entry : SessionMessageEntry p) (parts : List (MessagePart p)) :
    SessionMessageEntry p :=
  { entry with parts := entry.parts ++ parts }

def Joined.add (joined : Joined p) (entry : SessionMessageEntry p) : Joined p :=
  match entry.continuationOf with
  | some root =>
      match joined.rootIndex.lookup root with
      | some index => { joined with out := joined.out.modify index (·.extend entry.parts) }
      | none => { joined with out := joined.out ++ [entry] }
  | none => {
      out := joined.out ++ [entry]
      rootIndex := (entry.id, joined.out.length) :: joined.rootIndex }

def Joined.addAll (joined : Joined p) (entries : List (SessionMessageEntry p)) : Joined p :=
  entries.foldl Joined.add joined

def joinContinuationEntries (entries : List (SessionMessageEntry p)) :
    List (SessionMessageEntry p) :=
  if entries.any fun entry => entry.continuationOf.isSome then
    (Joined.addAll { out := [], rootIndex := [] } entries).out
  else entries

/-- How many parts of a message are read, and what they take from the limit. -/
def Parts.count (remaining : Nat) : Parts → Nat
  | .list items => min remaining items.length
  | _ => 0

def Parts.cost (remaining : Nat) : Parts → Nat
  | .list items => min (max (min remaining items.length) 1) remaining
  | _ => 1

/-- The items of a list container. -/
def Parts.items : Parts → List Json
  | .list items => items
  | _ => []

/-- The object of the fields with the last parts. -/
def cutObject (fields : List (String × Json)) (parts : Parts) (count : Nat) :
    List (String × Json) :=
  entryObject fields (some (.arr (parts.items.drop (parts.items.length - count))))

/-- The loop of `read_opening_tail`, from the last message on. -/
def openingEntries : Nat → List Message → List (SessionMessageEntry p)
  | _, [] => []
  | 0, _ => []
  | remaining + 1, .value _ :: rest => openingEntries (remaining + 1) rest
  | remaining + 1, .map shallow _ parts :: rest =>
      (entryFromJson reader (.obj (cutObject shallow parts (parts.count (remaining + 1))))).toList ++
        openingEntries (remaining + 1 - parts.cost (remaining + 1)) rest

/-- The first entry of the window takes the id of its root. -/
def SessionMessageEntry.rooted (entry : SessionMessageEntry p) : SessionMessageEntry p :=
  match entry.continuationOf with
  | some root => { entry with id := root, continuationOf := none }
  | none => entry

def rootFirst : List (SessionMessageEntry p) → List (SessionMessageEntry p)
  | [] => []
  | first :: rest => first.rooted :: rest

def readOpeningTail (messages : List Message) (maxParts : Nat) : List (SessionMessageEntry p) :=
  joinContinuationEntries (rootFirst (openingEntries reader maxParts messages.reverse).reverse)

end Reading

/-! ## What the tail keeps -/

section Conditions

variable {p : Payloads} (reader : Reader p)

/-- What is read of the fields of a message besides its id and its parts. -/
def headerOf (fields : List (String × Json)) : SessionMessageEntry p :=
  { salvageEntry reader (ownFields fields) with id := "", parts := [] }

/-- What a part is read as does not depend on its index. -/
def Placeless (entryId : String) (json : Json) : Prop :=
  ∀ ix other, readPart reader entryId ix json = readPart reader entryId other json

/-- A message that its last parts give the same entry as all: the fields that are read read the
same with nested containers as their ids; the id is that of the whole object, also where its
hash makes it; the parts behind a cut need no index for theirs; and what is no list container
has no part to read. -/
def Message.Sound (count : Nat) : Message → Prop
  | .value json => entryFromJson reader json = none
  | .map shallow deep parts =>
      (headerOf reader shallow : SessionMessageEntry p) = headerOf reader deep ∧
        idOf reader (cutObject shallow parts count) =
          idOf reader (entryObject deep parts.deep) ∧
        match parts with
        | .list items => items.length ≤ count ∨ ∀ item ∈ items.drop (items.length - count),
            Placeless reader (idOf reader (entryObject deep (some (.arr items)))) item
        | .absent => True
        | .value json =>
            readParts reader (idOf reader (entryObject deep (some json))) 0
              (itemsOf (some json)) = []

/-- How many parts the list of a message has. -/
def Message.partCount : Message → Nat
  | .map _ _ parts => parts.items.length
  | .value _ => 0

/-- All messages that the loop visits are sound. -/
def Intact : Nat → List Message → Prop
  | _, [] => True
  | 0, _ => True
  | remaining + 1, .value json :: rest =>
      (Message.value json).Sound reader 0 ∧ Intact (remaining + 1) rest
  | remaining + 1, .map shallow deep parts :: rest =>
      (Message.map shallow deep parts).Sound reader (parts.count (remaining + 1)) ∧
        Intact (remaining + 1 - parts.cost (remaining + 1)) rest

/-- How many messages the loop visits. -/
def reach : Nat → List Message → Nat
  | _, [] => 0
  | 0, _ => 0
  | remaining + 1, .value _ :: rest => reach (remaining + 1) rest + 1
  | remaining + 1, .map _ _ parts :: rest =>
      reach (remaining + 1 - parts.cost (remaining + 1)) rest + 1

/-- The transcript of some entries and the places of their roots. -/
def joinedOf (entries : List (SessionMessageEntry p)) : Joined p :=
  Joined.addAll { out := [], rootIndex := [] } entries

/-- A root that has the last parts of the transcript before, and the role of the entry that
continues it. -/
def Adjoins (before : List (SessionMessageEntry p)) (root : String) (role : MessageRole) : Prop :=
  ∃ earlier group empty, (joinedOf before).out = earlier ++ group :: empty ∧
    (joinedOf before).rootIndex.lookup root = some earlier.length ∧ group.role = role ∧
      ∀ entry ∈ empty, entry.parts = []

def rootsOf (entries : List (SessionMessageEntry p)) : List String :=
  (entries.filter fun entry => entry.continuationOf.isNone).map SessionMessageEntry.id

/-- Entries that continue a root from outside only if they have one with its id among them. -/
def Follows (outside : List String) : List String → List (SessionMessageEntry p) → Prop
  | _, [] => True
  | seen, entry :: rest =>
      match entry.continuationOf with
      | some root => (root ∈ outside → root ∈ seen) ∧ Follows outside seen rest
      | none => Follows outside (entry.id :: seen) rest

/-- The first entry of the window is a root or adjoins its root, and the others continue roots
of the window. -/
def Continues (before : List (SessionMessageEntry p)) : List (SessionMessageEntry p) → Prop
  | [] => True
  | first :: after =>
      (∀ root, first.continuationOf = some root → Adjoins before root first.role) ∧
        Follows (rootsOf before) [first.continuationOf.getD first.id] after

/-- The messages before those that the loop visits, and these. -/
def beforeWindow (messages : List Message) (maxParts : Nat) : List Message :=
  messages.take (messages.length - reach maxParts messages.reverse)

def window (messages : List Message) (maxParts : Nat) : List Message :=
  messages.drop (messages.length - reach maxParts messages.reverse)

/-- The messages that the limit reaches can be read without the others. -/
def OpensWhole (messages : List Message) (maxParts : Nat) : Prop :=
  Intact reader maxParts messages.reverse ∧
    Continues (readEntries reader (beforeWindow messages maxParts))
      (readEntries reader (window messages maxParts))

/-- The listed parts, with the id and the role of their entries. -/
def rows (entries : List (SessionMessageEntry p)) : List (String × MessageRole × MessagePart p) :=
  entries.flatMap fun entry => entry.parts.map fun part => (entry.id, entry.role, part)

/-- The tail is a suffix of the transcript within the limit, and the whole of it if all fits. -/
def IsOpening (messages : List Message) (maxParts : Nat) : Prop :=
  let tail := readOpeningTail reader messages maxParts
  let transcript := joinContinuationEntries (readEntries reader messages)
  rows tail <:+ rows transcript ∧ (rows tail).length ≤ maxParts ∧
    ((messages.map Message.partCount).sum + messages.length ≤ maxParts → tail = transcript)

end Conditions

/-! ## One entry -/

section Entry

variable {p : Payloads} (reader : Reader p)

theorem readParts_of_mapM {items : List Json} {parts : List (MessagePart p)}
    (strict : items.mapM (strictPart reader) = some parts) (entryId : String) (ix : Nat) :
    readParts reader entryId ix items = parts := by
  induction items generalizing ix parts with
  | nil =>
      cases strict
      rfl
  | cons item items ih =>
      rw [List.mapM_cons] at strict
      simp only [Option.bind_eq_bind, Option.bind_eq_some_iff] at strict
      rcases strict with ⟨part, read, rest, others, same⟩
      cases same
      rw [readParts, readPart, read, ih others]
      rfl

theorem bind_of_optional {α : Type} (read : Json → Option α) {field : Option Json}
    {value : Option α} (null : read .null = none) (found : optional read field = some value) :
    field.bind read = value := by
  cases field with
  | none =>
      cases found
      rfl
  | some json =>
      cases json with
      | null =>
          cases found
          exact null
      | _ =>
          rcases Option.map_eq_some_iff.mp found with ⟨value, read, rfl⟩
          exact read

/-- Where the strict shape of an object is read, the salvage reads the same. -/
theorem entryFromJson_obj (members : List (String × Json)) :
    entryFromJson reader (.obj members) = some (salvageEntry reader members) := by
  unfold entryFromJson
  cases strict : strictEntry reader (.obj members) with
  | none => rfl
  | some entry =>
      simp only [strictEntry, structFields, Option.bind_eq_bind, Option.bind_some,
        Option.bind_eq_some_iff] at strict
      rcases strict with ⟨id, named, role, role_read, parts, parts_read, createdAt, created,
        deviceId, device, status, status_read, continuationOf, continued, same⟩
      cases same
      rw [← Option.bind_eq_some_iff] at named role_read created device
      have own : idOf reader members = id := by rw [idOf, named, Option.getD_some]
      have all_parts : readParts reader id 0 (itemsOf (members.lookup "parts")) = parts := by
        unfold strictParts at parts_read
        split at parts_read
        · rename_i none
          cases parts_read
          rw [none]
          rfl
        · rename_i items found
          rw [found]
          exact readParts_of_mapM reader parts_read id 0
        · cases parts_read
      have status_same := bind_of_optional statusOf rfl status_read
      have continued_same := bind_of_optional Json.asString rfl continued
      simp only [Option.some_or, salvageEntry, own, all_parts, role_read, created, device,
        status_same, continued_same, Option.getD_some]

variable {reader}

theorem lookup_entryObject {key : String} (apart : key ≠ "parts") (fields : List (String × Json))
    (parts : Option Json) :
    (entryObject fields parts).lookup key = (ownFields fields).lookup key := by
  have off : (key == "parts") = false := beq_eq_false_iff_ne.mpr apart
  rw [entryObject, List.lookup_append]
  cases parts <;> simp [List.lookup_cons, off]

theorem lookup_parts (fields : List (String × Json)) (parts : Option Json) :
    (entryObject fields parts).lookup "parts" = parts := by
  have none : (ownFields fields).lookup "parts" = none := by
    rw [List.lookup_eq_none_iff]
    intro field listed
    rw [bne_comm]
    exact (List.mem_filter.mp listed).2
  rw [entryObject, List.lookup_append, none]
  cases parts <;> simp

theorem readParts_append (entryId : String) (ix : Nat) (first second : List Json) :
    readParts reader entryId ix (first ++ second) =
      readParts reader entryId ix first ++ readParts reader entryId (ix + first.length) second := by
  induction first generalizing ix with
  | nil => rfl
  | cons item first ih =>
      rw [List.cons_append, readParts, readParts, ih, List.append_assoc, List.length_cons,
        Nat.add_assoc, Nat.add_comm 1]

theorem readParts_of_placeless {entryId : String} {items : List Json}
    (placeless : ∀ item ∈ items, Placeless reader entryId item) (ix other : Nat) :
    readParts reader entryId ix items = readParts reader entryId other items := by
  induction items generalizing ix other with
  | nil => rfl
  | cons item items ih =>
      rcases List.forall_mem_cons.mp placeless with ⟨first, others⟩
      rw [readParts, readParts, first ix other, ih others (ix + 1) (other + 1)]

theorem length_readParts_le (reader : Reader p) (entryId : String) (ix : Nat) (items : List Json) :
    (readParts reader entryId ix items).length ≤ items.length := by
  induction items generalizing ix with
  | nil => exact Nat.le_refl 0
  | cons item items ih =>
      have one : (readPart reader entryId ix item).toList.length ≤ 1 := by
        cases readPart reader entryId ix item <;> simp
      have rest := ih (ix + 1)
      rw [readParts, List.length_append, List.length_cons]
      omega

/-- An entry that lacks parts at its front. -/
structure SessionMessageEntry.Cut (cut whole : SessionMessageEntry p) : Prop where
  id : cut.id = whole.id
  role : cut.role = whole.role
  continuationOf : cut.continuationOf = whole.continuationOf
  parts : cut.parts <:+ whole.parts

theorem SessionMessageEntry.Cut.refl (entry : SessionMessageEntry p) : entry.Cut entry :=
  ⟨rfl, rfl, rfl, List.suffix_rfl⟩

theorem salvageEntry_entryObject (fields : List (String × Json)) (parts : Option Json) :
    salvageEntry reader (entryObject fields parts) =
      { salvageEntry reader (ownFields fields) with
        id := idOf reader (entryObject fields parts)
        parts := readParts reader (idOf reader (entryObject fields parts)) 0 (itemsOf parts) } := by
  simp only [salvageEntry, lookup_parts, lookup_entryObject (by decide : "role" ≠ "parts"),
    lookup_entryObject (by decide : "createdAt" ≠ "parts"),
    lookup_entryObject (by decide : "deviceId" ≠ "parts"),
    lookup_entryObject (by decide : "status" ≠ "parts"),
    lookup_entryObject (by decide : "continuationOf" ≠ "parts")]

/-- A sound map is decoded from its last parts as the whole one, but for the parts before. -/
theorem cut_of_sound {shallow deep : List (String × Json)} {parts : Parts} {count : Nat}
    (sound : (Message.map shallow deep parts).Sound reader count) :
    (salvageEntry reader (cutObject shallow parts count)).Cut
      (salvageEntry reader (entryObject deep parts.deep)) ∧
    (parts.items.length ≤ count → salvageEntry reader (cutObject shallow parts count) =
      salvageEntry reader (entryObject deep parts.deep)) := by
  rcases sound with ⟨header, named, sound⟩
  have same (found : List (MessagePart p)) :
      { salvageEntry reader (ownFields shallow) with
        id := idOf reader (entryObject deep parts.deep), parts := found } =
      { salvageEntry reader (ownFields deep) with
        id := idOf reader (entryObject deep parts.deep), parts := found } :=
    congrArg (fun entry : SessionMessageEntry p =>
      { entry with id := idOf reader (entryObject deep parts.deep), parts := found }) header
  have cut_eq : salvageEntry reader (cutObject shallow parts count) =
      { salvageEntry reader (ownFields deep) with
        id := idOf reader (entryObject deep parts.deep)
        parts := readParts reader (idOf reader (entryObject deep parts.deep)) 0
          (parts.items.drop (parts.items.length - count)) } := by
    rw [← same, ← named, cutObject, salvageEntry_entryObject]
    rfl
  rw [cut_eq, salvageEntry_entryObject]
  cases parts with
  | absent =>
      simp only [Parts.items, List.drop_nil]
      exact ⟨.refl _, fun _ => rfl⟩
  | value json =>
      simp only [Parts.items, Parts.deep, List.drop_nil, sound]
      exact ⟨.refl _, fun _ => rfl⟩
  | list items =>
      simp only [Parts.items, Parts.deep, itemsOf] at sound ⊢
      by_cases whole : items.length ≤ count
      · rw [Nat.sub_eq_zero_of_le whole]
        exact ⟨.refl _, fun _ => rfl⟩
      · refine ⟨⟨rfl, rfl, rfl, ?_⟩, fun all => absurd all whole⟩
        refine ⟨readParts reader (idOf reader (entryObject deep (some (.arr items)))) 0
          (items.take (items.length - count)), ?_⟩
        rw [readParts_of_placeless (sound.resolve_left whole) 0
            (0 + (items.take (items.length - count)).length),
          ← readParts_append, List.take_append_drop]

end Entry

/-! ## The window -/

section Window

variable {p : Payloads} {reader : Reader p} {remaining : Nat} {messages : List Message}

theorem readEntries_cons (message : Message) (rest : List Message) :
    readEntries reader (message :: rest) =
      (entryFromJson reader message.deep).toList ++ readEntries reader rest := by
  rw [readEntries, List.filterMap_cons]
  cases entryFromJson reader message.deep <;> rfl

/-- The loop reads the entries of the messages that it visits; only the last one lacks parts. -/
theorem openingEntries_cut (intact : Intact reader remaining messages) :
    (openingEntries reader remaining messages = [] ∧
        readEntries reader (messages.take (reach remaining messages)) = []) ∨
      ∃ later cut whole, openingEntries reader remaining messages = later ++ [cut] ∧
        readEntries reader (messages.take (reach remaining messages)) = later ++ [whole] ∧
          cut.Cut whole := by
  induction messages generalizing remaining with
  | nil => exact .inl ⟨by cases remaining <;> rfl, by cases remaining <;> rfl⟩
  | cons message rest ih =>
      cases remaining with
      | zero => exact .inl ⟨rfl, rfl⟩
      | succ remaining =>
          cases message with
          | value json =>
              have skipped : entryFromJson reader (Message.value json).deep = none := intact.1
              rw [reach, List.take_succ_cons, readEntries_cons, skipped]
              exact ih intact.2
          | map shallow deep parts =>
              rcases cut_of_sound intact.1 with ⟨cut, whole⟩
              have decoded : entryFromJson reader (Message.map shallow deep parts).deep =
                  some (salvageEntry reader (entryObject deep parts.deep)) :=
                entryFromJson_obj reader _
              rw [openingEntries, reach, List.take_succ_cons, readEntries_cons, decoded]
              rw [entryFromJson_obj]
              simp only [Option.toList_some, List.singleton_append]
              by_cases truncated : parts.items.length ≤ parts.count (remaining + 1)
              · rw [whole truncated]
                rcases ih intact.2 with ⟨none, nothing⟩ | ⟨later, last, entry, read, all, less⟩
                · exact .inr ⟨[], _, _, by rw [none, List.nil_append],
                    by rw [nothing, List.nil_append], .refl _⟩
                · exact .inr ⟨_ :: later, last, entry, by rw [read, List.cons_append],
                    by rw [all, List.cons_append], less⟩
              · -- the limit is used up, and the loop ends
                have used : remaining + 1 - parts.cost (remaining + 1) = 0 := by
                  cases parts with
                  | list items =>
                      simp only [Parts.items, Parts.count, Parts.cost] at truncated ⊢
                      omega
                  | _ => exact absurd (Nat.zero_le _) truncated
                rw [used]
                refine .inr ⟨[], _, _, ?_, ?_, cut⟩
                · cases rest <;> rfl
                · cases rest <;> rfl

theorem rest_of_enough {rest : List Message} {shallow deep : List (String × Json)} {parts : Parts}
    (enough : (Message.map shallow deep parts).partCount + (rest.map Message.partCount).sum +
      (rest.length + 1) ≤ remaining + 1) :
    (rest.map Message.partCount).sum + rest.length ≤
      remaining + 1 - parts.cost (remaining + 1) := by
  cases parts with
  | list items =>
      simp only [Message.partCount, Parts.items, Parts.cost] at enough ⊢
      omega
  | _ =>
      simp only [Parts.cost]
      omega

/-- A limit that all parts and messages fit into cuts nothing and visits all messages. -/
theorem openingEntries_of_enough (intact : Intact reader remaining messages)
    (enough : (messages.map Message.partCount).sum + messages.length ≤ remaining) :
    openingEntries reader remaining messages = readEntries reader messages ∧
      reach remaining messages = messages.length := by
  induction messages generalizing remaining with
  | nil => cases remaining <;> exact ⟨rfl, rfl⟩
  | cons message rest ih =>
      rw [List.map_cons, List.sum_cons, List.length_cons] at enough
      cases remaining with
      | zero => omega
      | succ remaining =>
          cases message with
          | value json =>
              have skipped : entryFromJson reader (Message.value json).deep = none := intact.1
              rcases ih intact.2 (by omega) with ⟨read, visits⟩
              rw [readEntries_cons, skipped, reach, visits]
              exact ⟨read, rfl⟩
          | map shallow deep parts =>
              have fits : parts.items.length ≤ parts.count (remaining + 1) := by
                cases parts with
                | list items =>
                    simp only [Message.partCount, Parts.items, Parts.count] at enough ⊢
                    omega
                | _ => exact Nat.zero_le _
              rcases ih intact.2 (rest_of_enough enough) with ⟨read, visits⟩
              have decoded : entryFromJson reader (Message.map shallow deep parts).deep =
                  some (salvageEntry reader (entryObject deep parts.deep)) :=
                entryFromJson_obj reader _
              rw [openingEntries, readEntries_cons, decoded, entryFromJson_obj,
                (cut_of_sound intact.1).2 fits, read, reach, visits]
              exact ⟨rfl, rfl⟩

/-- How many parts some entries have. -/
def countParts (entries : List (SessionMessageEntry p)) : Nat :=
  (entries.map fun entry => entry.parts.length).sum

/-- The loop reads no more parts than it may. -/
theorem countParts_openingEntries (reader : Reader p) (remaining : Nat)
    (messages : List Message) :
    countParts (openingEntries reader remaining messages) ≤ remaining := by
  induction messages generalizing remaining with
  | nil => cases remaining <;> exact Nat.zero_le _
  | cons message rest ih =>
      cases remaining with
      | zero => exact Nat.le_refl 0
      | succ remaining =>
          cases message with
          | value json => exact ih (remaining + 1)
          | map shallow deep parts =>
              have later := ih (remaining + 1 - parts.cost (remaining + 1))
              rw [openingEntries, entryFromJson_obj]
              have here := length_readParts_le reader (idOf reader (cutObject shallow parts
                (parts.count (remaining + 1)))) 0 (itemsOf ((cutObject shallow parts
                  (parts.count (remaining + 1))).lookup "parts"))
              have spent : parts.items.length - (parts.items.length -
                  parts.count (remaining + 1)) ≤ parts.cost (remaining + 1) ∧
                  parts.cost (remaining + 1) ≤ remaining + 1 := by
                cases parts <;> simp only [Parts.count, Parts.cost] <;>
                  omega
              simp only [countParts, Option.toList_some, List.singleton_append, List.map_cons,
                List.sum_cons, salvageEntry] at later ⊢
              rw [cutObject, lookup_parts] at here ⊢
              simp only [itemsOf, List.length_drop] at here ⊢
              omega

end Window

/-! ## Joining -/

section Joining

variable {p : Payloads} {joined full tail : Joined p} {entry : SessionMessageEntry p}
  {before entries : List (SessionMessageEntry p)}

/-- Entries without continuations stay as they are. -/
theorem out_addAll_of_roots (joined : Joined p)
    (all_roots : ∀ entry ∈ entries, entry.continuationOf = none) :
    (joined.addAll entries).out = joined.out ++ entries := by
  induction entries generalizing joined with
  | nil => exact (List.append_nil _).symm
  | cons entry entries ih =>
      rcases List.forall_mem_cons.mp all_roots with ⟨first, others⟩
      have added : (joined.add entry).out = joined.out ++ [entry] := by
        rw [Joined.add, first]
      have rest := ih (joined.add entry) others
      rw [added, List.append_assoc] at rest
      exact rest

theorem joinContinuationEntries_eq (entries : List (SessionMessageEntry p)) :
    joinContinuationEntries entries = (joinedOf entries).out := by
  unfold joinContinuationEntries
  split
  · rfl
  · rename_i none
    refine (out_addAll_of_roots { out := [], rootIndex := [] } fun entry listed => ?_).symm
    by_contra continued
    exact none (List.any_eq_true.mpr ⟨entry, listed, Option.isSome_iff_ne_none.mpr continued⟩)

theorem joinedOf_concat (before : List (SessionMessageEntry p))
    (entry : SessionMessageEntry p) : joinedOf (before ++ [entry]) = (joinedOf before).add entry := by
  rw [joinedOf, Joined.addAll, List.foldl_append]
  rfl

/-- A root that is known has its entry at its place. -/
theorem root_of_lookup {root : String} {index : Nat}
    (found : (joinedOf before).rootIndex.lookup root = some index) :
    root ∈ rootsOf before ∧ ∃ group, (joinedOf before).out[index]? = some group ∧ group.id = root := by
  induction before using List.reverseRecOn with
  | nil => cases found
  | append_singleton before entry ih =>
      rw [joinedOf_concat] at found ⊢
      have more : ∀ {root}, root ∈ rootsOf before → root ∈ rootsOf (before ++ [entry]) := by
        intro root listed
        rw [rootsOf, List.filter_append, List.map_append]
        exact List.mem_append_left _ listed
      have pushed : (root ∈ rootsOf before ∧ ∃ group, (joinedOf before).out[index]? = some group ∧
          group.id = root) → root ∈ rootsOf (before ++ [entry]) ∧ ∃ group,
            ((joinedOf before).out ++ [entry])[index]? = some group ∧ group.id = root := by
        rintro ⟨listed, group, stored, id⟩
        refine ⟨more listed, group, ?_, id⟩
        rw [List.getElem?_append_left (List.getElem?_eq_some_iff.mp stored).1, stored]
      cases continued : entry.continuationOf with
      | none =>
          simp only [Joined.add, continued, List.lookup_cons] at found ⊢
          split at found
          · rename_i same
            cases found
            rw [beq_iff_eq.mp same]
            refine ⟨?_, entry, List.getElem?_concat_length, rfl⟩
            simp [rootsOf, continued]
          · exact pushed (ih found)
      | some parent =>
          simp only [Joined.add, continued] at found ⊢
          split at found
          · rcases ih found with ⟨listed, group, stored, id⟩
            refine ⟨more listed, ?_⟩
            simp only [List.getElem?_modify, stored]
            split
            · exact ⟨_, rfl, id⟩
            · exact ⟨_, rfl, id⟩
          · exact pushed (ih found)

/-- Joining adds no parts of its own. -/
theorem countParts_modify_le (out : List (SessionMessageEntry p)) (index : Nat)
    (parts : List (MessagePart p)) :
    countParts (out.modify index (·.extend parts)) ≤ countParts out + parts.length := by
  induction out generalizing index with
  | nil => simp [countParts]
  | cons entry out ih =>
      cases index with
      | zero =>
          simp only [countParts, List.modify_zero_cons, List.map_cons, List.sum_cons,
            SessionMessageEntry.extend, List.length_append]
          omega
      | succ index =>
          have rest := ih index
          simp only [countParts, List.modify_succ_cons, List.map_cons, List.sum_cons] at rest ⊢
          omega

theorem countParts_addAll_le (joined : Joined p) (entries : List (SessionMessageEntry p)) :
    countParts (joined.addAll entries).out ≤ countParts joined.out + countParts entries := by
  induction entries generalizing joined with
  | nil => exact Nat.le_add_right _ _
  | cons entry entries ih =>
      have one : countParts (joined.add entry).out ≤
          countParts joined.out + entry.parts.length := by
        have pushed : countParts (joined.out ++ [entry]) =
            countParts joined.out + entry.parts.length := by
          simp [countParts]
        unfold Joined.add
        split
        · split
          · exact countParts_modify_le _ _ _
          · exact Nat.le_of_eq pushed
        · exact Nat.le_of_eq pushed
      have rest := ih (joined.add entry)
      have whole : countParts (entry :: entries) = entry.parts.length + countParts entries := by
        simp [countParts]
      exact rest.trans (by omega)

theorem length_rows (entries : List (SessionMessageEntry p)) :
    (rows entries).length = countParts entries := by
  simp [rows, countParts]

/-- The tail has the last groups of the full transcript, the first of them cut, and finds its
roots at the same places. -/
def Matches (outside seen : List String) (full tail : Joined p) : Prop :=
  ∃ earlier whole empty cut later, full.out = earlier ++ whole :: (empty ++ later) ∧
    tail.out = cut :: later ∧ (∀ entry ∈ empty, entry.parts = []) ∧
      (cut.id = whole.id ∧ cut.role = whole.role ∧ cut.parts <:+ whole.parts) ∧
        (∀ root ∈ seen, ∃ index ≤ later.length, tail.rootIndex.lookup root = some index ∧
          full.rootIndex.lookup root = some (earlier.length +
            if index = 0 then 0 else empty.length + index)) ∧
          ∀ root ∉ seen, tail.rootIndex.lookup root = none ∧
            (root ∉ outside → full.rootIndex.lookup root = none)

variable {outside seen : List String}

theorem rows_cons (entry : SessionMessageEntry p) (rest : List (SessionMessageEntry p)) :
    rows (entry :: rest) = (entry.parts.map fun part => (entry.id, entry.role, part)) ++ rows rest :=
  List.flatMap_cons

theorem rows_append (first second : List (SessionMessageEntry p)) :
    rows (first ++ second) = rows first ++ rows second :=
  List.flatMap_append

theorem rows_of_empty {empty : List (SessionMessageEntry p)}
    (none : ∀ entry ∈ empty, entry.parts = []) : rows empty = [] := by
  rw [rows, List.flatMap_eq_nil_iff]
  intro entry listed
  rw [none entry listed, List.map_nil]

theorem Matches.rows_suffix (matched : Matches outside seen full tail) :
    rows tail.out <:+ rows full.out := by
  rcases matched with ⟨earlier, whole, empty, cut, later, full_out, tail_out, none,
    ⟨id, role, front, parts⟩, -⟩
  refine ⟨rows earlier ++ front.map fun part => (whole.id, whole.role, part), ?_⟩
  rw [full_out, tail_out, rows_append, rows_cons, rows_cons, rows_append, rows_of_empty none,
    List.nil_append, id, role, ← parts, List.map_append]
  simp only [List.append_assoc]

theorem modify_append {α : Type} (first second : List α) (index : Nat) (change : α → α) :
    (first ++ second).modify (first.length + index) change =
      first ++ second.modify index change := by
  induction first with
  | nil => rw [List.nil_append, List.nil_append, List.length_nil, Nat.zero_add]
  | cons row first ih =>
      rw [List.cons_append, List.length_cons, Nat.add_right_comm, List.modify_succ_cons, ih]
      rfl

/-- An entry that follows goes to the same group on both sides. -/
theorem Matches.add_root (matched : Matches outside seen full tail)
    (root : entry.continuationOf = none) :
    Matches outside (entry.id :: seen) (full.add entry) (tail.add entry) := by
  rcases matched with ⟨earlier, whole, empty, cut, later, full_out, tail_out, none, front, known,
    unknown⟩
  refine ⟨earlier, whole, empty, cut, later ++ [entry], ?_, ?_, none, front, ?_, ?_⟩
  · simp only [Joined.add, root, full_out, List.append_assoc, List.cons_append]
  · simp only [Joined.add, root, tail_out, List.cons_append]
  · intro id listed
    simp only [Joined.add, root, List.lookup_cons, full_out, tail_out, List.length_append,
      List.length_cons]
    by_cases same : id = entry.id
    · refine ⟨later.length + 1, by omega, ?_, ?_⟩
      · simp [same]
      · simp [same]
        omega
    · rcases known id ((List.mem_cons.mp listed).resolve_left same) with
        ⟨index, inside, tail_found, full_found⟩
      have off : (id == entry.id) = false := beq_eq_false_iff_ne.mpr same
      exact ⟨index, by omega, by rw [off]; exact tail_found, by rw [off]; exact full_found⟩
  · intro id new
    have apart : (id == entry.id) = false :=
      beq_eq_false_iff_ne.mpr fun same => new (same ▸ List.mem_cons_self)
    simp only [Joined.add, root, List.lookup_cons, apart]
    exact unknown id fun listed => new (List.mem_cons_of_mem _ listed)

theorem Matches.add_continuation (matched : Matches outside seen full tail) {root : String}
    (continued : entry.continuationOf = some root) (inside : root ∈ outside → root ∈ seen) :
    Matches outside seen (full.add entry) (tail.add entry) := by
  rcases matched with ⟨earlier, whole, empty, cut, later, full_out, tail_out, none, front, known,
    unknown⟩
  by_cases listed : root ∈ seen
  · rcases known root listed with ⟨index, within, tail_found, full_found⟩
    simp only [Joined.add, continued, tail_found, full_found, full_out, tail_out]
    cases index with
    | zero =>
        rcases front with ⟨id, role, suffix⟩
        refine ⟨earlier, whole.extend entry.parts, empty, cut.extend entry.parts, later, ?_, rfl,
          none, ⟨id, role, ?_⟩, known, unknown⟩
        · rw [if_pos rfl, modify_append, List.modify_zero_cons]
        · rcases suffix with ⟨parts, same⟩
          refine ⟨parts, ?_⟩
          rw [SessionMessageEntry.extend, SessionMessageEntry.extend, ← same, List.append_assoc]
    | succ index =>
        refine ⟨earlier, whole, empty, cut, later.modify index (·.extend entry.parts), ?_, ?_,
          none, front, ?_, unknown⟩
        · rw [if_neg (Nat.succ_ne_zero _), modify_append, ← Nat.add_assoc, List.modify_succ_cons,
            modify_append]
        · rw [List.modify_succ_cons]
        · simp only [List.length_modify]
          exact known
  · have tail_none := (unknown root listed).1
    have full_none := (unknown root listed).2 fun before => listed (inside before)
    simp only [Joined.add, continued, tail_none, full_none, full_out, tail_out]
    refine ⟨earlier, whole, empty, cut, later ++ [entry], ?_, ?_, none, front, ?_, unknown⟩
    · simp only [List.append_assoc, List.cons_append]
    · simp only [List.cons_append]
    · intro id found
      rcases known id found with ⟨index, within, places⟩
      exact ⟨index, by simp; omega, places⟩

theorem Matches.addAll (matched : Matches outside seen full tail)
    (follows : Follows outside seen entries) :
    ∃ seen, Matches outside seen (full.addAll entries) (tail.addAll entries) := by
  induction entries generalizing seen full tail with
  | nil => exact ⟨seen, matched⟩
  | cons entry entries ih =>
      cases continued : entry.continuationOf with
      | none =>
          simp only [Follows, continued] at follows
          exact ih (matched.add_root continued) follows
      | some root =>
          simp only [Follows, continued] at follows
          exact ih (matched.add_continuation continued follows.1) follows.2

/-- The window begins with the group of its first entry. -/
theorem matches_first {cut whole : SessionMessageEntry p} (less : cut.Cut whole)
    (adjoins : ∀ root, whole.continuationOf = some root → Adjoins before root whole.role) :
    Matches (rootsOf before) [whole.continuationOf.getD whole.id] ((joinedOf before).add whole)
      ({ out := [], rootIndex := [] : Joined p }.add cut.rooted) := by
  have unlisted {root : String} (outside : root ∉ rootsOf before) :
      (joinedOf before).rootIndex.lookup root = none := by
    cases found : (joinedOf before).rootIndex.lookup root with
    | none => rfl
    | some index => exact absurd (root_of_lookup found).1 outside
  cases continued : whole.continuationOf with
  | none =>
      have rooted : cut.rooted = cut := by
        rw [SessionMessageEntry.rooted, less.continuationOf, continued]
      rw [rooted]
      simp only [Joined.add, less.continuationOf, continued]
      refine ⟨(joinedOf before).out, whole, [], cut, [], rfl, rfl, by simp,
        ⟨less.id, less.role, less.parts⟩, ?_, ?_⟩
      · intro root listed
        rw [List.mem_singleton.mp listed]
        exact ⟨0, Nat.le_refl 0, by simp [less.id], by simp⟩
      · intro root other
        have off : (root == whole.id) = false :=
          beq_eq_false_iff_ne.mpr fun same => other (List.mem_singleton.mpr same)
        simp only [less.id, List.lookup_cons, off, List.lookup_nil, true_and]
        exact unlisted
  | some root =>
      rcases adjoins root continued with ⟨earlier, group, empty, out, found, role, none⟩
      have id : group.id = root := by
        rcases (root_of_lookup found).2 with ⟨other, stored, id⟩
        rw [out, List.getElem?_append_right (Nat.le_refl _), Nat.sub_self] at stored
        cases stored
        exact id
      have rooted : cut.rooted = { cut with id := root, continuationOf := Option.none } := by
        rw [SessionMessageEntry.rooted, less.continuationOf, continued]
      rw [rooted]
      simp only [Joined.add, continued, found, out]
      refine ⟨earlier, group.extend whole.parts, empty,
        { cut with id := root, continuationOf := Option.none }, [], ?_, rfl, none,
        ⟨id.symm, less.role.trans role.symm, ?_⟩, ?_, ?_⟩
      · rw [List.append_nil]
        exact modify_append earlier (group :: empty) 0 _
      · exact less.parts.trans (List.suffix_append _ _)
      · intro other listed
        rw [List.mem_singleton.mp listed]
        exact ⟨0, Nat.le_refl 0, by simp, by simpa using found⟩
      · intro other listed
        have off : (other == root) = false :=
          beq_eq_false_iff_ne.mpr fun same => listed (List.mem_singleton.mpr same)
        simp only [List.lookup_cons, off, List.lookup_nil, true_and]
        exact unlisted

end Joining

/-! ## The opening -/

section Opening

variable {p : Payloads} {reader : Reader p} {messages : List Message} {maxParts : Nat}

theorem readEntries_append (first second : List Message) :
    readEntries reader (first ++ second) = readEntries reader first ++ readEntries reader second :=
  List.filterMap_append

theorem readEntries_visited (messages : List Message) (maxParts : Nat) :
    readEntries reader (messages.reverse.take (reach maxParts messages.reverse)) =
      (readEntries reader (window messages maxParts)).reverse := by
  rw [List.take_reverse, readEntries, List.filterMap_reverse]
  rfl

theorem countParts_rootFirst (entries : List (SessionMessageEntry p)) :
    countParts (rootFirst entries.reverse) = countParts entries := by
  have same : countParts (rootFirst entries.reverse) = countParts entries.reverse := by
    cases entries.reverse with
    | nil => rfl
    | cons first rest =>
        have parts : first.rooted.parts = first.parts := by
          unfold SessionMessageEntry.rooted
          split <;> rfl
        simp only [rootFirst, countParts, List.map_cons, parts]
  rw [same, countParts, List.map_reverse, List.sum_reverse]
  rfl

/-- The tail lists no more parts than it may. -/
theorem length_readOpeningTail_le (messages : List Message) (maxParts : Nat) :
    (rows (readOpeningTail reader messages maxParts)).length ≤ maxParts := by
  rw [readOpeningTail, joinContinuationEntries_eq, length_rows]
  refine (countParts_addAll_le _ _).trans ?_
  rw [countParts_rootFirst]
  have limit := countParts_openingEntries reader maxParts messages.reverse
  simpa [countParts] using limit

theorem rows_readOpeningTail (intact : Intact reader maxParts messages.reverse)
    (continues : Continues (readEntries reader (beforeWindow messages maxParts))
      (readEntries reader (window messages maxParts))) :
    rows (readOpeningTail reader messages maxParts) <:+
      rows (joinContinuationEntries (readEntries reader messages)) := by
  rcases openingEntries_cut intact with ⟨none, -⟩ | ⟨later, cut, whole, read, visited, less⟩
  · rw [readOpeningTail, none]
    exact List.nil_suffix
  · rw [readEntries_visited, List.reverse_eq_iff, List.reverse_append, List.reverse_singleton,
      List.singleton_append] at visited
    have parts : readEntries reader messages =
        readEntries reader (beforeWindow messages maxParts) ++ whole :: later.reverse := by
      rw [← visited, ← readEntries_append, beforeWindow, window, List.take_append_drop]
    rw [visited] at continues
    rcases (matches_first less continues.1).addAll continues.2 with ⟨seen, matched⟩
    have full : joinedOf (readEntries reader messages) =
        ((joinedOf (readEntries reader (beforeWindow messages maxParts))).add whole).addAll
          later.reverse := by
      rw [parts, joinedOf, Joined.addAll, List.foldl_append]
      rfl
    have suffix := matched.rows_suffix
    rw [← full, ← joinContinuationEntries_eq] at suffix
    rw [readOpeningTail, read, List.reverse_append, joinContinuationEntries_eq]
    exact suffix

theorem readOpeningTail_of_enough (opens : OpensWhole reader messages maxParts)
    (enough : (messages.map Message.partCount).sum + messages.length ≤ maxParts) :
    readOpeningTail reader messages maxParts =
      joinContinuationEntries (readEntries reader messages) := by
  have reversed : (messages.reverse.map Message.partCount).sum + messages.reverse.length ≤
      maxParts := by
    rw [List.map_reverse, List.sum_reverse, List.length_reverse]
    exact enough
  rcases openingEntries_of_enough opens.1 reversed with ⟨read, visits⟩
  have all : beforeWindow messages maxParts = [] ∧ window messages maxParts = messages := by
    rw [beforeWindow, window, visits, List.length_reverse, Nat.sub_self]
    exact ⟨rfl, rfl⟩
  have continues := opens.2
  rw [all.1, all.2] at continues
  rw [readEntries, List.filterMap_reverse] at read
  rw [readOpeningTail, read, List.reverse_reverse]
  change joinContinuationEntries (rootFirst (readEntries reader messages)) = _
  cases entries : readEntries reader messages with
  | nil => rfl
  | cons first rest =>
      rw [entries] at continues
      have root : first.rooted = first := by
        unfold SessionMessageEntry.rooted
        split
        · rename_i root continued
          rcases continues.1 root continued with ⟨earlier, group, empty, out, -⟩
          exact absurd out (by simp [readEntries, joinedOf, Joined.addAll])
        · rfl
      rw [rootFirst, root]

/-- Where the messages that the limit reaches can be read without the others, the opening tail
is a suffix of the transcript. -/
theorem opening_tail_is_suffix (opens : OpensWhole reader messages maxParts) :
    IsOpening reader messages maxParts :=
  ⟨rows_readOpeningTail opens.1 opens.2, length_readOpeningTail_le messages maxParts,
    readOpeningTail_of_enough opens⟩

/-- A reader whose payloads say nothing. -/
def unitReader : Reader units where
  value _ := (0 : Nat)
  stableHash _ := "0"

/-- An entry of the assistant with text parts under their ids, and a container nested in a field
that nobody reads. -/
def textMessage (id : String) (root : Option String) (parts : List String) : Message :=
  let fields := [("id", Json.str id), ("role", .str "assistant"), ("createdAt", .num "0"),
    ("deviceId", .str "host")] ++ root.toList.map fun root => ("continuationOf", .str root)
  .map (fields ++ [("tokens", .str "cid:1@1:Map")]) (fields ++ [("tokens", .obj [])]) (.list (parts.map fun part =>
    .obj [("id", .str part), ("kind", .str "text"), ("text", .str "body")]))

/-- A continuation of which one part is read, behind its root. -/
theorem opening_tail_of_continuation :
    IsOpening unitReader [textMessage "a" none ["p", "q"], textMessage "b" (some "a") ["r", "s"]]
      1 := by
  apply opening_tail_is_suffix
  refine ⟨⟨⟨rfl, rfl, .inr ?_⟩, trivial⟩, ?_, trivial⟩
  · intro item listed ix other
    cases List.mem_singleton.mp listed
    rfl
  · rintro root same
    cases same
    exact ⟨[], _, [], rfl, rfl, rfl, by simp⟩

/-- A part without id and kind behind the cut gets another id than in the transcript. -/
theorem recovered_part_is_renamed :
    ¬IsOpening unitReader
      [.map [("id", .str "a"), ("role", .str "assistant")] [("id", .str "a"),
        ("role", .str "assistant")] (.list [.obj [("text", .str "first")],
          .obj [("text", .str "second")]])] 1 := by
  rintro ⟨suffix, -⟩
  exact absurd suffix (by decide)

end Opening

end Zeron.Transcript.Stream
