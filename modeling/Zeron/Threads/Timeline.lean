import Zeron.Data.Woven
import Zeron.Wire.Utf16

/-!
# Reading a thread by pages

Rows are read after a position, and the text of a row after an offset in UTF-16 units.  A slice
that cuts a surrogate pair travels behind a marker, and the marker leaves the printed answer for
the escaped units.

The projections that a page only copies from are parameters, and so is the text of an item.
-/

namespace Zeron.Threads.Timeline

open Data Wire

/-- `value[name]`. -/
def index (name : String) (value : Json) : Json :=
  (value.member name).getD Json.null

inductive Visibility where
  | local
  | inherited
  | synthetic
  deriving DecidableEq

def Visibility.text : Visibility → String
  | .local => "local"
  | .inherited => "inherited"
  | .synthetic => "synthetic"

structure Row where
  position : Nat
  source : String
  id : String
  visibility : Visibility
  item : Json
  deriving DecidableEq

/-- The end of `visible`. -/
def numbered (rows : List Row) : List Row :=
  rows.mapIdx fun position row => { row with position }

inductive View where
  | messages
  | activity
  deriving DecidableEq

/-- `T3ThreadReadInput`, once the thread is found. -/
structure ReadInput where
  itemId : Option String
  textOffset : Option Int
  view : Option View
  afterPosition : Option Int
  limit : Option Int
  runLimit : Option Int
  maxCharsPerItem : Option Int
  deriving DecidableEq

/-- `as usize`. -/
def asUsize (n : Int) : Nat :=
  if 0 ≤ n then n.toNat else (n + 2 ^ 64).toNat

/-! ## Slices of a text -/

/-- `wire::slice`. -/
def slice (text : String) (offset count : Nat) : String × List Nat × Bool :=
  let units := utf16 text
  let stop := min (offset + count) units.length
  let part := (units.take stop).drop (min offset units.length)
  (String.ofList (decodeUtf16Lossy part), part, decide (offset + count < units.length))

/-- The key of a marker. -/
def unitsKey : String :=
  "\x00noches.thread.utf16"

/-- `wire::text_value`. -/
def textValue (units : List Nat) : Json :=
  match decodeUtf16 units with
  | some chars => .str (String.ofList chars)
  | none => .obj [(unitsKey, .arr (units.map fun unit => .num (toString unit)))]

/-! ## Pages -/

structure ReadItem where
  row : Row
  messageId : Json
  createdBy : Json
  creationSource : Json
  text : Json
  textTruncated : Bool
  nextTextOffset : Option Nat

def optionalNum : Option Nat → Json
  | some n => .num (toString n)
  | none => .null

def ReadItem.toJson (item : ReadItem) : Json :=
  .obj [("position", .num (toString item.row.position)),
    ("visibility", .str item.row.visibility.text), ("sourceThreadId", .str item.row.source),
    ("itemId", .str item.row.id), ("runId", index "runId" item.row.item),
    ("messageId", item.messageId), ("createdBy", item.createdBy),
    ("creationSource", item.creationSource), ("type", index "type" item.row.item),
    ("status", index "status" item.row.item), ("title", index "title" item.row.item),
    ("text", item.text), ("textTruncated", .bool item.textTruncated),
    ("nextTextOffset", optionalNum item.nextTextOffset),
    ("updatedAt", index "updatedAt" item.row.item)]

/-- `ThreadReadPage`. -/
structure ReadPage where
  thread : Json
  recentRuns : List Json
  items : List ReadItem
  nextPosition : Option Nat
  hasMore : Bool
  textUnits : List (Nat × List Nat)

/-- `serde_json::to_value` of the result, with the items given. -/
def ReadPage.toJson (page : ReadPage) (items : List ReadItem) : Json :=
  .obj [("thread", page.thread), ("recentRuns", .arr page.recentRuns),
    ("items", .arr (items.map ReadItem.toJson)), ("nextPosition", optionalNum page.nextPosition),
    ("hasMore", .bool page.hasMore)]

/-- The items with other texts, where there are units. -/
def ReadPage.withTexts (page : ReadPage) (text : List Nat → Json) : List ReadItem :=
  page.items.mapIdx fun position item =>
    match page.textUnits.lookup position with
    | some units => { item with text := text units }
    | none => item

/-- `wire_value`. -/
def ReadPage.wireValue (page : ReadPage) : Json :=
  page.toJson (page.withTexts textValue)

/-- The row is asked for. -/
def matchesInput (input : ReadInput) (row : Row) : Bool :=
  match input.itemId with
  | some id => decide (row.id = id)
  | none =>
      decide (input.afterPosition.getD (-1) < row.position) &&
        (decide (input.view = some .activity) ||
          decide (index "type" row.item ∈
            [.str "user_message", .str "assistant_message", .str "proposed_plan"]))

section

/- `text` of an item, the message records of a thread, the details of the thread and its runs,
the newest first. -/
variable (text : Json → Option String) (messages : String → List Json) (thread : Json)
  (runs : List Json)

/-- The item of a row, and the units of its text. -/
def readItem (offset max : Nat) (row : Row) : ReadItem × Option (List Nat) :=
  let sliced := (text row.item).map fun text => slice text offset max
  let truncated := (sliced.map fun sliced => sliced.2.2).getD false
  let messageId :=
    if index "type" row.item ∈ [.str "user_message", .str "assistant_message"] then
      index "messageId" row.item
    else .null
  let message := (messages row.source).find? fun message =>
    decide (index "id" message = messageId)
  ({ row
     messageId
     createdBy := (message.map (index "createdBy")).getD .null
     creationSource := (message.map (index "creationSource")).getD .null
     text := (sliced.map fun sliced => .str sliced.1).getD .null
     textTruncated := truncated
     nextTextOffset := if truncated then some (offset + max) else none },
    sliced.map fun sliced => sliced.2.1)

/-- `timeline::page`, over the rows that are visible. -/
def page (rows : List Row) (input : ReadInput) : ReadPage × List Row :=
  let found := rows.filter (matchesInput input)
  let selected := found.take (asUsize (input.limit.getD 50))
  let max := asUsize (input.maxCharsPerItem.getD 20000)
  let offset := if input.itemId.isSome then asUsize (input.textOffset.getD 0) else 0
  let items := selected.map (readItem text messages offset max)
  ({ thread
     recentRuns := runs.take (asUsize (input.runLimit.getD 10))
     items := items.map Prod.fst
     nextPosition := selected.getLast?.map Row.position
     hasMore := decide (selected.length < found.length)
     textUnits := (items.zipIdx.filterMap fun entry =>
       entry.1.2.map fun units => (entry.2, units)) },
    selected)

/-- The bounds of `ui_thread_timeline`, and of the input schema of the tool. -/
def ReadInput.valid (input : ReadInput) : Bool :=
  (input.limit.all fun n => decide (1 ≤ n ∧ n ≤ 100)) &&
    (input.runLimit.all fun n => decide (1 ≤ n ∧ n ≤ 50)) &&
    (input.maxCharsPerItem.all fun n => decide (1 ≤ n ∧ n ≤ 50000)) &&
    (input.afterPosition.all fun n => decide (0 ≤ n)) &&
    (input.textOffset.all fun n => decide (0 ≤ n))

/-- A page that is asked for within bounds. -/
def read (rows : List Row) (input : ReadInput) : Except String (ReadPage × List Row) :=
  if input.valid then .ok (page text messages thread runs rows input)
  else .error "Invalid thread pagination."

end

/-! ## Markers leave the answer -/

/-- `as_u64`, `as u16`. -/
def asUnit : Json → Option Nat
  | .num literal =>
      let digits := literal.toList
      if digits ≠ [] ∧ digits.all Char.isDigit ∧ Nat.ofDigitChars 10 digits 0 < 2 ^ 64 then
        some (Nat.ofDigitChars 10 digits 0 % 2 ^ 16)
      else none
  | _ => none

/-- The array of a marker. -/
def marker (value : Json) : Option (List Json) :=
  match index unitsKey value with
  | .arr units => some units
  | _ => none

/-- What is replaced in the printed answer, and by what. -/
abbrev Replacements := List (List Char × List Char)

/-- Goes through a list with what is collected on the way. -/
def visit {α σ : Type} (step : σ → α → Option (α × σ)) : σ → List α → Option (List α × σ)
  | state, [] => some ([], state)
  | state, first :: rest => do
      let (first, state) ← step state first
      let (rest, state) ← visit step state rest
      return (first :: rest, state)

section

variable (uuid : Nat → String)

def token (position : Nat) : String :=
  "\x00utf16:" ++ uuid position ++ ":" ++ toString position

/-- A slot with a marker gets a token. -/
def markSlot (replacements : Replacements) (slot : Json) : Option (Json × Replacements) :=
  match marker slot with
  | none => some (slot, replacements)
  | some units => do
      let units ← units.mapM asUnit
      let token := Json.str (token uuid replacements.length)
      return (token, replacements ++ [(token.stringify, quotedUnits units)])

/-- The slot of an item. -/
def markField (field : String) (replacements : Replacements) (member : String × Json) :
    Option ((String × Json) × Replacements) :=
  if member.1 = field then do
    let (slot, replacements) ← markSlot uuid replacements member.2
    return ((member.1, slot), replacements)
  else some (member, replacements)

def markItem (field : String) (replacements : Replacements) :
    Json → Option (Json × Replacements)
  | .obj members => do
      let (members, replacements) ← visit (markField uuid field) replacements members
      return (.obj members, replacements)
  | item => some (item, replacements)

/-- The slots of a collection. -/
def markMember (collection field : String) (replacements : Replacements)
    (member : String × Json) : Option ((String × Json) × Replacements) :=
  if member.1 = collection then
    match member.2 with
    | .arr items => do
        let (items, replacements) ← visit (markItem uuid field) replacements items
        return ((member.1, .arr items), replacements)
    | _ => some (member, replacements)
  else some (member, replacements)

def markCollection (collection field : String) (replacements : Replacements) :
    Json → Option (Json × Replacements)
  | .obj members => do
      let (members, replacements) ← visit (markMember uuid collection field) replacements members
      return (.obj members, replacements)
  | value => some (value, replacements)

/-- The slots that `read_json` replaces. -/
def markSlots (value : Json) : Option (Json × Replacements) := do
  let (safe, replacements) ← markCollection uuid "items" "text" [] value
  markCollection uuid "matches" "snippet" replacements safe

/-- `wire::read_json`; a marker with anything but units in it ends the call. -/
def readJson (value : Json) : Option (List Char) := do
  let (safe, replacements) ← markSlots uuid value
  return replacements.foldl (fun encoded replacement =>
    replaceAll replacement.1 replacement.2 encoded) safe.stringify

def changeMember (name : String) (change : Json → Json) (member : String × Json) :
    String × Json :=
  if member.1 = name then (member.1, change member.2) else member

/-- Sets a member that is there. -/
def setMember (name : String) (change : Json → Json) : Json → Json
  | .obj members => .obj (members.map (changeMember name change))
  | value => value

def isArray : Option Json → Bool
  | some (.arr _) => true
  | _ => false

/-- `wire::response_json`. -/
def responseJson (envelope : String) (value : Json) : Option (List Char) :=
  match (value.member "result").bind (Json.member "structuredContent") with
  | none => some value.stringify
  | some content =>
      if isArray (content.member "items") = false ∧ isArray (content.member "matches") = false then
        some value.stringify
      else do
        let encoded ← readJson uuid content
        let token := Json.str ("\x00thread-read:" ++ envelope)
        let safe := setMember "result" (setMember "structuredContent" fun _ => token) value
        return replaceAll token.stringify encoded safe.stringify

/-- `wire::result`. -/
def result (value : Json) : Option Json := do
  let encoded ← readJson uuid value
  return .obj [("content", .arr [.obj [("type", .str "text"), ("text", .str (String.ofList encoded))]]),
    ("structuredContent", value), ("isError", .bool false)]

end

end Zeron.Threads.Timeline
