import Zeron.Wire.Members
import Zeron.Workspace.Valid

/-!
# Saved layouts

How a layout is written to a file and read again.  Members that have no field of their own stand
beside the fields, at the top of the document and in every pane, and a field that stands twice is
refused.
-/

namespace Zeron.Workspace

open Zeron.Data
open Zeron.Transition
open Zeron.Wire
open Zeron.Wire.Json

/-- `WorkspaceLayout`, with the members that have no field of their own. -/
structure FullLayout extends WorkspaceLayout where
  extra : List (String × Json) := []

/-- What the fields of a document are read into. -/
abbrev WireLayout := FullLayout

inductive IdPolicy where
  | reject
  /-- Raise a stale `next_id`. -/
  | repair

inductive StoreError where
  | layout (error : LayoutError)
  | json
  deriving DecidableEq

/-- How a finite `f64` is written, and what the literal of a number is read as. -/
structure Floats where
  write : Rat → String
  read : String → Option Rat

/-- The number is written as a number, and read as the same. -/
def Floats.Exact (floats : Floats) (value : Rat) : Prop :=
  (num (floats.write value)).Plain ∧ floats.read (floats.write value) = some value

def F64.toJson (floats : Floats) : F64 → Json
  | .finite value => num (floats.write value)
  | _ => null

def asF64 (floats : Floats) : Json → Option F64
  | num literal => (floats.read literal).map .finite
  | _ => none

def asBool : Json → Option Bool
  | .bool value => some value
  | _ => none

/-- An `Option<String>`, written. -/
def ofText? : Option String → Json
  | some text => str text
  | none => null

/-! ## Panes -/

def PaneMode.toJson : PaneMode → Json
  | chat => str "chat"
  | terminal => str "terminal"

def PaneMode.ofJson : Json → Option PaneMode
  | str "chat" => some chat
  | str "terminal" => some terminal
  | _ => none

def paneFields : List String :=
  ["session_id", "mode", "label", "group", "provider_key", "conversation_id", "permission_mode",
    "title_sc_owned"]

namespace PaneState

/-- The members of the fields. -/
def named (self : PaneState) : List (String × Json) :=
  [("session_id", ofText? self.sessionId), ("mode", self.mode.toJson),
    ("label", ofText? self.label), ("group", ofText? self.group),
    ("provider_key", ofText? self.providerKey), ("conversation_id", ofText? self.conversationId),
    ("permission_mode", ofText? self.permissionMode), ("title_sc_owned", .bool self.titleScOwned)]

def toJson (self : PaneState) : Json :=
  obj (self.named ++ self.extra)

def ofJson : Json → Option PaneState
  | obj members => do
      let sessionId ← defaulted "session_id" none members asText?
      let mode ← required "mode" members PaneMode.ofJson
      let label ← defaulted "label" none members asText?
      let group ← defaulted "group" none members asText?
      let providerKey ← defaulted "provider_key" none members asText?
      let conversationId ← defaulted "conversation_id" none members asText?
      let permissionMode ← defaulted "permission_mode" none members asText?
      let titleScOwned ← defaulted "title_sc_owned" false members asBool
      let extra := flattened paneFields members
      return { sessionId, mode, label, group, providerKey, conversationId, permissionMode,
               titleScOwned, extra }
  | _ => none

end PaneState

/-! ## Maps and trees -/

section Maps

variable {α : Type}

def mapToJson (write : α → Json) (map : IdMap α) : Json :=
  obj (map.toList.map fun entry => (toString entry.1, write entry.2))

/-- One entry more: a key that is there already is refused, and so is one too many. -/
def uniqueEntry (read : Json → Option α) (map : IdMap α) (member : String × Json) :
    Option (IdMap α) := do
  let key ← readU64 member.1.toList
  guard !map.contains key
  guard (map.size < maxPanes)
  return map.insert key (← read member.2)

def uniqueMap (read : Json → Option α) : Json → Option (IdMap α)
  | obj members => members.foldlM (uniqueEntry read) ∅
  | _ => none

end Maps

namespace SplitNode

def toJson (floats : Floats) : SplitNode Nat → Json
  | .split horizontal ratio first second =>
      obj [("type", str "split"), ("horizontal", .bool horizontal), ("ratio", ratio.toJson floats),
        ("first", first.toJson floats), ("second", second.toJson floats)]
  | .leaf content => obj [("type", str "leaf"), ("content", ofNat content)]

/-- A node of the members of an object, each with the node that it is itself. -/
def ofMembers (floats : Floats) (members : List (String × Json × Option (SplitNode Nat))) :
    Option (SplitNode Nat) := do
  let tag ← required "type" members fun value => value.1.asString
  let knows names := members.all fun member => ("type" :: names).contains member.1
  if tag = "split" then
    guard (knows ["horizontal", "ratio", "first", "second"])
    let horizontal ← required "horizontal" members fun value => asBool value.1
    let ratio ← required "ratio" members fun value => asF64 floats value.1
    let first ← required "first" members Prod.snd
    let second ← required "second" members Prod.snd
    return .split horizontal ratio first second
  else if tag = "leaf" then
    guard (knows ["content"])
    return .leaf (← required "content" members fun value => value.1.asU64)
  else none

mutual

def ofJson (floats : Floats) : Json → Option (SplitNode Nat)
  | obj members => ofMembers floats (eachOfJson floats members)
  | _ => none

def eachOfJson (floats : Floats) :
    List (String × Json) → List (String × Json × Option (SplitNode Nat))
  | [] => []
  | (name, value) :: rest => (name, value, ofJson floats value) :: eachOfJson floats rest

end

end SplitNode

/-! ## Tabs, views and layouts -/

def knows (names : List String) (members : List (String × Json)) : Bool :=
  members.all fun member => names.contains member.1

namespace SplitTabLayout

variable (floats : Floats)

def toJson (self : SplitTabLayout) : Json :=
  obj [("root", self.root.toJson floats), ("active_pane_id", ofNat self.activePaneId),
    ("primary_pane_id", ofNat self.primaryPaneId), ("panes", mapToJson PaneState.toJson self.panes)]

def ofJson : Json → Option SplitTabLayout
  | obj members => do
      guard (knows ["root", "active_pane_id", "primary_pane_id", "panes"] members)
      let root ← required "root" members (SplitNode.ofJson floats)
      let activePaneId ← required "active_pane_id" members asU64
      let primaryPaneId ← required "primary_pane_id" members asU64
      let panes ← required "panes" members (uniqueMap PaneState.ofJson)
      return { root, activePaneId, primaryPaneId, panes }
  | _ => none

end SplitTabLayout

def TabPlacement.toJson : TabPlacement → Json
  | top => str "top"
  | left => str "left"

def TabPlacement.ofJson : Json → Option TabPlacement
  | str "top" => some top
  | str "left" => some left
  | _ => none

/-- A `Vec<TabId>`. -/
def asIds : Json → Option (List Nat)
  | arr items => items.mapM asU64
  | _ => none

namespace ViewLayout

variable (floats : Floats)

def toJson (self : ViewLayout) : Json :=
  obj [("rail_width", self.railWidth.toJson floats), ("tab_placement", self.tabPlacement.toJson),
    ("active_tab_id", ofNat self.activeTabId), ("tab_order", arr (self.tabOrder.map ofNat)),
    ("tabs", mapToJson (SplitTabLayout.toJson floats) self.tabs)]

def ofJson : Json → Option ViewLayout
  | obj members => do
      guard (knows ["rail_width", "tab_placement", "active_tab_id", "tab_order", "tabs"] members)
      let railWidth ← required "rail_width" members (asF64 floats)
      let tabPlacement ← required "tab_placement" members TabPlacement.ofJson
      let activeTabId ← required "active_tab_id" members asU64
      let tabOrder ← defaulted "tab_order" [] members asIds
      let tabs ← required "tabs" members (uniqueMap (SplitTabLayout.ofJson floats))
      return { railWidth, tabPlacement, activeTabId, tabOrder, tabs }
  | _ => none

end ViewLayout

def layoutFields : List String :=
  ["root", "active_view_id", "views", "next_id", "revision"]

/-- `MAX_FILE_BYTES`. -/
def maxFileBytes : Nat := 8 * 1024 * 1024

namespace FullLayout

section

variable (floats : Floats)

/-- The members of the fields. -/
def named (self : FullLayout) : List (String × Json) :=
  [("root", self.root.toJson floats), ("active_view_id", ofNat self.activeViewId),
    ("views", mapToJson (ViewLayout.toJson floats) self.views), ("next_id", ofNat self.nextId),
    ("revision", ofNat self.revision)]

def toJson (self : FullLayout) : Json :=
  obj (self.named floats ++ self.extra)

def ofJson : Json → Option WireLayout
  | obj members => do
      let root ← required "root" members (SplitNode.ofJson floats)
      let activeViewId ← required "active_view_id" members asU64
      let views ← required "views" members (uniqueMap (ViewLayout.ofJson floats))
      let nextId ← required "next_id" members asU64
      let revision ← required "revision" members asU64
      let extra := flattened layoutFields members
      return { root, activeViewId, views, nextId, revision, extra }
  | _ => none

/-- `from_slice::<WireLayout>`. -/
def ofBytes (bytes : List UInt8) : Option WireLayout :=
  (fromSlice bytes).bind (ofJson floats)

/-- `save`: the bytes of the file. -/
def save (self : FullLayout) : Except StoreError (List UInt8) := do
  self.validate.mapError .layout
  let bytes := toVecPretty (self.toJson floats)
  check (decide (bytes.length ≤ maxFileBytes)) (.layout (.limit "file size"))
  return bytes

end

/-- The layout with a counter past all its ids. -/
def repaired (self : WireLayout) : Except LayoutError FullLayout := do
  let minimum := (self.ids.max?.getD 0) + 1
  check (decide (minimum < u64Size)) .exhausted
  return { self with nextId := max self.nextId minimum }

def intoLayout (self : WireLayout) (policy : IdPolicy) : Except LayoutError FullLayout := do
  let layout ← match policy with
    | .reject => .ok self
    | .repair => self.repaired
  layout.validate
  return layout

/-- `load_with_policy`, with `wire` for what is read from the bytes. -/
def load (wire : List UInt8 → Option WireLayout) (policy : IdPolicy) (file : List UInt8) :
    Except StoreError FullLayout := do
  check (decide (file.length ≤ maxFileBytes)) (.layout (.limit "file size"))
  match wire file with
  | none => .error .json
  | some layout => (layout.intoLayout policy).mapError .layout

end FullLayout

end Zeron.Workspace
