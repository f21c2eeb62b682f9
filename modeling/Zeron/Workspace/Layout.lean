import Zeron.Data.Map
import Zeron.Transition.Edit
import Zeron.Wire.Json
import Zeron.Workspace.Tree

/-!
# The workspace layout

Views, their tabs, and the panes of each tab: three linked levels, each a tree
or an order beside a map.  Every call edits a draft, and the draft takes the
place of the layout only if it is valid.
-/

namespace Zeron.Workspace

open Zeron.Data
open Zeron.Transition
open Zeron.Wire

/-- `MAX_VIEWS`. -/
def maxViews : Nat := 64

/-- `MAX_TABS`. -/
def maxTabs : Nat := 512

/-- `MAX_PANES`. -/
def maxPanes : Nat := 4096

/-- `u64::MAX`, plus one. -/
def u64Size : Nat := 2 ^ 64

abbrev ViewId := Nat
abbrev TabId := Nat
abbrev PaneId := Nat

inductive PaneMode where
  | chat
  | terminal

inductive TabPlacement where
  | top
  | left

structure PaneState where
  sessionId : Option String := none
  mode : PaneMode := .chat
  label : Option String := none
  group : Option String := none
  providerKey : Option String := none
  conversationId : Option String := none
  permissionMode : Option String := none
  titleScOwned : Bool := false
  /-- Members that have no field of their own. -/
  extra : List (String × Json) := []

/-- `PaneState::default()`. -/
def PaneState.empty : PaneState :=
  {}

abbrev IdMap (α : Type) := Std.ExtTreeMap Nat α compare

structure SplitTabLayout where
  root : SplitNode PaneId
  activePaneId : PaneId
  primaryPaneId : PaneId
  panes : IdMap PaneState

structure ViewLayout where
  railWidth : F64
  tabPlacement : TabPlacement
  activeTabId : TabId
  tabOrder : List TabId
  tabs : IdMap SplitTabLayout

structure WorkspaceLayout where
  root : SplitNode ViewId
  activeViewId : ViewId
  views : IdMap ViewLayout
  nextId : Nat
  revision : Nat

namespace SplitTabLayout

def single (id : PaneId) (pane : PaneState) : SplitTabLayout where
  root := .leaf id
  activePaneId := id
  primaryPaneId := id
  panes := .insert ∅ id pane

/-- `remove`: the tab without one of its panes, and that pane's state. -/
def remove (self : SplitTabLayout) (pane : PaneId) :
    Except LayoutError (SplitTabLayout × PaneState) :=
  if self.panes.size = 1 then .error (.last "pane in tab")
  else
    match self.panes[pane]?, self.root.remove pane with
    | none, _ => .error (.notFound "pane")
    | some _, none => .error (.last "pane in tab")
    | some state, some root =>
        .ok ({ root
               activePaneId := if self.activePaneId = pane then root.firstLeaf else self.activePaneId
               primaryPaneId :=
                 if self.primaryPaneId = pane then root.firstLeaf else self.primaryPaneId
               panes := self.panes.erase pane }, state)

end SplitTabLayout

namespace ViewLayout

def single (tab : TabId) (pane : PaneId) (state : PaneState) : ViewLayout where
  railWidth := .finite 240
  tabPlacement := .top
  activeTabId := tab
  tabOrder := [tab]
  tabs := .insert ∅ tab (.single pane state)

/-- A view without an order of its own shows its tabs by id. -/
def orderedTabs (self : ViewLayout) : List TabId :=
  if self.tabOrder.isEmpty then self.tabs.keys else self.tabOrder

def insertTab (self : ViewLayout) (tab : TabId) (state : SplitTabLayout) : ViewLayout :=
  { self with
    tabOrder := if self.tabs.contains tab then self.orderedTabs else self.orderedTabs ++ [tab]
    tabs := self.tabs.insert tab state }

end ViewLayout

/-! ## Validation -/

/-- `unique_id`: the ids seen so far, with one more. -/
def uniqueId (ids : List Nat) (id : Nat) : Except LayoutError (List Nat) :=
  if id = 0 ∨ id ∈ ids then .error (.invalid "IDs must be nonzero and globally unique")
  else .ok (id :: ids)

def reachable {α : Type} (root : SplitNode Nat) (map : IdMap α) : Except LayoutError Unit := do
  let leaves ← root.collect 0
  check (decide (leaves.dedup.length = leaves.length) &&
      decide (leaves.dedup.length = map.size) && leaves.all map.contains)
    (.invalid "tree leaves must reference every map ID exactly once")

/-- The checks of one tab, after the ids seen and the panes counted so far. -/
def validateTab (seen : List Nat × Nat) (entry : TabId × SplitTabLayout) :
    Except LayoutError (List Nat × Nat) := do
  let (tabId, tab) := entry
  let ids ← uniqueId seen.1 tabId
  check (!tab.panes.isEmpty) (.invalid "tab has no panes")
  let panes := seen.2 + tab.panes.size
  check (decide (panes ≤ maxPanes)) (.limit "panes")
  reachable tab.root tab.panes
  check (tab.panes.contains tab.activePaneId && tab.panes.contains tab.primaryPaneId)
    (.invalid "active or primary pane is missing")
  let ids ← tab.panes.keys.foldlM uniqueId ids
  return (ids, panes)

/-- The checks of one view, after the ids seen and the tabs and panes counted so far. -/
def validateView (seen : List Nat × Nat × Nat) (entry : ViewId × ViewLayout) :
    Except LayoutError (List Nat × Nat × Nat) := do
  let (viewId, view) := entry
  let ids ← uniqueId seen.1 viewId
  check (view.railWidth.within 0 4096)
    (.invalid "rail width must be finite and within 0..=4096")
  check (!view.tabs.isEmpty) (.invalid "view has no tabs")
  let order := view.orderedTabs
  check (decide (order.length = view.tabs.size) && order.all view.tabs.contains &&
      view.tabs.keys.all order.contains)
    (.invalid "tab order must contain each tab exactly once")
  let tabs := seen.2.1 + view.tabs.size
  check (decide (tabs ≤ maxTabs)) (.limit "tabs")
  check (view.tabs.contains view.activeTabId) (.invalid "active tab is missing")
  let (ids, panes) ← view.tabs.toList.foldlM validateTab (ids, seen.2.2)
  return (ids, tabs, panes)

namespace WorkspaceLayout

def new : WorkspaceLayout where
  root := .leaf 1
  activeViewId := 1
  views := .insert ∅ 1 (.single 2 3 .empty)
  nextId := 4
  revision := 0

def validate (self : WorkspaceLayout) : Except LayoutError Unit := do
  check (!self.views.isEmpty) (.invalid "workspace has no views")
  check (decide (self.views.size ≤ maxViews)) (.limit "views")
  check (self.views.contains self.activeViewId) (.invalid "active view is missing")
  reachable self.root self.views
  let (ids, _, _) ← self.views.toList.foldlM validateView ([], 0, 0)
  check (!ids.max?.any fun id => decide (self.nextId ≤ id))
    (.invalid "next_id must exceed every allocated ID")

example : new.validate = .ok () := by decide +kernel

/-! ## Looking things up -/

def tab (self : WorkspaceLayout) (view : ViewId) (tab : TabId) : Option SplitTabLayout :=
  self.views[view]?.bind fun state => state.tabs[tab]?

def activePaneId (self : WorkspaceLayout) : Option PaneId :=
  self.views[self.activeViewId]?.bind fun view =>
    view.tabs[view.activeTabId]?.map SplitTabLayout.activePaneId

/-- The first view and tab that have the pane. -/
def paneLocation (self : WorkspaceLayout) (id : PaneId) : Option (ViewId × TabId) :=
  self.views.toList.findSome? fun (viewId, view) =>
    view.tabs.toList.findSome? fun (tabId, tab) =>
      if tab.panes.contains id then some (viewId, tabId) else none

def pane (self : WorkspaceLayout) (id : PaneId) : Option PaneState :=
  (self.paneLocation id).bind fun (view, tab) =>
    (self.tab view tab).bind fun state => state.panes[id]?

def tabLocation (self : WorkspaceLayout) (tab : TabId) : Option ViewId :=
  self.views.toList.findSome? fun (viewId, view) =>
    if view.tabs.contains tab then some viewId else none

/-- `ids`: every view, tab and pane. -/
def ids (self : WorkspaceLayout) : List Nat :=
  self.views.toList.flatMap fun (viewId, view) =>
    viewId :: view.tabs.toList.flatMap fun (tabId, tab) => tabId :: tab.panes.keys

/-! ## Editing a draft -/

/-- What a call does to the layout, and what it answers. -/
abbrev Edit (α : Type) := EStateM LayoutError WorkspaceLayout α

def allocate : Edit Nat := do
  let id := (← get).nextId
  ensure (decide (id + 1 < u64Size)) .exhausted
  modify fun draft => { draft with nextId := id + 1 }
  return id

/-- `tab_mut`, as far as it looks. -/
def tabMut (view : ViewId) (tab : TabId) : Edit SplitTabLayout := do
  let state ← require (← get).views[view]? (.notFound "view")
  require state.tabs[tab]? (.notFound "tab")

/-- A write through a reference to a view. -/
def putView (view : ViewId) (state : ViewLayout) : Edit Unit :=
  modify fun draft => { draft with views := draft.views.insert view state }

/-- A write through a reference to a tab. -/
def putTab (view : ViewId) (tab : TabId) (state : SplitTabLayout) : Edit Unit :=
  modify fun draft =>
    { draft with
      views := draft.views.alter view fun stored =>
        stored.map fun stored => { stored with tabs := stored.tabs.insert tab state } }

/-- Every id of the draft that is not an id of the layout comes after the layout's ids. -/
def freshIds (self draft : WorkspaceLayout) : Bool :=
  draft.ids.all fun id => self.ids.contains id || decide (self.nextId ≤ id)

/-- `compose`: the draft takes the place of the layout only if the edit succeeds, and leaves it
valid, with no id used again. -/
def compose {α : Type} (expectedRevision : Nat) (edit : Edit α) : Edit α := fun self =>
  if self.revision ≠ expectedRevision then
    .error (.revisionConflict expectedRevision self.revision) self
  else
    match self.validate with
    | .error error => .error error self
    | .ok _ =>
        if u64Size ≤ self.revision + 1 then .error .exhausted self
        else
          match edit self with
          | .error error _ => .error error self
          | .ok result draft =>
              match draft.validate with
              | .error error => .error error self
              | .ok _ =>
                  if draft.nextId < self.nextId || !self.freshIds draft then
                    .error (.invalid "compose cannot reuse IDs or lower next_id") self
                  else .ok result { draft with revision := self.revision + 1 }

/-- `compose` at the revision that the layout has. -/
def commit {α : Type} (edit : Edit α) : Edit α := do
  compose (← get).revision edit

/-! ## Adding -/

def splitView (target : ViewId) (direction : Direction) (pane : PaneState) : Edit ViewId :=
  commit do
    ensure ((← get).views.contains target) (.notFound "view")
    let view ← allocate
    let tab ← allocate
    let paneId ← allocate
    modify fun draft =>
      { draft with
        root := (draft.root.insert target view direction).1
        views := draft.views.insert view (.single tab paneId pane)
        activeViewId := view }
    return view

def addTab (view : ViewId) (pane : PaneState) : Edit TabId :=
  commit do
    ensure ((← get).views.contains view) (.notFound "view")
    let tab ← allocate
    let paneId ← allocate
    let state ← require (← get).views[view]? (.notFound "view")
    putView view { state.insertTab tab (.single paneId pane) with activeTabId := tab }
    modify fun draft => { draft with activeViewId := view }
    return tab

def focusPaneInner (pane : PaneId) : Edit Unit := do
  let (view, tab) ← require ((← get).paneLocation pane) (.notFound "pane")
  let state ← tabMut view tab
  putTab view tab { state with activePaneId := pane }
  let stored ← require (← get).views[view]? (.notFound "view")
  putView view { stored with activeTabId := tab }
  modify fun draft => { draft with activeViewId := view }

def splitPane (target : PaneId) (direction : Direction) (pane : PaneState) : Edit PaneId :=
  commit do
    let (view, tab) ← require ((← get).paneLocation target) (.notFound "pane")
    let id ← allocate
    let state ← tabMut view tab
    putTab view tab
      { state with
        root := (state.root.insert target id direction).1
        panes := state.panes.insert id pane }
    focusPaneInner id
    return id

/-! ## Closing -/

def closeViewInner (view : ViewId) : Edit Unit := do
  ensure ((← get).views.contains view) (.notFound "view")
  ensure (decide ((← get).views.size ≠ 1)) (.last "view")
  modify fun draft => { draft with views := draft.views.erase view }
  let root ← require ((← get).root.remove view) (.last "view")
  modify fun draft =>
    { draft with
      root
      activeViewId := if draft.activeViewId = view then root.firstLeaf else draft.activeViewId }

/-- `close_tab_inner`: the last tab of a view takes the view with it. -/
def closeTabInner (view : ViewId) (tab : TabId) : Edit Unit := do
  let state ← require (← get).views[view]? (.notFound "view")
  ensure (state.tabs.contains tab) (.notFound "tab")
  if state.tabs.size = 1 then
    closeViewInner view
  else
    let order := state.orderedTabs.filter (· ≠ tab)
    let first ← if state.activeTabId = tab then require order.head? .panicked
      else pure state.activeTabId
    putView view
      { state with tabOrder := order, tabs := state.tabs.erase tab, activeTabId := first }

/-- `detach_pane`: the last pane of a tab takes the tab with it. -/
def detachPane (pane : PaneId) : Edit PaneState := do
  let (view, tab) ← require ((← get).paneLocation pane) (.notFound "pane")
  let state ← tabMut view tab
  if 1 < state.panes.size then
    let (rest, paneState) ← attempt (state.remove pane)
    putTab view tab rest
    return paneState
  else
    let paneState ← require state.panes[pane]? (.notFound "pane")
    closeTabInner view tab
    return paneState

def closePane (pane : PaneId) : Edit Unit :=
  commit do
    let _ ← detachPane pane

def closeTab (view : ViewId) (tab : TabId) : Edit Unit :=
  commit (closeTabInner view tab)

def closeView (view : ViewId) : Edit Unit :=
  commit (closeViewInner view)

/-- `close_to_launcher`: the last pane of a view leaves an empty one behind. -/
def closeToLauncher (pane : PaneId) : Edit Unit :=
  commit do
    let (view, tab) ← require ((← get).paneLocation pane) (.notFound "pane")
    let state ← require (← get).views[view]? .panicked
    let stored ← require state.tabs[tab]? .panicked
    if state.tabs.size = 1 ∧ stored.panes.size = 1 then
      let _ ← addTab view .empty
    closePane pane

/-! ## Focus and proportions -/

def focusView (view : ViewId) : Edit Unit :=
  commit do
    ensure ((← get).views.contains view) (.notFound "view")
    modify fun draft => { draft with activeViewId := view }

def focusTab (view : ViewId) (tab : TabId) : Edit Unit :=
  commit do
    let _ ← tabMut view tab
    let state ← require (← get).views[view]? (.notFound "view")
    putView view { state with activeTabId := tab }
    modify fun draft => { draft with activeViewId := view }

def focusPane (pane : PaneId) : Edit Unit :=
  commit (focusPaneInner pane)

def setViewRatio (path : List Branch) (ratio : F64) : Edit Unit :=
  commit do
    attempt (validateRatio ratio)
    let root ← attempt ((← get).root.setRatio ratio path)
    modify fun draft => { draft with root }

def setPaneRatio (view : ViewId) (tab : TabId) (path : List Branch) (ratio : F64) : Edit Unit :=
  commit do
    attempt (validateRatio ratio)
    let state ← tabMut view tab
    let root ← attempt (state.root.setRatio ratio path)
    putTab view tab { state with root }

/-! ## Moving -/

/-- The pane is already the sibling on that side, at the root of the target's tab. -/
def isBeside (self : WorkspaceLayout) (pane target : PaneId) (direction : Direction) : Bool :=
  (self.paneLocation target).any fun (view, tab) =>
    self.paneLocation pane = some (view, tab) &&
      (self.tab view tab).any fun state =>
        state.root.isSiblingInDirection pane target direction

/-- `move_pane`. -/
def movePane (pane target : PaneId) (direction : Direction) : Edit Unit :=
  commit do
    ensure (decide (pane ≠ target)) (.invalid "move source equals target")
    let (view, tab) ← require ((← get).paneLocation target) (.notFound "target pane")
    if (← get).isBeside pane target direction then
      let state ← require ((← get).tab view tab) .panicked
      putTab view tab { state with root := state.root.swapLeaves pane target }
      focusPaneInner pane
    else
      let paneState ← detachPane pane
      let state ← tabMut view tab
      putTab view tab
        { state with
          root := (state.root.insert target pane direction).1
          panes := state.panes.insert pane paneState }
      focusPaneInner pane

/-- One of two ids, exchanged for the other. -/
def swapId (a b id : PaneId) : PaneId :=
  if id = a then b else if id = b then a else id

/-- `swap_panes`. -/
def swapPanes (a b : PaneId) : Edit Unit := do
  ensure (decide (a ≠ b)) (.invalid "swap source equals target")
  commit do
    let (aView, aTab) ← require ((← get).paneLocation a) (.notFound "source pane")
    let (bView, bTab) ← require ((← get).paneLocation b) (.notFound "target pane")
    let active ← require (← get).activePaneId (.notFound "active pane")
    if (aView, aTab) ≠ (bView, bTab) then
      let first ← tabMut aView aTab
      let aState ← require first.panes[a]? .panicked
      putTab aView aTab { first with panes := first.panes.erase a }
      let second ← tabMut bView bTab
      let bState ← require second.panes[b]? .panicked
      putTab bView bTab { second with panes := second.panes.erase b }
      let first ← tabMut aView aTab
      putTab aView aTab { first with panes := first.panes.insert b bState }
      let second ← tabMut bView bTab
      putTab bView bTab { second with panes := second.panes.insert a aState }
    modify fun draft =>
      { draft with
        views := draft.views.map fun _ view =>
          { view with
            tabs := view.tabs.map fun _ tab =>
              { tab with
                root := tab.root.swapLeaves a b
                activePaneId := swapId a b tab.activePaneId
                primaryPaneId := swapId a b tab.primaryPaneId } } }
    focusPaneInner active

def takeTab (view : ViewId) (tab : TabId) : Edit SplitTabLayout := do
  let state ← tabMut view tab
  closeTabInner view tab
  return state

def moveTab (tab : TabId) (target : ViewId) : Edit Unit :=
  commit do
    let source ← require ((← get).tabLocation tab) (.notFound "tab")
    ensure ((← get).views.contains target) (.notFound "target view")
    if source ≠ target then
      let state ← takeTab source tab
      let view ← require (← get).views[target]? .panicked
      putView target (view.insertTab tab state)
    let view ← require (← get).views[target]? .panicked
    putView target { view with activeTabId := tab }
    modify fun draft => { draft with activeViewId := target }

def paneToTab (pane : PaneId) (target : ViewId) : Edit TabId :=
  commit do
    let (source, sourceTab) ← require ((← get).paneLocation pane) (.notFound "pane")
    ensure ((← get).views.contains target) (.notFound "target view")
    let state ← tabMut source sourceTab
    if state.panes.size = 1 then
      moveTab sourceTab target
      return sourceTab
    else
      let paneState ← detachPane pane
      let tab ← allocate
      let view ← require (← get).views[target]? .panicked
      putView target (view.insertTab tab (.single pane paneState))
      focusPaneInner pane
      return tab

/-- The order with the tab before another one, or last. -/
def placeTab (order : List TabId) (tab : TabId) (before : Option TabId) : List TabId :=
  let rest := order.filter (· ≠ tab)
  let index := (before.bind fun id => rest.idxOf? id).getD rest.length
  rest.take index ++ tab :: rest.drop index

def reorderTab (tab : TabId) (target : ViewId) (before : Option TabId) : Edit Unit :=
  commit do
    let draft ← get
    if before = some tab ∧ draft.tabLocation tab = some target then
      return
    else
      ensure (before.all fun id => decide (draft.tabLocation id = some target))
        (.notFound "insertion tab")
      moveTab tab target
      let view ← require (← get).views[target]? .panicked
      putView target { view with tabOrder := placeTab view.orderedTabs tab before }

def paneToView (pane : PaneId) (target : ViewId) (direction : Direction) : Edit ViewId :=
  commit do
    ensure ((← get).pane pane).isSome (.notFound "pane")
    let added ← splitView target direction .empty
    let placeholder ← require (← get).activePaneId .panicked
    movePane pane placeholder .left
    closePane placeholder
    focusPaneInner pane
    return added

def tabToView (tab : TabId) (target : ViewId) (direction : Direction) : Edit ViewId :=
  commit do
    ensure ((← get).tabLocation tab).isSome (.notFound "tab")
    let added ← splitView target direction .empty
    let view ← require (← get).views[added]? .panicked
    let placeholderTab := view.activeTabId
    moveTab tab added
    closeTab added placeholderTab
    return added

/-- `merge_tab`: the dragged tab's tree goes beside the target as it is. -/
def mergeTab (tab : TabId) (target : PaneId) (direction : Direction) : Edit Unit :=
  commit do
    let source ← require ((← get).tabLocation tab) (.notFound "tab")
    let (view, destination) ← require ((← get).paneLocation target) (.notFound "target pane")
    ensure (decide (destination ≠ tab)) (.invalid "cannot merge a tab into itself")
    let moving ← takeTab source tab
    let state ← tabMut view destination
    let (root, done) := state.root.replaceWithSplit target moving.root direction
    putTab view destination { state with root }
    ensure done (.notFound "target pane")
    putTab view destination
      { state with
        root
        panes := moving.panes.foldl (fun panes id pane => panes.insert id pane) state.panes }
    focusPaneInner moving.activePaneId

end WorkspaceLayout

end Zeron.Workspace
