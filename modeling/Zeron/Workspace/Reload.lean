import Zeron.Workspace.Saved

/-!
# Loading a saved layout

What is written level by level is read level by level: a pane, a map of panes, a tab, a view, a
layout.  Only a member that takes the name of a field, or a value nested too deep for a document,
stands in the way.
-/

namespace Zeron.Workspace

open Zeron.Data
open Zeron.Transition
open Zeron.Wire
open Zeron.Wire.Json

@[simp]
theorem asText?_ofText? (text : Option String) : asText? (ofText? text) = some text := by
  cases text <;> rfl

@[simp]
theorem PaneMode.ofJson_toJson (mode : PaneMode) : PaneMode.ofJson mode.toJson = some mode := by
  cases mode <;> rfl

@[simp]
theorem TabPlacement.ofJson_toJson (placement : TabPlacement) :
    TabPlacement.ofJson placement.toJson = some placement := by
  cases placement <;> rfl

/-- No name of the fields is among the members that have no field. -/
def Apart (fields : List String) (extra : List (String × Json)) : Prop :=
  ∀ name ∈ fields, name ∉ extra.map Prod.fst

instance (fields : List String) (extra : List (String × Json)) : Decidable (Apart fields extra) :=
  inferInstanceAs (Decidable (∀ name ∈ fields, name ∉ extra.map Prod.fst))

/-- A map whose values are values: each name once, at every depth. -/
structure IsMap (members : List (String × Json)) : Prop where
  distinct : Distinct members
  maps : MapsMembers members
  plain : PlainMembers members

namespace PaneState

theorem mem_paneFields_iff (pane : PaneState) (name : String) :
    name ∈ pane.named.map Prod.fst ↔ name ∈ paneFields :=
  Iff.rfl

/-- No member of the pane's own stands under the name of a field. -/
def Apart (pane : PaneState) : Prop :=
  Workspace.Apart paneFields pane.extra

instance : DecidablePred PaneState.Apart := fun pane =>
  inferInstanceAs (Decidable (Workspace.Apart paneFields pane.extra))

/-- A pane is read as it was written, unless a member of its own takes the name of a field. -/
theorem ofJson_toJson (pane : PaneState) (isMap : IsMap pane.extra) :
    ofJson pane.toJson = if pane.Apart then some pane else none := by
  by_cases apart : pane.Apart
  · have passed : ∀ name ∈ paneFields,
        once name (pane.named ++ pane.extra) = once name pane.named :=
      fun name listed => once_append_of_not_mem (apart name listed)
    have own : ∀ member ∈ pane.named, member.1 ∈ paneFields := fun member listed =>
      List.mem_map_of_mem listed
    rw [if_pos apart, toJson, ofJson]
    simp only [required, defaulted, passed "session_id" (by decide), passed "mode" (by decide),
      passed "label" (by decide), passed "group" (by decide), passed "provider_key" (by decide),
      passed "conversation_id" (by decide), passed "permission_mode" (by decide),
      passed "title_sc_owned" (by decide),
      flattened_append paneFields isMap.distinct isMap.maps own apart]
    simp [once, named, asBool]
  · rw [if_neg apart, toJson, ofJson]
    obtain ⟨name, field, listed⟩ : ∃ name ∈ paneFields, name ∈ pane.extra.map Prod.fst := by
      by_contra none
      exact apart fun name field listed => none ⟨name, field, listed⟩
    have twice : once name (pane.named ++ pane.extra) = none :=
      once_append_of_mem ((pane.mem_paneFields_iff name).mpr field) listed
    simp only [paneFields, List.mem_cons, List.not_mem_nil, or_false] at field
    rcases field with rfl | rfl | rfl | rfl | rfl | rfl | rfl | rfl <;>
      simp [required, defaulted, twice]
end PaneState

theorem F64.read_write {floats : Floats} {value : Rat} (exact : floats.Exact value) :
    asF64 floats (F64.toJson floats (.finite value)) = some (.finite value) := by
  rw [F64.toJson, asF64, exact.2, Option.map_some]

/-- A number that is written, and read as it is. -/
def F64.Exact (floats : Floats) (number : F64) : Prop :=
  ∃ value, number = .finite value ∧ floats.Exact value

namespace SplitNode

def ratios {α : Type} : SplitNode α → List F64
  | .leaf _ => []
  | .split _ ratio first second => ratio :: (first.ratios ++ second.ratios)

variable {floats : Floats}

theorem ofJson_toJson (node : SplitNode Nat) (bounded : ∀ leaf ∈ node.leaves, leaf < 2 ^ 64)
    (exact : ∀ ratio ∈ node.ratios, F64.Exact floats ratio) :
    ofJson floats (node.toJson floats) = some node := by
  induction node with
  | leaf content =>
      have small : content < 2 ^ 64 := bounded content List.mem_cons_self
      simp [toJson, ofJson, eachOfJson, ofMembers, required, once, asString, asU64_ofNat small]
  | split horizontal ratio first second first_ih second_ih =>
      obtain ⟨value, rfl, exactly⟩ := exact ratio List.mem_cons_self
      have before := first_ih (fun leaf listed => bounded leaf (List.mem_append_left _ listed))
        fun ratio listed => exact ratio (List.mem_cons_of_mem _ (List.mem_append_left _ listed))
      have after := second_ih (fun leaf listed => bounded leaf (List.mem_append_right _ listed))
        fun ratio listed => exact ratio (List.mem_cons_of_mem _ (List.mem_append_right _ listed))
      simp [toJson, ofJson, eachOfJson, ofMembers, required, once, asString, asBool, before, after,
        F64.read_write exactly]

end SplitNode

section Maps

variable {α : Type} {read : Json → Option α} {write : α → Json}
variable {fine : α → Prop} [DecidablePred fine]

theorem foldlM_uniqueEntry (entries : List (Nat × α)) (map : IdMap α)
    (small : ∀ entry ∈ entries, entry.1 < 2 ^ 64)
    (distinct : entries.Pairwise fun first second => first.1 ≠ second.1)
    (new : ∀ entry ∈ entries, entry.1 ∉ map)
    (room : map.size + entries.length ≤ maxPanes)
    (each : ∀ entry ∈ entries, read (write entry.2) = if fine entry.2 then some entry.2 else none) :
    (entries.map fun entry => (toString entry.1, write entry.2)).foldlM (uniqueEntry read) map =
      if ∀ entry ∈ entries, fine entry.2 then
        some (entries.foldl (fun map entry => map.insert entry.1 entry.2) map)
      else none := by
  induction entries generalizing map with
  | nil => simp
  | cons entry rest ih =>
      obtain ⟨key, value⟩ := entry
      obtain ⟨apart, distinct⟩ := List.pairwise_cons.mp distinct
      have key_small : key < 2 ^ 64 := small _ List.mem_cons_self
      have missing : key ∉ map := new _ List.mem_cons_self
      have there := each _ List.mem_cons_self
      rw [List.length_cons] at room
      have step : uniqueEntry read map (toString key, write value) =
          if fine value then some (map.insert key value) else none := by
        simp only [uniqueEntry, toList_toString, readU64_toDigits key_small, there]
        rw [← Std.ExtTreeMap.contains_iff_mem] at missing
        split_ifs <;> simp [missing, show map.size < maxPanes by omega]
      have size : (map.insert key value).size = map.size + 1 := by
        rw [Std.ExtTreeMap.size_insert, if_neg (by simpa using missing)]
      have later := ih (map.insert key value)
        (fun entry listed => small entry (List.mem_cons_of_mem _ listed)) distinct ?_ (by omega)
        (fun entry listed => each entry (List.mem_cons_of_mem _ listed))
      · rw [List.map_cons, List.foldlM_cons, step]
        by_cases good : fine value
        · rw [if_pos good, Option.bind_eq_bind, Option.bind_some, later]
          simp only [List.forall_mem_cons, good, true_and, List.foldl_cons]
        · rw [if_neg good, Option.bind_eq_bind, Option.bind_none,
            if_neg fun all => good (all _ List.mem_cons_self)]
      · intro entry listed inside
        rw [Std.ExtTreeMap.mem_insert] at inside
        rcases inside with same | inside
        · exact apart entry listed (Std.LawfulEqCmp.eq_of_compare same)
        · exact new entry (List.mem_cons_of_mem _ listed) inside

theorem uniqueMap_mapToJson (map : IdMap α) (small : ∀ entry ∈ map.toList, entry.1 < 2 ^ 64)
    (room : map.size ≤ maxPanes)
    (each : ∀ entry ∈ map.toList,
      read (write entry.2) = if fine entry.2 then some entry.2 else none) :
    uniqueMap read (mapToJson write map) =
      if ∀ entry ∈ map.toList, fine entry.2 then some map else none := by
  have whole : map.toList.foldl (fun map entry => map.insert entry.1 entry.2) ∅ = map := by
    rw [← Std.ExtTreeMap.insertMany_list_eq_foldl, ← Std.ExtTreeMap.ofList_eq_insertMany_empty,
      ofList_toList]
  rw [mapToJson, uniqueMap, foldlM_uniqueEntry map.toList ∅ small (toList_pairwise_ne map)
    (fun _ _ inside => by simp at inside) (by simpa using room) each, whole]

end Maps

theorem mapM_asU64 {ids : List Nat} (small : ∀ id ∈ ids, id < 2 ^ 64) :
    asIds (arr (ids.map ofNat)) = some ids := by
  rw [asIds]
  induction ids with
  | nil => rfl
  | cons id rest ih =>
      rw [List.map_cons, List.mapM_cons, asU64_ofNat (small id List.mem_cons_self),
        ih fun other listed => small other (List.mem_cons_of_mem _ listed)]
      rfl

variable {tab : SplitTabLayout} {layout : FullLayout} {view : ViewLayout}

section Levels

variable (floats : Floats)

/-- What makes a tab one that can be written: its ids fit, its numbers are exact, and its maps are
maps. -/
structure SplitTabLayout.Written (tab : SplitTabLayout) : Prop where
  leaves : ∀ leaf ∈ tab.root.leaves, leaf < 2 ^ 64
  ratios : ∀ ratio ∈ tab.root.ratios, F64.Exact floats ratio
  active : tab.activePaneId < 2 ^ 64
  primary : tab.primaryPaneId < 2 ^ 64
  keys : ∀ entry ∈ tab.panes.toList, entry.1 < 2 ^ 64
  room : tab.panes.size ≤ maxPanes
  panes : ∀ entry ∈ tab.panes.toList, IsMap entry.2.extra

structure ViewLayout.Written (view : ViewLayout) : Prop where
  rail : F64.Exact floats view.railWidth
  active : view.activeTabId < 2 ^ 64
  order : ∀ tab ∈ view.tabOrder, tab < 2 ^ 64
  keys : ∀ entry ∈ view.tabs.toList, entry.1 < 2 ^ 64
  room : view.tabs.size ≤ maxPanes
  tabs : ∀ entry ∈ view.tabs.toList, entry.2.Written floats

structure FullLayout.Written (layout : FullLayout) : Prop where
  leaves : ∀ leaf ∈ layout.root.leaves, leaf < 2 ^ 64
  ratios : ∀ ratio ∈ layout.root.ratios, F64.Exact floats ratio
  active : layout.activeViewId < 2 ^ 64
  keys : ∀ entry ∈ layout.views.toList, entry.1 < 2 ^ 64
  room : layout.views.size ≤ maxPanes
  nextId : layout.nextId < 2 ^ 64
  revision : layout.revision < 2 ^ 64
  views : ∀ entry ∈ layout.views.toList, entry.2.Written floats
  extra : IsMap layout.extra

def SplitTabLayout.Apart (tab : SplitTabLayout) : Prop :=
  ∀ entry ∈ tab.panes.toList, entry.2.Apart

instance : DecidablePred SplitTabLayout.Apart := fun tab =>
  inferInstanceAs (Decidable (∀ entry ∈ tab.panes.toList, entry.2.Apart))

def ViewLayout.Apart (view : ViewLayout) : Prop :=
  ∀ entry ∈ view.tabs.toList, entry.2.Apart

instance : DecidablePred ViewLayout.Apart := fun view =>
  inferInstanceAs (Decidable (∀ entry ∈ view.tabs.toList, entry.2.Apart))

def FullLayout.Apart (layout : FullLayout) : Prop :=
  (∀ entry ∈ layout.views.toList, entry.2.Apart) ∧ Workspace.Apart layoutFields layout.extra

instance : DecidablePred FullLayout.Apart := fun layout =>
  inferInstanceAs (Decidable ((∀ entry ∈ layout.views.toList, entry.2.Apart) ∧
    Workspace.Apart layoutFields layout.extra))

variable {floats}

theorem SplitTabLayout.ofJson_toJson (written : tab.Written floats) :
    ofJson floats (tab.toJson floats) = if tab.Apart then some tab else none := by
  have root := SplitNode.ofJson_toJson tab.root written.leaves written.ratios
  have panes : uniqueMap PaneState.ofJson (mapToJson PaneState.toJson tab.panes) =
      if tab.Apart then some tab.panes else none :=
    uniqueMap_mapToJson tab.panes written.keys written.room fun entry listed =>
      entry.2.ofJson_toJson (written.panes entry listed)
  rw [toJson, ofJson]
  by_cases apart : tab.Apart
  · rw [if_pos apart] at panes ⊢
    simp [knows, required, once, root, panes, asU64_ofNat written.active,
      asU64_ofNat written.primary]
  · rw [if_neg apart] at panes ⊢
    simp [required, once, panes]

theorem ViewLayout.ofJson_toJson (written : view.Written floats) :
    ofJson floats (view.toJson floats) = if view.Apart then some view else none := by
  obtain ⟨width, rail, exact⟩ := written.rail
  have width_read : asF64 floats (view.railWidth.toJson floats) = some view.railWidth := by
    rw [rail, F64.read_write exact]
  have tabs : uniqueMap (SplitTabLayout.ofJson floats)
      (mapToJson (SplitTabLayout.toJson floats) view.tabs) =
        if view.Apart then some view.tabs else none :=
    uniqueMap_mapToJson view.tabs written.keys written.room fun entry listed =>
      SplitTabLayout.ofJson_toJson (written.tabs entry listed)
  rw [toJson, ofJson]
  by_cases apart : view.Apart
  · rw [if_pos apart] at tabs ⊢
    simp [knows, required, defaulted, once, width_read, tabs, asU64_ofNat written.active,
      mapM_asU64 written.order]
  · rw [if_neg apart] at tabs ⊢
    simp [required, once, tabs]

/-- A layout is read as it was written, unless a member takes the name of a field. -/
theorem FullLayout.ofJson_toJson (written : layout.Written floats) :
    ofJson floats (layout.toJson floats) = if layout.Apart then some layout else none := by
  have root := SplitNode.ofJson_toJson layout.root written.leaves written.ratios
  have views : uniqueMap (ViewLayout.ofJson floats)
      (mapToJson (ViewLayout.toJson floats) layout.views) =
        if ∀ entry ∈ layout.views.toList, entry.2.Apart then some layout.views else none :=
    uniqueMap_mapToJson layout.views written.keys written.room fun entry listed =>
      ViewLayout.ofJson_toJson (written.views entry listed)
  rw [toJson, ofJson]
  by_cases apart : Workspace.Apart layoutFields layout.extra
  · have passed : ∀ name ∈ layoutFields,
        once name (layout.named floats ++ layout.extra) = once name (layout.named floats) :=
      fun name listed => once_append_of_not_mem (apart name listed)
    have own : ∀ member ∈ layout.named floats, member.1 ∈ layoutFields := fun member listed =>
      List.mem_map_of_mem listed
    simp only [required, passed "root" (by decide), passed "active_view_id" (by decide),
      passed "views" (by decide), passed "next_id" (by decide), passed "revision" (by decide),
      flattened_append layoutFields written.extra.distinct written.extra.maps own apart]
    by_cases inside : ∀ entry ∈ layout.views.toList, entry.2.Apart
    · rw [if_pos inside] at views
      rw [if_pos ⟨inside, apart⟩]
      simp [once, named, root, views, asU64_ofNat written.active, asU64_ofNat written.nextId,
        asU64_ofNat written.revision]
    · rw [if_neg inside] at views
      rw [if_neg fun both => inside both.1]
      simp [once, named, views]
  · rw [if_neg fun both => apart both.2]
    obtain ⟨name, field, listed⟩ : ∃ name ∈ layoutFields, name ∈ layout.extra.map Prod.fst := by
      by_contra none
      exact apart fun name field listed => none ⟨name, field, listed⟩
    have twice : once name (layout.named floats ++ layout.extra) = none :=
      once_append_of_mem field listed
    simp only [layoutFields, List.mem_cons, List.not_mem_nil, or_false] at field
    rcases field with rfl | rfl | rfl | rfl | rfl <;> simp [required, twice]

end Levels

/-! ## The text -/

variable {α : Type} {map : IdMap α}

section Text

variable {floats : Floats}

theorem plain_f64 {number : F64} (exact : F64.Exact floats number) :
    (number.toJson floats).Plain := by
  obtain ⟨value, rfl, exactly⟩ := exact
  exact exactly.1

theorem plain_text (text : Option String) : (ofText? text).Plain := by
  cases text <;> trivial

theorem depth_text (text : Option String) : (ofText? text).depth = 0 := by
  cases text <;> rfl

theorem depth_f64 (number : F64) : (number.toJson floats).depth = 0 := by
  cases number <;> rfl

theorem plain_mapToJson {write : α → Json} (each : ∀ entry ∈ map.toList, (write entry.2).Plain) :
    (mapToJson write map).Plain := by
  rw [mapToJson, Plain, plainMembers_iff]
  intro member listed
  obtain ⟨entry, stored, rfl⟩ := List.mem_map.mp listed
  exact each entry stored

theorem depth_mapToJson_le_iff {write : α → Json} {limit : Nat} :
    (mapToJson write map).depth ≤ limit + 1 ↔
      ∀ entry ∈ map.toList, (write entry.2).depth ≤ limit := by
  rw [mapToJson, depth, Nat.add_le_add_iff_right, depthMembers_le_iff]
  simp only [List.forall_mem_map]

theorem SplitNode.plain_toJson (node : SplitNode Nat)
    (exact : ∀ ratio ∈ node.ratios, F64.Exact floats ratio) : (node.toJson floats).Plain := by
  induction node with
  | leaf content => exact ⟨trivial, plain_ofNat content, trivial⟩
  | split horizontal ratio first second first_ih second_ih =>
      have before := first_ih fun ratio listed =>
        exact ratio (List.mem_cons_of_mem _ (List.mem_append_left _ listed))
      have after := second_ih fun ratio listed =>
        exact ratio (List.mem_cons_of_mem _ (List.mem_append_right _ listed))
      exact ⟨trivial, trivial, plain_f64 (exact ratio List.mem_cons_self), before, after, trivial⟩

/-- A tree that is not too deep is not written too deep. -/
theorem SplitNode.depth_toJson (floats : Floats) {node : SplitNode Nat} {level : Nat}
    {contents : List Nat} (collected : node.collect level = .ok contents) :
    (node.toJson floats).depth + level ≤ maxDepth + 1 := by
  induction node generalizing level contents with
  | leaf content =>
      unfold collect at collected
      split at collected
      · cases collected
      · rename_i within
        have one : ((leaf content).toJson floats).depth = 1 := rfl
        omega
  | split horizontal ratio first second first_ih second_ih =>
      unfold collect at collected
      split at collected
      · cases collected
      · rename_i within
        simp only [except_bind_eq_ok_iff] at collected
        obtain ⟨_, -, _, before, _, after, -⟩ := collected
        have first_le := first_ih before
        have second_le := second_ih after
        simp only [toJson, depth, depthMembers, depth_f64]
        omega

theorem SplitNode.finite_of_collect {node : SplitNode α} {level : Nat} {contents : List α}
    (collected : node.collect level = .ok contents) :
    ∀ ratio ∈ node.ratios, ∃ value, ratio = .finite value := by
  induction node generalizing level contents with
  | leaf content =>
      intro ratio listed
      cases listed
  | split horizontal ratio first second first_ih second_ih =>
      unfold collect at collected
      split at collected
      · cases collected
      · simp only [except_bind_eq_ok_iff] at collected
        obtain ⟨_, valid, _, before, _, after, -⟩ := collected
        intro other listed
        rcases List.mem_cons.mp listed with rfl | listed
        · cases other with
          | finite value => exact ⟨value, rfl⟩
          | nan => simp [validateRatio, F64.within] at valid
          | infinite negative => simp [validateRatio, F64.within] at valid
        · rcases List.mem_append.mp listed with listed | listed
          · exact first_ih before other listed
          · exact second_ih after other listed

namespace PaneState

theorem plain_toJson (pane : PaneState) (isMap : IsMap pane.extra) : pane.toJson.Plain := by
  rw [toJson, Plain, plainMembers_iff]
  intro member listed
  rcases List.mem_append.mp listed with listed | listed
  · have mode : pane.mode.toJson.Plain := by cases pane.mode <;> trivial
    simp only [named, List.mem_cons, List.not_mem_nil, or_false] at listed
    rcases listed with rfl | rfl | rfl | rfl | rfl | rfl | rfl | rfl
    all_goals first | exact plain_text _ | exact mode | trivial
  · exact plainMembers_iff.mp isMap.plain member listed

theorem depth_toJson_le_iff (pane : PaneState) {limit : Nat} :
    pane.toJson.depth ≤ limit + 1 ↔ ∀ member ∈ pane.extra, member.2.depth ≤ limit := by
  have flat : ∀ member ∈ pane.named, member.2.depth = 0 := by
    have mode : pane.mode.toJson.depth = 0 := by cases pane.mode <;> rfl
    simp [named, depth_text, mode, depth]
  rw [toJson, depth, Nat.add_le_add_iff_right, depthMembers_le_iff, List.forall_mem_append]
  exact and_iff_right fun member listed => by rw [flat member listed]; exact Nat.zero_le _

end PaneState

theorem SplitTabLayout.plain_toJson (written : tab.Written floats) : (tab.toJson floats).Plain :=
  ⟨tab.root.plain_toJson written.ratios, plain_ofNat _, plain_ofNat _,
    plain_mapToJson fun entry listed => entry.2.plain_toJson (written.panes entry listed), trivial⟩

theorem ViewLayout.plain_toJson (written : view.Written floats) : (view.toJson floats).Plain := by
  have placement : view.tabPlacement.toJson.Plain := by cases view.tabPlacement <;> trivial
  have order : (arr (view.tabOrder.map ofNat)).Plain := by
    rw [Plain, plainItems_iff]
    simp
  exact ⟨plain_f64 written.rail, placement, plain_ofNat _, order,
    plain_mapToJson fun entry listed => SplitTabLayout.plain_toJson (written.tabs entry listed),
    trivial⟩

theorem FullLayout.plain_toJson (written : layout.Written floats) :
    (layout.toJson floats).Plain := by
  rw [toJson, Plain, plainMembers_iff, List.forall_mem_append]
  refine ⟨?_, plainMembers_iff.mp written.extra.plain⟩
  rw [← plainMembers_iff]
  exact ⟨layout.root.plain_toJson written.ratios, plain_ofNat _,
    plain_mapToJson fun entry listed => ViewLayout.plain_toJson (written.views entry listed),
    plain_ofNat _, plain_ofNat _, trivial⟩

/-- The values of a pane's own members are nested no deeper than a document has room for, seven
levels down. -/
def PaneState.Shallow (pane : PaneState) : Prop :=
  ∀ member ∈ pane.extra, member.2.depth ≤ depthLimit - 7

def SplitTabLayout.Shallow (tab : SplitTabLayout) : Prop :=
  ∀ entry ∈ tab.panes.toList, entry.2.Shallow

def ViewLayout.Shallow (view : ViewLayout) : Prop :=
  ∀ entry ∈ view.tabs.toList, entry.2.Shallow

def FullLayout.Shallow (layout : FullLayout) : Prop :=
  (∀ entry ∈ layout.views.toList, entry.2.Shallow) ∧
    ∀ member ∈ layout.extra, member.2.depth ≤ depthLimit - 1

/-- The trees of a tab are no deeper than validation allows. -/
def SplitTabLayout.Low (tab : SplitTabLayout) : Prop :=
  ∃ contents, tab.root.collect 0 = .ok contents

theorem SplitTabLayout.depth_toJson_le_iff (low : tab.Low) :
    (tab.toJson floats).depth ≤ depthLimit - 4 ↔ tab.Shallow := by
  obtain ⟨contents, collected⟩ := low
  have root := SplitNode.depth_toJson floats collected
  have panes : (mapToJson PaneState.toJson tab.panes).depth ≤ depthLimit - 6 + 1 ↔ tab.Shallow := by
    rw [depth_mapToJson_le_iff]
    exact forall₂_congr fun entry _ => entry.2.depth_toJson_le_iff
  rw [← panes]
  simp only [toJson, depth, depthMembers, depth_ofNat, depthLimit, maxDepth] at root ⊢
  omega

theorem ViewLayout.depth_toJson_le_iff (low : ∀ entry ∈ view.tabs.toList, entry.2.Low) :
    (view.toJson floats).depth ≤ depthLimit - 2 ↔ view.Shallow := by
  have order : depthItems (view.tabOrder.map ofNat) ≤ 0 := by
    rw [depthItems_le_iff]
    simp
  have placement : view.tabPlacement.toJson.depth = 0 := by cases view.tabPlacement <;> rfl
  have tabs : (mapToJson (SplitTabLayout.toJson floats) view.tabs).depth ≤ depthLimit - 4 + 1 ↔
      view.Shallow := by
    rw [depth_mapToJson_le_iff]
    exact forall₂_congr fun entry listed => SplitTabLayout.depth_toJson_le_iff (low entry listed)
  rw [← tabs]
  simp only [toJson, depth, depthMembers, depth_ofNat, depth_f64, depthLimit]
  omega

theorem FullLayout.depth_toJson_le_iff {contents : List ViewId}
    (collected : layout.root.collect 0 = .ok contents)
    (low : ∀ entry ∈ layout.views.toList, ∀ tab ∈ entry.2.tabs.toList, tab.2.Low) :
    (layout.toJson floats).depth ≤ depthLimit ↔ layout.Shallow := by
  have root := SplitNode.depth_toJson floats collected
  have views : (mapToJson (ViewLayout.toJson floats) layout.views).depth ≤ depthLimit - 2 + 1 ↔
      ∀ entry ∈ layout.views.toList, entry.2.Shallow := by
    rw [depth_mapToJson_le_iff]
    exact forall₂_congr fun entry listed => ViewLayout.depth_toJson_le_iff (low entry listed)
  have fields : (∀ member ∈ layout.named floats, member.2.depth ≤ depthLimit - 1) ↔
      ∀ entry ∈ layout.views.toList, entry.2.Shallow := by
    rw [← views]
    simp only [named, depthLimit, maxDepth] at root ⊢
    simp
    omega
  rw [Shallow, ← fields, ← List.forall_mem_append, ← depthMembers_le_iff]
  exact Nat.add_le_add_iff_right (k := depthLimit - 1) (n := 1)

end Text

/-! ## Layouts that are saved -/

/-- The numbers of a layout: where its trees are split, and how wide its rails are. -/
def WorkspaceLayout.numbers (layout : WorkspaceLayout) : List F64 :=
  layout.root.ratios ++ layout.views.toList.flatMap fun view =>
    view.2.railWidth :: view.2.tabs.toList.flatMap fun tab => tab.2.root.ratios

/-- What the types of the program promise: its counters fit, and its maps are maps. -/
structure FullLayout.Typed (layout : FullLayout) : Prop where
  nextId : layout.nextId < 2 ^ 64
  revision : layout.revision < 2 ^ 64
  panes : ∀ view ∈ layout.views.toList, ∀ tab ∈ view.2.tabs.toList, ∀ pane ∈ tab.2.panes.toList,
    IsMap pane.2.extra
  extra : IsMap layout.extra

/-- What the validation of a tab guarantees. -/
structure SplitTabLayout.Valid (tab : SplitTabLayout) : Prop where
  room : tab.panes.size ≤ maxPanes
  tree : reachable tab.root tab.panes = .ok ()
  active : tab.activePaneId ∈ tab.panes
  primary : tab.primaryPaneId ∈ tab.panes

/-- What the validation of a view guarantees. -/
structure ViewLayout.Valid (view : ViewLayout) : Prop where
  rail : ∃ width, view.railWidth = .finite width
  order : ∀ tab ∈ view.tabOrder, tab ∈ view.tabs
  room : view.tabs.size ≤ maxPanes
  active : view.activeTabId ∈ view.tabs
  tabs : ∀ entry ∈ view.tabs.toList, entry.2.Valid

theorem validateTab_valid {seen next : List Nat × Nat} {entry : TabId × SplitTabLayout}
    (passed : validateTab seen entry = .ok next) : entry.2.Valid := by
  unfold validateTab at passed
  simp only [except_bind_eq_ok_iff, check_eq_ok_iff, Bool.and_eq_true, decide_eq_true_iff] at passed
  obtain ⟨_, -, _, -, _, room, _, tree, _, present, -⟩ := passed
  exact ⟨(Nat.le_add_left _ _).trans room, tree, present.1, present.2⟩

theorem foldlM_validateTab_valid {items : List (TabId × SplitTabLayout)}
    {seen next : List Nat × Nat} (ran : items.foldlM validateTab seen = .ok next) :
    ∀ entry ∈ items, entry.2.Valid := by
  have one : ∀ seen next entry, validateTab seen entry = .ok next →
      (next.1 = (tabIds entry).reverse ++ seen.1 ∧ (seen.1.Nodup → next.1.Nodup)) ∧
        entry.2.Valid :=
    fun _ _ _ passed => ⟨(validateTab_eq_ok passed).1, validateTab_valid passed⟩
  exact (foldlM_validate one ran).2

theorem validateView_valid {seen next : List Nat × Nat × Nat} {entry : ViewId × ViewLayout}
    (passed : validateView seen entry = .ok next) : entry.2.Valid := by
  unfold validateView at passed
  simp only [except_bind_eq_ok_iff, check_eq_ok_iff, Bool.and_eq_true, decide_eq_true_iff] at passed
  obtain ⟨_, -, _, rail, _, -, _, order, _, room, _, active, state, tabs, -⟩ := passed
  refine ⟨?_, ?_, ?_, active, foldlM_validateTab_valid tabs⟩
  · cases width : entry.2.railWidth with
    | finite value => exact ⟨value, rfl⟩
    | nan => simp [width, F64.within] at rail
    | infinite negative => simp [width, F64.within] at rail
  · intro tab listed
    have ordered : entry.2.orderedTabs = entry.2.tabOrder := by
      rw [ViewLayout.orderedTabs, if_neg (by simpa using List.ne_nil_of_mem listed)]
    have inside := List.all_eq_true.mp order.1.2 tab (by rwa [ordered])
    exact Std.ExtTreeMap.contains_iff_mem.mp inside
  · have : maxTabs ≤ maxPanes := by decide
    omega

theorem foldlM_validateView_valid {items : List (ViewId × ViewLayout)}
    {seen next : List Nat × Nat × Nat} (ran : items.foldlM validateView seen = .ok next) :
    ∀ entry ∈ items, entry.2.Valid := by
  have one : ∀ seen next entry, validateView seen entry = .ok next →
      (next.1 = (viewIds entry).reverse ++ seen.1 ∧ (seen.1.Nodup → next.1.Nodup)) ∧
        entry.2.Valid :=
    fun _ _ _ passed => ⟨(validateView_eq_ok passed).1, validateView_valid passed⟩
  exact (foldlM_validate one ran).2

namespace WorkspaceLayout

variable {layout : WorkspaceLayout}

/-- What validation guarantees of a whole layout. -/
structure Checked (layout : WorkspaceLayout) : Prop where
  active : layout.activeViewId ∈ layout.views
  room : layout.views.size ≤ maxPanes
  tree : reachable layout.root layout.views = .ok ()
  views : ∀ entry ∈ layout.views.toList, entry.2.Valid

theorem Valid.checked (valid : layout.Valid) : layout.Checked := by
  unfold Valid validate at valid
  simp only [except_bind_eq_ok_iff, check_eq_ok_iff, decide_eq_true_iff] at valid
  obtain ⟨_, -, _, room, _, active, _, tree, ⟨seen, tabs, panes⟩, ran, -⟩ := valid
  have views_le : maxViews ≤ maxPanes := by decide
  exact ⟨active, room.trans views_le, tree, foldlM_validateView_valid ran⟩

theorem mem_ids_of_tab_entry {view : ViewId × ViewLayout} {tab : TabId × SplitTabLayout}
    (view_mem : view ∈ layout.views.toList) (tab_mem : tab ∈ view.2.tabs.toList) {id : Nat}
    (listed : id ∈ tabIds tab) : id ∈ layout.ids :=
  List.mem_flatMap.mpr
    ⟨view, view_mem, List.mem_cons_of_mem _ (List.mem_flatMap.mpr ⟨tab, tab_mem, listed⟩)⟩

end WorkspaceLayout

theorem key_mem_of_mem_toList {entry : Nat × α} (listed : entry ∈ map.toList) : entry.1 ∈ map := by
  rw [← Std.ExtTreeMap.mem_keys, ← Std.ExtTreeMap.map_fst_toList_eq_keys]
  exact List.mem_map_of_mem listed

theorem exists_entry_of_mem {key : Nat} (inside : key ∈ map) :
    ∃ value, (key, value) ∈ map.toList := by
  rw [← Std.ExtTreeMap.mem_keys, ← Std.ExtTreeMap.map_fst_toList_eq_keys] at inside
  obtain ⟨⟨_, value⟩, listed, rfl⟩ := List.mem_map.mp inside
  exact ⟨value, listed⟩

theorem exists_collect_of_reachable {root : SplitNode Nat} (tree : reachable root map = .ok ()) :
    ∃ contents, root.collect 0 = .ok contents := by
  obtain ⟨contents, collected, -⟩ := except_bind_eq_ok_iff.mp tree
  exact ⟨contents, collected⟩

variable {loaded : FullLayout} {wire : List UInt8 → Option WireLayout}

namespace FullLayout

variable {floats : Floats} {layout : FullLayout}

/-- A valid layout is one that can be written. -/
theorem written (valid : layout.Valid) (typed : layout.Typed)
    (exact : ∀ value, .finite value ∈ layout.numbers → floats.Exact value) :
    layout.Written floats := by
  have sound := valid.sound
  have checked := valid.checked
  have bounded : ∀ id ∈ layout.ids, id < 2 ^ 64 := fun id listed =>
    (sound.below id listed).trans typed.nextId
  have exactly {ratio : F64} (finite : ∃ value, ratio = .finite value)
      (listed : ratio ∈ layout.numbers) : F64.Exact floats ratio := by
    obtain ⟨value, rfl⟩ := finite
    exact ⟨value, rfl, exact value listed⟩
  have view_id {key : ViewId} (inside : key ∈ layout.views) : key ∈ layout.ids := by
    obtain ⟨view, listed⟩ := exists_entry_of_mem inside
    exact List.mem_flatMap.mpr ⟨_, listed, List.mem_cons_self⟩
  obtain ⟨contents, collected⟩ := exists_collect_of_reachable checked.tree
  refine ⟨?_, ?_, bounded _ (view_id checked.active), ?_, checked.room, typed.nextId,
    typed.revision, ?_, typed.extra⟩
  · intro leaf listed
    exact bounded leaf (view_id ((mem_leaves_iff_of_reachable checked.tree leaf).mp listed))
  · intro ratio listed
    exact exactly (SplitNode.finite_of_collect collected ratio listed)
      (List.mem_append_left _ listed)
  · intro entry listed
    exact bounded entry.1 (view_id (key_mem_of_mem_toList listed))
  · intro view view_mem
    have view_valid := checked.views view view_mem
    have tab_id {key : TabId} (inside : key ∈ view.2.tabs) : key ∈ layout.ids := by
      obtain ⟨tab, listed⟩ := exists_entry_of_mem inside
      exact layout.mem_ids_of_tab_entry view_mem listed List.mem_cons_self
    have numbers {number : F64} (listed : number ∈ view.2.railWidth ::
        view.2.tabs.toList.flatMap fun tab => tab.2.root.ratios) : number ∈ layout.numbers :=
      List.mem_append_right _ (List.mem_flatMap.mpr ⟨view, view_mem, listed⟩)
    refine ⟨exactly view_valid.rail (numbers List.mem_cons_self),
      bounded _ (tab_id view_valid.active), ?_, ?_, view_valid.room, ?_⟩
    · intro tab listed
      exact bounded tab (tab_id (view_valid.order tab listed))
    · intro entry listed
      exact bounded entry.1 (tab_id (key_mem_of_mem_toList listed))
    · intro tab tab_mem
      have tab_valid := view_valid.tabs tab tab_mem
      have pane_id {key : PaneId} (inside : key ∈ tab.2.panes) : key ∈ layout.ids :=
        layout.mem_ids_of_tab_entry view_mem tab_mem
          (List.mem_cons_of_mem _ (Std.ExtTreeMap.mem_keys.mpr inside))
      obtain ⟨contents, collected⟩ := exists_collect_of_reachable tab_valid.tree
      refine ⟨?_, ?_, bounded _ (pane_id tab_valid.active), bounded _ (pane_id tab_valid.primary),
        ?_, tab_valid.room, typed.panes view view_mem tab tab_mem⟩
      · intro leaf listed
        exact bounded leaf (pane_id ((mem_leaves_iff_of_reachable tab_valid.tree leaf).mp listed))
      · intro ratio listed
        exact exactly (SplitNode.finite_of_collect collected ratio listed)
          (numbers (List.mem_cons_of_mem _ (List.mem_flatMap.mpr ⟨tab, tab_mem, listed⟩)))
      · intro entry listed
        exact bounded entry.1 (pane_id (key_mem_of_mem_toList listed))

variable {file : List UInt8}

theorem save_eq_ok_iff :
    layout.save floats = .ok file ↔
      layout.Valid ∧ file = toVecPretty (layout.toJson floats) ∧ file.length ≤ maxFileBytes := by
  unfold save WorkspaceLayout.Valid
  cases layout.validate with
  | error error => simp [Except.mapError, bind, Except.bind]
  | ok done =>
      simp only [Except.mapError, except_bind_eq_ok_iff, check_eq_ok_iff, decide_eq_true_iff]
      constructor
      · rintro ⟨_, -, _, small, ended⟩
        cases ended
        exact ⟨trivial, rfl, small⟩
      · rintro ⟨-, rfl, small⟩
        exact ⟨(), trivial, (), small, rfl⟩

theorem mapError_eq_ok_iff {ε ε' : Type} {change : ε → ε'} {made : Except ε α} {value : α} :
    made.mapError change = .ok value ↔ made = .ok value := by
  cases made <;> simp [Except.mapError]

theorem intoLayout_reject_eq_ok_iff {read : WireLayout} :
    read.intoLayout .reject = .ok loaded ↔ read = loaded ∧ loaded.Valid := by
  simp only [intoLayout, except_bind_eq_ok_iff]
  constructor
  · rintro ⟨_, same, _, valid, ended⟩
    cases same
    cases ended
    exact ⟨rfl, valid⟩
  · rintro ⟨rfl, valid⟩
    exact ⟨read, rfl, (), valid, rfl⟩

theorem intoLayout_repair_eq_ok_iff {read : WireLayout} :
    read.intoLayout .repair = .ok loaded ↔
      read.ids.max?.getD 0 + 1 < u64Size ∧
        { read with nextId := max read.nextId (read.ids.max?.getD 0 + 1) } = loaded ∧
        loaded.Valid := by
  simp only [intoLayout, repaired, except_bind_eq_ok_iff, check_eq_ok_iff, decide_eq_true_iff]
  constructor
  · rintro ⟨_, ⟨_, room, made⟩, _, valid, ended⟩
    cases made
    cases ended
    exact ⟨room, rfl, valid⟩
  · rintro ⟨room, rfl, valid⟩
    exact ⟨_, ⟨(), room, rfl⟩, (), valid, rfl⟩

theorem load_eq_ok_iff {policy : IdPolicy} :
    load wire policy file = .ok loaded ↔
      file.length ≤ maxFileBytes ∧
        ∃ read, wire file = some read ∧ read.intoLayout policy = .ok loaded := by
  unfold load
  simp only [except_bind_eq_ok_iff, check_eq_ok_iff, decide_eq_true_iff, exists_and_left]
  refine and_congr_right fun _ => ?_
  cases wire file with
  | none => simp
  | some read => simp [mapError_eq_ok_iff]

theorem load_reject_eq_ok_iff :
    load wire .reject file = .ok loaded ↔
      file.length ≤ maxFileBytes ∧ wire file = some loaded ∧ loaded.Valid := by
  rw [load_eq_ok_iff]
  refine and_congr_right fun _ => ?_
  constructor
  · rintro ⟨read, found, made⟩
    obtain ⟨rfl, valid⟩ := intoLayout_reject_eq_ok_iff.mp made
    exact ⟨found, valid⟩
  · rintro ⟨found, valid⟩
    exact ⟨loaded, found, intoLayout_reject_eq_ok_iff.mpr ⟨rfl, valid⟩⟩

end FullLayout

/-! ## Loading what was saved -/

namespace FullLayout

variable {floats : Floats} {layout : FullLayout} {file : List UInt8}

/-- A saved file is read as the layout, unless a member of its own takes the name of a field or is
nested too deep: then nothing is read. -/
theorem load_save (typed : layout.Typed)
    (exact : ∀ value, .finite value ∈ layout.numbers → floats.Exact value)
    (saved : layout.save floats = .ok file) :
    load (ofBytes floats) .reject file = .ok loaded ↔
      loaded = layout ∧ layout.Apart ∧ layout.Shallow := by
  obtain ⟨valid, rfl, small⟩ := save_eq_ok_iff.mp saved
  have written := written valid typed exact
  obtain ⟨contents, collected⟩ := exists_collect_of_reachable valid.checked.tree
  have low : ∀ entry ∈ layout.views.toList, ∀ tab ∈ entry.2.tabs.toList, tab.2.Low :=
    fun entry listed tab inside =>
      exists_collect_of_reachable ((valid.checked.views entry listed).tabs tab inside).tree
  rw [load_reject_eq_ok_iff, ofBytes, fromSlice_toVecPretty (plain_toJson written)]
  constructor
  · rintro ⟨-, found, -⟩
    obtain ⟨doc, read, found⟩ := Option.bind_eq_some_iff.mp found
    split_ifs at read with shallow
    cases read
    rw [ofJson_toJson written] at found
    split_ifs at found with apart
    exact ⟨(Option.some.inj found).symm, apart, (depth_toJson_le_iff collected low).mp shallow⟩
  · rintro ⟨rfl, apart, shallow⟩
    refine ⟨small, ?_, valid⟩
    rw [if_pos ((depth_toJson_le_iff collected low).mpr shallow), Option.bind_some,
      ofJson_toJson written, if_pos apart]

/-! ## Repair -/

/-- A valid layout needs no repair. -/
theorem max_ids_lt (valid : layout.Valid) : layout.ids.max?.getD 0 < layout.nextId := by
  obtain ⟨view, listed⟩ := exists_entry_of_mem valid.checked.active
  have some_id : layout.activeViewId ∈ layout.ids :=
    List.mem_flatMap.mpr ⟨_, listed, List.mem_cons_self⟩
  obtain ⟨top, top_eq⟩ := Option.isSome_iff_exists.mp (List.isSome_max?_of_mem some_id)
  rw [top_eq]
  exact valid.sound.below top (List.max?_mem top_eq)

/-- `Repair` gives what `Reject` gives, and where `Reject` gives nothing, what stands in the file
with a larger `next_id`. -/
def RepairKeeps (wire : List UInt8 → Option WireLayout) (file : List UInt8) : Prop :=
  (∀ loaded, load wire .reject file = .ok loaded → load wire .repair file = .ok loaded) ∧
    ∀ repaired, load wire .repair file = .ok repaired →
      load wire .reject file = .ok repaired ∨
        ∃ read, wire file = some read ∧ read.nextId < repaired.nextId ∧
          repaired = { read with nextId := repaired.nextId }

theorem repairKeeps (counted : ∀ read, wire file = some read → read.nextId < u64Size) :
    RepairKeeps wire file := by
  constructor
  · intro loaded accepted
    obtain ⟨small, found, valid⟩ := load_reject_eq_ok_iff.mp accepted
    have least := max_ids_lt valid
    have same : max loaded.nextId (loaded.ids.max?.getD 0 + 1) = loaded.nextId :=
      max_eq_left least
    refine load_eq_ok_iff.mpr ⟨small, loaded, found, intoLayout_repair_eq_ok_iff.mpr
      ⟨lt_of_le_of_lt least (counted _ found), ?_, valid⟩⟩
    rw [same]
  · intro repaired accepted
    obtain ⟨small, read, found, made⟩ := load_eq_ok_iff.mp accepted
    obtain ⟨-, rfl, valid⟩ := intoLayout_repair_eq_ok_iff.mp made
    rcases le_or_gt (read.ids.max?.getD 0 + 1) read.nextId with enough | stale
    · left
      rw [max_eq_left enough] at valid ⊢
      exact load_reject_eq_ok_iff.mpr ⟨small, found, valid⟩
    · exact Or.inr ⟨read, found, lt_max_of_lt_right stale, rfl⟩

end FullLayout

/-! ## Layouts of one pane -/

/-- Whole numbers as `f64`s. -/
def wholeFloats : Floats where
  write value := toString value.num ++ ".0"
  read literal := some (Nat.ofDigitChars 10 (literal.toList.takeWhile isDigit) 0)

/-- A layout of one pane. -/
def onePane (pane : PaneState) : FullLayout :=
  { WorkspaceLayout.new with views := .insert ∅ 1 (.single 2 3 pane) }

theorem toList_single (key : Nat) (value : α) :
    (Std.ExtTreeMap.insert (∅ : IdMap α) key value).toList = [(key, value)] :=
  rfl

theorem wholeFloats_exact : wholeFloats.Exact 240 := by
  refine ⟨⟨List.all_eq_true.mp ?_, ?_, ?_⟩, ?_⟩ <;> decide +kernel

theorem forall_onePane {pane : PaneState} (fine : PaneState → Prop) (each : fine pane) :
    ∀ view ∈ (onePane pane).views.toList, ∀ tab ∈ view.2.tabs.toList,
      ∀ stored ∈ tab.2.panes.toList, fine stored.2 := by
  intro view view_mem tab tab_mem stored stored_mem
  obtain rfl := List.mem_singleton.mp (view_mem : view ∈ [(1, ViewLayout.single 2 3 pane)])
  obtain rfl := List.mem_singleton.mp (tab_mem : tab ∈ [(2, SplitTabLayout.single 3 pane)])
  obtain rfl := List.mem_singleton.mp (stored_mem : stored ∈ [(3, pane)])
  exact each

theorem typed_onePane {pane : PaneState} (isMap : IsMap pane.extra) : (onePane pane).Typed where
  nextId := show 4 < 2 ^ 64 by decide
  revision := show 0 < 2 ^ 64 by decide
  panes := forall_onePane (fun pane => IsMap pane.extra) isMap
  extra := ⟨List.nodup_nil, trivial, trivial⟩

theorem exact_onePane (pane : PaneState) :
    ∀ value, .finite value ∈ (onePane pane).numbers → wholeFloats.Exact value := by
  intro value listed
  have same : value = 240 := by
    simpa [WorkspaceLayout.numbers, onePane, WorkspaceLayout.new, ViewLayout.single,
      SplitTabLayout.single, SplitNode.ratios, toList_single] using listed
  rw [same]
  exact wholeFloats_exact

theorem save_onePane {pane : PaneState} (valid : (onePane pane).validate = .ok ())
    (small : (toVecPretty ((onePane pane).toJson wholeFloats)).length ≤ maxFileBytes) :
    ∃ file, (onePane pane).save wholeFloats = .ok file :=
  ⟨_, FullLayout.save_eq_ok_iff.mpr ⟨valid, rfl, small⟩⟩

/-- A pane with two members of its own, in the order they came in. -/
def tagged (name : String) : PaneState :=
  { extra := [("worktree", .str "x"), (name, .str "y")] }

theorem isMap_tagged {name : String} (other : "worktree" ≠ name) : IsMap (tagged name).extra :=
  ⟨by simpa [tagged, Distinct] using other, ⟨trivial, trivial, trivial⟩,
    ⟨trivial, trivial, trivial⟩⟩

theorem save_tagged_label : ∃ file, (onePane (tagged "label")).save wholeFloats = .ok file :=
  save_onePane (by decide +kernel) (by decide +kernel)

theorem save_tagged_uuid : ∃ file, (onePane (tagged "tab_uuid")).save wholeFloats = .ok file :=
  save_onePane (by decide +kernel) (by decide +kernel)

/-! ## The file of a layout -/

/-- A saved file loads back as the layout it was made from exactly when no member that has no field
of its own stands under the name of a field beside it, and none is nested deeper than a document
has room for; nothing else is ever read from it.  Repair changes nothing but a stale counter, of
any file. -/
theorem loads_back_iff (floats : Floats) {layout : FullLayout} {file : List UInt8}
    (typed : layout.Typed) (exact : ∀ value, .finite value ∈ layout.numbers → floats.Exact value)
    (saved : layout.save floats = .ok file) :
    ((FullLayout.load (FullLayout.ofBytes floats) .reject file = .ok layout ∧
      ∀ (wire : List UInt8 → Option WireLayout),
        (∀ bytes read, wire bytes = some read → read.nextId < u64Size) →
          ∀ bytes, FullLayout.RepairKeeps wire bytes) ↔
      layout.Apart ∧ layout.Shallow) ∧
    ∀ loaded, FullLayout.load (FullLayout.ofBytes floats) .reject file = .ok loaded →
      loaded = layout := by
  refine ⟨?_, fun loaded found => ((FullLayout.load_save typed exact saved).mp found).1⟩
  rw [FullLayout.load_save typed exact saved, eq_self, true_and]
  exact and_iff_left fun wire counted bytes => FullLayout.repairKeeps (counted bytes)

theorem loads_back_iff_uuid :
    ∃ file, (onePane (tagged "tab_uuid")).save wholeFloats = .ok file ∧
      FullLayout.load (FullLayout.ofBytes wholeFloats) .reject file =
        .ok (onePane (tagged "tab_uuid")) := by
  obtain ⟨file, saved⟩ := save_tagged_uuid
  have apart : (tagged "tab_uuid").Apart := by decide
  have shallow : (tagged "tab_uuid").Shallow := by
    intro member listed
    simp only [tagged, List.mem_cons, List.not_mem_nil, or_false] at listed
    rcases listed with rfl | rfl <;> exact Nat.zero_le _
  exact ⟨file, saved, ((loads_back_iff wholeFloats (typed_onePane (isMap_tagged (by decide)))
    (exact_onePane _) saved).1.mpr
      ⟨⟨forall_onePane PaneState.Apart apart, by decide⟩,
        forall_onePane PaneState.Shallow shallow, nofun⟩).1⟩

/-- A layout that is saved, and whose file cannot be loaded. -/
theorem saved_layout_is_lost :
    ∃ file, (onePane (tagged "label")).save wholeFloats = .ok file ∧
      FullLayout.load (FullLayout.ofBytes wholeFloats) .reject file ≠
        .ok (onePane (tagged "label")) := by
  obtain ⟨file, saved⟩ := save_tagged_label
  refine ⟨file, saved, fun loaded => ?_⟩
  obtain ⟨-, ⟨apart, -⟩, -⟩ := (FullLayout.load_save (typed_onePane (isMap_tagged (by decide)))
    (exact_onePane _) saved).mp loaded
  have pane := apart _ List.mem_cons_self _ List.mem_cons_self _ List.mem_cons_self
  exact absurd pane (by decide)

end Zeron.Workspace
