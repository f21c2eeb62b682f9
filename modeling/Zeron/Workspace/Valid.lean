import Mathlib.Data.List.Dedup
import Mathlib.Data.List.Pairwise
import Zeron.Workspace.Layout

/-!
# What validation guarantees

A layout that passes `validate` gives every view, tab and pane an id of its
own, below `next_id`, and the leaves of each tab's tree are its panes.  So a
pane has one place, and the lookups find it there.
-/

namespace Zeron.Workspace

open Zeron.Data
open Zeron.Transition

variable {α : Type}

theorem uniqueId_eq_ok_iff {ids next : List Nat} {id : Nat} :
    uniqueId ids id = .ok next ↔ (id ≠ 0 ∧ id ∉ ids) ∧ next = id :: ids := by
  unfold uniqueId
  split
  · rename_i bad
    exact iff_of_false nofun fun ⟨⟨nonzero, new⟩, _⟩ => bad.elim nonzero new
  · rename_i fine
    rw [not_or] at fine
    rw [and_iff_right fine, Except.ok.injEq, eq_comm]

theorem foldlM_uniqueId {items ids next : List Nat} (ran : items.foldlM uniqueId ids = .ok next) :
    next = items.reverse ++ ids ∧ (ids.Nodup → next.Nodup) := by
  refine foldlM_induction
    (fun done state => state = done.reverse ++ ids ∧ (ids.Nodup → state.Nodup))
    ⟨rfl, id⟩ ?_ ran
  rintro done item state next - ⟨rfl, distinct⟩ stepped
  obtain ⟨⟨-, new⟩, rfl⟩ := uniqueId_eq_ok_iff.mp stepped
  exact ⟨by simp, fun start => List.nodup_cons.mpr ⟨new, distinct start⟩⟩

theorem mem_leaves_iff_of_reachable {root : SplitNode Nat} {map : IdMap α}
    (passed : reachable root map = .ok ()) (id : Nat) : id ∈ root.leaves ↔ id ∈ map := by
  obtain ⟨leaves, collected, checked⟩ := except_bind_eq_ok_iff.mp passed
  obtain rfl := SplitNode.leaves_of_collect collected
  simp only [check_eq_ok_iff, Bool.and_eq_true, decide_eq_true_iff, List.all_eq_true] at checked
  obtain ⟨⟨distinct, count⟩, inside⟩ := checked
  have keyed : ∀ leaf ∈ root.leaves.dedup, leaf ∈ map.keys := fun leaf listed =>
    Std.ExtTreeMap.mem_keys.mpr (inside leaf (List.mem_dedup.mp listed))
  have same : root.leaves.dedup.Perm map.keys :=
    (List.subperm_of_subset (List.nodup_dedup _) keyed).perm_of_length_le
      (by rw [Std.ExtTreeMap.length_keys, count])
  rw [← List.mem_dedup, same.mem_iff, Std.ExtTreeMap.mem_keys]

/-- In a list without repetition, each item stands in one part only. -/
theorem eq_of_nodup_flatMap {β : Type} {parts : List α} (items : α → List β)
    (distinct : (parts.flatMap items).Nodup) {first second : α} {item : β}
    (first_mem : first ∈ parts) (second_mem : second ∈ parts) (in_first : item ∈ items first)
    (in_second : item ∈ items second) : first = second := by
  by_contra different
  have symm : Std.Symm (Function.onFun List.Disjoint items) := ⟨fun _ _ disjoint => disjoint.symm⟩
  have disjoint := (List.nodup_flatMap.mp distinct).2.forall first_mem second_mem different
  exact disjoint in_first in_second

/-- The ids of a tab, in the order in which they are checked. -/
def tabIds (entry : TabId × SplitTabLayout) : List Nat :=
  entry.1 :: entry.2.panes.keys

def viewIds (entry : ViewId × ViewLayout) : List Nat :=
  entry.1 :: entry.2.tabs.toList.flatMap tabIds

/-- Entries that are validated one after the other add their ids. -/
theorem foldlM_validate {α β ε : Type} {ids : α → List Nat} {fine : α → Prop}
    {validate : List Nat × β → α → Except ε (List Nat × β)}
    (one : ∀ seen next entry, validate seen entry = .ok next →
      (next.1 = (ids entry).reverse ++ seen.1 ∧ (seen.1.Nodup → next.1.Nodup)) ∧ fine entry)
    {items : List α} {seen next : List Nat × β} (ran : items.foldlM validate seen = .ok next) :
    (next.1 = (items.flatMap ids).reverse ++ seen.1 ∧ (seen.1.Nodup → next.1.Nodup)) ∧
      ∀ entry ∈ items, fine entry := by
  refine foldlM_induction
    (fun done state =>
      (state.1 = (done.flatMap ids).reverse ++ seen.1 ∧ (seen.1.Nodup → state.1.Nodup)) ∧
        ∀ entry ∈ done, fine entry)
    ⟨⟨rfl, id⟩, nofun⟩ ?_ ran
  rintro done item state next - ⟨⟨same, distinct⟩, before⟩ stepped
  obtain ⟨⟨nextSame, nextDistinct⟩, last⟩ := one _ _ _ stepped
  refine ⟨⟨?_, fun start => nextDistinct (distinct start)⟩, ?_⟩
  · rw [nextSame, same]
    simp
  · intro entry listed
    rcases List.mem_append.mp listed with earlier | here
    · exact before entry earlier
    · rw [List.mem_singleton.mp here]
      exact last

theorem validateTab_eq_ok {seen next : List Nat × Nat} {entry : TabId × SplitTabLayout}
    (passed : validateTab seen entry = .ok next) :
    (next.1 = (tabIds entry).reverse ++ seen.1 ∧ (seen.1.Nodup → next.1.Nodup)) ∧
      reachable entry.2.root entry.2.panes = .ok () := by
  unfold validateTab at passed
  simp only [except_bind_eq_ok_iff] at passed
  obtain ⟨_, unique, _, -, _, -, _, leaves, _, -, ids, rest, ended⟩ := passed
  cases ended
  obtain ⟨⟨-, new⟩, rfl⟩ := uniqueId_eq_ok_iff.mp unique
  obtain ⟨rfl, distinct⟩ := foldlM_uniqueId rest
  exact ⟨⟨by simp [tabIds], fun start => distinct (List.nodup_cons.mpr ⟨new, start⟩)⟩, leaves⟩

theorem foldlM_validateTab {items : List (TabId × SplitTabLayout)} {seen next : List Nat × Nat}
    (ran : items.foldlM validateTab seen = .ok next) :
    (next.1 = (items.flatMap tabIds).reverse ++ seen.1 ∧ (seen.1.Nodup → next.1.Nodup)) ∧
      ∀ entry ∈ items, reachable entry.2.root entry.2.panes = .ok () := by
  apply foldlM_validate _ ran
  exact fun _ _ _ => validateTab_eq_ok

theorem validateView_eq_ok {seen next : List Nat × Nat × Nat} {entry : ViewId × ViewLayout}
    (passed : validateView seen entry = .ok next) :
    (next.1 = (viewIds entry).reverse ++ seen.1 ∧ (seen.1.Nodup → next.1.Nodup)) ∧
      ∀ tab ∈ entry.2.tabs.toList, reachable tab.2.root tab.2.panes = .ok () := by
  unfold validateView at passed
  simp only [except_bind_eq_ok_iff] at passed
  obtain ⟨_, unique, _, -, _, -, _, -, _, -, _, -, state, rest, ended⟩ := passed
  cases ended
  obtain ⟨⟨-, new⟩, rfl⟩ := uniqueId_eq_ok_iff.mp unique
  obtain ⟨⟨same, distinct⟩, leaves⟩ := foldlM_validateTab rest
  refine ⟨⟨?_, fun start => distinct (List.nodup_cons.mpr ⟨new, start⟩)⟩, leaves⟩
  rw [same]
  simp [viewIds]

theorem foldlM_validateView {items : List (ViewId × ViewLayout)}
    {seen next : List Nat × Nat × Nat} (ran : items.foldlM validateView seen = .ok next) :
    (next.1 = (items.flatMap viewIds).reverse ++ seen.1 ∧ (seen.1.Nodup → next.1.Nodup)) ∧
      ∀ entry ∈ items, ∀ tab ∈ entry.2.tabs.toList,
        reachable tab.2.root tab.2.panes = .ok () := by
  apply foldlM_validate _ ran
  exact fun _ _ _ => validateView_eq_ok

namespace WorkspaceLayout

variable {layout : WorkspaceLayout} {view : ViewId} {tab : TabId} {pane : PaneId}

/-- `validate` returns `Ok`. -/
def Valid (layout : WorkspaceLayout) : Prop :=
  layout.validate = .ok ()

/-- What a valid layout is. -/
structure Sound (layout : WorkspaceLayout) : Prop where
  distinct : layout.ids.Nodup
  below : ∀ id ∈ layout.ids, id < layout.nextId
  leaves : ∀ view tab state, layout.tab view tab = some state →
    ∀ pane, pane ∈ state.root.leaves ↔ pane ∈ state.panes

variable {state : SplitTabLayout}

theorem tab_eq_some_iff :
    layout.tab view tab = some state ↔
      ∃ stored, layout.views[view]? = some stored ∧ stored.tabs[tab]? = some state :=
  Option.bind_eq_some_iff

theorem Valid.sound (valid : layout.Valid) : layout.Sound := by
  unfold Valid validate at valid
  simp only [except_bind_eq_ok_iff, check_eq_ok_iff] at valid
  obtain ⟨_, -, _, -, _, -, _, -, ⟨seen, tabs, panes⟩, ran, below⟩ := valid
  obtain ⟨⟨same, distinct⟩, leaves⟩ := foldlM_validateView ran
  have seen_eq : seen = layout.ids.reverse := by
    rw [show seen = _ from same, List.append_nil]
    rfl
  refine ⟨?_, ?_, ?_⟩
  · rw [← List.nodup_reverse, ← seen_eq]
    exact distinct List.nodup_nil
  · intro id listed
    have mem : id ∈ seen := seen_eq ▸ List.mem_reverse.mpr listed
    obtain ⟨top, top_eq⟩ := Option.isSome_iff_exists.mp (List.isSome_max?_of_mem mem)
    have upper : id ≤ top := List.max?_le_iff top_eq |>.mp le_rfl id mem
    simp only [top_eq, Option.any_some, Bool.not_eq_true', decide_eq_false_iff_not, not_le] at below
    exact upper.trans_lt below
  · intro view tab state found
    obtain ⟨stored, viewFound, tabFound⟩ := tab_eq_some_iff.mp found
    exact mem_leaves_iff_of_reachable
      (leaves (view, stored) (Std.ExtTreeMap.mem_toList_iff_getElem?_eq_some.mpr viewFound)
        (tab, state) (Std.ExtTreeMap.mem_toList_iff_getElem?_eq_some.mpr tabFound))

/-! ## One place for each id -/

theorem mem_viewIds_of_pane {stored : ViewLayout} (tabFound : stored.tabs[tab]? = some state)
    (there : pane ∈ state.panes) :
    pane ∈ stored.tabs.toList.flatMap tabIds :=
  List.mem_flatMap.mpr
    ⟨(tab, state), Std.ExtTreeMap.mem_toList_iff_getElem?_eq_some.mpr tabFound,
      List.mem_cons_of_mem _ (Std.ExtTreeMap.mem_keys.mpr there)⟩

theorem mem_ids_of_view {stored : ViewLayout} (found : layout.views[view]? = some stored) :
    view ∈ layout.ids :=
  List.mem_flatMap.mpr
    ⟨(view, stored), Std.ExtTreeMap.mem_toList_iff_getElem?_eq_some.mpr found,
      List.mem_cons_self⟩

theorem mem_ids_of_tab (found : layout.tab view tab = some state) : tab ∈ layout.ids := by
  obtain ⟨stored, viewFound, tabFound⟩ := tab_eq_some_iff.mp found
  exact List.mem_flatMap.mpr
    ⟨(view, stored), Std.ExtTreeMap.mem_toList_iff_getElem?_eq_some.mpr viewFound,
      List.mem_cons_of_mem _ (List.mem_flatMap.mpr
        ⟨(tab, state), Std.ExtTreeMap.mem_toList_iff_getElem?_eq_some.mpr tabFound,
          List.mem_cons_self⟩)⟩

theorem mem_ids_of_pane (found : layout.tab view tab = some state) (there : pane ∈ state.panes) :
    pane ∈ layout.ids := by
  obtain ⟨stored, viewFound, tabFound⟩ := tab_eq_some_iff.mp found
  exact List.mem_flatMap.mpr
    ⟨(view, stored), Std.ExtTreeMap.mem_toList_iff_getElem?_eq_some.mpr viewFound,
      List.mem_cons_of_mem _ (mem_viewIds_of_pane tabFound there)⟩

/-- Two views with an id in common, below them, are one. -/
theorem Sound.view_unique (sound : layout.Sound) {other : ViewId} {first second : ViewLayout}
    {id : Nat} (first_found : layout.views[view]? = some first)
    (second_found : layout.views[other]? = some second)
    (in_first : id ∈ first.tabs.toList.flatMap tabIds)
    (in_second : id ∈ second.tabs.toList.flatMap tabIds) : view = other :=
  congrArg Prod.fst (eq_of_nodup_flatMap viewIds sound.distinct
    (Std.ExtTreeMap.mem_toList_iff_getElem?_eq_some.mpr first_found)
    (Std.ExtTreeMap.mem_toList_iff_getElem?_eq_some.mpr second_found)
    (List.mem_cons_of_mem _ in_first) (List.mem_cons_of_mem _ in_second))

/-- A tab is in one view. -/
theorem Sound.tab_unique (sound : layout.Sound) {other : ViewId} {first second : SplitTabLayout}
    (first_found : layout.tab view tab = some first) (second_found : layout.tab other tab = some second) :
    view = other := by
  obtain ⟨_, viewFound, tabFound⟩ := tab_eq_some_iff.mp first_found
  obtain ⟨_, otherFound, otherTab⟩ := tab_eq_some_iff.mp second_found
  exact sound.view_unique viewFound otherFound
    (List.mem_flatMap.mpr ⟨_, Std.ExtTreeMap.mem_toList_iff_getElem?_eq_some.mpr tabFound,
      List.mem_cons_self⟩)
    (List.mem_flatMap.mpr ⟨_, Std.ExtTreeMap.mem_toList_iff_getElem?_eq_some.mpr otherTab,
      List.mem_cons_self⟩)

/-- A pane is in one tab. -/
theorem Sound.pane_unique (sound : layout.Sound) {otherView : ViewId} {otherTab : TabId}
    {first second : SplitTabLayout} (first_found : layout.tab view tab = some first)
    (second_found : layout.tab otherView otherTab = some second) (in_first : pane ∈ first.panes)
    (in_second : pane ∈ second.panes) : view = otherView ∧ tab = otherTab := by
  obtain ⟨stored, viewFound, tabFound⟩ := tab_eq_some_iff.mp first_found
  obtain ⟨_, otherFound, otherTabFound⟩ := tab_eq_some_iff.mp second_found
  obtain rfl := sound.view_unique viewFound otherFound (mem_viewIds_of_pane tabFound in_first)
    (mem_viewIds_of_pane otherTabFound in_second)
  obtain rfl := Option.some.inj (viewFound.symm.trans otherFound)
  have below := (List.nodup_flatMap.mp sound.distinct).1 (view, stored)
    (Std.ExtTreeMap.mem_toList_iff_getElem?_eq_some.mpr viewFound)
  have same := eq_of_nodup_flatMap tabIds (List.nodup_cons.mp below).2
    (Std.ExtTreeMap.mem_toList_iff_getElem?_eq_some.mpr tabFound)
    (Std.ExtTreeMap.mem_toList_iff_getElem?_eq_some.mpr otherTabFound)
    (List.mem_cons_of_mem _ (Std.ExtTreeMap.mem_keys.mpr in_first))
    (List.mem_cons_of_mem _ (Std.ExtTreeMap.mem_keys.mpr in_second))
  exact ⟨rfl, congrArg Prod.fst same⟩

theorem tab_of_paneLocation (located : layout.paneLocation pane = some (view, tab)) :
    ∃ state, layout.tab view tab = some state ∧ pane ∈ state.panes := by
  obtain ⟨⟨viewId, stored⟩, viewMem, inView⟩ := List.exists_of_findSome?_eq_some located
  obtain ⟨⟨tabId, state⟩, tabMem, inTab⟩ := List.exists_of_findSome?_eq_some inView
  simp only [Option.ite_none_right_eq_some] at inTab
  obtain ⟨there, rfl, rfl⟩ := inTab
  exact ⟨state, tab_eq_some_iff.mpr
    ⟨stored, Std.ExtTreeMap.mem_toList_iff_getElem?_eq_some.mp viewMem,
      Std.ExtTreeMap.mem_toList_iff_getElem?_eq_some.mp tabMem⟩, there⟩

/-- The lookup finds the one place of a pane. -/
theorem Sound.paneLocation_eq_some_iff (sound : layout.Sound) :
    layout.paneLocation pane = some (view, tab) ↔
      ∃ state, layout.tab view tab = some state ∧ pane ∈ state.panes := by
  refine ⟨tab_of_paneLocation, ?_⟩
  rintro ⟨state, found, there⟩
  cases located : layout.paneLocation pane with
  | none =>
      obtain ⟨stored, viewFound, tabFound⟩ := tab_eq_some_iff.mp found
      have outside := List.findSome?_eq_none_iff.mp
        (List.findSome?_eq_none_iff.mp located (view, stored)
          (Std.ExtTreeMap.mem_toList_iff_getElem?_eq_some.mpr viewFound))
        (tab, state) (Std.ExtTreeMap.mem_toList_iff_getElem?_eq_some.mpr tabFound)
      simp [Std.ExtTreeMap.contains_iff_mem.mpr there] at outside
  | some place =>
      obtain ⟨other, otherFound, otherThere⟩ := tab_of_paneLocation located
      obtain ⟨rfl, rfl⟩ := sound.pane_unique found otherFound there otherThere
      rfl

/-- The pane stands somewhere in the layout, in this state. -/
def Holds (layout : WorkspaceLayout) (pane : PaneId) (state : PaneState) : Prop :=
  ∃ view tab stored, layout.tab view tab = some stored ∧ stored.panes[pane]? = some state

theorem Sound.pane_eq_some_iff (sound : layout.Sound) {state : PaneState} :
    layout.pane pane = some state ↔ layout.Holds pane state := by
  unfold WorkspaceLayout.pane
  simp only [Option.bind_eq_some_iff]
  constructor
  · rintro ⟨⟨view, tab⟩, -, stored, found, shown⟩
    exact ⟨view, tab, stored, found, shown⟩
  · rintro ⟨view, tab, stored, found, shown⟩
    have there : pane ∈ stored.panes := Std.ExtTreeMap.mem_iff_isSome_getElem?.mpr (by simp [shown])
    exact ⟨(view, tab), sound.paneLocation_eq_some_iff.mpr ⟨stored, found, there⟩, stored, found,
      shown⟩

/-- Two layouts that hold the same panes answer alike. -/
theorem Sound.pane_congr {other : WorkspaceLayout} (sound : layout.Sound) (otherSound : other.Sound)
    {first second : PaneId} (same : ∀ state, layout.Holds first state ↔ other.Holds second state) :
    layout.pane first = other.pane second :=
  Option.ext fun state => by
    rw [sound.pane_eq_some_iff, otherSound.pane_eq_some_iff, same]

theorem tab_of_tabLocation (located : layout.tabLocation tab = some view) :
    ∃ state, layout.tab view tab = some state := by
  obtain ⟨⟨viewId, stored⟩, viewMem, inView⟩ := List.exists_of_findSome?_eq_some located
  simp only [Option.ite_none_right_eq_some, Option.some.injEq] at inView
  obtain ⟨there, rfl⟩ := inView
  obtain ⟨state, found⟩ := Option.isSome_iff_exists.mp
    (Std.ExtTreeMap.mem_iff_isSome_getElem?.mp (Std.ExtTreeMap.contains_iff_mem.mp there))
  exact ⟨state, tab_eq_some_iff.mpr
    ⟨stored, Std.ExtTreeMap.mem_toList_iff_getElem?_eq_some.mp viewMem, found⟩⟩

theorem Valid.of_revision {revision : Nat} (valid : layout.Valid) :
    ({ layout with revision } : WorkspaceLayout).Valid :=
  valid

end WorkspaceLayout

end Zeron.Workspace
