import Zeron.Workspace.Valid

/-!
# Where the panes are after an edit

An edit is read through `tab`: which tab stands where, and with which panes.
Each primitive edit rewrites the answer at one place, and the panes held
follow from that.
-/

namespace Zeron.Workspace.WorkspaceLayout

open Zeron.Data
open Zeron.Transition

variable {layout next : WorkspaceLayout} {view : ViewId} {tab : TabId} {pane : PaneId}

/-! ## One place rewritten -/

/-- The layout with `state` at one place, and everything else where it was. -/
def Rewritten (layout next : WorkspaceLayout) (view : ViewId) (tab : TabId)
    (state : Option SplitTabLayout) : Prop :=
  ∀ otherView otherTab, next.tab otherView otherTab =
    if otherView = view ∧ otherTab = tab then state else layout.tab otherView otherTab

/-- The pane stands at one place, in this state. -/
def HoldsAt (layout : WorkspaceLayout) (view : ViewId) (tab : TabId) (pane : PaneId)
    (state : PaneState) : Prop :=
  ∃ stored, layout.tab view tab = some stored ∧ stored.panes[pane]? = some state

/-- The pane stands at another place. -/
def HoldsElsewhere (layout : WorkspaceLayout) (view : ViewId) (tab : TabId) (pane : PaneId)
    (state : PaneState) : Prop :=
  ∃ otherView otherTab, ¬(otherView = view ∧ otherTab = tab) ∧
    layout.HoldsAt otherView otherTab pane state

variable {state : PaneState}

theorem holds_iff (view : ViewId) (tab : TabId) :
    layout.Holds pane state ↔
      layout.HoldsAt view tab pane state ∨ layout.HoldsElsewhere view tab pane state := by
  constructor
  · rintro ⟨otherView, otherTab, stored, found, shown⟩
    by_cases same : otherView = view ∧ otherTab = tab
    · obtain ⟨rfl, rfl⟩ := same
      exact Or.inl ⟨stored, found, shown⟩
    · exact Or.inr ⟨otherView, otherTab, same, stored, found, shown⟩
  · rintro (⟨stored, found, shown⟩ | ⟨otherView, otherTab, -, stored, found, shown⟩)
    · exact ⟨view, tab, stored, found, shown⟩
    · exact ⟨otherView, otherTab, stored, found, shown⟩

namespace Rewritten

variable {state : Option SplitTabLayout}

section

variable (rewritten : Rewritten layout next view tab state)
include rewritten

theorem tab_eq : next.tab view tab = state :=
  (rewritten view tab).trans (if_pos ⟨rfl, rfl⟩)

theorem tab_ne {otherView : ViewId} {otherTab : TabId}
    (different : ¬(otherView = view ∧ otherTab = tab)) :
    next.tab otherView otherTab = layout.tab otherView otherTab :=
  (rewritten otherView otherTab).trans (if_neg different)

theorem holdsElsewhere_iff {paneState : PaneState} :
    next.HoldsElsewhere view tab pane paneState ↔
      layout.HoldsElsewhere view tab pane paneState := by
  unfold HoldsElsewhere HoldsAt
  refine exists_congr fun otherView => exists_congr fun otherTab => and_congr_right fun different => ?_
  rw [rewritten.tab_ne different]

/-- What is held afterwards: what the new state shows, or what stands elsewhere. -/
theorem holds_iff {paneState : PaneState} :
    next.Holds pane paneState ↔
      (∃ stored, state = some stored ∧ stored.panes[pane]? = some paneState) ∨
        layout.HoldsElsewhere view tab pane paneState := by
  rw [WorkspaceLayout.holds_iff view tab, rewritten.holdsElsewhere_iff, HoldsAt, rewritten.tab_eq]

end

end Rewritten

variable {stored : SplitTabLayout}

theorem Sound.not_holdsElsewhere (sound : layout.Sound)
    (found : layout.tab view tab = some stored) (there : pane ∈ stored.panes) (state : PaneState) :
    ¬ layout.HoldsElsewhere view tab pane state := by
  rintro ⟨otherView, otherTab, different, other, otherFound, shown⟩
  have otherThere : pane ∈ other.panes := Std.ExtTreeMap.mem_iff_isSome_getElem?.mpr (by simp [shown])
  obtain ⟨rfl, rfl⟩ := sound.pane_unique otherFound found otherThere there
  exact different ⟨rfl, rfl⟩

theorem Sound.holds_unique (sound : layout.Sound) {first second : PaneState}
    (first_held : layout.Holds pane first) (second_held : layout.Holds pane second) :
    first = second :=
  Option.some.inj <|
    (sound.pane_eq_some_iff.mpr first_held).symm.trans (sound.pane_eq_some_iff.mpr second_held)

theorem Sound.lt_of_holds (sound : layout.Sound) (held : layout.Holds pane state) :
    pane < layout.nextId := by
  obtain ⟨view, tab, stored, found, shown⟩ := held
  exact sound.below pane (mem_ids_of_pane found
    (Std.ExtTreeMap.mem_iff_isSome_getElem?.mpr (by simp [shown])))

/-- The layouts hold the same panes. -/
def SamePanes (layout next : WorkspaceLayout) : Prop :=
  ∀ pane state, next.Holds pane state ↔ layout.Holds pane state

theorem SamePanes.of_panes_eq
    (same : ∀ view tab, (next.tab view tab).map SplitTabLayout.panes =
      (layout.tab view tab).map SplitTabLayout.panes) : SamePanes layout next := by
  have expand : ∀ (one : WorkspaceLayout) (pane : PaneId) (state : PaneState),
      one.Holds pane state ↔ ∃ view tab panes,
        (one.tab view tab).map SplitTabLayout.panes = some panes ∧ panes[pane]? = some state := by
    intro one pane state
    refine exists_congr fun view => exists_congr fun tab => ?_
    simp only [Option.map_eq_some_iff]
    exact ⟨fun ⟨stored, found, shown⟩ => ⟨stored.panes, ⟨stored, found, rfl⟩, shown⟩,
      by rintro ⟨_, ⟨stored, found, rfl⟩, shown⟩; exact ⟨stored, found, shown⟩⟩
  intro pane state
  simp only [expand, same]

/-! ## Primitive edits -/

theorem gives_tabMut {state : SplitTabLayout} :
    Gives (tabMut view tab) layout state next ↔
      layout.tab view tab = some state ∧ layout = next := by
  simp only [tabMut, gives_bind_get, gives_bind_require, gives_require, tab_eq_some_iff]
  exact ⟨fun ⟨stored, viewFound, tabFound, same⟩ => ⟨⟨stored, viewFound, tabFound⟩, same⟩,
    fun ⟨⟨stored, viewFound, tabFound⟩, same⟩ => ⟨stored, viewFound, tabFound, same⟩⟩

theorem gives_bind_tabMut {α : Type} {rest : SplitTabLayout → Edit α} {last : α} :
    Gives (tabMut view tab >>= rest) layout last next ↔
      ∃ state, layout.tab view tab = some state ∧ Gives (rest state) layout last next := by
  rw [gives_bind]
  constructor
  · rintro ⟨state, _, found, later⟩
    obtain ⟨there, rfl⟩ := gives_tabMut.mp found
    exact ⟨state, there, later⟩
  · rintro ⟨state, there, later⟩
    exact ⟨state, layout, gives_tabMut.mpr ⟨there, rfl⟩, later⟩

theorem tab_of_view {stored : ViewLayout} (found : layout.views[view]? = some stored)
    (tab : TabId) : layout.tab view tab = stored.tabs[tab]? := by
  rw [WorkspaceLayout.tab, found, Option.bind_some]

variable {done : Unit}

theorem gives_putTab {old state : SplitTabLayout} (there : layout.tab view tab = some old)
    (gives : Gives (putTab view tab state) layout done next) :
    Rewritten layout next view tab (some state) ∧ next.nextId = layout.nextId := by
  obtain rfl := gives_modify.mp gives
  refine ⟨fun otherView otherTab => ?_, rfl⟩
  obtain ⟨stored, viewFound, -⟩ := tab_eq_some_iff.mp there
  simp only [WorkspaceLayout.tab, Std.ExtTreeMap.getElem?_alter, Nat.compare_eq_eq]
  by_cases same : view = otherView
  · subst same
    simp only [if_true, viewFound, Option.map_some, Option.bind_some, getElem?_insert_eq, true_and,
      eq_comm]
  · rw [if_neg same, if_neg fun both => same both.1.symm]

theorem gives_putView {state : ViewLayout} (gives : Gives (putView view state) layout done next) :
    (∀ otherView otherTab, next.tab otherView otherTab =
      if otherView = view then state.tabs[otherTab]? else layout.tab otherView otherTab) ∧
      next.nextId = layout.nextId := by
  obtain rfl := gives_modify.mp gives
  refine ⟨fun otherView otherTab => ?_, rfl⟩
  simp only [WorkspaceLayout.tab, getElem?_insert_eq]
  by_cases same : view = otherView
  · subst same
    simp
  · rw [if_neg same, if_neg fun eq => same eq.symm]

/-- A view put back with one tab written. -/
theorem rewritten_of_putView {stored : ViewLayout} (found : layout.views[view]? = some stored)
    {state : Option SplitTabLayout} {put : ViewLayout}
    (tabs_eq : ∀ other, put.tabs[other]? = if tab = other then state else stored.tabs[other]?)
    (gives : Gives (putView view put) layout done next) :
    Rewritten layout next view tab state ∧ next.nextId = layout.nextId := by
  obtain ⟨tabs, nextId_eq⟩ := gives_putView gives
  refine ⟨fun otherView otherTab => ?_, nextId_eq⟩
  rw [tabs]
  by_cases same : otherView = view
  · subst same
    rw [if_pos rfl, tabs_eq, tab_of_view found]
    simp only [true_and, eq_comm]
  · rw [if_neg same, if_neg fun both => same both.1]

/-- A view put back with the tabs that it had. -/
theorem same_of_putView {stored : ViewLayout} (found : layout.views[view]? = some stored)
    (put : ViewLayout) (tabs_eq : put.tabs = stored.tabs)
    (gives : Gives (putView view put) layout done next) :
    (∀ otherView otherTab, next.tab otherView otherTab = layout.tab otherView otherTab) ∧
      next.nextId = layout.nextId := by
  obtain ⟨tabs, nextId_eq⟩ := gives_putView gives
  refine ⟨fun otherView otherTab => ?_, nextId_eq⟩
  rw [tabs]
  split
  · rename_i same
    rw [same, tabs_eq, tab_of_view found]
  · rfl

/-- Focus changes which pane is active, and no tree or pane. -/
theorem gives_focusPaneInner (gives : Gives (focusPaneInner pane) layout done next) :
    (∀ view tab, (next.tab view tab).map (fun state => (state.root, state.panes)) =
      (layout.tab view tab).map (fun state => (state.root, state.panes))) ∧
      next.nextId = layout.nextId := by
  simp only [focusPaneInner, gives_bind_get, gives_bind_require, gives_bind_tabMut] at gives
  obtain ⟨⟨view, tab⟩, -, state, found, gives⟩ := gives
  obtain ⟨_, focused, put, gives⟩ := gives_bind.mp gives
  simp only [gives_bind_get, gives_bind_require] at gives
  obtain ⟨stored, viewFound, gives⟩ := gives
  obtain ⟨_, last, putBack, gives⟩ := gives_bind.mp gives
  obtain rfl := gives_modify.mp gives
  obtain ⟨rewritten, nextId_eq⟩ := gives_putTab found put
  obtain ⟨same, nextId_last⟩ := same_of_putView viewFound
    { stored with activeTabId := tab } rfl putBack
  refine ⟨fun otherView otherTab => ?_, nextId_last.trans nextId_eq⟩
  have tab_eq : ({ last with activeViewId := view } : WorkspaceLayout).tab otherView otherTab =
      last.tab otherView otherTab := rfl
  rw [tab_eq, same, rewritten otherView otherTab]
  split
  · rename_i here
    rw [here.1, here.2, found]
    rfl
  · rfl

theorem samePanes_focusPaneInner (gives : Gives (focusPaneInner pane) layout done next) :
    SamePanes layout next := by
  refine SamePanes.of_panes_eq fun view tab => ?_
  have same := (gives_focusPaneInner gives).1 view tab
  simpa [Function.comp_def] using congrArg (Option.map Prod.snd) same

theorem gives_closeViewInner (gives : Gives (closeViewInner view) layout done next) :
    (∀ otherView otherTab, next.tab otherView otherTab =
      if otherView = view then none else layout.tab otherView otherTab) ∧
      next.nextId = layout.nextId := by
  simp only [closeViewInner, gives_bind_get, gives_bind_ensure, gives_bind_modify,
    gives_bind_require] at gives
  obtain ⟨-, -, root, -, gives⟩ := gives
  obtain rfl := gives_modify.mp gives
  refine ⟨fun otherView otherTab => ?_, rfl⟩
  simp only [WorkspaceLayout.tab, getElem?_erase_eq]
  by_cases same : view = otherView
  · simp [same]
  · rw [if_neg same, if_neg fun eq => same eq.symm]

/-- A closed tab is gone, whether or not its view goes with it. -/
theorem gives_closeTabInner (gives : Gives (closeTabInner view tab) layout done next) :
    Rewritten layout next view tab none ∧ next.nextId = layout.nextId := by
  simp only [closeTabInner, gives_bind_get, gives_bind_require, gives_bind_ensure] at gives
  obtain ⟨stored, viewFound, there, gives⟩ := gives
  split at gives
  · rename_i single
    obtain ⟨tabs, nextId_eq⟩ := gives_closeViewInner gives
    refine ⟨fun otherView otherTab => ?_, nextId_eq⟩
    rw [tabs]
    by_cases sameView : otherView = view
    · subst sameView
      rw [if_pos rfl]
      split
      · rfl
      · rename_i different
        have missing : otherTab ∉ stored.tabs := fun mem =>
          different ⟨rfl, eq_of_size_eq_one single mem (Std.ExtTreeMap.contains_iff_mem.mp there)⟩
        rw [tab_of_view viewFound, Std.ExtTreeMap.getElem?_eq_none missing]
    · rw [if_neg sameView, if_neg fun both => sameView both.1]
  · have putBack : ∃ put : ViewLayout, put.tabs = stored.tabs.erase tab ∧
        Gives (putView view put) layout done next := by
      split at gives
      · obtain ⟨first, -, gives⟩ := gives_bind_require.mp gives
        exact ⟨_, rfl, gives⟩
      · exact ⟨_, rfl, gives⟩
    obtain ⟨put, tabs_eq, gives⟩ := putBack
    exact rewritten_of_putView viewFound
      (fun other => tabs_eq ▸ getElem?_erase_eq stored.tabs tab other) gives

variable {paneState : PaneState}

theorem remove_eq_ok {state rest : SplitTabLayout}
    (removed : state.remove pane = .ok (rest, paneState)) :
    state.panes[pane]? = some paneState ∧ rest.panes = state.panes.erase pane ∧
      state.root.remove pane = some rest.root := by
  unfold SplitTabLayout.remove at removed
  split at removed
  · cases removed
  · split at removed
    · cases removed
    · cases removed
    · rename_i _ _ _ root shown cut
      obtain ⟨rfl, rfl⟩ := removed
      exact ⟨shown, rfl, cut⟩

/-- What a detached pane leaves: its tab without it, or no tab. -/
structure Detached (layout next : WorkspaceLayout) (pane : PaneId) (view : ViewId) (tab : TabId)
    (stored : SplitTabLayout) (paneState : PaneState) (rest : Option SplitTabLayout) : Prop where
  found : layout.tab view tab = some stored
  shown : stored.panes[pane]? = some paneState
  rewritten : Rewritten layout next view tab rest
  nextId_eq : next.nextId = layout.nextId
  kept : ∀ state ∈ rest, state.panes = stored.panes.erase pane ∧
    stored.root.remove pane = some state.root
  closed : rest = none → ∀ other ∈ stored.panes, other = pane

theorem gives_detachPane (gives : Gives (detachPane pane) layout paneState next) :
    ∃ view tab stored rest, Detached layout next pane view tab stored paneState rest := by
  simp only [detachPane, gives_bind_get, gives_bind_require, gives_bind_tabMut] at gives
  obtain ⟨⟨view, tab⟩, located, stored, found, gives⟩ := gives
  obtain ⟨other, otherFound, there⟩ := tab_of_paneLocation located
  obtain rfl := Option.some.inj (otherFound.symm.trans found)
  split at gives
  · rw [gives_bind_attempt] at gives
    obtain ⟨⟨rest, paneState⟩, removed, gives⟩ := gives
    obtain ⟨_, last, put, gives⟩ := gives_bind.mp gives
    obtain ⟨rfl, rfl⟩ := gives_pure.mp gives
    obtain ⟨shown, panes_eq, cut⟩ := remove_eq_ok removed
    obtain ⟨rewritten, nextId_eq⟩ := gives_putTab found put
    exact ⟨view, tab, other, some rest,
      { found, shown, rewritten, nextId_eq
        kept := fun state mem => by
          cases mem
          exact ⟨panes_eq, cut⟩
        closed := nofun }⟩
  · rename_i few
    rw [gives_bind_require] at gives
    obtain ⟨paneState, shown, gives⟩ := gives
    obtain ⟨_, last, closed, gives⟩ := gives_bind.mp gives
    obtain ⟨rfl, rfl⟩ := gives_pure.mp gives
    obtain ⟨rewritten, nextId_eq⟩ := gives_closeTabInner closed
    have single : other.panes.size = 1 := by
      have some_pane : other.panes.size ≠ 0 := fun empty => by
        rw [Std.ExtTreeMap.eq_empty_iff_size_eq_zero.mpr empty] at there
        exact Std.ExtTreeMap.not_mem_empty there
      omega
    exact ⟨view, tab, other, none,
      { found, shown, rewritten, nextId_eq
        kept := nofun
        closed := fun _ otherPane mem => eq_of_size_eq_one single mem there }⟩

/-- Detaching takes the pane away, and nothing else. -/
theorem Detached.holds_iff {rest : Option SplitTabLayout}
    (detached : Detached layout next pane view tab stored paneState rest) (sound : layout.Sound)
    {other : PaneId} :
    next.Holds other state ↔ other ≠ pane ∧ layout.Holds other state := by
  have there : pane ∈ stored.panes := Std.ExtTreeMap.mem_iff_isSome_getElem?.mpr (by simp [detached.shown])
  have elsewhere := sound.not_holdsElsewhere detached.found there state
  rw [detached.rewritten.holds_iff, WorkspaceLayout.holds_iff view tab, HoldsAt, detached.found]
  simp only [Option.some.injEq, exists_eq_left']
  by_cases same : other = pane
  · subst same
    simp only [ne_eq, not_true_eq_false, false_and, iff_false, not_or]
    refine ⟨?_, elsewhere⟩
    rintro ⟨kept, rfl, shown⟩
    rw [(detached.kept kept rfl).1, getElem?_erase_eq, if_pos rfl] at shown
    cases shown
  · simp only [ne_eq, same, not_false_eq_true, true_and]
    refine or_congr_left ?_
    cases rest with
    | none =>
        refine iff_of_false (fun ⟨_, found, _⟩ => nomatch found) fun shown => ?_
        exact same (detached.closed rfl other
          (Std.ExtTreeMap.mem_iff_isSome_getElem?.mpr (by simp [shown])))
    | some kept =>
        simp only [Option.some.injEq, exists_eq_left']
        rw [(detached.kept kept rfl).1, getElem?_erase_eq, if_neg fun eq => same eq.symm]

theorem Detached.holds {rest : Option SplitTabLayout}
    (detached : Detached layout next pane view tab stored paneState rest) :
    layout.Holds pane paneState :=
  ⟨view, tab, stored, detached.found, detached.shown⟩

end Zeron.Workspace.WorkspaceLayout
