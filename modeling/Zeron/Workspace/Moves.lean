import Zeron.Workspace.Calls

/-!
# What an accepted move of a tab, or between tabs, does

A tab moves with its tree and its panes as they are; panes that change places
or views are still the same panes.
-/

namespace Zeron.Workspace.WorkspaceLayout

open Zeron.Data
open Zeron.Transition

variable {layout next : WorkspaceLayout} {view : ViewId} {tab : TabId} {pane : PaneId}

/-! ## Tabs -/

theorem gives_takeTab {state : SplitTabLayout} (gives : Gives (takeTab view tab) layout state next) :
    layout.tab view tab = some state ∧ Rewritten layout next view tab none ∧
      next.nextId = layout.nextId := by
  rw [takeTab, gives_bind_tabMut] at gives
  obtain ⟨_, found, gives⟩ := gives
  obtain ⟨_, last, closed, gives⟩ := gives_bind.mp gives
  obtain ⟨rfl, rfl⟩ := gives_pure.mp gives
  exact ⟨found, gives_closeTabInner closed⟩

/-- A tab is in the target view, with all that it shows, and nowhere else. -/
structure TabMoved (layout next : WorkspaceLayout) (source target : ViewId) (tab : TabId)
    (state : SplitTabLayout) : Prop where
  found : layout.tab source tab = some state
  tabs : ∀ otherView otherTab, next.tab otherView otherTab =
    if otherView = target ∧ otherTab = tab then some state
    else if otherView = source ∧ otherTab = tab then none
    else layout.tab otherView otherTab

variable {done : Unit} {target : ViewId}

theorem gives_moveTab (gives : Gives (moveTab tab target) layout done next) :
    ∃ source state, TabMoved layout next source target tab state := by
  obtain ⟨committed, draft, edit, rfl⟩ := gives_commit gives
  simp only [gives_bind_get, gives_bind_require, gives_bind_ensure] at edit
  obtain ⟨source, located, -, edit⟩ := edit
  obtain ⟨state, found⟩ := tab_of_tabLocation located
  refine ⟨source, state, found, fun otherView otherTab => ?_⟩
  split at edit
  · rename_i different
    obtain ⟨moved, taken, take, edit⟩ := gives_bind.mp edit
    obtain ⟨movedFound, away, -⟩ := gives_takeTab take
    obtain rfl := Option.some.inj (found.symm.trans movedFound)
    simp only [gives_bind_get, gives_bind_require] at edit
    obtain ⟨stored, viewFound, edit⟩ := edit
    obtain ⟨_, placed, put, edit⟩ := gives_bind.mp edit
    simp only [gives_bind_get, gives_bind_require] at edit
    obtain ⟨after, afterFound, edit⟩ := edit
    obtain ⟨_, last, putBack, edit⟩ := gives_bind.mp edit
    obtain rfl := gives_modify.mp edit
    have inserted := (rewritten_of_putView viewFound
      (fun other => getElem?_insert_eq stored.tabs tab other state) put).1
    have same := (same_of_putView afterFound { after with activeTabId := tab } rfl
      putBack).1
    change last.tab otherView otherTab = _
    rw [same, inserted, away]
  · rename_i same
    obtain rfl := not_not.mp same
    simp only [gives_bind_get, gives_bind_require] at edit
    obtain ⟨stored, viewFound, edit⟩ := edit
    obtain ⟨_, last, putBack, edit⟩ := gives_bind.mp edit
    obtain rfl := gives_modify.mp edit
    have same := (same_of_putView viewFound { stored with activeTabId := tab } rfl
      putBack).1
    change last.tab otherView otherTab = _
    rw [same]
    split
    · rename_i here
      rw [here.1, here.2, found]
    · rfl

theorem TabMoved.samePanes {source target : ViewId} {state : SplitTabLayout}
    (moved : TabMoved layout next source target tab state) (sound : layout.Sound) :
    SamePanes layout next := by
  have arrived : next.tab target tab = some state := (moved.tabs target tab).trans (if_pos ⟨rfl, rfl⟩)
  intro other shown
  constructor
  · rintro ⟨otherView, otherTab, stored, found, held⟩
    rw [moved.tabs] at found
    split at found
    · cases found
      exact ⟨source, tab, _, moved.found, held⟩
    · split at found
      · cases found
      · exact ⟨otherView, otherTab, stored, found, held⟩
  · rintro ⟨otherView, otherTab, stored, found, held⟩
    by_cases same : otherTab = tab
    · subst same
      obtain rfl := sound.tab_unique found moved.found
      obtain rfl := Option.some.inj (found.symm.trans moved.found)
      exact ⟨target, otherTab, stored, arrived, held⟩
    · refine ⟨otherView, otherTab, stored, ?_, held⟩
      rw [moved.tabs, if_neg fun both => same both.2, if_neg fun both => same both.2, found]

/-- An order of a view's tabs is no place of a pane. -/
theorem gives_reorderTab {before : Option TabId}
    (gives : Gives (reorderTab tab target before) layout done next) : SamePanes layout next := by
  obtain ⟨committed, draft, edit, rfl⟩ := gives_commit gives
  change SamePanes layout draft
  rw [gives_bind_get] at edit
  split at edit
  · obtain ⟨-, rfl⟩ := gives_pure.mp edit
    exact fun _ _ => Iff.rfl
  · rw [gives_bind_ensure] at edit
    obtain ⟨-, edit⟩ := edit
    obtain ⟨_, middle, move, edit⟩ := gives_bind.mp edit
    simp only [gives_bind_get, gives_bind_require] at edit
    obtain ⟨stored, viewFound, put⟩ := edit
    obtain ⟨source, state, moved⟩ := gives_moveTab move
    have same := (same_of_putView viewFound
      { stored with tabOrder := placeTab stored.orderedTabs tab before } rfl put).1
    intro other shown
    rw [← moved.samePanes committed.wasValid.sound other shown]
    exact SamePanes.of_panes_eq (fun view tab => by rw [same]) other shown

/-! ## Panes to tabs and views -/

/-- A pane that was detached is back, in a place of its own. -/
theorem Detached.samePanes_of_back {stored : SplitTabLayout} {paneState : PaneState}
    {rest : Option SplitTabLayout} {middle : WorkspaceLayout}
    (detached : Detached layout middle pane view tab stored paneState rest) (sound : layout.Sound)
    (back : ∀ other state,
      next.Holds other state ↔ (other = pane ∧ state = paneState) ∨ middle.Holds other state) :
    SamePanes layout next := by
  intro other state
  rw [back, detached.holds_iff sound]
  by_cases same : other = pane
  · subst same
    simp only [true_and, ne_eq, not_true_eq_false, false_and, or_false]
    exact ⟨fun eq => eq ▸ detached.holds, fun held => sound.holds_unique held detached.holds⟩
  · simp [same]

theorem gives_paneToTab (gives : Gives (paneToTab pane target) layout tab next) :
    SamePanes layout next := by
  obtain ⟨committed, draft, edit, rfl⟩ := gives_commit gives
  have sound := committed.wasValid.sound
  change SamePanes layout draft
  simp only [gives_bind_get, gives_bind_require, gives_bind_ensure, gives_bind_tabMut] at edit
  obtain ⟨⟨source, sourceTab⟩, -, -, state, -, edit⟩ := edit
  split at edit
  · obtain ⟨_, middle, move, edit⟩ := gives_bind.mp edit
    obtain ⟨rfl, rfl⟩ := gives_pure.mp edit
    obtain ⟨from_, moving, moved⟩ := gives_moveTab move
    exact moved.samePanes sound
  · obtain ⟨paneState, middle, detach, edit⟩ := gives_bind.mp edit
    simp only [gives_bind_allocate, gives_bind_get, gives_bind_require] at edit
    obtain ⟨-, stored, viewFound, edit⟩ := edit
    obtain ⟨_, placed, put, edit⟩ := gives_bind.mp edit
    obtain ⟨_, last, focus, edit⟩ := gives_bind.mp edit
    obtain ⟨rfl, rfl⟩ := gives_pure.mp edit
    obtain ⟨fromView, fromTab, old, rest, detached⟩ := gives_detachPane detach
    have free : middle.tab target middle.nextId = none := by
      rw [detached.rewritten]
      split
      · rename_i same
        have there : fromTab < layout.nextId := sound.below fromTab (mem_ids_of_tab detached.found)
        rw [← same.2, detached.nextId_eq] at there
        exact absurd there (lt_irrefl _)
      · exact sound.tab_of_le_tab detached.nextId_eq.ge target
    have viewKept : ({ middle with nextId := middle.nextId + 1 } : WorkspaceLayout).views[target]? =
        some stored := viewFound
    have inserted := (rewritten_of_putView viewKept
      (fun other => getElem?_insert_eq stored.tabs middle.nextId other _) put).1
    refine detached.samePanes_of_back sound fun other shown => ?_
    rw [samePanes_focusPaneInner focus]
    exact inserted.holds_single_iff free

variable {direction : Direction}

theorem gives_paneToView {target added : ViewId}
    (gives : Gives (paneToView pane target direction) layout added next) :
    SamePanes layout next := by
  obtain ⟨committed, draft, edit, rfl⟩ := gives_commit gives
  have sound := committed.wasValid.sound
  change SamePanes layout draft
  simp only [gives_bind_get, gives_bind_ensure] at edit
  obtain ⟨-, edit⟩ := edit
  obtain ⟨added, opened, split, edit⟩ := gives_bind.mp edit
  simp only [gives_bind_get, gives_bind_require] at edit
  obtain ⟨placeholder, active, edit⟩ := edit
  obtain ⟨_, moved, move, edit⟩ := gives_bind.mp edit
  obtain ⟨_, closed, close, edit⟩ := gives_bind.mp edit
  obtain ⟨_, last, focus, edit⟩ := gives_bind.mp edit
  obtain ⟨rfl, rfl⟩ := gives_pure.mp edit
  obtain ⟨tab, id, openedView, isActive, -⟩ := gives_splitView split
  obtain rfl := Option.some.inj (active.symm.trans isActive)
  intro other shown
  rw [samePanes_focusPaneInner focus, gives_closePane close, (gives_movePane move).1,
    openedView.rewritten.holds_single_iff (sound.tab_of_le openedView.view_new tab)]
  by_cases same : other = placeholder
  · subst same
    simp [sound.not_holds_of_le openedView.pane_new]
  · simp [same]

/-- The placeholder's tab is closed once the moved one is in its view. -/
theorem gives_tabToView {target added : ViewId}
    (gives : Gives (tabToView tab target direction) layout added next) :
    SamePanes layout next := by
  obtain ⟨committed, draft, edit, rfl⟩ := gives_commit gives
  have sound := committed.wasValid.sound
  change SamePanes layout draft
  simp only [gives_bind_get, gives_bind_ensure] at edit
  obtain ⟨known, edit⟩ := edit
  obtain ⟨added, opened, split, edit⟩ := gives_bind.mp edit
  simp only [gives_bind_get, gives_bind_require] at edit
  obtain ⟨shown, viewFound, edit⟩ := edit
  obtain ⟨_, moved, move, edit⟩ := gives_bind.mp edit
  obtain ⟨_, last, close, edit⟩ := gives_bind.mp edit
  obtain ⟨rfl, rfl⟩ := gives_pure.mp edit
  obtain ⟨_, id, openedView, -, stored, storedFound, rfl⟩ := gives_splitView split
  obtain rfl := Option.some.inj (viewFound.symm.trans storedFound)
  obtain ⟨source, state, tabMoved⟩ := gives_moveTab move
  have openedSound := (gives_commit move).1.wasValid.sound
  have movedSound := (gives_commit close).1.wasValid.sound
  have different : shown.activeTabId ≠ tab := by
    obtain ⟨view, located⟩ := Option.isSome_iff_exists.mp known
    obtain ⟨state, found⟩ := tab_of_tabLocation located
    exact (lt_of_lt_of_le (sound.below tab (mem_ids_of_tab found)) openedView.tab_new).ne'
  have placeholder : moved.tab added shown.activeTabId = some (.single id .empty) := by
    rw [tabMoved.tabs, if_neg fun both => different both.2, if_neg fun both => different both.2]
    exact openedView.rewritten.tab_eq
  intro other paneState
  have held : moved.Holds other paneState ↔
      (other = id ∧ paneState = .empty) ∨ layout.Holds other paneState := by
    rw [tabMoved.samePanes openedSound,
      openedView.rewritten.holds_single_iff (sound.tab_of_le openedView.view_new _)]
  rw [holds_iff_of_closeTab close]
  by_cases same : other = id
  · subst same
    refine iff_of_false (movedSound.not_holdsElsewhere placeholder ?_ paneState)
      (sound.not_holds_of_le openedView.pane_new paneState)
    simp [SplitTabLayout.single]
  · have apart : ¬ moved.HoldsAt added shown.activeTabId other paneState := by
      rintro ⟨_, found, shows⟩
      obtain rfl := Option.some.inj (placeholder.symm.trans found)
      rw [SplitTabLayout.single, getElem?_insert_eq, if_neg (Ne.symm same)] at shows
      simp at shows
    rw [holds_iff added shown.activeTabId, or_iff_right apart] at held
    simpa [same] using held

/-! ## Exchanges and merges -/

theorem Rewritten.holdsAt_of_erase {old new : SplitTabLayout} {id : PaneId}
    (rewritten : Rewritten layout next view tab (some new)) (found : layout.tab view tab = some old)
    (panes_eq : new.panes = old.panes.erase id) {otherView : ViewId} {otherTab : TabId}
    {state : PaneState} (held : next.HoldsAt otherView otherTab pane state) :
    layout.HoldsAt otherView otherTab pane state := by
  obtain ⟨stored, storedFound, shown⟩ := held
  rw [rewritten] at storedFound
  split at storedFound
  · rename_i here
    cases storedFound
    rw [panes_eq, getElem?_erase_eq] at shown
    split at shown
    · cases shown
    · exact ⟨old, by rw [here.1, here.2, found], shown⟩
  · exact ⟨stored, storedFound, shown⟩

/-- Each of two panes in the other one's tab. -/
theorem samePanes_of_exchange {a b : PaneId} {aView bView : ViewId} {aTab bTab : TabId}
    {aStored bStored : SplitTabLayout} {aState bState : PaneState}
    {first second third : WorkspaceLayout} {aRest bRest aNew bNew : SplitTabLayout}
    (sound : layout.Sound) (apart : ¬(bView = aView ∧ bTab = aTab))
    (aFound : layout.tab aView aTab = some aStored) (bFound : layout.tab bView bTab = some bStored)
    (aShown : aStored.panes[a]? = some aState) (bShown : bStored.panes[b]? = some bState)
    (aOut : Rewritten layout first aView aTab (some aRest))
    (aRest_eq : aRest.panes = aStored.panes.erase a)
    (bOut : Rewritten first second bView bTab (some bRest))
    (bRest_eq : bRest.panes = bStored.panes.erase b)
    (bIn : Rewritten second third aView aTab (some aNew))
    (aNew_eq : aNew.panes = aRest.panes.insert b bState)
    (aIn : Rewritten third next bView bTab (some bNew))
    (bNew_eq : bNew.panes = bRest.panes.insert a aState) : SamePanes layout next := by
  have aThere : a ∈ aStored.panes := Std.ExtTreeMap.mem_iff_isSome_getElem?.mpr (by simp [aShown])
  have bThere : b ∈ bStored.panes := Std.ExtTreeMap.mem_iff_isSome_getElem?.mpr (by simp [bShown])
  have different : a ≠ b := by
    rintro rfl
    exact apart (sound.pane_unique bFound aFound bThere aThere)
  have firstB : first.tab bView bTab = some bStored := (aOut.tab_ne apart).trans bFound
  have secondA : second.tab aView aTab = some aRest :=
    (bOut.tab_ne fun both => apart ⟨both.1.symm, both.2.symm⟩).trans aOut.tab_eq
  have thirdB : third.tab bView bTab = some bRest := (bIn.tab_ne apart).trans bOut.tab_eq
  have afterFirst : ∀ pane state, first.Holds pane state ↔ pane ≠ a ∧ layout.Holds pane state :=
    fun _ _ => aOut.holds_erase_iff aFound aRest_eq (sound.not_holdsElsewhere aFound aThere)
  have afterSecond : ∀ pane state, second.Holds pane state ↔ pane ≠ b ∧ first.Holds pane state := by
    intro pane state
    refine bOut.holds_erase_iff firstB bRest_eq fun state => ?_
    rintro ⟨view, tab, elsewhere, held⟩
    exact sound.not_holdsElsewhere bFound bThere state
      ⟨view, tab, elsewhere, aOut.holdsAt_of_erase aFound aRest_eq held⟩
  have afterThird : ∀ pane state, third.Holds pane state ↔
      (pane = b ∧ state = bState) ∨ second.Holds pane state := fun pane state =>
    bIn.holds_insert_iff secondA aNew_eq fun state held => ((afterSecond b state).mp held).1 rfl
  have aGone : ∀ state, ¬ third.Holds a state := by
    intro state held
    rw [afterThird, afterSecond, afterFirst] at held
    rcases held with ⟨same, -⟩ | ⟨-, same, -⟩
    · exact different same
    · exact same rfl
  have aHeld : layout.Holds a aState := ⟨aView, aTab, aStored, aFound, aShown⟩
  have bHeld : layout.Holds b bState := ⟨bView, bTab, bStored, bFound, bShown⟩
  intro pane state
  rw [aIn.holds_insert_iff thirdB bNew_eq aGone, afterThird, afterSecond, afterFirst]
  constructor
  · rintro (⟨rfl, rfl⟩ | ⟨rfl, rfl⟩ | ⟨-, -, held⟩)
    · exact aHeld
    · exact bHeld
    · exact held
  · intro held
    by_cases isA : pane = a
    · subst isA
      exact Or.inl ⟨rfl, sound.holds_unique held aHeld⟩
    · by_cases isB : pane = b
      · subst isB
        exact Or.inr (Or.inl ⟨rfl, sound.holds_unique held bHeld⟩)
      · exact Or.inr (Or.inr ⟨isB, isA, held⟩)

/-- The trees are rewritten, each with the panes that it had. -/
theorem samePanes_map (change : ViewId → TabId → SplitTabLayout → SplitTabLayout)
    (panes_eq : ∀ view tab state, (change view tab state).panes = state.panes)
    (tabs : ∀ view tab, next.tab view tab = (layout.tab view tab).map (change view tab)) :
    SamePanes layout next := by
  refine SamePanes.of_panes_eq fun view tab => ?_
  rw [tabs, Option.map_map]
  exact Option.map_congr fun state _ => panes_eq view tab state

theorem gives_swapPanes {a b : PaneId} (gives : Gives (swapPanes a b) layout done next) :
    SamePanes layout next := by
  rw [swapPanes, gives_bind_ensure] at gives
  obtain ⟨-, gives⟩ := gives
  obtain ⟨committed, draft, edit, rfl⟩ := gives_commit gives
  have sound := committed.wasValid.sound
  change SamePanes layout draft
  simp only [gives_bind_get, gives_bind_require] at edit
  obtain ⟨⟨aView, aTab⟩, -, ⟨bView, bTab⟩, -, active, -, edit⟩ := edit
  have rest : ∃ middle, SamePanes layout middle ∧
      Gives (do
        modify fun draft : WorkspaceLayout =>
          { draft with
            views := draft.views.map fun _ view =>
              { view with
                tabs := view.tabs.map fun _ tab =>
                  { tab with
                    root := tab.root.swapLeaves a b
                    activePaneId := swapId a b tab.activePaneId
                    primaryPaneId := swapId a b tab.primaryPaneId } } }
        focusPaneInner active) middle done draft := by
    split at edit
    · rename_i apart
      rw [gives_bind_tabMut] at edit
      obtain ⟨aStored, aFound, edit⟩ := edit
      rw [gives_bind_require] at edit
      obtain ⟨aState, aShown, edit⟩ := edit
      obtain ⟨_, first, aOut, edit⟩ := gives_bind.mp edit
      rw [gives_bind_tabMut] at edit
      obtain ⟨bStored, firstB, edit⟩ := edit
      rw [gives_bind_require] at edit
      obtain ⟨bState, bShown, edit⟩ := edit
      obtain ⟨_, second, bOut, edit⟩ := gives_bind.mp edit
      rw [gives_bind_tabMut] at edit
      obtain ⟨aRest, secondA, edit⟩ := edit
      obtain ⟨_, third, bIn, edit⟩ := gives_bind.mp edit
      rw [gives_bind_tabMut] at edit
      obtain ⟨bRest, thirdB, edit⟩ := edit
      obtain ⟨_, fourth, aIn, trees⟩ := gives_bind.mp edit
      have apart : ¬(bView = aView ∧ bTab = aTab) := fun both =>
        apart (by rw [both.1, both.2])
      have aOut := (gives_putTab aFound aOut).1
      have bOut := (gives_putTab firstB bOut).1
      have bIn := (gives_putTab secondA bIn).1
      have aIn := (gives_putTab thirdB aIn).1
      have bFound : layout.tab bView bTab = some bStored := (aOut.tab_ne apart).symm.trans firstB
      obtain rfl := Option.some.inj
        (((bOut.tab_ne fun both => apart ⟨both.1.symm, both.2.symm⟩).trans aOut.tab_eq).symm.trans
          secondA)
      obtain rfl := Option.some.inj (((bIn.tab_ne apart).trans bOut.tab_eq).symm.trans thirdB)
      exact ⟨fourth, samePanes_of_exchange sound apart aFound bFound aShown bShown aOut rfl bOut rfl
        bIn rfl aIn rfl, trees⟩
    · exact ⟨layout, fun _ _ => Iff.rfl, edit⟩
  obtain ⟨middle, same, edit⟩ := rest
  intro other shown
  rw [samePanes_focusPaneInner edit, ← same other shown]
  refine samePanes_map (fun _ _ tab =>
    { tab with
      root := tab.root.swapLeaves a b
      activePaneId := swapId a b tab.activePaneId
      primaryPaneId := swapId a b tab.primaryPaneId }) (fun _ _ _ => rfl) (fun view tab => ?_)
    other shown
  simp only [WorkspaceLayout.tab, Std.ExtTreeMap.getElem?_map]
  cases middle.views[view]? with
  | none => rfl
  | some stored => exact Std.ExtTreeMap.getElem?_map

/-- The dragged tab's tree beside the target, as it was. -/
structure Merged (layout next : WorkspaceLayout) (tab : TabId) (target : PaneId)
    (direction : Direction) : Prop where
  whole : ∃ source moving view destination state ratio, layout.tab source tab = some moving ∧
    next.tab view destination = some state ∧
    (direction.split ratio moving.root (.leaf target)).Within state.root
  panes : SamePanes layout next

theorem gives_mergeTab {target : PaneId}
    (gives : Gives (mergeTab tab target direction) layout done next) :
    Merged layout next tab target direction := by
  obtain ⟨committed, draft, edit, rfl⟩ := gives_commit gives
  have sound := committed.wasValid.sound
  simp only [gives_bind_get, gives_bind_require, gives_bind_ensure, decide_eq_true_iff] at edit
  obtain ⟨source, -, ⟨view, destination⟩, -, different, edit⟩ := edit
  obtain ⟨moving, taken, take, edit⟩ := gives_bind.mp edit
  rw [gives_bind_tabMut] at edit
  obtain ⟨state, takenFound, edit⟩ := edit
  obtain ⟨_, planted, plant, edit⟩ := gives_bind.mp edit
  rw [gives_bind_ensure] at edit
  obtain ⟨replaced, edit⟩ := edit
  obtain ⟨_, filled, fill, focus⟩ := gives_bind.mp edit
  obtain ⟨found, away, -⟩ := gives_takeTab take
  have plantedAt := (gives_putTab takenFound plant).1
  have filledAt := (gives_putTab plantedAt.tab_eq fill).1
  have elsewhere : ¬(view = source ∧ destination = tab) := fun both => different both.2
  have stateFound : layout.tab view destination = some state :=
    (away.tab_ne elsewhere).symm.trans takenFound
  constructor
  · have within := SplitNode.within_replaceWithSplit moving.root direction
      (SplitNode.replaceWithSplit_done_iff.mp replaced)
    have same := (gives_focusPaneInner focus).1 view destination
    rw [filledAt.tab_eq, Option.map_some, Option.map_eq_some_iff] at same
    obtain ⟨after, afterFound, same⟩ := same
    refine ⟨source, moving, view, destination, after, .finite (1 / 2), found, afterFound, ?_⟩
    rw [(Prod.mk.inj same).1]
    exact within
  · change SamePanes layout draft
    intro other shown
    rw [samePanes_focusPaneInner focus]
    constructor
    · rintro ⟨otherView, otherTab, stored, storedFound, held⟩
      rw [filledAt, plantedAt, away] at storedFound
      split at storedFound
      · cases storedFound
        rw [getElem?_foldl_insert, Option.or_eq_some_iff] at held
        rcases held with held | ⟨-, held⟩
        · exact ⟨source, tab, moving, found, held⟩
        · exact ⟨view, destination, state, stateFound, held⟩
      · split at storedFound
        · cases storedFound
        · exact ⟨otherView, otherTab, stored, storedFound, held⟩
    · rintro ⟨otherView, otherTab, stored, storedFound, held⟩
      by_cases moved : otherView = source ∧ otherTab = tab
      · obtain ⟨rfl, rfl⟩ := moved
        obtain rfl := Option.some.inj (storedFound.symm.trans found)
        refine ⟨view, destination, _, filledAt.tab_eq, ?_⟩
        rw [getElem?_foldl_insert, held, Option.some_or]
      · by_cases here : otherView = view ∧ otherTab = destination
        · obtain ⟨rfl, rfl⟩ := here
          obtain rfl := Option.some.inj (storedFound.symm.trans stateFound)
          refine ⟨otherView, otherTab, _, filledAt.tab_eq, ?_⟩
          have notMoving : moving.panes[other]? = none := by
            refine Std.ExtTreeMap.getElem?_eq_none fun mem => moved ?_
            exact sound.pane_unique stateFound found
              (Std.ExtTreeMap.mem_iff_isSome_getElem?.mpr (by simp [held])) mem
          rw [getElem?_foldl_insert, notMoving, Option.none_or, held]
        · refine ⟨otherView, otherTab, stored, ?_, held⟩
          rw [filledAt, if_neg here, plantedAt, if_neg here, away, if_neg moved, storedFound]

/-! ## Focus and proportions -/

theorem gives_focusView (gives : Gives (focusView view) layout done next) :
    SamePanes layout next := by
  obtain ⟨committed, draft, edit, rfl⟩ := gives_commit gives
  rw [gives_bind_get, gives_bind_ensure] at edit
  obtain rfl := gives_modify.mp edit.2
  exact fun _ _ => Iff.rfl

theorem gives_focusTab (gives : Gives (focusTab view tab) layout done next) :
    SamePanes layout next := by
  obtain ⟨committed, draft, edit, rfl⟩ := gives_commit gives
  simp only [gives_bind_get, gives_bind_require, gives_bind_tabMut] at edit
  obtain ⟨state, -, stored, viewFound, edit⟩ := edit
  obtain ⟨_, last, put, edit⟩ := gives_bind.mp edit
  obtain rfl := gives_modify.mp edit
  have same := (same_of_putView viewFound { stored with activeTabId := tab } rfl put).1
  change SamePanes layout last
  exact SamePanes.of_panes_eq fun view tab => by rw [same]

theorem gives_focusPane (gives : Gives (focusPane pane) layout done next) :
    SamePanes layout next := by
  obtain ⟨committed, draft, edit, rfl⟩ := gives_commit gives
  change SamePanes layout draft
  exact samePanes_focusPaneInner edit

theorem gives_setViewRatio {path : List Branch} {ratio : F64}
    (gives : Gives (setViewRatio path ratio) layout done next) : SamePanes layout next := by
  obtain ⟨committed, draft, edit, rfl⟩ := gives_commit gives
  simp only [gives_bind_get, gives_bind_attempt] at edit
  obtain ⟨_, -, root, -, edit⟩ := edit
  obtain rfl := gives_modify.mp edit
  exact fun _ _ => Iff.rfl

theorem gives_setPaneRatio {path : List Branch} {ratio : F64}
    (gives : Gives (setPaneRatio view tab path ratio) layout done next) :
    SamePanes layout next := by
  obtain ⟨committed, draft, edit, rfl⟩ := gives_commit gives
  simp only [gives_bind_attempt, gives_bind_tabMut] at edit
  obtain ⟨_, -, state, found, root, -, edit⟩ := edit
  have rewritten := (gives_putTab found edit).1
  change SamePanes layout draft
  intro other shown
  rw [rewritten.holds_iff, holds_iff view tab, HoldsAt, found]
  simp only [Option.some.injEq, exists_eq_left']

end Zeron.Workspace.WorkspaceLayout
