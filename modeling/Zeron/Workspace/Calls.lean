import Zeron.Workspace.Panes

/-!
# What an accepted call does

A call that is accepted has made a valid draft out of a valid layout.  What the
layout then holds, and where, follows from the primitive edits of the draft.
-/

namespace Zeron.Workspace.WorkspaceLayout

open Zeron.Data
open Zeron.Transition

variable {layout next : WorkspaceLayout} {view : ViewId} {tab : TabId} {pane : PaneId}

/-! ## Commits -/

/-- What every accepted call guarantees. -/
structure Committed (layout next : WorkspaceLayout) : Prop where
  wasValid : layout.Valid
  valid : next.Valid
  revision_eq : next.revision = layout.revision + 1
  nextId_le : layout.nextId ≤ next.nextId
  fresh : ∀ id ∈ next.ids, id ∈ layout.ids ∨ layout.nextId ≤ id

variable {α : Type}

/-- A commit is a draft with the next revision. -/
theorem gives_commit {edit : Edit α} {result : α} (gives : Gives (commit edit) layout result next) :
    Committed layout next ∧
      ∃ draft, Gives edit layout result draft ∧ next = { draft with revision := layout.revision + 1 } := by
  rw [commit, gives_bind_get] at gives
  unfold Gives EStateM.run compose at gives
  rw [if_neg (not_not.mpr rfl)] at gives
  split at gives
  · cases gives
  · rename_i wasValid
    split at gives
    · cases gives
    · split at gives
      · cases gives
      · rename_i answer draft edited
        split at gives
        · cases gives
        · rename_i valid
          split at gives
          · cases gives
          · rename_i checked
            cases gives
            simp only [Bool.or_eq_true, decide_eq_true_eq, Bool.not_eq_true', not_or, not_lt,
              Bool.not_eq_false, freshIds, List.all_eq_true, List.contains_iff_mem] at checked
            exact ⟨{ wasValid, valid := Valid.of_revision valid, revision_eq := rfl
                     nextId_le := checked.1, fresh := checked.2 }, draft, edited, rfl⟩

/-- A refused commit leaves the layout as it was. -/
theorem commit_eq_error {edit : Edit α} {error : LayoutError}
    (refused : (commit edit).run layout = .error error next) : next = layout := by
  change compose layout.revision edit layout = .error error next at refused
  unfold compose at refused
  repeat' split at refused
  all_goals cases refused
  all_goals rfl

theorem gives_bind_allocate {rest : Nat → Edit α} {last : α} :
    Gives (allocate >>= rest) layout last next ↔
      layout.nextId + 1 < u64Size ∧
        Gives (rest layout.nextId) { layout with nextId := layout.nextId + 1 } last next := by
  simp only [allocate, bind_assoc, pure_bind, gives_bind_get, gives_bind_ensure, gives_bind_modify,
    decide_eq_true_iff]

/-! ## Adding -/

theorem Sound.tab_of_le (sound : layout.Sound) (unused : layout.nextId ≤ view) (tab : TabId) :
    layout.tab view tab = none := by
  cases found : layout.views[view]? with
  | none => rw [WorkspaceLayout.tab, found, Option.bind_none]
  | some stored => exact absurd (sound.below view (mem_ids_of_view found)) (not_lt.mpr unused)

theorem Sound.tab_of_le_tab (sound : layout.Sound) (unused : layout.nextId ≤ tab) (view : ViewId) :
    layout.tab view tab = none := by
  cases found : layout.tab view tab with
  | none => rfl
  | some stored => exact absurd (sound.below tab (mem_ids_of_tab found)) (not_lt.mpr unused)

theorem Sound.not_holds_of_le (sound : layout.Sound) (unused : layout.nextId ≤ pane)
    (state : PaneState) : ¬ layout.Holds pane state := fun held =>
  not_lt.mpr unused (sound.lt_of_holds held)

variable {paneState : PaneState} {state : PaneState} {id : PaneId}

/-- A tab with one pane that stands where no tab has stood. -/
theorem Rewritten.holds_single_iff
    (rewritten : Rewritten layout next view tab (some (.single id paneState)))
    (free : layout.tab view tab = none) :
    next.Holds pane state ↔ (pane = id ∧ state = paneState) ∨ layout.Holds pane state := by
  have nothing : ¬ layout.HoldsAt view tab pane state := by
    rintro ⟨stored, found, -⟩
    rw [free] at found
    cases found
  rw [rewritten.holds_iff, WorkspaceLayout.holds_iff view tab, or_iff_right nothing]
  refine or_congr_left ?_
  simp only [Option.some.injEq, exists_eq_left', SplitTabLayout.single, getElem?_insert_eq,
    Std.ExtTreeMap.getElem?_empty, Option.ite_none_right_eq_some]
  exact and_congr eq_comm eq_comm

/-- A new view with one tab and one pane, under new ids. -/
structure Opened (layout next : WorkspaceLayout) (view : ViewId) (tab : TabId) (id : PaneId)
    (paneState : PaneState) : Prop where
  view_new : layout.nextId ≤ view
  tab_new : layout.nextId ≤ tab
  pane_new : layout.nextId ≤ id
  rewritten : Rewritten layout next view tab (some (.single id paneState))

variable {direction : Direction}

theorem gives_splitView {target added : ViewId}
    (gives : Gives (splitView target direction paneState) layout added next) :
    ∃ tab id, Opened layout next added tab id paneState ∧ next.activePaneId = some id ∧
      ∃ stored, next.views[added]? = some stored ∧ stored.activeTabId = tab := by
  obtain ⟨committed, draft, edit, rfl⟩ := gives_commit gives
  simp only [gives_bind_get, gives_bind_ensure, gives_bind_allocate] at edit
  obtain ⟨-, -, -, -, edit⟩ := edit
  obtain ⟨rfl, rfl⟩ := gives_pure.mp edit
  have sound := committed.wasValid.sound
  have stored : (layout.views.insert layout.nextId
      (ViewLayout.single (layout.nextId + 1) (layout.nextId + 1 + 1) paneState))[layout.nextId]? =
        some (.single (layout.nextId + 1) (layout.nextId + 1 + 1) paneState) :=
    getElem?_insert_self _ _ _
  refine ⟨layout.nextId + 1, layout.nextId + 1 + 1,
    ⟨le_rfl, Nat.le_succ _, (Nat.le_succ _).trans (Nat.le_succ _), fun otherView otherTab => ?_⟩,
    ?_, _, stored, rfl⟩
  · change ((layout.views.insert _ _)[otherView]?).bind _ = _
    by_cases same : layout.nextId = otherView
    · subst same
      rw [stored, Option.bind_some, sound.tab_of_le le_rfl, ViewLayout.single]
      simp only [getElem?_insert_eq, Std.ExtTreeMap.getElem?_empty, true_and, eq_comm]
    · rw [getElem?_insert_ne _ same, if_neg fun both => same both.1.symm]
      rfl
  · change ((layout.views.insert _ _)[layout.nextId]?).bind _ = _
    rw [ViewLayout.single]
    simp [SplitTabLayout.single]

theorem gives_addTab (gives : Gives (addTab view paneState) layout tab next) :
    ∃ id, layout.nextId ≤ id ∧ layout.tab view tab = none ∧
      Rewritten layout next view tab (some (.single id paneState)) := by
  obtain ⟨committed, draft, edit, rfl⟩ := gives_commit gives
  simp only [gives_bind_get, gives_bind_ensure, gives_bind_allocate, gives_bind_require] at edit
  obtain ⟨-, -, -, stored, viewFound, edit⟩ := edit
  obtain ⟨_, last, put, edit⟩ := gives_bind.mp edit
  obtain ⟨rfl, rfl⟩ := gives_pure.mp edit
  have sound := committed.wasValid.sound
  refine ⟨layout.nextId + 1, Nat.le_succ _, sound.tab_of_le_tab le_rfl _, ?_⟩
  have viewKept : ({ layout with nextId := layout.nextId + 1 + 1 } : WorkspaceLayout).views[view]? =
      some stored := viewFound
  exact (rewritten_of_putView viewKept
    (fun other => getElem?_insert_eq stored.tabs layout.nextId other _) put).1

/-! ## A pane put into a tab, or taken out -/

theorem Rewritten.holds_insert_iff {old new : SplitTabLayout}
    (rewritten : Rewritten layout next view tab (some new))
    (found : layout.tab view tab = some old)
    (panes_eq : new.panes = old.panes.insert id paneState)
    (absent : ∀ state, ¬ layout.Holds id state) :
    next.Holds pane state ↔ (pane = id ∧ state = paneState) ∨ layout.Holds pane state := by
  have place : layout.Holds pane state ↔ layout.HoldsAt view tab pane state ∨
      layout.HoldsElsewhere view tab pane state := WorkspaceLayout.holds_iff view tab
  rw [HoldsAt, found] at place
  rw [rewritten.holds_iff]
  simp only [Option.some.injEq, exists_eq_left', panes_eq, getElem?_insert_eq]
  by_cases same : id = pane
  · subst same
    have nowhere := absent state
    rw [place, not_or] at nowhere
    simp only [if_true, Option.some.injEq, true_and, or_iff_left nowhere.2, or_iff_left (absent state),
      eq_comm]
  · have other : pane ≠ id := Ne.symm same
    rw [if_neg same, place]
    simp [other]

theorem Rewritten.holds_erase_iff {old new : SplitTabLayout}
    (rewritten : Rewritten layout next view tab (some new))
    (found : layout.tab view tab = some old) (panes_eq : new.panes = old.panes.erase id)
    (absent : ∀ state, ¬ layout.HoldsElsewhere view tab id state) :
    next.Holds pane state ↔ pane ≠ id ∧ layout.Holds pane state := by
  rw [rewritten.holds_iff, WorkspaceLayout.holds_iff view tab, HoldsAt, found]
  simp only [Option.some.injEq, exists_eq_left', panes_eq, getElem?_erase_eq]
  by_cases same : id = pane
  · subst same
    simp [absent state]
  · have other : pane ≠ id := Ne.symm same
    rw [if_neg same]
    simp [other]

theorem gives_splitPane {target id : PaneId}
    (gives : Gives (splitPane target direction paneState) layout id next) :
    layout.nextId ≤ id ∧ ∀ pane state,
      next.Holds pane state ↔ (pane = id ∧ state = paneState) ∨ layout.Holds pane state := by
  obtain ⟨committed, draft, edit, rfl⟩ := gives_commit gives
  simp only [gives_bind_get, gives_bind_allocate, gives_bind_require, gives_bind_tabMut] at edit
  obtain ⟨⟨view, tab⟩, -, -, state, found, edit⟩ := edit
  obtain ⟨_, middle, put, edit⟩ := gives_bind.mp edit
  obtain ⟨_, last, focused, edit⟩ := gives_bind.mp edit
  obtain ⟨rfl, rfl⟩ := gives_pure.mp edit
  have sound := committed.wasValid.sound
  refine ⟨le_rfl, fun pane shown => ?_⟩
  have inserted : middle.Holds pane shown ↔
      (pane = layout.nextId ∧ shown = paneState) ∨ layout.Holds pane shown :=
    (gives_putTab found put).1.holds_insert_iff found rfl (sound.not_holds_of_le le_rfl)
  exact (samePanes_focusPaneInner focused pane shown).trans inserted

/-! ## Closing -/

/-- The layout without one pane. -/
def Without (layout next : WorkspaceLayout) (pane : PaneId) : Prop :=
  ∀ other state, next.Holds other state ↔ other ≠ pane ∧ layout.Holds other state

variable {done : Unit}

theorem gives_closePane (gives : Gives (closePane pane) layout done next) :
    Without layout next pane := by
  obtain ⟨committed, draft, edit, rfl⟩ := gives_commit gives
  obtain ⟨paneState, last, detached, edit⟩ := gives_bind.mp edit
  obtain ⟨rfl, rfl⟩ := gives_pure.mp edit
  obtain ⟨view, tab, stored, rest, detached⟩ := gives_detachPane detached
  exact fun other state => detached.holds_iff committed.wasValid.sound

theorem gives_closeTab (gives : Gives (closeTab view tab) layout done next) :
    Rewritten layout next view tab none := by
  obtain ⟨committed, draft, edit, rfl⟩ := gives_commit gives
  exact (gives_closeTabInner edit).1

/-- A closed tab takes its own panes with it. -/
theorem holds_iff_of_closeTab (gives : Gives (closeTab view tab) layout done next)
    (state : PaneState) : next.Holds pane state ↔ layout.HoldsElsewhere view tab pane state := by
  rw [(gives_closeTab gives).holds_iff]
  simp

/-- A closed view takes the panes of its tabs with it. -/
theorem holds_iff_of_closeView (gives : Gives (closeView view) layout done next)
    (state : PaneState) :
    next.Holds pane state ↔
      ∃ otherView tab, otherView ≠ view ∧ layout.HoldsAt otherView tab pane state := by
  obtain ⟨committed, draft, edit, rfl⟩ := gives_commit gives
  have tabs := (gives_closeViewInner edit).1
  change draft.Holds pane state ↔ _
  unfold Holds HoldsAt
  refine exists_congr fun otherView => exists_congr fun otherTab => ?_
  rw [tabs]
  by_cases same : otherView = view <;> simp [same]

/-- A launcher is an empty pane under a new id; it is there only if the closed pane was the
last one of its view. -/
theorem gives_closeToLauncher (gives : Gives (closeToLauncher pane) layout done next) :
    ∃ added : Option PaneId, (∀ id ∈ added, layout.nextId ≤ id) ∧
      ∀ other state, next.Holds other state ↔
        other ≠ pane ∧ ((added = some other ∧ state = .empty) ∨ layout.Holds other state) := by
  obtain ⟨committed, draft, edit, rfl⟩ := gives_commit gives
  simp only [gives_bind_get, gives_bind_require] at edit
  obtain ⟨⟨view, tab⟩, -, stored, -, inside, -, edit⟩ := edit
  split at edit
  · obtain ⟨tab, middle, added, edit⟩ := gives_bind.mp edit
    obtain ⟨id, unused, free, rewritten⟩ := gives_addTab added
    refine ⟨some id, fun other same => Option.some.inj same ▸ unused, fun other state => ?_⟩
    change draft.Holds other state ↔ _
    rw [gives_closePane edit other state, rewritten.holds_single_iff free, Option.some.injEq,
      eq_comm (a := id)]
  · refine ⟨none, nofun, fun other state => ?_⟩
    change draft.Holds other state ↔ _
    rw [gives_closePane edit other state]
    simp

variable {target : PaneId}

/-! ## Moving panes -/

/-- The tab of the target still shows the target once another pane is detached. -/
theorem Detached.target_kept {stored state : SplitTabLayout} {rest : Option SplitTabLayout}
    {fromView toView : ViewId} {fromTab toTab : TabId} (sound : layout.Sound)
    (detached : Detached layout next pane fromView fromTab stored paneState rest)
    (different : target ≠ pane) (located : layout.paneLocation target = some (toView, toTab))
    (found : next.tab toView toTab = some state) : target ∈ state.root.leaves := by
  obtain ⟨before, beforeFound, there⟩ := tab_of_paneLocation located
  have shown := (sound.leaves _ _ _ beforeFound target).mpr there
  by_cases same : toView = fromView ∧ toTab = fromTab
  · obtain ⟨rfl, rfl⟩ := same
    obtain rfl := Option.some.inj (beforeFound.symm.trans detached.found)
    have kept := detached.rewritten.tab_eq.symm.trans found
    obtain ⟨left, removed, inside⟩ := SplitNode.mem_leaves_remove different shown
    rw [(detached.kept state kept).2] at removed
    exact Option.some.inj removed ▸ inside
  · rw [detached.rewritten.tab_ne same, beforeFound] at found
    exact Option.some.inj found ▸ shown

/-- The pane and the target are the two parts of one split, the pane on the given side. -/
def Beside (layout : WorkspaceLayout) (pane target : PaneId) (direction : Direction) : Prop :=
  ∃ view tab state ratio, layout.tab view tab = some state ∧
    (direction.split ratio (.leaf pane) (.leaf target)).Within state.root

theorem beside_of_focusPaneInner {focused target : PaneId}
    (gives : Gives (focusPaneInner focused) layout done next)
    (beside : layout.Beside pane target direction) : next.Beside pane target direction := by
  obtain ⟨view, tab, state, ratio, found, within⟩ := beside
  have same := (gives_focusPaneInner gives).1 view tab
  rw [found, Option.map_some, Option.map_eq_some_iff] at same
  obtain ⟨after, afterFound, same⟩ := same
  exact ⟨view, tab, after, ratio, afterFound, (Prod.mk.inj same).1 ▸ within⟩

/-- The side of the target on which a moved pane ends up: the side asked for, or the other one
if it was there already. -/
def sideAfterMove (layout : WorkspaceLayout) (pane target : PaneId) (direction : Direction) :
    Direction :=
  if layout.isBeside pane target direction then direction.opposite else direction

theorem isBeside_eq_true {state : SplitTabLayout}
    (located : layout.paneLocation target = some (view, tab))
    (found : layout.tab view tab = some state)
    (beside : layout.isBeside pane target direction = true) :
    ∃ ratio, state.root = direction.split ratio (.leaf pane) (.leaf target) := by
  simp only [isBeside, located, Option.any_some, found, Bool.and_eq_true] at beside
  exact SplitNode.eq_split_of_isSiblingInDirection beside.2

theorem gives_movePane (gives : Gives (movePane pane target direction) layout done next) :
    SamePanes layout next ∧
      next.Beside pane target (layout.sideAfterMove pane target direction) := by
  obtain ⟨committed, draft, edit, rfl⟩ := gives_commit gives
  have sound := committed.wasValid.sound
  simp only [gives_bind_get, gives_bind_require, gives_bind_ensure, decide_eq_true_iff] at edit
  obtain ⟨different, ⟨view, tab⟩, located, edit⟩ := edit
  change SamePanes layout draft ∧ draft.Beside pane target _
  unfold sideAfterMove
  split at edit
  · rename_i beside
    rw [gives_bind_get, gives_bind_require] at edit
    obtain ⟨state, found, edit⟩ := edit
    obtain ⟨_, middle, put, focus⟩ := gives_bind.mp edit
    obtain ⟨rewritten, -⟩ := gives_putTab found put
    obtain ⟨ratio, root_eq⟩ := isBeside_eq_true located found beside
    constructor
    · intro other shown
      rw [samePanes_focusPaneInner focus, rewritten.holds_iff, holds_iff view tab, HoldsAt, found]
      simp only [Option.some.injEq, exists_eq_left']
    · rw [if_pos beside]
      refine beside_of_focusPaneInner focus ⟨view, tab, _, ratio, rewritten.tab_eq, ?_⟩
      rw [root_eq, SplitNode.swapLeaves_split]
      exact .here
  · rename_i apart
    obtain ⟨paneState, detachedLayout, detach, edit⟩ := gives_bind.mp edit
    rw [gives_bind_tabMut] at edit
    obtain ⟨state, found, edit⟩ := edit
    obtain ⟨_, middle, put, focus⟩ := gives_bind.mp edit
    obtain ⟨rewritten, -⟩ := gives_putTab found put
    obtain ⟨fromView, fromTab, stored, rest, detached⟩ := gives_detachPane detach
    constructor
    · intro other shown
      have gone : ∀ state, ¬ detachedLayout.Holds pane state := fun state held =>
        ((detached.holds_iff sound).mp held).1 rfl
      rw [samePanes_focusPaneInner focus, rewritten.holds_insert_iff found rfl gone,
        detached.holds_iff sound]
      by_cases same : other = pane
      · subst same
        simp only [true_and, ne_eq, not_true_eq_false, false_and, or_false]
        exact ⟨fun eq => eq ▸ detached.holds, fun held => sound.holds_unique held detached.holds⟩
      · simp [same]
    · rw [if_neg apart]
      have there := detached.target_kept sound different.symm located found
      have inserted : SplitNode.Within
          (direction.split (.finite (1 / 2)) (.leaf pane) (.leaf target))
          (state.root.insert target pane direction).1 :=
        SplitNode.within_replaceWithSplit _ _ there
      exact beside_of_focusPaneInner focus ⟨view, tab, _, _, rewritten.tab_eq, inserted⟩

end Zeron.Workspace.WorkspaceLayout
