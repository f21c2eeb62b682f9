import Zeron.Transition.Run
import Zeron.Workspace.Moves

/-!
# The laws of the layout calls

Whatever calls are made, in whatever order: the layout is valid after each, a
refused call changes nothing, an accepted one counts one revision and uses no
id again, and the panes are those before, with what the call was to add or to
close.
-/

namespace Zeron.Workspace

open Zeron.Transition
open WorkspaceLayout

/-- A call with its arguments. -/
inductive Op where
  | splitView (target : ViewId) (direction : Direction) (pane : PaneState)
  | addTab (view : ViewId) (pane : PaneState)
  | splitPane (target : PaneId) (direction : Direction) (pane : PaneState)
  | closePane (pane : PaneId)
  | closeTab (view : ViewId) (tab : TabId)
  | closeView (view : ViewId)
  | closeToLauncher (pane : PaneId)
  | focusView (view : ViewId)
  | focusTab (view : ViewId) (tab : TabId)
  | focusPane (pane : PaneId)
  | movePane (pane target : PaneId) (direction : Direction)
  | swapPanes (a b : PaneId)
  | moveTab (tab : TabId) (target : ViewId)
  | paneToTab (pane : PaneId) (target : ViewId)
  | reorderTab (tab : TabId) (target : ViewId) (before : Option TabId)
  | paneToView (pane : PaneId) (target : ViewId) (direction : Direction)
  | tabToView (tab : TabId) (target : ViewId) (direction : Direction)
  | mergeTab (tab : TabId) (target : PaneId) (direction : Direction)
  | setViewRatio (path : List Branch) (ratio : F64)
  | setPaneRatio (view : ViewId) (tab : TabId) (path : List Branch) (ratio : F64)

variable {op : Op}

namespace Op

/-- An edit without its answer. -/
def unanswered {α : Type} (edit : Edit α) : Edit Unit :=
  edit >>= fun _ => pure ()

def edit : Op → Edit Unit
  | splitView target direction pane => unanswered (WorkspaceLayout.splitView target direction pane)
  | addTab view pane => unanswered (WorkspaceLayout.addTab view pane)
  | splitPane target direction pane => unanswered (WorkspaceLayout.splitPane target direction pane)
  | closePane pane => WorkspaceLayout.closePane pane
  | closeTab view tab => WorkspaceLayout.closeTab view tab
  | closeView view => WorkspaceLayout.closeView view
  | closeToLauncher pane => WorkspaceLayout.closeToLauncher pane
  | focusView view => WorkspaceLayout.focusView view
  | focusTab view tab => WorkspaceLayout.focusTab view tab
  | focusPane pane => WorkspaceLayout.focusPane pane
  | movePane pane target direction => WorkspaceLayout.movePane pane target direction
  | swapPanes a b => WorkspaceLayout.swapPanes a b
  | moveTab tab target => WorkspaceLayout.moveTab tab target
  | paneToTab pane target => unanswered (WorkspaceLayout.paneToTab pane target)
  | reorderTab tab target before => WorkspaceLayout.reorderTab tab target before
  | paneToView pane target direction => unanswered (WorkspaceLayout.paneToView pane target direction)
  | tabToView tab target direction => unanswered (WorkspaceLayout.tabToView tab target direction)
  | mergeTab tab target direction => WorkspaceLayout.mergeTab tab target direction
  | setViewRatio path ratio => WorkspaceLayout.setViewRatio path ratio
  | setPaneRatio view tab path ratio => WorkspaceLayout.setPaneRatio view tab path ratio

/-- The layout after a call, accepted or not. -/
def after (op : Op) (layout : WorkspaceLayout) : WorkspaceLayout :=
  match op.edit.run layout with
  | .ok _ next => next
  | .error _ next => next

/-- The call returns `Ok`. -/
def accepted (op : Op) (layout : WorkspaceLayout) : Bool :=
  match op.edit.run layout with
  | .ok _ _ => true
  | .error _ _ => false

theorem gives_of_accepted {layout : WorkspaceLayout} (ok : op.accepted layout = true) :
    Gives op.edit layout () (op.after layout) := by
  unfold accepted at ok
  unfold Gives after
  cases ran : op.edit.run layout with
  | ok _ next => rfl
  | error _ _ => simp [ran] at ok

end Op

/-! ## What a call is to do -/

variable {layout next : WorkspaceLayout}

/-- The panes are those before, in their states. -/
def Kept (layout next : WorkspaceLayout) : Prop :=
  ∀ pane, next.pane pane = layout.pane pane

/-- One pane more, under a new id. -/
def Gained (layout next : WorkspaceLayout) (state : PaneState) : Prop :=
  ∃ id, layout.nextId ≤ id ∧
    ∀ pane, next.pane pane = if pane = id then some state else layout.pane pane

/-- The named panes are gone, and no other. -/
def Closed (layout next : WorkspaceLayout) (named : PaneId → Prop) : Prop :=
  ∀ pane, (named pane → next.pane pane = none) ∧ (¬ named pane → next.pane pane = layout.pane pane)

/-- What an accepted call does to the panes. -/
def Op.Does (layout next : WorkspaceLayout) : Op → Prop
  | .splitView _ _ state | .addTab _ state | .splitPane _ _ state => Gained layout next state
  | .closePane pane => Closed layout next (· = pane)
  | .closeTab view tab => Closed layout next fun pane => layout.paneLocation pane = some (view, tab)
  | .closeView view =>
      Closed layout next fun pane => ∃ tab, layout.paneLocation pane = some (view, tab)
  | .closeToLauncher pane =>
      ∃ added : Option PaneId, (∀ id ∈ added, layout.nextId ≤ id) ∧
        ∀ other, next.pane other =
          if other = pane then none else if added = some other then some .empty
          else layout.pane other
  | .movePane pane target direction =>
      Kept layout next ∧ next.Beside pane target (layout.sideAfterMove pane target direction)
  | .moveTab tab target =>
      Kept layout next ∧ ∃ source state, TabMoved layout next source target tab state
  | .mergeTab tab target direction =>
      Kept layout next ∧ Merged layout next tab target direction
  | _ => Kept layout next

/-- A refused call leaves the layout as it was; an accepted one commits, and does what it is
to do. -/
structure Law (layout : WorkspaceLayout) (op : Op) : Prop where
  refused : op.accepted layout = false → op.after layout = layout
  committed : op.accepted layout = true → Committed layout (op.after layout)
  does : op.accepted layout = true → op.Does layout (op.after layout)

/-! ## Every call -/

theorem gives_unanswered {α : Type} {edit : Edit α} {done : Unit}
    (gives : Gives (Op.unanswered edit) layout done next) :
    ∃ result, Gives edit layout result next := by
  obtain ⟨result, _, ran, gives⟩ := gives_bind.mp gives
  obtain ⟨-, rfl⟩ := gives_pure.mp gives
  exact ⟨result, ran⟩

theorem unanswered_eq_error {α : Type} {edit : Edit α} {error : LayoutError}
    (refused : (Op.unanswered edit).run layout = .error error next) :
    edit.run layout = .error error next := by
  rw [Op.unanswered, EStateM.run_bind] at refused
  cases ran : edit.run layout with
  | ok _ _ => simp [ran] at refused
  | error _ _ => simpa [ran] using refused

theorem committed_of_gives (gives : Gives op.edit layout () next) : Committed layout next := by
  cases op with
  | splitView | addTab | splitPane | paneToTab | paneToView | tabToView =>
      obtain ⟨_, gives⟩ := gives_unanswered gives
      exact (gives_commit gives).1
  | swapPanes a b =>
      rw [Op.edit, swapPanes, gives_bind_ensure] at gives
      exact (gives_commit gives.2).1
  | _ => exact (gives_commit gives).1

theorem eq_of_refused {error : LayoutError} (refused : op.edit.run layout = .error error next) :
    next = layout := by
  cases op with
  | splitView | addTab | splitPane | paneToTab | paneToView | tabToView =>
      exact commit_eq_error (unanswered_eq_error refused)
  | swapPanes a b =>
      simp only [Op.edit, swapPanes, ensure] at refused
      split at refused
      · exact commit_eq_error refused
      · cases refused
        rfl
  | _ => exact commit_eq_error refused

theorem WorkspaceLayout.SamePanes.kept (same : SamePanes layout next) (committed : Committed layout next) :
    Kept layout next := fun pane =>
  committed.valid.sound.pane_congr committed.wasValid.sound (same pane)

/-- A pane that only the given state is held in is shown in it. -/
theorem WorkspaceLayout.Committed.pane_eq (committed : Committed layout next) {pane : PaneId}
    {shown : Option PaneState} (held : ∀ state, next.Holds pane state ↔ shown = some state) :
    next.pane pane = shown :=
  Option.ext fun state => by rw [committed.valid.sound.pane_eq_some_iff, held]

theorem WorkspaceLayout.Committed.gained (committed : Committed layout next) {id : PaneId} {paneState : PaneState}
    (new : layout.nextId ≤ id)
    (held : ∀ pane state,
      next.Holds pane state ↔ (pane = id ∧ state = paneState) ∨ layout.Holds pane state) :
    Gained layout next paneState := by
  refine ⟨id, new, fun pane => committed.pane_eq fun state => ?_⟩
  rw [held]
  split
  · rename_i same
    subst same
    simp [committed.wasValid.sound.not_holds_of_le new, eq_comm]
  · rename_i other
    simp [other, committed.wasValid.sound.pane_eq_some_iff]

theorem WorkspaceLayout.Committed.closed (committed : Committed layout next) {named : PaneId → Prop}
    (held : ∀ pane state, next.Holds pane state ↔ ¬ named pane ∧ layout.Holds pane state) :
    Closed layout next named := by
  refine fun pane => ⟨fun gone => committed.pane_eq fun state => ?_,
    fun other => committed.pane_eq fun state => ?_⟩
  · simp [held, gone]
  · rw [held, committed.wasValid.sound.pane_eq_some_iff, and_iff_right other]

/-- The panes of a tab are those located there. -/
theorem holdsElsewhere_iff {pane : PaneId} {view : ViewId} {tab : TabId} (sound : layout.Sound)
    (state : PaneState) :
    layout.HoldsElsewhere view tab pane state ↔
      layout.paneLocation pane ≠ some (view, tab) ∧ layout.Holds pane state := by
  constructor
  · rintro ⟨otherView, otherTab, different, stored, found, shown⟩
    refine ⟨fun located => different ?_, otherView, otherTab, stored, found, shown⟩
    obtain ⟨here, hereFound, there⟩ := tab_of_paneLocation located
    exact sound.pane_unique found hereFound
      (Std.ExtTreeMap.mem_iff_isSome_getElem?.mpr (by simp [shown])) there
  · rintro ⟨unlocated, otherView, otherTab, stored, found, shown⟩
    refine ⟨otherView, otherTab, ?_, stored, found, shown⟩
    rintro ⟨rfl, rfl⟩
    exact unlocated (sound.paneLocation_eq_some_iff.mpr ⟨stored, found,
      Std.ExtTreeMap.mem_iff_isSome_getElem?.mpr (by simp [shown])⟩)

theorem holdsInOtherView_iff {pane : PaneId} {view : ViewId} (sound : layout.Sound)
    (state : PaneState) :
    (∃ otherView tab, otherView ≠ view ∧ layout.HoldsAt otherView tab pane state) ↔
      (¬ ∃ tab, layout.paneLocation pane = some (view, tab)) ∧ layout.Holds pane state := by
  constructor
  · rintro ⟨otherView, otherTab, different, stored, found, shown⟩
    refine ⟨?_, otherView, otherTab, stored, found, shown⟩
    rintro ⟨tab, located⟩
    obtain ⟨here, hereFound, there⟩ := tab_of_paneLocation located
    exact different (sound.pane_unique found hereFound
      (Std.ExtTreeMap.mem_iff_isSome_getElem?.mpr (by simp [shown])) there).1
  · rintro ⟨unlocated, otherView, otherTab, stored, found, shown⟩
    refine ⟨otherView, otherTab, ?_, stored, found, shown⟩
    rintro rfl
    exact unlocated ⟨otherTab, sound.paneLocation_eq_some_iff.mpr ⟨stored, found,
      Std.ExtTreeMap.mem_iff_isSome_getElem?.mpr (by simp [shown])⟩⟩

theorem does_of_gives (gives : Gives op.edit layout () next) : op.Does layout next := by
  have committed := committed_of_gives gives
  have sound := committed.wasValid.sound
  cases op with
  | splitView target direction state =>
      obtain ⟨added, gives⟩ := gives_unanswered gives
      obtain ⟨tab, id, opened, -, -⟩ := gives_splitView gives
      exact committed.gained opened.pane_new fun pane state =>
        opened.rewritten.holds_single_iff (sound.tab_of_le opened.view_new tab)
  | addTab view state =>
      obtain ⟨tab, gives⟩ := gives_unanswered gives
      obtain ⟨id, new, free, rewritten⟩ := gives_addTab gives
      exact committed.gained new fun pane state => rewritten.holds_single_iff free
  | splitPane target direction state =>
      obtain ⟨id, gives⟩ := gives_unanswered gives
      obtain ⟨new, held⟩ := gives_splitPane gives
      exact committed.gained new held
  | closePane pane => exact committed.closed (gives_closePane gives)
  | closeTab view tab =>
      exact committed.closed fun pane state =>
        (holds_iff_of_closeTab gives state).trans (holdsElsewhere_iff sound state)
  | closeView view =>
      exact committed.closed fun pane state =>
        (holds_iff_of_closeView gives state).trans (holdsInOtherView_iff sound state)
  | closeToLauncher pane =>
      obtain ⟨added, new, held⟩ := gives_closeToLauncher gives
      refine ⟨added, new, fun other => committed.pane_eq fun state => ?_⟩
      rw [held]
      split
      · rename_i same
        simp [same]
      · rename_i different
        split
        · rename_i isNew
          simp [different, isNew, sound.not_holds_of_le (new other isNew), eq_comm]
        · rename_i old
          simp [different, old, sound.pane_eq_some_iff]
  | movePane pane target direction =>
      obtain ⟨same, beside⟩ := gives_movePane gives
      exact ⟨same.kept committed, beside⟩
  | moveTab tab target =>
      obtain ⟨source, state, moved⟩ := gives_moveTab gives
      exact ⟨(moved.samePanes sound).kept committed, source, state, moved⟩
  | mergeTab tab target direction =>
      have merged := gives_mergeTab gives
      exact ⟨merged.panes.kept committed, merged⟩
  | focusView view => exact (gives_focusView gives).kept committed
  | focusTab view tab => exact (gives_focusTab gives).kept committed
  | focusPane pane => exact (gives_focusPane gives).kept committed
  | swapPanes a b => exact (gives_swapPanes gives).kept committed
  | paneToTab pane target =>
      obtain ⟨_, gives⟩ := gives_unanswered gives
      exact (gives_paneToTab gives).kept committed
  | reorderTab tab target before => exact (gives_reorderTab gives).kept committed
  | paneToView pane target direction =>
      obtain ⟨_, gives⟩ := gives_unanswered gives
      exact (gives_paneToView gives).kept committed
  | tabToView tab target direction =>
      obtain ⟨_, gives⟩ := gives_unanswered gives
      exact (gives_tabToView gives).kept committed
  | setViewRatio path ratio => exact (gives_setViewRatio gives).kept committed
  | setPaneRatio view tab path ratio => exact (gives_setPaneRatio gives).kept committed

theorem after_of_refused (refused : op.accepted layout = false) : op.after layout = layout := by
  unfold Op.accepted at refused
  unfold Op.after
  cases ran : op.edit.run layout with
  | ok _ next => simp [ran] at refused
  | error _ next => exact eq_of_refused ran

theorem law (layout : WorkspaceLayout) (op : Op) : Law layout op where
  refused := after_of_refused
  committed ok := committed_of_gives (Op.gives_of_accepted ok)
  does ok := does_of_gives (Op.gives_of_accepted ok)

/-! ## Runs -/

def step : Step WorkspaceLayout Op := fun layout op =>
  some (op.after layout)

theorem after_cases (layout : WorkspaceLayout) (op : Op) :
    op.after layout = layout ∨ Committed layout (op.after layout) := by
  cases ok : op.accepted layout with
  | true => exact Or.inr ((law layout op).committed ok)
  | false => exact Or.inl ((law layout op).refused ok)

theorem valid_step (valid : layout.Valid) (stepped : step layout op = some next) : next.Valid := by
  cases stepped
  rcases after_cases layout op with same | committed
  · rwa [same]
  · exact committed.valid

/-- No id below the counter comes back. -/
theorem ids_of_run {ops : List Op} (ran : run step layout ops = some next) :
    layout.nextId ≤ next.nextId ∧ ∀ id ∈ next.ids, id ∈ layout.ids ∨ layout.nextId ≤ id := by
  induction ops generalizing layout with
  | nil =>
      cases ran
      exact ⟨le_rfl, fun id listed => Or.inl listed⟩
  | cons op ops ih =>
      obtain ⟨_, stepped, later⟩ := run_cons_eq_some_iff.mp ran
      cases stepped
      obtain ⟨grown, kept⟩ := ih later
      rcases after_cases layout op with same | committed
      · rw [same] at grown kept
        exact ⟨grown, kept⟩
      · refine ⟨committed.nextId_le.trans grown, fun id listed => ?_⟩
        rcases kept id listed with old | new
        · exact committed.fresh id old
        · exact Or.inr (committed.nextId_le.trans new)

/-- An id that was removed is not used again. -/
theorem removed_stays_removed {ops : List Op} {middle : WorkspaceLayout} {id : Nat}
    {earlier : List Op} (valid : layout.Valid) (used : id ∈ layout.ids)
    (ranEarlier : run step layout earlier = some middle) (removed : id ∉ middle.ids)
    (ran : run step middle ops = some next) : id ∉ next.ids := by
  intro back
  rcases (ids_of_run ran).2 id back with there | new
  · exact removed there
  · have below := valid.sound.below id used
    have grown := (ids_of_run ranEarlier).1
    exact absurd (below.trans_le grown) (not_lt.mpr new)

theorem valid_new : WorkspaceLayout.new.Valid := by
  unfold WorkspaceLayout.Valid
  decide +kernel

/-- In every run the layout is valid throughout, every call obeys the law, and no id is used
again once it was removed. -/
theorem layouts_are_valid_and_conserved (ops : List Op) :
    EveryState step WorkspaceLayout.Valid .new ops ∧ EveryStep step Law .new ops ∧
      ∀ (first second third : List Op) {one two three : WorkspaceLayout},
        run step .new first = some one → run step one second = some two →
        run step two third = some three → ∀ id ∈ one.ids, id ∉ two.ids → id ∉ three.ids := by
  have valid : ∀ ops, EveryState step WorkspaceLayout.Valid .new ops :=
    everyState_of_invariant valid_step id valid_new
  refine ⟨valid ops, everyStep_of_forall law ops, ?_⟩
  intro first second third one two three ranFirst ranSecond ranThird id used removed
  exact removed_stays_removed ((valid first).final ranFirst) used ranSecond removed ranThird

/-- Pane 4 is on the right of pane 3, and is moved to the right of it: now it is on the left. -/
theorem pane_already_beside_changes_sides :
    ∃ layout next, run step .new [.splitPane 3 .right .empty] = some layout ∧
      Gives (WorkspaceLayout.movePane 4 3 .right) layout () next ∧ ¬ next.Beside 4 3 .right := by
  let layout := (Op.splitPane 3 .right .empty).after .new
  have ok : (Op.movePane 4 3 .right).accepted layout = true := by decide +kernel
  have gives := Op.gives_of_accepted ok
  refine ⟨layout, (Op.movePane 4 3 .right).after layout, rfl, gives, ?_⟩
  have sound := (committed_of_gives gives).valid.sound
  have root : (((Op.movePane 4 3 .right).after layout).tab 1 2).map SplitTabLayout.root =
      some (.split true (.finite (1 / 2)) (.leaf 4) (.leaf 3)) := by decide +kernel
  obtain ⟨stored, storedFound, root_eq⟩ := Option.map_eq_some_iff.mp root
  rintro ⟨view, tab, state, ratio, found, within⟩
  have shown : 4 ∈ state.root.leaves := within.mem_leaves (by simp [Direction.split,
    Direction.before, SplitNode.leaves])
  have here : 4 ∈ stored.root.leaves := by simp [root_eq, SplitNode.leaves]
  obtain ⟨rfl, rfl⟩ := sound.pane_unique found storedFound ((sound.leaves _ _ _ found 4).mp shown)
    ((sound.leaves _ _ _ storedFound 4).mp here)
  obtain rfl := Option.some.inj (found.symm.trans storedFound)
  rw [root_eq] at within
  cases within with
  | first _ _ _ inside => cases inside
  | second _ _ _ inside => cases inside

end Zeron.Workspace
