import Zeron.Files.Watch

/-!
# Bursts of events and the trees around them

What a burst leaves of a path is decided by the last reports about it.  A rename that is
reported at once says nothing of its old path on its own, so another report of the new path
can hide it.
-/

namespace Zeron.Files

open Zeron.Data

/-- What an event says of the files of the workspace. -/
inductive Report where
  | made (path : String)
  | changed (path : String)
  | gone (path : String)
  | moved (oldPath path : String)
  deriving DecidableEq

variable {α : Type}

def FileOp.reports : FileOp α → List Report
  | .create path _ => [.made path]
  | .modify path _ => [.changed path]
  | .remove path => [.gone path]
  | .rename .both oldPath path => [.moved oldPath path]
  | .rename .fromTo oldPath path => [.gone oldPath, .made path]

/-- A report under the path itself. -/
def Report.own (path : String) : Report → Bool
  | .made other | .changed other | .gone other | .moved _ other => decide (other = path)

/-- A report that decides whether the path is there. -/
def Report.decides (path : String) : Report → Bool
  | .made other | .gone other | .moved _ other => decide (other = path)
  | .changed _ => false

/-- A report that replaces whatever was kept of the path. -/
def Report.replaces (path : String) : Report → Bool
  | .gone other | .moved _ other => decide (other = path)
  | .made _ | .changed _ => false

/-- The reports of a burst that speaks the truth once it is folded. -/
structure Stands (finish : Tree α) (reports : List Report) : Prop where
  /-- A path that is gone is last reported as removed, if it is reported at all. -/
  gone : ∀ path, finish path = none → (∃ report ∈ reports, report.own path) →
    reports.reverse.find? (Report.decides path) = some (.gone path)
  /-- The old path of a rename whose target was not removed or replaced is not made again. -/
  moved : ∀ oldPath path,
    reports.reverse.find? (Report.replaces path) = some (.moved oldPath path) →
      finish oldPath = none
  /-- A rename that alone reports its old path is the last one onto its target, which is
  not removed. -/
  kept : ∀ oldPath path, (∀ report ∈ reports, ¬ report.own oldPath) →
    Report.moved oldPath path ∈ reports →
      reports.reverse.find? (Report.replaces path) = some (.moved oldPath path)

/-! ## What is kept of a path -/

/-- What the changes say of a path. -/
inductive Mark where
  | created
  | modified
  | removed
  | renamed (oldPath : String)
  deriving DecidableEq

def Mark.change (path : String) : Mark → WorkspaceFileChange
  | .created => WorkspaceFileChange.plain .created path
  | .modified => WorkspaceFileChange.plain .modified path
  | .removed => WorkspaceFileChange.plain .removed path
  | .renamed oldPath => { operationId := none, kind := .renamed, path, oldPath := some oldPath }

/-- The mark of a path after a report. -/
def Report.mark (path : String) (before : Option Mark) : Report → Option Mark
  | .made other =>
      if other = path then
        match before with
        | some (.renamed oldPath) => some (.renamed oldPath)
        | _ => some .created
      else before
  | .changed other => if other = path then some (before.getD .modified) else before
  | .gone other => if other = path then some .removed else before
  | .moved oldPath other => if other = path then some (.renamed oldPath) else before

/-- The mark that the reports leave. -/
def marks (reports : List Report) (path : String) : Option Mark :=
  reports.foldl (Report.mark path) none

/-- A report as it is folded into the changes. -/
def Report.fold (changes : Changes) : Report → Changes
  | .made path => foldChange changes .created path
  | .changed path => foldChange changes .modified path
  | .gone path => foldChange changes .removed path
  | .moved oldPath path =>
      Assoc.put changes path
        { operationId := none, kind := .renamed, path, oldPath := some oldPath }

theorem marks_snoc (reports : List Report) (report : Report) (path : String) :
    marks (reports ++ [report]) path = report.mark path (marks reports path) := by
  rw [marks, List.foldl_append]
  rfl

variable {path : String} {changes : Changes}

theorem lookup_foldChange_of_ne {kind : WorkspaceFileChangeKind} {other : String}
    (apart : other ≠ path) :
    (foldChange changes kind path).lookup other = changes.lookup other := by
  unfold foldChange
  split
  · split
    · exact Assoc.lookup_put_of_ne apart _
    · split
      · rfl
      · exact Assoc.lookup_put_of_ne apart _
  · exact Assoc.lookup_put_of_ne apart _

/-- The mark of a path after a change of it that is no rename. -/
def Mark.after (before : Option Mark) : WorkspaceFileChangeKind → Option Mark
  | .created =>
      match before with
      | some (.renamed oldPath) => some (.renamed oldPath)
      | _ => some .created
  | .modified => some (before.getD .modified)
  | .removed => some .removed
  | .renamed => before

variable {before : Option Mark}

theorem lookup_foldChange_self (holds : changes.lookup path = before.map (Mark.change path))
    {kind : WorkspaceFileChangeKind} (plain : kind ≠ .renamed) :
    (foldChange changes kind path).lookup path =
      (Mark.after before kind).map (Mark.change path) := by
  unfold foldChange
  rcases before with _ | _ | _ | _ | oldPath <;> cases kind
  all_goals
    first
    | exact absurd rfl plain
    | simp [Mark.change, Mark.after, WorkspaceFileChange.plain, watchChangePriority, holds]

/-- The changes hold the marks. -/
theorem lookup_fold (holds : changes.lookup path = before.map (Mark.change path))
    (report : Report) :
    (report.fold changes).lookup path = (report.mark path before).map (Mark.change path) := by
  rcases report with other | other | other | ⟨oldPath, other⟩
  all_goals
    by_cases same : other = path
    · subst same
      simp only [Report.mark]
      first
      | exact lookup_foldChange_self holds (by simp)
      | exact Assoc.lookup_put_self _
    · simp only [Report.fold, Report.mark, if_neg same]
      first
      | rw [lookup_foldChange_of_ne (Ne.symm same), holds]
      | rw [Assoc.lookup_put_of_ne (Ne.symm same), holds]

theorem nodup_fold (distinct : (changes.map Prod.fst).Nodup) (report : Report) :
    ((report.fold changes).map Prod.fst).Nodup := by
  have put (kind : WorkspaceFileChangeKind) (path : String) :
      ((foldChange changes kind path).map Prod.fst).Nodup := by
    unfold foldChange
    split
    · split
      · exact Assoc.nodup_put distinct _
      · split
        · exact distinct
        · exact Assoc.nodup_put distinct _
    · exact Assoc.nodup_put distinct _
  cases report with
  | made path => exact put .created path
  | changed path => exact put .modified path
  | gone path => exact put .removed path
  | moved oldPath path => exact Assoc.nodup_put distinct _

theorem lookup_foldl_fold (reports : List Report) (path : String) :
    (reports.foldl Report.fold []).lookup path = (marks reports path).map (Mark.change path) := by
  induction reports using List.reverseRecOn with
  | nil => rfl
  | append_singleton reports report ih =>
      rw [List.foldl_append, marks_snoc]
      exact lookup_fold ih report

theorem nodup_foldl_fold (reports : List Report) :
    ((reports.foldl Report.fold []).map Prod.fst).Nodup := by
  induction reports using List.reverseRecOn with
  | nil => exact List.nodup_nil
  | append_singleton reports report ih =>
      rw [List.foldl_append]
      exact nodup_fold ih report

variable {reports : List Report}

/-- The changes of the reports are their marks. -/
theorem mem_changes_iff {change : WorkspaceFileChange} :
    change ∈ sortBy WorkspaceFileChange.path ((reports.foldl Report.fold []).map Prod.snd) ↔
      ∃ path mark, marks reports path = some mark ∧ change = mark.change path := by
  rw [mem_sortBy, List.mem_map]
  constructor
  · rintro ⟨⟨path, listed⟩, stored, rfl⟩
    have found := (Assoc.lookup_eq_some_iff_mem (nodup_foldl_fold reports)).mpr stored
    rw [lookup_foldl_fold, Option.map_eq_some_iff] at found
    rcases found with ⟨mark, marked, same⟩
    exact ⟨path, mark, marked, same.symm⟩
  · rintro ⟨path, mark, marked, rfl⟩
    refine ⟨(path, mark.change path), ?_, rfl⟩
    rw [← Assoc.lookup_eq_some_iff_mem (nodup_foldl_fold reports), lookup_foldl_fold, marked]
    rfl

/-! ## The last reports decide -/

variable {report : Report}

theorem mark_of_not_own (other : ¬ report.own path) (before : Option Mark) :
    report.mark path before = before := by
  cases report <;> simp_all [Report.own, Report.mark]

theorem marks_ne_none_iff : marks reports path ≠ none ↔ ∃ report ∈ reports, report.own path := by
  induction reports using List.reverseRecOn with
  | nil => simp [marks]
  | append_singleton reports report ih =>
      rw [marks_snoc]
      by_cases own : report.own path
      · have marked : report.mark path (marks reports path) ≠ none := by
          cases report <;> simp_all [Report.own, Report.mark]
          split <;> simp
        simp [marked, own]
      · rw [mark_of_not_own own, ih]
        simp [own]

/-- The last report that meets a condition. -/
theorem find?_reverse_snoc {last : Report} {which : Report → Bool} :
    (reports ++ [report]).reverse.find? which = some last ↔
      (which report ∧ report = last) ∨ (¬ which report ∧ reports.reverse.find? which = some last) := by
  rw [List.reverse_append, List.reverse_singleton, List.singleton_append, List.find?_cons]
  cases which report <;> simp

theorem mark_eq_removed_iff :
    report.mark path before = some .removed ↔
      (report.decides path ∧ report = .gone path) ∨
        (¬ report.decides path ∧ before = some .removed) := by
  rcases report with other | other | other | ⟨oldPath, other⟩
  all_goals by_cases same : other = path
  · rcases before with _ | _ | _ | _ | oldPath <;> simp [Report.mark, Report.decides, same]
  · simp [Report.mark, Report.decides, same]
  · rcases before with _ | _ | _ | _ | oldPath <;> simp [Report.mark, Report.decides]
  all_goals simp [Report.mark, Report.decides, same]

variable {oldPath : String}

theorem mark_eq_renamed_iff :
    report.mark path before = some (.renamed oldPath) ↔
      (report.replaces path ∧ report = .moved oldPath path) ∨
        (¬ report.replaces path ∧ before = some (.renamed oldPath)) := by
  rcases report with other | other | other | ⟨moved, other⟩
  all_goals by_cases same : other = path
  · rcases before with _ | _ | _ | _ | old <;> simp [Report.mark, Report.replaces, same]
  · simp [Report.mark, Report.replaces, same]
  · rcases before with _ | _ | _ | _ | old <;> simp [Report.mark, Report.replaces]
  all_goals simp [Report.mark, Report.replaces, same]

theorem marks_eq_removed_iff :
    marks reports path = some .removed ↔
      reports.reverse.find? (Report.decides path) = some (.gone path) := by
  induction reports using List.reverseRecOn with
  | nil => simp [marks]
  | append_singleton reports report ih =>
      rw [marks_snoc, find?_reverse_snoc, mark_eq_removed_iff, ih]

theorem marks_eq_renamed_iff :
    marks reports path = some (.renamed oldPath) ↔
      reports.reverse.find? (Report.replaces path) = some (.moved oldPath path) := by
  induction reports using List.reverseRecOn with
  | nil => simp [marks]
  | append_singleton reports report ih =>
      rw [marks_snoc, find?_reverse_snoc, mark_eq_renamed_iff, ih]

/-! ## The reports and the trees -/

/-- What the reports say of the trees before and after them. -/
structure Told (start tree : Tree α) (reports : List Report) : Prop where
  same : ∀ path, (∀ report ∈ reports, ¬ report.own path) →
    (∀ other, Report.moved path other ∉ reports) → tree path = start path
  removed : ∀ path, reports.reverse.find? (Report.decides path) = some (.gone path) →
    tree path = none
  away : ∀ path other, (∀ report ∈ reports, ¬ report.own path) →
    Report.moved path other ∈ reports → start path ≠ none ∧ tree path = none
  once : ∀ path first second, (∀ report ∈ reports, ¬ report.own path) →
    Report.moved path first ∈ reports → Report.moved path second ∈ reports → first = second

theorem Told.nil (start : Tree α) : Told start start [] where
  same _ _ _ := rfl
  removed _ found := by cases found
  away _ _ _ listed := by cases listed
  once _ _ _ _ listed := by cases listed

theorem forall_not_own_snoc :
    (∀ other ∈ reports ++ [report], ¬ other.own path) ↔
      (∀ other ∈ reports, ¬ other.own path) ∧ ¬ report.own path := by
  simp [or_imp, forall_and]

/-- A report under a path changes the tree there only. -/
theorem Told.snoc {start tree after : Tree α} (told : Told start tree reports)
    (about : report = .made path ∨ report = .changed path ∨ report = .gone path)
    (kept : ∀ other, other ≠ path → after other = tree other)
    (there : report.decides path = false → tree path ≠ none)
    (gone : report = .gone path → after path = none) :
    Told start after (reports ++ [report]) := by
  have not_moved (oldPath target : String) :
      Report.moved oldPath target ∈ reports ++ [report] ↔ .moved oldPath target ∈ reports := by
    rcases about with rfl | rfl | rfl <;> simp
  have apart {other : String} (silent : ¬ report.own other) : other ≠ path := by
    rintro rfl
    rcases about with rfl | rfl | rfl <;> simp [Report.own] at silent
  constructor
  · intro other silent still
    rcases forall_not_own_snoc.mp silent with ⟨before, last⟩
    rw [kept other (apart last)]
    exact told.same other before fun target listed =>
      still target ((not_moved other target).mpr listed)
  · intro other found
    rcases find?_reverse_snoc.mp found with ⟨-, rfl⟩ | ⟨undecided, found⟩
    · have same : other = path := by simpa using about
      subst same
      exact gone rfl
    · have before := told.removed other found
      by_cases same : other = path
      · subst same
        exact absurd before (there (by simpa using undecided))
      · rw [kept other same, before]
  · intro other target silent listed
    rcases forall_not_own_snoc.mp silent with ⟨before, last⟩
    rw [kept other (apart last)]
    exact told.away other target before ((not_moved other target).mp listed)
  · intro other first second silent first_listed second_listed
    exact told.once other first second (forall_not_own_snoc.mp silent).1
      ((not_moved other first).mp first_listed) ((not_moved other second).mp second_listed)

/-- A rename that is reported at once changes the tree under both paths. -/
theorem Told.snoc_moved {start tree after : Tree α} (told : Told start tree reports)
    (there : tree oldPath ≠ none) (apart : oldPath ≠ path)
    (kept : ∀ other, other ≠ path → other ≠ oldPath → after other = tree other)
    (gone : after oldPath = none) : Told start after (reports ++ [.moved oldPath path]) := by
  have not_target {other : String} (silent : ¬ (Report.moved oldPath path).own other) :
      other ≠ path := by
    rintro rfl
    simp [Report.own] at silent
  -- A path that was moved away and not reported since is not there to be moved again.
  have first_time {target : String} (before : ∀ report ∈ reports, ¬ report.own oldPath) :
      Report.moved oldPath target ∉ reports := fun listed =>
    there (told.away oldPath target before listed).2
  constructor
  · intro other silent still
    rcases forall_not_own_snoc.mp silent with ⟨before, last⟩
    have other_old : other ≠ oldPath := by
      rintro rfl
      exact still path (by simp)
    rw [kept other (not_target last) other_old]
    exact told.same other before fun target listed => still target (List.mem_append_left _ listed)
  · intro other found
    rcases find?_reverse_snoc.mp found with ⟨-, same⟩ | ⟨undecided, found⟩
    · cases same
    · by_cases same : other = oldPath
      · rw [same, gone]
      · have target : other ≠ path := by
          rintro rfl
          simp [Report.decides] at undecided
        rw [kept other target same]
        exact told.removed other found
  · intro other target silent listed
    rcases forall_not_own_snoc.mp silent with ⟨before, last⟩
    by_cases same : other = oldPath
    · subst same
      constructor
      · rw [← told.same other before fun target => first_time before]
        exact there
      · exact gone
    · have earlier : Report.moved other target ∈ reports := by simpa [same] using listed
      rw [kept other (not_target last) same]
      exact told.away other target before earlier
  · intro other first second silent first_listed second_listed
    have before := (forall_not_own_snoc.mp silent).1
    by_cases same : other = oldPath
    · subst same
      have first_last : first = path := by
        simpa [first_time before] using first_listed
      have second_last : second = path := by
        simpa [first_time before] using second_listed
      rw [first_last, second_last]
    · have first_earlier : Report.moved other first ∈ reports := by simpa [same] using first_listed
      have second_earlier : Report.moved other second ∈ reports := by
        simpa [same] using second_listed
      exact told.once other first second before first_earlier second_earlier

theorem Told.step {start tree after : Tree α} (told : Told start tree reports) {op : FileOp α}
    (applied : op.apply tree = some after) :
    Told start after (reports ++ op.reports) := by
  cases op with
  | create path content =>
      simp only [FileOp.apply, Option.ite_none_right_eq_some, Option.some.injEq] at applied
      rcases applied with ⟨-, rfl⟩
      exact told.snoc (Or.inl rfl) (fun other apart => Function.update_of_ne apart _ _)
        (by simp [Report.decides]) (by simp)
  | modify path content =>
      simp only [FileOp.apply, Option.ite_none_right_eq_some, Option.some.injEq] at applied
      rcases applied with ⟨there, rfl⟩
      exact told.snoc (Or.inr (Or.inl rfl)) (fun other apart => Function.update_of_ne apart _ _)
        (fun _ => Option.isSome_iff_ne_none.mp there) (by simp)
  | remove path =>
      simp only [FileOp.apply, Option.ite_none_right_eq_some, Option.some.injEq] at applied
      rcases applied with ⟨-, rfl⟩
      exact told.snoc (Or.inr (Or.inr rfl)) (fun other apart => Function.update_of_ne apart _ _)
        (by simp [Report.decides]) (by simp)
  | rename report oldPath path =>
      simp only [FileOp.apply, Option.ite_none_right_eq_some, Option.some.injEq] at applied
      rcases applied with ⟨⟨there, apart⟩, rfl⟩
      cases report with
      | both =>
          refine told.snoc_moved (Option.isSome_iff_ne_none.mp there) apart ?_ ?_
          · intro other target old
            rw [Function.update_of_ne old, Function.update_of_ne target]
          · exact Function.update_self _ _ _
      | fromTo =>
          have left : Told start (Function.update tree oldPath none)
              (reports ++ [.gone oldPath]) :=
            told.snoc (Or.inr (Or.inr rfl)) (fun other apart => Function.update_of_ne apart _ _)
              (by simp [Report.decides]) (by simp)
          have kept : ∀ other, other ≠ path →
              Function.update (Function.update tree path (tree oldPath)) oldPath none other =
                Function.update tree oldPath none other := fun other target => by
            rw [Function.update_comm apart.symm, Function.update_of_ne target]
          have arrived := left.snoc (Or.inl rfl) kept (by simp [Report.decides]) (by simp)
          rw [List.append_assoc] at arrived
          exact arrived

theorem Told.run {start tree finish : Tree α} (told : Told start tree reports)
    {ops : List (FileOp α)} (run : runOps tree ops = some finish) :
    Told start finish (reports ++ ops.flatMap FileOp.reports) := by
  induction ops generalizing tree reports with
  | nil =>
      cases run
      simpa using told
  | cons op ops ih =>
      rw [runOps, List.foldlM_cons, Option.bind_eq_bind, Option.bind_eq_some_iff] at run
      rcases run with ⟨middle, applied, later⟩
      rw [List.flatMap_cons, ← List.append_assoc]
      exact ih (told.step applied) later

/-! ## The events as reports -/

section

variable {root : List OsName} {path : List OsName} {key : String}

theorem isInternalTempWirePath_of_normalize (named : normalizeWatchPath root path = some key) :
    isInternalTempWirePath key = false := by
  rw [normalizeWatchPath, Option.bind_eq_bind, Option.bind_eq_some_iff] at named
  rcases named with ⟨wire, -, named⟩
  split at named
  · cases named
  · rename_i plain
    cases named
    simpa using plain

theorem normalizeIncludingTemp_of_normalize (named : normalizeWatchPath root path = some key) :
    normalizeWatchPathIncludingTemp root path = some key := by
  rw [normalizeWatchPath, Option.bind_eq_bind, Option.bind_eq_some_iff] at named
  rcases named with ⟨wire, found, named⟩
  split at named
  · cases named
  · cases named
    exact found

theorem foldl_of_still {β γ : Type} {step : β → γ → β} {list : List γ}
    (still : ∀ item ∈ list, ∀ state, step state item = state) (state : β) :
    list.foldl step state = state := by
  induction list with
  | nil => rfl
  | cons item list ih =>
      rw [List.foldl_cons, still item List.mem_cons_self]
      exact ih fun other listed => still other (List.mem_cons_of_mem item listed)

theorem foldWatchEvent_of_quiet {event : Except String WatchEvent} (quiet : Quiet root event)
    (state : Bool × Changes) :
    foldWatchEvent root state event = (state.1 || !event.isOk, state.2) := by
  cases event with
  | error message => simp [foldWatchEvent, Except.toBool]
  | ok event =>
      rw [show (!(Except.ok event : Except String WatchEvent).isOk) = false from rfl, Bool.or_false]
      unfold foldWatchEvent
      split
      · rename_i same
        cases same
      · rename_i first second rest same
        cases same
        have outside := quiet.resolve_left (by simp)
        have target : (second :: rest).getLast?.bind (normalizeWatchPath root) = none := by
          exact outside _ (List.mem_cons_of_mem first (List.getLast_mem _))
        rw [target]
        cases normalizeWatchPathIncludingTemp root first <;> rfl
      · rename_i same
        cases same
        cases means : changeKindOf event.kind with
        | none => rfl
        | some kind =>
            rcases quiet with access | outside
            · rw [access] at means
              cases means
            · refine congrArg (Prod.mk state.1) (foldl_of_still (fun path listed changes => ?_) state.2)
              rw [outside path listed]

theorem foldl_foldWatchEvent_of_quiet {events : List (Except String WatchEvent)}
    (quiet : ∀ event ∈ events, Quiet root event) (state : Bool × Changes) :
    events.foldl (foldWatchEvent root) state =
      (state.1 || events.any fun event => !event.isOk, state.2) := by
  induction events generalizing state with
  | nil => simp
  | cons event events ih =>
      rw [List.foldl_cons, foldWatchEvent_of_quiet (quiet event List.mem_cons_self),
        ih fun other listed => quiet other (List.mem_cons_of_mem event listed)]
      simp [Bool.or_assoc]

/-- An event of one path. -/
theorem foldWatchEvent_single (named : normalizeWatchPath root path = some key) {kind : EventKind}
    {change : WorkspaceFileChangeKind} (means : changeKindOf kind = some change)
    (state : Bool × Changes) :
    foldWatchEvent root state (.ok { kind, paths := [path] }) =
      (state.1, foldChange state.2 change key) := by
  simp [foldWatchEvent, means, named]

theorem foldWatchEvent_both {oldPath : List OsName} {oldKey : String}
    (old : normalizeWatchPath root oldPath = some oldKey)
    (new : normalizeWatchPath root path = some key) (state : Bool × Changes) :
    foldWatchEvent root state (.ok { kind := .modify (.name .both), paths := [oldPath, path] }) =
      (state.1, Report.fold state.2 (.moved oldKey key)) := by
  simp [foldWatchEvent, normalizeIncludingTemp_of_normalize old, new, foldRename,
    isInternalTempWirePath_of_normalize old, Report.fold]

theorem foldl_of_reports {ops : List (FileOp α)} {events : List (Except String WatchEvent)}
    (reports : Reports root ops events) (state : Bool × Changes) :
    events.foldl (foldWatchEvent root) state =
      (state.1 || events.any fun event => !event.isOk,
        (ops.flatMap FileOp.reports).foldl Report.fold state.2) := by
  induction reports generalizing state with
  | nil => simp
  | quiet quiet _ ih =>
      rw [List.foldl_cons, foldWatchEvent_of_quiet quiet, ih]
      simp [Bool.or_assoc]
  | create named _ ih =>
      rw [List.foldl_cons, foldWatchEvent_single named rfl, ih]
      rfl
  | modify named kind _ ih =>
      rw [List.foldl_cons, foldWatchEvent_single named kind.1, ih]
      rfl
  | remove named _ ih =>
      rw [List.foldl_cons, foldWatchEvent_single named rfl, ih]
      rfl
  | both old new _ ih =>
      rw [List.foldl_cons, foldWatchEvent_both old new, ih]
      rfl
  | fromTo old new between _ ih =>
      rw [List.foldl_cons, foldWatchEvent_single old rfl, List.foldl_append,
        foldl_foldWatchEvent_of_quiet between, List.foldl_cons, foldWatchEvent_single new rfl, ih]
      simp [FileOp.reports, Report.fold, Except.toBool, Bool.or_assoc]

end

/-! ## Bursts -/

theorem Mark.change_path (mark : Mark) (path : String) : (mark.change path).path = path := by
  cases mark <;> rfl

theorem Mark.change_oldPath_iff {mark : Mark} :
    (mark.change path).oldPath = some oldPath ↔ mark = .renamed oldPath := by
  cases mark <;> simp [Mark.change, WorkspaceFileChange.plain]

theorem Mark.change_kind_removed_iff {mark : Mark} :
    (mark.change path).kind = .removed ↔ mark = .removed := by
  cases mark <;> simp [Mark.change, WorkspaceFileChange.plain]

theorem Mark.change_kind_renamed_iff {mark : Mark} :
    (mark.change path).kind = .renamed ↔ ∃ oldPath, mark = .renamed oldPath := by
  cases mark <;> simp [Mark.change, WorkspaceFileChange.plain]

theorem exists_named_iff :
    (∃ change ∈ sortBy WorkspaceFileChange.path ((reports.foldl Report.fold []).map Prod.snd),
      change.path = path ∨ change.oldPath = some path) ↔
      marks reports path ≠ none ∨ ∃ other, marks reports other = some (.renamed path) := by
  constructor
  · rintro ⟨change, listed, named⟩
    rcases mem_changes_iff.mp listed with ⟨key, mark, marked, rfl⟩
    rcases named with same | old
    · rw [Mark.change_path] at same
      subst same
      exact Or.inl (by simp [marked])
    · rw [Mark.change_oldPath_iff] at old
      exact Or.inr ⟨key, old ▸ marked⟩
  · rintro (marked | ⟨other, marked⟩)
    · rcases Option.ne_none_iff_exists'.mp marked with ⟨mark, marked⟩
      exact ⟨mark.change path, mem_changes_iff.mpr ⟨path, mark, marked, rfl⟩,
        Or.inl (mark.change_path path)⟩
    · exact ⟨_, mem_changes_iff.mpr ⟨other, _, marked, rfl⟩, Or.inr rfl⟩

/-- What a burst should say, said of the marks. -/
structure FaithfulMarks (start finish : Tree α) (reports : List Report) : Prop where
  complete : ∀ path, start path ≠ finish path →
    marks reports path ≠ none ∨ ∃ other, marks reports other = some (.renamed path)
  present : ∀ path, finish path ≠ none →
    (marks reports path ≠ none ∨ ∃ other, marks reports other = some (.renamed path)) →
    ∃ mark, marks reports path = some mark ∧ mark ≠ .removed
  gone : ∀ path mark, marks reports path = some mark → finish path = none → mark = .removed
  joined : ∀ path oldPath, marks reports path = some (.renamed oldPath) →
    finish oldPath = none ∧ finish path ≠ none

theorem faithful_iff {start finish : Tree α} :
    Faithful start finish
        (sortBy WorkspaceFileChange.path ((reports.foldl Report.fold []).map Prod.snd)) ↔
      FaithfulMarks start finish reports := by
  constructor
  · rintro ⟨complete, present, gone, joined⟩
    constructor
    · exact fun path differs => exists_named_iff.mp (complete path differs)
    · intro path there named
      rcases present path there (exists_named_iff.mpr named) with ⟨change, listed, same, kind⟩
      rcases mem_changes_iff.mp listed with ⟨key, mark, marked, rfl⟩
      rw [Mark.change_path] at same
      subst same
      exact ⟨mark, marked, fun removed => kind (Mark.change_kind_removed_iff.mpr removed)⟩
    · intro path mark marked absent
      have removed := gone _ (mem_changes_iff.mpr ⟨path, mark, marked, rfl⟩)
        (by rwa [Mark.change_path])
      exact Mark.change_kind_removed_iff.mp removed
    · intro path oldPath marked
      rcases joined _ (mem_changes_iff.mpr ⟨path, _, marked, rfl⟩) rfl with
        ⟨other, same, absent, there⟩
      cases Mark.change_oldPath_iff.mp same
      exact ⟨absent, there⟩
  · rintro ⟨complete, present, gone, joined⟩
    constructor
    · exact fun path differs => exists_named_iff.mpr (complete path differs)
    · intro path there named
      rcases present path there (exists_named_iff.mp named) with ⟨mark, marked, kind⟩
      exact ⟨mark.change path, mem_changes_iff.mpr ⟨path, mark, marked, rfl⟩,
        mark.change_path path, fun removed => kind (Mark.change_kind_removed_iff.mp removed)⟩
    · intro change listed absent
      rcases mem_changes_iff.mp listed with ⟨path, mark, marked, rfl⟩
      rw [Mark.change_path] at absent
      exact Mark.change_kind_removed_iff.mpr (gone path mark marked absent)
    · intro change listed renamed
      rcases mem_changes_iff.mp listed with ⟨path, mark, marked, rfl⟩
      rcases Mark.change_kind_renamed_iff.mp renamed with ⟨oldPath, rfl⟩
      rcases joined path oldPath marked with ⟨absent, there⟩
      exact ⟨oldPath, rfl, absent, there⟩

/-- A rename that a path is marked with was reported. -/
theorem mem_of_marks_renamed (marked : marks reports path = some (.renamed oldPath)) :
    Report.moved oldPath path ∈ reports :=
  List.mem_reverse.mp (List.mem_of_find?_eq_some (marks_eq_renamed_iff.mp marked))

/-- A path that was reported only as the old one of a rename. -/
theorem marks_eq_none_iff : marks reports path = none ↔ ∀ report ∈ reports, ¬ report.own path := by
  rw [← not_iff_not, ← ne_eq, marks_ne_none_iff]
  simp

theorem FaithfulMarks.stands {start finish : Tree α} (told : Told start finish reports)
    (faithful : FaithfulMarks start finish reports) :
    Stands finish reports where
  gone path absent own := by
    rcases Option.ne_none_iff_exists'.mp (marks_ne_none_iff.mpr own) with ⟨mark, marked⟩
    cases faithful.gone path mark marked absent
    exact marks_eq_removed_iff.mp marked
  moved oldPath path last := (faithful.joined path oldPath (marks_eq_renamed_iff.mpr last)).1
  kept oldPath path silent listed := by
    rcases told.away oldPath path silent listed with ⟨before, after⟩
    have differs : start oldPath ≠ finish oldPath := by
      rw [after]
      exact before
    rcases faithful.complete oldPath differs with marked | ⟨other, marked⟩
    · exact absurd (marks_eq_none_iff.mpr silent) marked
    · cases told.once oldPath path other silent listed (mem_of_marks_renamed marked)
      exact marks_eq_renamed_iff.mp marked

theorem Stands.faithfulMarks {start finish : Tree α} (told : Told start finish reports)
    (stands : Stands finish reports) :
    FaithfulMarks start finish reports where
  complete path differs := by
    by_cases silent : ∀ report ∈ reports, ¬ report.own path
    · right
      have moved : ∃ other, Report.moved path other ∈ reports := by
        by_contra still
        exact differs (told.same path silent (not_exists.mp still)).symm
      rcases moved with ⟨other, listed⟩
      exact ⟨other, marks_eq_renamed_iff.mpr (stands.kept path other silent listed)⟩
    · left
      rwa [ne_eq, marks_eq_none_iff]
  present path there named := by
    have not_removed : marks reports path ≠ some .removed := fun removed =>
      there (told.removed path (marks_eq_removed_iff.mp removed))
    cases marked : marks reports path with
    | some mark => exact ⟨mark, rfl, fun removed => not_removed (removed ▸ marked)⟩
    | none =>
        rcases named with own | ⟨other, renamed⟩
        · exact absurd marked own
        · have away := told.away path other (marks_eq_none_iff.mp marked)
            (mem_of_marks_renamed renamed)
          exact absurd away.2 there
  gone path mark marked absent := by
    have own : ∃ report ∈ reports, report.own path :=
      marks_ne_none_iff.mp (by simp [marked])
    have removed := marks_eq_removed_iff.mpr (stands.gone path absent own)
    rw [marked] at removed
    exact Option.some.inj removed
  joined path oldPath marked := by
    constructor
    · exact stands.moved oldPath path (marks_eq_renamed_iff.mp marked)
    · intro absent
      have own : ∃ report ∈ reports, report.own path :=
        marks_ne_none_iff.mp (by simp [marked])
      have removed := marks_eq_removed_iff.mpr (stands.gone path absent own)
      rw [marked] at removed
      cases removed

/-- A burst says of each path what became of it, if and only if it has an error, or the last
reports of each path stand. -/
theorem burst_reports_changes_iff (root : List OsName) {start finish : Tree α}
    {ops : List (FileOp α)} (run : runOps start ops = some finish)
    {burst : List (Except String WatchEvent)} (reports : Reports root ops burst) :
    let result := normalizeWatchEvents root burst
    (result.1 = true ∨ Faithful start finish result.2) ↔
      ((∃ message, .error message ∈ burst) ∨ Stands finish (ops.flatMap FileOp.reports)) := by
  intro result
  have told : Told start finish (ops.flatMap FileOp.reports) := (Told.nil start).run run
  have folded := foldl_of_reports reports (false, [])
  have failed : result.1 = true ↔ ∃ message, .error message ∈ burst := by
    rw [show result.1 = (burst.foldl (foldWatchEvent root) (false, [])).1 from rfl, folded,
      Bool.false_or, List.any_eq_true]
    constructor
    · rintro ⟨event, listed, broken⟩
      cases event with
      | ok event => cases broken
      | error message => exact ⟨message, listed⟩
    · rintro ⟨message, listed⟩
      exact ⟨_, listed, rfl⟩
  have changes : result.2 = sortBy WorkspaceFileChange.path
      (((ops.flatMap FileOp.reports).foldl Report.fold []).map Prod.snd) := by
    rw [show result.2 = sortBy WorkspaceFileChange.path
      ((burst.foldl (foldWatchEvent root) (false, [])).2.map Prod.snd) from rfl, folded]
  rw [failed, changes, faithful_iff]
  apply or_congr_right
  exact ⟨fun faithful => faithful.stands told, fun stands => stands.faithfulMarks told⟩

/-- A tree with one file. -/
def oneFile (path : String) : Tree Nat :=
  Function.update (fun _ => none) path (some 0)

/-- A file is renamed and then written, and another comes and goes. -/
theorem burst_reports_rename_and_later_events :
    let root := [OsName.utf8 "root"]
    let ops : List (FileOp Nat) :=
      [.rename .both "a" "b", .modify "b" 1, .create "c" 2, .remove "c"]
    let burst : List (Except String WatchEvent) :=
      [.ok { kind := .modify (.name .both), paths := [root ++ [.utf8 "a"], root ++ [.utf8 "b"]] },
        .ok { kind := .modify .data, paths := [root ++ [.utf8 "b"]] },
        .ok { kind := .create, paths := [root ++ [.utf8 "c"]] },
        .ok { kind := .remove, paths := [root ++ [.utf8 "c"]] }]
    ∃ finish, runOps (oneFile "a") ops = some finish ∧
      Faithful (oneFile "a") finish (normalizeWatchEvents root burst).2 := by
  intro root ops burst
  have first : normalizeWatchPath root (root ++ [.utf8 "a"]) = some "a" := by decide
  have second : normalizeWatchPath root (root ++ [.utf8 "b"]) = some "b" := by decide
  have third : normalizeWatchPath root (root ++ [.utf8 "c"]) = some "c" := by decide
  have reports : Reports root ops burst :=
    .both first second (.modify second ⟨by decide, by decide⟩ (.create third (.remove third .nil)))
  have run : runOps (oneFile "a") ops = some _ := rfl
  refine ⟨_, run, ((burst_reports_changes_iff root run reports).mpr (Or.inr ?_)).resolve_left
    (by decide)⟩
  constructor
  · intro path absent own
    have named : "b" = path ∨ "c" = path := by simpa [ops, FileOp.reports, Report.own] using own
    rcases named with rfl | rfl
    · cases absent
    · decide
  · intro oldPath path last
    have listed := List.mem_of_find?_eq_some last
    obtain ⟨rfl, rfl⟩ : oldPath = "a" ∧ path = "b" := by simpa [ops, FileOp.reports] using listed
    rfl
  · intro oldPath path _ listed
    obtain ⟨rfl, rfl⟩ : oldPath = "a" ∧ path = "b" := by simpa [ops, FileOp.reports] using listed
    decide

/-- The old path of a rename is forgotten when the new one is removed. -/
theorem renamed_path_is_lost_with_its_target :
    let root := [OsName.utf8 "root"]
    let ops : List (FileOp Nat) := [.rename .both "a" "b", .remove "b"]
    let burst : List (Except String WatchEvent) :=
      [.ok { kind := .modify (.name .both), paths := [root ++ [.utf8 "a"], root ++ [.utf8 "b"]] },
        .ok { kind := .remove, paths := [root ++ [.utf8 "b"]] }]
    Reports root ops burst ∧
      normalizeWatchEvents root burst = (false, [WorkspaceFileChange.plain .removed "b"]) ∧
      ∃ finish, runOps (oneFile "a") ops = some finish ∧
        oneFile "a" "a" = some 0 ∧ finish "a" = none ∧
        ¬ Faithful (oneFile "a") finish (normalizeWatchEvents root burst).2 := by
  intro root ops burst
  have first : normalizeWatchPath root (root ++ [.utf8 "a"]) = some "a" := by decide
  have second : normalizeWatchPath root (root ++ [.utf8 "b"]) = some "b" := by decide
  have result : normalizeWatchEvents root burst =
      (false, [WorkspaceFileChange.plain .removed "b"]) := by decide
  refine ⟨.both first second (.remove second .nil), result, _, rfl, by decide, by decide, ?_⟩
  rintro ⟨complete, -, -, -⟩
  rcases complete "a" (by decide) with ⟨change, listed, named⟩
  cases List.mem_singleton.mp listed
  revert named
  decide

end Zeron.Files
