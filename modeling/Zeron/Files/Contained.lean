import Zeron.Data.Utf8
import Zeron.Files.Paths
import Zeron.Transition.Edit

/-!
# Paths stay in their workspace

A place is inside if the way to it from the root goes over directories only.  Every call acts
inside, except a read whose path ends in a slash after a link.
-/

namespace Zeron.Files.Paths

open Zeron.Data
open Zeron.Data.Resolution
open Zeron.Transition
open WorkspaceFilesError

variable {disk : LinkedDisk} {root current place : Path} {components : Path}

/-! ## What is there at the end of a path -/

/-- There is an entry below a place, and only directories on the way. -/
def Ends (disk : LinkedDisk) (place components : Path) (entry : Entry FileNode) : Prop :=
  Descends disk place components ∧ disk (place ++ components) = some entry

theorem entryAt_eq_ok_iff {followLast : Bool} {path : Path} {entry : Entry FileNode} :
    entryAt disk followLast path = .ok (place, entry) ↔
      resolve disk followLast path = .ok place ∧ disk place = some entry := by
  unfold entryAt
  cases found : resolve disk followLast path with
  | error reason => simp
  | ok reached =>
      dsimp only
      cases there : disk reached with
      | none =>
          simp only [reduceCtorEq, Except.ok.injEq, false_iff, not_and]
          rintro rfl
          simp [there]
      | some other =>
          simp only [Except.ok.injEq, Prod.mk.injEq]
          constructor
          · rintro ⟨rfl, rfl⟩
            exact ⟨rfl, there⟩
          · rintro ⟨rfl, same⟩
            rw [there] at same
            exact ⟨rfl, Option.some.inj same⟩

theorem canonicalize_eq_ok_iff {path : Path} :
    canonicalize disk path = .ok place ↔
      resolve disk true path = .ok place ∧ ∃ entry, disk place = some entry := by
  unfold canonicalize
  cases found : entryAt disk true path with
  | error reason =>
      simp only [Except.map, reduceCtorEq, false_iff, not_and, not_exists]
      intro reached entry there
      rw [entryAt_eq_ok_iff.mpr ⟨reached, there⟩] at found
      cases found
  | ok result =>
      rcases result with ⟨reached, entry⟩
      rcases entryAt_eq_ok_iff.mp found with ⟨resolved, there⟩
      simp only [Except.map, Except.ok.injEq]
      constructor
      · rintro rfl
        exact ⟨resolved, entry, there⟩
      · rintro ⟨again, -⟩
        rw [resolved] at again
        exact Except.ok.inj again

/-- The next name on the way. -/
theorem symlinkMetadata_name (leads : LeadsTo disk current place) {name : String}
    (plain : IsPlain name) {reached : Path} {entry : Entry FileNode} :
    symlinkMetadata disk (current ++ [name]) = .ok (reached, entry) ↔
      reached = place ++ [name] ∧ disk place = some .directory ∧
        disk (place ++ [name]) = some entry := by
  rw [symlinkMetadata, entryAt_eq_ok_iff]
  constructor
  · rintro ⟨found, there⟩
    rcases leads.resolve_name plain found with ⟨here, other, below⟩
    have again := leads.name_of_entry plain here below (show false = true → _ by simp)
    rw [found] at again
    cases again
    exact ⟨rfl, here, there⟩
  · rintro ⟨rfl, here, there⟩
    exact ⟨leads.name_of_entry plain here there (by simp), there⟩

theorem ends_singleton {name : String} {entry : Entry FileNode} :
    Ends disk place [name] entry ↔
      disk place = some .directory ∧ disk (place ++ [name]) = some entry := by
  constructor
  · rintro ⟨descends, there⟩
    exact ⟨descends.head (List.cons_ne_nil name []), there⟩
  · rintro ⟨here, there⟩
    refine ⟨descends_cons here fun first starts apart => ?_, there⟩
    exact absurd (List.prefix_nil.mp starts) apart

theorem ends_cons {name : String} {rest : Path} (more : rest ≠ []) {entry : Entry FileNode} :
    Ends disk place (name :: rest) entry ↔
      disk place = some .directory ∧ disk (place ++ [name]) = some .directory ∧
        Ends disk (place ++ [name]) rest entry := by
  constructor
  · rintro ⟨descends, there⟩
    refine ⟨descends.head (List.cons_ne_nil name rest), descends.tail.head more,
      descends.tail, ?_⟩
    rwa [List.append_assoc]
  · rintro ⟨here, -, descends, there⟩
    refine ⟨descends_cons here descends, ?_⟩
    rwa [List.append_assoc] at there

/-- What the loop makes of the entry at the end. -/
def verdict (path : Path) : Entry FileNode → Except WorkspaceFilesError Path
  | .file _ => .ok path
  | .link _ => .error (unsupported "path is a symlink")
  | .directory | .special => .error (unsupported "path is not a regular file")

/-- The errors of the loop that are not about the end of the path. -/
def IsOther (result : Except WorkspaceFilesError Path) : Prop :=
  (∀ path, result ≠ .ok path) ∧ result ≠ .error (unsupported "path is a symlink") ∧
    result ≠ .error (unsupported "path is not a regular file")

theorem checkedComponents_spec (leads : LeadsTo disk current place)
    (plain : ∀ name ∈ components, IsPlain name) (more : components ≠ []) :
    (∀ entry, Ends disk place components entry →
      checkedComponents disk current components = verdict (current ++ components) entry) ∧
    ((∀ entry, ¬ Ends disk place components entry) →
      IsOther (checkedComponents disk current components)) := by
  induction components generalizing current place with
  | nil => exact absurd rfl more
  | cons name rest ih =>
      have name_plain := plain name List.mem_cons_self
      have rest_plain : ∀ other ∈ rest, IsPlain other := fun other listed =>
        plain other (List.mem_cons_of_mem name listed)
      have look (reached : Path) (entry : Entry FileNode) :=
        @symlinkMetadata_name _ _ _ leads _ name_plain reached entry
      rw [checkedComponents]
      cases found : symlinkMetadata disk (current ++ [name]) with
      | error reason =>
          have absent (entry : Entry FileNode) : ¬ Ends disk place (name :: rest) entry := by
            intro ends
            have here := ends.1.head (List.cons_ne_nil name rest)
            have below : ∃ other, disk (place ++ [name]) = some other := by
              by_cases last : rest = []
              · subst last
                exact ⟨entry, ends.2⟩
              · exact ⟨_, ends.1.tail.head last⟩
            rcases below with ⟨other, below⟩
            rw [(look _ other).mpr ⟨rfl, here, below⟩] at found
            cases found
          refine ⟨fun entry ends => absurd ends (absent entry), fun _ => ?_⟩
          cases reason <;> simp [IsOther, ioError]
      | ok result =>
          rcases result with ⟨reached, entry⟩
          rcases (look reached entry).mp found with ⟨rfl, here, there⟩
          by_cases last : rest = []
          · subst last
            have same (other : Entry FileNode) : Ends disk place [name] other ↔ entry = other := by
              rw [ends_singleton, there, Option.some.injEq]
              exact and_iff_right here
            refine ⟨fun other ends => ?_, fun absent => absurd ((same entry).mpr rfl) (absent entry)⟩
            rw [← (same other).mp ends]
            cases entry <;> simp [verdict, checkedComponents]
          · have blocked (other : Entry FileNode) (wrong : entry ≠ .directory) :
                ¬ Ends disk place (name :: rest) other := by
              rw [ends_cons last, there]
              rintro ⟨-, same, -⟩
              exact wrong (Option.some.inj same)
            cases entry with
            | directory =>
                have step := leads.step name_plain here there rfl
                have later := ih step rest_plain last
                simp only [ends_cons last, here, there, true_and, List.append_assoc] at later ⊢
                rw [if_neg last]
                exact later
            | file node =>
                refine ⟨fun other ends => absurd ends (blocked other (by simp)), fun _ => ?_⟩
                simp [IsOther, last]
            | link target =>
                refine ⟨fun other ends => absurd ends (blocked other (by simp)), fun _ => ?_⟩
                simp [IsOther, last]
            | special =>
                refine ⟨fun other ends => absurd ends (blocked other (by simp)), fun _ => ?_⟩
                simp [IsOther, last]

theorem isOther_of_root {name : String} {rest : Path}
    (failed : ∀ base, resolve disk true root ≠ .ok base) :
    IsOther (checkedComponents disk root (name :: rest)) := by
  rw [checkedComponents]
  cases found : symlinkMetadata disk (root ++ [name]) with
  | error reason => cases reason <;> simp [IsOther, ioError]
  | ok result =>
      rcases entryAt_eq_ok_iff.mp found with ⟨resolved, -⟩
      rcases exists_leadsTo (List.cons_ne_nil name []) resolved with ⟨base, reached, -⟩
      exact absurd reached (failed base)

/-- The entry that the components of a path lead to from the root. -/
def Holds (disk : LinkedDisk) (root components base : Path) (entry : Entry FileNode) : Prop :=
  resolve disk true root = .ok base ∧ Ends disk base components entry

theorem checkedComponents_cases (plain : ∀ name ∈ components, IsPlain name)
    (more : components ≠ []) :
    (∃ base entry, Holds disk root components base entry ∧
      checkedComponents disk root components = verdict (root ++ components) entry) ∨
    ((∀ base entry, ¬ Holds disk root components base entry) ∧
      IsOther (checkedComponents disk root components)) := by
  by_cases rooted : ∃ base, resolve disk true root = .ok base
  · rcases rooted with ⟨base, reached⟩
    have spec := checkedComponents_spec (leadsTo_of_resolve reached) plain more
    by_cases ends : ∃ entry, Ends disk base components entry
    · rcases ends with ⟨entry, ends⟩
      exact Or.inl ⟨base, entry, ⟨reached, ends⟩, spec.1 entry ends⟩
    · refine Or.inr ⟨fun other entry held => ?_, spec.2 (not_exists.mp ends)⟩
      have same : other = base := Except.ok.inj (held.1.symm.trans reached)
      exact ends ⟨entry, same ▸ held.2⟩
  · refine Or.inr ⟨fun base entry held => rooted ⟨base, held.1⟩, ?_⟩
    cases components with
    | nil => exact absurd rfl more
    | cons name rest => exact isOther_of_root (not_exists.mp rooted)

variable {base : Path}

/-- The whole path leads to the entry, if it is not a link that is followed. -/
theorem Holds.leads {entry : Entry FileNode} (holds : Holds disk root components base entry)
    (plain : ∀ name ∈ components, IsPlain name) (more : components ≠ []) (followLast : Bool)
    (still : followLast = true → entry.isLink = false) :
    resolve disk followLast (root ++ components) = .ok (base ++ components) := by
  rcases leadsTo_of_resolve holds.1 with ⟨left, leads⟩
  rw [leads components more followLast]
  exact walk_of_descends holds.2.1 plain more holds.2.2 followLast still left

variable {relative : WorkspaceRelativePath}

theorem checkedFileMetadata_of_holds {entry : Entry FileNode}
    (holds : Holds disk root relative.components base entry)
    (plain : ∀ name ∈ relative.components, IsPlain name) (more : relative.components ≠ []) :
    checkedFileMetadata disk root relative =
      match entry with
      | .file _ =>
          if root <+: base ++ relative.components then .ok (base ++ relative.components, entry)
          else .error (authorization "file escaped workspace")
      | .link _ => .error (unsupported "path is a symlink")
      | .directory | .special => .error (unsupported "path is not a regular file") := by
  have checked : checkedComponents disk root relative.components =
      verdict (root ++ relative.components) entry :=
    (checkedComponents_spec (leadsTo_of_resolve holds.1) plain more).1 entry holds.2
  rw [checkedFileMetadata, checked]
  cases entry with
  | directory => rfl
  | link target => rfl
  | special => rfl
  | file node =>
      have reached := holds.leads plain more true (fun _ => rfl)
      have canonical := canonicalize_eq_ok_iff.mpr ⟨reached, _, holds.2.2⟩
      have placed : symlinkMetadata disk (base ++ relative.components) =
          .ok (base ++ relative.components, .file node) := by
        refine entryAt_eq_ok_iff.mpr ⟨?_, holds.2.2⟩
        exact (isPlace_of_resolve reached).resolve (by simp [more]) holds.2.2 (by simp)
      simp only [verdict, bind, Except.bind, canonical, Except.mapError, placed]
      by_cases inside : root <+: base ++ relative.components
      · simp [inside]
      · simp [throw, throwThe, MonadExceptOf.throw]

theorem checkedFileMetadata_of_not_holds
    (absent : ∀ base entry, ¬ Holds disk root relative.components base entry)
    (plain : ∀ name ∈ relative.components, IsPlain name) (more : relative.components ≠ []) :
    ∃ error, checkedFileMetadata disk root relative = .error error ∧
      error ≠ unsupported "path is a symlink" ∧
      error ≠ unsupported "path is not a regular file" := by
  rcases checkedComponents_cases plain more with
    ⟨base, entry, held, -⟩ | ⟨-, not_ok, other⟩
  · exact absurd held (absent base entry)
  · cases checked : checkedComponents disk root relative.components with
    | ok path => exact absurd checked (not_ok path)
    | error error =>
        rw [checked, ne_eq, ne_eq, Except.error.injEq, Except.error.injEq] at other
        refine ⟨error, ?_, other⟩
        rw [checkedFileMetadata, checked]
        rfl

/-! ## Reads -/

theorem joined_of_no_slash (plain : relative.slash = false) :
    relative.joined root = root ++ relative.components := by
  rw [WorkspaceRelativePath.joined, plain]
  simp

theorem joined_of_slash (slash : relative.slash = true) :
    relative.joined root = root ++ relative.components ++ ["."] := by
  rw [WorkspaceRelativePath.joined, slash]
  rfl

/-- The system finds what the checks found, if no link at the end is followed. -/
theorem resolve_joined {entry : Entry FileNode}
    (holds : Holds disk root relative.components base entry)
    (plain : ∀ name ∈ relative.components, IsPlain name) (more : relative.components ≠ [])
    {followLast : Bool} (real : entry.isLink = true → followLast = false ∧ relative.slash = false)
    {reached : Path} (found : resolve disk followLast (relative.joined root) = .ok reached) :
    reached = base ++ relative.components := by
  cases slash : relative.slash with
  | false =>
      rw [joined_of_no_slash slash, holds.leads plain more followLast] at found
      · exact (Except.ok.inj found).symm
      · intro followed
        cases link : entry.isLink with
        | false => rfl
        | true =>
            rw [(real link).1] at followed
            cases followed
  | true =>
      rw [joined_of_slash slash, resolve_slash_eq_ok_iff] at found
      have whole := holds.leads plain more true fun _ => by
        cases link : entry.isLink with
        | false => rfl
        | true =>
            rw [(real link).2] at slash
            cases slash
      exact Except.ok.inj (found.1.symm.trans whole)

/-- The place is the one that the components name, below the root and apart from what git
keeps, and the way to it goes over directories. -/
structure Inside (disk : LinkedDisk) (root components place : Path) : Prop where
  below : ∃ base, resolve disk true root = .ok base ∧ place = base ++ components ∧
    Descends disk base components
  visible : ∀ component ∈ components, ¬ isGit component

/-- The path ends in a slash after a link to a directory. -/
def LeadsAway (disk : LinkedDisk) (root : Path) (relative : WorkspaceRelativePath) : Prop :=
  relative.slash = true ∧
    ∃ base target reached, Holds disk root relative.components base (.link target) ∧
      resolve disk true (root ++ relative.components) = .ok reached ∧
      disk reached = some .directory

/-- A path that is accepted. -/
structure Accepted (relative : WorkspaceRelativePath) : Prop where
  plain : ∀ name ∈ relative.components, IsPlain name
  visible : ∀ name ∈ relative.components, ¬ isGit name

theorem Holds.inside {entry : Entry FileNode}
    (holds : Holds disk root relative.components base entry) (accepted : Accepted relative) :
    Inside disk root relative.components (base ++ relative.components) where
  below := ⟨base, holds.1, rfl, holds.2.1⟩
  visible := accepted.visible

theorem readBytes_eq_ok {path : Path} {result : Path × List UInt8}
    (found : readBytes disk path = .ok result) : resolve disk true path = .ok result.1 := by
  unfold readBytes at found
  split at found
  · cases found
  · rename_i reached node same
    cases found
    exact (entryAt_eq_ok_iff.mp same).1
  · cases found
  · cases found
  · cases found

theorem map_fst_mapError_eq_ok {ε ε' : Type} {α β : Type} {result : Except ε (α × β)}
    {change : ε → ε'} {first : α} :
    (result.map Prod.fst).mapError change = .ok first ↔ ∃ second, result = .ok (first, second) := by
  cases result with
  | error reason => simp [Except.map, Except.mapError]
  | ok pair =>
      rcases pair with ⟨one, other⟩
      simp [Except.map, Except.mapError]

theorem map_fst_eq_ok {ε : Type} {α β : Type} {result : Except ε (α × β)} {first : α} :
    result.map Prod.fst = .ok first ↔ ∃ second, result = .ok (first, second) := by
  cases result with
  | error reason => simp [Except.map]
  | ok pair =>
      rcases pair with ⟨one, other⟩
      simp [Except.map]

/-- A read that is not led away answers from the place that its components name. -/
theorem readFile_inside (accepted : Accepted relative) (more : relative.components ≠ [])
    (straight : ¬ LeadsAway disk root relative) (found : readFile disk root relative = .ok place) :
    Inside disk root relative.components place := by
  unfold readFile at found
  by_cases held : ∃ base entry, Holds disk root relative.components base entry
  · rcases held with ⟨base, entry, holds⟩
    have inside := holds.inside accepted
    suffices same : place = base ++ relative.components from same ▸ inside
    rw [checkedFileMetadata_of_holds holds accepted.plain more] at found
    cases entry with
    | file node =>
        by_cases below : root <+: base ++ relative.components
        · simp only [below, if_true] at found
          split at found
          · exact (Except.ok.inj found).symm
          · rcases map_fst_eq_ok.mp found with ⟨bytes, read⟩
            exact resolve_joined holds accepted.plain more (by simp [Entry.isLink])
              (readBytes_eq_ok read)
        · simp only [below] at found
          simp at found
    | link target =>
        rcases map_fst_mapError_eq_ok.mp found with ⟨second, metadata⟩
        rcases entryAt_eq_ok_iff.mp metadata with ⟨resolved, there⟩
        cases slash : relative.slash with
        | false =>
            exact resolve_joined holds accepted.plain more (fun _ => ⟨rfl, slash⟩) resolved
        | true =>
            rw [joined_of_slash slash, resolve_slash_eq_ok_iff] at resolved
            exact absurd ⟨slash, base, target, place, holds, resolved⟩ straight
    | directory =>
        rcases map_fst_mapError_eq_ok.mp found with ⟨second, metadata⟩
        exact resolve_joined holds accepted.plain more (by simp [Entry.isLink])
          (entryAt_eq_ok_iff.mp metadata).1
    | special =>
        rcases map_fst_mapError_eq_ok.mp found with ⟨second, metadata⟩
        exact resolve_joined holds accepted.plain more (by simp [Entry.isLink])
          (entryAt_eq_ok_iff.mp metadata).1
  · have absent (base : Path) (entry : Entry FileNode) :
        ¬ Holds disk root relative.components base entry := fun holds => held ⟨base, entry, holds⟩
    rcases checkedFileMetadata_of_not_holds absent accepted.plain more with
      ⟨error, failed, not_link, not_regular⟩
    rw [failed] at found
    simp [not_link, not_regular] at found

theorem readFile_of_leadsAway (accepted : Accepted relative) (more : relative.components ≠ [])
    (away : LeadsAway disk root relative) :
    ∃ place, readFile disk root relative = .ok place ∧
      ¬ Inside disk root relative.components place := by
  rcases away with ⟨slash, base, target, reached, holds, resolved, there⟩
  refine ⟨reached, ?_, ?_⟩
  · unfold readFile
    rw [checkedFileMetadata_of_holds holds accepted.plain more]
    refine map_fst_mapError_eq_ok.mpr ⟨.directory, entryAt_eq_ok_iff.mpr ⟨?_, there⟩⟩
    rw [joined_of_slash slash, resolve_slash_eq_ok_iff]
    exact ⟨resolved, there⟩
  · rintro ⟨⟨other, rooted, rfl, -⟩, -⟩
    have same : base = other := Except.ok.inj (holds.1.symm.trans rooted)
    subst same
    rw [holds.2.2] at there
    cases there

theorem mapError_eq_ok {ε ε' : Type} {α : Type} {result : Except ε α} {change : ε → ε'}
    {value : α} : result.mapError change = .ok value ↔ result = .ok value := by
  cases result <;> simp [Except.mapError]

/-- A check that ends a call. -/
theorem rejected_eq_ok {ε α β : Type} {condition : Prop} [Decidable condition] {error : ε}
    {rest : β → Except ε α} {otherwise : Except ε α} {value : α} :
    (if condition then throw error >>= rest else otherwise) = .ok value ↔
      ¬ condition ∧ otherwise = .ok value := by
  by_cases holds : condition
  · simp [holds, bind, Except.bind]
  · simp [holds]

theorem holds_of_checkedFileMetadata (accepted : Accepted relative)
    (more : relative.components ≠ []) {result : Path × Entry FileNode}
    (found : checkedFileMetadata disk root relative = .ok result) :
    ∃ base node, Holds disk root relative.components base (.file node) := by
  by_cases held : ∃ base entry, Holds disk root relative.components base entry
  · rcases held with ⟨base, entry, holds⟩
    rw [checkedFileMetadata_of_holds holds accepted.plain more] at found
    cases entry with
    | file node => exact ⟨base, node, holds⟩
    | link target => cases found
    | directory => cases found
    | special => cases found
  · have absent (base : Path) (entry : Entry FileNode) :
        ¬ Holds disk root relative.components base entry := fun holds => held ⟨base, entry, holds⟩
    rcases checkedFileMetadata_of_not_holds absent accepted.plain more with ⟨error, failed, -⟩
    rw [failed] at found
    cases found

theorem readImage_inside (accepted : Accepted relative) (more : relative.components ≠ [])
    (found : readImage disk root relative = .ok place) :
    Inside disk root relative.components place := by
  rcases except_bind_eq_ok_iff.mp found with ⟨metadata, checked, opened⟩
  rcases holds_of_checkedFileMetadata accepted more checked with ⟨base, node, holds⟩
  rcases map_fst_eq_ok.mp opened with ⟨bytes, read⟩
  have same : place = base ++ relative.components :=
    resolve_joined holds accepted.plain more (by simp [Entry.isLink]) (readBytes_eq_ok read)
  exact same ▸ holds.inside accepted

/-! ## Directories -/

/-- The directory of an entry. -/
theorem Holds.parent {entry : Entry FileNode} (holds : Holds disk root components base entry)
    (plain : ∀ name ∈ components, IsPlain name) (more : components ≠ []) :
    resolve disk true (root ++ components.dropLast) = .ok (base ++ components.dropLast) := by
  by_cases single : components.dropLast = []
  · rw [single, List.append_nil, List.append_nil]
    exact holds.1
  · have shorter : components.dropLast ≠ components := by
      intro same
      have length := congrArg List.length same
      rw [List.length_dropLast] at length
      have positive := List.length_pos_of_ne_nil more
      omega
    have directory : Holds disk root components.dropLast base .directory := by
      refine ⟨holds.1, fun first starts apart => ?_, ?_⟩
      · refine holds.2.1 first (starts.trans (List.dropLast_prefix components)) ?_
        rintro rfl
        exact shorter (starts.eq_of_length_le (by simp)).symm
      · exact holds.2.1 _ (List.dropLast_prefix components) shorter
    exact directory.leads (fun name listed =>
      plain name ((List.dropLast_prefix components).mem listed)) single true (fun _ => rfl)

theorem checkedDirectories_spec (leads : LeadsTo disk current place)
    (plain : ∀ name ∈ components, IsPlain name) {final : Path}
    (found : checkedDirectories disk current components = .ok final) :
    final = current ++ components ∧
      (components ≠ [] → Ends disk place components .directory) := by
  induction components generalizing current place with
  | nil =>
      cases found
      exact ⟨by simp, fun more => absurd rfl more⟩
  | cons name rest ih =>
      have name_plain := plain name List.mem_cons_self
      rw [checkedDirectories] at found
      split at found
      · cases found
      · cases found
      · rename_i reached metadata
        rcases (symlinkMetadata_name leads name_plain).mp metadata with ⟨-, here, there⟩
        rcases ih (leads.step name_plain here there rfl)
          (fun other listed => plain other (List.mem_cons_of_mem name listed)) found with
          ⟨rfl, later⟩
        refine ⟨by simp, fun _ => ?_⟩
        by_cases last : rest = []
        · subst last
          exact ends_singleton.mpr ⟨here, there⟩
        · exact (ends_cons last).mpr ⟨here, there, later last⟩
      · cases found
      · cases found

/-- A directory that is walked to is inside, and its path leads to it. -/
theorem checkedDirectory_spec (plain : ∀ name ∈ relative.components, IsPlain name)
    (found : checkedDirectory disk root relative = .ok place) :
    ∃ base, resolve disk true root = .ok base ∧ place = base ++ relative.components ∧
      resolve disk true (root ++ relative.components) = .ok place ∧
      (relative.components ≠ [] → Ends disk base relative.components .directory) := by
  rcases except_bind_eq_ok_iff.mp found with ⟨canonicalRoot, rooted, found⟩
  rcases except_bind_eq_ok_iff.mp found with ⟨current, walked, found⟩
  rcases except_bind_eq_ok_iff.mp found with ⟨canonical, resolved, found⟩
  rcases rejected_eq_ok.mp found with ⟨-, found⟩
  cases found
  rcases canonicalize_eq_ok_iff.mp (mapError_eq_ok.mp rooted) with ⟨rooted, -⟩
  rcases canonicalize_eq_ok_iff.mp (mapError_eq_ok.mp resolved) with ⟨resolved, -⟩
  rcases checkedDirectories_spec (leadsTo_of_resolve rooted) plain walked with ⟨rfl, ends⟩
  refine ⟨canonicalRoot, rooted, ?_, resolved, ends⟩
  by_cases empty : relative.components = []
  · rw [empty, List.append_nil] at resolved ⊢
    exact Except.ok.inj (resolved.symm.trans rooted)
  · have holds : Holds disk root relative.components canonicalRoot .directory :=
      ⟨rooted, ends empty⟩
    have reached := holds.leads plain empty true (fun _ => rfl)
    exact Except.ok.inj (resolved.symm.trans reached)

theorem checkedDirectory_inside (accepted : Accepted relative)
    (found : checkedDirectory disk root relative = .ok place) :
    Inside disk root relative.components place := by
  rcases checkedDirectory_spec accepted.plain found with ⟨base, rooted, same, -, ends⟩
  refine ⟨⟨base, rooted, same, ?_⟩, accepted.visible⟩
  by_cases empty : relative.components = []
  · rw [empty]
    exact fun first starts apart => absurd (List.prefix_nil.mp starts) apart
  · exact (ends empty).1

/-! ## Writes, moves and deletions -/

theorem writeFile_inside (accepted : Accepted relative) (more : relative.components ≠ [])
    {expected : List UInt8 → Bool} {directory : Path}
    (found : writeFile disk root expected relative = .ok (some (directory, place))) :
    Inside disk root relative.components place ∧ directory = place.dropLast := by
  rcases except_bind_eq_ok_iff.mp found with ⟨bytes, current, found⟩
  rcases except_bind_eq_ok_iff.mp current with ⟨metadata, checked, -⟩
  rcases holds_of_checkedFileMetadata accepted more checked with ⟨base, node, holds⟩
  split at found
  · cases found
  · rcases except_bind_eq_ok_iff.mp found with ⟨reached, parent, found⟩
    have above := (resolve_slash_eq_ok_iff.mp (mapError_eq_ok.mp parent)).1
    rw [holds.parent accepted.plain more] at above
    cases Except.ok.inj above
    split at found
    · rename_i name last _
      cases found
      have whole : base ++ relative.components.dropLast ++ [name] = base ++ relative.components := by
        rw [List.append_assoc, List.dropLast_append_getLast? name last]
      refine ⟨?_, by simp⟩
      rw [whole]
      exact holds.inside accepted
    · cases found

/-- An entry whose directory has been walked to. -/
theorem holds_of_parent (accepted : Accepted relative) (more : relative.components ≠ [])
    {parent : Path} (walked : checkedDirectory disk root relative.parent = .ok parent)
    {entry : Entry FileNode}
    (metadata : symlinkMetadata disk (root ++ relative.components) = .ok (place, entry)) :
    ∃ base, Holds disk root relative.components base entry ∧
      place = base ++ relative.components := by
  rcases List.eq_nil_or_concat relative.components with empty | ⟨first, last, split⟩
  · exact absurd empty more
  · rw [List.concat_eq_append] at split
    have shorter : relative.parent.components = first := by
      rw [WorkspaceRelativePath.parent, split, List.dropLast_concat]
    have first_plain : ∀ name ∈ relative.parent.components, IsPlain name := by
      rw [shorter]
      exact fun name listed => accepted.plain name (split ▸ List.mem_append_left _ listed)
    have last_plain : IsPlain last := accepted.plain last (by rw [split]; simp)
    rcases checkedDirectory_spec first_plain walked with ⟨base, rooted, rfl, leads, ends⟩
    rw [shorter] at leads ends
    rw [split, ← List.append_assoc] at metadata
    rcases (symlinkMetadata_name (leadsTo_of_resolve leads) last_plain).mp metadata with
      ⟨rfl, here, there⟩
    refine ⟨base, ⟨rooted, ?_, ?_⟩, ?_⟩
    · intro start starts apart
      rw [split] at starts apart
      rcases List.prefix_concat_iff.mp starts with same | starts
      · exact absurd same apart
      · by_cases whole : start = first
        · rwa [whole]
        · exact (ends (fun empty => whole (by
            rw [empty] at starts ⊢
            exact List.prefix_nil.mp starts))).1 start starts whole
    · rwa [split, ← List.append_assoc]
    · rw [split, List.append_assoc]

variable {path : String} {revision : Entry FileNode → String}

theorem source_spec {expected : String} {kind : WorkspaceEntryKind} {entry : Entry FileNode}
    (found : source disk root revision path expected kind = .ok (relative, entry)) :
    WorkspaceRelativePath.file path = .ok relative ∧ relative.wirePath = path ∧
      (∃ parent, checkedDirectory disk root relative.parent = .ok parent) ∧
      ∃ place, symlinkMetadata disk (relative.joined root) = .ok (place, entry) := by
  rcases except_bind_eq_ok_iff.mp found with ⟨other, parsed, found⟩
  rcases rejected_eq_ok.mp found with ⟨spelled, found⟩
  rcases except_bind_eq_ok_iff.mp found with ⟨parent, walked, found⟩
  rcases except_bind_eq_ok_iff.mp found with ⟨metadata, looked, found⟩
  have same : (other, metadata.2) = (relative, entry) := by
    split at found
    · cases found
    · cases found
    · exact Except.ok.inj (rejected_eq_ok.mp found).2
    · exact Except.ok.inj (rejected_eq_ok.mp found).2
  cases same
  exact ⟨mapError_eq_ok.mp parsed, not_not.mp spelled, ⟨parent, mapError_eq_ok.mp walked⟩,
    metadata.1, mapError_eq_ok.mp looked⟩

theorem openDirectories_spec {final : Path}
    (found : openDirectories disk place components = .ok final) :
    final = place ++ components ∧
      ∀ first, first <+: components → first ≠ [] → disk (place ++ first) = some .directory := by
  induction components generalizing place with
  | nil =>
      cases found
      exact ⟨by simp, fun first starts more => absurd (List.prefix_nil.mp starts) more⟩
  | cons name rest ih =>
      rw [openDirectories] at found
      split at found
      · cases found
      · rename_i there
        rcases ih found with ⟨rfl, below⟩
        refine ⟨by simp, fun first starts more => ?_⟩
        cases first with
        | nil => exact absurd rfl more
        | cons other first =>
            rw [List.cons_prefix_cons] at starts
            rcases starts with ⟨rfl, starts⟩
            by_cases single : first = []
            · subst single
              exact there
            · have deeper := below first starts single
              rwa [List.append_assoc] at deeper
      all_goals cases found

/-- What is opened for a move is the directory of the entry. -/
theorem openParent_spec (found : openParent disk root relative = .ok place) :
    ∃ base, resolve disk true root = .ok base ∧ place = base ++ relative.components.dropLast ∧
      Descends disk base relative.components := by
  rcases except_bind_eq_ok_iff.mp found with ⟨base, resolved, found⟩
  split at found
  · rename_i here
    have rooted : resolve disk true root = .ok base :=
      resolve_true_of_not_link resolved (fun target same => by
        rw [here] at same
        cases same)
    rcases openDirectories_spec found with ⟨rfl, below⟩
    refine ⟨base, rooted, rfl, fun first starts apart => ?_⟩
    by_cases empty : first = []
    · subst empty
      rwa [List.append_nil]
    · refine below first ?_ empty
      rcases List.eq_nil_or_concat relative.components with nothing | ⟨init, last, split⟩
      · rw [nothing] at starts
        exact absurd (List.prefix_nil.mp starts) empty
      · rw [List.concat_eq_append] at split
        rw [split] at starts apart ⊢
        rw [List.dropLast_concat]
        exact (List.prefix_concat_iff.mp starts).resolve_left apart
  · cases found

theorem moveNoReplace_inside {source destination : WorkspaceRelativePath} {places : Path × Path}
    (from_accepted : Accepted source) (to_accepted : Accepted destination)
    (found : moveNoReplace disk root source destination = .ok places) :
    Inside disk root source.components places.1 ∧
      Inside disk root destination.components places.2 := by
  rcases except_bind_eq_ok_iff.mp found with ⟨fromParent, opened, found⟩
  rcases except_bind_eq_ok_iff.mp found with ⟨toParent, opened_to, found⟩
  rcases openParent_spec (mapError_eq_ok.mp opened) with ⟨base, rooted, rfl, descends⟩
  rcases openParent_spec (mapError_eq_ok.mp opened_to) with ⟨other, again, rfl, descends_to⟩
  split at found
  · rename_i fromName toName from_last to_last
    rcases rejected_eq_ok.mp found with ⟨-, found⟩
    rcases rejected_eq_ok.mp found with ⟨-, found⟩
    cases found
    refine ⟨⟨⟨base, rooted, ?_, descends⟩, from_accepted.visible⟩,
      ⟨⟨other, again, ?_, descends_to⟩, to_accepted.visible⟩⟩
    · rw [List.append_assoc, List.dropLast_append_getLast? fromName from_last]
    · dsimp only
      rw [List.append_assoc, List.dropLast_append_getLast? toName to_last]
  · cases found

/-! ## Spellings -/

theorem file_eq_ok_iff :
    WorkspaceRelativePath.file path = .ok relative ↔
      relativePath path = .ok relative.components ∧
        relative.slash = decide ((path.toList.splitOn '/').getLast? = some []) := by
  unfold WorkspaceRelativePath.file
  rcases relative with ⟨components, slash⟩
  cases parsed : relativePath path with
  | error error => simp [Except.map]
  | ok found => simp [Except.map, eq_comm]

/-- What is checked of a path. -/
structure Spelled (path : String) : Prop where
  some_text : path ≠ ""
  short : path.utf8ByteSize ≤ maxRelativePathBytes
  clean : ∀ c ∈ path.toList, ¬ (c = '\x00' ∨ c = '\\' ∨ c = ':')
  inner : path.toList.head? ≠ some '/'
  plain : ∀ part ∈ path.toList.splitOn '/', part ≠ ['.'] ∧ part ≠ ['.', '.']
  visible : ∀ part ∈ path.toList.splitOn '/', ¬ isGit (String.ofList part)
  few : ((path.toList.splitOn '/').filter fun part => decide (part ≠ [])).length ≤
    maxRelativePathComponents

theorem relativePath_eq_ok_iff :
    relativePath path = .ok components ↔
      Spelled path ∧
        components = ((path.toList.splitOn '/').filter fun part => decide (part ≠ [])).map
          String.ofList := by
  unfold relativePath
  dsimp only
  constructor
  · intro parsed
    split at parsed
    · cases parsed
    · rename_i some_text
      split at parsed
      · cases parsed
      · rename_i short
        split at parsed
        · cases parsed
        · rename_i clean
          split at parsed
          · cases parsed
          · rename_i inner
            split at parsed
            · cases parsed
            · rename_i plain
              split at parsed
              · cases parsed
              · rename_i visible
                split at parsed
                · cases parsed
                · rename_i few
                  rw [List.take_of_length_le (not_lt.mp few)] at visible
                  refine ⟨⟨some_text, not_lt.mp short, ?_, inner, ?_, ?_, not_lt.mp few⟩,
                    (Except.ok.inj parsed).symm⟩
                  · simpa using clean
                  · simpa using plain
                  · intro part listed hidden
                    apply visible
                    rw [List.any_eq_true]
                    refine ⟨part, List.mem_filter.mpr ⟨listed, ?_⟩, hidden⟩
                    rw [decide_eq_true_eq]
                    rintro rfl
                    revert hidden
                    decide
  · rintro ⟨spelled, rfl⟩
    rw [if_neg spelled.some_text, if_neg (not_lt.mpr spelled.short), if_neg, if_neg spelled.inner,
      if_neg, if_neg, if_neg (not_lt.mpr spelled.few)]
    · rw [Bool.not_eq_true, List.any_eq_false]
      intro part listed
      exact spelled.visible part (List.mem_filter.mp (List.mem_of_mem_take listed)).1
    · rw [Bool.not_eq_true, List.any_eq_false]
      intro part listed
      simpa using spelled.plain part listed
    · rw [Bool.not_eq_true, List.any_eq_false]
      intro c listed
      simpa using spelled.clean c listed

/-- The pieces of a path that name something. -/
def kept (path : String) : List (List Char) :=
  (path.toList.splitOn '/').filter fun part => decide (part ≠ [])

theorem mem_kept_iff {part : List Char} :
    part ∈ kept path ↔ part ∈ path.toList.splitOn '/' ∧ part ≠ [] := by
  simp [kept]

theorem not_mem_of_mem_kept {part : List Char} (listed : part ∈ kept path) : '/' ∉ part :=
  not_mem_of_mem_splitOn (mem_kept_iff.mp listed).1

theorem Spelled.kept_ne_nil (spelled : Spelled path) : kept path ≠ [] := by
  have some_text : path.toList ≠ [] := fun empty =>
    spelled.some_text (String.toList_eq_nil_iff.mp empty)
  have head := head_splitOn spelled.inner some_text
  cases pieces : path.toList.splitOn '/' with
  | nil => exact absurd pieces (List.splitOn_ne_nil '/' _)
  | cons first rest =>
      have named : first ≠ [] := by
        rintro rfl
        exact head (by rw [pieces, List.head?_cons])
      have listed : first ∈ kept path := mem_kept_iff.mpr ⟨by rw [pieces]; simp, named⟩
      exact List.ne_nil_of_mem listed

/-- What is accepted of a path, and what it is taken for. -/
theorem file_spec :
    WorkspaceRelativePath.file path = .ok relative ↔
      Spelled path ∧ relative.components = (kept path).map String.ofList ∧
        relative.slash = decide ((path.toList.splitOn '/').getLast? = some []) := by
  rw [file_eq_ok_iff, relativePath_eq_ok_iff, and_assoc]
  rfl

section

variable (parsed : WorkspaceRelativePath.file path = .ok relative)
include parsed

/-- The components of a path that is accepted. -/
theorem accepted_of_file : Accepted relative ∧ relative.components ≠ [] := by
  rcases file_spec.mp parsed with ⟨spelled, listed, -⟩
  have part_of {name : String} (there : name ∈ relative.components) :
      ∃ part ∈ path.toList.splitOn '/', String.ofList part = name := by
    rw [listed] at there
    rcases List.mem_map.mp there with ⟨part, kept, rfl⟩
    exact ⟨part, (mem_kept_iff.mp kept).1, rfl⟩
  refine ⟨⟨fun name there => ?_, fun name there => ?_⟩, ?_⟩
  · rcases part_of there with ⟨part, split, rfl⟩
    have apart := spelled.plain part split
    constructor
    · intro same
      exact apart.1 (by simpa using congrArg String.toList same)
    · intro same
      exact apart.2 (by simpa using congrArg String.toList same)
  · rcases part_of there with ⟨part, split, rfl⟩
    exact spelled.visible part split
  · rw [listed]
    exact List.map_eq_nil_iff.not.mpr spelled.kept_ne_nil

theorem toList_wirePath : relative.wirePath.toList = ['/'].intercalate (kept path) := by
  rw [WorkspaceRelativePath.wirePath, Files.wirePath, String.toList_intercalate,
    (file_spec.mp parsed).2.1, List.map_map]
  have same : (String.toList ∘ String.ofList) = id := funext fun part => String.toList_ofList
  rw [same, List.map_id]
  rfl

/-- The wire path has the pieces that name something. -/
theorem splitOn_wirePath : relative.wirePath.toList.splitOn '/' = kept path := by
  rw [toList_wirePath parsed]
  exact List.splitOn_intercalate '/' (fun part listed => not_mem_of_mem_kept listed)
    (file_spec.mp parsed).1.kept_ne_nil

theorem wirePath_sublist : relative.wirePath.toList.Sublist path.toList := by
  rw [toList_wirePath parsed]
  conv => rhs; rw [← @List.intercalate_splitOn _ path.toList _ _ '/']
  exact intercalate_sublist List.filter_sublist ['/']

theorem kept_wirePath : kept relative.wirePath = kept path := by
  rw [kept, splitOn_wirePath parsed]
  exact List.filter_eq_self.mpr fun part listed => by simpa using (mem_kept_iff.mp listed).2

theorem spelled_wirePath : Spelled relative.wirePath := by
  rcases file_spec.mp parsed with ⟨spelled, -, -⟩
  have part := wirePath_sublist parsed
  have pieces := splitOn_wirePath parsed
  refine ⟨?_, ?_, fun c listed => spelled.clean c (part.subset listed), ?_, ?_, ?_, ?_⟩
  · intro empty
    rw [empty] at pieces
    have listed : [] ∈ kept path := by
      rw [← pieces]
      exact List.mem_singleton_self []
    exact (mem_kept_iff.mp listed).2 rfl
  · exact (utf8ByteSize_le_of_sublist part).trans spelled.short
  · intro inner
    cases text : relative.wirePath.toList with
    | nil => simp [text] at inner
    | cons first rest =>
        rw [text, List.head?_cons, Option.some.injEq] at inner
        subst inner
        rw [text] at pieces
        have listed : [] ∈ kept path := by
          rw [← pieces]
          exact List.mem_cons_self
        exact (mem_kept_iff.mp listed).2 rfl
  · intro part listed
    rw [pieces] at listed
    exact spelled.plain part (mem_kept_iff.mp listed).1
  · intro part listed
    rw [pieces] at listed
    exact spelled.visible part (mem_kept_iff.mp listed).1
  · have few := spelled.few
    rw [← kept] at few ⊢
    rwa [kept_wirePath parsed]

/-- The wire path of a path that is accepted is accepted, for the same components. -/
theorem file_wirePath :
    WorkspaceRelativePath.file relative.wirePath =
      .ok { components := relative.components, slash := false } := by
  refine file_spec.mpr ⟨spelled_wirePath parsed, ?_, ?_⟩
  · rw [kept_wirePath parsed]
    exact (file_spec.mp parsed).2.1
  · rw [splitOn_wirePath parsed, eq_comm, decide_eq_false_iff_not]
    intro last
    exact (mem_kept_iff.mp (List.mem_of_getLast? last)).2 rfl

/-- A wire path has no slash at its end. -/
theorem slash_of_wirePath (spelled : relative.wirePath = path) : relative.slash = false := by
  have again := file_wirePath parsed
  rw [spelled, parsed] at again
  exact congrArg WorkspaceRelativePath.slash (Except.ok.inj again)

end

/-- Paths for the same components are those with the same wire path. -/
theorem components_of_wirePath {first second : String} {one other : WorkspaceRelativePath}
    (parsed : WorkspaceRelativePath.file first = .ok one)
    (again : WorkspaceRelativePath.file second = .ok other)
    (same : one.wirePath = other.wirePath) : one.components = other.components := by
  have rewritten := file_wirePath parsed
  rw [same, file_wirePath again] at rewritten
  exact (congrArg WorkspaceRelativePath.components (Except.ok.inj rewritten)).symm

/-! ## What the calls act on -/

/-- The places that a move or a deletion acts on for a path of its request. -/
inductive Mutates (disk : LinkedDisk) (root : Path) : String → Path → Prop where
  | moveFrom {revision : Entry FileNode → String} {cancelled : Bool}
      {request : MoveWorkspaceEntryRequest} {places : Path × Path}
      (moved : moveEntry disk root revision cancelled request = .ok places) :
      Mutates disk root request.sourcePath places.1
  | moveTo {revision : Entry FileNode → String} {cancelled : Bool}
      {request : MoveWorkspaceEntryRequest} {places : Path × Path}
      (moved : moveEntry disk root revision cancelled request = .ok places) :
      Mutates disk root request.destinationPath places.2
  | delete {revision : Entry FileNode → String} {cancelled : Bool}
      {request : DeleteWorkspaceEntryRequest} {place : Path}
      (deleted : deleteEntry disk root revision cancelled request = .ok place) :
      Mutates disk root request.path place

/-- The places that the calls act on for a path. -/
inductive Acts (disk : LinkedDisk) (root : Path) : String → Path → Prop where
  | read {path : String} {relative : WorkspaceRelativePath} {place : Path}
      (parsed : WorkspaceRelativePath.file path = .ok relative)
      (answered : readFile disk root relative = .ok place) : Acts disk root path place
  | image {path : String} {relative : WorkspaceRelativePath} {place : Path}
      (parsed : WorkspaceRelativePath.file path = .ok relative)
      (opened : readImage disk root relative = .ok place) : Acts disk root path place
  | list {path : String} {relative : WorkspaceRelativePath} {place : Path}
      (parsed : WorkspaceRelativePath.directory path = .ok relative)
      (listed : checkedDirectory disk root relative = .ok place) : Acts disk root path place
  | write {path : String} {relative : WorkspaceRelativePath} {expected : List UInt8 → Bool}
      {directory place : Path}
      (parsed : WorkspaceRelativePath.file path = .ok relative)
      (written : writeFile disk root expected relative = .ok (some (directory, place))) :
      Acts disk root path place
  | mutate {path : String} {place : Path} (mutated : Mutates disk root path place) :
      Acts disk root path place

theorem moveEntry_spec {cancelled : Bool} {request : MoveWorkspaceEntryRequest}
    {places : Path × Path} (moved : moveEntry disk root revision cancelled request = .ok places) :
    ∃ source destination : WorkspaceRelativePath,
      WorkspaceRelativePath.file request.sourcePath = .ok source ∧
      source.wirePath = request.sourcePath ∧
      WorkspaceRelativePath.file request.destinationPath = .ok destination ∧
      destination.wirePath = request.destinationPath ∧
      moveNoReplace disk root source destination = .ok places := by
  rcases rejected_eq_ok.mp moved with ⟨-, moved⟩
  rcases except_bind_eq_ok_iff.mp moved with ⟨⟨source, metadata⟩, found, moved⟩
  rcases except_bind_eq_ok_iff.mp moved with ⟨destination, parsed, moved⟩
  rcases rejected_eq_ok.mp moved with ⟨spelled, moved⟩
  rcases rejected_eq_ok.mp moved with ⟨-, moved⟩
  rcases except_bind_eq_ok_iff.mp moved with ⟨parent, -, moved⟩
  rcases rejected_eq_ok.mp moved with ⟨-, moved⟩
  rcases source_spec found with ⟨source_parsed, source_spelled, -⟩
  exact ⟨source, destination, source_parsed, source_spelled, mapError_eq_ok.mp parsed,
    not_not.mp spelled, moved⟩

theorem deleteEntry_spec {cancelled : Bool} {request : DeleteWorkspaceEntryRequest}
    (deleted : deleteEntry disk root revision cancelled request = .ok place) :
    ∃ relative : WorkspaceRelativePath,
      WorkspaceRelativePath.file request.path = .ok relative ∧ relative.wirePath = request.path ∧
      Inside disk root relative.components place := by
  rcases rejected_eq_ok.mp deleted with ⟨-, deleted⟩
  rcases except_bind_eq_ok_iff.mp deleted with ⟨⟨relative, metadata⟩, found, deleted⟩
  rcases rejected_eq_ok.mp deleted with ⟨-, deleted⟩
  rcases rejected_eq_ok.mp deleted with ⟨-, deleted⟩
  rcases source_spec found with ⟨parsed, spelled, ⟨parent, walked⟩, -⟩
  rcases map_fst_mapError_eq_ok.mp deleted with ⟨entry, removed⟩
  rcases accepted_of_file parsed with ⟨accepted, more⟩
  rw [joined_of_no_slash (slash_of_wirePath parsed spelled)] at removed
  rcases holds_of_parent accepted more walked removed with ⟨base, holds, rfl⟩
  exact ⟨relative, parsed, spelled, holds.inside accepted⟩

theorem Mutates.spec (mutates : Mutates disk root path place) :
    ∃ relative : WorkspaceRelativePath,
      WorkspaceRelativePath.file path = .ok relative ∧ relative.wirePath = path ∧
      Inside disk root relative.components place := by
  cases mutates with
  | moveFrom moved =>
      rcases moveEntry_spec moved with ⟨source, destination, parsed, spelled, to_parsed, -, moved⟩
      exact ⟨source, parsed, spelled, (moveNoReplace_inside (accepted_of_file parsed).1
        (accepted_of_file to_parsed).1 moved).1⟩
  | moveTo moved =>
      rcases moveEntry_spec moved with ⟨source, destination, parsed, -, to_parsed, spelled, moved⟩
      exact ⟨destination, to_parsed, spelled, (moveNoReplace_inside (accepted_of_file parsed).1
        (accepted_of_file to_parsed).1 moved).2⟩
  | delete deleted => exact deleteEntry_spec deleted

/-- The path is accepted for a file or for a directory. -/
def Accepts (path : String) (relative : WorkspaceRelativePath) : Prop :=
  WorkspaceRelativePath.file path = .ok relative ∨
    WorkspaceRelativePath.directory path = .ok relative

theorem file_empty {relative : WorkspaceRelativePath} :
    WorkspaceRelativePath.file "" ≠ .ok relative := by
  intro parsed
  exact (file_spec.mp parsed).1.some_text rfl

theorem directory_of_file (parsed : WorkspaceRelativePath.file path = .ok relative) :
    WorkspaceRelativePath.directory path = .ok relative := by
  rw [WorkspaceRelativePath.directory, if_neg, parsed]
  rintro rfl
  exact file_empty parsed

theorem accepts_iff :
    Accepts path relative ↔ WorkspaceRelativePath.directory path = .ok relative := by
  constructor
  · rintro (parsed | parsed)
    · exact directory_of_file parsed
    · exact parsed
  · exact Or.inr

/-- Only the empty path is accepted for a directory alone. -/
theorem directory_cases (parsed : WorkspaceRelativePath.directory path = .ok relative) :
    WorkspaceRelativePath.file path = .ok relative ∨
      path = "" ∧ relative = { components := [], slash := false } := by
  rw [WorkspaceRelativePath.directory] at parsed
  by_cases empty : path = ""
  · rw [if_pos empty] at parsed
    exact Or.inr ⟨empty, (Except.ok.inj parsed).symm⟩
  · rw [if_neg empty] at parsed
    exact Or.inl parsed

theorem accepted_of_directory (parsed : WorkspaceRelativePath.directory path = .ok relative) :
    Accepted relative := by
  rcases directory_cases parsed with parsed | ⟨-, rfl⟩
  · exact (accepted_of_file parsed).1
  · constructor <;> simp

theorem Acts.inside (acts : Acts disk root path place) (accepts : Accepts path relative)
    (straight : ¬ LeadsAway disk root relative) :
    Inside disk root relative.components place := by
  have parsed := accepts_iff.mp accepts
  have same_of_directory {other : WorkspaceRelativePath}
      (again : WorkspaceRelativePath.directory path = .ok other) : other = relative :=
    Except.ok.inj (again.symm.trans parsed)
  cases acts with
  | read again answered =>
      have same := same_of_directory (directory_of_file again)
      subst same
      rcases accepted_of_file again with ⟨accepted, more⟩
      exact readFile_inside accepted more straight answered
  | image again opened =>
      have same := same_of_directory (directory_of_file again)
      subst same
      rcases accepted_of_file again with ⟨accepted, more⟩
      exact readImage_inside accepted more opened
  | list again listed =>
      have same := same_of_directory again
      subst same
      exact checkedDirectory_inside (accepted_of_directory again) listed
  | write again written =>
      have same := same_of_directory (directory_of_file again)
      subst same
      rcases accepted_of_file again with ⟨accepted, more⟩
      exact (writeFile_inside accepted more written).1
  | mutate mutated =>
      rcases mutated.spec with ⟨other, again, -, inside⟩
      have same := same_of_directory (directory_of_file again)
      subst same
      exact inside

theorem exists_acts_of_leadsAway (accepts : Accepts path relative)
    (away : LeadsAway disk root relative) :
    ∃ place, Acts disk root path place ∧ ¬ Inside disk root relative.components place := by
  rcases directory_cases (accepts_iff.mp accepts) with parsed | ⟨-, rfl⟩
  · rcases accepted_of_file parsed with ⟨accepted, more⟩
    rcases readFile_of_leadsAway accepted more away with ⟨place, answered, outside⟩
    exact ⟨place, Acts.read parsed answered, outside⟩
  · exact absurd away.1 Bool.false_ne_true

theorem Inside.unique {components : Path} {other : Path}
    (inside : Inside disk root components place) (again : Inside disk root components other) :
    place = other := by
  rcases inside.below with ⟨base, rooted, rfl, -⟩
  rcases again.below with ⟨second, rooted_again, rfl, -⟩
  rw [Except.ok.inj (rooted.symm.trans rooted_again)]

theorem wirePath_empty :
    WorkspaceRelativePath.wirePath { components := [], slash := false } = "" := by
  simp [WorkspaceRelativePath.wirePath, Files.wirePath]

theorem components_of_accepts {first second : String} {one other : WorkspaceRelativePath}
    (accepts : Accepts first one) (again : Accepts second other)
    (same : one.wirePath = other.wirePath) : one.components = other.components := by
  rcases directory_cases (accepts_iff.mp accepts) with parsed | ⟨-, rfl⟩
  · rcases directory_cases (accepts_iff.mp again) with parsed_again | ⟨-, rfl⟩
    · exact components_of_wirePath parsed parsed_again same
    · have rewritten := file_wirePath parsed
      rw [same] at rewritten
      exact absurd rewritten file_empty
  · rcases directory_cases (accepts_iff.mp again) with parsed_again | ⟨-, rfl⟩
    · have rewritten := file_wirePath parsed_again
      rw [← same] at rewritten
      exact absurd rewritten file_empty
    · rfl

/-- A path that is accepted comes back from its wire path. -/
def ComesBack (parse : String → Except WorkspaceFilesError WorkspaceRelativePath)
    (path : String) : Prop :=
  ∀ relative, parse path = .ok relative →
    ∃ again, parse relative.wirePath = .ok again ∧ again.wirePath = relative.wirePath ∧
      again.components = relative.components

theorem comesBack_file (path : String) : ComesBack WorkspaceRelativePath.file path :=
  fun _ parsed => ⟨_, file_wirePath parsed, rfl, rfl⟩

theorem comesBack_directory (path : String) :
    ComesBack WorkspaceRelativePath.directory path := by
  intro relative parsed
  rcases directory_cases parsed with parsed | ⟨-, rfl⟩
  · exact ⟨_, directory_of_file (file_wirePath parsed), rfl, rfl⟩
  · exact ⟨_, rfl, wirePath_empty, rfl⟩

/-- What holds of a path that stays in its workspace. -/
structure Contained (disk : LinkedDisk) (root : Path) (path : String)
    (relative : WorkspaceRelativePath) : Prop where
  inside : ∀ place, Acts disk root path place → Inside disk root relative.components place
  /-- The temporary file of a write is next to the file. -/
  beside : ∀ expected directory place, WorkspaceRelativePath.file path = .ok relative →
    writeFile disk root expected relative = .ok (some (directory, place)) →
      directory = place.dropLast
  file_comes_back : ComesBack WorkspaceRelativePath.file path
  directory_comes_back : ComesBack WorkspaceRelativePath.directory path
  canonical : ∀ place, Mutates disk root path place → relative.wirePath = path

theorem contained_iff (accepts : Accepts path relative) :
    Contained disk root path relative ↔ ¬ LeadsAway disk root relative := by
  constructor
  · intro contained away
    rcases exists_acts_of_leadsAway accepts away with ⟨place, acts, outside⟩
    exact outside (contained.inside place acts)
  · intro straight
    refine ⟨fun place acts => acts.inside accepts straight,
      fun expected directory place parsed written => ?_, comesBack_file path,
      comesBack_directory path, fun place mutates => ?_⟩
    · rcases accepted_of_file parsed with ⟨accepted, more⟩
      exact (writeFile_inside accepted more written).2
    rcases mutates.spec with ⟨other, again, spelled, -⟩
    have same := (directory_of_file again).symm.trans (accepts_iff.mp accepts)
    rwa [Except.ok.inj same] at spelled

/-- Two spellings of a path stay in the workspace and lead to one place, unless one of them ends
in a slash after a link to a directory. -/
theorem spellings_contained_iff {first second : String} {one other : WorkspaceRelativePath}
    (accepts : Accepts first one) (accepts_other : Accepts second other)
    (same : one.wirePath = other.wirePath) :
    (Contained disk root first one ∧ Contained disk root second other ∧
      ∀ place again, Acts disk root first place → Acts disk root second again → place = again) ↔
    ¬ LeadsAway disk root one ∧ ¬ LeadsAway disk root other := by
  rw [contained_iff accepts, contained_iff accepts_other, ← and_assoc]
  refine and_iff_left_of_imp ?_
  rintro ⟨straight, straight_other⟩ place again acts acts_again
  have inside := acts.inside accepts straight
  have inside_again := acts_again.inside accepts_other straight_other
  rw [← components_of_accepts accepts accepts_other same] at inside_again
  exact inside.unique inside_again

/-- A workspace with a file, and with a link to a directory that is outside. -/
def linkedDisk : LinkedDisk
  | [] | ["workspace"] | ["outside"] => some .directory
  | ["workspace", "note"] => some (.file { revision := 1, bytes := [] })
  | ["workspace", "link"] => some (.link { absolute := true, names := ["outside"] })
  | _ => none

theorem note_spellings_contained :
    Contained linkedDisk ["workspace"] "note" { components := ["note"], slash := false } ∧
      Contained linkedDisk ["workspace"] "note/" { components := ["note"], slash := true } ∧
      ∀ place again, Acts linkedDisk ["workspace"] "note" place →
        Acts linkedDisk ["workspace"] "note/" again → place = again := by
  have accepts : Accepts "note" { components := ["note"], slash := false } := Or.inl (by decide)
  have accepts_slash : Accepts "note/" { components := ["note"], slash := true } :=
    Or.inl (by decide)
  refine (spellings_contained_iff accepts accepts_slash rfl).mpr ⟨?_, ?_⟩
  · rintro ⟨slash, -⟩
    cases slash
  · rintro ⟨-, base, target, reached, holds, -⟩
    have rooted : resolve linkedDisk true ["workspace"] = .ok ["workspace"] := by decide
    have same : base = ["workspace"] := Except.ok.inj (holds.1.symm.trans rooted)
    subst same
    have there := holds.2.2
    simp [linkedDisk] at there

/-- A slash after the link leads the read to the directory outside. -/
theorem slash_leads_outside :
    WorkspaceRelativePath.file "link/" = .ok { components := ["link"], slash := true } ∧
      Acts linkedDisk ["workspace"] "link/" ["outside"] ∧
      ¬ Inside linkedDisk ["workspace"] ["link"] ["outside"] := by
  have parsed : WorkspaceRelativePath.file "link/" =
      .ok { components := ["link"], slash := true } := by decide
  refine ⟨parsed, Acts.read parsed (by decide), ?_⟩
  rintro ⟨⟨base, rooted, same, -⟩, -⟩
  have rooted_here : resolve linkedDisk true ["workspace"] = .ok ["workspace"] := by decide
  rw [← Except.ok.inj (rooted_here.symm.trans rooted)] at same
  simp at same

end Zeron.Files.Paths
