import Mathlib.Data.List.Basic

/-!
# Names that lead through links

A path is walked one name at a time, and a link stands for another path.  A slash at the end
of a path counts as one more name, the dot.  Only so many links are followed.
-/

namespace Zeron.Data.Resolution

universe u

structure Target where
  absolute : Bool
  names : List String
  deriving DecidableEq

/-- What a name leads to. -/
inductive Entry (φ : Type u) where
  | file (content : φ)
  | directory
  | link (target : Target)
  | special

def Entry.isLink {φ : Type u} : Entry φ → Bool
  | .link _ => true
  | .file _ | .directory | .special => false

/-- The entries under their own paths. -/
abbrev Tree (φ : Type u) := List String → Option (Entry φ)

inductive OsError where
  | notFound
  | notDirectory
  | tooManyLinks
  deriving DecidableEq

variable {φ : Type u}

section

variable (tree : Tree φ) (followLast : Bool)

/-- A walk that leaves the links to `follow`. -/
def walkWith (follow : List String → List String → Except OsError (List String)) :
    List String → List String → Except OsError (List String)
  | place, [] => .ok place
  | place, name :: rest =>
      match tree place with
      | some .directory =>
          if name = "." then walkWith follow place rest
          else if name = ".." then walkWith follow place.dropLast rest
          else
            match tree (place ++ [name]) with
            | none => .error .notFound
            | some (.link target) =>
                if rest = [] ∧ followLast = false then .ok (place ++ [name])
                else follow (if target.absolute then [] else place) (target.names ++ rest)
            | some _ => walkWith follow (place ++ [name]) rest
      | _ => .error .notDirectory

/-- A walk that follows so many links. -/
def walk : Nat → List String → List String → Except OsError (List String)
  | 0 => walkWith tree followLast fun _ _ => .error .tooManyLinks
  | links + 1 => walkWith tree followLast (walk links)

end

/-- The links that are followed in one walk. -/
def maxLinks : Nat := 40

/-- Where a path leads, with or without following it at its end. -/
def resolve (tree : Tree φ) (followLast : Bool) (path : List String) :
    Except OsError (List String) :=
  walk tree followLast maxLinks [] path

variable {tree : Tree φ}

theorem walk_nil (followLast : Bool) (links : Nat) (place : List String) :
    walk tree followLast links place [] = .ok place := by
  cases links <;> rfl

/-- A link that is followed costs one of the links that are left. -/
def follow (tree : Tree φ) (followLast : Bool) :
    Nat → List String → List String → Except OsError (List String)
  | 0, _, _ => .error .tooManyLinks
  | links + 1, place, path => walk tree followLast links place path

theorem walk_cons (followLast : Bool) (links : Nat) (place : List String) (name : String)
    (rest : List String) :
    walk tree followLast links place (name :: rest) =
      match tree place with
      | some .directory =>
          if name = "." then walk tree followLast links place rest
          else if name = ".." then walk tree followLast links place.dropLast rest
          else
            match tree (place ++ [name]) with
            | none => .error .notFound
            | some (.link target) =>
                if rest = [] ∧ followLast = false then .ok (place ++ [name])
                else
                  follow tree followLast links (if target.absolute then [] else place)
                    (target.names ++ rest)
            | some _ => walk tree followLast links (place ++ [name]) rest
      | _ => .error .notDirectory := by
  cases links <;> rfl

/-- What the start of a path says of the walk along all of it. -/
def Continues (tree : Tree φ) (first : Except OsError (List String))
    (whole : Bool → List String → Except OsError (List String)) : Prop :=
  match first with
  | .error reason => ∀ rest, rest ≠ [] → ∀ followLast, whole followLast rest = .error reason
  | .ok base => ∃ left, ∀ rest, rest ≠ [] → ∀ followLast,
      whole followLast rest = walk tree followLast left base rest

theorem Continues.congr {first : Except OsError (List String)}
    {whole other : Bool → List String → Except OsError (List String)}
    (continues : Continues tree first whole)
    (same : ∀ rest, rest ≠ [] → ∀ followLast, other followLast rest = whole followLast rest) :
    Continues tree first other := by
  cases first with
  | error reason =>
      intro rest more followLast
      rw [same rest more]
      exact continues rest more followLast
  | ok base =>
      rcases continues with ⟨left, continues⟩
      refine ⟨left, fun rest more followLast => ?_⟩
      rw [same rest more]
      exact continues rest more followLast

theorem walk_append_of_follow {links : Nat}
    (followed : ∀ place path, Continues tree (follow tree true links place path)
      fun followLast rest => follow tree followLast links place (path ++ rest))
    (place path : List String) :
    Continues tree (walk tree true links place path) fun followLast rest =>
      walk tree followLast links place (path ++ rest) := by
  induction path generalizing place with
  | nil =>
      rw [walk_nil]
      exact ⟨links, fun rest _ followLast => rfl⟩
  | cons name path ih =>
      simp only [List.cons_append, walk_cons]
      rcases tree place with _ | content | _ | target | _
      · exact fun rest _ followLast => rfl
      · exact fun rest _ followLast => rfl
      · dsimp only
        split
        · exact ih place
        · split
          · exact ih place.dropLast
          · rcases tree (place ++ [name]) with _ | content | _ | target | _
            · exact fun rest _ followLast => rfl
            · exact ih (place ++ [name])
            · exact ih (place ++ [name])
            · have later := followed (if target.absolute then [] else place) (target.names ++ path)
              simp only [Bool.true_eq_false, and_false]
              refine later.congr fun rest more followLast => ?_
              have longer : path ++ rest ≠ [] := by simp [more]
              simp [longer]
            · exact ih (place ++ [name])
      · exact fun rest _ followLast => rfl
      · exact fun rest _ followLast => rfl

/-- The walk along the rest of a path begins where the start of it leads. -/
theorem walk_append (links : Nat) (place path : List String) :
    Continues tree (walk tree true links place path) fun followLast rest =>
      walk tree followLast links place (path ++ rest) := by
  induction links generalizing place path with
  | zero =>
      refine walk_append_of_follow (fun place path => ?_) place path
      exact fun rest _ followLast => rfl
  | succ links ih => exact walk_append_of_follow ih place path

/-! ## Below a directory -/

/-- Every name on the way down a path is the one of a directory. -/
def Descends (tree : Tree φ) (base path : List String) : Prop :=
  ∀ first, first <+: path → first ≠ path → tree (base ++ first) = some .directory

/-- A name that is no step to another directory. -/
def IsPlain (name : String) : Prop :=
  name ≠ "." ∧ name ≠ ".."

theorem Descends.head {base path : List String} (descends : Descends tree base path)
    (more : path ≠ []) : tree base = some .directory := by
  simpa using descends [] List.nil_prefix more.symm

theorem Descends.tail {base path : List String} {name : String}
    (descends : Descends tree base (name :: path)) : Descends tree (base ++ [name]) path := by
  intro first starts apart
  rw [List.append_assoc]
  exact descends (name :: first) ((List.cons_prefix_cons).mpr ⟨rfl, starts⟩)
    (by simpa using apart)

theorem descends_cons {base path : List String} {name : String}
    (here : tree base = some .directory) (below : Descends tree (base ++ [name]) path) :
    Descends tree base (name :: path) := by
  intro first starts apart
  cases first with
  | nil => simpa using here
  | cons other first =>
      rw [List.cons_prefix_cons] at starts
      rcases starts with ⟨rfl, starts⟩
      have deeper := below first starts (by simpa using apart)
      rwa [List.append_assoc] at deeper

variable {entry : Entry φ}

/-- A walk over directories comes to the end of the path. -/
theorem walk_of_descends {base path : List String} (descends : Descends tree base path)
    (plain : ∀ name ∈ path, IsPlain name) (more : path ≠ [])
    (there : tree (base ++ path) = some entry) (followLast : Bool)
    (still : followLast = true → entry.isLink = false) (links : Nat) :
    walk tree followLast links base path = .ok (base ++ path) := by
  induction path generalizing base with
  | nil => exact absurd rfl more
  | cons name path ih =>
      have dots := plain name List.mem_cons_self
      rw [walk_cons, descends.head more]
      rw [if_neg dots.1, if_neg dots.2]
      by_cases last : path = []
      · subst last
        rw [there]
        cases entry with
        | link target =>
            cases followLast with
            | false => simp
            | true => exact absurd (still rfl) (by simp [Entry.isLink])
        | file content => exact walk_nil followLast links _
        | directory => exact walk_nil followLast links _
        | special => exact walk_nil followLast links _
      · rw [descends.tail.head last]
        rw [ih descends.tail (fun other listed => plain other (List.mem_cons_of_mem name listed))
          last (by rwa [List.append_assoc]), List.append_assoc]
        rfl

/-! ## A path that leads to a place -/

/-- Longer paths lead on from a place. -/
def LeadsTo (tree : Tree φ) (path place : List String) : Prop :=
  ∃ left, ∀ rest, rest ≠ [] → ∀ followLast,
    resolve tree followLast (path ++ rest) = walk tree followLast left place rest

theorem leadsTo_of_resolve {path place : List String} (reached : resolve tree true path = .ok place) :
    LeadsTo tree path place := by
  have continues : Continues tree _ _ := walk_append maxLinks [] path
  rw [show walk tree true maxLinks [] path = .ok place from reached] at continues
  exact continues

variable {followLast : Bool}

/-- A path that leads somewhere begins with one that does. -/
theorem exists_leadsTo {path rest place : List String} (more : rest ≠ [])
    (reached : resolve tree followLast (path ++ rest) = .ok place) :
    ∃ base, resolve tree true path = .ok base ∧ LeadsTo tree path base := by
  have continues : Continues tree _ _ := walk_append maxLinks [] path
  cases first : resolve tree true path with
  | ok base => exact ⟨base, rfl, leadsTo_of_resolve first⟩
  | error reason =>
      rw [show walk tree true maxLinks [] path = .error reason from first] at continues
      have failed : resolve tree followLast (path ++ rest) = .error reason :=
        continues rest more followLast
      rw [failed] at reached
      cases reached

variable {path place : List String} {name : String}

section

variable (leads : LeadsTo tree path place) (plain : IsPlain name)
include leads plain

/-- A name in a directory. -/
theorem LeadsTo.resolve_name {reached : List String}
    (found : resolve tree followLast (path ++ [name]) = .ok reached) :
    tree place = some .directory ∧ ∃ entry, tree (place ++ [name]) = some entry := by
  rcases leads with ⟨left, leads⟩
  rw [leads [name] (List.cons_ne_nil name []) followLast, walk_cons] at found
  split at found
  · rename_i here
    refine ⟨here, ?_⟩
    rw [if_neg plain.1, if_neg plain.2] at found
    cases there : tree (place ++ [name]) with
    | some entry => exact ⟨entry, rfl⟩
    | none =>
        rw [there] at found
        cases found
  · cases found

theorem LeadsTo.name_of_entry (here : tree place = some .directory)
    (there : tree (place ++ [name]) = some entry)
    (still : followLast = true → entry.isLink = false) :
    resolve tree followLast (path ++ [name]) = .ok (place ++ [name]) := by
  rcases leads with ⟨left, leads⟩
  rw [leads [name] (List.cons_ne_nil name []) followLast]
  refine walk_of_descends (descends_cons here ?_) ?_ (List.cons_ne_nil name []) there followLast
    still left
  · intro first starts apart
    exact absurd (List.prefix_nil.mp starts) apart
  · intro other listed
    rwa [List.mem_singleton.mp listed]

/-- Past a name that is no link. -/
theorem LeadsTo.step (here : tree place = some .directory)
    (there : tree (place ++ [name]) = some entry) (real : entry.isLink = false) :
    LeadsTo tree (path ++ [name]) (place ++ [name]) := by
  rcases leads with ⟨left, leads⟩
  refine ⟨left, fun rest more followLast => ?_⟩
  rw [List.append_assoc, List.singleton_append, leads _ (List.cons_ne_nil name rest), walk_cons,
    here]
  rw [if_neg plain.1, if_neg plain.2, there]
  cases entry with
  | link target => cases real
  | file content => rfl
  | directory => rfl
  | special => rfl

end

/-- A slash at the end asks for a directory. -/
theorem LeadsTo.slash (leads : LeadsTo tree path place) (followLast : Bool) :
    resolve tree followLast (path ++ ["."]) =
      match tree place with
      | some .directory => .ok place
      | _ => .error .notDirectory := by
  rcases leads with ⟨left, leads⟩
  rw [leads ["."] (List.cons_ne_nil "." []) followLast, walk_cons]
  simp only [if_true, walk_nil]

theorem resolve_slash_eq_ok_iff {reached : List String} :
    resolve tree followLast (path ++ ["."]) = .ok reached ↔
      resolve tree true path = .ok reached ∧ tree reached = some .directory := by
  constructor
  · intro found
    rcases exists_leadsTo (List.cons_ne_nil "." []) found with ⟨base, first, leads⟩
    rw [leads.slash followLast] at found
    split at found
    · rename_i here
      cases found
      exact ⟨first, here⟩
    · cases found
  · rintro ⟨first, here⟩
    rw [(leadsTo_of_resolve first).slash followLast, here]

/-! ## Places -/

/-- The path of a place goes over directories only. -/
structure IsPlace (tree : Tree φ) (place : List String) : Prop where
  descends : Descends tree [] place
  plain : ∀ name ∈ place, IsPlain name

theorem IsPlace.root : IsPlace tree [] where
  descends first starts apart := absurd (List.prefix_nil.mp starts) apart
  plain _ listed := by cases listed

theorem IsPlace.dropLast (is_place : IsPlace tree place) : IsPlace tree place.dropLast where
  descends first starts apart := by
    refine is_place.descends first (starts.trans (List.dropLast_prefix place)) ?_
    rintro rfl
    exact apart (starts.eq_of_length_le (List.dropLast_prefix first).length_le)
  plain other listed := is_place.plain other ((List.dropLast_prefix place).mem listed)

theorem IsPlace.snoc (is_place : IsPlace tree place) (here : tree place = some .directory)
    (plain : IsPlain name) : IsPlace tree (place ++ [name]) where
  descends first starts apart := by
    rcases List.prefix_concat_iff.mp starts with same | starts
    · exact absurd same apart
    · by_cases whole : first = place
      · rwa [whole]
      · exact is_place.descends first starts whole
  plain other listed := by
    rcases List.mem_append.mp listed with before | last
    · exact is_place.plain other before
    · rwa [List.mem_singleton.mp last]

theorem isPlace_of_walkWith {follow : List String → List String → Except OsError (List String)}
    (followed : ∀ place path reached, IsPlace tree place → follow place path = .ok reached →
      IsPlace tree reached) {path place reached : List String} (is_place : IsPlace tree place)
    (found : walkWith tree followLast follow place path = .ok reached) : IsPlace tree reached := by
  induction path generalizing place with
  | nil =>
      cases found
      exact is_place
  | cons name path ih =>
      unfold walkWith at found
      split at found
      · rename_i here
        split at found
        · exact ih is_place found
        · rename_i dot
          split at found
          · exact ih is_place.dropLast found
          · rename_i dots
            have below := is_place.snoc here ⟨dot, dots⟩
            split at found
            · cases found
            · split at found
              · cases found
                exact below
              · refine followed _ _ reached ?_ found
                split
                · exact IsPlace.root
                · exact is_place
            · exact ih below found
      · cases found

theorem isPlace_of_walk {links : Nat} {path place reached : List String}
    (is_place : IsPlace tree place) (found : walk tree followLast links place path = .ok reached) :
    IsPlace tree reached := by
  induction links generalizing path place reached with
  | zero =>
      refine isPlace_of_walkWith (fun _ _ _ _ followed => ?_) is_place found
      cases followed
  | succ links ih => exact isPlace_of_walkWith (fun _ _ _ => ih) is_place found

theorem isPlace_of_resolve {reached : List String}
    (found : resolve tree followLast path = .ok reached) : IsPlace tree reached :=
  isPlace_of_walk IsPlace.root found

/-- The path of a place leads there. -/
theorem IsPlace.resolve (is_place : IsPlace tree place) (more : place ≠ [])
    (there : tree place = some entry) (still : followLast = true → entry.isLink = false) :
    resolve tree followLast place = .ok place :=
  walk_of_descends is_place.descends is_place.plain more there followLast still maxLinks

theorem walk_true_of_follow {links : Nat} {reached : List String}
    (followed : ∀ place path, follow tree false links place path = .ok reached →
      follow tree true links place path = .ok reached)
    (real : ∀ target, tree reached ≠ some (.link target)) {path place : List String}
    (found : walk tree false links place path = .ok reached) :
    walk tree true links place path = .ok reached := by
  induction path generalizing place with
  | nil => rwa [walk_nil] at found ⊢
  | cons name path ih =>
      rw [walk_cons] at found ⊢
      split at found
      · split at found
        · rename_i dot
          rw [if_pos dot]
          exact ih found
        · rename_i dot
          rw [if_neg dot]
          split at found
          · rename_i dots
            rw [if_pos dots]
            exact ih found
          · rename_i dots
            rw [if_neg dots]
            cases there : tree (place ++ [name]) with
            | none =>
                rw [there] at found
                cases found
            | some entry =>
                rw [there] at found
                cases entry with
                | link target =>
                    simp only [Bool.true_eq_false, and_false] at found ⊢
                    split at found
                    · cases found
                      exact absurd there (real target)
                    · exact followed _ _ found
                | file content => exact ih found
                | directory => exact ih found
                | special => exact ih found
      · cases found

/-- A path that leads to something else than a link can be followed. -/
theorem resolve_true_of_not_link {reached : List String}
    (found : resolve tree false path = .ok reached)
    (real : ∀ target, tree reached ≠ some (.link target)) :
    resolve tree true path = .ok reached := by
  have all (links : Nat) (place path : List String)
      (found : walk tree false links place path = .ok reached) :
      walk tree true links place path = .ok reached := by
    induction links generalizing place path with
    | zero =>
        refine walk_true_of_follow (fun _ _ followed => ?_) real found
        cases followed
    | succ links ih => exact @walk_true_of_follow _ tree (links + 1) _ ih real _ _ found
  exact all maxLinks [] path found

end Zeron.Data.Resolution
