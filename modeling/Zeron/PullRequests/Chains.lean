import Mathlib.Data.List.Perm.Basic
import Zeron.Data.Assoc
import Zeron.Data.Climb
import Zeron.Data.SortBy
import Zeron.PullRequests.Links

/-!
# Chains of pull requests

The links of a thread are shown in chains.  The links of a stack are a chain in the order of
its layers, and of the other links one stands on another one if its base branch is the head
branch of that one and of no other.
-/

namespace Zeron.PullRequests

open Data

inductive ChainKind where
  | native
  | derived
  deriving DecidableEq

/-- The lowest layer comes first. -/
structure Chain where
  kind : ChainKind
  layers : List ThreadPullRequestLink
  deriving DecidableEq

section

variable (lib : Library)

/-- The key of a stack in the repository of a link. -/
def stackKey (link : ThreadPullRequestLink) (stack : ThreadPullRequestStack) : String :=
  let id := identity lib link
  id.host ++ "/" ++ id.repository ++ "#stack:" ++ stack.id

/-- The key of a branch in the repository of a link. -/
def branchKey (link : ThreadPullRequestLink) (branch : String) : String :=
  let id := identity lib link
  id.host ++ "/" ++ id.repository ++ ":" ++ branch

/-- The key of the stack that a link has. -/
def ownStackKey (link : ThreadPullRequestLink) : Option String :=
  link.stack.map (stackKey lib link)

/-- The key of the head branch of a link. -/
def headKey (link : ThreadPullRequestLink) : Option String :=
  link.snapshot.map fun snapshot => branchKey lib link snapshot.headBranch

/-- A link joins the members of its stack, which stand in the order of their first links. -/
def joinStack (key : String) (link : ThreadPullRequestLink) :
    List (String × List ThreadPullRequestLink) → List (String × List ThreadPullRequestLink)
  | [] => [(key, [link])]
  | (other, members) :: rest =>
      if other = key then (other, members ++ [link]) :: rest
      else (other, members) :: joinStack key link rest

def nativeStacks (visible : List ThreadPullRequestLink) :
    List (String × List ThreadPullRequestLink) :=
  visible.foldl (fun native link =>
    match link.stack with
    | some stack => joinStack (stackKey lib link stack) link native
    | none => native) []

/-- The place of a link in the order of its stack; a link that is not listed counts as the
lowest layer. -/
def layerPosition (order : List Int) (link : ThreadPullRequestLink) : Nat :=
  (order.idxOf? link.number).getD 0

/-- The order is that of the first member. -/
def nativeChain (members : List ThreadPullRequestLink) : Chain where
  kind := .native
  layers :=
    let order := ((members.head?.bind fun link => link.stack).map fun stack => stack.layers).getD []
    sortBy (layerPosition order) members

/-- The link with a head branch, or `none` if several links have it. -/
def branchHeads (remaining : List ThreadPullRequestLink) :
    List (String × Option ThreadPullRequestLink) :=
  remaining.foldl (fun heads link =>
    match headKey lib link with
    | some key => Assoc.put heads key (if (heads.lookup key).isSome then none else some link)
    | none => heads) []

/-- The link that a link stands on. -/
def parentOf (remaining : List ThreadPullRequestLink) (link : ThreadPullRequestLink) :
    Option ThreadPullRequestLink :=
  link.snapshot.bind fun snapshot =>
    ((branchHeads lib remaining).lookup (branchKey lib link snapshot.baseBranch)).join

/-- The keys of the links that another link stands on. -/
def hasChild (remaining : List ThreadPullRequestLink) : List String :=
  remaining.filterMap fun link =>
    (parentOf lib remaining link).bind fun parent =>
      if linkKey lib parent ≠ linkKey lib link then some (linkKey lib parent) else none

/-- The links that no other link stands on. -/
def topLinks (remaining : List ThreadPullRequestLink) : List ThreadPullRequestLink :=
  remaining.filter fun link => decide (linkKey lib link ∉ hasChild lib remaining)

/-- `chains::resolve`.  The loop that follows the base branches has a bound here. -/
def resolveChains (links : List ThreadPullRequestLink) : Option (List Chain) :=
  let visible := links.filter fun link => link.visible
  let native := (nativeStacks lib visible).map fun stack => nativeChain stack.2
  let placed := native.flatMap fun chain => chain.layers.map (linkKey lib)
  let remaining := visible.filter fun link => decide (linkKey lib link ∉ placed)
  (climbAll (parentOf lib remaining) (linkKey lib) (remaining.length + 1)
    (topLinks lib remaining) placed).map fun found =>
      let derived := found.2.filter fun layers => decide (layers ≠ [])
      let single := remaining.filter fun link => decide (linkKey lib link ∉ found.1)
      native ++ derived.map (fun layers => { kind := .derived, layers }) ++
        single.map fun link => { kind := .derived, layers := [link] }

/-! ## What the chains are for -/

/-- Both links have the stack of one name in one repository. -/
def SameStack (first second : ThreadPullRequestLink) : Prop :=
  (identity lib first).host = (identity lib second).host ∧
    (identity lib first).repository = (identity lib second).repository ∧
    first.stack.map (fun stack => stack.id) = second.stack.map fun stack => stack.id

/-- The base branch of the upper link is the head branch of the lower one, in one repository. -/
def StandsOn (above below : ThreadPullRequestLink) : Prop :=
  (identity lib below).host = (identity lib above).host ∧
    (identity lib below).repository = (identity lib above).repository ∧
    ∃ upper lower, above.snapshot = some upper ∧ below.snapshot = some lower ∧
      upper.baseBranch = lower.headBranch

/-- The links that are shown and have no stack. -/
def looseLinks (links : List ThreadPullRequestLink) : List ThreadPullRequestLink :=
  links.filter fun link => link.visible && link.stack.isNone

/-- The layers are of one stack, in the order of the layers that the first of them lists. -/
def Chain.IsStack (links : List ThreadPullRequestLink) (chain : Chain) : Prop :=
  ∃ first stack, (links.filter fun link => decide (link ∈ chain.layers)).head? = some first ∧
    first.stack = some stack ∧ (∀ link ∈ chain.layers, SameStack lib first link) ∧
    chain.layers.Pairwise fun lower upper => ∀ i j,
      stack.layers.idxOf? lower.number = some i → stack.layers.idxOf? upper.number = some j → i ≤ j

/-- Each layer stands on the one below, which is the only loose link with that head branch. -/
def Chain.IsDerived (links : List ThreadPullRequestLink) (chain : Chain) : Prop :=
  ∀ below above, [below, above] <:+: chain.layers → StandsOn lib above below ∧
    ∀ other ∈ looseLinks links, StandsOn lib above other → other = below

/-- The chains hold each link that is shown once, and are what their kinds say. -/
structure Partitions (links : List ThreadPullRequestLink) (chains : List Chain) : Prop where
  cover : (chains.flatMap fun chain => chain.layers).Perm (links.filter fun link => link.visible)
  native : ∀ chain ∈ chains, chain.kind = .native → chain.IsStack lib links
  derived : ∀ chain ∈ chains, chain.kind = .derived → chain.IsDerived lib links

/-- No two stacks of the links have one key. -/
def StacksToldApart (links : List ThreadPullRequestLink) : Prop :=
  ∀ first ∈ links, ∀ second ∈ links, first.visible = true → second.visible = true →
    first.stack.isSome = true → ownStackKey lib first = ownStackKey lib second →
      SameStack lib first second

/-- No two stacks of the links have one key, and a branch that has the key of a head branch of
one loose link only is that head branch. -/
structure KeysTellApart (links : List ThreadPullRequestLink) : Prop where
  stackKeys : StacksToldApart lib links
  branchKeys : ∀ above ∈ looseLinks links, ∀ below ∈ looseLinks links, ∀ upper,
    above.snapshot = some upper →
      headKey lib below = some (branchKey lib above upper.baseBranch) →
      (∀ other ∈ looseLinks links, headKey lib other = headKey lib below → other = below) →
        StandsOn lib above below

end

section

variable {lib : Library} {links visible remaining : List ThreadPullRequestLink}
  {link : ThreadPullRequestLink} {key : String}

/-! ## Stacks -/

/-- What is known of the stacks of some links. -/
structure Groups (lib : Library) (visible : List ThreadPullRequestLink)
    (native : List (String × List ThreadPullRequestLink)) : Prop where
  distinct : (native.map Prod.fst).Nodup
  members : ∀ key members, (key, members) ∈ native ↔
    members ≠ [] ∧ members = visible.filter fun link => decide (ownStackKey lib link = some key)
  perm : (native.flatMap Prod.snd).Perm (visible.filter fun link => link.stack.isSome)

theorem map_fst_joinStack (native : List (String × List ThreadPullRequestLink)) :
    (joinStack key link native).map Prod.fst =
      if key ∈ native.map Prod.fst then native.map Prod.fst else native.map Prod.fst ++ [key] := by
  induction native with
  | nil => simp [joinStack]
  | cons first rest ih =>
      rcases first with ⟨other, members⟩
      by_cases same : other = key
      · simp [joinStack, same]
      · simp only [joinStack, same, if_false, List.map_cons, ih, List.mem_cons, Ne.symm same,
          false_or]
        split <;> simp

theorem perm_joinStack (native : List (String × List ThreadPullRequestLink)) :
    ((joinStack key link native).flatMap Prod.snd).Perm (native.flatMap Prod.snd ++ [link]) := by
  induction native with
  | nil => simp [joinStack]
  | cons first rest ih =>
      rcases first with ⟨other, members⟩
      by_cases same : other = key
      · simp only [joinStack, same, if_true, List.flatMap_cons, List.append_assoc]
        exact List.Perm.append_left _ List.perm_append_comm
      · simp only [joinStack, same, List.flatMap_cons, List.append_assoc]
        exact ih.append_left _

theorem mem_joinStack_iff {native : List (String × List ThreadPullRequestLink)}
    (distinct : (native.map Prod.fst).Nodup) (other : String)
    (members : List ThreadPullRequestLink) :
    (other, members) ∈ joinStack key link native ↔
      if other = key then members = (native.lookup key).getD [] ++ [link]
      else (other, members) ∈ native := by
  induction native with
  | nil =>
      by_cases same : other = key <;> simp [joinStack]
  | cons first rest ih =>
      rcases first with ⟨name, rows⟩
      rw [List.map_cons, List.nodup_cons] at distinct
      by_cases here : name = key
      · subst here
        rw [joinStack]
        by_cases same : other = name
        · subst same
          have absent : ∀ rows, (other, rows) ∉ rest := fun _ listed =>
            distinct.1 (List.mem_map.mpr ⟨_, listed, rfl⟩)
          simp [absent]
        · simp [same]
      · rw [joinStack, if_neg here, List.mem_cons, ih distinct.2, List.lookup_cons,
          beq_false_of_ne (Ne.symm here)]
        by_cases same : other = key
        · subst same
          simp [Ne.symm here]
        · simp [same]

theorem Groups.lookup_getD {native : List (String × List ThreadPullRequestLink)}
    (groups : Groups lib visible native) (key : String) :
    (native.lookup key).getD [] =
      visible.filter fun link => decide (ownStackKey lib link = some key) := by
  cases found : native.lookup key with
  | some members =>
      exact ((groups.members key members).mp (Assoc.mem_of_lookup found)).2
  | none =>
      by_contra some_member
      have listed := (groups.members key _).mpr ⟨Ne.symm some_member, rfl⟩
      have absent := List.lookup_eq_none_iff.mp found _ listed
      simp at absent

theorem groups_nativeStacks (lib : Library) (visible : List ThreadPullRequestLink) :
    Groups lib visible (nativeStacks lib visible) := by
  induction visible using List.reverseRecOn with
  | nil =>
      constructor
      · simp [nativeStacks]
      · simp [nativeStacks]
      · simp [nativeStacks]
  | append_singleton visible link ih =>
      rw [nativeStacks, List.foldl_append, List.foldl_cons, List.foldl_nil, ← nativeStacks]
      cases stacked : link.stack with
      | none =>
          have no_key : ownStackKey lib link = none := by simp [ownStackKey, stacked]
          constructor
          · exact ih.distinct
          · intro key members
            rw [ih.members]
            simp [no_key]
          · simpa [stacked] using ih.perm
      | some stack =>
          have own : ownStackKey lib link = some (stackKey lib link stack) := by
            simp [ownStackKey, stacked]
          constructor
          · rw [map_fst_joinStack]
            split
            · exact ih.distinct
            · rename_i fresh
              rw [List.nodup_append]
              refine ⟨ih.distinct, by simp, ?_⟩
              rintro name listed _ single rfl
              rw [List.mem_singleton] at single
              exact fresh (single ▸ listed)
          · intro key members
            rw [mem_joinStack_iff ih.distinct, ih.lookup_getD]
            by_cases same : key = stackKey lib link stack
            · subst same
              simp [own]
              rintro rfl
              simp
            · rw [if_neg same, ih.members]
              simp [own, Ne.symm same]
          · refine (perm_joinStack _).trans ?_
            simpa [stacked] using ih.perm.append_right [link]

/-! ## Head branches -/

/-- A list of one link, as that link, and longer ones as `none`. -/
def onlyLink : List ThreadPullRequestLink → Option (Option ThreadPullRequestLink)
  | [] => none
  | [link] => some (some link)
  | _ => some none

theorem lookup_branchHeads (lib : Library) (remaining : List ThreadPullRequestLink) (key : String) :
    (branchHeads lib remaining).lookup key =
      onlyLink (remaining.filter fun link => decide (headKey lib link = some key)) := by
  induction remaining using List.reverseRecOn with
  | nil => rfl
  | append_singleton remaining link ih =>
      rw [branchHeads, List.foldl_append, List.foldl_cons, List.foldl_nil, ← branchHeads,
        List.filter_append]
      cases head : headKey lib link with
      | none => simpa [head] using ih
      | some name =>
          by_cases same : name = key
          · subst same
            simp only [ih]
            cases remaining.filter fun link => decide (headKey lib link = some name) with
            | nil => simp [onlyLink, head]
            | cons first rest => cases rest <;> simp [onlyLink, head]
          · simp only [Assoc.lookup_put_of_ne (Ne.symm same), ih]
            simp [head, same]

theorem parentOf_eq_some_iff {above below : ThreadPullRequestLink} :
    parentOf lib remaining above = some below ↔ ∃ snapshot, above.snapshot = some snapshot ∧
      (remaining.filter fun link => decide
        (headKey lib link = some (branchKey lib above snapshot.baseBranch))) = [below] := by
  rw [parentOf, Option.bind_eq_some_iff]
  refine exists_congr fun snapshot => and_congr_right fun _ => ?_
  rw [lookup_branchHeads]
  cases remaining.filter fun link => decide
      (headKey lib link = some (branchKey lib above snapshot.baseBranch)) with
  | nil => simp [onlyLink]
  | cons first rest => cases rest <;> simp [onlyLink]

/-- Links are told apart by their keys. -/
theorem eq_of_linkKey (distinct : (links.map (linkKey lib)).Nodup)
    {first second : ThreadPullRequestLink} (one : first ∈ links) (two : second ∈ links)
    (same : linkKey lib first = linkKey lib second) : first = second :=
  List.inj_on_of_nodup_map distinct one two same

theorem looseLinks_sublist (links : List ThreadPullRequestLink) :
    (looseLinks links).Sublist links :=
  List.filter_sublist

/-- The links that native chains leave are those without a stack. -/
theorem remaining_eq (distinct : (links.map (linkKey lib)).Nodup)
    {placed : List ThreadPullRequestLink}
    (same : placed.Perm ((links.filter fun link => link.visible).filter fun link =>
      link.stack.isSome)) :
    ((links.filter fun link => link.visible).filter fun link =>
      decide (linkKey lib link ∉ placed.map (linkKey lib))) = looseLinks links := by
  rw [List.filter_filter]
  refine List.filter_congr fun link listed => ?_
  cases shown : link.visible with
  | false => simp
  | true =>
      rw [Bool.and_true, Bool.true_and]
      cases stacked : link.stack with
      | some stack =>
          have inside : link ∈ placed := by
            rw [same.mem_iff]
            simp [listed, shown, stacked]
          simpa using ⟨link, inside, rfl⟩
      | none =>
          simp only [List.mem_map, not_exists, not_and, Option.isNone_none, decide_eq_true_eq]
          intro other there equal
          rw [same.mem_iff] at there
          simp only [List.mem_filter] at there
          have alike := eq_of_linkKey distinct there.1.1 listed equal
          rw [alike, stacked] at there
          simp at there

theorem mem_of_parentOf {above below : ThreadPullRequestLink}
    (up : parentOf lib remaining above = some below) : below ∈ remaining := by
  rcases parentOf_eq_some_iff.mp up with ⟨snapshot, -, only⟩
  have inside : below ∈ remaining.filter fun link => decide
      (headKey lib link = some (branchKey lib above snapshot.baseBranch)) := by simp [only]
  exact (List.mem_filter.mp inside).1

/-- A head branch that a link stands on belongs to no other link. -/
theorem eq_of_standsOn {above below other : ThreadPullRequestLink}
    (up : parentOf lib remaining above = some below) (listed : other ∈ remaining)
    (stands : StandsOn lib above other) : other = below := by
  rcases parentOf_eq_some_iff.mp up with ⟨snapshot, shown, only⟩
  rcases stands with ⟨host, repository, upper, lower, shown', head, same⟩
  rw [shown, Option.some.injEq] at shown'
  subst shown'
  have key : headKey lib other = some (branchKey lib above snapshot.baseBranch) := by
    rw [headKey, head, Option.map_some, branchKey, branchKey, host, repository, same]
  have inside : other ∈ remaining.filter fun link => decide
      (headKey lib link = some (branchKey lib above snapshot.baseBranch)) := by
    simp [listed, key]
  rw [only] at inside
  exact List.mem_singleton.mp inside

/-! ## The parts of the answer -/

/-- The native chains of some links. -/
def nativeChains (lib : Library) (links : List ThreadPullRequestLink) : List Chain :=
  (nativeStacks lib (links.filter fun link => link.visible)).map fun stack => nativeChain stack.2

theorem perm_nativeChain (members : List ThreadPullRequestLink) :
    (nativeChain members).layers.Perm members :=
  perm_sortBy _ _

theorem perm_nativeChains (lib : Library) (links : List ThreadPullRequestLink) :
    ((nativeChains lib links).flatMap fun chain => chain.layers).Perm
      ((links.filter fun link => link.visible).filter fun link => link.stack.isSome) := by
  rw [nativeChains, List.flatMap_map]
  exact (List.Perm.flatMap_left _ fun stack _ => perm_nativeChain stack.2).trans
    (groups_nativeStacks lib _).perm

/-- The derived chains: the paths, and the links that no path has reached. -/
def derivedChains (lib : Library) (links : List ThreadPullRequestLink)
    (found : List String × List (List ThreadPullRequestLink)) : List Chain :=
  (found.2.filter fun layers => decide (layers ≠ [])).map (fun layers =>
      { kind := .derived, layers }) ++
    ((looseLinks links).filter fun link => decide (linkKey lib link ∉ found.1)).map fun link =>
      { kind := .derived, layers := [link] }

/-- The keys that native chains have placed. -/
def placedKeys (lib : Library) (links : List ThreadPullRequestLink) : List String :=
  (nativeChains lib links).flatMap fun chain => chain.layers.map (linkKey lib)

theorem resolveChains_eq_some (distinct : (links.map (linkKey lib)).Nodup) :
    ∃ found, resolveChains lib links =
        some (nativeChains lib links ++ derivedChains lib links found) ∧
      Ascents (parentOf lib (looseLinks links)) (linkKey lib) (looseLinks links)
        (placedKeys lib links) found.1 found.2 ∧
      ∀ link ∈ looseLinks links, linkKey lib link ∉ placedKeys lib links := by
  have keys : placedKeys lib links =
      ((nativeChains lib links).flatMap fun chain => chain.layers).map (linkKey lib) := by
    rw [placedKeys, List.map_flatMap]
  have left : ((links.filter fun link => link.visible).filter fun link =>
      decide (linkKey lib link ∉ placedKeys lib links)) = looseLinks links := by
    rw [keys]
    exact remaining_eq distinct (perm_nativeChains lib links)
  have unplaced : ∀ link ∈ looseLinks links, linkKey lib link ∉ placedKeys lib links := by
    intro link listed
    rw [← left] at listed
    exact of_decide_eq_true (List.mem_filter.mp listed).2
  have closed : ∀ above ∈ looseLinks links, ∀ below,
      parentOf lib (looseLinks links) above = some below → below ∈ looseLinks links :=
    fun _ _ _ => mem_of_parentOf
  rcases @climbAll_eq_some _ _ _ (linkKey lib) _ _ _ (placedKeys lib links) closed _
    (Nat.lt_succ_self _)
    (fun top (listed : top ∈ topLinks lib (looseLinks links)) => (List.mem_filter.mp listed).1)
    with ⟨final, paths, climbs, ascents⟩
  refine ⟨(final, paths), ?_, ascents, unplaced⟩
  rw [resolveChains]
  rw [← nativeChains, ← placedKeys, left, climbs, Option.map_some, derivedChains, List.append_assoc]

variable {chain : Chain}

section

variable {found : List String × List (List ThreadPullRequestLink)}
  (ascents : Ascents (parentOf lib (looseLinks links)) (linkKey lib) (looseLinks links)
    (placedKeys lib links) found.1 found.2)
  (unplaced : ∀ link ∈ looseLinks links, linkKey lib link ∉ placedKeys lib links)

include ascents unplaced in
theorem perm_derivedChains (distinct : (links.map (linkKey lib)).Nodup) :
    ((derivedChains lib links found).flatMap fun chain => chain.layers).Perm (looseLinks links) := by
  have layers : ((derivedChains lib links found).flatMap fun chain => chain.layers) =
      found.2.flatten ++ (looseLinks links).filter fun link =>
        decide (linkKey lib link ∉ found.1) := by
    rw [derivedChains, List.flatMap_append, List.flatMap_map, List.flatMap_map]
    rw [List.flatMap_id', List.flatten_filter_ne_nil]
    simp
  have loose_distinct : (looseLinks links).Nodup :=
    (distinct.sublist ((looseLinks_sublist links).map (linkKey lib))).of_map
  rw [layers]
  refine (List.perm_ext_iff_of_nodup ?_ loose_distinct).mpr fun link => ?_
  · refine List.nodup_append.mpr ⟨ascents.distinct.of_map, loose_distinct.filter _, ?_⟩
    rintro link climbed _ left rfl
    have unseen := of_decide_eq_true (List.mem_filter.mp left).2
    exact unseen ((ascents.seen_iff _).mpr (.inr (List.mem_map.mpr ⟨link, climbed, rfl⟩)))
  · rw [List.mem_append, List.mem_filter, decide_eq_true_eq]
    constructor
    · rintro (climbed | ⟨listed, -⟩)
      · exact ascents.listed link climbed
      · exact listed
    · intro listed
      by_cases seen : linkKey lib link ∈ found.1
      · left
        rcases (ascents.seen_iff _).mp seen with before | climbed
        · exact absurd before (unplaced link listed)
        · rcases List.mem_map.mp climbed with ⟨other, there, same⟩
          have alike := eq_of_linkKey distinct
            ((looseLinks_sublist links).subset (ascents.listed other there))
            ((looseLinks_sublist links).subset listed) same
          exact alike ▸ there
      · exact .inr ⟨listed, seen⟩

include ascents in
/-- A layer of a derived chain stands on the one below it. -/
theorem parentOf_of_beside (listed : chain ∈ derivedChains lib links found)
    {below above : ThreadPullRequestLink} (beside : [below, above] <:+: chain.layers) :
    parentOf lib (looseLinks links) above = some below := by
  rcases List.mem_append.mp listed with path | single
  · rcases List.mem_map.mp path with ⟨layers, there, rfl⟩
    obtain ⟨before, after, spelled⟩ := beside
    have upward := ascents.upward layers (List.mem_filter.mp there).1
    rw [← show before ++ [below, above] ++ after = layers from spelled] at upward
    have pair := upward.left_of_append.right_of_append
    rwa [List.isChain_pair] at pair
  · rcases List.mem_map.mp single with ⟨link, -, rfl⟩
    have short := beside.length_le
    simp at short

include ascents in
theorem mem_looseLinks_of_beside (listed : chain ∈ derivedChains lib links found)
    {below above : ThreadPullRequestLink} (beside : [below, above] <:+: chain.layers) :
    above ∈ looseLinks links := by
  have inside : above ∈ chain.layers := beside.subset (by simp)
  rcases List.mem_append.mp listed with path | single
  · rcases List.mem_map.mp path with ⟨layers, there, rfl⟩
    exact ascents.listed above (List.mem_flatten.mpr ⟨layers, (List.mem_filter.mp there).1, inside⟩)
  · rcases List.mem_map.mp single with ⟨link, there, rfl⟩
    exact List.mem_singleton.mp inside ▸ (List.mem_filter.mp there).1

end

theorem kind_nativeChains (listed : chain ∈ nativeChains lib links) : chain.kind = .native := by
  rcases List.mem_map.mp listed with ⟨stack, -, rfl⟩
  rfl

theorem kind_derivedChains {found : List String × List (List ThreadPullRequestLink)}
    (listed : chain ∈ derivedChains lib links found) : chain.kind = .derived := by
  rcases List.mem_append.mp listed with path | single
  · rcases List.mem_map.mp path with ⟨layers, -, rfl⟩
    rfl
  · rcases List.mem_map.mp single with ⟨link, -, rfl⟩
    rfl

/-- The members of a stack, in the order of the links. -/
def membersOf (lib : Library) (links : List ThreadPullRequestLink) (key : String) :
    List ThreadPullRequestLink :=
  (links.filter fun link => link.visible).filter fun link => decide (ownStackKey lib link = some key)

theorem mem_membersOf_iff :
    link ∈ membersOf lib links key ↔
      link ∈ links ∧ link.visible = true ∧ ownStackKey lib link = some key := by
  rw [membersOf, List.mem_filter, List.mem_filter, decide_eq_true_eq, and_assoc]

theorem mem_nativeChains_iff :
    chain ∈ nativeChains lib links ↔
      ∃ key, membersOf lib links key ≠ [] ∧ chain = nativeChain (membersOf lib links key) := by
  have groups := groups_nativeStacks lib (links.filter fun link => link.visible)
  rw [nativeChains, List.mem_map]
  constructor
  · rintro ⟨⟨key, members⟩, listed, rfl⟩
    rcases (groups.members key members).mp listed with ⟨some_member, rfl⟩
    exact ⟨key, some_member, rfl⟩
  · rintro ⟨key, some_member, rfl⟩
    exact ⟨(key, _), (groups.members key _).mpr ⟨some_member, rfl⟩, rfl⟩

theorem SameStack.symm {first second : ThreadPullRequestLink} (same : SameStack lib first second) :
    SameStack lib second first :=
  ⟨same.1.symm, same.2.1.symm, same.2.2.symm⟩

theorem SameStack.trans {first second third : ThreadPullRequestLink}
    (one : SameStack lib first second) (two : SameStack lib second third) :
    SameStack lib first third :=
  ⟨one.1.trans two.1, one.2.1.trans two.2.1, one.2.2.trans two.2.2⟩

/-- The members of a stack are put in the order of the first one. -/
theorem isStack_nativeChain (some_member : membersOf lib links key ≠ [])
    (alike : ∀ first ∈ membersOf lib links key, ∀ second ∈ membersOf lib links key,
      SameStack lib first second) :
    (nativeChain (membersOf lib links key)).IsStack lib links := by
  have layers (link : ThreadPullRequestLink) :
      link ∈ (nativeChain (membersOf lib links key)).layers ↔ link ∈ membersOf lib links key :=
    (perm_nativeChain _).mem_iff
  have members : (links.filter fun link =>
      decide (link ∈ (nativeChain (membersOf lib links key)).layers)) = membersOf lib links key := by
    have inner : membersOf lib links key = links.filter fun link =>
        decide (ownStackKey lib link = some key) && link.visible := by
      rw [membersOf, List.filter_filter]
    refine Eq.trans ?_ inner.symm
    refine List.filter_congr fun link listed => ?_
    rw [Bool.eq_iff_iff]
    simp only [decide_eq_true_eq, Bool.and_eq_true, layers, mem_membersOf_iff]
    tauto
  cases found : membersOf lib links key with
  | nil => exact absurd found some_member
  | cons first rest =>
      have here : first ∈ membersOf lib links key := by simp [found]
      rcases Option.map_eq_some_iff.mp (mem_membersOf_iff.mp here).2.2 with ⟨stack, stacked, -⟩
      rw [← found]
      refine ⟨first, stack, ?_, stacked, ?_, ?_⟩
      · rw [members, found]
        rfl
      · exact fun link listed => alike first here link ((layers link).mp listed)
      · have order : (((membersOf lib links key).head?.bind fun link => link.stack).map
            fun stack => stack.layers).getD [] = stack.layers := by
          rw [found]
          simp [stacked]
        rw [nativeChain]
        rw [order]
        refine (pairwise_sortBy (layerPosition stack.layers) _).imp ?_
        intro lower upper le i j one two
        simpa [layerPosition, one, two] using le

theorem stacks_iff (lib : Library) (links : List ThreadPullRequestLink) :
    (∀ chain ∈ nativeChains lib links, chain.IsStack lib links) ↔ StacksToldApart lib links := by
  constructor
  · intro ordered first one second two shown shown' stacked same
    rcases Option.isSome_iff_exists.mp stacked with ⟨stack, there⟩
    have key : ownStackKey lib first = some (stackKey lib first stack) := by
      simp [ownStackKey, there]
    have here := mem_membersOf_iff.mpr ⟨one, shown, key⟩
    have other := mem_membersOf_iff.mpr ⟨two, shown', same ▸ key⟩
    rcases ordered _ (mem_nativeChains_iff.mpr ⟨_, List.ne_nil_of_mem here, rfl⟩) with
      ⟨lead, -, -, -, alike, -⟩
    exact (alike first ((perm_nativeChain _).mem_iff.mpr here)).symm.trans
      (alike second ((perm_nativeChain _).mem_iff.mpr other))
  · intro apart chain listed
    rcases mem_nativeChains_iff.mp listed with ⟨key, some_member, rfl⟩
    refine isStack_nativeChain some_member fun first one second two => ?_
    rcases mem_membersOf_iff.mp one with ⟨listed, shown, key'⟩
    rcases mem_membersOf_iff.mp two with ⟨listed', shown', key''⟩
    refine apart first listed second listed' shown shown' ?_ (key'.trans key''.symm)
    rcases Option.map_eq_some_iff.mp key' with ⟨stack, there, -⟩
    rw [there, Option.isSome_some]

/-- The chains hold each link once.  The native ones are what they say exactly if the keys
tell stacks apart, and the derived ones are if they tell branches apart. -/
theorem chains_partition_links (lib : Library) (links : List ThreadPullRequestLink)
    (distinct : (links.map (linkKey lib)).Nodup) :
    ∃ chains, resolveChains lib links = some chains ∧
      (chains.flatMap fun chain => chain.layers).Perm (links.filter fun link => link.visible) ∧
      (KeysTellApart lib links → Partitions lib links chains) ∧
      (Partitions lib links chains → StacksToldApart lib links) := by
  rcases resolveChains_eq_some distinct with ⟨found, resolved, ascents, unplaced⟩
  have cover : ((nativeChains lib links ++ derivedChains lib links found).flatMap
      fun chain => chain.layers).Perm (links.filter fun link => link.visible) := by
    have loose : looseLinks links = (links.filter fun link => link.visible).filter
        fun link => !link.stack.isSome := by
      rw [List.filter_filter]
      refine List.filter_congr fun link _ => ?_
      cases link.stack <;> cases link.visible <;> rfl
    rw [List.flatMap_append]
    refine ((perm_nativeChains lib links).append
      (perm_derivedChains ascents unplaced distinct)).trans ?_
    rw [loose]
    exact List.filter_append_perm _ _
  refine ⟨_, resolved, cover, fun apart => ⟨cover, fun chain listed native => ?_,
    fun chain listed derived => ?_⟩, fun parts => (stacks_iff lib links).mp fun chain listed =>
      parts.native chain (List.mem_append_left _ listed) (kind_nativeChains listed)⟩
  · rcases List.mem_append.mp listed with here | other
    · exact (stacks_iff lib links).mpr apart.stackKeys chain here
    · rw [kind_derivedChains other] at native
      cases native
  · rcases List.mem_append.mp listed with other | here
    · rw [kind_nativeChains other] at derived
      cases derived
    · intro below above beside
      have up := parentOf_of_beside ascents here beside
      have loose := mem_looseLinks_of_beside ascents here beside
      rcases parentOf_eq_some_iff.mp up with ⟨upper, shown, only⟩
      have inside : ∀ other, other ∈ looseLinks links ∧
          headKey lib other = some (branchKey lib above upper.baseBranch) ↔ other = below := by
        intro other
        have listed : other ∈ (looseLinks links).filter (fun link => decide
            (headKey lib link = some (branchKey lib above upper.baseBranch))) ↔ other ∈ [below] := by
          rw [only]
        simpa only [List.mem_filter, decide_eq_true_eq, List.mem_singleton] using listed
      have head := ((inside below).mpr rfl).2
      exact ⟨apart.branchKeys above loose below (mem_of_parentOf up) upper shown head
          fun other there same => (inside other).mp ⟨there, same.trans head⟩,
        fun other there stands => eq_of_standsOn up there stands⟩

end

/-- A library for texts that need no parsing. -/
def wordLibrary : Library where
  parse _ := none
  render url := url.path
  lowercase text := text

/-- An open pull request from one branch to another. -/
def linkOn (repository : String) (number : Int) (headBranch baseBranch : String) :
    ThreadPullRequestLink where
  host := "forge"
  repository := repository
  number := number
  url := ""
  source := .manual
  linkedAt := 0
  snapshot := some { state := .opened, headBranch, baseBranch, closedAt := none, mergedAt := none }
  stack := none
  watch := none

theorem chains_partition_two_links :
    ∃ chains, resolveChains wordLibrary [linkOn "o/r" 2 "b" "a", linkOn "o/r" 1 "a" "main"] =
        some chains ∧
      Partitions wordLibrary [linkOn "o/r" 2 "b" "a", linkOn "o/r" 1 "a" "main"] chains := by
  rcases chains_partition_links wordLibrary
    [linkOn "o/r" 2 "b" "a", linkOn "o/r" 1 "a" "main"] (by decide +kernel) with
    ⟨chains, resolved, -, partitions, -⟩
  have loose : looseLinks [linkOn "o/r" 2 "b" "a", linkOn "o/r" 1 "a" "main"] =
      [linkOn "o/r" 2 "b" "a", linkOn "o/r" 1 "a" "main"] := by decide
  refine ⟨chains, resolved, partitions ⟨?_, ?_⟩⟩
  · intro first one second _ _ _ stacked
    rcases List.mem_pair.mp one with rfl | rfl <;> cases stacked
  · intro above one below two upper shown head _
    rw [loose] at one two
    simp only [List.mem_cons, List.not_mem_nil, or_false] at one two
    rcases one with rfl | rfl <;> cases shown
    · rcases two with rfl | rfl
      · exact absurd head (by decide +kernel)
      · exact ⟨rfl, rfl, _, _, rfl, rfl, rfl⟩
    · rcases two with rfl | rfl <;> exact absurd head (by decide +kernel)

/-- A branch of one repository is taken for a branch of another one, because both have one key. -/
theorem chain_joins_two_repositories :
    resolveChains wordLibrary [linkOn "r" 2 "c" "x:main", linkOn "r:x" 1 "main" "trunk"] =
        some [{ kind := .derived,
                layers := [linkOn "r:x" 1 "main" "trunk", linkOn "r" 2 "c" "x:main"] }] ∧
      ¬ ∀ (lib : Library) (links : List ThreadPullRequestLink), (links.map (linkKey lib)).Nodup →
        ∀ chains, resolveChains lib links = some chains → Partitions lib links chains := by
  have joined : resolveChains wordLibrary
      [linkOn "r" 2 "c" "x:main", linkOn "r:x" 1 "main" "trunk"] =
        some [{ kind := .derived,
                layers := [linkOn "r:x" 1 "main" "trunk", linkOn "r" 2 "c" "x:main"] }] := by
    decide +kernel
  refine ⟨joined, fun always => ?_⟩
  have parts := always wordLibrary _ (by decide +kernel) _ joined
  have derived := parts.derived _ (List.mem_singleton_self _) rfl _ _ (List.infix_refl _)
  have repository := derived.1.2.1
  exact absurd repository (by decide +kernel)

end Zeron.PullRequests
