import Std.Data.String.ToInt
import Zeron.PullRequests.Planner
import Zeron.Transition.Run

/-!
# The links of a thread stay coherent

No two links name one pull request, and what the user has dismissed stays away, as long
as every target is named as the links are and no link is dismissed twice.
-/

namespace Zeron.PullRequests

open Transition

variable (lib : Library)

/-- `dismissed` are the keys of the layers that the user has dismissed. -/
structure Coherent (links : List ThreadPullRequestLink) (dismissed : List String) : Prop where
  distinct : (links.map (linkKey lib)).Nodup
  watched : ∀ link ∈ links, link.watch.isSome = true → link.visible = true
  gone : ∀ key ∈ dismissed, ∃ link ∈ links, linkKey lib link = key ∧ link.visible = false

variable {lib} {links : List ThreadPullRequestLink} {dismissed : List String} {target : Identity}
  {i : Nat} {link other : ThreadPullRequestLink} {time : Int}

namespace Coherent

section

variable (coherent : Coherent lib links dismissed)
include coherent

theorem eq_of_linkKey (listed : link ∈ links) (other_listed : other ∈ links)
    (same : linkKey lib link = linkKey lib other) : link = other :=
  List.inj_on_of_nodup_map coherent.distinct listed other_listed same

/-- No link of a dismissed key can be seen. -/
theorem hidden {key : String} (listed : key ∈ dismissed) (there : link ∈ links)
    (same : linkKey lib link = key) : link.visible = false := by
  obtain ⟨found, found_there, found_key, hidden⟩ := coherent.gone key listed
  rw [coherent.eq_of_linkKey there found_there (same.trans found_key.symm)]
  exact hidden

theorem subset {fewer : List String} (subset : fewer ⊆ dismissed) : Coherent lib links fewer :=
  { coherent with gone := fun key listed => coherent.gone key (subset listed) }

/-- A link changes, and keeps its key. -/
theorem set (found : links[i]? = some link) (key : linkKey lib other = linkKey lib link)
    (watched : other.watch.isSome = true → other.visible = true)
    (hidden : link.visible = false → other.visible = false) :
    Coherent lib (links.set i other) dismissed where
  distinct := by
    obtain ⟨bound, rfl⟩ := List.getElem?_eq_some_iff.mp found
    rw [List.map_set, key]
    have same : (links.map (linkKey lib)).set i (linkKey lib links[i])
        = links.map (linkKey lib) := by
      rw [← List.map_set, List.set_getElem_self]
    rw [same]
    exact coherent.distinct
  watched changed listed := by
    obtain listed | rfl := List.mem_or_eq_of_mem_set listed
    · exact coherent.watched changed listed
    · exact watched
  gone key' listed := by
    obtain ⟨old, there, old_key, old_hidden⟩ := coherent.gone key' listed
    obtain ⟨bound, rfl⟩ := List.getElem?_eq_some_iff.mp found
    by_cases same : old = links[i]
    · subst same
      exact ⟨other, List.mem_set bound other, key.trans old_key, hidden old_hidden⟩
    · refine ⟨old, ?_, old_key, old_hidden⟩
      obtain ⟨j, j_bound, rfl⟩ := List.mem_iff_getElem.mp there
      have apart : i ≠ j := by
        rintro rfl
        exact same rfl
      exact List.mem_iff_getElem.mpr
        ⟨j, by simpa using j_bound, List.getElem_set_ne apart (by simpa using j_bound)⟩

section

variable (fresh : linkKey lib link ∉ links.map (linkKey lib)) (watched : link.watch.isSome = true → link.visible = true)
include fresh watched

/-- Links that stay, and one more of another key. -/
theorem push :
    Coherent lib (links ++ [link]) dismissed where
  distinct := by
    rw [List.map_append]
    exact List.nodup_append.mpr ⟨coherent.distinct, List.nodup_singleton _,
      fun key listed other single same => by
        obtain rfl := List.mem_singleton.mp single
        exact fresh (same ▸ listed)⟩
  watched changed listed := by
    obtain listed | single := List.mem_append.mp listed
    · exact coherent.watched changed listed
    · obtain rfl := List.mem_singleton.mp single
      exact watched
  gone key listed := by
    obtain ⟨old, there, rest⟩ := coherent.gone key listed
    exact ⟨old, List.mem_append_left _ there, rest⟩

/-- One more link in front. -/
theorem cons :
    Coherent lib (link :: links) dismissed where
  distinct := List.nodup_cons.mpr ⟨fresh, coherent.distinct⟩
  watched changed listed := by
    obtain rfl | listed := List.mem_cons.mp listed
    · exact watched
    · exact coherent.watched changed listed
  gone key listed := by
    obtain ⟨old, there, rest⟩ := coherent.gone key listed
    exact ⟨old, List.mem_cons_of_mem _ there, rest⟩

end

/-- Links go whose keys are not kept. -/
theorem sublist {fewer : List ThreadPullRequestLink} {kept : List String}
    (part : fewer.Sublist links) (subset : kept ⊆ dismissed)
    (stay : ∀ link ∈ links, linkKey lib link ∈ kept → link ∈ fewer) :
    Coherent lib fewer kept where
  distinct := coherent.distinct.sublist (part.map _)
  watched link listed := coherent.watched link (part.subset listed)
  gone key listed := by
    obtain ⟨old, there, rfl, hidden⟩ := coherent.gone key (subset listed)
    exact ⟨old, stay old there listed, rfl, hidden⟩

end

end Coherent

/-! ## Finding a link -/

theorem indexOf_eq_none_iff :
    indexOf lib links target = none ↔ target.key ∉ links.map (linkKey lib) := by
  simp [indexOf]

theorem indexOf_spec (found : indexOf lib links target = some i) :
    ∃ link, links[i]? = some link ∧ linkKey lib link = target.key := by
  obtain ⟨bound, here, -⟩ := List.findIdx?_eq_some_iff_getElem.mp found
  exact ⟨links[i], List.getElem?_eq_getElem bound, of_decide_eq_true here⟩

end Zeron.PullRequests

/-!
## Every operation keeps the links coherent

One theorem for each arm of `plan`.  What a link is named after it is stored is computed
from its URL again, so each of them asks that the two names agree.
-/

namespace Zeron.PullRequests

variable {lib : Library} {links after : List ThreadPullRequestLink} {dismissed : List String}
  {target : Identity} {link other : ThreadPullRequestLink} {source : ThreadPullRequestLinkSource}
  {time : Int} {i : Nat}

@[simp]
theorem visible_eq_false_iff : link.visible = false ↔ link.source = .stackDismissed := by
  simp [ThreadPullRequestLink.visible]

@[simp]
theorem visible_eq_true_iff : link.visible = true ↔ link.source ≠ .stackDismissed := by
  simp [ThreadPullRequestLink.visible]

/-- The dismissed layers once a pull request is linked by name. -/
def restored (target : Identity) (dismissed : List String) : List String :=
  dismissed.filter fun key => decide (key ≠ target.key)

theorem restored_subset : restored target dismissed ⊆ dismissed :=
  List.filter_subset_self _

theorem mem_restored {key : String} :
    key ∈ restored target dismissed ↔ key ∈ dismissed ∧ key ≠ target.key := by
  simp [restored]

theorem modify_eq_set_of_getElem? {α : Type} {as : List α} {i : Nat} {a : α} {change : α → α}
    (found : as[i]? = some a) : as.modify i change = as.set i (change a) := by
  refine List.ext_getElem? fun j => ?_
  by_cases same : i = j
  · obtain ⟨bound, rfl⟩ := List.getElem?_eq_some_iff.mp found
    subst same
    simp [bound]
  · simp [same]

namespace Coherent

section

variable (coherent : Coherent lib links dismissed)
include coherent

/-- A link in the list is dismissed. -/
theorem dismiss (listed : link ∈ links) (hidden : link.visible = false) :
    Coherent lib links (linkKey lib link :: dismissed) :=
  { coherent with
    gone := fun key there => by
      obtain rfl | there := List.mem_cons.mp there
      · exact ⟨link, listed, rfl, hidden⟩
      · exact coherent.gone key there }

/-- A link is changed in its place. -/
theorem modify {change : ThreadPullRequestLink → ThreadPullRequestLink}
    (found : links[i]? = some link) (key : linkKey lib (change link) = linkKey lib link)
    (watched : (change link).watch.isSome = true → (change link).visible = true)
    (hidden : link.visible = false → (change link).visible = false) :
    Coherent lib (links.modify i change) dismissed := by
  rw [modify_eq_set_of_getElem? found]
  exact coherent.set found key watched hidden

/-- The key of a link that is taken out is not in the list any more. -/
theorem not_mem_eraseIdx (found : links[i]? = some link) :
    linkKey lib link ∉ (links.eraseIdx i).map (linkKey lib) := by
  intro listed
  obtain ⟨other, there, same⟩ := List.mem_map.mp listed
  obtain ⟨j, apart, here⟩ := List.mem_eraseIdx_iff_getElem?.mp there
  refine apart ((List.getElem?_inj ?_ coherent.distinct).mp ?_)
  · simpa using (List.getElem?_eq_some_iff.mp here).1
  · simp [here, found, same]

/-- Links go whose keys are not kept; the others stay. -/
theorem eraseIdx (found : links[i]? = some link) {kept : List String} (subset : kept ⊆ dismissed)
    (dropped : linkKey lib link ∉ kept) :
    Coherent lib (links.eraseIdx i) kept := by
  refine coherent.sublist (List.eraseIdx_sublist links i) subset fun other listed key => ?_
  obtain ⟨j, here⟩ := List.mem_iff_getElem?.mp listed
  refine List.mem_eraseIdx_iff_getElem?.mpr ⟨j, ?_, here⟩
  rintro rfl
  obtain rfl := Option.some.inj (found.symm.trans here)
  exact dropped key

end

end Coherent

/-! ## `Link` -/

/-- The link that `Link` stores. -/
def storedLink (lib : Library) (links : List ThreadPullRequestLink) (target : Identity)
    (source : ThreadPullRequestLinkSource) (time : Int) : ThreadPullRequestLink :=
  { ((indexOf lib links target).bind fun i => links[i]?).getD (newLink target source time) with
    source, url := target.url }

/-- A source that brings a dismissed link back. -/
def ThreadPullRequestLinkSource.explicit (source : ThreadPullRequestLinkSource) : Bool :=
  decide (source ≠ .stack ∧ source ≠ .stackDismissed)

variable {thread : AppThread}

/-- What a thread's links are once the rest has been fixed. -/
theorem Coherent.branch_push {rest : List ThreadPullRequestLink}
    (coherent : Coherent lib rest dismissed) (fresh : target.key ∉ rest.map (linkKey lib))
    (named : ∀ branch ∈ thread.branchPullRequest.bind (parseUrl lib),
      linkKey lib (newLink branch .manual time) = branch.key)
    (key : linkKey lib link = target.key) (unwatched : link.watch = none) :
    Coherent lib ((branchLink lib thread rest target source time).toList ++ rest ++ [link])
      dismissed := by
  have watched : link.watch.isSome = true → link.visible = true := by simp [unwatched]
  unfold branchLink
  split
  · cases parsed : thread.branchPullRequest.bind (parseUrl lib) with
    | none => exact coherent.push (key ▸ fresh) watched
    | some branch =>
        simp only [Option.bind_some]
        split
        · rename_i absent
          obtain ⟨apart, absent⟩ := absent
          refine (coherent.cons ?_ (fun watched => by cases watched)).push ?_ watched
          · rw [named branch parsed]
            simpa using absent
          · rw [key, List.map_cons, named branch parsed]
            exact List.not_mem_cons_of_ne_of_not_mem apart.symm fresh
        · exact coherent.push (key ▸ fresh) watched
  · exact coherent.push (key ▸ fresh) watched

theorem Coherent.planLink (coherent : Coherent lib links dismissed)
    (stored : (∀ link ∈ links, linkKey lib link = target.key →
        link.visible = false ∧ source.explicit = true) →
      linkKey lib (storedLink lib links target source time) = target.key ∧
        ∀ branch ∈ thread.branchPullRequest.bind (parseUrl lib),
          linkKey lib (newLink branch .manual time) = branch.key) :
    Coherent lib (planLink lib thread links target source time)
      (if source.explicit then restored target dismissed else dismissed) := by
  have subset : (if source.explicit then restored target dismissed else dismissed) ⊆ dismissed := by
    split
    · exact restored_subset
    · exact List.Subset.refl _
  unfold PullRequests.planLink
  cases index : indexOf lib links target with
  | none =>
      have missing := indexOf_eq_none_iff.mp index
      obtain ⟨key, named⟩ := stored fun link listed same =>
        absurd (List.mem_map.mpr ⟨link, listed, same⟩) missing
      simp only [storedLink, index] at key
      exact (coherent.subset subset).branch_push missing named key rfl
  | some i =>
      obtain ⟨found, here, same⟩ := indexOf_spec index
      simp only [Option.isNone_some, Bool.false_eq_true, false_or, Option.bind_some, here]
      split
      · rename_i undismiss
        obtain ⟨hidden, explicit⟩ := Bool.and_eq_true_iff.mp undismiss
        have hidden : found.visible = false := visible_eq_false_iff.mpr (of_decide_eq_true hidden)
        have listed : found ∈ links := List.mem_of_getElem? here
        obtain ⟨key, named⟩ := stored fun link there link_key => by
          rw [coherent.eq_of_linkKey there listed (link_key.trans same.symm)]
          exact ⟨hidden, explicit⟩
        simp only [storedLink, index, here, Option.bind_some] at key
        have unwatched : found.watch = none := by
          by_contra watched
          rw [coherent.watched found listed (Option.isSome_iff_ne_none.mpr watched)] at hidden
          cases hidden
        rw [ThreadPullRequestLinkSource.explicit, if_pos explicit]
        refine Coherent.branch_push (coherent.eraseIdx here restored_subset ?_) ?_ named key
          unwatched
        · simp [mem_restored, same]
        · rw [← same]
          exact coherent.not_mem_eraseIdx here
      · exact coherent.subset subset

/-! ## `Unlink` -/

/-- The target has a link that is a layer of a stack. -/
def isLayer (lib : Library) (links : List ThreadPullRequestLink) (target : Identity) : Bool :=
  ((indexOf lib links target).bind fun i => links[i]?).any fun link =>
    decide (link.source = .stack) || link.stack.isSome || namedByStack lib links target

theorem Coherent.planUnlink (coherent : Coherent lib links dismissed)
    (once : ∀ link ∈ links, linkKey lib link = target.key → link.visible = false →
      isLayer lib links target = true) :
    Coherent lib (planUnlink lib links target)
      (if isLayer lib links target then target.key :: dismissed else dismissed) := by
  unfold PullRequests.planUnlink
  cases index : indexOf lib links target with
  | none => simpa [isLayer, index] using coherent
  | some i =>
      obtain ⟨found, here, same⟩ := indexOf_spec index
      have layer : isLayer lib links target = (decide (found.source = .stack) ||
          found.stack.isSome || namedByStack lib links target) := by
        simp [isLayer, index, here]
      simp only [here]
      split
      · rename_i stack
        rw [layer, if_pos (by simpa [or_assoc] using stack)]
        have kept : Coherent lib
            (links.set i { found with source := .stackDismissed, watch := none }) dismissed :=
          coherent.set here rfl (fun watched => by cases watched) (fun _ => rfl)
        rw [← same]
        have listed := List.mem_set (List.getElem?_eq_some_iff.mp here).1
          { found with source := .stackDismissed, watch := none }
        have hidden := kept.dismiss listed rfl
        exact hidden
      · rename_i stack
        have plain : isLayer lib links target = false := by
          rw [layer]
          simpa [and_assoc] using stack
        rw [plain]
        refine coherent.eraseIdx here (List.Subset.refl _) fun listed => ?_
        have there : found ∈ links := List.mem_of_getElem? here
        rw [once found there same (coherent.hidden listed there rfl)] at plain
        cases plain

/-! ## `Watch` and `WatchSync` -/

theorem Coherent.planWatch {watching : Bool} (coherent : Coherent lib links dismissed)
    (stored : watching = true →
      (∀ link ∈ links, linkKey lib link = target.key → link.visible = false) →
        linkKey lib (newLink target .agent time) = target.key)
    (planned : planWatch lib links target watching time = some after) :
    Coherent lib after (if watching then restored target dismissed else dismissed) := by
  have subset : (if watching then restored target dismissed else dismissed) ⊆ dismissed := by
    split
    · exact restored_subset
    · exact List.Subset.refl _
  have mark : ∀ {links : List ThreadPullRequestLink} {dismissed : List String} {i : Nat},
      Coherent lib links dismissed →
      (∀ link, links[i]? = some link → link.visible = true) →
      (links[i]? = none → some links = some after) →
      (∀ link, links[i]? = some link →
        (if watching = true ∧ link.snapshot.any (fun snapshot =>
            decide (snapshot.state ≠ .opened)) = true then none
        else
          some (links.set i { link with
            watch := if watching then some (link.watch.getD (freshWatch time)) else none })) =
          some after) →
      Coherent lib after dismissed := by
    intro links dismissed i coherent seen missing marked
    cases here : links[i]? with
    | none =>
        cases missing here
        exact coherent
    | some link =>
        have marked := marked link here
        split at marked
        · cases marked
        · cases marked
          exact coherent.set here rfl (fun _ => seen link here) (fun hidden => hidden)
  simp only [PullRequests.planWatch] at planned
  cases index : (indexOf lib links target).filter fun i =>
      links[i]?.any fun link => link.visible with
  | none =>
      rw [index] at planned
      cases watching with
      | false =>
          simp only [Bool.false_eq_true, false_and, if_false, Option.some.injEq] at planned
          subst planned
          exact coherent
      | true =>
          have gone : ∀ link ∈ links, linkKey lib link = target.key → link.visible = false := by
            intro link listed key
            cases place : indexOf lib links target with
            | none =>
                exact absurd (List.mem_map.mpr ⟨link, listed, key⟩)
                  (indexOf_eq_none_iff.mp place)
            | some i =>
                obtain ⟨found, here, same⟩ := indexOf_spec place
                rw [coherent.eq_of_linkKey listed (List.mem_of_getElem? here) (key.trans same.symm)]
                simpa [place, here] using index
          have key := stored rfl gone
          rw [if_pos ⟨rfl, rfl⟩] at planned
          have last : ∀ rest : List ThreadPullRequestLink,
              (rest ++ [newLink target .agent time])[(rest ++ [newLink target .agent time]).length - 1]? =
                some (newLink target .agent time) := by
            intro rest
            simp
          dsimp only at planned
          rw [last] at planned
          refine mark (Coherent.push (coherent.sublist List.filter_sublist restored_subset ?_) ?_ ?_)
            ?_ (fun missing => by cases (last _).symm.trans missing) (fun link here => by
              obtain rfl := Option.some.inj ((last _).symm.trans here)
              exact planned)
          · intro link listed there
            exact List.mem_filter.mpr ⟨listed, decide_eq_true (mem_restored.mp there).2⟩
          · rw [key]
            simp
          · simp [newLink]
          · intro link here
            simp at here
            subst here
            rfl
  | some i =>
      rw [index] at planned
      obtain ⟨-, seen⟩ := Option.filter_eq_some_iff.mp index
      simp only [reduceCtorEq, and_false, if_false] at planned
      exact mark (i := i) (coherent.subset subset) (fun link here => by simpa [here] using seen)
        (fun missing => by simpa only [missing] using planned)
        (fun link here => by simpa only [here] using planned)

theorem Coherent.planWatchSync {startedAt : Int} {watch : Option ThreadPullRequestWatch}
    {wake : Option Wake} (coherent : Coherent lib links dismissed)
    (planned : planWatchSync lib thread links target startedAt watch wake = some after) :
    Coherent lib after dismissed := by
  simp only [PullRequests.planWatchSync] at planned
  split at planned
  · cases planned
  · rename_i i index
    split at planned
    · cases planned
    · cases planned
      obtain ⟨-, there⟩ := Option.filter_eq_some_iff.mp index
      cases here : links[i]? with
      | none => simp [here] at there
      | some link =>
          simp only [here, Option.any_some, Bool.and_eq_true] at there
          exact coherent.modify here rfl (fun _ => there.1) (fun hidden => hidden)

/-! ## `Sync` -/

/-- The link is that of one layer, as `Sync` looks for it. -/
def isLayerOf (lib : Library) (target : Identity) (layer : Int) (link : ThreadPullRequestLink) :
    Bool :=
  decide ((identity lib link).host = target.host) &&
    decide ((identity lib link).repository = target.repository) && decide (link.number = layer)

theorem linkKey_of_isLayerOf {layer : Int} (named : isLayerOf lib target layer link = true) :
    linkKey lib link = { target with number := layer }.key := by
  simp only [isLayerOf, Bool.and_eq_true, decide_eq_true_eq] at named
  obtain ⟨⟨host, repository⟩, number⟩ := named
  have same : (identity lib link).number = layer := number
  simp [linkKey, Identity.key, host, repository, same]

/-- The number can be read off a key, if host and repository are known. -/
theorem number_eq_of_key {first second : Int}
    (same : { target with number := first }.key = { target with number := second }.key) :
    first = second := by
  exact Int.repr_inj.mp (String.append_right_inj _ |>.mp same)

/-- A layer has one link, if it has any. -/
theorem countP_isLayerOf {layer : Int} (distinct : (links.map (linkKey lib)).Nodup)
    (listed : ∃ link ∈ links, isLayerOf lib target layer link = true) :
    links.countP (isLayerOf lib target layer) = 1 := by
  refine le_antisymm ?_ (List.countP_pos_iff.mpr listed)
  calc links.countP (isLayerOf lib target layer)
      ≤ links.countP (fun link => linkKey lib link == { target with number := layer }.key) :=
        List.countP_mono_left fun link _ named => beq_iff_eq.mpr (linkKey_of_isLayerOf named)
    _ = (links.map (linkKey lib)).count { target with number := layer }.key := by
        rw [List.count, List.countP_map]
        rfl
    _ ≤ 1 := List.nodup_iff_count_le_one.mp distinct _

/-- Every layer that has no link yet gets one of its own name. -/
def Layered (lib : Library) (links : List ThreadPullRequestLink) (target : Identity)
    (layers : List Int) (time : Int) : Prop :=
  ∀ layer ∈ layers, ∀ url ∈ siblingUrl lib target.url layer,
    let sibling := newLink { target with number := layer, url } .stack time
    isLayerOf lib target layer sibling = true ∧
      ∀ link ∈ links, linkKey lib link = linkKey lib sibling →
        isLayerOf lib target layer link = true

theorem addLayers_spec {layers : List Int} (coherent : Coherent lib links dismissed)
    (layered : Layered lib links target layers time)
    (added : addLayers lib target time layers links = some after) :
    Coherent lib after dismissed ∧ links <+: after ∧
      ∀ layer ∈ layers, ∃ link ∈ after, isLayerOf lib target layer link = true := by
  induction layers generalizing links with
  | nil =>
      cases added
      exact ⟨coherent, List.prefix_refl _, fun layer listed => by cases listed⟩
  | cons layer layers ih =>
      rw [addLayers] at added
      split at added
      · rename_i there
        obtain ⟨kept, start, rest⟩ := ih coherent
          (fun layer listed => layered layer (List.mem_cons_of_mem _ listed)) added
        refine ⟨kept, start, fun other listed => ?_⟩
        obtain rfl | listed := List.mem_cons.mp listed
        · obtain ⟨link, there, named⟩ := List.any_eq_true.mp there
          exact ⟨link, start.subset there, named⟩
        · exact rest other listed
      · rename_i missing
        obtain ⟨url, sibling_url, added⟩ := Option.bind_eq_some_iff.mp added
        obtain ⟨named, unambiguous⟩ := layered layer List.mem_cons_self url sibling_url
        have fresh : linkKey lib (newLink { target with number := layer, url } .stack time) ∉
            links.map (linkKey lib) := by
          intro listed
          obtain ⟨link, there, same⟩ := List.mem_map.mp listed
          exact missing (List.any_eq_true.mpr ⟨link, there, unambiguous link there same⟩)
        obtain ⟨kept, start, rest⟩ := ih (coherent.push fresh (fun watched => by cases watched))
          (fun other listed other_url other_sibling => by
            obtain ⟨other_named, other_unambiguous⟩ :=
              layered other (List.mem_cons_of_mem _ listed) other_url other_sibling
            refine ⟨other_named, fun link there same => ?_⟩
            obtain there | single := List.mem_append.mp there
            · exact other_unambiguous link there same
            · obtain rfl := List.mem_singleton.mp single
              rw [linkKey_of_isLayerOf named, linkKey_of_isLayerOf other_named] at same
              exact number_eq_of_key same ▸ named) added
        refine ⟨kept, (List.prefix_append _ _).trans start, fun other listed => ?_⟩
        obtain rfl | listed := List.mem_cons.mp listed
        · exact ⟨_, start.subset (by simp), named⟩
        · exact rest other listed

/-- What `Sync` records in the link of its target. -/
def recorded (snapshot : ThreadPullRequestSnapshot) (stack : Option ThreadPullRequestStack)
    (preserveStack : Bool) (link : ThreadPullRequestLink) : ThreadPullRequestLink :=
  { link with
    snapshot := some snapshot
    stack := if preserveStack then link.stack else stack }

/-- A change to one element that a function does not see. -/
theorem map_modify_of_eq {α β : Type} {change : α → α} {f : α → β}
    (same : ∀ a, f (change a) = f a) (as : List α) (i : Nat) :
    (as.modify i change).map f = as.map f := by
  refine List.ext_getElem? fun j => ?_
  rw [List.getElem?_map, List.getElem?_modify]
  split
  · simp [Function.comp_def, same]
  · simp

/-- `Sync` takes no link away, and every layer has one link after it. -/
theorem Coherent.planSync {snapshot : ThreadPullRequestSnapshot}
    {stack : Option ThreadPullRequestStack} {preserveStack : Bool}
    (coherent : Coherent lib links dismissed)
    (linked : (stack.map fun stack => stack.layers).getD [] ≠ [] →
      target.key ∈ links.map (linkKey lib))
    (layered : Layered lib links target ((stack.map fun stack => stack.layers).getD []) time)
    (planned : planSync lib links target snapshot stack preserveStack time = some after) :
    Coherent lib after dismissed ∧ links.map (linkKey lib) <+: after.map (linkKey lib) ∧
      ∀ layer ∈ (stack.map fun stack => stack.layers).getD [],
        after.countP (isLayerOf lib target layer) = 1 := by
  unfold PullRequests.planSync at planned
  cases index : indexOf lib links target with
  | none =>
      rw [index] at planned
      cases planned
      refine ⟨coherent, List.prefix_refl _, fun layer listed => ?_⟩
      exact absurd (linked (List.ne_nil_of_mem listed)) (indexOf_eq_none_iff.mp index)
  | some i =>
      rw [index] at planned
      obtain ⟨added, layers_added, after_eq⟩ := Option.map_eq_some_iff.mp planned
      change added.modify i (recorded snapshot stack preserveStack) = after at after_eq
      subst after_eq
      obtain ⟨kept, start, present⟩ := addLayers_spec coherent layered layers_added
      obtain ⟨found, here, -⟩ := indexOf_spec index
      have here : added[i]? = some found := by
        obtain ⟨more, rfl⟩ := start
        rw [List.getElem?_append_left (List.getElem?_eq_some_iff.mp here).1]
        exact here
      have kept : Coherent lib (added.modify i (recorded snapshot stack preserveStack)) dismissed :=
        kept.modify here rfl (kept.watched found (List.mem_of_getElem? here)) (fun hidden => hidden)
      refine ⟨kept, ?_, fun layer listed => countP_isLayerOf kept.distinct ?_⟩
      · have same : ∀ link,
            linkKey lib (recorded snapshot stack preserveStack link) = linkKey lib link :=
          fun _ => rfl
        rw [map_modify_of_eq same]
        exact start.map _
      · have same : ∀ link, isLayerOf lib target layer (recorded snapshot stack preserveStack link) =
            isLayerOf lib target layer link := fun _ => rfl
        obtain ⟨link, there, named⟩ := present layer listed
        have there := List.mem_map_of_mem (f := isLayerOf lib target layer) there
        rw [named, ← map_modify_of_eq same added i] at there
        obtain ⟨link, there, named⟩ := List.mem_map.mp there
        exact ⟨link, there, named⟩

/-! ## The old field -/

/-- The URL of the old field names the pull request of its link. -/
def FieldNamed (lib : Library) (legacy : ThreadLinkedPullRequest) : Prop :=
  (parseUrl lib legacy.url).map Identity.key = some (legacyIdentity lib legacy).key

/-- The link of the old field can be seen. -/
def FieldSeen (lib : Library) (links : List ThreadPullRequestLink)
    (legacy : ThreadLinkedPullRequest) : Prop :=
  ∃ link ∈ links, link.visible = true ∧ linkKey lib link = (legacyIdentity lib legacy).key

/-- An operation keeps the old field exactly if its link can be seen. -/
theorem linkedPullRequest_withLinks (links : List ThreadPullRequestLink)
    {legacy : ThreadLinkedPullRequest} (there : thread.linkedPullRequest = some legacy)
    (named : FieldNamed lib legacy) :
    (FieldSeen lib links legacy ∧
      (withLinks lib thread links).linkedPullRequest = some legacy) ∨
    (¬ FieldSeen lib links legacy ∧ (withLinks lib thread links).linkedPullRequest = none) := by
  have seen : (links.any fun link => link.visible &&
      decide (some (linkKey lib link) = (parseUrl lib legacy.url).map Identity.key)) = true ↔
        FieldSeen lib links legacy := by
    rw [named]
    simp only [List.any_eq_true, Bool.and_eq_true, decide_eq_true_eq, Option.some.injEq, FieldSeen]
  simp only [withLinks, clearLegacy, there]
  split
  · rename_i found
    exact Or.inl ⟨seen.mp found, there⟩
  · rename_i missing
    exact Or.inr ⟨fun found => missing (seen.mpr found), rfl⟩

theorem linkedPullRequest_withLinks_of_none (there : thread.linkedPullRequest = none) :
    (withLinks lib thread links).linkedPullRequest = none := by
  simp [withLinks, clearLegacy, there]

/-- The old field and its link are written together. -/
theorem Coherent.metadata {linked : Option ThreadLinkedPullRequest}
    (coherent : Coherent lib (linksOf lib thread) dismissed)
    (seen : ∀ legacy, thread.linkedPullRequest = some legacy →
      FieldSeen lib (linksOf lib thread) legacy)
    (stored : ∀ legacy ∈ linked,
      linkKey lib (newLink (legacyIdentity lib legacy) .manual time) =
        (legacyIdentity lib legacy).key) :
    Coherent lib (linksOf lib (updateMetadata lib thread linked time))
        ((linked.map (legacyIdentity lib)).elim dismissed (restored · dismissed)) ∧
      (∀ legacy, linked = some legacy →
        FieldSeen lib (linksOf lib (updateMetadata lib thread linked time)) legacy) ∧
      (linked = none → ∀ legacy, thread.linkedPullRequest = some legacy →
        ¬ FieldSeen lib (linksOf lib (updateMetadata lib thread linked time)) legacy) := by
  have previous : ∀ legacy, thread.linkedPullRequest = some legacy →
      (legacyIdentity lib legacy).key ∉ dismissed := by
    intro legacy there listed
    obtain ⟨link, link_there, visible, key⟩ := seen legacy there
    rw [coherent.hidden listed link_there key] at visible
    cases visible
  cases linked with
  | none =>
      have after : linksOf lib (updateMetadata lib thread none time) =
          (linksOf lib thread).filter fun link =>
            (thread.linkedPullRequest.map (legacyIdentity lib)).all fun id =>
              decide (id.key ≠ linkKey lib link) := by
        simp [updateMetadata, linksOf]
      rw [after]
      refine ⟨coherent.sublist List.filter_sublist (List.Subset.refl _) ?_,
        (fun _ there => by cases there), ?_⟩
      · intro link listed there
        refine List.mem_filter.mpr ⟨listed, ?_⟩
        cases field : thread.linkedPullRequest with
        | none => rfl
        | some legacy =>
            refine decide_eq_true fun same => previous legacy field ?_
            rw [same]
            exact there
      · rintro - legacy there ⟨link, listed, -, key⟩
        have kept := (List.mem_filter.mp listed).2
        simp [there, key] at kept
  | some legacy =>
      have key := stored legacy rfl
      obtain ⟨watch, after⟩ : ∃ watch, linksOf lib (updateMetadata lib thread (some legacy) time) =
          ((linksOf lib thread).filter fun link =>
            (thread.linkedPullRequest.map (legacyIdentity lib)).all
                (fun id => decide (id.key ≠ linkKey lib link)) &&
              decide ((legacyIdentity lib legacy).key ≠ linkKey lib link)) ++
            [{ newLink (legacyIdentity lib legacy) .manual time with watch }] :=
        ⟨_, rfl⟩
      have stored_key : linkKey lib
          { newLink (legacyIdentity lib legacy) .manual time with watch } =
            (legacyIdentity lib legacy).key := key
      rw [after]
      refine ⟨Coherent.push (coherent.sublist List.filter_sublist restored_subset ?_) ?_
        (fun _ => rfl), ?_, fun none => by cases none⟩
      · intro link listed there
        obtain ⟨there, apart⟩ := mem_restored.mp there
        refine List.mem_filter.mpr ⟨listed, Bool.and_eq_true_iff.mpr
          ⟨?_, decide_eq_true apart.symm⟩⟩
        cases field : thread.linkedPullRequest with
        | none => rfl
        | some legacy =>
            refine decide_eq_true fun same => previous legacy field ?_
            rw [same]
            exact there
      · rw [stored_key]
        intro listed
        obtain ⟨link, there, same⟩ := List.mem_map.mp listed
        have kept := (List.mem_filter.mp there).2
        simp [same] at kept
      · rintro other ⟨⟩
        exact ⟨_, by simp, rfl, stored_key⟩

end Zeron.PullRequests
