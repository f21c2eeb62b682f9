import Mathlib.Data.List.Nodup

/-!
# Bounded walks

A graph of nodes with lists of edges is walked depth first to a bounded depth, and no node is
expanded twice.  The walk lists every edge it follows after what lies behind the edge.  It
lists all that the unfolding of the graph into a tree lists exactly if no node is listed twice.
-/

namespace Zeron.Data

universe u v

variable {ν : Type u} {ε : Type v}

/-- The edges of a list, each after what the walk finds behind it. -/
def scan (target : ε → ν) (walk : ν → List ν → List ν × List ε) :
    List ε → List ν → List ν × List ε
  | [], seen => (seen, [])
  | edge :: edges, seen =>
      let below := walk (target edge) seen
      let later := scan target walk edges below.1
      (later.1, below.2 ++ edge :: later.2)

section

variable (out : ν → List ε) (target : ε → ν)

/-- The walk from a node, with the nodes it has expanded and the edges it has followed. -/
def walk [DecidableEq ν] : Nat → ν → List ν → List ν × List ε
  | 0, _, seen => (seen, [])
  | depth + 1, node, seen =>
      if node ∈ seen then (seen, [])
      else scan target (walk depth) (out node) (node :: seen)

/-- The unfolding: every edge of every chain, after what lies behind it. -/
def unfolding : Nat → ν → List ε
  | 0, _ => []
  | depth + 1, node =>
      (out node).flatMap fun edge => unfolding depth (target edge) ++ [edge]

/-- A chain of so many edges leads from the one node to the other. -/
inductive Chain : Nat → ν → ν → Prop where
  | here (node : ν) : Chain 0 node node
  | step {length : Nat} {node last : ν} {edge : ε} : edge ∈ out node →
      Chain length (target edge) last → Chain (length + 1) node last

end

variable {out : ν → List ε} {target : ε → ν}

/-! ## What the unfolding lists -/

variable {depth : Nat} {node : ν}

theorem mem_unfolding {edge : ε} :
    edge ∈ unfolding out target (depth + 1) node ↔
      ∃ first ∈ out node, edge ∈ unfolding out target depth (target first) ∨ edge = first := by
  rw [unfolding, List.mem_flatMap]
  simp only [List.mem_append, List.mem_singleton]

theorem sublist_unfolding {first : ε} (leads : first ∈ out node) :
    (unfolding out target depth (target first) ++ [first]).Sublist
      (unfolding out target (depth + 1) node) :=
  List.sublist_flatten_of_mem (List.mem_map.mpr ⟨first, leads, rfl⟩)

/-- The last edge of every chain within the depth is listed. -/
theorem Chain.listed {length : Nat} {last : ν} (chain : Chain out target (length + 1) node last) :
    ∀ {depth : Nat}, length < depth →
      ∃ edge ∈ unfolding out target depth node, target edge = last := by
  induction length generalizing node with
  | zero =>
      intro depth within
      cases depth with
      | zero => cases within
      | succ depth =>
          cases chain with
          | step leads rest =>
              rename_i edge
              cases rest
              exact ⟨edge, mem_unfolding.mpr ⟨edge, leads, .inr rfl⟩, rfl⟩
  | succ length ih =>
      intro depth within
      cases depth with
      | zero => cases within
      | succ depth =>
          cases chain with
          | step leads rest =>
              rename_i first
              rcases ih rest (Nat.lt_of_succ_lt_succ within) with ⟨edge, listed, last_eq⟩
              exact ⟨edge, mem_unfolding.mpr ⟨first, leads, .inl listed⟩, last_eq⟩

/-- Every edge that is listed ends a chain within the depth. -/
theorem chain_of_mem {edge : ε} (listed : edge ∈ unfolding out target depth node) :
    ∃ length < depth, Chain out target (length + 1) node (target edge) := by
  induction depth generalizing node with
  | zero => cases listed
  | succ depth ih =>
      rcases mem_unfolding.mp listed with ⟨first, leads, below | rfl⟩
      · rcases ih below with ⟨length, within, chain⟩
        exact ⟨length + 1, Nat.succ_lt_succ within, .step leads chain⟩
      · exact ⟨0, Nat.zero_lt_succ depth, .step leads (.here _)⟩

/-- What lies behind a node is listed before the edge that leads to it. -/
theorem Chain.listed_before {first second : Nat} {middle last : ν}
    (chain : Chain out target (first + 1) node middle)
    (further : Chain out target (second + 1) middle last) :
    ∀ {depth : Nat}, first + second + 1 < depth →
      ∃ lower upper, target lower = last ∧ target upper = middle ∧
        [lower, upper].Sublist (unfolding out target depth node) := by
  induction first generalizing node with
  | zero =>
      intro depth within
      cases depth with
      | zero => cases within
      | succ depth =>
          cases chain with
          | step leads rest =>
              rename_i upper
              cases rest
              rcases further.listed (show second < depth by omega) with ⟨lower, listed, last_eq⟩
              refine ⟨lower, upper, last_eq, rfl, List.Sublist.trans ?_ (sublist_unfolding leads)⟩
              exact (List.singleton_sublist.mpr listed).append (List.Sublist.refl [upper])
  | succ first ih =>
      intro depth within
      cases depth with
      | zero => cases within
      | succ depth =>
          cases chain with
          | step leads rest =>
              rcases ih rest (show first + second + 1 < depth by omega) with
                ⟨lower, upper, lower_eq, upper_eq, listed⟩
              refine ⟨lower, upper, lower_eq, upper_eq, ?_⟩
              exact (listed.trans (List.sublist_append_left _ _)).trans (sublist_unfolding leads)

/-! ## The walk and the unfolding -/

/-- The walk lists edges of the unfolding, in its order. -/
theorem walk_sublist [DecidableEq ν] (depth : Nat) (node : ν) (seen : List ν) :
    (walk out target depth node seen).2.Sublist (unfolding out target depth node) := by
  induction depth generalizing node seen with
  | zero => exact List.Sublist.refl []
  | succ depth ih =>
      have edges_sublist : ∀ (edges : List ε) (seen : List ν),
          (scan target (walk out target depth) edges seen).2.Sublist
            (edges.flatMap fun edge => unfolding out target depth (target edge) ++ [edge]) := by
        intro edges
        induction edges with
        | nil =>
            intro seen
            exact List.Sublist.refl []
        | cons edge edges later =>
            intro seen
            rw [List.flatMap_cons, List.append_assoc]
            exact (ih (target edge) seen).append ((later _).cons_cons edge)
      rw [walk]
      split
      · exact List.nil_sublist _
      · exact edges_sublist _ _

section

variable {live : ν → Bool}

/-- The nodes to which edges lead, as far as they are live. -/
def arrivals (live : ν → Bool) (target : ε → ν) (edges : List ε) : List ν :=
  (edges.map target).filter live

/-- The nodes that a walk from the root comes to, with the root for the last one. -/
def comesTo (live : ν → Bool) (target : ε → ν) (edges : List ε) (root : ν) : List ν :=
  arrivals live target edges ++ [root].filter live

theorem arrivals_append_cons (first later : List ε) (edge : ε) :
    arrivals live target (first ++ edge :: later) =
      comesTo live target first (target edge) ++ arrivals live target later := by
  simp only [arrivals, comesTo, List.map_append, List.map_cons, List.filter_append,
    List.append_assoc]
  rw [← List.singleton_append, List.filter_append]

theorem arrivals_sublist {first second : List ε} (sublist : first.Sublist second) :
    (arrivals live target first).Sublist (arrivals live target second) :=
  (sublist.map target).filter live

variable [DecidableEq ν]

/-- Everything that has been expanded, as far as it is live, is known. -/
def Known (live : ν → Bool) (seen known : List ν) : Prop :=
  ∀ node ∈ seen, live node = true → node ∈ known

/-- What holds of the walks of one depth holds of the edges of a list. -/
theorem scan_eq_unfolding
    (below : ∀ {node seen known}, Known live seen known →
      (known ++ comesTo live target (walk out target depth node seen).2 node).Nodup →
        (walk out target depth node seen).2 = unfolding out target depth node ∧
          Known live (walk out target depth node seen).1
            (known ++ comesTo live target (walk out target depth node seen).2 node))
    {edges : List ε} {seen known : List ν} (reached : Known live seen known)
    (distinct : (known ++ arrivals live target
      (scan target (walk out target depth) edges seen).2).Nodup) :
    (scan target (walk out target depth) edges seen).2 =
        (edges.flatMap fun edge => unfolding out target depth (target edge) ++ [edge]) ∧
      Known live (scan target (walk out target depth) edges seen).1
        (known ++ arrivals live target (scan target (walk out target depth) edges seen).2) := by
  induction edges generalizing seen known with
  | nil =>
      rw [arrivals, scan, List.map_nil, List.filter_nil, List.append_nil]
      exact ⟨rfl, reached⟩
  | cons edge edges ih =>
      rw [scan, arrivals_append_cons, ← List.append_assoc] at distinct ⊢
      rcases below reached (List.Nodup.of_append_left distinct) with ⟨same, first⟩
      rcases ih first distinct with ⟨same_later, later⟩
      constructor
      · rw [List.flatMap_cons, List.append_assoc, List.singleton_append, ← same_later, ← same]
      · exact later

section

variable (dead : ∀ node, live node = false → out node = [])
include dead

/-- A walk that comes to different nodes, none of them known before, leaves nothing out. -/
theorem walk_eq_unfolding {seen known : List ν} (reached : Known live seen known)
    (distinct : (known ++ comesTo live target (walk out target depth node seen).2 node).Nodup) :
    (walk out target depth node seen).2 = unfolding out target depth node ∧
      Known live (walk out target depth node seen).1
        (known ++ comesTo live target (walk out target depth node seen).2 node) := by
  induction depth generalizing node seen known with
  | zero => exact ⟨rfl, fun other expanded alive => List.mem_append_left _ (reached other expanded alive)⟩
  | succ depth ih =>
      rw [walk] at distinct ⊢
      by_cases expanded : node ∈ seen
      · rw [if_pos expanded] at distinct ⊢
        refine ⟨?_, fun other expanded alive =>
          List.mem_append_left _ (reached other expanded alive)⟩
        cases alive : live node with
        | true =>
            -- A second arrival would be listed twice.
            have twice := List.disjoint_of_nodup_append distinct (reached node expanded alive)
            exact absurd (by simp [comesTo, alive]) twice
        | false => rw [unfolding, dead node alive, List.flatMap_nil]
      · rw [if_neg expanded] at distinct ⊢
        have moved : ∀ edges : List ε,
            (known ++ comesTo live target edges node).Perm
              ((known ++ [node].filter live) ++ arrivals live target edges) := by
          intro edges
          rw [List.append_assoc]
          exact List.perm_append_comm.append_left known
        have entered : Known live (node :: seen) (known ++ [node].filter live) := by
          intro other listed alive
          rcases List.mem_cons.mp listed with rfl | before
          · exact List.mem_append_right _ (List.mem_filter.mpr ⟨List.mem_singleton_self _, alive⟩)
          · exact List.mem_append_left _ (reached other before alive)
        rcases scan_eq_unfolding ih entered ((moved _).nodup_iff.mp distinct) with ⟨same, after⟩
        exact ⟨same, fun other expanded alive =>
          (moved _).mem_iff.mpr (after other expanded alive)⟩

/-- The walk comes to different nodes exactly if the unfolding does. -/
theorem nodup_walk_iff (depth : Nat) (root : ν) :
    (comesTo live target (walk out target depth root []).2 root).Nodup ↔
      (comesTo live target (unfolding out target depth root) root).Nodup := by
  constructor
  · intro distinct
    have same : (walk out target depth root []).2 = unfolding out target depth root :=
      (walk_eq_unfolding dead (fun _ listed => by cases listed)
        (show ([] ++ comesTo live target _ root).Nodup from distinct)).1
    rw [← same]
    exact distinct
  · intro distinct
    exact ((arrivals_sublist (walk_sublist depth root [])).append_right _).nodup distinct

/-- The walk lists what the unfolding lists, if no node is listed twice. -/
theorem walk_of_nodup {root : ν}
    (distinct : (comesTo live target (unfolding out target depth root) root).Nodup) :
    (walk out target depth root []).2 = unfolding out target depth root :=
  (walk_eq_unfolding dead (fun _ listed => by cases listed)
    (show ([] ++ comesTo live target _ root).Nodup from
      (nodup_walk_iff dead depth root).mpr distinct)).1

end

end

end Zeron.Data
