import Mathlib.Data.List.Nodup
import Mathlib.Data.List.Chain

/-!
# Paths upward

Every node has at most one parent.  Paths are followed upward from several starts, one after
the other, and each ends at a node that has been seen before.
-/

namespace Zeron.Data

universe u v

variable {α : Type u} {κ : Type v}

section

variable (parent : α → Option α) (key : α → κ) [DecidableEq κ]

/-- The loop that follows a path and puts each new node in front, with what has been seen
in the end.  It may run out of fuel. -/
def climb : Nat → Option α → List κ → List α → Option (List κ × List α)
  | 0, _, _, _ => none
  | _ + 1, none, seen, path => some (seen, path)
  | fuel + 1, some node, seen, path =>
      if key node ∈ seen then some (seen, path)
      else climb fuel (parent node) (key node :: seen) (node :: path)

/-- Paths are followed from several starts. -/
def climbAll (fuel : Nat) : List α → List κ → Option (List κ × List (List α))
  | [], seen => some (seen, [])
  | start :: starts, seen =>
      (climb parent key fuel (some start) seen []).bind fun first =>
        (climbAll fuel starts first.1).map fun later => (later.1, first.2 :: later.2)

/-- The nodes that a path visits before it ends. -/
inductive Climbs : List κ → Option α → List α → Prop where
  | stop {seen : List κ} : Climbs seen none []
  | seen {seen : List κ} {node : α} : key node ∈ seen → Climbs seen (some node) []
  | go {seen : List κ} {node : α} {rest : List α} : key node ∉ seen →
      Climbs (key node :: seen) (parent node) rest → Climbs seen (some node) (node :: rest)

end

section

variable {parent : α → Option α} {key : α → κ} [DecidableEq κ]

/-! ## The loop -/

/-- A node that is seen for the first time leaves fewer to be seen. -/
theorem unseen_lt {nodes : List α} {seen : List κ} {node : α} (here : node ∈ nodes)
    (fresh : key node ∉ seen) :
    (nodes.filter fun other => decide (key other ∉ key node :: seen)).length <
      (nodes.filter fun other => decide (key other ∉ seen)).length := by
  have fewer : (nodes.filter fun other => decide (key other ∉ key node :: seen)).Sublist
      (nodes.filter fun other => decide (key other ∉ seen)) := by
    refine List.monotone_filter_right nodes fun other unseen => ?_
    simp only [List.mem_cons, not_or, decide_eq_true_eq] at unseen ⊢
    exact unseen.2
  refine lt_of_le_of_ne fewer.length_le fun same => ?_
  have inside : node ∈ nodes.filter fun other => decide (key other ∉ seen) := by
    simp [here, fresh]
  rw [← fewer.eq_of_length same] at inside
  simp at inside

/-- With fuel for every node that has not been seen, the loop follows the whole path. -/
theorem climb_eq_some {nodes : List α}
    (closed : ∀ node ∈ nodes, ∀ above, parent node = some above → above ∈ nodes) {fuel : Nat}
    {start : Option α} {seen : List κ} (listed : ∀ node, start = some node → node ∈ nodes)
    (enough : (nodes.filter fun node => decide (key node ∉ seen)).length < fuel) (path : List α) :
    ∃ climbed, Climbs parent key seen start climbed ∧
      climb parent key fuel start seen path =
        some ((climbed.map key).reverse ++ seen, climbed.reverse ++ path) := by
  induction fuel generalizing start seen path with
  | zero => exact absurd enough (Nat.not_lt_zero _)
  | succ fuel ih =>
      cases start with
      | none => exact ⟨[], .stop, by simp [climb]⟩
      | some node =>
          by_cases met : key node ∈ seen
          · exact ⟨[], .seen met, by simp [climb, met]⟩
          · have here := listed node rfl
            have fewer := unseen_lt here met
            rcases @ih (parent node) (key node :: seen)
              (fun above up => closed node here above up) (by omega) (node :: path) with
              ⟨rest, climbs, same⟩
            refine ⟨node :: rest, .go met climbs, ?_⟩
            simp [climb, met, same]

/-! ## The nodes of a path -/

omit [DecidableEq κ] in
/-- A path has no node twice, and none that was seen before. -/
theorem Climbs.fresh {seen : List κ} {start : Option α} {climbed : List α}
    (climbs : Climbs parent key seen start climbed) :
    (climbed.map key).Nodup ∧ ∀ node ∈ climbed, key node ∉ seen := by
  induction climbs with
  | stop => simp
  | seen met => simp
  | @go seen node rest fresh climbs ih =>
      rcases ih with ⟨distinct, unseen⟩
      constructor
      · rw [List.map_cons, List.nodup_cons]
        refine ⟨fun listed => ?_, distinct⟩
        rcases List.mem_map.mp listed with ⟨other, there, same⟩
        exact unseen other there (by simp [same])
      · intro other listed
        rcases List.mem_cons.mp listed with rfl | later
        · exact fresh
        · exact fun met => unseen other later (List.mem_cons_of_mem _ met)

section

variable {nodes climbed : List α} {seen : List κ} {start : Option α}

omit [DecidableEq κ] in
/-- A path stays among nodes that hold the parents of theirs. -/
theorem Climbs.listed (climbs : Climbs parent key seen start climbed)
    (closed : ∀ node ∈ nodes, ∀ above, parent node = some above → above ∈ nodes)
    (here : ∀ node, start = some node → node ∈ nodes) : ∀ node ∈ climbed, node ∈ nodes := by
  induction climbs with
  | stop => simp
  | seen met => simp
  | go fresh climbs ih =>
      have first := here _ rfl
      exact List.forall_mem_cons.mpr ⟨first, ih fun above up => closed _ first above up⟩

omit [DecidableEq κ] in
/-- Each node of a path is the parent of the one before. -/
theorem Climbs.isChain (climbs : Climbs parent key seen start climbed) :
    climbed.IsChain (fun node above => parent node = some above) ∧
      ∀ node ∈ climbed.head?, start = some node := by
  induction climbs with
  | stop => simp
  | seen met => simp
  | go fresh climbs ih => exact ⟨ih.1.cons fun above first => ih.2 above first, by simp⟩

end

end

/-! ## Several paths -/

section

variable (parent : α → Option α) (key : α → κ) [DecidableEq κ]

/-- What the paths from some starts have in common. -/
structure Ascents (nodes : List α) (seen : List κ) (final : List κ)
    (paths : List (List α)) : Prop where
  listed : ∀ node ∈ paths.flatten, node ∈ nodes
  distinct : (paths.flatten.map key).Nodup
  fresh : ∀ node ∈ paths.flatten, key node ∉ seen
  seen_iff : ∀ k, k ∈ final ↔ k ∈ seen ∨ k ∈ paths.flatten.map key
  /-- Each node stands below its children. -/
  upward : ∀ path ∈ paths, path.IsChain fun above node => parent node = some above

variable {parent key} {nodes starts : List α} {seen : List κ}

/-- The paths from several starts, followed one after the other. -/
theorem climbAll_eq_some
    (closed : ∀ node ∈ nodes, ∀ above, parent node = some above → above ∈ nodes) {fuel : Nat}
    (enough : nodes.length < fuel) (known : ∀ start ∈ starts, start ∈ nodes) :
    ∃ final paths, climbAll parent key fuel starts seen = some (final, paths) ∧
      Ascents parent key nodes seen final paths := by
  induction starts generalizing seen with
  | nil =>
      refine ⟨seen, [], rfl, ?_⟩
      constructor <;> simp
  | cons start starts ih =>
      have few : (nodes.filter fun node => decide (key node ∉ seen)).length < fuel :=
        lt_of_le_of_lt (List.length_filter_le _ _) enough
      have listed : ∀ node, some start = some node → node ∈ nodes := by
        simpa using known start List.mem_cons_self
      rcases climb_eq_some closed listed few [] with ⟨climbed, climbs, first⟩
      rcases @ih ((climbed.map key).reverse ++ seen)
        fun other listed => known other (List.mem_cons_of_mem _ listed) with
        ⟨final, paths, later, ascents⟩
      rcases climbs.fresh with ⟨distinct, fresh⟩
      refine ⟨final, climbed.reverse :: paths, ?_, ?_⟩
      · simp [climbAll, first, later]
      · constructor
        · intro node listed'
          rw [List.flatten_cons, List.mem_append, List.mem_reverse] at listed'
          rcases listed' with inside | further
          · exact climbs.listed closed listed node inside
          · exact ascents.listed node further
        · rw [List.flatten_cons, List.map_append, List.nodup_append]
          refine ⟨by simpa using distinct, ascents.distinct, ?_⟩
          rintro k inside _ further rfl
          rcases List.mem_map.mp further with ⟨node, listed, rfl⟩
          apply ascents.fresh node listed
          rw [List.map_reverse] at inside
          exact List.mem_append_left _ inside
        · intro node listed
          rw [List.flatten_cons, List.mem_append, List.mem_reverse] at listed
          rcases listed with inside | further
          · exact fresh node inside
          · exact fun met => ascents.fresh node further (List.mem_append_right _ met)
        · intro k
          simp only [ascents.seen_iff, List.flatten_cons, List.map_append, List.mem_append,
            List.map_reverse]
          tauto
        · exact List.forall_mem_cons.mpr
            ⟨List.isChain_reverse.mpr climbs.isChain.1, ascents.upward⟩

end

end Zeron.Data
