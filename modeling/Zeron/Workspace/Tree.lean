import Mathlib.Data.Rat.Defs

/-!
# Split trees

The tree of a workspace's views, and of a tab's panes: each inner node is a
split of two parts, each leaf the id of what is shown there.
-/

namespace Zeron.Workspace

inductive LayoutError where
  | invalid (message : String)
  | limit (message : String)
  | notFound (what : String)
  | last (what : String)
  | revisionConflict (expected actual : Nat)
  | exhausted
  /-- An `unwrap` of nothing, or an index that is not there. -/
  | panicked
  deriving DecidableEq

/-- An `f64`, as it is compared. -/
inductive F64 where
  | nan
  | infinite (negative : Bool)
  | finite (value : Rat)
  deriving DecidableEq

/-- `is_finite`, and within both bounds. -/
def F64.within (low high : Rat) : F64 → Bool
  | finite value => decide (low ≤ value) && decide (value ≤ high)
  | _ => false

/-- `MAX_DEPTH`. -/
def maxDepth : Nat := 16

/-- `MIN_RATIO`: the float nearest to 0.1. -/
def minRatio : Rat := 3602879701896397 / 36028797018963968

/-- `MAX_RATIO`: the float nearest to 0.9. -/
def maxRatio : Rat := 8106479329266893 / 9007199254740992

def validateRatio (ratio : F64) : Except LayoutError Unit :=
  if ratio.within minRatio maxRatio then .ok ()
  else .error (.invalid "split ratio must be finite and within 0.1..=0.9")

/-- A horizontal split places `first` on the left, a vertical one above `second`. -/
inductive SplitNode (α : Type) where
  | split (horizontal : Bool) (ratio : F64) (first second : SplitNode α)
  | leaf (content : α)
  deriving DecidableEq

inductive Direction where
  | left
  | right
  | up
  | down

inductive Branch where
  | first
  | second

namespace Direction

def horizontal : Direction → Bool
  | left | right => true
  | up | down => false

def before : Direction → Bool
  | left | up => true
  | right | down => false

def opposite : Direction → Direction
  | left => right
  | right => left
  | up => down
  | down => up

/-- A split with `added` on this side of `old`. -/
def split {α : Type} (direction : Direction) (ratio : F64) (added old : SplitNode α) :
    SplitNode α :=
  if direction.before then .split direction.horizontal ratio added old
  else .split direction.horizontal ratio old added

end Direction

namespace SplitNode

variable {α : Type}

def firstLeaf : SplitNode α → α
  | leaf content => content
  | split _ _ first _ => first.firstLeaf

/-- The contents, first to last. -/
def leaves : SplitNode α → List α
  | leaf content => [content]
  | split _ _ first second => first.leaves ++ second.leaves

/-- `collect`: the leaves, if the depth and the ratios are in bounds. -/
def collect : Nat → SplitNode α → Except LayoutError (List α)
  | depth, leaf content => if maxDepth < depth then .error (.limit "tree depth") else .ok [content]
  | depth, split _ ratio first second =>
      if maxDepth < depth then .error (.limit "tree depth")
      else do
        validateRatio ratio
        let before ← first.collect (depth + 1)
        let after ← second.collect (depth + 1)
        return before ++ after

/-- A write through `ratio_mut`. -/
def setRatio (ratio : F64) : List Branch → SplitNode α → Except LayoutError (SplitNode α)
  | [], split horizontal _ first second => .ok (.split horizontal ratio first second)
  | .first :: rest, split horizontal old first second => do
      return .split horizontal old (← first.setRatio ratio rest) second
  | .second :: rest, split horizontal old first second => do
      return .split horizontal old first (← second.setRatio ratio rest)
  | _, leaf _ => .error (.invalid "tree path does not identify a split")

variable [DecidableEq α]

/-- `replace_with_split`: a subtree beside the first leaf that is the target. -/
def replaceWithSplit (node : SplitNode α) (target : α) (added : SplitNode α)
    (direction : Direction) : SplitNode α × Bool :=
  match node with
  | leaf content =>
      if content = target then (direction.split (.finite (1 / 2)) added (.leaf content), true)
      else (.leaf content, false)
  | split horizontal ratio first second =>
      match first.replaceWithSplit target added direction with
      | (first, true) => (.split horizontal ratio first second, true)
      | (first, false) =>
          let (second, done) := second.replaceWithSplit target added direction
          (.split horizontal ratio first second, done)

/-- `insert`: a new leaf beside the target. -/
def insert (node : SplitNode α) (target added : α) (direction : Direction) :
    SplitNode α × Bool :=
  node.replaceWithSplit target (.leaf added) direction

/-- `is_sibling_in_direction`: looks at the root only. -/
def isSiblingInDirection (source target : α) (direction : Direction) : SplitNode α → Bool
  | split horizontal _ (leaf first) (leaf second) =>
      if first = source ∧ second = target then
        direction.before && horizontal == direction.horizontal
      else if first = target ∧ second = source then
        !direction.before && horizontal == direction.horizontal
      else false
  | _ => false

/-- `remove`: the sibling of a removed leaf takes the place of the split. -/
def remove (target : α) : SplitNode α → Option (SplitNode α)
  | leaf content => if content = target then none else some (.leaf content)
  | split horizontal ratio first second =>
      match first.remove target, second.remove target with
      | some first, some second => some (.split horizontal ratio first second)
      | first, second => first.or second

/-- `swap_leaves`, `swap_leaf`. -/
def swapLeaves (a b : α) : SplitNode α → SplitNode α
  | leaf content => .leaf (if content = a then b else if content = b then a else content)
  | split horizontal ratio first second =>
      .split horizontal ratio (first.swapLeaves a b) (second.swapLeaves a b)

end SplitNode

/-! ## Parts of a tree -/

namespace SplitNode

variable {α : Type}

/-- `part` stands in the tree as it is. -/
inductive Within (part : SplitNode α) : SplitNode α → Prop where
  | here : Within part part
  | first {node : SplitNode α} (horizontal : Bool) (ratio : F64) (second : SplitNode α) :
      Within part node → Within part (.split horizontal ratio node second)
  | second {node : SplitNode α} (horizontal : Bool) (ratio : F64) (first : SplitNode α) :
      Within part node → Within part (.split horizontal ratio first node)

variable {node : SplitNode α}

theorem Within.mem_leaves {part : SplitNode α} (within : Within part node) {content : α}
    (there : content ∈ part.leaves) : content ∈ node.leaves := by
  induction within with
  | here => exact there
  | first _ _ _ _ ih => exact List.mem_append_left _ ih
  | second _ _ _ _ ih => exact List.mem_append_right _ ih

theorem leaves_of_collect {depth : Nat} {contents : List α}
    (collected : node.collect depth = .ok contents) : contents = node.leaves := by
  induction node generalizing depth contents with
  | leaf content =>
      unfold collect at collected
      split at collected
      · cases collected
      · cases collected
        rfl
  | split horizontal ratio first second first_ih second_ih =>
      unfold collect at collected
      split at collected
      · cases collected
      · cases valid : validateRatio ratio with
        | error error => simp [valid, bind, Except.bind] at collected
        | ok _ =>
            cases before : first.collect (depth + 1) with
            | error error => simp [valid, before, bind, Except.bind] at collected
            | ok firsts =>
                cases after : second.collect (depth + 1) with
                | error error => simp [valid, before, after, bind, Except.bind] at collected
                | ok seconds =>
                    simp only [valid, before, after, bind, Except.bind, pure, Except.pure,
                      Except.ok.injEq] at collected
                    rw [leaves, ← first_ih before, ← second_ih after, collected]

variable [DecidableEq α] {target : α}

theorem replaceWithSplit_done_iff {added : SplitNode α} {direction : Direction} :
    (node.replaceWithSplit target added direction).2 = true ↔ target ∈ node.leaves := by
  induction node with
  | leaf content =>
      rw [replaceWithSplit, leaves, List.mem_singleton, eq_comm (a := target)]
      split <;> simp [*]
  | split horizontal ratio first second first_ih second_ih =>
      rw [leaves, List.mem_append, ← first_ih, ← second_ih, replaceWithSplit]
      rcases first.replaceWithSplit target added direction with ⟨node, done | done⟩ <;> simp

/-- What is put beside a leaf stands there whole. -/
theorem within_replaceWithSplit (added : SplitNode α) (direction : Direction)
    (there : target ∈ node.leaves) :
    Within (direction.split (.finite (1 / 2)) added (.leaf target))
      (node.replaceWithSplit target added direction).1 := by
  induction node with
  | leaf content =>
      obtain rfl := List.mem_singleton.mp there
      rw [replaceWithSplit, if_pos rfl]
      exact Within.here
  | split horizontal ratio first second first_ih second_ih =>
      rw [replaceWithSplit]
      cases found : first.replaceWithSplit target added direction with
      | mk node done =>
          cases done with
          | true =>
              have inside := first_ih (replaceWithSplit_done_iff.mp (by rw [found]))
              rw [found] at inside
              exact inside.first _ _ _
          | false =>
              have elsewhere : target ∉ first.leaves := fun inside => by
                have done : (first.replaceWithSplit target added direction).2 = true :=
                  replaceWithSplit_done_iff.mpr inside
                rw [found] at done
                cases done
              have inside := second_ih ((List.mem_append.mp there).resolve_left elsewhere)
              exact inside.second _ _ _

/-- The other leaves outlive a removal. -/
theorem mem_leaves_remove {other : α} (different : other ≠ target) (there : other ∈ node.leaves) :
    ∃ rest ∈ node.remove target, other ∈ rest.leaves := by
  induction node with
  | leaf content =>
      obtain rfl := List.mem_singleton.mp there
      exact ⟨.leaf other, if_neg different, there⟩
  | split horizontal ratio first second first_ih second_ih =>
      rw [remove]
      rcases List.mem_append.mp there with inside | inside
      · obtain ⟨rest, removed, kept⟩ := first_ih inside
        rw [Option.mem_def.mp removed]
        cases second.remove target with
        | none => exact ⟨rest, rfl, kept⟩
        | some others => exact ⟨_, rfl, List.mem_append_left _ kept⟩
      · obtain ⟨rest, removed, kept⟩ := second_ih inside
        rw [Option.mem_def.mp removed]
        cases first.remove target with
        | none => exact ⟨rest, rfl, kept⟩
        | some others => exact ⟨_, rfl, List.mem_append_right _ kept⟩

/-- The two children of the root, the source on the given side. -/
theorem eq_split_of_isSiblingInDirection {source : α} {direction : Direction}
    (beside : node.isSiblingInDirection source target direction = true) :
    ∃ ratio, node = direction.split ratio (.leaf source) (.leaf target) := by
  unfold isSiblingInDirection at beside
  split at beside
  · rename_i horizontal ratio first second
    refine ⟨ratio, ?_⟩
    split at beside
    · rename_i same
      obtain ⟨rfl, rfl⟩ := same
      simp only [Bool.and_eq_true, beq_iff_eq] at beside
      rw [Direction.split, if_pos beside.1, beside.2]
    · split at beside
      · rename_i same
        obtain ⟨rfl, rfl⟩ := same
        simp only [Bool.and_eq_true, Bool.not_eq_true', beq_iff_eq] at beside
        rw [Direction.split, if_neg (by simp [beside.1]), beside.2]
      · cases beside
  · cases beside

theorem swapLeaves_split {source : α} (direction : Direction) (ratio : F64) :
    (direction.split ratio (.leaf source) (.leaf target)).swapLeaves source target =
      direction.opposite.split ratio (.leaf source) (.leaf target) := by
  have moved : (if target = source then target else source) = source := by
    split
    · assumption
    · rfl
  cases direction <;>
    simp only [Direction.split, Direction.opposite, Direction.before, Direction.horizontal, if_true,
      Bool.false_eq_true, if_false, swapLeaves, moved]

end SplitNode

end Zeron.Workspace
