import Mathlib.Data.List.Nodup
import Mathlib.Order.MinMax

/-!
# Following pages

Each page says where the next one starts.  Where every page is the start of what is left, and
less is left after it, following to the end gives all that was left.
-/

namespace Zeron.Data.Paging

universe u v

variable {α : Type u} {σ : Type v} (page : σ → List α × Option σ)

/-- So many pages at most, and where to go on. -/
def follow : Nat → σ → List (List α) × Option σ
  | 0, start => ([], some start)
  | count + 1, start =>
      match page start with
      | (items, none) => ([items], none)
      | (items, some next) =>
          let later := follow count next
          (items :: later.1, later.2)

/-- Pages that start what is left, with less left after each. -/
structure Covers (rest : σ → List α) (size : σ → Nat) (allowed : σ → Prop) : Prop where
  starts : ∀ start, allowed start →
    rest start = (page start).1 ++ ((page start).2.map rest).getD []
  next : ∀ start next, allowed start → (page start).2 = some next → allowed next
  smaller : ∀ start next, allowed start → (page start).2 = some next → size next < size start

variable {page} {rest : σ → List α} {size : σ → Nat} {allowed : σ → Prop}

/-- The pages end, and are together what was left. -/
theorem Covers.follow (covers : Covers page rest size allowed) {start : σ}
    (may : allowed start) {count : Nat} (enough : size start < count) :
    (Paging.follow page count start).2 = none ∧
      (Paging.follow page count start).1.flatten = rest start := by
  induction count generalizing start with
  | zero => exact absurd enough (Nat.not_lt_zero _)
  | succ count ih =>
      have whole := covers.starts start may
      rw [Paging.follow]
      rcases answered : page start with ⟨items, next⟩
      rw [answered] at whole
      cases next with
      | none =>
          refine ⟨rfl, ?_⟩
          simpa using whole.symm
      | some next =>
          have goes_on : (page start).2 = some next := by rw [answered]
          have less := covers.smaller start next may goes_on
          rcases ih (covers.next start next may goes_on) (by omega) with ⟨ended, later⟩
          refine ⟨ended, ?_⟩
          rw [List.flatten_cons, later, whole]
          rfl

/-- What holds of every page that starts at an allowed place holds of every page. -/
theorem Covers.forall_follow (covers : Covers page rest size allowed) {property : List α → Prop}
    (holds : ∀ start, allowed start → property (page start).1) {start : σ} (may : allowed start)
    (count : Nat) : ∀ items ∈ (Paging.follow page count start).1, property items := by
  induction count generalizing start with
  | zero =>
      intro items listed
      cases listed
  | succ count ih =>
      have here := holds start may
      rw [Paging.follow]
      rcases answered : page start with ⟨items, next⟩
      rw [answered] at here
      cases next with
      | none =>
          intro other listed
          rw [List.mem_singleton] at listed
          exact listed ▸ here
      | some next =>
          have goes_on : (page start).2 = some next := by rw [answered]
          intro other listed
          rcases List.mem_cons.mp listed with rfl | listed
          · exact here
          · exact ih (covers.next start next may goes_on) other listed

/-- In a list that is sorted by its keys, what comes after the last one taken is what was not
taken. -/
theorem filter_lt_eq_drop {κ : Type*} [LinearOrder κ] {key : α → κ} {list : List α} {count : Nat}
    {last : α} (sorted : list.Pairwise fun first second => key first < key second)
    (ends : (list.take count).getLast? = some last) :
    (list.filter fun item => decide (key last < key item)) = list.drop count := by
  rcases List.getLast?_eq_some_iff.mp ends with ⟨front, taken⟩
  have split : list = front ++ [last] ++ list.drop count := by
    rw [← taken, List.take_append_drop]
  rw [split, List.append_assoc, List.pairwise_append] at sorted
  rcases sorted with ⟨-, sorted, before⟩
  rw [List.singleton_append, List.pairwise_cons] at sorted
  have early : (front ++ [last]).filter (fun item => decide (key last < key item)) = [] := by
    rw [List.filter_eq_nil_iff]
    intro item listed
    rw [decide_eq_true_eq, not_lt]
    rcases List.mem_append.mp listed with listed | listed
    · exact le_of_lt (before item listed last (by simp))
    · rw [List.mem_singleton] at listed
      rw [listed]
  have late : (list.drop count).filter (fun item => decide (key last < key item)) =
      list.drop count :=
    List.filter_eq_self.mpr fun item listed => decide_eq_true (sorted.1 item listed)
  conv => lhs; rw [split]
  rw [List.filter_append, early, late, List.nil_append]

end Zeron.Data.Paging
