import Mathlib.Data.List.Induction

/-!
# Grouping the items of a list

Every item of a list has a key and a list of parts.  An item that asks for a key gives its parts
to the latest group under this key, if there is one that may be asked for; every other item
starts a group.  What is asked for, and which groups may be asked for, is a rule; two rules are
compared on one list.
-/

namespace Zeron.Data

universe u v w

/-- The last position of a list whose item passes the test. -/
def latest {α : Type u} (test : α → Bool) : List α → Option Nat
  | [] => none
  | a :: l =>
      match latest test l with
      | some index => some (index + 1)
      | none => if test a then some 0 else none

section Latest

variable {α : Type u} {test finer : α → Bool} {l : List α} {index : Nat}

theorem latest_append_singleton (l : List α) (a : α) :
    latest test (l ++ [a]) = if test a then some l.length else latest test l := by
  induction l with
  | nil => rfl
  | cons b l ih =>
      simp only [List.cons_append, latest, ih]
      by_cases passes : test a <;> simp [passes]

theorem latest_modify (l : List α) (index : Nat) {f : α → α}
    (same : ∀ a, test (f a) = test a) : latest test (l.modify index f) = latest test l := by
  induction l generalizing index with
  | nil => simp
  | cons b l ih =>
      cases index with
      | zero => simp [latest, same]
      | succ index => simp [latest, ih]

theorem latest_eq_none_iff : latest test l = none ↔ ∀ a ∈ l, test a = false := by
  induction l with
  | nil => simp [latest]
  | cons b l ih =>
      simp only [latest, List.forall_mem_cons]
      cases found : latest test l with
      | none =>
          rw [found] at ih
          simpa using fun _ => ih.mp rfl
      | some index =>
          rw [found] at ih
          simp only [reduceCtorEq, false_iff] at ih ⊢
          exact fun all => ih all.2

/-- The item at the last position passes, and none after it does. -/
theorem exists_of_latest (found : latest test l = some index) :
    ∃ before a after, l = before ++ a :: after ∧ before.length = index ∧ test a ∧
      ∀ b ∈ after, test b = false := by
  induction l generalizing index with
  | nil => cases found
  | cons b l ih =>
      simp only [latest] at found
      cases inside : latest test l with
      | some index =>
          rw [inside] at found
          cases found
          obtain ⟨before, a, after, split, length, passes, others⟩ := ih inside
          exact ⟨b :: before, a, after, by rw [split]; rfl, by simp [length], passes, others⟩
      | none =>
          rw [inside] at found
          by_cases passes : test b
          · rw [if_pos passes] at found
            cases found
            exact ⟨[], b, l, rfl, rfl, passes, latest_eq_none_iff.mp inside⟩
          · rw [if_neg passes] at found
            cases found

theorem latest_eq_some (before : List α) {a : α} {after : List α} (passes : test a)
    (others : ∀ b ∈ after, test b = false) :
    latest test (before ++ a :: after) = some before.length := by
  induction before with
  | nil =>
      rw [List.nil_append, latest, latest_eq_none_iff.mpr others]
      exact if_pos passes
  | cons b before ih => simp [latest, ih]

theorem getElem?_of_latest (found : latest test l = some index) :
    ∃ a, l[index]? = some a ∧ test a := by
  obtain ⟨before, a, after, rfl, rfl, passes, -⟩ := exists_of_latest found
  exact ⟨a, by simp, passes⟩

theorem le_of_latest {place : Nat} {b : α} (found : latest test l = some index)
    (stored : l[place]? = some b) (passes : test b) : place ≤ index := by
  obtain ⟨before, a, after, rfl, rfl, -, others⟩ := exists_of_latest found
  by_contra beyond
  rw [List.append_cons, List.getElem?_append_right (by simp; omega)] at stored
  exact absurd passes (by simp [others b (List.mem_of_getElem? stored)])

theorem getLast?_filter (l : List α) :
    (l.filter test).getLast? = (latest test l).bind fun index => l[index]? := by
  cases found : latest test l with
  | none =>
      rw [List.filter_eq_nil_iff.mpr fun a listed => by simp [latest_eq_none_iff.mp found a listed]]
      rfl
  | some index =>
      obtain ⟨before, a, after, rfl, rfl, passes, others⟩ := exists_of_latest found
      have rest : after.filter test = [] := List.filter_eq_nil_iff.mpr fun b listed => by
        simp [others b listed]
      simp [passes, rest]

/-- A finer test has the same last position where it passes. -/
theorem latest_of_finer (finer_imp : ∀ a, finer a → test a) {a : α}
    (found : latest test l = some index) (stored : l[index]? = some a) (passes : finer a) :
    latest finer l = some index := by
  obtain ⟨before, b, after, rfl, rfl, -, others⟩ := exists_of_latest found
  obtain rfl : b = a := by simpa using stored
  refine latest_eq_some before passes fun c listed => ?_
  by_contra passes
  exact absurd (finer_imp c (by simpa using passes)) (by simp [others c listed])

theorem latest_none_of_finer (finer_imp : ∀ a, finer a → test a) (missing : latest test l = none) :
    latest finer l = none := by
  refine latest_eq_none_iff.mpr fun a listed => ?_
  by_contra passes
  exact absurd (finer_imp a (by simpa using passes)) (by simp [latest_eq_none_iff.mp missing a listed])

end Latest

/-- The parts of an item, and what adds parts at the end. -/
structure Bundle (α : Type u) (β : Type v) where
  parts : α → List β
  extend : α → List β → α
  parts_extend : ∀ a more, parts (extend a more) = parts a ++ more
  extend_nil : ∀ a, extend a [] = a
  extend_append : ∀ a some more, extend (extend a some) more = extend a (some ++ more)

/-- The key of a group, whether it may be asked for, and the key that an item asks for. -/
structure Rule {α : Type u} {β : Type v} (bundle : Bundle α β) (κ : Type w) where
  key : α → κ
  holds : α → Bool
  asks : α → Option κ
  key_extend : ∀ a more, key (bundle.extend a more) = key a
  holds_extend : ∀ a more, holds (bundle.extend a more) = holds a
  asks_extend : ∀ a more, asks (bundle.extend a more) = asks a

namespace Rule

variable {α : Type u} {β : Type v} {κ : Type w} [DecidableEq κ] {bundle : Bundle α β}
  (rule other : Rule bundle κ)

/-- The group may be asked for under the key. -/
def answers (name : κ) (a : α) : Bool :=
  rule.holds a && decide (rule.key a = name)

/-- The group that an item is added to. -/
def target (out : List α) (a : α) : Option Nat :=
  (rule.asks a).bind fun name => latest (rule.answers name) out

def place (out : List α) (a : α) : List α :=
  match rule.target out a with
  | some index => out.modify index fun group => bundle.extend group (bundle.parts a)
  | none => out ++ [a]

def group (out items : List α) : List α :=
  items.foldl rule.place out

variable {rule other} {out items : List α} {a : α} {index : Nat}

theorem target_of_none (alone : rule.asks a = none) : rule.target out a = none := by
  rw [target, alone]
  rfl

theorem target_of_some {name : κ} (asked : rule.asks a = some name) :
    rule.target out a = latest (rule.answers name) out := by
  rw [target, asked]
  rfl

theorem answers_extend (name : κ) (a : α) (more : List β) :
    rule.answers name (bundle.extend a more) = rule.answers name a := by
  rw [answers, answers, rule.holds_extend, rule.key_extend]

theorem group_append (out items more : List α) :
    rule.group out (items ++ more) = rule.group (rule.group out items) more :=
  List.foldl_append

theorem group_concat (out items : List α) (a : α) :
    rule.group out (items ++ [a]) = rule.place (rule.group out items) a := by
  rw [group_append]
  rfl

/-- What an item is added to: the latest group under the key that it asks for. -/
theorem exists_of_target (found : rule.target out a = some index) :
    ∃ before group after, out = before ++ group :: after ∧ before.length = index ∧
      rule.holds group ∧ rule.asks a = some (rule.key group) := by
  obtain ⟨name, asked, found⟩ := Option.bind_eq_some_iff.mp found
  obtain ⟨before, group, after, split, length, passes, -⟩ := exists_of_latest found
  rw [answers, Bool.and_eq_true, decide_eq_true_eq] at passes
  exact ⟨before, group, after, split, length, passes.1, by rw [asked, passes.2]⟩

theorem modify_middle (before : List α) (b : α) (after : List α) (f : α → α) :
    (before ++ b :: after).modify before.length f = before ++ f b :: after := by
  induction before with
  | nil => rfl
  | cons c before ih => simp [ih]

/-- A rule adds an item without parts to nothing. -/
theorem place_of_partless (added : (rule.target out a).isSome) (partless : bundle.parts a = []) :
    rule.place out a = out := by
  obtain ⟨index, found⟩ := Option.isSome_iff_exists.mp added
  rw [place, found, partless]
  simp only [bundle.extend_nil]
  exact List.modify_id index out

theorem place_of_target_eq (same : rule.target out a = other.target out a) :
    rule.place out a = other.place out a := by
  rw [place, place, same]

/-! ## No part is lost -/

theorem place_parts (out : List α) (a : α) :
    ((rule.place out a).flatMap bundle.parts).Perm (out.flatMap bundle.parts ++ bundle.parts a) := by
  unfold place
  split
  · rename_i index found
    obtain ⟨before, group, after, rfl, rfl, -, -⟩ := exists_of_target found
    rw [modify_middle]
    simp only [List.flatMap_append, List.flatMap_cons, bundle.parts_extend, List.append_assoc]
    exact ((List.perm_append_comm).append_left _).append_left _
  · simp

variable (rule) in
/-- The groups have the parts of the items, each once. -/
theorem group_parts (items : List α) :
    ((rule.group [] items).flatMap bundle.parts).Perm (items.flatMap bundle.parts) := by
  induction items using List.reverseRecOn with
  | nil => rfl
  | append_singleton items a ih =>
      rw [group_concat, List.flatMap_append, List.flatMap_singleton]
      exact (place_parts _ a).trans (ih.append_right _)

/-! ## Grouping groups -/

theorem target_modify (out : List α) (a : α) (more : List β) :
    rule.target (out.modify index fun group => bundle.extend group more) a = rule.target out a := by
  unfold target
  cases rule.asks a with
  | none => rfl
  | some name => exact latest_modify out index fun group => answers_extend name group more

theorem target_extend (out : List α) (a : α) (more : List β) :
    rule.target out (bundle.extend a more) = rule.target out a := by
  rw [target, target, rule.asks_extend]

/-- No item asks for a group before it. -/
def Loose (rule : Rule bundle κ) (out : List α) : Prop :=
  ∀ before a after, out = before ++ a :: after → rule.target before a = none

theorem group_of_loose (loose : rule.Loose out) : rule.group [] out = out := by
  induction out using List.reverseRecOn with
  | nil => rfl
  | append_singleton out a ih =>
      have others : rule.Loose out := fun before b after split =>
        loose before b (after ++ [a]) (by rw [split]; simp)
      rw [group_concat, ih others, place, loose out a [] rfl]

theorem Loose.concat (loose : rule.Loose out) (alone : rule.target out a = none) :
    rule.Loose (out ++ [a]) := by
  intro before b after split
  induction after using List.reverseRecOn with
  | nil =>
      obtain ⟨rfl, same⟩ := List.append_inj' split rfl
      rw [← List.singleton_inj.mp same]
      exact alone
  | append_singleton after c _ =>
      rw [← List.cons_append, ← List.append_assoc] at split
      exact loose before b after (List.append_inj' split rfl).1

theorem Loose.modify (loose : rule.Loose out) (index : Nat) (more : List β) :
    rule.Loose (out.modify index fun group => bundle.extend group more) := by
  intro before a after split
  -- The items stay where they are, so the split comes from one of `out`.
  have shorter : out = out.take before.length ++ out.drop before.length :=
    (List.take_append_drop ..).symm
  have front : (out.take before.length).modify index (bundle.extend · more) = before := by
    have taken := congrArg (List.take before.length) split
    rwa [List.take_left, List.take_modify] at taken
  cases after_place : out.drop before.length with
  | nil =>
      have lengths := congrArg List.length split
      have short := List.drop_eq_nil_iff.mp after_place
      simp at lengths
      omega
  | cons b rest =>
      rw [after_place] at shorter
      have alone := loose _ b rest shorter
      have stored : (out.modify index (bundle.extend · more))[before.length]? = some a := by
        rw [split]
        simp
      have at_place : out[before.length]? = some b := by
        rw [← List.head?_drop, after_place]
        rfl
      rw [List.getElem?_modify, at_place] at stored
      have same : a = bundle.extend b more ∨ a = b := by
        by_cases here : index = before.length <;> simp [here] at stored <;> simp [stored]
      rw [← front, target_modify]
      rcases same with rfl | rfl
      · rw [target_extend]
        exact alone
      · exact alone

theorem loose_group (items : List α) : rule.Loose (rule.group [] items) := by
  induction items using List.reverseRecOn with
  | nil => exact fun before a after split => by simp [group] at split
  | append_singleton items a ih =>
      rw [group_concat, place]
      split
      · exact ih.modify _ _
      · rename_i alone
        exact ih.concat alone

/-- Groups stay as they are. -/
theorem group_group (items : List α) :
    rule.group [] (rule.group [] items) = rule.group [] items :=
  group_of_loose (loose_group items)

/-! ## Two rules -/

/-- Two rules that put every item in one place make the same groups. -/
theorem group_eq_of_place (items : List α)
    (agree : ∀ before a after, items = before ++ a :: after →
      rule.place (other.group [] before) a = other.place (other.group [] before) a) :
    rule.group [] items = other.group [] items := by
  induction items using List.reverseRecOn with
  | nil => rfl
  | append_singleton items a ih =>
      have before : rule.group [] items = other.group [] items :=
        ih fun before b after split => agree before b (after ++ [a]) (by rw [split]; simp)
      rw [group_concat, group_concat, before]
      exact agree items a [] rfl

theorem place_getElem? {b : α} (stored : out[index]? = some b) :
    (rule.place out a)[index]? =
      some (if rule.target out a = some index then bundle.extend b (bundle.parts a) else b) := by
  unfold place
  split
  · rename_i place found
    rw [List.getElem?_modify, stored, found]
    by_cases same : place = index <;> simp [same]
  · rename_i found
    rw [List.getElem?_append_left (List.getElem?_eq_some_iff.mp stored).1, stored, found]
    rfl

variable (rule) in
/-- A group gets parts at its end. -/
theorem group_getElem? {b : α} (stored : out[index]? = some b) :
    ∃ more, (rule.group out items)[index]? = some (bundle.extend b more) := by
  induction items using List.reverseRecOn with
  | nil => exact ⟨[], by rw [bundle.extend_nil]; exact stored⟩
  | append_singleton items a ih =>
      obtain ⟨more, ih⟩ := ih
      rw [group_concat, place_getElem? ih]
      split
      · exact ⟨more ++ bundle.parts a, by rw [bundle.extend_append]⟩
      · exact ⟨more, rfl⟩

/-- A group that is never the latest one asked for keeps its parts. -/
theorem group_getElem?_of_missed {b : α} (stored : out[index]? = some b)
    (missed : ∀ before a after, items = before ++ a :: after →
      rule.target (rule.group out before) a ≠ some index) :
    (rule.group out items)[index]? = some b := by
  induction items using List.reverseRecOn with
  | nil => exact stored
  | append_singleton items a ih =>
      have kept := ih fun before c after split => missed before c (after ++ [a]) (by rw [split]; simp)
      rw [group_concat, place_getElem? kept, if_neg (missed items a [] rfl)]

/-- Nothing is added to a group that no item asks for. -/
theorem target_ne_of_unasked {b : α} (stored : out[index]? = some b)
    (unasked : rule.asks a ≠ some (rule.key b)) : rule.target out a ≠ some index := by
  intro found
  obtain ⟨before, group, after, rfl, rfl, -, asked⟩ := exists_of_target found
  obtain rfl : group = b := by simpa using stored
  exact unasked asked

/-- Nothing is added to a group before another one with its key. -/
theorem target_ne_of_later {place : Nat} {b c : α} (stored : out[index]? = some b)
    (later : index < place) (other_stored : out[place]? = some c) (holds : rule.holds c)
    (same : rule.key c = rule.key b) : rule.target out a ≠ some index := by
  intro found
  obtain ⟨name, asked, found⟩ := Option.bind_eq_some_iff.mp found
  obtain ⟨before, group, after, rfl, rfl, passes, others⟩ := exists_of_latest found
  obtain rfl : group = b := by simpa using stored
  have listed : c ∈ after := by
    rw [List.append_cons, List.getElem?_append_right (by simpa using Nat.succ_le_of_lt later)]
      at other_stored
    exact List.mem_of_getElem? other_stored
  have refused := others c listed
  rw [answers, Bool.and_eq_true] at passes
  simp [answers, holds, same, passes.2] at refused

theorem length_place (out : List α) (a : α) :
    (rule.place out a).length = out.length + if (rule.target out a).isSome then 0 else 1 := by
  unfold place
  split
  · rename_i found
    simp [found]
  · rename_i found
    simp [found]

variable (rule other) in
/-- Where one rule adds to a group whenever the other does, it makes no more groups. -/
theorem length_group_add_le (before more : List α)
    (adds : ∀ front a after, before ++ more = front ++ a :: after →
      (rule.target (rule.group [] front) a).isSome →
        (other.target (other.group [] front) a).isSome) :
    (other.group [] (before ++ more)).length + (rule.group [] before).length ≤
      (rule.group [] (before ++ more)).length + (other.group [] before).length := by
  induction more using List.reverseRecOn with
  | nil => simp [Nat.add_comm]
  | append_singleton more a ih =>
      have earlier := ih fun front b after split =>
        adds front b (after ++ [a]) (by rw [← List.append_assoc, split]; simp)
      have last := adds (before ++ more) a [] (by simp)
      rw [← List.append_assoc, group_concat, group_concat, length_place, length_place]
      cases added : (rule.target (rule.group [] (before ++ more)) a).isSome with
      | true =>
          rw [last added]
          simpa using earlier
      | false =>
          simp only [Bool.false_eq_true, ↓reduceIte]
          split <;> omega

/-- Where one rule adds parts to a group that the other misses from then on, the groups differ. -/
theorem parts_ne_of_target {before after : List α}
    (same : rule.group [] before = other.group [] before)
    (found : rule.target (rule.group [] before) a = some index)
    (missed : ∀ front c rest, a :: after = front ++ c :: rest →
      other.target (other.group (other.group [] before) front) c ≠ some index)
    (carries : bundle.parts a ≠ []) :
    (rule.group [] (before ++ a :: after)).map (fun group => (bundle.parts group).length) ≠
      (other.group [] (before ++ a :: after)).map fun group => (bundle.parts group).length := by
  intro equal
  obtain ⟨front, b, rest, split, length, -, -⟩ := exists_of_target found
  have stored : (rule.group [] before)[index]? = some b := by
    rw [split, ← length]
    simp
  have left : ∃ more, (rule.group [] (before ++ a :: after))[index]? =
      some (bundle.extend b (bundle.parts a ++ more)) := by
    rw [List.append_cons, group_append, group_concat]
    have placed : (rule.place (rule.group [] before) a)[index]? = _ := place_getElem? stored
    rw [if_pos found] at placed
    obtain ⟨more, grown⟩ := group_getElem? rule placed
    exact ⟨more, by rw [grown, bundle.extend_append]⟩
  have right : (other.group [] (before ++ a :: after))[index]? = some b := by
    rw [group_append]
    exact group_getElem?_of_missed (same ▸ stored) missed
  obtain ⟨more, left⟩ := left
  have lengths := congrArg (fun l => l[index]?) equal
  simp only [List.getElem?_map, left, right, Option.map_some, Option.some.injEq,
    bundle.parts_extend, List.length_append] at lengths
  exact carries (List.length_eq_zero_iff.mp (by omega))

/-- A group has the key and the kind of an item. -/
theorem exists_of_mem_group (items : List α) {b : α} (listed : b ∈ rule.group [] items) :
    ∃ a ∈ items, ∃ more, b = bundle.extend a more := by
  induction items using List.reverseRecOn generalizing b with
  | nil => cases listed
  | append_singleton items a ih =>
      rw [group_concat, place] at listed
      split at listed
      · rename_i index found
        obtain ⟨front, group, rest, split, length, -, -⟩ := exists_of_target found
        have earlier : ∀ {c}, c ∈ rule.group [] items → ∃ d ∈ items ++ [a], ∃ more,
            c = bundle.extend d more := by
          intro c listed
          obtain ⟨d, inside, grown⟩ := ih listed
          exact ⟨d, List.mem_append_left _ inside, grown⟩
        rw [split, ← length, modify_middle] at listed
        rcases List.mem_append.mp listed with listed | listed
        · exact earlier (by rw [split]; exact List.mem_append_left _ listed)
        · rcases List.mem_cons.mp listed with rfl | listed
          · obtain ⟨d, inside, more, rfl⟩ := earlier (c := group) (by rw [split]; simp)
            exact ⟨d, inside, more ++ bundle.parts a, bundle.extend_append _ _ _⟩
          · exact earlier (by rw [split]; simp [listed])
      · rcases List.mem_append.mp listed with listed | listed
        · obtain ⟨d, inside, grown⟩ := ih listed
          exact ⟨d, List.mem_append_left _ inside, grown⟩
        · exact ⟨a, by simp, [], by rw [bundle.extend_nil]; exact List.mem_singleton.mp listed⟩

variable (rule) in
/-- A root starts a group, which has its key. -/
theorem exists_group_of_root (items : List α) {a : α} (listed : a ∈ items)
    (root : rule.asks a = none) : ∃ more, bundle.extend a more ∈ rule.group [] items := by
  induction items using List.reverseRecOn with
  | nil => cases listed
  | append_singleton items b ih =>
      rw [group_concat]
      rcases List.mem_append.mp listed with listed | listed
      · obtain ⟨more, listed⟩ := ih listed
        obtain ⟨index, stored⟩ := List.mem_iff_getElem?.mp listed
        have placed : (rule.place (rule.group [] items) b)[index]? = _ := place_getElem? stored
        split at placed
        · exact ⟨_, List.mem_of_getElem? (bundle.extend_append _ _ _ ▸ placed)⟩
        · exact ⟨more, List.mem_of_getElem? placed⟩
      · obtain rfl := List.mem_singleton.mp listed
        refine ⟨[], ?_⟩
        rw [place, target_of_none root, bundle.extend_nil]
        exact List.mem_append_right _ (List.mem_singleton_self a)

end Rule

end Zeron.Data
