import Mathlib.Data.String.Basic

/-!
# Ordered maps

`Std.ExtTreeMap` is the ordered map of the development: `BTreeMap` on the Rust
side, a plain object or a keyed SQL table on the TypeScript side.  Equality is
extensional, so two maps are equal when every lookup agrees.

The lemmas here read lookups with `=` on keys instead of `cmp _ _ = .eq`, read
a fold over a map one key at a time, and describe the two list forms the code
uses: the values of a map, and a list of records written into a map under
their own keys.
-/

namespace Zeron.Data

universe u v w

variable {α : Type u} {β : Type v} {cmp : α → α → Ordering}
variable [Std.TransCmp cmp] [Std.LawfulEqCmp cmp] {map : Std.ExtTreeMap α β cmp} {key : α}

section Lookup

variable [DecidableEq α] (map : Std.ExtTreeMap α β cmp)

theorem getElem?_insert_eq (key other : α) (value : β) :
    (map.insert key value)[other]? = if key = other then some value else map[other]? := by
  rw [Std.ExtTreeMap.getElem?_insert]
  simp only [Std.LawfulEqCmp.compare_eq_iff_eq]

theorem getElem?_erase_eq (key other : α) :
    (map.erase key)[other]? = if key = other then none else map[other]? := by
  rw [Std.ExtTreeMap.getElem?_erase]
  simp only [Std.LawfulEqCmp.compare_eq_iff_eq]

omit [DecidableEq α] in
@[simp]
theorem getElem?_insert_self (key : α) (value : β) :
    (map.insert key value)[key]? = some value := by
  classical
  rw [getElem?_insert_eq, if_pos rfl]

omit [DecidableEq α] in
theorem getElem?_insert_ne {other : α} (different : key ≠ other) (value : β) :
    (map.insert key value)[other]? = map[other]? := by
  classical
  rw [getElem?_insert_eq, if_neg different]

omit [DecidableEq α] in
/-- The keys of a map with one entry are one. -/
theorem eq_of_size_eq_one {map : Std.ExtTreeMap α β cmp} (single : map.size = 1) {other : α}
    (key_mem : key ∈ map) (other_mem : other ∈ map) : key = other := by
  rw [← Std.ExtTreeMap.length_keys] at single
  obtain ⟨only, keys_eq⟩ := List.length_eq_one_iff.mp single
  rw [← Std.ExtTreeMap.mem_keys, keys_eq, List.mem_singleton] at key_mem other_mem
  rw [key_mem, other_mem]

end Lookup

section Fold

variable {δ : Type w} {γ : Type*}

omit [Std.LawfulEqCmp cmp] in
/-- The entries of a map have pairwise different keys. -/
theorem toList_pairwise_ne (map : Std.ExtTreeMap α β cmp) :
    map.toList.Pairwise fun first second => first.1 ≠ second.1 := by
  apply Std.ExtTreeMap.distinct_keys_toList.imp
  intro first second different equal
  exact different (equal ▸ Std.ReflCmp.compare_self)

theorem foldl_list_view (view : δ → α → γ) (update : δ → α × β → δ)
    (write : α → β → γ → γ)
    (written : ∀ state entry, view (update state entry) entry.1 =
      write entry.1 entry.2 (view state entry.1))
    (frame : ∀ state entry key, entry.1 ≠ key → view (update state entry) key = view state key)
    (entries : List (α × β)) (distinct : entries.Pairwise fun first second => first.1 ≠ second.1)
    (state : δ) (key : α) :
    (∀ value, (key, value) ∈ entries →
      view (entries.foldl update state) key = write key value (view state key)) ∧
    ((∀ value, (key, value) ∉ entries) →
      view (entries.foldl update state) key = view state key) := by
  induction entries generalizing state with
  | nil => simp
  | cons entry rest ih =>
      obtain ⟨headDistinct, restDistinct⟩ := List.pairwise_cons.mp distinct
      obtain ⟨found, missing⟩ := ih restDistinct (update state entry)
      rw [List.foldl_cons]
      constructor
      · intro value member
        rcases List.mem_cons.mp member with here | later
        · have absent : ∀ other, (key, other) ∉ rest := by
            intro other otherMem
            exact headDistinct _ otherMem (congrArg Prod.fst here).symm
          rw [missing absent, ← here, written]
        · rw [found value later, frame _ _ _ (headDistinct _ later)]
      · intro absent
        have headNe : entry.1 ≠ key := by
          rintro rfl
          exact absent entry.2 List.mem_cons_self
        rw [missing fun value member => absent value (List.mem_cons_of_mem _ member),
          frame _ _ _ headNe]

omit [Std.LawfulEqCmp cmp] in
theorem mem_iff_exists : key ∈ map ↔ ∃ value, map[key]? = some value :=
  Std.ExtTreeMap.mem_iff_isSome_getElem?.trans Option.isSome_iff_exists

/-- A filtered map has the entries that are kept. -/
theorem getElem?_filter_eq_some_iff {keep : α → β → Bool} {value : β} :
    (map.filter keep)[key]? = some value ↔ map[key]? = some value ∧ keep key value = true := by
  rw [← Std.ExtTreeMap.mem_toList_iff_getElem?_eq_some, Std.ExtTreeMap.toList_filter,
    List.mem_filter, Std.ExtTreeMap.mem_toList_iff_getElem?_eq_some]

/-- A fold over a map, read at one key: if each entry rewrites only the part of
the state that `view` shows at its own key, the fold shows at `key` the entry
stored there applied to what the start showed. -/
theorem foldl_view (view : δ → α → γ) (update : δ → α → β → δ) (write : α → β → γ → γ)
    (written : ∀ state key value, view (update state key value) key =
      write key value (view state key))
    (frame : ∀ state key value other, key ≠ other →
      view (update state key value) other = view state other)
    (map : Std.ExtTreeMap α β cmp) (state : δ) (key : α) :
    view (map.foldl update state) key =
      match map[key]? with
      | some value => write key value (view state key)
      | none => view state key := by
  rw [Std.ExtTreeMap.foldl_eq_foldl_toList]
  obtain ⟨found, missing⟩ := foldl_list_view view
    (fun state entry => update state entry.1 entry.2) write
    (fun state entry => written state entry.1 entry.2)
    (fun state entry other => frame state entry.1 entry.2 other)
    map.toList (toList_pairwise_ne map) state key
  cases lookup : map[key]? with
  | some value => exact found value (Std.ExtTreeMap.mem_toList_iff_getElem?_eq_some.mpr lookup)
  | none =>
      apply missing
      intro value member
      rw [Std.ExtTreeMap.mem_toList_iff_getElem?_eq_some, lookup] at member
      cases member

/-- Writing all entries of one map into another. -/
theorem getElem?_foldl_insert (map start : Std.ExtTreeMap α β cmp) (key : α) :
    (map.foldl (fun written key value => written.insert key value) start)[key]? =
      map[key]?.or start[key]? := by
  rw [foldl_view (fun written key => written[key]?) (fun written key value => written.insert key value)
    (fun _ value _ => some value) (fun written key value => getElem?_insert_self written key value)
    (fun written key value other differ => getElem?_insert_ne written differ value) map start key]
  cases map[key]? <;> rfl

end Fold

section Values

/-- The values of a map, in key order. -/
def values (map : Std.ExtTreeMap α β cmp) : List β :=
  map.toList.map Prod.snd

theorem mem_values_iff {value : β} : value ∈ values map ↔ ∃ key : α, map[key]? = some value := by
  simp only [values, List.mem_map]
  constructor
  · rintro ⟨⟨key, stored⟩, member, rfl⟩
    exact ⟨key, Std.ExtTreeMap.mem_toList_iff_getElem?_eq_some.mp member⟩
  · rintro ⟨key, lookup⟩
    exact ⟨(key, value), Std.ExtTreeMap.mem_toList_iff_getElem?_eq_some.mpr lookup, rfl⟩

/-- Values that know their own key have pairwise different keys. -/
theorem values_pairwise_ne {keyOf : β → α}
    (keyed : ∀ (key : α) (value : β), map[key]? = some value → keyOf value = key) :
    (values map).Pairwise fun first second => keyOf first ≠ keyOf second := by
  rw [values, List.pairwise_map]
  apply (toList_pairwise_ne map).imp_of_mem
  intro first second firstMem secondMem different
  rw [keyed _ _ (Std.ExtTreeMap.mem_toList_iff_getElem?_eq_some.mp firstMem),
    keyed _ _ (Std.ExtTreeMap.mem_toList_iff_getElem?_eq_some.mp secondMem)]
  exact different

end Values

section Entries

private theorem mem_of_getElem?_foldl_insert (entries : List (α × β)) (map : Std.ExtTreeMap α β cmp)
    {value : β}
    (lookup : (entries.foldl (fun map entry => map.insert entry.1 entry.2) map)[key]? =
      some value) :
    (key, value) ∈ entries ∨ map[key]? = some value := by
  classical
  induction entries generalizing map with
  | nil => exact Or.inr lookup
  | cons entry rest ih =>
      rcases ih (map.insert entry.1 entry.2) lookup with later | before
      · exact Or.inl (List.mem_cons_of_mem _ later)
      · rw [getElem?_insert_eq] at before
        split at before
        · cases before
          subst key
          exact Or.inl List.mem_cons_self
        · exact Or.inr before

/-- What a map made of entries holds is one of the entries. -/
theorem mem_of_getElem?_ofList {entries : List (α × β)} {value : β}
    (lookup : (Std.ExtTreeMap.ofList entries cmp)[key]? = some value) :
    (key, value) ∈ entries := by
  rw [Std.ExtTreeMap.ofList_eq_insertMany_empty, Std.ExtTreeMap.insertMany_list_eq_foldl] at lookup
  rcases mem_of_getElem?_foldl_insert entries ∅ lookup with member | before
  · exact member
  · cases before

/-- A map is made of its own entries. -/
@[simp]
theorem ofList_toList (map : Std.ExtTreeMap α β cmp) :
    Std.ExtTreeMap.ofList map.toList cmp = map := by
  apply Std.ExtTreeMap.ext_getElem?
  intro key
  cases stored : map[key]? with
  | some value =>
      exact Std.ExtTreeMap.getElem?_ofList_of_mem Std.ReflCmp.compare_self
        Std.ExtTreeMap.distinct_keys_toList
        (Std.ExtTreeMap.mem_toList_iff_getElem?_eq_some.mpr stored)
  | none =>
      cases rebuilt : (Std.ExtTreeMap.ofList map.toList cmp)[key]? with
      | none => rfl
      | some value =>
          have member := mem_of_getElem?_ofList rebuilt
          rw [Std.ExtTreeMap.mem_toList_iff_getElem?_eq_some, stored] at member
          cases member

end Entries

section Keyed

variable (keyOf : β → α)

/-- Write records into a map under their own keys, later ones over earlier ones. -/
def insertAll (map : Std.ExtTreeMap α β cmp) (records : List β) : Std.ExtTreeMap α β cmp :=
  records.foldl (fun map record => map.insert (keyOf record) record) map

variable {keyOf} {records : List β}

/-- A key that no record carries keeps its value. -/
theorem getElem?_insertAll_of_forall_ne (absent : ∀ record ∈ records, keyOf record ≠ key)
    (map : Std.ExtTreeMap α β cmp) :
    (insertAll keyOf map records)[key]? = map[key]? := by
  induction records generalizing map with
  | nil => rfl
  | cons record rest ih =>
      have headNe : keyOf record ≠ key := absent record List.mem_cons_self
      have restNe : ∀ other ∈ rest, keyOf other ≠ key := fun other member =>
        absent other (List.mem_cons_of_mem _ member)
      exact (ih restNe _).trans (getElem?_insert_ne map headNe record)

/-- With pairwise different keys every record is found under its key. -/
theorem getElem?_insertAll_of_mem
    (distinct : records.Pairwise fun first second => keyOf first ≠ keyOf second) {record : β}
    (member : record ∈ records) (map : Std.ExtTreeMap α β cmp) :
    (insertAll keyOf map records)[keyOf record]? = some record := by
  induction records generalizing map with
  | nil => cases member
  | cons head rest ih =>
      obtain ⟨headDistinct, restDistinct⟩ := List.pairwise_cons.mp distinct
      rcases List.mem_cons.mp member with rfl | later
      · have absent : ∀ other ∈ rest, keyOf other ≠ keyOf record := fun other otherMem =>
          (headDistinct other otherMem).symm
        exact (getElem?_insertAll_of_forall_ne absent _).trans (getElem?_insert_self map _ _)
      · exact ih restDistinct later _

/-- A key that some record carries is found. -/
theorem getElem?_insertAll_ne_none {record : β} (member : record ∈ records)
    (map : Std.ExtTreeMap α β cmp) :
    (insertAll keyOf map records)[keyOf record]? ≠ none := by
  classical
  induction records generalizing map record with
  | nil => cases member
  | cons head rest ih =>
      by_cases later : ∃ other ∈ rest, keyOf other = keyOf record
      · obtain ⟨other, otherMem, same⟩ := later
        rw [← same]
        exact ih otherMem _
      · have absent : ∀ other ∈ rest, keyOf other ≠ keyOf record := fun other otherMem same =>
          later ⟨other, otherMem, same⟩
        rcases List.mem_cons.mp member with rfl | inRest
        · have found : (insertAll keyOf (map.insert (keyOf record) record) rest)[keyOf record]? =
              some record :=
            (getElem?_insertAll_of_forall_ne absent _).trans (getElem?_insert_self map _ _)
          exact fun none => Option.some_ne_none record (found.symm.trans none)
        · exact absurd rfl (absent record inRest)

/-- What is found after writing records was written or was there before. -/
theorem getElem?_insertAll_eq_some {record : β}
    (lookup : (insertAll keyOf map records)[key]? = some record) :
    (record ∈ records ∧ keyOf record = key) ∨
      (map[key]? = some record ∧ ∀ other ∈ records, keyOf other ≠ key) := by
  classical
  induction records generalizing map with
  | nil => exact Or.inr ⟨lookup, by simp⟩
  | cons head rest ih =>
      have after : (insertAll keyOf (map.insert (keyOf head) head) rest)[key]? = some record :=
        lookup
      rcases ih after with ⟨member, keyEq⟩ | ⟨before, absent⟩
      · exact Or.inl ⟨List.mem_cons_of_mem _ member, keyEq⟩
      · rw [getElem?_insert_eq] at before
        by_cases headKey : keyOf head = key
        · rw [if_pos headKey] at before
          cases before
          exact Or.inl ⟨List.mem_cons_self, headKey⟩
        · rw [if_neg headKey] at before
          exact Or.inr ⟨before, by simpa [headKey] using absent⟩

end Keyed

end Zeron.Data
