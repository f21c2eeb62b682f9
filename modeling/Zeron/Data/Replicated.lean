import Mathlib.Data.List.Nodup
import Mathlib.Data.List.Perm.Basic

/-!
# Replicas of a list of containers

A shared list holds containers.  A commit inserts a container, deletes one, writes
to one or moves one.  Replicas take the commits each once, in any order in which a
commit comes after those that its author had taken.

What a replica shows is a matter of the library that keeps the list.  It is a
parameter here, and `Lawful` is what the library promises: which container a row is,
and that a deletion takes the container away unless it is moved at the same time.
Nothing is promised of a container that one replica deletes while another moves it.
-/

namespace Zeron.Data.Replicated

variable {α β κ : Type}

/-- A container is named by the commit that inserts it. -/
inductive Op (α β : Type) where
  | insert (index : Nat) (value : α)
  | delete (target : Nat)
  | write (target : Nat) (change : β)
  | move (target index : Nat)

/-- The container that a commit changes. -/
def Op.target : Op α β → Option Nat
  | .insert _ _ => none
  | .delete target => some target
  | .write target _ => some target
  | .move target _ => some target

structure Commit (α β : Type) where
  name : Nat
  /-- The commits that its author had taken. -/
  seen : List Nat
  op : Op α β

structure Container (α : Type) where
  name : Nat
  value : α

def deletes (name : Nat) (commit : Commit α β) : Bool :=
  match commit.op with
  | .delete target => decide (target = name)
  | .insert _ _ | .write _ _ | .move _ _ => false

def moves (name : Nat) (commit : Commit α β) : Bool :=
  match commit.op with
  | .move target _ => decide (target = name)
  | .insert _ _ | .delete _ | .write _ _ => false

variable {name : Nat} {commit : Commit α β}

theorem deletes_iff : deletes name commit = true ↔ commit.op = .delete name := by
  unfold deletes
  cases commit.op <;> simp

theorem moves_iff : moves name commit = true ↔ ∃ index, commit.op = .move name index := by
  unfold moves
  cases commit.op <;> simp

/-- What a replica shows that has taken these commits, the newest first. -/
abbrev SharedList (α β : Type) := List (Commit α β) → List (Container α)

/-- Commits in an order in which a replica may take them, the newest first. -/
def History : List (Commit α β) → Prop
  | [] => True
  | commit :: older =>
      commit.name ∉ older.map Commit.name ∧
        (∀ name ∈ commit.seen, name ∈ older.map Commit.name) ∧
        (∀ target, commit.op.target = some target → target ∈ commit.seen) ∧ History older

def Inserts (taken : List (Commit α β)) (name : Nat) (value : α) : Prop :=
  ∃ commit ∈ taken, commit.name = name ∧ ∃ index, commit.op = .insert index value

/-- A commit deletes the container, and its author had taken all moves of it. -/
def Final (taken : List (Commit α β)) (name : Nat) : Prop :=
  ∃ commit ∈ taken, commit.op = .delete name ∧
    ∀ mover ∈ taken, ∀ index, mover.op = .move name index → mover.name ∈ commit.seen

/-- What the library promises of the rows of a replica. -/
structure Lawful (write : β → α → α) (list : SharedList α β) : Prop where
  distinct : ∀ taken, History taken → ((list taken).map Container.name).Nodup
  /-- A row is a container that was inserted; what no write changes is as it was. -/
  inserted : ∀ taken, History taken → ∀ row ∈ list taken, ∃ value,
    Inserts taken row.name value ∧
      ∀ (κ : Type) (key : α → κ), (∀ change value, key (write change value) = key value) →
        key row.value = key value
  undeleted : ∀ taken, History taken → ∀ name value, Inserts taken name value →
    (∀ commit ∈ taken, commit.op ≠ .delete name) → ∃ row ∈ list taken, row.name = name
  deleted : ∀ taken, History taken → ∀ name, Final taken name →
    ∀ row ∈ list taken, row.name ≠ name

section History

variable {taken : List (Commit α β)} {commit : Commit α β}

theorem History.eq_of_name (history : History taken) {first second : Commit α β}
    (here : first ∈ taken) (there : second ∈ taken) (same : first.name = second.name) :
    first = second := by
  induction taken with
  | nil => cases here
  | cons newest older ih =>
      obtain ⟨fresh, -, -, earlier⟩ := history
      have apart : ∀ commit ∈ older, commit.name ≠ newest.name := fun commit made equal =>
        fresh (List.mem_map.mpr ⟨commit, made, equal⟩)
      rcases List.mem_cons.mp here with rfl | first_older
      · rcases List.mem_cons.mp there with rfl | second_older
        · rfl
        · exact absurd same.symm (apart second second_older)
      · rcases List.mem_cons.mp there with rfl | second_older
        · exact absurd same (apart first first_older)
        · exact ih earlier first_older second_older

theorem History.nodup (history : History taken) : (taken.map Commit.name).Nodup := by
  induction taken with
  | nil => exact List.nodup_nil
  | cons newest older ih => exact List.nodup_cons.mpr ⟨history.1, ih history.2.2.2⟩

theorem History.seen_of_mem (history : History taken) (made : commit ∈ taken) :
    (∀ name ∈ commit.seen, name ∈ taken.map Commit.name) ∧
      ∀ target, commit.op.target = some target → target ∈ commit.seen := by
  induction taken with
  | nil => cases made
  | cons newest older ih =>
      obtain ⟨-, seen, targets, earlier⟩ := history
      rcases List.mem_cons.mp made with rfl | made_older
      · exact ⟨fun name listed => List.mem_cons_of_mem _ (seen name listed), targets⟩
      · obtain ⟨seen_older, targets_older⟩ := ih earlier made_older
        exact ⟨fun name listed => List.mem_cons_of_mem _ (seen_older name listed), targets_older⟩

theorem Inserts.mem {value : α} (inserts : Inserts taken name value) :
    name ∈ taken.map Commit.name := by
  obtain ⟨commit, made, rfl, -⟩ := inserts
  exact List.mem_map_of_mem made

theorem Inserts.unique (history : History taken) {first second : α}
    (one : Inserts taken name first) (other : Inserts taken name second) : first = second := by
  obtain ⟨commit, made, rfl, index, inserts⟩ := one
  obtain ⟨again, made_again, same, index_again, inserts_again⟩ := other
  obtain rfl := history.eq_of_name made_again made same
  rw [inserts] at inserts_again
  exact (Op.insert.inj inserts_again).2

end History

/-! ## The containers of a history -/

/-- The container was inserted with this key, and no commit deletes it. -/
def Stands (key : α → κ) (taken : List (Commit α β)) (name : Nat) (k : κ) : Prop :=
  (∃ value, Inserts taken name value ∧ key value = k) ∧
    ∀ commit ∈ taken, commit.op ≠ .delete name

/-- Of the commits that delete a container, one comes after all its moves. -/
def Settled (taken : List (Commit α β)) : Prop :=
  ∀ commit ∈ taken, ∀ name, commit.op = .delete name → Final taken name

section Stands

variable {key : α → κ} {older : List (Commit α β)} {commit : Commit α β} {name : Nat} {k : κ}

theorem inserts_cons_iff {value : α} : Inserts (commit :: older) name value ↔
    (commit.name = name ∧ ∃ index, commit.op = .insert index value) ∨ Inserts older name value := by
  simp only [Inserts, List.exists_mem_cons_iff]

theorem stands_insert_iff (history : History (commit :: older)) {index : Nat} {value : α}
    (inserts : commit.op = .insert index value) :
    Stands key (commit :: older) name k ↔
      (name, k) = (commit.name, key value) ∨ Stands key older name k := by
  have spared : ∀ other ∈ older, other.op ≠ .delete commit.name := fun other made deletes =>
    have targets := (history.2.2.2.seen_of_mem made)
    history.1 (targets.1 _ (targets.2 _ (congrArg Op.target deletes)))
  simp only [Stands, inserts_cons_iff, List.forall_mem_cons, inserts, ne_eq, reduceCtorEq,
    not_false_eq_true, true_and, Prod.mk.injEq, Op.insert.injEq]
  constructor
  · rintro ⟨⟨given, ⟨same, -, -, rfl⟩ | earlier, shown⟩, undeleted⟩
    · exact Or.inl ⟨same.symm, shown.symm⟩
    · exact Or.inr ⟨⟨given, earlier, shown⟩, undeleted⟩
  · rintro (⟨rfl, rfl⟩ | ⟨⟨given, earlier, shown⟩, undeleted⟩)
    · exact ⟨⟨value, Or.inl ⟨rfl, index, rfl, rfl⟩, rfl⟩, spared⟩
    · exact ⟨⟨given, Or.inr earlier, shown⟩, undeleted⟩

/-- A commit that inserts nothing leaves all containers but the one that it deletes. -/
theorem stands_cons_iff (changes : ∀ index value, commit.op ≠ .insert index value) :
    Stands key (commit :: older) name k ↔ Stands key older name k ∧ commit.op ≠ .delete name := by
  have inserts (value : α) : Inserts (commit :: older) name value ↔ Inserts older name value := by
    rw [inserts_cons_iff]
    exact or_iff_right fun made => changes _ _ made.2.choose_spec
  simp only [Stands, inserts, List.forall_mem_cons]
  tauto

theorem Settled.cons (settled : Settled older)
    (deletes : ∀ name, commit.op = .delete name → Final (commit :: older) name)
    (moves : ∀ name index, commit.op = .move name index → ∀ other ∈ older,
      other.op ≠ .delete name) : Settled (commit :: older) := by
  intro other made name deleting
  obtain rfl | made := List.mem_cons.mp made
  · exact deletes name deleting
  · obtain ⟨last, there, last_deletes, complete⟩ := settled other made name deleting
    refine ⟨last, List.mem_cons_of_mem _ there, last_deletes, ?_⟩
    refine List.forall_mem_cons.mpr ⟨?_, complete⟩
    intro index moving
    exact absurd deleting (moves name index moving other made)

/-- A container that is deleted already can be deleted again. -/
theorem Settled.delete_again {name : Nat} (settled : Settled older)
    (deletes : commit.op = .delete name) (deleted : ∃ other ∈ older, other.op = .delete name) :
    Settled (commit :: older) := by
  obtain ⟨other, made, deleting⟩ := deleted
  obtain ⟨last, there, last_deletes, complete⟩ := settled other made _ deleting
  refine settled.cons (fun target again => ?_) fun _ _ moving => ?_
  · obtain rfl := Op.delete.inj (deletes.symm.trans again)
    refine ⟨last, List.mem_cons_of_mem _ there, last_deletes, ?_⟩
    refine List.forall_mem_cons.mpr ⟨fun _ moving => ?_, complete⟩
    cases deletes.symm.trans moving
  · cases deletes.symm.trans moving

end Stands

/-! ## The rows of a replica -/

/-- The containers that are shown, with their keys. -/
def pairs (key : α → κ) (rows : List (Container α)) : List (Nat × κ) :=
  rows.map fun row => (row.name, key row.value)

variable {row : Container α}

section Rows

variable {write : β → α → α} {list : SharedList α β} {key : α → κ}
  {taken older : List (Commit α β)} {commit : Commit α β}

variable (lawful : Lawful write list)
  (keeps : ∀ change value, key (write change value) = key value)

include lawful

theorem Lawful.pairs_nodup (history : History taken) : (pairs key (list taken)).Nodup := by
  refine List.Nodup.of_map Prod.fst ?_
  rw [pairs, List.map_map]
  exact lawful.distinct taken history

include keeps

theorem Lawful.exists_inserts (history : History taken) (shown : row ∈ list taken) :
    ∃ value, Inserts taken row.name value ∧ key value = key row.value := by
  obtain ⟨value, inserts, same⟩ := lawful.inserted taken history row shown
  exact ⟨value, inserts, (same κ key keeps).symm⟩

/-- A replica of a settled history shows the containers that stand. -/
theorem Lawful.mem_pairs_iff (history : History taken) (settled : Settled taken) {k : κ} :
    (name, k) ∈ pairs key (list taken) ↔ Stands key taken name k := by
  rw [pairs, List.mem_map]
  constructor
  · rintro ⟨row, shown, same⟩
    obtain ⟨rfl, rfl⟩ := Prod.mk.inj same
    refine ⟨lawful.exists_inserts keeps history shown, fun commit made deletes => ?_⟩
    exact lawful.deleted taken history row.name (settled commit made row.name deletes) row shown rfl
  · rintro ⟨⟨value, inserts, rfl⟩, undeleted⟩
    obtain ⟨row, shown, rfl⟩ := lawful.undeleted taken history name value inserts undeleted
    obtain ⟨given, inserted, same⟩ := lawful.exists_inserts keeps history shown
    exact ⟨row, shown, by rw [← same, inserts.unique history inserted]⟩

/-- Replicas that have taken the same commits show the same containers. -/
theorem Lawful.perm_pairs (history : History taken) (other : History older)
    (same : ∀ commit, commit ∈ taken ↔ commit ∈ older) (settled : Settled older) :
    (pairs key (list taken)).Perm (pairs key (list older)) := by
  have settled_taken : Settled taken := by
    simpa only [Settled, Final, same] using settled
  refine (List.perm_ext_iff_of_nodup (lawful.pairs_nodup history)
    (lawful.pairs_nodup other)).mpr ?_
  rintro ⟨name, k⟩
  rw [lawful.mem_pairs_iff keeps history settled_taken, lawful.mem_pairs_iff keeps other settled]
  simp only [Stands, Inserts, same]

section

variable (history : History (commit :: older)) (settled : Settled (commit :: older))
  (before : Settled older)
include history settled before

theorem Lawful.perm_insert {index : Nat} {value : α} (inserts : commit.op = .insert index value) :
    (pairs key (list (commit :: older))).Perm
      ((commit.name, key value) :: pairs key (list older)) := by
  have fresh : (commit.name, key value) ∉ pairs key (list older) := by
    rw [lawful.mem_pairs_iff keeps history.2.2.2 before]
    rintro ⟨⟨given, inserted, -⟩, -⟩
    exact history.1 inserted.mem
  refine (List.perm_ext_iff_of_nodup (lawful.pairs_nodup history)
    (List.nodup_cons.mpr ⟨fresh, lawful.pairs_nodup history.2.2.2⟩)).mpr ?_
  rintro ⟨name, k⟩
  rw [lawful.mem_pairs_iff keeps history settled, stands_insert_iff history inserts,
    List.mem_cons, lawful.mem_pairs_iff keeps history.2.2.2 before]

/-- A commit that deletes no container that stands changes none. -/
theorem Lawful.perm_of_kept (changes : ∀ index value, commit.op ≠ .insert index value)
    (gone : ∀ name, commit.op = .delete name → ∃ other ∈ older, other.op = .delete name) :
    (pairs key (list (commit :: older))).Perm (pairs key (list older)) := by
  refine (List.perm_ext_iff_of_nodup (lawful.pairs_nodup history)
    (lawful.pairs_nodup history.2.2.2)).mpr ?_
  rintro ⟨name, k⟩
  rw [lawful.mem_pairs_iff keeps history settled, lawful.mem_pairs_iff keeps history.2.2.2 before,
    stands_cons_iff changes]
  refine and_iff_left_of_imp fun stands deletes => ?_
  obtain ⟨other, made, deleted⟩ := gone name deletes
  exact stands.2 other made deleted

/-- Deleting a container that stands takes exactly it away. -/
theorem Lawful.perm_delete {target : Nat} {k : κ} (deletes : commit.op = .delete target)
    (stands : Stands key older target k) :
    (pairs key (list older)).Perm ((target, k) :: pairs key (list (commit :: older))) := by
  have mem_iff (name : Nat) (k : κ) : (name, k) ∈ pairs key (list (commit :: older)) ↔
      Stands key older name k ∧ name ≠ target := by
    rw [lawful.mem_pairs_iff keeps history settled,
      stands_cons_iff (by rw [deletes]; exact nofun), deletes]
    simp only [ne_eq, Op.delete.injEq, eq_comm]
  refine (List.perm_ext_iff_of_nodup (lawful.pairs_nodup history.2.2.2) (List.nodup_cons.mpr
    ⟨fun shown => ((mem_iff target k).mp shown).2 rfl, lawful.pairs_nodup history⟩)).mpr ?_
  rintro ⟨name, other⟩
  rw [lawful.mem_pairs_iff keeps history.2.2.2 before, List.mem_cons, mem_iff, Prod.mk.injEq]
  constructor
  · intro shown
    by_cases same : name = target
    · subst same
      obtain ⟨⟨first, inserts, rfl⟩, -⟩ := stands
      obtain ⟨⟨second, again, rfl⟩, -⟩ := shown
      exact Or.inl ⟨rfl, by rw [inserts.unique history.2.2.2 again]⟩
    · exact Or.inr ⟨shown, same⟩
  · rintro (⟨rfl, rfl⟩ | ⟨shown, -⟩)
    · exact stands
    · exact shown

end

end Rows

/-! ## A list in the order of its inserts -/

/-- The changes of a container, the oldest first. -/
def changesTo (name : Nat) (taken : List (Commit α β)) : List β :=
  taken.reverse.filterMap fun commit =>
    match commit.op with
    | .write target change => if target = name then some change else none
    | .insert _ _ | .delete _ | .move _ _ => none

/-- The container that a commit inserts, unless one of those that are taken deletes it. -/
def shownBy (write : β → α → α) (taken : List (Commit α β)) (commit : Commit α β) :
    Option (Container α) :=
  match commit.op with
  | .insert _ value =>
      if taken.any (deletes commit.name) then none
      else some ⟨commit.name, (changesTo commit.name taken).foldl (fun value change =>
        write change value) value⟩
  | .delete _ | .write _ _ | .move _ _ => none

/-- The containers that no commit deletes, in the order in which they were inserted. -/
def inOrder (write : β → α → α) : SharedList α β := fun taken =>
  taken.reverse.filterMap (shownBy write taken)

section InOrder

variable {write : β → α → α} {taken : List (Commit α β)}

end InOrder

end Zeron.Data.Replicated
