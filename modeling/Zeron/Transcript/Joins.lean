import Zeron.Data.Grouping
import Zeron.Registry.Phone.Core
import Zeron.Transcript.Opening

/-!
# Three readers of continuations

The engine, the edge and the phone put the parts of continuations at the end of their roots.
Each keeps an index of the entries by id.  The engine indexes entries that continue nothing; the
edge also indexes entries that continue the empty id; the phone indexes every entry that it does
not add to another one, and compares ids by their canonical forms.
-/

namespace Zeron.Transcript.Stream

open Zeron.Data Registry.Phone

variable {p : Payloads} {unicode : Unicode} {entry : SessionMessageEntry p}
  {before entries : List (SessionMessageEntry p)}

/-! ## The edge -/

/-- `entry.continuationOf` as a condition; the empty text is false. -/
def SessionMessageEntry.truthyContinuation (entry : SessionMessageEntry p) : Option String :=
  entry.continuationOf.filter fun root => root != ""

def Joined.addEdge (joined : Joined p) (entry : SessionMessageEntry p) : Joined p :=
  match entry.truthyContinuation with
  | some root =>
      match joined.rootIndex.lookup root with
      | some index => { joined with out := joined.out.modify index (·.extend entry.parts) }
      | none => { joined with out := joined.out ++ [entry] }
  | none => {
      out := joined.out ++ [entry]
      rootIndex := (entry.id, joined.out.length) :: joined.rootIndex }

/-- `joinContinuations` of the edge. -/
def joinContinuations (entries : List (SessionMessageEntry p)) : List (SessionMessageEntry p) :=
  if !entries.any fun entry => entry.truthyContinuation.isSome then entries
  else (entries.foldl Joined.addEdge { out := [], rootIndex := [] }).out

/-- What `materializeTail` makes of the messages. -/
structure SessionTail (p : Payloads) where
  messages : List (SessionMessageEntry p)
  totalMessages : Nat

/-- `slice(-count)` -/
def sliceLast {α : Type} (l : List α) (count : Nat) : List α :=
  if count = 0 then l else l.drop (l.length - count)

def materializeTail (messages : List (SessionMessageEntry p)) (tailCount : Nat) : SessionTail p :=
  let all := joinContinuations messages
  { messages := sliceLast all tailCount, totalMessages := all.length }

/-! ## The phone -/

variable (unicode) in
/-- The entries so far and their `index`, by canonical ids. -/
def Joined.addPhone (joined : Joined p) (entry : SessionMessageEntry p) : Joined p :=
  match entry.continuationOf.bind fun root => joined.rootIndex.lookup (unicode.canonical root) with
  | some index => { joined with out := joined.out.modify index (·.extend entry.parts) }
  | none => {
      out := joined.out ++ [entry]
      rootIndex := (unicode.canonical entry.id, joined.out.length) :: joined.rootIndex }

variable (unicode) in
/-- `joinContinuations` of the phone. -/
def phoneJoinContinuations (entries : List (SessionMessageEntry p)) :
    List (SessionMessageEntry p) :=
  (entries.foldl (Joined.addPhone unicode) { out := [], rootIndex := [] }).out

/-! ## Grouping by rules -/

/-- Entries and their parts. -/
def entryBundle (p : Payloads) : Bundle (SessionMessageEntry p) (MessagePart p) where
  parts := SessionMessageEntry.parts
  extend := SessionMessageEntry.extend
  parts_extend _ _ := rfl
  extend_nil entry := by simp [SessionMessageEntry.extend]
  extend_append entry some more := by simp [SessionMessageEntry.extend]

/-- Roots are asked for. -/
def engineRule (p : Payloads) : Rule (entryBundle p) String where
  key := SessionMessageEntry.id
  holds entry := entry.continuationOf.isNone
  asks := SessionMessageEntry.continuationOf
  key_extend _ _ := rfl
  holds_extend _ _ := rfl
  asks_extend _ _ := rfl

def edgeRule (p : Payloads) : Rule (entryBundle p) String where
  key := SessionMessageEntry.id
  holds entry := entry.truthyContinuation.isNone
  asks := SessionMessageEntry.truthyContinuation
  key_extend _ _ := rfl
  holds_extend _ _ := rfl
  asks_extend _ _ := rfl

variable (unicode) in
/-- Every entry that stays is asked for. -/
def phoneRule (p : Payloads) : Rule (entryBundle p) String where
  key entry := unicode.canonical entry.id
  holds _ := true
  asks entry := entry.continuationOf.map unicode.canonical
  key_extend _ _ := rfl
  holds_extend _ _ := rfl
  asks_extend _ _ := rfl

/-- The index has the latest group under each key. -/
def Joined.Indexed (rule : Rule (entryBundle p) String) (joined : Joined p) : Prop :=
  ∀ name, joined.rootIndex.lookup name = latest (rule.answers name) joined.out

namespace Joined.Indexed

variable {rule : Rule (entryBundle p) String} {joined : Joined p}

theorem empty : Joined.Indexed rule { out := [], rootIndex := [] } :=
  fun _ => rfl

theorem extend (indexed : joined.Indexed rule) (index : Nat) (more : List (MessagePart p)) :
    Joined.Indexed rule { joined with out := joined.out.modify index (·.extend more) } :=
  fun name => (indexed name).trans
    (latest_modify joined.out index fun group => Rule.answers_extend name group more).symm

theorem push (indexed : joined.Indexed rule) (held : rule.holds entry) :
    Joined.Indexed rule {
      out := joined.out ++ [entry]
      rootIndex := (rule.key entry, joined.out.length) :: joined.rootIndex } := by
  intro name
  simp only [latest_append_singleton, List.lookup_cons, Rule.answers, held, Bool.true_and,
    decide_eq_true_eq]
  by_cases same : rule.key entry = name
  · simp [same]
  · rw [if_neg same, beq_false_of_ne (Ne.symm same)]
    exact indexed name

theorem skip (indexed : joined.Indexed rule) (unheld : rule.holds entry = false) :
    Joined.Indexed rule { joined with out := joined.out ++ [entry] } := by
  intro name
  rw [latest_append_singleton, Rule.answers, unheld]
  exact indexed name

end Joined.Indexed

/-- One step of a reader is one step of its rule. -/
def Keeps (rule : Rule (entryBundle p) String)
    (add : Joined p → SessionMessageEntry p → Joined p) : Prop :=
  ∀ joined entry, joined.Indexed rule →
    (add joined entry).out = rule.place joined.out entry ∧ (add joined entry).Indexed rule

theorem Keeps.out_foldl {rule : Rule (entryBundle p) String}
    {add : Joined p → SessionMessageEntry p → Joined p} (keeps : Keeps rule add)
    (entries : List (SessionMessageEntry p)) :
    (entries.foldl add { out := [], rootIndex := [] }).out = rule.group [] entries ∧
      (entries.foldl add { out := [], rootIndex := [] }).Indexed rule := by
  induction entries using List.reverseRecOn with
  | nil => exact ⟨rfl, Joined.Indexed.empty⟩
  | append_singleton entries entry ih =>
      rw [List.foldl_append, Rule.group_concat, ← ih.1]
      exact keeps _ entry ih.2

theorem keeps_add : Keeps (engineRule p) Joined.add := by
  intro joined entry indexed
  cases continued : entry.continuationOf with
  | none =>
      have alone : (engineRule p).target joined.out entry = none := Rule.target_of_none continued
      have held : (engineRule p).holds entry := Option.isNone_iff_eq_none.mpr continued
      rw [Rule.place, alone, Joined.add, continued]
      exact ⟨rfl, indexed.push held⟩
  | some root =>
      have asked : (engineRule p).target joined.out entry = joined.rootIndex.lookup root :=
        (Rule.target_of_some continued).trans (indexed root).symm
      have unheld : (engineRule p).holds entry = false := by
        rw [show (engineRule p).holds entry = entry.continuationOf.isNone from rfl, continued]
        rfl
      rw [Rule.place, asked, Joined.add, continued]
      dsimp only
      cases joined.rootIndex.lookup root with
      | none => exact ⟨rfl, indexed.skip unheld⟩
      | some index => exact ⟨rfl, indexed.extend index entry.parts⟩

theorem keeps_addEdge : Keeps (edgeRule p) Joined.addEdge := by
  intro joined entry indexed
  cases continued : entry.truthyContinuation with
  | none =>
      have alone : (edgeRule p).target joined.out entry = none := Rule.target_of_none continued
      have held : (edgeRule p).holds entry := Option.isNone_iff_eq_none.mpr continued
      rw [Rule.place, alone, Joined.addEdge, continued]
      exact ⟨rfl, indexed.push held⟩
  | some root =>
      have asked : (edgeRule p).target joined.out entry = joined.rootIndex.lookup root :=
        (Rule.target_of_some continued).trans (indexed root).symm
      have unheld : (edgeRule p).holds entry = false := by
        rw [show (edgeRule p).holds entry = entry.truthyContinuation.isNone from rfl, continued]
        rfl
      rw [Rule.place, asked, Joined.addEdge, continued]
      dsimp only
      cases joined.rootIndex.lookup root with
      | none => exact ⟨rfl, indexed.skip unheld⟩
      | some index => exact ⟨rfl, indexed.extend index entry.parts⟩

theorem keeps_addPhone : Keeps (phoneRule unicode p) (Joined.addPhone unicode) := by
  intro joined entry indexed
  have asked : (phoneRule unicode p).target joined.out entry =
      entry.continuationOf.bind fun root => joined.rootIndex.lookup (unicode.canonical root) := by
    cases continued : entry.continuationOf with
    | none => exact Rule.target_of_none (by simp [phoneRule, continued])
    | some root =>
        exact (Rule.target_of_some (by simp [phoneRule, continued])).trans (indexed _).symm
  rw [Rule.place, asked, Joined.addPhone]
  cases entry.continuationOf.bind fun root => joined.rootIndex.lookup (unicode.canonical root) with
  | none => exact ⟨rfl, indexed.push rfl⟩
  | some index => exact ⟨rfl, indexed.extend index entry.parts⟩

theorem joinContinuationEntries_eq_group (entries : List (SessionMessageEntry p)) :
    joinContinuationEntries entries = (engineRule p).group [] entries := by
  rw [joinContinuationEntries_eq]
  exact (keeps_add.out_foldl entries).1

theorem phoneJoinContinuations_eq_group (entries : List (SessionMessageEntry p)) :
    phoneJoinContinuations unicode entries = (phoneRule unicode p).group [] entries :=
  (keeps_addPhone.out_foldl entries).1

/-- The early return changes nothing. -/
theorem joinContinuations_eq_group (entries : List (SessionMessageEntry p)) :
    joinContinuations entries = (edgeRule p).group [] entries := by
  unfold joinContinuations
  split
  · rename_i single
    refine (Rule.group_of_loose fun before entry after split => ?_).symm
    have alone : entry.truthyContinuation = none := by
      simp only [Bool.not_eq_true', List.any_eq_false, Bool.not_eq_true, Option.isSome_eq_false_iff,
        Option.isNone_iff_eq_none] at single
      exact single entry (by rw [split]; simp)
    exact Rule.target_of_none alone
  · exact (keeps_addEdge.out_foldl entries).1

/-! ## When they agree -/

/-- The reader of a device. -/
inductive JoinReader where
  | engine
  | edge
  | phone

variable (unicode) in
def JoinReader.join : JoinReader → List (SessionMessageEntry p) → List (SessionMessageEntry p)
  | .engine => joinContinuationEntries
  | .edge => joinContinuations
  | .phone => phoneJoinContinuations unicode

/-- The ids of the entries, and of the parts under each. -/
def idsOf (entries : List (SessionMessageEntry p)) : List (String × List String) :=
  entries.map fun entry => (entry.id, entry.parts.map MessagePart.id)

/-- No continuation has its root before it. -/
def Orphaned (entries : List (SessionMessageEntry p)) : Prop :=
  ∀ before entry after, entries = before ++ entry :: after →
    ∀ root, entry.continuationOf = some root → root ∉ rootsOf before

variable (unicode) in
/-- The readers join the entries alike. -/
structure JoinAlike (entries : List (SessionMessageEntry p)) : Prop where
  edge : idsOf (joinContinuations entries) = idsOf (joinContinuationEntries entries)
  phone : idsOf (phoneJoinContinuations unicode entries) = idsOf (joinContinuationEntries entries)
  tail : ∀ tailCount, idsOf (materializeTail entries tailCount).messages =
      idsOf (sliceLast (joinContinuationEntries entries) tailCount) ∧
    (materializeTail entries tailCount).totalMessages = (joinContinuationEntries entries).length
  parts : ∀ reader : JoinReader, ((reader.join unicode entries).flatMap fun entry => entry.parts).Perm
    (entries.flatMap fun entry => entry.parts)
  again : ∀ reader other : JoinReader,
    reader.join unicode (other.join unicode entries) = other.join unicode entries
  orphans : Orphaned entries → ∀ reader : JoinReader, reader.join unicode entries = entries

/-- The entries that stay on their own, after the roots with the ids. -/
def standingAfter : List String → List (SessionMessageEntry p) → List (SessionMessageEntry p)
  | _, [] => []
  | roots, entry :: rest =>
      match entry.continuationOf with
      | none => entry :: standingAfter (entry.id :: roots) rest
      | some root =>
          if root ∈ roots then standingAfter roots rest else entry :: standingAfter roots rest

variable (unicode) in
/-- The latest entry on its own whose id compares equal. -/
def bearer (before : List (SessionMessageEntry p)) (name : String) :
    Option (SessionMessageEntry p) :=
  ((standingAfter [] before).filter fun entry => unicode.same entry.id name).getLast?

variable (unicode) in
/-- The latest entry that bears the name which the entry continues, if any, is a root of this very
name, which is not empty; or a root has the name and the entry has no parts. -/
def Placed (before : List (SessionMessageEntry p)) (entry : SessionMessageEntry p) : Prop :=
  ∀ root, entry.continuationOf = some root → ∀ latest, bearer unicode before root = some latest →
    root ≠ "" ∧ (latest.continuationOf = none ∧ latest.id = root ∨
      entry.parts = [] ∧ root ∈ rootsOf before)

/-! ## Entries without their parts -/

/-- The entry without its parts. -/
def SessionMessageEntry.bare (entry : SessionMessageEntry p) : SessionMessageEntry p :=
  { entry with parts := [] }

theorem map_bare_modify (out : List (SessionMessageEntry p)) (index : Nat)
    (more : List (MessagePart p)) :
    (out.modify index (·.extend more)).map SessionMessageEntry.bare =
      out.map SessionMessageEntry.bare := by
  refine List.ext_getElem? fun place => ?_
  simp only [List.getElem?_map, List.getElem?_modify]
  cases out[place]? with
  | none => rfl
  | some group =>
      split <;> rfl

theorem standingAfter_append (roots : List String) (before after : List (SessionMessageEntry p)) :
    standingAfter roots (before ++ after) =
      standingAfter roots before ++ standingAfter ((rootsOf before).reverse ++ roots) after := by
  induction before generalizing roots with
  | nil => rfl
  | cons entry before ih =>
      cases continued : entry.continuationOf with
      | none =>
          simp only [List.cons_append, standingAfter, ih]
          simp [rootsOf, continued]
      | some root =>
          have same : rootsOf (entry :: before) = rootsOf before := by simp [rootsOf, continued]
          simp only [List.cons_append, standingAfter, continued, ih, same]
          split <;> rfl

variable {root : String}

theorem mem_rootsOf :
    root ∈ rootsOf before ↔ ∃ entry ∈ before, entry.continuationOf = none ∧ entry.id = root := by
  simp [rootsOf, and_assoc]

/-- The engine adds a continuation to a group if its root is among the entries before. -/
theorem isSome_target_engineRule (continued : entry.continuationOf = some root) :
    ((engineRule p).target ((engineRule p).group [] before) entry).isSome ↔
      root ∈ rootsOf before := by
  rw [Rule.target_of_some continued, mem_rootsOf]
  constructor
  · intro found
    obtain ⟨index, found⟩ := Option.isSome_iff_exists.mp found
    obtain ⟨group, stored, answers⟩ := getElem?_of_latest found
    obtain ⟨earlier, listed, more, rfl⟩ :=
      Rule.exists_of_mem_group before (List.mem_of_getElem? stored)
    rw [Rule.answers, Bool.and_eq_true, decide_eq_true_eq] at answers
    exact ⟨earlier, listed, Option.isNone_iff_eq_none.mp answers.1, answers.2⟩
  · rintro ⟨earlier, listed, alone, same⟩
    obtain ⟨more, listed⟩ := (engineRule p).exists_group_of_root before listed alone
    rw [Option.isSome_iff_ne_none]
    intro missing
    have refused := latest_eq_none_iff.mp missing _ listed
    rw [Rule.answers_extend, Rule.answers] at refused
    simp [engineRule, alone, same] at refused

/-- The groups of the engine are the entries that stay on their own. -/
theorem bare_group_engineRule (before : List (SessionMessageEntry p)) :
    ((engineRule p).group [] before).map SessionMessageEntry.bare =
      (standingAfter [] before).map SessionMessageEntry.bare := by
  induction before using List.reverseRecOn with
  | nil => rfl
  | append_singleton before entry ih =>
      rw [Rule.group_concat, standingAfter_append, List.append_nil, List.map_append, ← ih]
      cases continued : entry.continuationOf with
      | none =>
          rw [Rule.place, Rule.target_of_none continued]
          simp [standingAfter, continued]
      | some root =>
          have known := (isSome_target_engineRule continued : _ ↔ root ∈ rootsOf before)
          rw [Rule.place]
          simp only [standingAfter, continued, List.mem_reverse]
          split
          · rename_i index found
            rw [if_pos (known.mp (by rw [found]; rfl)), List.map_nil, List.append_nil]
            exact map_bare_modify _ index entry.parts
          · rename_i missing
            rw [if_neg fun listed => by simp [missing] at known; exact known listed]
            simp

variable (unicode) in
/-- The latest entry that bears a name is the group that the phone adds to. -/
theorem latest_of_bearer {out : List (SessionMessageEntry p)} (name : String)
    (same : out.map SessionMessageEntry.bare =
      (standingAfter [] before).map SessionMessageEntry.bare) :
    ((latest ((phoneRule unicode p).answers (unicode.canonical name)) out).bind
        fun index => out[index]?).map SessionMessageEntry.bare =
      (bearer unicode before name).map SessionMessageEntry.bare := by
  have passes : ∀ entries : List (SessionMessageEntry p),
      (entries.filter ((phoneRule unicode p).answers (unicode.canonical name))).map
          SessionMessageEntry.bare =
        (entries.map SessionMessageEntry.bare).filter
          ((phoneRule unicode p).answers (unicode.canonical name)) := by
    intro entries
    rw [List.filter_map]
    rfl
  have shown : ∀ entries : List (SessionMessageEntry p),
      entries.filter (fun entry => unicode.same entry.id name) =
        entries.filter ((phoneRule unicode p).answers (unicode.canonical name)) := by
    intro entries
    refine List.filter_congr fun entry _ => ?_
    exact (decide_eq_decide.mpr Iff.rfl).trans (Bool.true_and _).symm
  rw [← getLast?_filter, bearer, shown, ← List.getLast?_map, ← List.getLast?_map, passes, passes,
    same]

/-! ## Where the readers agree -/

variable (unicode) in
/-- What the engine adds to is asked for on the phone as well. -/
theorem phone_answers_of_engine (group : SessionMessageEntry p)
    (answers : (engineRule p).answers root group) :
    (phoneRule unicode p).answers (unicode.canonical root) group := by
  rw [Rule.answers, Bool.and_eq_true, decide_eq_true_eq] at answers
  rw [Rule.answers, Bool.and_eq_true, decide_eq_true_eq]
  exact ⟨rfl, congrArg unicode.canonical answers.2⟩

theorem edge_answers_imp (group : SessionMessageEntry p)
    (answers : (edgeRule p).answers root group) :
    (phoneRule unicode p).answers (unicode.canonical root) group := by
  rw [Rule.answers, Bool.and_eq_true, decide_eq_true_eq] at answers
  rw [Rule.answers, Bool.and_eq_true, decide_eq_true_eq]
  exact ⟨rfl, congrArg unicode.canonical answers.2⟩

theorem edge_answers_of_engine (group : SessionMessageEntry p)
    (answers : (engineRule p).answers root group) : (edgeRule p).answers root group := by
  rw [Rule.answers, Bool.and_eq_true] at answers ⊢
  refine ⟨?_, answers.2⟩
  have alone : group.continuationOf = none := Option.isNone_iff_eq_none.mp answers.1
  simp [edgeRule, SessionMessageEntry.truthyContinuation, alone]

theorem target_edgeRule (continued : entry.continuationOf = some root) (named : root ≠ "")
    (out : List (SessionMessageEntry p)) :
    (edgeRule p).target out entry = latest ((edgeRule p).answers root) out :=
  Rule.target_of_some (by
    simp [edgeRule, SessionMessageEntry.truthyContinuation, continued, named])

variable (unicode) in
theorem target_phoneRule (continued : entry.continuationOf = some root)
    (out : List (SessionMessageEntry p)) :
    (phoneRule unicode p).target out entry =
      latest ((phoneRule unicode p).answers (unicode.canonical root)) out :=
  Rule.target_of_some (by simp [phoneRule, continued])

/-- What bears a name among the groups of the engine. -/
theorem exists_bearer {index : Nat}
    (found : latest ((phoneRule unicode p).answers (unicode.canonical root))
      ((engineRule p).group [] before) = some index) :
    ∃ group bearing, ((engineRule p).group [] before)[index]? = some group ∧
      bearer unicode before root = some bearing ∧ group.id = bearing.id ∧
      group.continuationOf = bearing.continuationOf := by
  have shown := latest_of_bearer unicode root (bare_group_engineRule before)
  obtain ⟨group, stored, -⟩ := getElem?_of_latest found
  rw [found, Option.bind_some, stored] at shown
  obtain ⟨bearing, known, same⟩ := Option.map_eq_some_iff.mp shown.symm
  exact ⟨group, bearing, stored, known, (congrArg SessionMessageEntry.id same).symm,
    (congrArg SessionMessageEntry.continuationOf same).symm⟩

/-- A continuation that is placed goes to one place. -/
theorem place_of_placed (placed : Placed unicode before entry) :
    (edgeRule p).place ((engineRule p).group [] before) entry =
        (engineRule p).place ((engineRule p).group [] before) entry ∧
      (phoneRule unicode p).place ((engineRule p).group [] before) entry =
        (engineRule p).place ((engineRule p).group [] before) entry := by
  cases continued : entry.continuationOf with
  | none =>
      have engine : (engineRule p).target ((engineRule p).group [] before) entry = none :=
        Rule.target_of_none continued
      have edge : (edgeRule p).target ((engineRule p).group [] before) entry = none :=
        Rule.target_of_none (by simp [edgeRule, SessionMessageEntry.truthyContinuation, continued])
      have phone : (phoneRule unicode p).target ((engineRule p).group [] before) entry = none :=
        Rule.target_of_none (by simp [phoneRule, continued])
      exact ⟨Rule.place_of_target_eq (edge.trans engine.symm),
        Rule.place_of_target_eq (phone.trans engine.symm)⟩
  | some root =>
      have engine : (engineRule p).target ((engineRule p).group [] before) entry = _ :=
        Rule.target_of_some continued
      have phone := target_phoneRule unicode continued ((engineRule p).group [] before)
      cases found : latest ((phoneRule unicode p).answers (unicode.canonical root))
          ((engineRule p).group [] before) with
      | none =>
          rw [latest_none_of_finer (phone_answers_of_engine unicode) found] at engine
          rw [found] at phone
          have edge : (edgeRule p).target ((engineRule p).group [] before) entry = none := by
            by_cases named : root = ""
            · exact Rule.target_of_none (by
                simp [edgeRule, SessionMessageEntry.truthyContinuation, continued, named])
            · rw [target_edgeRule continued named, latest_none_of_finer edge_answers_imp found]
          exact ⟨Rule.place_of_target_eq (edge.trans engine.symm),
            Rule.place_of_target_eq (phone.trans engine.symm)⟩
      | some index =>
          rw [found] at phone
          obtain ⟨group, bearing, stored, known, same_id, same_root⟩ := exists_bearer found
          obtain ⟨named, ⟨alone, bears⟩ | ⟨partless, listed⟩⟩ :=
            placed root continued bearing known
          · -- The latest entry of the name is a root, and so the latest root of the name.
            have answers : (engineRule p).answers root group := by
              rw [Rule.answers, Bool.and_eq_true, decide_eq_true_eq]
              exact ⟨Option.isNone_iff_eq_none.mpr (same_root.trans alone), same_id.trans bears⟩
            rw [latest_of_finer (phone_answers_of_engine unicode) found stored answers] at engine
            have edge := target_edgeRule continued named ((engineRule p).group [] before)
            rw [latest_of_finer edge_answers_imp found stored
              (edge_answers_of_engine group answers)] at edge
            exact ⟨Rule.place_of_target_eq (edge.trans engine.symm),
              Rule.place_of_target_eq (phone.trans engine.symm)⟩
          · -- Every reader adds the entry to a group, and this shows nowhere.
            have added := (isSome_target_engineRule continued).mpr listed
            have edge : ((edgeRule p).target ((engineRule p).group [] before) entry).isSome := by
              rw [target_edgeRule continued named, Option.isSome_iff_ne_none]
              intro missing
              rw [engine, latest_none_of_finer edge_answers_of_engine missing] at added
              cases added
            rw [Rule.place_of_partless added partless, Rule.place_of_partless edge partless,
              Rule.place_of_partless (by rw [phone]; rfl) partless]
            exact ⟨rfl, rfl⟩

variable (unicode) in
/-- Every continuation is placed among the entries before it. -/
def AllPlaced (entries : List (SessionMessageEntry p)) : Prop :=
  ∀ before entry after, entries = before ++ entry :: after → Placed unicode before entry

theorem group_of_allPlaced (placed : AllPlaced unicode entries) :
    (edgeRule p).group [] entries = (engineRule p).group [] entries ∧
      (phoneRule unicode p).group [] entries = (engineRule p).group [] entries :=
  ⟨Rule.group_eq_of_place entries fun before entry after split =>
      (place_of_placed (placed before entry after split)).1,
    Rule.group_eq_of_place entries fun before entry after split =>
      (place_of_placed (placed before entry after split)).2⟩

theorem join_eq_group (placed : AllPlaced unicode entries) (reader : JoinReader) :
    reader.join unicode entries = (engineRule p).group [] entries := by
  cases reader with
  | engine => exact joinContinuationEntries_eq_group entries
  | edge => exact (joinContinuations_eq_group entries).trans (group_of_allPlaced placed).1
  | phone => exact (phoneJoinContinuations_eq_group entries).trans (group_of_allPlaced placed).2

/-- The rule of a reader. -/
def JoinReader.rule (unicode : Unicode) (p : Payloads) : JoinReader → Rule (entryBundle p) String
  | .engine => engineRule p
  | .edge => edgeRule p
  | .phone => phoneRule unicode p

theorem JoinReader.join_eq (reader : JoinReader) (entries : List (SessionMessageEntry p)) :
    reader.join unicode entries = (reader.rule unicode p).group [] entries := by
  cases reader with
  | engine => exact joinContinuationEntries_eq_group entries
  | edge => exact joinContinuations_eq_group entries
  | phone => exact phoneJoinContinuations_eq_group entries

theorem joinAlike_of_allPlaced (placed : AllPlaced unicode entries) : JoinAlike unicode entries := by
  have engine := join_eq_group placed .engine
  have edge := join_eq_group placed .edge
  have phone := join_eq_group placed .phone
  constructor
  · exact congrArg idsOf (edge.trans engine.symm)
  · exact congrArg idsOf (phone.trans engine.symm)
  · intro tailCount
    exact ⟨congrArg (fun all => idsOf (sliceLast all tailCount)) (edge.trans engine.symm),
      congrArg List.length (edge.trans engine.symm)⟩
  · intro reader
    rw [reader.join_eq]
    exact (reader.rule unicode p).group_parts entries
  · intro reader other
    rw [join_eq_group placed other, ← join_eq_group placed reader, reader.join_eq, reader.join_eq]
    exact Rule.group_group entries
  · intro orphaned reader
    rw [join_eq_group placed reader]
    refine Rule.group_of_loose fun before entry after split => ?_
    cases continued : entry.continuationOf with
    | none => exact Rule.target_of_none continued
    | some root =>
        rw [Rule.target_of_some continued, latest_eq_none_iff]
        intro group listed
        have missing := orphaned before entry after split root continued
        rw [mem_rootsOf] at missing
        by_contra answers
        rw [Bool.not_eq_false, Rule.answers, Bool.and_eq_true, decide_eq_true_eq] at answers
        exact missing ⟨group, listed, Option.isNone_iff_eq_none.mp answers.1, answers.2⟩

/-! ## Where they differ -/

theorem lengths_of_idsOf {some other : List (SessionMessageEntry p)}
    (same : idsOf some = idsOf other) :
    some.map (fun entry => ((entryBundle p).parts entry).length) =
      other.map fun entry => ((entryBundle p).parts entry).length := by
  have counted := congrArg (List.map fun shown : String × List String => shown.2.length) same
  simp only [idsOf, List.map_map] at counted
  refine Eq.trans ?_ (counted.trans ?_)
  · exact List.map_congr_left fun entry _ => by simp [entryBundle]
  · exact List.map_congr_left fun entry _ => by simp [entryBundle]

/-- What the engine adds to a group, the phone adds to one. -/
theorem phone_adds (continued : entry.continuationOf = some root) (listed : root ∈ rootsOf before) :
    ((phoneRule unicode p).target ((phoneRule unicode p).group [] before) entry).isSome := by
  obtain ⟨earlier, listed, alone, same⟩ := mem_rootsOf.mp listed
  obtain ⟨more, listed⟩ := (phoneRule unicode p).exists_group_of_root before listed
    (by simp [phoneRule, alone])
  rw [target_phoneRule unicode continued, Option.isSome_iff_ne_none]
  intro missing
  have refused := latest_eq_none_iff.mp missing _ listed
  rw [Rule.answers_extend, Rule.answers] at refused
  simp [phoneRule, same] at refused

theorem exists_latest_of_bearer {bearing : SessionMessageEntry p}
    (known : bearer unicode before root = some bearing) :
    ∃ index group, latest ((phoneRule unicode p).answers (unicode.canonical root))
        ((engineRule p).group [] before) = some index ∧
      ((engineRule p).group [] before)[index]? = some group ∧
      group.id = bearing.id ∧ group.continuationOf = bearing.continuationOf := by
  have shown := latest_of_bearer unicode root (bare_group_engineRule before)
  rw [known] at shown
  obtain ⟨group, found, same⟩ := Option.map_eq_some_iff.mp shown
  obtain ⟨index, found, stored⟩ := Option.bind_eq_some_iff.mp found
  exact ⟨index, group, found, stored, (congrArg SessionMessageEntry.id same.symm).symm,
    (congrArg SessionMessageEntry.continuationOf same.symm).symm⟩

/-- An entry that only the phone adds to a group leaves the phone with fewer entries. -/
theorem length_phone_lt {before : List (SessionMessageEntry p)}
    (after : List (SessionMessageEntry p))
    (same : (phoneRule unicode p).group [] before = (engineRule p).group [] before)
    (missing : (engineRule p).target ((engineRule p).group [] before) entry = none)
    (added : ((phoneRule unicode p).target ((engineRule p).group [] before) entry).isSome) :
    ((phoneRule unicode p).group [] (before ++ entry :: after)).length <
      ((engineRule p).group [] (before ++ entry :: after)).length := by
  have bound := (engineRule p).length_group_add_le (phoneRule unicode p)
    (before ++ [entry]) after fun front next rest split adds => by
      cases continued : next.continuationOf with
      | none =>
          rw [show (engineRule p).target _ next = none from Rule.target_of_none continued] at adds
          cases adds
      | some root => exact phone_adds continued ((isSome_target_engineRule continued).mp adds)
  rw [List.append_assoc, List.singleton_append, Rule.group_concat, Rule.group_concat,
    Rule.length_place, Rule.length_place, same, missing, added] at bound
  simp only [Option.isSome_none, Bool.false_eq_true, ↓reduceIte] at bound
  omega

/-- Nothing asks the edge for the empty id. -/
theorem edge_misses {more : List (SessionMessageEntry p)} {out : List (SessionMessageEntry p)}
    {group : SessionMessageEntry p} {index : Nat} (stored : out[index]? = some group)
    (unnamed : group.id = "") (next : SessionMessageEntry p) :
    (edgeRule p).target ((edgeRule p).group out more) next ≠ some index := by
  obtain ⟨parts, grown⟩ := (edgeRule p).group_getElem? stored
  refine Rule.target_ne_of_unasked grown ?_
  rw [(edgeRule p).key_extend]
  simp [edgeRule, SessionMessageEntry.truthyContinuation, unnamed]

/-- The phone adds nothing to an entry before another one whose id compares equal. -/
theorem phone_misses {more : List (SessionMessageEntry p)} {out : List (SessionMessageEntry p)}
    {group later : SessionMessageEntry p} {index place : Nat} (stored : out[index]? = some group)
    (after : index < place) (other : out[place]? = some later)
    (same : unicode.canonical later.id = unicode.canonical group.id)
    (next : SessionMessageEntry p) :
    (phoneRule unicode p).target ((phoneRule unicode p).group out more) next ≠ some index := by
  obtain ⟨parts, grown⟩ := (phoneRule unicode p).group_getElem? stored
  obtain ⟨others, other⟩ := (phoneRule unicode p).group_getElem? other
  exact Rule.target_ne_of_later grown after other rfl same

/-- An entry whose place differs shows in the end. -/
theorem placed_of_alike {before after : List (SessionMessageEntry p)}
    (carries : entry.continuationOf = some "" → entry.parts ≠ [])
    (placed : AllPlaced unicode before)
    (edge : idsOf ((edgeRule p).group [] (before ++ entry :: after)) =
      idsOf ((engineRule p).group [] (before ++ entry :: after)))
    (phone : idsOf ((phoneRule unicode p).group [] (before ++ entry :: after)) =
      idsOf ((engineRule p).group [] (before ++ entry :: after))) :
    Placed unicode before entry := by
  intro root continued bearing known
  obtain ⟨same_edge, same_phone⟩ := group_of_allPlaced placed
  obtain ⟨index, group, found, stored, same_id, same_root⟩ := exists_latest_of_bearer known
  have phone_target := target_phoneRule unicode continued ((engineRule p).group [] before)
  rw [found] at phone_target
  cases engine : (engineRule p).target ((engineRule p).group [] before) entry with
  | none =>
      have shorter := length_phone_lt after same_phone engine (by rw [phone_target]; rfl)
      have equal := congrArg List.length phone
      simp only [idsOf, List.length_map] at equal
      omega
  | some place =>
      have listed : root ∈ rootsOf before :=
        (isSome_target_engineRule continued).mp (by rw [engine]; rfl)
      have latest_root := engine
      rw [Rule.target_of_some continued] at latest_root
      obtain ⟨rooted, stored_root, answers⟩ := getElem?_of_latest latest_root
      have answered := phone_answers_of_engine unicode rooted answers
      rw [Rule.answers, Bool.and_eq_true, decide_eq_true_eq] at answers
      refine ⟨fun unnamed => ?_, ?_⟩
      · -- The engine adds to the root with the empty id; the edge never does.
        refine Rule.parts_ne_of_target same_edge.symm engine ?_ (carries (by rw [continued, unnamed]))
          (lengths_of_idsOf edge).symm
        intro front next rest split
        exact edge_misses (same_edge ▸ stored_root) (answers.2.trans unnamed) next
      · by_cases same : place = index
        · subst same
          obtain rfl : group = rooted := by simpa [stored] using stored_root
          exact .inl ⟨same_root ▸ Option.isNone_iff_eq_none.mp answers.1, same_id ▸ answers.2⟩
        · by_cases partless : entry.parts = []
          · exact .inr ⟨partless, listed⟩
          · -- The engine adds to the latest root, the phone to an entry after it.
            have earlier : place < index :=
              lt_of_le_of_ne (le_of_latest found stored_root answered) same
            obtain ⟨latest_group, stored_group, passes⟩ := getElem?_of_latest found
            rw [Rule.answers, Bool.and_eq_true, decide_eq_true_eq] at answered passes
            refine absurd (lengths_of_idsOf phone).symm
              (Rule.parts_ne_of_target same_phone.symm engine ?_ partless)
            intro front next rest split
            exact phone_misses (same_phone ▸ stored_root) earlier (same_phone ▸ stored_group)
              (passes.2.trans answered.2.symm) next

/-- Where the readers agree in the end, every continuation is placed. -/
theorem allPlaced_of_alike
    (carries : ∀ entry ∈ entries, entry.continuationOf = some "" → entry.parts ≠ [])
    (alike : JoinAlike unicode entries) : AllPlaced unicode entries := by
  have edge := alike.edge
  have phone := alike.phone
  rw [joinContinuations_eq_group, joinContinuationEntries_eq_group] at edge
  rw [phoneJoinContinuations_eq_group, joinContinuationEntries_eq_group] at phone
  have all : ∀ before after, entries = before ++ after → AllPlaced unicode before := by
    intro before
    induction before using List.reverseRecOn with
    | nil => exact fun _ _ before entry after split => by simp at split
    | append_singleton before last ih =>
        intro after split front entry rest inside
        rw [List.append_assoc] at split
        have placed := ih (last :: after) split
        induction rest using List.reverseRecOn with
        | nil =>
            obtain ⟨rfl, same⟩ := List.append_inj' inside rfl
            obtain rfl := List.singleton_inj.mp same
            rw [split] at edge phone
            exact placed_of_alike (carries _ (by rw [split]; simp)) placed edge phone
        | append_singleton rest final _ =>
            rw [← List.cons_append, ← List.append_assoc] at inside
            exact placed front entry rest (List.append_inj' inside rfl).1
  exact all entries [] (List.append_nil _).symm

/-- Every reader joins the entries alike where the latest entry on its own that bears the name of
a continuation is a root of this name.  Continuations of the empty id without parts apart, they
do nowhere else. -/
theorem readers_join_alike_iff (unicode : Unicode) (entries : List (SessionMessageEntry p)) :
    (AllPlaced unicode entries → JoinAlike unicode entries) ∧
      ((∀ entry ∈ entries, entry.continuationOf = some "" → entry.parts ≠ []) →
        JoinAlike unicode entries → AllPlaced unicode entries) :=
  ⟨joinAlike_of_allPlaced, allPlaced_of_alike⟩

/-- A continuation of an orphaned continuation stays on its own on the engine and the edge, and is
added to the orphan on the phone. -/
theorem orphan_of_orphan_joins_on_phone :
    ¬ @JoinAlike units Unicode.ascii [
      ⟨"b", .assistant, [.text "p" ""], 0, "d", none, some "a"⟩,
      ⟨"c", .assistant, [.text "q" ""], 0, "d", none, some "b"⟩] :=
  fun alike => absurd alike.phone (by decide)

end Zeron.Transcript.Stream
