import Zeron.Threads.Background
import Zeron.Threads.Items

/-!
# The order of the transcript

A transcript is read in the order of its ordinals.  The two rules that number items
agree while the ordinals have no gap, and an item that is numbered again under its old
id leaves one.
-/

namespace Zeron.Threads

open Data

/-- What a command or an event of the runner puts into the transcript. -/
inductive ItemStep where
  /-- The history of an adopted chat. -/
  | adopted (messages : List Message)
  /-- Send, to a run that it starts or steers. -/
  | sent (run : Run) (message : Message)
  /-- A queued message or an answer that steers the run. -/
  | promoted (run : Run) (message : Message)
  | asked (run : Run) (requestId : String)
  | delegated (run : Run) (itemId taskId : String)
  | threadCreated (commandId runId : String)
  /-- Interrupt, with the result if no turn has been accepted. -/
  | interrupted (run : Run) (unaccepted : Bool)
  /-- The acceptance of a run's input. -/
  | accepted (run : Run) (message : Message)
  /-- Text of the assistant. -/
  | said (message : Message)
  /-- The end of a turn, which may accept the input and may bring an error. -/
  | done (run : Run) (input : Option Message) (message : Message) (failed : Bool)
  /-- Background work that is stopped, with its own items. -/
  | stopped (run : Run) (effectId : String) (which : TurnItem → Bool)
  /-- Items that are written again: an edit, an answer, the result of a task. -/
  | rewritten (which : TurnItem → Bool) (status : String)

/-- Items with another status. -/
def withStatus (items : Table TurnItem.id) (which : TurnItem → Bool) (status : String) :
    List TurnItem :=
  (items.rows.filter which).map fun item => { item with status }

/-- The end of a turn: each item is numbered after the ones before it. -/
def doneItems (items : Table TurnItem.id) (run : Run) (input : Option Message) (message : Message)
    (failed : Bool) : List TurnItem :=
  let first := (input.map (acceptedItem items run [])).toList
  let second := first ++ [assistantItem items (first.map .turnItemUpdated) message]
  if failed then second ++ [errorItem items run (second.map .turnItemUpdated)] else second

/-- The items of a step's plan. -/
def ItemStep.plan (items : Table TurnItem.id) : ItemStep → List TurnItem
  | adopted messages => messages.mapIdx legacyItem
  | sent run message => [userItem items run message]
  | promoted run message => [steerItem items run message]
  | asked run requestId => [questionItem items run requestId]
  | delegated run itemId taskId => [taskItem items run itemId taskId]
  | threadCreated commandId runId => [threadItem items commandId runId]
  | interrupted run unaccepted =>
      interruptItem items run :: if unaccepted then [interruptedItem items run] else []
  | accepted run message => [acceptedItem items run [] message]
  | said message => [assistantItem items [] message]
  | done run input message failed => doneItems items run input message failed
  | stopped run effectId which =>
      let ended := withStatus items which "interrupted"
      ended ++ [stoppedItem items run (ended.map .turnItemUpdated) effectId]
  | rewritten which status => withStatus items which status

/-- The items, and their ids in the order of creation. -/
structure Transcript where
  items : Table TurnItem.id
  created : List String

namespace Transcript

def empty : Transcript :=
  { items := Table.empty, created := [] }

/-- An item is created once, and may be written again. -/
def write (t : Transcript) (item : TurnItem) : Transcript :=
  { items := t.items.touch item
    created := if (t.items.get item.id).isSome then t.created else t.created ++ [item.id] }

def writeAll (t : Transcript) (plan : List TurnItem) : Transcript :=
  plan.foldl write t

def run (t : Transcript) (steps : List ItemStep) : Transcript :=
  steps.foldl (fun t step => t.writeAll (step.plan t.items)) t

/-- The timeline's key. -/
def readKey (item : TurnItem) : Int ×ₗ String :=
  toLex (item.ordinal, item.id)

/-- The transcript is read in the order of creation, and no two items share an ordinal. -/
structure InOrder (t : Transcript) : Prop where
  read : (sortBy readKey t.items.rows).map TurnItem.id = t.created
  distinct : (t.items.rows.map TurnItem.ordinal).Nodup

/-- Every item that a plan creates comes after all that are there when it is written. -/
def Appends (t : Transcript) (plan : List TurnItem) : Prop :=
  ∀ before item after, plan = before ++ item :: after →
    (t.writeAll before).items.get item.id = none →
      ∀ stored ∈ (t.writeAll before).items.rows, stored.ordinal < item.ordinal

end Transcript

/-- What a step numbers anew is not in the transcript. -/
def ItemStep.Fresh (items : Table TurnItem.id) : ItemStep → Prop
  | adopted messages => items.rows = [] ∧ (messages.map Message.id).Nodup
  | sent run message => items.get (userItem items run message).id = none
  | promoted run message => items.get (steerItem items run message).id = none
  | asked run requestId => items.get (questionItem items run requestId).id = none
  | delegated _ itemId _ => items.get itemId = none
  | threadCreated commandId runId => items.get (threadItem items commandId runId).id = none
  | interrupted run unaccepted => items.get (interruptItem items run).id = none ∧
      (unaccepted = true → items.get (interruptedItem items run).id = none)
  | accepted run message => (items.rows.any fun item =>
      item.type == "user_message" && decide (item.messageId = some message.id)) = true ∨
        items.get (userItem items run message).id = none
  | said _ => True
  | done run input _ failed =>
      (∀ message ∈ input, (items.rows.any fun item =>
        item.type == "user_message" && decide (item.messageId = some message.id)) = true ∨
          items.get (userItem items run message).id = none) ∧
        (failed = true → items.get (errorItem items run []).id = none)
  | stopped run effectId _ => items.get (stoppedItem items run [] effectId).id = none
  | rewritten _ _ => True

namespace Transcript

variable {t : Transcript} {item : TurnItem} {plan : List TurnItem}

/-! ## Ordinals without a gap -/

/-- The ordinal of an item is its place among the created ones. -/
structure Dense (t : Transcript) : Prop where
  names : ∀ id, (t.items.get id).isSome = true ↔ id ∈ t.created
  distinct : t.created.Nodup
  place : ∀ item ∈ t.items.rows, ∃ index : Nat, t.created[index]? = some item.id ∧
    item.ordinal = index + 1

/-- The item is the next one, or it is there with its ordinal. -/
def Fits (t : Transcript) (item : TurnItem) : Prop :=
  (t.items.get item.id = none ∧ item.ordinal = t.created.length + 1) ∨
    ∃ old, t.items.get item.id = some old ∧ old.ordinal = item.ordinal

def FitsAll : Transcript → List TurnItem → Prop
  | _, [] => True
  | t, item :: plan => t.Fits item ∧ FitsAll (t.write item) plan

theorem dense_empty : Dense empty := by
  constructor
  · intro id
    exact iff_of_false Bool.false_ne_true List.not_mem_nil
  · exact List.nodup_nil
  · intro item stored
    cases stored

theorem Dense.write (dense : t.Dense) (fits : t.Fits item) : (t.write item).Dense := by
  rcases fits with ⟨absent, next⟩ | ⟨old, found, same⟩
  · have new : item.id ∉ t.created := by
      rw [← dense.names, absent]
      exact Bool.false_ne_true
    have created_eq : (t.write item).created = t.created ++ [item.id] := by
      rw [Transcript.write, absent]
      rfl
    constructor
    · intro id
      rw [created_eq, List.mem_append, List.mem_singleton, ← dense.names]
      rw [show (t.write item).items = t.items.touch item from rfl, Table.get_touch]
      split_ifs with same
      · exact iff_of_true rfl (.inr same.symm)
      · exact ⟨.inl, fun either => either.resolve_right (Ne.symm same)⟩
    · rw [created_eq]
      exact List.nodup_append.mpr ⟨dense.distinct, List.nodup_singleton _, by
        rintro id listed other single rfl
        rw [List.mem_singleton] at single
        exact new (single ▸ listed)⟩
    · intro other stored
      rcases Table.mem_touch_iff.mp stored with rfl | ⟨before, _⟩
      · refine ⟨t.created.length, ?_, next⟩
        rw [created_eq, List.getElem?_concat_length]
      · rcases dense.place other before with ⟨index, placed, ordinal⟩
        refine ⟨index, ?_, ordinal⟩
        rw [created_eq, List.getElem?_append_left (List.getElem?_eq_some_iff.mp placed).1, placed]
  · have created_eq : (t.write item).created = t.created := by
      rw [Transcript.write, found]
      rfl
    constructor
    · intro id
      rw [created_eq, ← dense.names]
      rw [show (t.write item).items = t.items.touch item from rfl, Table.get_touch]
      split_ifs with same_id
      · rw [← same_id, found]
        exact iff_of_true rfl rfl
      · exact Iff.rfl
    · rw [created_eq]
      exact dense.distinct
    · intro other stored
      rw [created_eq]
      rcases Table.mem_touch_iff.mp stored with rfl | ⟨before, _⟩
      · rcases dense.place old (Table.mem_of_get found) with ⟨index, placed, ordinal⟩
        refine ⟨index, ?_, same ▸ ordinal⟩
        rw [placed, show old.id = other.id from Table.key_of_get found]
      · exact dense.place other before

theorem Dense.writeAll (dense : t.Dense) (fits : t.FitsAll plan) : (t.writeAll plan).Dense := by
  induction plan generalizing t with
  | nil => exact dense
  | cons item plan ih => exact ih (dense.write fits.1) fits.2

theorem FitsAll.append {first second : List TurnItem} (before : t.FitsAll first)
    (after : (t.writeAll first).FitsAll second) : t.FitsAll (first ++ second) := by
  induction first generalizing t with
  | nil => exact after
  | cons item first ih => exact ⟨before.1, ih before.2 after⟩

theorem FitsAll.of_append {first second : List TurnItem} (fits : t.FitsAll (first ++ second)) :
    t.FitsAll first ∧ (t.writeAll first).FitsAll second := by
  induction first generalizing t with
  | nil => exact ⟨trivial, fits⟩
  | cons item first ih => exact ⟨⟨fits.1, (ih fits.2).1⟩, (ih fits.2).2⟩

/-- The items, in the order in which they were created. -/
theorem Dense.perm (dense : t.Dense) : (t.items.rows.map TurnItem.id).Perm t.created := by
  apply (List.perm_ext_iff_of_nodup t.items.distinct dense.distinct).mpr
  intro id
  rw [← dense.names, Option.isSome_iff_exists, List.mem_map]
  apply exists_congr
  intro item
  rw [Table.get_eq_some_iff]

theorem Dense.length (dense : t.Dense) : t.items.rows.length = t.created.length := by
  rw [← dense.perm.length_eq, List.length_map]

theorem Dense.le (dense : t.Dense) (stored : item ∈ t.items.rows) :
    item.ordinal ≤ t.created.length := by
  rcases dense.place item stored with ⟨index, placed, ordinal⟩
  have inside := (List.getElem?_eq_some_iff.mp placed).1
  omega

variable {id : String}

theorem Dense.item_at (dense : t.Dense) {index : Nat} (placed : t.created[index]? = some id) :
    ∃ item, t.items.get id = some item ∧ item.ordinal = index + 1 := by
  have named := (dense.names id).mpr (List.mem_of_getElem? placed)
  rcases Option.isSome_iff_exists.mp named with ⟨item, found⟩
  refine ⟨item, found, ?_⟩
  rcases dense.place item (Table.mem_of_get found) with ⟨other, other_placed, ordinal⟩
  rw [show item.id = id from Table.key_of_get found, ← placed] at other_placed
  have inside := (List.getElem?_eq_some_iff.mp placed).1
  rw [(List.getElem?_inj inside dense.distinct).mp other_placed.symm]
  exact ordinal

/-- Both rules number alike. -/
theorem Dense.lastOrdinal (dense : t.Dense) : lastOrdinal t.items = t.created.length := by
  rw [Threads.lastOrdinal]
  cases largest : (t.items.rows.map TurnItem.ordinal).max? with
  | none =>
      rw [List.max?_eq_none_iff, List.map_eq_nil_iff] at largest
      rw [← dense.length, largest]
      rfl
  | some ordinal =>
      rcases List.max?_eq_some_iff.mp largest with ⟨listed, above⟩
      rcases List.mem_map.mp listed with ⟨item, stored, rfl⟩
      apply le_antisymm (dense.le stored)
      have some_row : 0 < t.created.length := by
        rw [← dense.length]
        exact List.length_pos_of_mem stored
      have last : ∃ id, t.created[t.created.length - 1]? = some id :=
        ⟨_, List.getElem?_eq_getElem (by omega)⟩
      rcases last with ⟨id, last⟩
      rcases dense.item_at last with ⟨other, found, ordinal⟩
      have below := above other.ordinal (List.mem_map_of_mem (Table.mem_of_get found))
      omega

/-- The rule that looks at the plan counts what the plan has created. -/
theorem Dense.nextItemOrdinal (dense : t.Dense) (fits : t.FitsAll plan) :
    nextItemOrdinal t.items (plan.map .turnItemUpdated) = (t.writeAll plan).created.length + 1 := by
  have fold : ∀ {t : Transcript} {plan : List TurnItem}, t.Dense → t.FitsAll plan →
      ((plan.map Event.turnItemUpdated).filterMap Event.itemOrdinal).foldl max
        (t.created.length : Int) = (t.writeAll plan).created.length := by
    intro t plan dense fits
    induction plan generalizing t with
    | nil => rfl
    | cons item plan ih =>
        have brought : Event.itemOrdinal (.turnItemUpdated item) = some item.ordinal := rfl
        rw [List.map_cons, List.filterMap_cons_some brought, List.foldl_cons]
        have next : max (t.created.length : Int) item.ordinal = (t.write item).created.length := by
          rw [Transcript.write]
          rcases fits.1 with ⟨absent, ordinal⟩ | ⟨old, found, same⟩
          · rw [absent, Option.isSome_none, if_neg Bool.false_ne_true, List.length_append,
              List.length_singleton]
            omega
          · rw [found, ← same]
            exact max_eq_left (dense.le (Table.mem_of_get found))
        rw [next]
        exact ih (dense.write fits.1) fits.2
  rw [Threads.nextItemOrdinal, dense.lastOrdinal, fold dense fits]

theorem fits_of_new (absent : t.items.get item.id = none)
    (next : item.ordinal = t.created.length + 1) : t.Fits item :=
  .inl ⟨absent, next⟩

theorem fitsAll_singleton (fits : t.Fits item) : t.FitsAll [item] :=
  ⟨fits, trivial⟩

/-! ## What the transcript shows -/

theorem ids_filterMap_get {ids : List String}
    (stored : ∀ id ∈ ids, (t.items.get id).isSome = true) :
    (ids.filterMap t.items.get).map TurnItem.id = ids := by
  induction ids with
  | nil => rfl
  | cons id ids ih =>
      rcases Option.isSome_iff_exists.mp (stored id List.mem_cons_self) with ⟨item, found⟩
      rw [List.filterMap_cons_some found, List.map_cons, show item.id = id from Table.key_of_get found,
        ih fun other listed => stored other (List.mem_cons_of_mem _ listed)]

/-- The timeline reads the items in the order of their creation. -/
theorem Dense.sortBy_eq (dense : t.Dense) :
    sortBy readKey t.items.rows = t.created.filterMap t.items.get := by
  have ids := ids_filterMap_get (t := t) fun id => (dense.names id).mpr
  apply sortBy_eq_of_perm
  · apply (List.perm_ext_iff_of_nodup ?_ (List.Nodup.of_map _ t.items.distinct)).mpr
    · intro item
      rw [List.mem_filterMap]
      constructor
      · rintro ⟨id, _, found⟩
        exact Table.mem_of_get found
      · intro stored
        have found := Table.get_of_mem stored
        refine ⟨item.id, (dense.names item.id).mp ?_, found⟩
        rw [found]
        rfl
    · apply List.Nodup.of_map TurnItem.id
      rw [ids]
      exact dense.distinct
  · rw [List.pairwise_iff_getElem]
    intro first second first_inside second_inside before
    have ordinal_at : ∀ (index : Nat) (item : TurnItem),
        (t.created.filterMap t.items.get)[index]? = some item → item.ordinal = index + 1 := by
      intro index item listed
      have named : t.created[index]? = some item.id := by
        rw [← ids, List.getElem?_map, listed]
        rfl
      rcases dense.item_at named with ⟨other, found, ordinal⟩
      have stored : item ∈ t.items.rows := by
        rcases List.mem_filterMap.mp (List.mem_of_getElem? listed) with ⟨_, _, item_found⟩
        exact Table.mem_of_get item_found
      rw [Table.get_of_mem stored] at found
      cases found
      exact ordinal
    apply Prod.Lex.lt_iff.mpr
    left
    have first_ordinal := ordinal_at first _ (List.getElem?_eq_getElem first_inside)
    have second_ordinal := ordinal_at second _ (List.getElem?_eq_getElem second_inside)
    change TurnItem.ordinal _ < TurnItem.ordinal _
    omega

/-- Without gaps, the transcript is read as it was created. -/
theorem Dense.inOrder (dense : t.Dense) : t.InOrder := by
  have ordinals : ∀ first ∈ t.items.rows, ∀ second ∈ t.items.rows,
      first.ordinal = second.ordinal → first = second := by
    intro first first_stored second second_stored same
    rcases dense.place first first_stored with ⟨index, placed, ordinal⟩
    rcases dense.place second second_stored with ⟨other, other_placed, other_ordinal⟩
    have index_eq : index = other := by omega
    rw [index_eq, other_placed] at placed
    exact t.items.eq_of_mem first_stored second_stored (Option.some.inj placed).symm
  constructor
  · rw [dense.sortBy_eq]
    exact ids_filterMap_get fun id => (dense.names id).mpr
  · exact List.Nodup.map_on ordinals (List.Nodup.of_map _ t.items.distinct)

theorem Dense.appends (dense : t.Dense) (fits : t.FitsAll plan) : t.Appends plan := by
  intro before item after same absent stored listed
  rw [same] at fits
  have first := fits.of_append
  have below := (dense.writeAll first.1).le listed
  rcases first.2.1 with ⟨_, next⟩ | ⟨old, found, _⟩
  · omega
  · rw [absent] at found
    cases found

/-! ## What the planners write -/

theorem items_writeAll (t : Transcript) (plan : List TurnItem) :
    (t.writeAll plan).items = t.items.touchAll plan := by
  induction plan generalizing t with
  | nil => rfl
  | cons item plan ih => exact ih (t.write item)

theorem get_writeAll_of_notMem (absent : id ∉ plan.map TurnItem.id) :
    (t.writeAll plan).items.get id = t.items.get id := by
  rw [items_writeAll, Table.get_touchAll_of_notMem absent]

/-- What is written again keeps its ordinal, so it stays what it was for the rest of a plan. -/
theorem Fits.kept (fits : t.Fits item) {old : TurnItem} (found : t.items.get id = some old) :
    ∃ now, (t.write item).items.get id = some now ∧ now.ordinal = old.ordinal := by
  rw [show (t.write item).items = t.items.touch item from rfl, Table.get_touch]
  split_ifs with same
  · rcases fits with ⟨absent, _⟩ | ⟨before, before_found, ordinal⟩
    · rw [same, found] at absent
      cases absent
    · rw [same, found] at before_found
      cases before_found
      exact ⟨item, rfl, ordinal.symm⟩
  · exact ⟨old, found, rfl⟩

theorem FitsAll.kept (fits : t.FitsAll plan) {old : TurnItem} (found : t.items.get id = some old) :
    ∃ now, (t.writeAll plan).items.get id = some now ∧ now.ordinal = old.ordinal := by
  induction plan generalizing t old with
  | nil => exact ⟨old, found, rfl⟩
  | cons item plan ih =>
      rcases fits.1.kept found with ⟨middle, middle_found, same⟩
      rcases ih fits.2 middle_found with ⟨now, now_found, ordinal⟩
      exact ⟨now, now_found, ordinal.trans same⟩

theorem fitsAll_of_stored (stored : ∀ item ∈ plan, ∃ old, t.items.get item.id = some old ∧
    old.ordinal = item.ordinal) : t.FitsAll plan := by
  induction plan generalizing t with
  | nil => exact trivial
  | cons item plan ih =>
      have fits : t.Fits item := .inr (stored item List.mem_cons_self)
      refine ⟨fits, ih fun other listed => ?_⟩
      rcases stored other (List.mem_cons_of_mem _ listed) with ⟨old, found, ordinal⟩
      rcases fits.kept found with ⟨now, now_found, same⟩
      exact ⟨now, now_found, same.trans ordinal⟩

theorem fitsAll_withStatus (t : Transcript) (which : TurnItem → Bool) (status : String) :
    t.FitsAll (withStatus t.items which status) := by
  apply fitsAll_of_stored
  intro item listed
  rcases List.mem_map.mp listed with ⟨old, picked, rfl⟩
  exact ⟨old, Table.get_of_mem (List.mem_filter.mp picked).1, rfl⟩

theorem fits_acceptedItem (dense : t.Dense) (run : Run) {message : Message}
    (fresh : (t.items.rows.any fun item =>
      item.type == "user_message" && decide (item.messageId = some message.id)) = true ∨
        t.items.get (userItem t.items run message).id = none) :
    t.Fits (acceptedItem t.items run [] message) := by
  rw [acceptedItem]
  split
  · rename_i item found
    exact .inr ⟨item, Table.get_of_mem (List.mem_of_find?_eq_some found), rfl⟩
  · rename_i unfound
    rcases fresh with present | absent
    · rcases List.any_eq_true.mp present with ⟨item, stored, picked⟩
      exact absurd picked (List.find?_eq_none.mp unfound item stored)
    · exact .inl ⟨absent, dense.nextItemOrdinal (show t.FitsAll [] from trivial)⟩

/-- The id of an accepted message's item is stored, or begins as a user's. -/
theorem id_acceptedItem (t : Transcript) (run : Run) (message : Message) :
    (t.items.get (acceptedItem t.items run [] message).id).isSome = true ∨
      (acceptedItem t.items run [] message).id = (userItem t.items run message).id := by
  rw [acceptedItem]
  split
  · rename_i item found
    left
    rw [Table.get_of_mem (List.mem_of_find?_eq_some found)]
    rfl
  · exact .inr rfl

theorem fits_assistantItem (dense : t.Dense) (fits : t.FitsAll plan) (message : Message)
    (apart : t.items.get (assistantItem t.items [] message).id = none →
      (assistantItem t.items [] message).id ∉ plan.map TurnItem.id) :
    (t.writeAll plan).Fits (assistantItem t.items (plan.map .turnItemUpdated) message) := by
  have id_eq : (assistantItem t.items (plan.map .turnItemUpdated) message).id =
      (assistantItem t.items [] message).id := rfl
  have ordinal_eq : (assistantItem t.items (plan.map .turnItemUpdated) message).ordinal =
      ((t.items.get (assistantItem t.items [] message).id).map TurnItem.ordinal).getD
        (nextItemOrdinal t.items (plan.map .turnItemUpdated)) := rfl
  cases found : t.items.get (assistantItem t.items [] message).id with
  | none =>
      refine .inl ⟨?_, ?_⟩
      · rw [id_eq, get_writeAll_of_notMem (apart found), found]
      · rw [ordinal_eq, found]
        exact dense.nextItemOrdinal fits
  | some old =>
      rcases fits.kept found with ⟨now, now_found, ordinal⟩
      refine .inr ⟨now, now_found, ordinal.trans ?_⟩
      rw [ordinal_eq, found]
      rfl

/-- The items of one turn begin with different names. -/
theorem userItem_ne_assistantItem (items : Table TurnItem.id) (run : Run)
    (message other : Message) :
    (userItem items run message).id ≠ (assistantItem items [] other).id :=
  Orchestration.append_ne_append 11 (by decide) (by decide) (by decide) _ _

theorem userItem_ne_errorItem (items : Table TurnItem.id) (run : Run) (message : Message) :
    (userItem items run message).id ≠ (errorItem items run []).id :=
  Orchestration.append_ne_append 11 (by decide) (by decide) (by decide) _ _

theorem assistantItem_ne_errorItem (items : Table TurnItem.id) (run : Run) (message : Message) :
    (assistantItem items [] message).id ≠ (errorItem items run []).id :=
  Orchestration.append_ne_append 11 (by decide) (by decide) (by decide) _ _

theorem fitsAll_doneItems (dense : t.Dense) (run : Run) (input : Option Message)
    (message : Message) (failed : Bool)
    (fresh : ItemStep.Fresh t.items (.done run input message failed)) :
    t.FitsAll (doneItems t.items run input message failed) := by
  let first := (input.map (acceptedItem t.items run [])).toList
  have first_fits : t.FitsAll first := by
    cases input with
    | none => exact trivial
    | some message => exact fitsAll_singleton (fits_acceptedItem dense run (fresh.1 message rfl))
  have first_ids : ∀ id ∈ first.map TurnItem.id, (t.items.get id).isSome = true ∨
      ∃ other, id = (userItem t.items run other).id := by
    intro id listed
    rcases List.mem_map.mp listed with ⟨item, item_listed, rfl⟩
    rcases Option.map_eq_some_iff.mp (Option.mem_toList.mp item_listed) with ⟨other, _, rfl⟩
    exact (id_acceptedItem t run other).imp_right fun same => ⟨other, same⟩
  have assistant_fits := fits_assistantItem dense first_fits message (by
    intro absent listed
    rcases first_ids _ listed with stored | ⟨other, same⟩
    · rw [absent] at stored
      cases stored
    · exact userItem_ne_assistantItem t.items run other message same.symm)
  let second := first ++ [assistantItem t.items (first.map .turnItemUpdated) message]
  have second_fits : t.FitsAll second := first_fits.append (fitsAll_singleton assistant_fits)
  rw [doneItems]
  split_ifs with error
  · refine second_fits.append (fitsAll_singleton (.inl ⟨?_, dense.nextItemOrdinal second_fits⟩))
    have absent := fresh.2 error
    rw [get_writeAll_of_notMem]
    · exact absent
    · intro listed
      have own : (errorItem t.items run []).id ∈ second.map TurnItem.id := listed
      rw [List.map_append, List.mem_append] at own
      rcases own with before | assistant
      · rcases first_ids _ before with stored | ⟨other, same⟩
        · rw [absent] at stored
          cases stored
        · exact userItem_ne_errorItem t.items run other same.symm
      · exact assistantItem_ne_errorItem t.items run message (List.mem_singleton.mp assistant).symm
  · exact second_fits

/-- An adopted history is numbered from the first message on. -/
theorem fitsAll_legacy (messages : List Message) (distinct : (messages.map Message.id).Nodup)
    (absent : ∀ message ∈ messages, t.items.get (legacyItem 0 message).id = none) :
    t.FitsAll (messages.mapIdx fun index message =>
      legacyItem (index + t.created.length) message) := by
  induction messages generalizing t with
  | nil => exact trivial
  | cons message messages ih =>
      rw [List.map_cons, List.nodup_cons] at distinct
      have first : t.items.get (legacyItem (0 + t.created.length) message).id = none :=
        absent message List.mem_cons_self
      rw [List.mapIdx_cons]
      refine ⟨.inl ⟨first, ?_⟩, ?_⟩
      · rw [legacyItem, plainItem, Nat.zero_add]
      · have created : (t.write (legacyItem (0 + t.created.length) message)).created.length =
            t.created.length + 1 := by
          rw [Transcript.write, first]
          exact List.length_append
        have rest := ih (t := t.write (legacyItem (0 + t.created.length) message)) distinct.2 (by
          intro other listed
          rw [show (t.write _).items = t.items.touch _ from rfl, Table.get_touch, if_neg]
          · exact absent other (List.mem_cons_of_mem _ listed)
          · intro same
            have ids := Orchestration.encodeComponent_injective
              (String.append_right_inj "turn-item:legacy:" |>.mp same)
            exact distinct.1 (ids ▸ List.mem_map_of_mem listed))
        rw [created] at rest
        simpa only [Nat.add_assoc, Nat.add_comm 1] using rest

theorem fitsAll_adopted (dense : t.Dense) {messages : List Message}
    (fresh : ItemStep.Fresh t.items (.adopted messages)) :
    t.FitsAll (messages.mapIdx legacyItem) := by
  have nothing : t.created.length = 0 := by
    rw [← dense.length, fresh.1]
    rfl
  have fits := fitsAll_legacy messages fresh.2 (t := t) (by
    intro message _
    rw [Table.get, fresh.1]
    rfl)
  rw [nothing] at fits
  exact fits

/-- A step that numbers nothing anew that is there keeps the ordinals without a gap. -/
theorem fitsAll_plan (dense : t.Dense) {step : ItemStep} (fresh : step.Fresh t.items) :
    t.FitsAll (step.plan t.items) := by
  have last : Threads.lastOrdinal t.items + 1 = t.created.length + 1 := by rw [dense.lastOrdinal]
  have count : (t.items.rows.length : Int) + 1 = t.created.length + 1 := by rw [dense.length]
  cases step
  case adopted messages => exact fitsAll_adopted dense fresh
  case sent run message => exact fitsAll_singleton (fits_of_new fresh last)
  case promoted run message => exact fitsAll_singleton (fits_of_new fresh last)
  case asked run requestId => exact fitsAll_singleton (fits_of_new fresh count)
  case delegated run itemId taskId => exact fitsAll_singleton (fits_of_new fresh count)
  case threadCreated commandId runId => exact fitsAll_singleton (fits_of_new fresh last)
  case interrupted run unaccepted =>
    have first : t.Fits (interruptItem t.items run) := fits_of_new fresh.1 last
    cases unaccepted with
    | false => exact ⟨first, trivial⟩
    | true =>
        refine ⟨first, .inl ⟨?_, ?_⟩, trivial⟩
        · rw [show (t.write _).items = t.items.touch _ from rfl, Table.get_touch, if_neg]
          · exact fresh.2 rfl
          · intro same
            exact absurd (String.append_right_inj _ |>.mp same) (by decide)
        · have created : (t.write (interruptItem t.items run)).created =
              t.created ++ [(interruptItem t.items run).id] := by
            rw [Transcript.write, fresh.1]
            rfl
          rw [created, List.length_append, List.length_singleton]
          rw [show (interruptedItem t.items run).ordinal =
            Threads.lastOrdinal t.items + 1 + 1 from rfl]
          omega
  case accepted run message => exact fitsAll_singleton (fits_acceptedItem dense run fresh)
  case said message =>
    exact fitsAll_singleton (fits_assistantItem dense (show t.FitsAll [] from trivial) message
      fun _ => List.not_mem_nil)
  case done run input message failed => exact fitsAll_doneItems dense run input message failed fresh
  case stopped run effectId which =>
    have ended := fitsAll_withStatus t which "interrupted"
    refine ended.append (fitsAll_singleton (.inl ⟨?_, dense.nextItemOrdinal ended⟩))
    rw [get_writeAll_of_notMem]
    · exact fresh
    · intro listed
      rcases List.mem_map.mp listed with ⟨item, item_listed, same⟩
      rcases List.mem_map.mp item_listed with ⟨old, picked, rfl⟩
      have found := Table.get_of_mem (List.mem_filter.mp picked).1
      rw [show old.id = (stoppedItem t.items run [] effectId).id from same,
        show t.items.get _ = none from fresh] at found
      cases found
  case rewritten which status => exact fitsAll_withStatus t which status

/-! ## Runs -/

/-- Every step numbers only what is new. -/
def FreshAll : Transcript → List ItemStep → Prop
  | _, [] => True
  | t, step :: steps => step.Fresh t.items ∧ FreshAll (t.writeAll (step.plan t.items)) steps

theorem run_append (t : Transcript) (first second : List ItemStep) :
    t.run (first ++ second) = (t.run first).run second :=
  List.foldl_append

theorem Dense.run {steps : List ItemStep} (dense : t.Dense) (fresh : t.FreshAll steps) :
    (t.run steps).Dense := by
  induction steps generalizing t with
  | nil => exact dense
  | cons step steps ih => exact ih (dense.writeAll (fitsAll_plan dense fresh.1)) fresh.2

theorem FreshAll.of_append {before after : List ItemStep} (fresh : t.FreshAll (before ++ after)) :
    t.FreshAll before ∧ (t.run before).FreshAll after := by
  induction before generalizing t with
  | nil => exact ⟨trivial, fresh⟩
  | cons step before ih => exact ⟨⟨fresh.1, (ih fresh.2).1⟩, (ih fresh.2).2⟩

/-- While no item is numbered again under an old id, every item that is created comes
last, and the transcript is read in the order of creation. -/
theorem run_in_order {steps : List ItemStep} (fresh : empty.FreshAll steps) :
    (∀ count, (empty.run (steps.take count)).InOrder) ∧
      ∀ before step after, steps = before ++ step :: after →
        (empty.run before).Appends (step.plan (empty.run before).items) := by
  constructor
  · intro count
    rw [← List.take_append_drop count steps] at fresh
    exact (dense_empty.run fresh.of_append.1).inOrder
  · rintro before step after rfl
    rcases fresh.of_append with ⟨first, second⟩
    have dense := dense_empty.run first
    exact dense.appends (fitsAll_plan dense second.1)

/-- The message of a run that is sent. -/
def hello : Message :=
  newMessage (some "run:1") (some "node:1") "message-1" "hello" "user" 1

theorem id_interruptItem_ended (items : Table TurnItem.id) :
    (interruptItem items ThreadProjection.ended).id =
      "turn-item:run%3A1:interrupt-request" := by
  change "turn-item:" ++ Orchestration.encodeComponent "run:1" ++ ":interrupt-request" = _
  decide +kernel

theorem freshAll_interrupt :
    empty.FreshAll [.sent ThreadProjection.ended hello,
      .interrupted ThreadProjection.ended false] := by
  refine ⟨rfl, ⟨?_, fun never => absurd never Bool.false_ne_true⟩, trivial⟩
  rw [show Transcript.items _ = Table.empty.touch _ from rfl, Table.get_touch, if_neg]
  · rfl
  · rw [id_interruptItem_ended]
    decide

/-- A message is sent, and its run is interrupted. -/
theorem in_order_of_one_interrupt :
    (∀ count, (empty.run ([.sent ThreadProjection.ended hello,
        .interrupted ThreadProjection.ended false].take count)).InOrder) ∧
      ∀ before step after, [.sent ThreadProjection.ended hello,
        .interrupted ThreadProjection.ended false] = before ++ step :: after →
          (empty.run before).Appends (step.plan (empty.run before).items) :=
  run_in_order freshAll_interrupt

/-- An interrupt that is asked for again makes the next question share its ordinal. -/
theorem Dense.not_inOrder_of_interrupted {run : Run} {requestId : String} (dense : t.Dense)
    (stored : (t.items.get (interruptItem t.items run).id).isSome = true)
    (apart : (interruptItem t.items run).id ≠ (questionItem t.items run requestId).id) :
    ¬(t.run [.interrupted run false, .asked run requestId]).InOrder := by
  intro order
  let request := interruptItem t.items run
  let question := questionItem (t.items.touch request) run requestId
  have items_eq : (t.run [.interrupted run false, .asked run requestId]).items =
      (t.items.touch request).touch question := rfl
  have count : (t.items.touch request).rows.length = t.items.rows.length := by
    have same : ((t.items.touch request).rows.map TurnItem.id).Perm
        (t.items.rows.map TurnItem.id) := by
      apply (List.perm_ext_iff_of_nodup (Table.distinct _) t.items.distinct).mpr
      intro id
      have named : ∀ table : Table TurnItem.id, id ∈ table.rows.map TurnItem.id ↔
          (table.get id).isSome = true := by
        intro table
        rw [← not_iff_not, ← Table.get_eq_none_iff, Bool.not_eq_true, Option.isSome_eq_false_iff,
          Option.isNone_iff_eq_none]
      rw [named, named, Table.get_touch]
      split_ifs with same
      · rw [← same]
        exact iff_of_true rfl stored
      · exact Iff.rfl
    have lengths := same.length_eq
    rwa [List.length_map, List.length_map] at lengths
  have request_ordinal : request.ordinal = t.created.length + 1 :=
    congrArg (· + 1) dense.lastOrdinal
  have question_ordinal : question.ordinal = t.created.length + 1 := by
    rw [← dense.length, ← count]
    rfl
  have request_listed : request ∈ ((t.items.touch request).touch question).rows := by
    apply Table.mem_touch_iff.mpr
    exact .inr ⟨Table.mem_touch_iff.mpr (.inl rfl), apart⟩
  have question_listed : question ∈ ((t.items.touch request).touch question).rows :=
    Table.mem_touch_iff.mpr (.inl rfl)
  have distinct := order.distinct
  have same := List.inj_on_of_nodup_map distinct request_listed question_listed
    (request_ordinal.trans question_ordinal.symm)
  have ids : request.id = question.id := congrArg TurnItem.id same
  exact apart ids

/-- A message is sent, its run is interrupted twice, and a question is asked. -/
theorem question_shares_ordinal :
    ¬(empty.run [.sent ThreadProjection.ended hello, .interrupted ThreadProjection.ended false,
      .interrupted ThreadProjection.ended false, .asked ThreadProjection.ended "q"]).InOrder := by
  have dense := dense_empty.run freshAll_interrupt
  rw [show [ItemStep.sent ThreadProjection.ended hello, .interrupted ThreadProjection.ended false,
      .interrupted ThreadProjection.ended false, .asked ThreadProjection.ended "q"] =
    [.sent ThreadProjection.ended hello, .interrupted ThreadProjection.ended false] ++
      [.interrupted ThreadProjection.ended false, .asked ThreadProjection.ended "q"] from rfl,
    run_append]
  apply dense.not_inOrder_of_interrupted
  · let user := (Table.empty : Table TurnItem.id).touch
      (userItem Table.empty ThreadProjection.ended hello)
    have found : (user.touch (interruptItem user ThreadProjection.ended)).get
        (interruptItem user ThreadProjection.ended).id =
          some (interruptItem user ThreadProjection.ended) := by
      rw [Table.get_touch, if_pos rfl]
    exact congrArg Option.isSome found
  · decide

end Transcript

end Zeron.Threads
