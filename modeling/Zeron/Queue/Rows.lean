import Zeron.Data.Assoc
import Zeron.Data.Text
import Zeron.Wire.Json

/-!
# Rows of the queue as they are written

A row of the movable list is a map, or any other value that some version put there.  It is
read as JSON, with its id trimmed, and it is located by the id as it stands.  The list is a
plain list here, and each operation is a commit of its own.
-/

namespace Zeron.Queue.Rows

open Data Wire
open Data.Assoc (put drop lookup_put_self lookup_put_of_ne)

inductive QueueDeliveryGate where
  | editing (leaseId ownerDeviceId ownerInstanceId : String) (acquiredAtMs expiresAtMs : Int)
      (baseTextHash : String)
  | reviewRequired (previousLeaseId ownerDeviceId : String) (sinceMs : Int)
      (baseTextHash : String)
  deriving DecidableEq

structure QueuedMessage where
  id : String
  text : String
  attachments : List String
  holdForTurnEnd : Bool
  issuedBy : String
  issuedAt : Int
  editedAt : Option Int
  deliveryGate : Option QueueDeliveryGate
  deriving DecidableEq

/-- An element of the list: a map container whose values are plain, or a plain value. -/
inductive Row where
  | map (fields : List (String × Json))
  | value (json : Json)
  deriving DecidableEq

/-- The element in `get_deep_value`. -/
def Row.json : Row → Json
  | .map fields => .obj fields
  | .value json => json

/-! ## Reading -/

def digits (chars : List Char) : Option Int :=
  if chars = [] ∨ chars.any fun char => !char.isDigit then none
  else some (chars.foldl (fun value char => value * 10 + (char.toNat - '0'.toNat : Nat)) 0)

/-- `as_i64`. -/
def asI64 : Json → Option Int
  | .num literal =>
      let value :=
        match literal.toList with
        | '-' :: chars => (digits chars).map Neg.neg
        | chars => digits chars
      value.filter fun n => decide (-2 ^ 63 ≤ n ∧ n < 2 ^ 63)
  | _ => none

def asBool : Json → Option Bool
  | .bool value => some value
  | _ => none

/-- `from_value` into a list of strings. -/
def strings : Json → Option (List String)
  | .arr items => items.mapM Json.asString
  | _ => none

/-- `from_value` into a gate, which is tagged with its kind. -/
def QueueDeliveryGate.fromJson (json : Json) : Option QueueDeliveryGate := do
  let text (name : String) := (json.member name).bind Json.asString
  let number (name : String) := (json.member name).bind asI64
  match ← text "kind" with
  | "editing" =>
      return .editing (← text "leaseId") (← text "ownerDeviceId") (← text "ownerInstanceId")
        (← number "acquiredAtMs") (← number "expiresAtMs") (← text "baseTextHash")
  | "reviewRequired" =>
      return .reviewRequired (← text "previousLeaseId") (← text "ownerDeviceId")
        (← number "sinceMs") (← text "baseTextHash")
  | _ => none

/-- A gate of a kind that is not known is due for review. -/
def gateFromJson (json : Json) : Option QueueDeliveryGate :=
  match json.member "deliveryGate" with
  | none => none
  | some gate =>
      if gate.isNull then none
      else some ((QueueDeliveryGate.fromJson gate).getD (.reviewRequired "" "" 0 ""))

/-- `queued_from_json`. -/
def queuedFromJson (json : Json) : Option QueuedMessage := do
  let id := trimmed (← (← json.member "id").asString)
  if id = "" then none
  else
    let text ← (← json.member "text").asString
    if trimmed text = "" then none
    else
      return {
        id, text
        attachments := ((json.member "attachments").bind strings).getD []
        holdForTurnEnd := ((json.member "holdForTurnEnd").bind asBool).getD false
        issuedBy := ((json.member "issuedBy").bind Json.asString).getD ""
        issuedAt := ((json.member "issuedAt").bind asI64).getD 0
        editedAt := (json.member "editedAt").bind asI64
        deliveryGate := gateFromJson json }

/-- `read_queue`. -/
def readQueue (rows : List Row) : List QueuedMessage :=
  rows.filterMap fun row => queuedFromJson row.json

/-! ## Writing -/

def int (value : Int) : Json :=
  .num (toString value)

def QueueDeliveryGate.toJson : QueueDeliveryGate → Json
  | .editing leaseId ownerDeviceId ownerInstanceId acquiredAtMs expiresAtMs baseTextHash =>
      .obj [("kind", .str "editing"), ("leaseId", .str leaseId),
        ("ownerDeviceId", .str ownerDeviceId), ("ownerInstanceId", .str ownerInstanceId),
        ("acquiredAtMs", int acquiredAtMs), ("expiresAtMs", int expiresAtMs),
        ("baseTextHash", .str baseTextHash)]
  | .reviewRequired previousLeaseId ownerDeviceId sinceMs baseTextHash =>
      .obj [("kind", .str "reviewRequired"), ("previousLeaseId", .str previousLeaseId),
        ("ownerDeviceId", .str ownerDeviceId), ("sinceMs", int sinceMs),
        ("baseTextHash", .str baseTextHash)]

def texts (values : List String) : Json :=
  .arr (values.map .str)

/-- `write_queued_map`. -/
def writeQueuedMap (item : QueuedMessage) : List (String × Json) :=
  [("id", .str item.id), ("text", .str item.text), ("issuedBy", .str item.issuedBy),
      ("issuedAt", int item.issuedAt)] ++
    (if item.attachments = [] then [] else [("attachments", texts item.attachments)]) ++
    (if item.holdForTurnEnd then [("holdForTurnEnd", .bool true)] else []) ++
    (item.editedAt.toList.map fun at_ => ("editedAt", int at_)) ++
    (item.deliveryGate.toList.map fun gate => ("deliveryGate", gate.toJson))

/-- `insert_queued`. -/
def insertQueued (rows : List Row) (index : Nat) (item : QueuedMessage) :
    Except String (List Row) :=
  if trimmed item.id = "" then .error "queued message id required"
  else if trimmed item.text = "" then .error "queued message text required"
  else .ok (rows.insertIdx (min index rows.length) (.map (writeQueuedMap item)))

/-- `push_queued`. -/
def pushQueued (rows : List Row) (item : QueuedMessage) : Except String (List Row) :=
  insertQueued rows rows.length item

/-- The test of `index_of`: a map whose id is this very text. -/
def Row.carries (id : String) : Row → Bool
  | .map fields => decide (fields.lookup "id" = some (.str id))
  | .value _ => false

def indexOf (rows : List Row) (id : String) : Option Nat :=
  rows.findIdx? (Row.carries id)

section At

variable (rows : List Row) (index : Option Nat)

/-- Rewrite the map at the index, if there is one there. -/
def editAt (edit : List (String × Json) → Option (List (String × Json))) : List Row × Bool :=
  match index with
  | none => (rows, false)
  | some i =>
      match rows[i]? with
      | some (.map fields) =>
          match edit fields with
          | some changed => (rows.set i (.map changed), true)
          | none => (rows, false)
      | _ => (rows, false)

def removeAt : List Row × Bool :=
  match index with
  | none => (rows, false)
  | some i => (rows.eraseIdx i, true)

def moveAt (target : Nat) : List Row × Bool :=
  match index with
  | none => (rows, false)
  | some start =>
      let target := min target (rows.length - 1)
      if start = target then (rows, false)
      else
        match rows[start]? with
        | none => (rows, false)
        | some row => ((rows.eraseIdx start).insertIdx target row, true)

/-- Write a text, unless it is the one that is there. -/
def putText (fields : List (String × Json)) (text : String) (nowMs : Int) :
    Option (List (String × Json)) :=
  if fields.lookup "text" = some (.str text) then none
  else some (put (put fields "text" (.str text)) "editedAt" (int nowMs))

def setQueuedTextAt (text : String) (nowMs : Int) : List Row × Bool :=
  if trimmed text = "" then removeAt rows index
  else editAt rows index fun fields => putText fields text nowMs

def finishQueuedEditAt (replacement : Option String) (attachments : Option (List String))
    (nowMs : Int) : List Row × Bool :=
  if replacement.any fun text => decide (trimmed text = "") then removeAt rows index
  else editAt rows index fun fields =>
    let fields := (replacement.bind fun text => putText fields text nowMs).getD fields
    let fields :=
      match attachments with
      | some paths => put (put fields "attachments" (texts paths)) "editedAt" (int nowMs)
      | none => fields
    some (drop fields "deliveryGate")

end At

section Operations

variable (rows : List Row) (id : String)

def setQueuedText (text : String) (nowMs : Int) : List Row × Bool :=
  setQueuedTextAt rows (indexOf rows id) text nowMs

/-- `finish_queued_edit_with_attachments`; `finish_queued_edit` gives no attachments. -/
def finishQueuedEdit (replacement : Option String) (attachments : Option (List String))
    (nowMs : Int) : List Row × Bool :=
  finishQueuedEditAt rows (indexOf rows id) replacement attachments nowMs

def moveQueued (target : Nat) : List Row × Bool :=
  moveAt rows (indexOf rows id) target

def removeQueued : List Row × Bool :=
  removeAt rows (indexOf rows id)

/-- `take_queued`: the row that is removed is the located one, and the message that comes
back is the first one that is read under the id. -/
def takeQueued : Option QueuedMessage × List Row :=
  match indexOf rows id with
  | none => (none, rows)
  | some index =>
      let item := (readQueue rows).find? fun item => decide (item.id = id)
      if item.any fun item => item.deliveryGate.isSome then (none, rows)
      else (item, rows.eraseIdx index)

def takeQueueHead : Option QueuedMessage × List Row :=
  match (readQueue rows).head? with
  | none => (none, rows)
  | some head => takeQueued rows head.id

end Operations

/-! ## What the queue shows -/

def Row.shownAs (id : String) (row : Row) : Bool :=
  (queuedFromJson row.json).any fun item => decide (item.id = id)

/-- The row that `read_queue` shows for an id. -/
def shownIndex (rows : List Row) (id : String) : Option Nat :=
  rows.findIdx? (Row.shownAs id)

/-- The first row that carries an id or is shown under it does both. -/
def Orderly (rows : List Row) : Prop :=
  ∀ id first, rows.find? (fun row => row.carries id || row.shownAs id) = some first →
    first.carries id = true ∧ first.shownAs id = true

/-- A head without a gate is taken, and exactly its row goes. -/
def HeadDeliverable (rows : List Row) : Prop :=
  ∀ head, (readQueue rows).head? = some head → head.deliveryGate = none →
    ∃ index row, rows[index]? = some row ∧ queuedFromJson row.json = some head ∧
      (∀ before < index, ∀ other, rows[before]? = some other →
        queuedFromJson other.json = none) ∧
      takeQueueHead rows = (some head, rows.eraseIdx index)

/-- Nothing goes, or a row that is shown and has no gate. -/
def LosesNothing (rows after : List Row) : Prop :=
  after = rows ∨ ∃ index row item, rows[index]? = some row ∧
    queuedFromJson row.json = some item ∧ item.deliveryGate = none ∧ after = rows.eraseIdx index

def TakesLoseNothing (rows : List Row) : Prop :=
  LosesNothing rows (takeQueueHead rows).2 ∧ ∀ id, LosesNothing rows (takeQueued rows id).2

/-- The operations on an id are those on the row that is shown for it. -/
def ActsOnShown (rows : List Row) : Prop :=
  ∀ id, (∀ text nowMs, setQueuedText rows id text nowMs =
      setQueuedTextAt rows (shownIndex rows id) text nowMs) ∧
    (∀ replacement attachments nowMs, finishQueuedEdit rows id replacement attachments nowMs =
      finishQueuedEditAt rows (shownIndex rows id) replacement attachments nowMs) ∧
    (∀ target, moveQueued rows id target = moveAt rows (shownIndex rows id) target) ∧
    removeQueued rows id = removeAt rows (shownIndex rows id)

/-! ## Locating -/

section Locating

variable {rows : List Row} {id : String}

/-- Two tests find the same place exactly if the first element that passes one of them
passes both. -/
theorem findIdx?_eq_iff {α : Type*} {p q : α → Bool} {l : List α} :
    l.findIdx? p = l.findIdx? q ↔
      ∀ first, l.find? (fun a => p a || q a) = some first → p first = true ∧ q first = true := by
  induction l with
  | nil => simp
  | cons a l ih =>
      have shifted : (l.findIdx? p).map (· + 1) = (l.findIdx? q).map (· + 1) ↔
          l.findIdx? p = l.findIdx? q :=
        (Option.map_injective fun _ _ => Nat.succ.inj).eq_iff
      rw [List.findIdx?_cons, List.findIdx?_cons, List.find?_cons]
      cases mine : p a <;> cases yours : q a
      · exact shifted.trans ih
      · simp [mine]
      · simp [yours]
      · simp [yours, mine]

theorem orderly_iff : Orderly rows ↔ ∀ id, indexOf rows id = shownIndex rows id := by
  exact forall_congr' fun id => findIdx?_eq_iff.symm

/-- The row that is shown for an id is the first message that is read under it. -/
theorem find?_readQueue {index : Nat} (shown : shownIndex rows id = some index) :
    ∃ row item, rows[index]? = some row ∧ queuedFromJson row.json = some item ∧
      (readQueue rows).find? (fun item => decide (item.id = id)) = some item := by
  unfold shownIndex at shown
  induction rows generalizing index with
  | nil => simp at shown
  | cons row rows ih =>
      rw [List.findIdx?_cons] at shown
      rw [readQueue, List.filterMap_cons]
      cases read : queuedFromJson row.json with
      | none =>
          rw [if_neg (by simp [Row.shownAs, read])] at shown
          rcases Option.map_eq_some_iff.mp shown with ⟨before, earlier, rfl⟩
          exact ih earlier
      | some item =>
          by_cases named : item.id = id
          · rw [if_pos (by simp [Row.shownAs, read, named])] at shown
            cases shown
            exact ⟨row, item, rfl, read, List.find?_cons_of_pos (by simp [named])⟩
          · rw [if_neg (by simp [Row.shownAs, read, named])] at shown
            rcases Option.map_eq_some_iff.mp shown with ⟨before, earlier, rfl⟩
            rcases ih earlier with ⟨other, found, there, readToo, first⟩
            refine ⟨other, found, there, readToo, ?_⟩
            exact (List.find?_cons_of_neg (by simp [named])).trans first

/-- The head is shown in the first row that is read. -/
theorem exists_head {head : QueuedMessage} (first : (readQueue rows).head? = some head) :
    ∃ index row, rows[index]? = some row ∧ queuedFromJson row.json = some head ∧
      (∀ before < index, ∀ other, rows[before]? = some other →
        queuedFromJson other.json = none) ∧
      shownIndex rows head.id = some index := by
  induction rows with
  | nil => cases first
  | cons row rows ih =>
      rw [readQueue, List.filterMap_cons] at first
      cases read : queuedFromJson row.json with
      | some item =>
          rw [read] at first
          cases first
          refine ⟨0, row, rfl, read, by simp, ?_⟩
          rw [shownIndex, List.findIdx?_cons, if_pos (by simp [Row.shownAs, read])]
      | none =>
          rw [read] at first
          rcases ih first with ⟨index, other, there, shown, none_before, located⟩
          refine ⟨index + 1, other, there, shown, ?_, ?_⟩
          · rintro (_ | before) less skipped at_
            · cases at_
              exact read
            · exact none_before before (by omega) skipped at_
          · rw [shownIndex, List.findIdx?_cons, if_neg (by simp [Row.shownAs, read])]
            exact Option.map_eq_some_iff.mpr ⟨index, located, rfl⟩

end Locating

/-! ## Takes and edits -/

section Takes

variable {rows : List Row} {id : String}

theorem losesNothing_takeQueued (located : indexOf rows id = shownIndex rows id) :
    LosesNothing rows (takeQueued rows id).2 := by
  unfold takeQueued
  rw [located]
  cases shown : shownIndex rows id with
  | none => exact .inl rfl
  | some index =>
      rcases find?_readQueue shown with ⟨row, item, there, read, found⟩
      dsimp only
      rw [found]
      split_ifs with gated
      · exact .inl rfl
      · exact .inr ⟨index, row, item, there, read, by simpa using gated, rfl⟩

theorem headDeliverable_of_orderly (orderly : Orderly rows) : HeadDeliverable rows := by
  intro head first ungated
  rcases exists_head first with ⟨index, row, there, read, none_before, shown⟩
  refine ⟨index, row, there, read, none_before, ?_⟩
  rcases find?_readQueue shown with ⟨other, item, thereToo, readToo, found⟩
  cases there.symm.trans thereToo
  cases read.symm.trans readToo
  rw [takeQueueHead, first]
  dsimp only
  rw [takeQueued, orderly_iff.mp orderly, shown]
  dsimp only
  rw [found, if_neg (by simp [ungated])]

theorem takesLoseNothing_of_orderly (orderly : Orderly rows) : TakesLoseNothing rows := by
  have taken := fun id => losesNothing_takeQueued (orderly_iff.mp orderly id)
  refine ⟨?_, taken⟩
  unfold takeQueueHead
  split
  · exact .inl rfl
  · exact taken _

theorem lookup_text_put (fields : List (String × Json)) (text : String) (edited : Json) :
    (put (put fields "text" (.str text)) "editedAt" edited).lookup "text" = some (.str text) := by
  rw [lookup_put_of_ne (by decide), lookup_put_self]

/-- Another text than the one that is there can always be written. -/
theorem exists_putText (fields : List (String × Json)) :
    ∃ text changed, trimmed text ≠ "" ∧ putText fields text 0 = some changed ∧
      changed ≠ fields := by
  have written : ∀ text, fields.lookup "text" ≠ some (.str text) → trimmed text ≠ "" →
      ∃ text changed, trimmed text ≠ "" ∧ putText fields text 0 = some changed ∧
        changed ≠ fields := by
    intro text other some_text
    refine ⟨text, _, some_text, if_neg other, ?_⟩
    intro same
    exact other (same ▸ lookup_text_put fields text _)
  by_cases first : fields.lookup "text" = some (.str "a")
  · exact written "b" (by simp [first]) (by decide +kernel)
  · exact written "a" first (by decide +kernel)

/-- What is located is a map. -/
theorem map_of_indexOf {index : Nat} (located : indexOf rows id = some index) :
    ∃ fields, rows[index]? = some (.map fields) := by
  rcases List.findIdx?_eq_some_iff_getElem.mp located with ⟨inside, carries, -⟩
  rw [List.getElem?_eq_getElem inside]
  cases here : rows[index] with
  | map fields => exact ⟨fields, rfl⟩
  | value json =>
      rw [here] at carries
      cases carries

/-- A text that is written at two places was written at one. -/
theorem eq_of_editAt {index other : Nat} {fields changed : List (String × Json)}
    {edit : List (String × Json) → Option (List (String × Json))}
    (there : rows[index]? = some (.map fields)) (edits : edit fields = some changed)
    (differs : changed ≠ fields)
    (same : editAt rows (some index) edit = editAt rows (some other) edit) : index = other := by
  by_contra apart
  simp only [editAt, there, edits] at same
  have inside : index < rows.length := (List.getElem?_eq_some_iff.mp there).1
  split at same
  · split at same
    · have lists := congrArg (fun pair => pair.1[index]?) same
      simp only [List.getElem?_set_self inside, List.getElem?_set_ne (Ne.symm apart), there,
        Option.some.injEq, Row.map.injEq] at lists
      exact differs lists
    · cases congrArg Prod.snd same
  · cases congrArg Prod.snd same

theorem located_of_actsOnShown (acts : ActsOnShown rows) (id : String) :
    indexOf rows id = shownIndex rows id := by
  rcases acts id with ⟨texts, -, -, removes⟩
  rw [removeQueued] at removes
  cases located : indexOf rows id with
  | none =>
      rw [located] at removes
      cases shown : shownIndex rows id with
      | none => rfl
      | some index =>
          rw [shown] at removes
          cases congrArg Prod.snd removes
  | some index =>
      rw [located] at removes
      cases shown : shownIndex rows id with
      | none =>
          rw [shown] at removes
          cases congrArg Prod.snd removes
      | some other =>
          rcases map_of_indexOf located with ⟨fields, there⟩
          rcases exists_putText fields with ⟨text, changed, some_text, writes, differs⟩
          have same := texts text 0
          rw [setQueuedText, setQueuedTextAt, setQueuedTextAt, if_neg some_text,
            if_neg some_text, located, shown] at same
          rw [eq_of_editAt there writes differs same]

end Takes

/-- The head can be delivered, takes lose nothing and the operations act on what is shown,
exactly if the first row that carries an id or is shown under it does both. -/
theorem queue_is_deliverable_iff (rows : List Row) :
    (HeadDeliverable rows ∧ TakesLoseNothing rows ∧ ActsOnShown rows) ↔ Orderly rows := by
  constructor
  · rintro ⟨_, _, acts⟩
    exact orderly_iff.mpr (located_of_actsOnShown acts)
  · intro orderly
    refine ⟨headDeliverable_of_orderly orderly, takesLoseNothing_of_orderly orderly, ?_⟩
    intro id
    have located := orderly_iff.mp orderly id
    unfold setQueuedText finishQueuedEdit moveQueued removeQueued
    rw [located]
    exact ⟨fun _ _ => rfl, fun _ _ _ => rfl, fun _ => rfl, rfl⟩

/-- A message whose id has a blank before it. -/
def padded : QueuedMessage where
  id := " a"
  text := "go"
  attachments := []
  holdForTurnEnd := false
  issuedBy := ""
  issuedAt := 0
  editedAt := none
  deliveryGate := none

/-- It is pushed and it is shown as the head, but it is never taken. -/
theorem padded_head_is_stuck :
    ∃ rows, pushQueued [] padded = .ok rows ∧
      (readQueue rows).head? = some { padded with id := "a" } ∧
        takeQueueHead rows = (none, rows) ∧ ¬HeadDeliverable rows := by
  have stuck : takeQueueHead [.map (writeQueuedMap padded)] =
      (none, [.map (writeQueuedMap padded)]) := by decide +kernel
  have head : (readQueue [.map (writeQueuedMap padded)]).head? =
      some { padded with id := "a" } := by decide +kernel
  refine ⟨_, by decide +kernel, head, stuck, ?_⟩
  intro deliverable
  rcases deliverable _ head rfl with ⟨index, row, -, -, -, taken⟩
  cases congrArg Prod.fst taken

end Zeron.Queue.Rows
