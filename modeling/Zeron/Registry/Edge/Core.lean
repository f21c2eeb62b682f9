import Zeron.Registry.Row

/-!
# The edge's merge core

The merge of the Durable Object, in the terms of the language it runs in.
Rows hold plain objects, so reading a clock by field name may find a function
that every object inherits, and `>` compares texts by their UTF-16 units after
turning a function into its source text.  Operations arrive as JSON and are
validated before they are merged.
-/

namespace Zeron.Registry.Edge

open Zeron.Data
open Zeron.Wire

/-! ## Plain objects and comparison -/

/-- What a property read finds where a clock is expected. -/
inductive Clock where
  | text (hlc : Hlc)
  /-- The function of this name, found on `Object.prototype`. -/
  | inherited (function : String)

/-- The inherited members whose names can be field names, each with the name of
its function. -/
def objectMembers : List (String × String) :=
  [("constructor", "Object"), ("hasOwnProperty", "hasOwnProperty"),
    ("isPrototypeOf", "isPrototypeOf"), ("propertyIsEnumerable", "propertyIsEnumerable"),
    ("toLocaleString", "toLocaleString"), ("toString", "toString"), ("valueOf", "valueOf")]

/-- `clocks[key]`. -/
def property (clocks : FieldMap Clock) (key : String) : Option Clock :=
  clocks[key]?.or ((objectMembers.lookup key).map .inherited)

/-- The text that `>` compares. -/
def Clock.primitive : Clock → String
  | text hlc => hlc
  | inherited function => "function " ++ function ++ "() { [native code] }"

/-- `hlcNewer`. -/
def hlcNewer (a : Clock) (b : Option Clock) : Bool :=
  match b with
  | none => true
  | some b => decide (utf16 b.primitive < utf16 a.primitive)

/-! ## Rows -/

structure Row where
  kind : String
  id : String
  seq : Nat
  deleted : Bool
  delHlc : Option Hlc
  fields : FieldMap Json
  clocks : FieldMap Clock

/-- `maxClock`. -/
def maxClock (row : Row) : Option Clock :=
  (values row.clocks).foldl (fun max clock => if hlcNewer clock max then some clock else max)
    (row.delHlc.map .text)

/-- `clockFor`: `op.clocks?.[field] ?? op.hlc`. -/
def clockFor (op : RowOp) (field : String) : Clock :=
  (op.clocks.bind fun clocks => property (clocks.map fun _ hlc => .text hlc) field).getD
    (.text op.hlc)

/-- The delete branch of `applyOp`. -/
def applyDelete (row : Option Row) (op : RowOp) : Option Row × Bool :=
  match row with
  -- Tombstone-on-missing guards against a late create racing the delete.
  | none =>
      (some
        { kind := op.kind, id := op.id, seq := 0, deleted := true, delHlc := some op.hlc,
          fields := ∅, clocks := ∅ }, true)
  | some row =>
      if (if row.deleted then hlcNewer (.text op.hlc) (row.delHlc.map .text)
          else hlcNewer (.text op.hlc) (maxClock row)) then
        (some { row with deleted := true, delHlc := some op.hlc, fields := ∅, clocks := ∅ }, true)
      else
        (some row, false)

/-- `base`, or the result when the operation stops before its fields. -/
def writeBase (row : Option Row) (op : RowOp) : Except (Option Row × Bool) Row :=
  match row with
  | none =>
      if op.op = .update then .error (none, false)
      else
        .ok
          { kind := op.kind, id := op.id, seq := 0, deleted := false, delHlc := none,
            fields := ∅, clocks := ∅ }
  | some row =>
      if row.deleted then
        if op.op = .update then .error (some row, false)
        else if !hlcNewer (.text op.hlc) (row.delHlc.map .text) then .error (some row, false)
        -- Revival: the tombstone loses wholesale; the upsert's fields are the row.
        else .ok { row with deleted := false, fields := ∅, clocks := ∅ }
      else
        .ok row

/-- One turn of the loop over `op.set`. -/
def writeField (op : RowOp) (state : Row × Bool) (key : String) (value : Json) : Row × Bool :=
  let clock := clockFor op key
  if hlcNewer clock (property state.1.clocks key) then
    ({ state.1 with
        fields :=
          if value.isNull then state.1.fields.erase key else state.1.fields.insert key value
        clocks := state.1.clocks.insert key clock }, true)
  else
    state

/-- `applyOp`. -/
def applyOp (row : Option Row) (op : RowOp) : Option Row × Bool :=
  if op.op = .delete then
    applyDelete row op
  else
    match writeBase row op with
    | .error result => result
    | .ok base =>
        let changed := row.isNone || (row.any (·.deleted) && !base.deleted)
        let (written, changed) := (op.set.getD ∅).foldl (writeField op) (base, changed)
        if changed then (some { written with deleted := false }, true) else (some base, false)

/-- The clocks of an object as `JSON.stringify` prints them: functions are left out. -/
def printedClocks (clocks : FieldMap Clock) : FieldMap Hlc :=
  clocks.filterMap fun _ clock =>
    match clock with
    | .text hlc => some hlc
    | .inherited _ => none

/-- `rowToSeedOp`, as it is sent. -/
def rowToSeedOp (row : Row) : RowOp :=
  if row.deleted then
    { kind := row.kind
      id := row.id
      op := .delete
      set := none
      hlc := row.delHlc.getD (encodeHlc 0 0 "seed")
      clocks := none }
  else
    { kind := row.kind
      id := row.id
      op := .upsert
      set := some row.fields
      hlc := ((maxClock row).getD (.text (encodeHlc 0 0 "seed"))).primitive
      clocks := some (printedClocks row.clocks) }

/-! ## Rows in storage -/

/-- `loadRow`: a row parsed from its columns.  An empty `del_hlc` counts as none. -/
def loadRow (row : RegistryRow) : Row where
  kind := row.kind
  id := row.id
  seq := row.seq
  deleted := row.deleted
  delHlc := row.delHlc.filter (· ≠ "")
  fields := row.fields
  clocks := row.clocks.map fun _ hlc => .text hlc

/-- `saveRow`: the columns a row is printed into. -/
def saveRow (row : Row) : RegistryRow where
  kind := row.kind
  id := row.id
  seq := row.seq
  deleted := row.deleted
  delHlc := row.delHlc
  fields := row.fields
  clocks := printedClocks row.clocks

/-! ## Validation -/

/-- `^<first><rest>{0,bound}$` -/
def matchesName (first rest : Char → Bool) (bound : Nat) (text : String) : Bool :=
  match text.toList with
  | [] => false
  | head :: tail => first head && tail.all rest && decide (tail.length ≤ bound)

/-- `ID_RE`: 1 to 256 letters, digits or characters of `_`, `.`, `:`, `@`, `/`, `-`. -/
def idRe : String → Bool :=
  matchesName isIdChar isIdChar 255
where
  isIdChar (char : Char) : Bool := isAlphanumeric char || ['_', '.', ':', '@', '/', '-'].contains char

/-- `/^[a-z][a-zA-Z0-9]{0,31}$/` -/
def kindRe : String → Bool :=
  matchesName isLower isAlphanumeric 31

/-- `/^[a-zA-Z][a-zA-Z0-9]{0,63}$/` -/
def fieldRe : String → Bool :=
  matchesName (fun char => isUpper char || isLower char) isAlphanumeric 63

/-- Per-operation serialized budget. -/
def maxOpBytes : Nat := 16 * 1024

def isRecord : Json → Bool
  | .obj _ => true
  | _ => false

/-- `typeof value === "string" && re.test(value)` -/
def isText (re : String → Bool) (value : Option Json) : Bool :=
  (value.bind Json.asString).any re

/-- The checks on `op.set`. -/
def validateSet (op : Json) : Option String :=
  if op.member "op" = some (.str "delete") then
    if (op.member "set").isSome then some "delete carries set" else none
  else
    match op.member "set" with
    | some (.obj members) =>
        ((members.map Prod.fst).find? fun key => !fieldRe key).map fun key => "bad field: " ++ key
    | _ => some "missing set"

/-- The checks on `op.clocks`. -/
def validateClocks (op : Json) : Option String :=
  match op.member "clocks" with
  | none => none
  | some (.obj members) =>
      members.findSome? fun (key, hlc) =>
        if !fieldRe key then some ("bad clock field: " ++ key)
        else if !isText hlcRe (some hlc) then some ("bad clock: " ++ key)
        else none
  | some _ => some "bad clocks"

/-- `validateOp`: the text of the first check that fails. -/
def validateOp (op : Json) : Option String :=
  if !isRecord op then some "bad operation"
  else if !isText kindRe (op.member "kind") then some "bad kind"
  else if !isText idRe (op.member "id") then some "bad id"
  else if !isText ["upsert", "update", "delete"].contains (op.member "op") then some "bad op"
  else if !isText hlcRe (op.member "hlc") then some "bad hlc"
  else
    (validateSet op).or <| (validateClocks op).or <|
      if maxOpBytes < op.byteLength then some "op too large" else none

/-! ## What validation guarantees -/

/-- The shape of an accepted operation. -/
structure Accepted (op : RowOp) : Prop where
  kind : kindRe op.kind = true
  id : idRe op.id = true
  hlc : hlcRe op.hlc = true
  delete_set : op.op = .delete → op.set = none
  fields : ∀ (field : String) (value : Json), (op.set.getD ∅)[field]? = some value →
    fieldRe field = true
  clocks : ∀ (field : String) (clock : Hlc), (op.clocks.getD ∅)[field]? = some clock →
    fieldRe field = true ∧ hlcRe clock = true

theorem isText_readString {re : String → Bool} {value : Option Json}
    (accepted : isText re value = true) : re (readString value) = true := by
  unfold isText at accepted
  unfold readString
  cases found : value.bind Json.asString with
  | none => simp [found] at accepted
  | some text => simpa [found] using accepted

/-- Acceptance is every check passing. -/
theorem validateOp_eq_none_iff (op : Json) :
    validateOp op = none ↔
      isRecord op = true ∧ isText kindRe (op.member "kind") = true ∧
      isText idRe (op.member "id") = true ∧
      isText ["upsert", "update", "delete"].contains (op.member "op") = true ∧
      isText hlcRe (op.member "hlc") = true ∧
      validateSet op = none ∧ validateClocks op = none ∧ op.byteLength ≤ maxOpBytes := by
  unfold validateOp
  split <;> simp_all
  split <;> simp_all
  split <;> simp_all
  split <;> simp_all
  split <;> simp_all

theorem fields_of_validateSet {op : Json} (valid : validateSet op = none)
    {field : String} {value : Json}
    (found : ((readOp op).set.getD ∅)[field]? = some value) : fieldRe field = true := by
  unfold validateSet at valid
  cases set : op.member "set" with
  | none => simp [readOp, set] at found
  | some json =>
      simp only [readOp, set] at found
      have member := mem_of_getElem?_ofList found
      cases json with
      | obj members =>
          by_cases isDelete : op.member "op" = some (.str "delete")
          · simp [isDelete, set] at valid
          · simp only [if_neg isDelete, set, Option.map_eq_none_iff, List.find?_eq_none] at valid
            simpa using valid field (List.mem_map_of_mem member)
      | _ => simp [entries] at member

theorem clocks_of_validateClocks {op : Json} (valid : validateClocks op = none)
    {field : String} {clock : Hlc}
    (found : ((readOp op).clocks.getD ∅)[field]? = some clock) :
    fieldRe field = true ∧ hlcRe clock = true := by
  unfold validateClocks at valid
  cases clocks : op.member "clocks" with
  | none => simp [readOp, clocks] at found
  | some json =>
      simp only [readOp, clocks] at found
      obtain ⟨⟨name, hlc⟩, member, same⟩ := List.mem_map.mp (mem_of_getElem?_ofList found)
      obtain ⟨rfl, rfl⟩ := Prod.mk.inj same
      cases json with
      | obj members =>
          simp only [clocks, List.findSome?_eq_none_iff] at valid
          have checked := valid (name, hlc) member
          split at checked
          · cases checked
          · split at checked
            · cases checked
            · rename_i nameValid hlcValid
              refine ⟨by simpa using nameValid, isText_readString ?_⟩
              simpa using hlcValid
      | _ => simp [entries] at member

theorem accepted_readOp {op : Json} (valid : validateOp op = none) : Accepted (readOp op) := by
  obtain ⟨_, kind, id, opKind, hlc, set, clocks, _⟩ := (validateOp_eq_none_iff op).mp valid
  refine ⟨isText_readString kind, isText_readString id, isText_readString hlc, ?_,
    fun field value found => fields_of_validateSet set found,
    fun field clock found => clocks_of_validateClocks clocks found⟩
  intro isDelete
  have kindText := isText_readString opKind
  have opText : op.member "op" = some (.str "delete") := by
    cases found : op.member "op" with
    | none => simp [isText, found] at opKind
    | some json =>
        cases json with
        | str text =>
            simp only [readOp, found] at isDelete kindText
            unfold OpKind.read at isDelete
            split at isDelete
            · rw [‹text = _›]
            · split at isDelete <;> cases isDelete
        | _ => simp [isText, found, Json.asString] at opKind
  unfold validateSet at set
  rw [if_pos opText] at set
  cases found : op.member "set" with
  | none => simp [readOp, found]
  | some json => simp [found] at set

end Zeron.Registry.Edge
