import Zeron.Registry.Edge.Core

/-!
# The phone's merge core

The merge and the validation of the phone, in the terms of the language it runs in.
Its strings compare by their canonical forms, and a dictionary holds one entry for all
keys of one canonical form.  In its patterns `\d` matches the decimal digits of every
script, and `$` matches before a line ending at the end of the text as well.

Rows and operations have the fields of the engine's.
-/

namespace Zeron.Registry.Phone

open Zeron.Data
open Zeron.Wire

/-- The characters are ASCII. -/
def IsAscii (text : String) : Prop :=
  ∀ char ∈ text.toList, char.toNat < 128

instance (text : String) : Decidable (IsAscii text) :=
  List.decidableBAll (fun char : Char => char.toNat < 128) text.toList

/-- The Unicode tables that strings and patterns rest on, and what they say of ASCII. -/
structure Unicode where
  /-- The form that `==`, `<` and `hash` of a string go by. -/
  canonical : String → String
  /-- `\d`: general category `Nd`. -/
  isDecimal : Char → Bool
  canonical_of_ascii : ∀ text, IsAscii text → canonical text = text
  isDecimal_of_ascii : ∀ char : Char, char.toNat < 128 → isDecimal char = isDigit char

namespace Unicode

/-- The tables cut down to ASCII. -/
def ascii : Unicode where
  canonical text := text
  isDecimal := isDigit
  canonical_of_ascii _ _ := rfl
  isDecimal_of_ascii _ _ := rfl

variable (unicode : Unicode)

/-- `first == second` -/
def same (first second : String) : Bool :=
  unicode.canonical first == unicode.canonical second

/-- The key of a row in the dictionaries of rows. -/
def key (kind id : String) : RowKey :=
  ⟨unicode.canonical kind, unicode.canonical id⟩

/-- A decoded object: later entries replace earlier ones with the same key. -/
def dictionary {α : Type} (entries : FieldMap α) : FieldMap α :=
  entries.foldl (fun decoded key value => decoded.insert (unicode.canonical key) value) ∅

/-- A decoded row. -/
def decodeRow (row : RegistryRow) : RegistryRow :=
  { row with
    fields := unicode.dictionary row.fields
    clocks := unicode.dictionary row.clocks }

end Unicode

/-! ## Clocks -/

/-- `pad`. -/
def pad (n width : Nat) : List Char :=
  let s := Nat.toDigits 10 n
  if width ≤ s.length then s else List.replicate (width - s.length) '0' ++ s

/-- `encodeHlc`. -/
def encodeHlc (ms counter : Nat) (device : String) : Hlc :=
  String.ofList (pad ms 13 ++ ['-'] ++ pad counter 6 ++ ['-'] ++ device.toList)

/-- `hlcNewer`. -/
def hlcNewer (unicode : Unicode) (a : Hlc) (b : Option Hlc) : Bool :=
  match b with
  | none => true
  | some b => decide (unicode.canonical b < unicode.canonical a)

/-- `HlcClock.next`. -/
def next (clock : HlcClock) (nowMs : Nat) (device : String) : HlcClock × Hlc :=
  let ticked : HlcClock :=
    if clock.lastMs < nowMs then ⟨nowMs, 0⟩
    else
      let counter := clock.counter + 1
      if 999999 < counter then ⟨clock.lastMs + 1, 0⟩ else ⟨clock.lastMs, counter⟩
  (ticked, encodeHlc ticked.lastMs ticked.counter device)

/-! ## Merge -/

/-- `maxClock`.  The loop runs over a dictionary; here it is the order of the keys. -/
def maxClock (unicode : Unicode) (row : RegistryRow) : Option Hlc :=
  (values row.clocks).foldl
    (fun max clock => if hlcNewer unicode clock max then some clock else max) row.delHlc

/-- `clockFor`. -/
def clockFor (unicode : Unicode) (op : RowOp) (field : String) : Hlc :=
  (op.clocks.bind fun clocks => clocks[unicode.canonical field]?).getD op.hlc

/-- The delete branch of `applyOp`. -/
def applyDelete (unicode : Unicode) (row : Option RegistryRow) (op : RowOp) :
    Option RegistryRow × Bool :=
  match row with
  | none =>
      -- Tombstone-on-missing guards against a late create racing the delete.
      (some
        { kind := op.kind, id := op.id, seq := 0, deleted := true, delHlc := some op.hlc,
          fields := ∅, clocks := ∅ }, true)
  | some gone =>
      let beats :=
        if gone.deleted then hlcNewer unicode op.hlc gone.delHlc
        else hlcNewer unicode op.hlc (maxClock unicode gone)
      if beats then
        (some { gone with deleted := true, delHlc := some op.hlc, fields := ∅, clocks := ∅ }, true)
      else (some gone, false)

/-- `base`, or the result when the operation stops before its fields. -/
def writeBase (unicode : Unicode) (row : Option RegistryRow) (op : RowOp) :
    Except (Option RegistryRow × Bool) RegistryRow :=
  match row with
  | some row =>
      if row.deleted then
        if op.op = .update then .error (some row, false)
        else if !hlcNewer unicode op.hlc row.delHlc then .error (some row, false)
        -- Revival: the tombstone loses wholesale; the upsert's fields are the row.
        else .ok { row with deleted := false, fields := ∅, clocks := ∅ }
      else .ok row
  | none =>
      if op.op = .update then .error (none, false)
      else
        .ok
          { kind := op.kind, id := op.id, seq := 0, deleted := false, delHlc := none,
            fields := ∅, clocks := ∅ }

/-- One turn of the loop over `op.set`. -/
def writeField (unicode : Unicode) (op : RowOp) (state : RegistryRow × Bool) (key : String)
    (value : Json) : RegistryRow × Bool :=
  let base := state.1
  let clock := clockFor unicode op key
  if hlcNewer unicode clock base.clocks[unicode.canonical key]? then
    ({ base with
        fields :=
          if value.isNull then base.fields.erase (unicode.canonical key)
          else base.fields.insert (unicode.canonical key) value
        clocks := base.clocks.insert (unicode.canonical key) clock }, true)
  else state

/-- `applyOp`. -/
def applyOp (unicode : Unicode) (row : Option RegistryRow) (op : RowOp) :
    Option RegistryRow × Bool :=
  if op.op = .delete then applyDelete unicode row op
  else
    match writeBase unicode row op with
    | .error result => result
    | .ok base =>
        let changed := row.isNone || (row.any (·.deleted) && !base.deleted)
        let (written, changed) := (op.set.getD ∅).foldl (writeField unicode op) (base, changed)
        if !changed then (some written, false) else (some { written with deleted := false }, true)

/-- `rowToSeedOp`. -/
def rowToSeedOp (unicode : Unicode) (row : RegistryRow) : RowOp :=
  if row.deleted then
    { kind := row.kind
      id := row.id
      op := .delete
      set := none
      hlc := row.delHlc.getD (encodeHlc 0 0 "seed")
      clocks := none }
  else
    { kind := row.kind
      id := row.id
      op := .upsert
      set := some row.fields
      hlc := (maxClock unicode row).getD (encodeHlc 0 0 "seed")
      clocks := some row.clocks }

/-! ## Validation -/

/-- A line ending of one character. -/
def isLineEnd (char : Char) : Bool :=
  [10, 11, 12, 13, 133, 8232, 8233].contains char.toNat

/-- The text up to where `$` first matches: a line ending at the end is left out. -/
def beforeLineEnd (chars : List Char) : List Char :=
  match chars.reverse with
  | '\n' :: '\r' :: rest => rest.reverse
  | last :: rest => if isLineEnd last then rest.reverse else chars
  | [] => []

/-- `matches`, for a pattern that is anchored at both ends and matches no line ending. -/
def matchesLine (pattern : String → Bool) (text : String) : Bool :=
  pattern (String.ofList (beforeLineEnd text.toList))

/-- `idRe`: 1 to 256 letters, digits or characters of `_`, `.`, `:`, `@`, `/`, `-`. -/
def idRe : String → Bool :=
  matchesLine (Edge.matchesName Edge.idRe.isIdChar Edge.idRe.isIdChar 255)

/-- `^[a-z][a-zA-Z0-9]{0,31}$` -/
def kindRe : String → Bool :=
  matchesLine (Edge.matchesName isLower isAlphanumeric 31)

/-- `^[a-zA-Z][a-zA-Z0-9]{0,63}$` -/
def fieldRe : String → Bool :=
  matchesLine (Edge.matchesName (fun char => isUpper char || isLower char) isAlphanumeric 63)

/-- `\d{13}-\d{6}-[A-Za-z0-9_-]{1,128}`, the whole text. -/
def isHlc (unicode : Unicode) (text : String) : Bool :=
  let chars := text.toList
  let device := chars.drop 21
  (chars.take 13).length == 13 && (chars.take 13).all unicode.isDecimal &&
    chars[13]? == some '-' &&
    ((chars.drop 14).take 6).length == 6 && ((chars.drop 14).take 6).all unicode.isDecimal &&
    chars[20]? == some '-' &&
    1 ≤ device.length && device.length ≤ 128 && device.all isDeviceChar

/-- `^\d{13}-\d{6}-[A-Za-z0-9_-]{1,128}$` -/
def hlcRe (unicode : Unicode) : String → Bool :=
  matchesLine (isHlc unicode)

/-- `registryMaxOpBytes`. -/
def registryMaxOpBytes : Nat := 16 * 1024

/-- `JSONEncoder().encode(op)`: a slash is printed with a backslash before it. -/
def encoded (op : RowOp) : List Char :=
  (encodeOp op).stringify.flatMap fun char => if char = '/' then ['\\', '/'] else [char]

/-- The checks on `op.set`. -/
def validateSet (op : RowOp) : Option String :=
  if op.op = .delete then
    if op.set.isSome then some "delete carries set" else none
  else
    match op.set with
    | none => some "missing set"
    | some set => (set.keys.find? fun key => !fieldRe key).map fun key => "bad field: " ++ key

/-- The checks on `op.clocks`. -/
def validateClocks (unicode : Unicode) (op : RowOp) : Option String :=
  op.clocks.bind fun clocks =>
    clocks.toList.findSome? fun (key, hlc) =>
      if !fieldRe key then some ("bad clock field: " ++ key)
      else if !hlcRe unicode hlc then some ("bad clock: " ++ key)
      else none

/-- `validateOp`: the text of the first check that fails. -/
def validateOp (unicode : Unicode) (op : RowOp) : Option String :=
  if !kindRe op.kind then some "bad kind"
  else if !idRe op.id then some "bad id"
  else if !hlcRe unicode op.hlc then some "bad hlc"
  else
    (validateSet op).or <| (validateClocks unicode op).or <|
      if registryMaxOpBytes < ((encoded op).map Char.utf8Size).sum then some "op too large"
      else none

end Zeron.Registry.Phone
