import Zeron.Data.Map
import Zeron.Wire.Json

/-!
# Hybrid logical clocks

A clock is the text `{ms:013}-{counter:06}-{device}`; clocks are compared as
texts.  `HlcClock` is the monotonic source of a device's own clocks, and the
fields it prints can be read back, so a source never prints one text twice.
-/

namespace Zeron.Registry

/-- A clock's wire text. -/
abbrev Hlc := String

/-- Decimal digits of `n`, zero-padded on the left to `width`. -/
def padded (width n : Nat) : List Char :=
  let digits := Nat.toDigits 10 n
  List.replicate (width - digits.length) '0' ++ digits

/-- `{ms:013}-{counter:06}-{device}`. -/
def encodeHlc (ms counter : Nat) (device : String) : Hlc :=
  String.ofList (padded 13 ms ++ ['-'] ++ padded 6 counter ++ ['-'] ++ device.toList)

/-- `clock` is strictly newer than `stored`; a clock never written loses to any. -/
def hlcNewer (clock : Hlc) (stored : Option Hlc) : Bool :=
  match stored with
  | none => true
  | some stored => decide (stored < clock)

@[simp]
theorem hlcNewer_none (clock : Hlc) : hlcNewer clock none = true :=
  rfl

variable {clock : Hlc}

@[simp]
theorem hlcNewer_some_iff {stored : Hlc} :
    hlcNewer clock (some stored) = true ↔ stored < clock := by
  exact decide_eq_true_iff

@[simp]
theorem hlcNewer_some_eq_false_iff {stored : Hlc} :
    hlcNewer clock (some stored) = false ↔ clock ≤ stored := by
  exact decide_eq_false_iff_not.trans not_lt

theorem hlcNewer_iff {stored : Option Hlc} :
    hlcNewer clock stored = true ↔ ∀ other ∈ stored, other < clock := by
  cases stored <;> simp

theorem hlcNewer_eq_false_iff {stored : Option Hlc} :
    hlcNewer clock stored = false ↔ ∃ other ∈ stored, clock ≤ other := by
  cases stored <;> simp

/-! ## Well-formed clock texts -/

def isDigit (char : Char) : Bool :=
  '0' ≤ char && char ≤ '9'

def isLower (char : Char) : Bool :=
  'a' ≤ char && char ≤ 'z'

def isUpper (char : Char) : Bool :=
  'A' ≤ char && char ≤ 'Z'

/-- `[A-Za-z0-9]`. -/
def isAlphanumeric (char : Char) : Bool :=
  isUpper char || isLower char || isDigit char

/-- `[A-Za-z0-9_-]`. -/
def isDeviceChar (char : Char) : Bool :=
  isAlphanumeric char || char == '_' || char == '-'

/-- `/^\d{13}-\d{6}-[A-Za-z0-9_-]{1,128}$/`. -/
def hlcRe (text : String) : Bool :=
  let chars := text.toList
  let device := chars.drop 21
  (chars.take 13).length == 13 && (chars.take 13).all isDigit &&
    chars[13]? == some '-' &&
    ((chars.drop 14).take 6).length == 6 && ((chars.drop 14).take 6).all isDigit &&
    chars[20]? == some '-' &&
    1 ≤ device.length && device.length ≤ 128 && device.all isDeviceChar

/-! ## The device's clock source -/

/-- Monotonic clock source, persisted with the replica. -/
structure HlcClock where
  lastMs : Nat
  counter : Nat

namespace HlcClock

/-- `HlcClock::default()`. -/
def initial : HlcClock := ⟨0, 0⟩

/-- The source after one tick at wall-clock time `nowMs`. -/
def tick (clock : HlcClock) (nowMs : Nat) : HlcClock :=
  if clock.lastMs < nowMs then ⟨nowMs, 0⟩
  else if 999999 < clock.counter + 1 then ⟨clock.lastMs + 1, 0⟩
  else ⟨clock.lastMs, clock.counter + 1⟩

/-- The clock text the source prints for `device` in its present state. -/
def print (clock : HlcClock) (device : String) : Hlc :=
  encodeHlc clock.lastMs clock.counter device

/-- `HlcClock::next`: tick, then print. -/
def next (clock : HlcClock) (nowMs : Nat) (device : String) : HlcClock × Hlc :=
  let ticked := clock.tick nowMs
  (ticked, ticked.print device)

/-- The order in which a source moves: milliseconds first, then the counter. -/
def Precedes (first second : HlcClock) : Prop :=
  first.lastMs < second.lastMs ∨
    (first.lastMs = second.lastMs ∧ first.counter < second.counter)

theorem Precedes.trans {first second third : HlcClock}
    (left : first.Precedes second) (right : second.Precedes third) : first.Precedes third := by
  unfold Precedes at *
  omega

theorem Precedes.ne {first second : HlcClock} (precedes : first.Precedes second) :
    first ≠ second := by
  rintro rfl
  unfold Precedes at precedes
  omega

/-- Every tick moves the source forward, also across a wall-clock regression. -/
theorem precedes_tick (clock : HlcClock) (nowMs : Nat) : clock.Precedes (clock.tick nowMs) := by
  unfold tick Precedes
  split
  · exact Or.inl ‹_›
  · split
    · exact Or.inl (Nat.lt_succ_self _)
    · exact Or.inr ⟨rfl, Nat.lt_succ_self _⟩

end HlcClock

/-! ## Reading the fields back -/

theorem mem_toDigits_ne_dash {n : Nat} {char : Char} (member : char ∈ Nat.toDigits 10 n) :
    char ≠ '-' := by
  have digit := Nat.isDigit_of_mem_toDigits (by decide) (by decide) member
  rintro rfl
  exact absurd digit (by decide)

theorem mem_padded_ne_dash {width n : Nat} {char : Char} (member : char ∈ padded width n) :
    char ≠ '-' := by
  rcases List.mem_append.mp member with zero | digit
  · rw [List.eq_of_mem_replicate zero]
    decide
  · exact mem_toDigits_ne_dash digit

theorem padded_injective {width n m : Nat} (equal : padded width n = padded width m) :
    n = m := by
  have values := congrArg (fun digits => Nat.ofDigitChars 10 digits 0) equal
  simpa [padded, Nat.ofDigitChars_append] using values

/-- A dash-free field is what stands before the first dash. -/
theorem append_dash_inj {first second : List Char} {rest others : List Char}
    (firstFree : ∀ char ∈ first, char ≠ '-') (secondFree : ∀ char ∈ second, char ≠ '-')
    (equal : first ++ '-' :: rest = second ++ '-' :: others) :
    first = second ∧ rest = others := by
  induction first generalizing second with
  | nil =>
      cases second with
      | nil => exact ⟨rfl, (List.cons.inj equal).2⟩
      | cons char _ =>
          exact absurd (List.cons.inj equal).1.symm (secondFree char List.mem_cons_self)
  | cons head tail ih =>
      cases second with
      | nil => exact absurd (List.cons.inj equal).1 (firstFree head List.mem_cons_self)
      | cons char chars =>
          obtain ⟨headEq, tailEq⟩ := List.cons.inj equal
          obtain ⟨tails, rests⟩ := ih
            (fun other member => firstFree other (List.mem_cons_of_mem _ member))
            (fun other member => secondFree other (List.mem_cons_of_mem _ member)) tailEq
          exact ⟨by rw [headEq, tails], rests⟩

theorem encodeHlc_injective {ms counter ms' counter' : Nat} {device : String}
    (equal : encodeHlc ms counter device = encodeHlc ms' counter' device) :
    ms = ms' ∧ counter = counter' := by
  have chars := congrArg String.toList equal
  simp only [encodeHlc, String.toList_ofList, List.append_assoc] at chars
  obtain ⟨msEq, rest⟩ := append_dash_inj (fun _ => mem_padded_ne_dash)
    (fun _ => mem_padded_ne_dash) chars
  obtain ⟨counterEq, _⟩ := append_dash_inj (fun _ => mem_padded_ne_dash)
    (fun _ => mem_padded_ne_dash) rest
  exact ⟨padded_injective msEq, padded_injective counterEq⟩

/-- Two states of one device's source print different texts. -/
theorem HlcClock.print_injective {first second : HlcClock} {device : String}
    (equal : first.print device = second.print device) : first = second := by
  obtain ⟨msEq, counterEq⟩ := encodeHlc_injective equal
  cases first
  cases second
  congr

end Zeron.Registry

/-!
## Rows, operations and the merge

The rows and operations of the workspace registry, and the engine's merge of
an operation into a row.  A row holds current state only: each field carries
the clock of its last write, and a write applies exactly when its clock is
strictly newer than the stored one.  `update` never creates or revives a row,
`upsert` does both, and `delete` leaves a tombstone when it is newer than
everything on the row.
-/

namespace Zeron.Registry

open Zeron.Data
open Zeron.Wire

/-- A map keyed by field names. -/
abbrev FieldMap (α : Type) := Std.ExtTreeMap String α compare

/-- The primary key of a row. -/
structure RowKey where
  kind : String
  id : String
  deriving DecidableEq

instance : Ord RowKey :=
  ⟨compareLex (compareOn RowKey.kind) (compareOn RowKey.id)⟩

instance : Std.TransOrd RowKey :=
  inferInstanceAs (Std.TransCmp (compareLex (compareOn RowKey.kind) (compareOn RowKey.id)))

instance : Std.LawfulEqOrd RowKey where
  eq_of_compare {first second} equal := by
    obtain ⟨kinds, ids⟩ := Ordering.then_eq_eq.mp equal
    cases first
    cases second
    exact congrArg₂ RowKey.mk (Std.LawfulEqCmp.eq_of_compare kinds)
      (Std.LawfulEqCmp.eq_of_compare ids)

structure RegistryRow where
  kind : String
  id : String
  /-- Server seq of the batch that last touched this row (0 locally). -/
  seq : Nat
  deleted : Bool
  /-- Tombstone clock: an upsert newer than this revives the row. -/
  delHlc : Option Hlc
  fields : FieldMap Json
  /-- Per-field last-write clocks. -/
  clocks : FieldMap Hlc
  deriving DecidableEq

inductive OpKind where
  | upsert
  | update
  | delete
  deriving DecidableEq

structure RowOp where
  kind : String
  id : String
  op : OpKind
  /-- Field writes; `null` deletes the field.  Absent for deletes. -/
  set : Option (FieldMap Json)
  /-- Clock for every write in `set` without an entry in `clocks`. -/
  hlc : Hlc
  /-- Per-field clock overrides. -/
  clocks : Option (FieldMap Hlc)
  deriving DecidableEq

/-- Rows by key. -/
abbrev Table := Std.ExtTreeMap RowKey RegistryRow compare

namespace RegistryRow

def key (row : RegistryRow) : RowKey :=
  ⟨row.kind, row.id⟩

/-- `RegistryRow::tombstone`. -/
def tombstone (kind id : String) (hlc : Hlc) : RegistryRow :=
  { kind, id, seq := 0, deleted := true, delHlc := some hlc, fields := ∅, clocks := ∅ }

/-- A live row without fields. -/
def blank (kind id : String) : RegistryRow :=
  { kind, id, seq := 0, deleted := false, delHlc := none, fields := ∅, clocks := ∅ }

@[simp]
theorem tombstone_delHlc (kind id : String) (hlc : Hlc) :
    (tombstone kind id hlc).delHlc = some hlc :=
  rfl

/-- The newest clock anywhere on the row, the tombstone clock included. -/
def maxClock (row : RegistryRow) : Option Hlc :=
  (values row.clocks).foldl
    (fun max clock => if hlcNewer clock max then some clock else max) row.delHlc

end RegistryRow

namespace RowOp

def key (op : RowOp) : RowKey :=
  ⟨op.kind, op.id⟩

/-- The operation a device's own field write enqueues: one clock for all fields. -/
def fieldWrite (kind id : String) (op : OpKind) (set : FieldMap Json) (hlc : Hlc) : RowOp :=
  { kind, id, op, set := some set, hlc, clocks := none }

/-- The operation a device's own delete enqueues. -/
def rowDelete (kind id : String) (hlc : Hlc) : RowOp :=
  { kind, id, op := .delete, set := none, hlc, clocks := none }

/-- The clock of the operation's write to `field`. -/
def clockFor (op : RowOp) (field : String) : Hlc :=
  ((op.clocks.getD ∅)[field]?).getD op.hlc

end RowOp

/-- The delete branch of `apply_op`. -/
def applyDelete (row : Option RegistryRow) (op : RowOp) : Option RegistryRow × Bool :=
  match row with
  -- Tombstone-on-missing guards against a late create racing the delete.
  | none => (some (.tombstone op.kind op.id op.hlc), true)
  | some row =>
      let beats :=
        if row.deleted then hlcNewer op.hlc row.delHlc else hlcNewer op.hlc row.maxClock
      if beats then
        (some { row with deleted := true, delHlc := some op.hlc, fields := ∅, clocks := ∅ }, true)
      else
        (some row, false)

/-- The row that an upsert or update writes its fields into, or the result when
the operation stops before its fields. -/
def writeBase (row : Option RegistryRow) (op : RowOp) :
    Except (Option RegistryRow × Bool) RegistryRow :=
  match row with
  | none =>
      if op.op = .update then .error (none, false) else .ok (.blank op.kind op.id)
  | some row =>
      if row.deleted then
        if op.op = .update || !hlcNewer op.hlc row.delHlc then
          .error (some row, false)
        else
          -- Revival: the tombstone loses wholesale; the upsert's fields are the row.
          .ok { row with deleted := false, fields := ∅, clocks := ∅ }
      else
        .ok row

/-- One field write of an upsert or update, with the running `changed` flag. -/
def writeField (op : RowOp) (state : RegistryRow × Bool) (field : String) (value : Json) :
    RegistryRow × Bool :=
  let base := state.1
  let clock := op.clockFor field
  if hlcNewer clock base.clocks[field]? then
    ({ base with
        fields := if value.isNull then base.fields.erase field else base.fields.insert field value
        clocks := base.clocks.insert field clock }, true)
  else
    state

/-- All field writes of an upsert or update, from `base`. -/
def writeFields (op : RowOp) (base : RegistryRow) (created : Bool) : RegistryRow × Bool :=
  (op.set.getD ∅).foldl (writeField op) (base, created)

/-- `apply_op`: the new row (`none` only for an update on a missing row) and
whether anything changed. -/
def applyOp (row : Option RegistryRow) (op : RowOp) : Option RegistryRow × Bool :=
  if op.op = .delete then
    applyDelete row op
  else
    match writeBase row op with
    | .error result => result
    | .ok base =>
        let created := row.isNone || (row.any (·.deleted) && !base.deleted)
        let (written, changed) := writeFields op base created
        if changed then (some { written with deleted := false }, true) else (some written, false)

/-- `row_to_seed_op`: a row as a re-seed operation, one upsert carrying the
row's original per-field clocks, or a delete for a tombstone. -/
def rowToSeedOp (row : RegistryRow) : RowOp :=
  if row.deleted then
    { kind := row.kind
      id := row.id
      op := .delete
      set := none
      hlc := row.delHlc.getD (encodeHlc 0 0 "seed")
      clocks := none }
  else
    { kind := row.kind
      id := row.id
      op := .upsert
      set := some row.fields
      hlc := row.maxClock.getD (encodeHlc 0 0 "seed")
      clocks := some row.clocks }

theorem rowToSeedOp_key (row : RegistryRow) : (rowToSeedOp row).key = row.key := by
  unfold rowToSeedOp
  split <;> rfl

/-- The row after a list of operations, the changes aside. -/
def applyOps (row : Option RegistryRow) (ops : List RowOp) : Option RegistryRow :=
  ops.foldl (fun row op => (applyOp row op).1) row

end Zeron.Registry

/-!
## Operations on the wire

An operation travels as a JSON object.  `encodeOp` is what the engine
serializes; `readOp` is the typed view that the edge has of an object once its
validation has accepted it.
-/

namespace Zeron.Registry

open Zeron.Data
open Zeron.Wire

/-- `"upsert"`, `"update"` or `"delete"`. -/
def OpKind.text : OpKind → String
  | upsert => "upsert"
  | update => "update"
  | delete => "delete"

/-- The kind named by a text. -/
def OpKind.read (text : String) : OpKind :=
  if text = "delete" then delete else if text = "update" then update else upsert

@[simp]
theorem OpKind.read_text (kind : OpKind) : OpKind.read kind.text = kind := by
  cases kind <;> decide

/-- An object member that is left out when there is nothing to write. -/
def optionalMember (name : String) (value : Option Json) : List (String × Json) :=
  (value.map fun json => (name, json)).toList

/-- The members of `serde_json::to_value(op)`. -/
def encodeOp (op : RowOp) : Json :=
  .obj ([("kind", .str op.kind), ("id", .str op.id), ("op", .str op.op.text)] ++
    optionalMember "set" (op.set.map fun set => .obj set.toList) ++
    [("hlc", .str op.hlc)] ++
    optionalMember "clocks" (op.clocks.map fun clocks =>
      .obj (clocks.toList.map fun entry => (entry.1, .str entry.2))))

/-- A `push` frame. -/
def pushFrame (batch : String) (ops : List RowOp) : Json :=
  .obj [("t", .str "push"), ("batch", .str batch), ("ops", .arr (ops.map encodeOp))]

/-- The entries of an object; none on any other value. -/
def entries : Json → List (String × Json)
  | .obj members => members
  | _ => []

/-- A string member; empty when it is missing or not a string. -/
def readString (value : Option Json) : String :=
  (value.bind Json.asString).getD ""

/-- The typed view of an accepted operation. -/
def readOp (op : Json) : RowOp where
  kind := readString (op.member "kind")
  id := readString (op.member "id")
  op := .read (readString (op.member "op"))
  set := (op.member "set").map fun set => .ofList (entries set) compare
  hlc := readString (op.member "hlc")
  clocks := (op.member "clocks").map fun clocks =>
    .ofList ((entries clocks).map fun entry => (entry.1, readString (some entry.2))) compare

/-- What the engine serializes is what the edge reads. -/
@[simp]
theorem readOp_encodeOp (op : RowOp) : readOp (encodeOp op) = op := by
  obtain ⟨kind, id, opKind, set, hlc, clocks⟩ := op
  cases set <;> cases clocks <;>
    simp [readOp, encodeOp, optionalMember, Json.member, List.lookup_cons, readString, Json.asString,
      entries, Function.comp_def]

end Zeron.Registry
