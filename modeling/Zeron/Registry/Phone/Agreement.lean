import Zeron.Registry.Phone.Core
import Zeron.Registry.Edge.Agreement

/-!
# The phone's merge and the engine's

An ASCII text is its own canonical form, so on rows and operations whose names and clocks
are ASCII the phone merges as the engine does.  What the room's validation accepts is of
this kind.
-/

namespace Zeron.Registry.Phone

open Zeron.Data
open Zeron.Wire

/-- The texts of a row that are compared: its names and clocks. -/
def rowTexts (row : RegistryRow) : List String :=
  [row.kind, row.id] ++ row.delHlc.toList ++ row.fields.keys ++ row.clocks.keys ++
    values row.clocks

/-- The names and clocks of an operation. -/
def opTexts (op : RowOp) : List String :=
  [op.kind, op.id, op.hlc] ++ (op.set.getD ∅).keys ++ (op.clocks.getD ∅).keys ++
    values (op.clocks.getD ∅)

def RowAscii (row : RegistryRow) : Prop :=
  ∀ text ∈ rowTexts row, IsAscii text

def OpAscii (op : RowOp) : Prop :=
  ∀ text ∈ opTexts op, IsAscii text

instance (row : RegistryRow) : Decidable (RowAscii row) :=
  inferInstanceAs (Decidable (∀ text ∈ rowTexts row, IsAscii text))

/-- The names of a map are ASCII. -/
def NamesAscii {α : Type} (map : FieldMap α) : Prop :=
  ∀ (field : String) (value : α), map[field]? = some value → IsAscii field

/-- The clocks of a map are ASCII. -/
def ClocksAscii (clocks : FieldMap Hlc) : Prop :=
  ∀ (field : String) (hlc : Hlc), clocks[field]? = some hlc → IsAscii hlc

variable {α : Type} {map : FieldMap α}

theorem namesAscii_iff :
    NamesAscii map ↔ ∀ field ∈ map.keys, IsAscii field := by
  constructor
  · intro names field member
    rcases mem_iff_exists.mp (Std.ExtTreeMap.mem_keys.mp member) with ⟨value, found⟩
    exact names field value found
  · intro names field value found
    exact names field (Std.ExtTreeMap.mem_keys.mpr (mem_iff_exists.mpr ⟨value, found⟩))

theorem clocksAscii_iff {clocks : FieldMap Hlc} :
    ClocksAscii clocks ↔ ∀ hlc ∈ values clocks, IsAscii hlc := by
  constructor
  · intro ascii hlc member
    rcases mem_values_iff.mp member with ⟨field, found⟩
    exact ascii field hlc found
  · intro ascii field hlc found
    exact ascii hlc (mem_values_iff.mpr ⟨field, found⟩)

theorem rowAscii_iff {row : RegistryRow} :
    RowAscii row ↔ IsAscii row.kind ∧ IsAscii row.id ∧ (∀ hlc ∈ row.delHlc, IsAscii hlc) ∧
      NamesAscii row.fields ∧ NamesAscii row.clocks ∧ ClocksAscii row.clocks := by
  rw [namesAscii_iff, namesAscii_iff, clocksAscii_iff]
  simp only [RowAscii, rowTexts, List.cons_append, List.nil_append, List.forall_mem_cons,
    List.forall_mem_append, Option.mem_toList, Option.mem_def, and_assoc]

variable {op : RowOp}

theorem opAscii_iff :
    OpAscii op ↔ IsAscii op.kind ∧ IsAscii op.id ∧ IsAscii op.hlc ∧ NamesAscii op.writes ∧
      NamesAscii (op.clocks.getD ∅) ∧ ClocksAscii (op.clocks.getD ∅) := by
  rw [namesAscii_iff, namesAscii_iff, clocksAscii_iff]
  simp only [OpAscii, opTexts, RowOp.writes, List.cons_append, List.nil_append,
    List.forall_mem_cons, List.forall_mem_append, and_assoc]

/-! ## Maps -/

theorem namesAscii_empty : NamesAscii (∅ : FieldMap α) := by
  intro field value found
  simp at found

theorem clocksAscii_empty : ClocksAscii ∅ := by
  intro field hlc found
  simp at found

theorem NamesAscii.insert (names : NamesAscii map) {key : String} (ascii : IsAscii key)
    (value : α) : NamesAscii (map.insert key value) := by
  intro field other found
  rw [getElem?_insert_eq] at found
  split at found
  · rename_i same
    exact same ▸ ascii
  · exact names field other found

theorem NamesAscii.erase (names : NamesAscii map) (key : String) :
    NamesAscii (map.erase key) := by
  intro field other found
  rw [getElem?_erase_eq] at found
  split at found
  · cases found
  · exact names field other found

theorem ClocksAscii.insert {clocks : FieldMap Hlc} (ascii : ClocksAscii clocks) (key : String)
    {hlc : Hlc} (clock : IsAscii hlc) : ClocksAscii (clocks.insert key hlc) := by
  intro field other found
  rw [getElem?_insert_eq] at found
  split at found
  · cases found
    exact clock
  · exact ascii field other found

section Unicode

variable (unicode : Unicode)

theorem same_of_ascii {first second : String} (left : IsAscii first) (right : IsAscii second) :
    unicode.same first second = (first == second) := by
  rw [Unicode.same, unicode.canonical_of_ascii first left, unicode.canonical_of_ascii second right]

theorem key_of_ascii {kind id : String} (kind_ascii : IsAscii kind) (id_ascii : IsAscii id) :
    unicode.key kind id = ⟨kind, id⟩ := by
  rw [Unicode.key, unicode.canonical_of_ascii kind kind_ascii, unicode.canonical_of_ascii id id_ascii]

/-- ASCII names are decoded as they are. -/
theorem dictionary_of_ascii {α : Type} {entries : FieldMap α} (names : NamesAscii entries) :
    unicode.dictionary entries = entries := by
  have plain : unicode.dictionary entries =
      entries.foldl (fun decoded key value => decoded.insert key value) ∅ := by
    rw [Unicode.dictionary, Std.ExtTreeMap.foldl_eq_foldl_toList,
      Std.ExtTreeMap.foldl_eq_foldl_toList]
    apply List.foldl_ext
    rintro decoded ⟨key, value⟩ member
    have stored := Std.ExtTreeMap.mem_toList_iff_getElem?_eq_some.mp member
    rw [unicode.canonical_of_ascii key (names key value stored)]
  rw [plain]
  apply Std.ExtTreeMap.ext_getElem?
  intro key
  rw [getElem?_foldl_insert, Std.ExtTreeMap.getElem?_empty, Option.or_none]

theorem decodeRow_of_ascii {row : RegistryRow} (ascii : RowAscii row) :
    unicode.decodeRow row = row := by
  rcases rowAscii_iff.mp ascii with ⟨-, -, -, fields, clocks, -⟩
  rw [Unicode.decodeRow, dictionary_of_ascii unicode fields, dictionary_of_ascii unicode clocks]

/-! ## Clocks -/

theorem encodeHlc_eq (ms counter : Nat) (device : String) :
    encodeHlc ms counter device = Registry.encodeHlc ms counter device := by
  have pad_eq : ∀ n width, pad n width = padded width n := by
    intro n width
    unfold pad padded
    dsimp only
    split
    · rw [Nat.sub_eq_zero_of_le ‹_›, List.replicate_zero, List.nil_append]
    · rfl
  rw [encodeHlc, Registry.encodeHlc, pad_eq, pad_eq]

theorem next_eq (clock : HlcClock) (nowMs : Nat) (device : String) :
    next clock nowMs device = clock.next nowMs device := by
  rw [next, HlcClock.next, HlcClock.tick, HlcClock.print, ← encodeHlc_eq]

theorem hlcNewer_eq {a : Hlc} {b : Option Hlc} (ascii : IsAscii a)
    (stored_ascii : ∀ stored ∈ b, IsAscii stored) :
    hlcNewer unicode a b = Registry.hlcNewer a b := by
  cases b with
  | none => rfl
  | some stored =>
      rw [hlcNewer, Registry.hlcNewer, unicode.canonical_of_ascii a ascii,
        unicode.canonical_of_ascii stored (stored_ascii stored rfl)]

theorem foldl_newest_eq {clocks : List Hlc} {start : Option Hlc}
    (ascii : ∀ hlc ∈ clocks, IsAscii hlc) (start_ascii : ∀ hlc ∈ start, IsAscii hlc) :
    clocks.foldl (fun max clock => if hlcNewer unicode clock max then some clock else max) start =
        clocks.foldl (fun max clock => if Registry.hlcNewer clock max then some clock else max)
          start ∧
      ∀ hlc ∈ clocks.foldl
        (fun max clock => if Registry.hlcNewer clock max then some clock else max) start,
        IsAscii hlc := by
  induction clocks generalizing start with
  | nil => exact ⟨rfl, start_ascii⟩
  | cons clock rest ih =>
      rcases List.forall_mem_cons.mp ascii with ⟨clock_ascii, rest_ascii⟩
      rw [List.foldl_cons, hlcNewer_eq unicode clock_ascii start_ascii]
      apply ih rest_ascii
      split
      · rintro _ ⟨⟩
        exact clock_ascii
      · exact start_ascii

theorem maxClock_eq {row : RegistryRow} (ascii : RowAscii row) :
    maxClock unicode row = row.maxClock := by
  rcases rowAscii_iff.mp ascii with ⟨-, -, tombstone, -, -, clocks⟩
  exact (foldl_newest_eq unicode (clocksAscii_iff.mp clocks) tombstone).1

theorem maxClock_ascii {row : RegistryRow} (ascii : RowAscii row) :
    ∀ hlc ∈ row.maxClock, IsAscii hlc := by
  rcases rowAscii_iff.mp ascii with ⟨-, -, tombstone, -, -, clocks⟩
  exact (foldl_newest_eq .ascii (clocksAscii_iff.mp clocks) tombstone).2

theorem clockFor_eq (op : RowOp) {field : String} (ascii : IsAscii field) :
    clockFor unicode op field = op.clockFor field := by
  rw [clockFor, RowOp.clockFor, unicode.canonical_of_ascii field ascii]
  cases op.clocks with
  | none => simp
  | some clocks => rfl

variable {op : RowOp}

theorem clockFor_ascii (ascii : OpAscii op) (field : String) :
    IsAscii (op.clockFor field) := by
  rcases opAscii_iff.mp ascii with ⟨-, -, hlc, -, -, clocks⟩
  rw [RowOp.clockFor]
  cases found : (op.clocks.getD ∅)[field]? with
  | none => exact hlc
  | some clock => exact clocks field clock found

variable {row : Option RegistryRow}

/-! ## Merge -/

theorem applyDelete_eq (row_ascii : ∀ held ∈ row, RowAscii held) (op_ascii : OpAscii op) :
    applyDelete unicode row op = Registry.applyDelete row op := by
  rcases opAscii_iff.mp op_ascii with ⟨-, -, hlc, -⟩
  cases row with
  | none => rfl
  | some gone =>
      have ascii := row_ascii gone rfl
      have tombstone := (rowAscii_iff.mp ascii).2.2.1
      rw [applyDelete, Registry.applyDelete, hlcNewer_eq unicode hlc tombstone,
        maxClock_eq unicode ascii, hlcNewer_eq unicode hlc (maxClock_ascii ascii)]

theorem writeBase_eq (row_ascii : ∀ held ∈ row, RowAscii held) (op_ascii : OpAscii op) :
    writeBase unicode row op = Registry.writeBase row op := by
  rcases opAscii_iff.mp op_ascii with ⟨-, -, hlc, -⟩
  cases row with
  | none => rfl
  | some held =>
      have tombstone := (rowAscii_iff.mp (row_ascii held rfl)).2.2.1
      rw [writeBase, Registry.writeBase, hlcNewer_eq unicode hlc tombstone]
      by_cases isUpdate : op.op = .update <;> simp [isUpdate]

/-- One field write: the phone's is the engine's, and the names stay ASCII. -/
theorem writeField_eq (op_ascii : OpAscii op) {state : RegistryRow × Bool}
    (row_ascii : RowAscii state.1) {field : String} (ascii : IsAscii field) (value : Json) :
    writeField unicode op state field value = Registry.writeField op state field value ∧
      RowAscii (Registry.writeField op state field value).1 := by
  rcases rowAscii_iff.mp row_ascii with ⟨kind, id, tombstone, fields, names, clocks⟩
  have clock_ascii := clockFor_ascii op_ascii field
  have stored_ascii : ∀ stored ∈ state.1.clocks[field]?, IsAscii stored :=
    fun stored found => clocks field stored found
  constructor
  · rw [writeField, Registry.writeField, clockFor_eq unicode op ascii,
      unicode.canonical_of_ascii field ascii, hlcNewer_eq unicode clock_ascii stored_ascii]
  · cases newer : Registry.hlcNewer (op.clockFor field) state.1.clocks[field]? with
    | false => rwa [writeField_of_not_newer op value newer]
    | true =>
        rw [writeField_of_newer op value newer]
        refine rowAscii_iff.mpr ⟨kind, id, tombstone, ?_, names.insert ascii _,
          clocks.insert field clock_ascii⟩
        split
        · exact fields.erase field
        · exact fields.insert ascii value

theorem foldl_writeField_eq (op_ascii : OpAscii op) {entries : List (String × Json)}
    (names : ∀ entry ∈ entries, IsAscii entry.1) {state : RegistryRow × Bool}
    (row_ascii : RowAscii state.1) :
    entries.foldl (fun state entry => writeField unicode op state entry.1 entry.2) state =
        entries.foldl (fun state entry => Registry.writeField op state entry.1 entry.2) state ∧
      RowAscii (entries.foldl
        (fun state entry => Registry.writeField op state entry.1 entry.2) state).1 := by
  induction entries generalizing state with
  | nil => exact ⟨rfl, row_ascii⟩
  | cons entry rest ih =>
      rcases List.forall_mem_cons.mp names with ⟨name, rest_names⟩
      rcases writeField_eq unicode op_ascii row_ascii name entry.2 with ⟨same, next_ascii⟩
      rw [List.foldl_cons, same]
      exact ih rest_names next_ascii

theorem writeFields_eq (op_ascii : OpAscii op) {base : RegistryRow} (row_ascii : RowAscii base)
    (created : Bool) :
    (op.set.getD ∅).foldl (writeField unicode op) (base, created) =
        writeFields op base created ∧
      RowAscii (writeFields op base created).1 := by
  have names : ∀ entry ∈ op.writes.toList, IsAscii entry.1 := fun entry member =>
    (opAscii_iff.mp op_ascii).2.2.2.1 entry.1 entry.2
      (Std.ExtTreeMap.mem_toList_iff_getElem?_eq_some.mp member)
  rw [writeFields, Std.ExtTreeMap.foldl_eq_foldl_toList, Std.ExtTreeMap.foldl_eq_foldl_toList]
  exact foldl_writeField_eq unicode op_ascii names row_ascii

/-- An empty row under ASCII names. -/
theorem rowAscii_bare {row : RegistryRow} (kind : IsAscii row.kind) (id : IsAscii row.id)
    (tombstone : ∀ hlc ∈ row.delHlc, IsAscii hlc) (fields : row.fields = ∅)
    (clocks : row.clocks = ∅) : RowAscii row := by
  rw [rowAscii_iff, fields, clocks]
  exact ⟨kind, id, tombstone, namesAscii_empty, namesAscii_empty, clocksAscii_empty⟩

section

variable (row_ascii : ∀ held ∈ row, RowAscii held) (op_ascii : OpAscii op)
include row_ascii op_ascii

theorem applyDelete_ascii : ∀ next ∈ (Registry.applyDelete row op).1, RowAscii next := by
  rcases opAscii_iff.mp op_ascii with ⟨kind, id, hlc, -⟩
  have buried : ∀ stored ∈ some op.hlc, IsAscii stored := by
    rintro _ ⟨⟩
    exact hlc
  cases row with
  | none =>
      rintro _ ⟨⟩
      exact rowAscii_bare kind id buried rfl rfl
  | some gone =>
      rcases rowAscii_iff.mp (row_ascii gone rfl) with ⟨gone_kind, gone_id, -⟩
      rw [Registry.applyDelete]
      generalize (if gone.deleted = true then Registry.hlcNewer op.hlc gone.delHlc
        else Registry.hlcNewer op.hlc gone.maxClock) = beats
      cases beats with
      | false => exact row_ascii
      | true =>
          rintro _ ⟨⟩
          exact rowAscii_bare gone_kind gone_id buried rfl rfl

/-- Where an operation comes to its fields, and where it stops before. -/
theorem writeBase_ascii :
    match Registry.writeBase row op with
    | .error result => ∀ next ∈ result.1, RowAscii next
    | .ok base => RowAscii base := by
  rcases opAscii_iff.mp op_ascii with ⟨kind, id, -⟩
  cases row with
  | none =>
      rw [Registry.writeBase]
      by_cases isUpdate : op.op = .update
      · rw [if_pos isUpdate]
        rintro _ ⟨⟩
      · rw [if_neg isUpdate]
        exact rowAscii_bare kind id (by rintro _ ⟨⟩) rfl rfl
  | some held =>
      have ascii := row_ascii held rfl
      rcases rowAscii_iff.mp ascii with ⟨held_kind, held_id, tombstone, -⟩
      rw [Registry.writeBase]
      by_cases dead : held.deleted = true
      · rw [if_pos dead]
        cases (decide (op.op = .update) || !Registry.hlcNewer op.hlc held.delHlc) with
        | true => exact row_ascii
        | false => exact rowAscii_bare held_kind held_id tombstone rfl rfl
      · rw [if_neg dead]
        exact ascii

theorem applyOp_eq :
    applyOp unicode row op = Registry.applyOp row op ∧
      ∀ next ∈ (Registry.applyOp row op).1, RowAscii next := by
  rw [applyOp, Registry.applyOp]
  by_cases isDelete : op.op = .delete
  · rw [if_pos isDelete, if_pos isDelete]
    exact ⟨applyDelete_eq unicode row_ascii op_ascii, applyDelete_ascii row_ascii op_ascii⟩
  · rw [if_neg isDelete, if_neg isDelete, writeBase_eq unicode row_ascii op_ascii]
    have base_ascii := writeBase_ascii row_ascii op_ascii
    cases based : Registry.writeBase row op with
    | error result =>
        rw [based] at base_ascii
        exact ⟨rfl, base_ascii⟩
    | ok base =>
        rw [based] at base_ascii
        rcases writeFields_eq unicode op_ascii base_ascii
          (row.isNone || (row.any (·.deleted) && !base.deleted)) with ⟨same, written_ascii⟩
        dsimp only
        rw [same]
        constructor
        · cases (writeFields op base (row.isNone || (row.any (·.deleted) && !base.deleted))).2 <;> rfl
        · intro next found
          split at found
          · cases found
            exact written_ascii
          · cases found
            exact written_ascii

end

theorem rowToSeedOp_eq {row : RegistryRow} (ascii : RowAscii row) :
    rowToSeedOp unicode row = Registry.rowToSeedOp row := by
  rw [rowToSeedOp, Registry.rowToSeedOp, maxClock_eq unicode ascii, encodeHlc_eq]

theorem rowToSeedOp_ascii {row : RegistryRow} (ascii : RowAscii row) :
    OpAscii (Registry.rowToSeedOp row) := by
  rcases rowAscii_iff.mp ascii with ⟨kind, id, tombstone, fields, names, clocks⟩
  have never : IsAscii (Registry.encodeHlc 0 0 "seed") := by decide
  have newest : ∀ clock : Option Hlc, (∀ hlc ∈ clock, IsAscii hlc) →
      IsAscii (clock.getD (Registry.encodeHlc 0 0 "seed")) := by
    rintro (_ | hlc) ascii
    · exact never
    · exact ascii hlc rfl
  rw [opAscii_iff, Registry.rowToSeedOp]
  split
  · exact ⟨kind, id, newest _ tombstone, namesAscii_empty, namesAscii_empty, clocksAscii_empty⟩
  · exact ⟨kind, id, newest _ (maxClock_ascii ascii), fields, names, clocks⟩

end Unicode

/-! ## What the room accepts -/

/-- ASCII, and without a line ending at its end. -/
def Plain (text : String) : Prop :=
  IsAscii text ∧ beforeLineEnd text.toList = text.toList

/-- A text whose characters are no line endings is matched as it is. -/
theorem beforeLineEnd_of_forall {chars : List Char}
    (inside : ∀ char ∈ chars, isLineEnd char = false) : beforeLineEnd chars = chars := by
  unfold beforeLineEnd
  split
  · rename_i rest reversed
    have last : '\n' ∈ chars := by
      rw [← List.mem_reverse, reversed]
      exact List.mem_cons_self
    exact absurd (inside _ last) (by decide)
  · rename_i last rest _ reversed
    have member : last ∈ chars := by
      rw [← List.mem_reverse, reversed]
      exact List.mem_cons_self
    rw [inside last member]
    rfl
  · rename_i reversed
    exact (List.reverse_eq_nil_iff.mp reversed).symm

variable {text : String}

theorem matchesLine_of_plain (pattern : String → Bool) (plain : Plain text) :
    matchesLine pattern text = pattern text := by
  rw [matchesLine, plain.2, String.ofList_toList]

/-- The range that the characters of all patterns are in: from the dash on. -/
def InPattern (char : Char) : Prop :=
  45 ≤ char.toNat ∧ char.toNat < 128

theorem plain_of_inPattern (inside : ∀ char ∈ text.toList, InPattern char) :
    Plain text := by
  refine ⟨fun char member => (inside char member).2, beforeLineEnd_of_forall fun char member => ?_⟩
  rcases inside char member with ⟨low, high⟩
  by_contra ends
  simp only [Bool.not_eq_false, isLineEnd, List.contains_iff_mem, List.mem_cons,
    List.not_mem_nil, or_false] at ends
  omega

variable {char : Char}

theorem isAlphanumeric_inPattern (letter : isAlphanumeric char = true) :
    InPattern char := by
  simp only [isAlphanumeric, isUpper, isLower, isDigit, Bool.or_eq_true, Bool.and_eq_true,
    decide_eq_true_eq] at letter
  rcases letter with (⟨low, high⟩ | ⟨low, high⟩) | ⟨low, high⟩ <;>
    exact ⟨le_trans (by decide) low, lt_of_le_of_lt high (by decide)⟩

instance (char : Char) : Decidable (InPattern char) :=
  inferInstanceAs (Decidable (_ ∧ _))

theorem isDeviceChar_inPattern (device : isDeviceChar char = true) :
    InPattern char := by
  simp only [isDeviceChar, Bool.or_eq_true, beq_iff_eq] at device
  rcases device with (letter | rfl) | rfl
  · exact isAlphanumeric_inPattern letter
  · decide
  · decide

theorem isIdChar_inPattern (listed : Edge.idRe.isIdChar char = true) :
    InPattern char := by
  simp only [Edge.idRe.isIdChar, Bool.or_eq_true, List.contains_iff_mem, List.mem_cons,
    List.not_mem_nil, or_false] at listed
  rcases listed with letter | rfl | rfl | rfl | rfl | rfl | rfl
  · exact isAlphanumeric_inPattern letter
  all_goals decide

theorem matchesName_plain {first rest : Char → Bool} {bound : Nat}
    (first_range : ∀ char, first char = true → InPattern char)
    (rest_range : ∀ char, rest char = true → InPattern char)
    (accepted : Edge.matchesName first rest bound text = true) : Plain text := by
  rw [Edge.matchesName] at accepted
  apply plain_of_inPattern
  intro char member
  cases chars : text.toList with
  | nil =>
      rw [chars] at member
      cases member
  | cons head tail =>
      rw [chars] at accepted member
      simp only [Bool.and_eq_true, List.all_eq_true] at accepted
      rcases List.mem_cons.mp member with rfl | later
      · exact first_range char accepted.1.1
      · exact rest_range char (accepted.1.2 char later)

theorem kindRe_plain (accepted : Edge.kindRe text = true) : Plain text := by
  refine matchesName_plain (fun char lower => ?_) (fun _ => isAlphanumeric_inPattern) accepted
  apply isAlphanumeric_inPattern
  rw [isAlphanumeric, lower, Bool.or_true, Bool.true_or]

theorem idRe_plain (accepted : Edge.idRe text = true) : Plain text :=
  matchesName_plain (fun _ => isIdChar_inPattern) (fun _ => isIdChar_inPattern) accepted

theorem fieldRe_plain (accepted : Edge.fieldRe text = true) : Plain text := by
  refine matchesName_plain (fun char letter => ?_) (fun _ => isAlphanumeric_inPattern) accepted
  apply isAlphanumeric_inPattern
  rw [isAlphanumeric, letter, Bool.true_or]

theorem hlcRe_plain (accepted : Registry.hlcRe text = true) : Plain text :=
  plain_of_inPattern fun char member =>
    isDeviceChar_inPattern (Edge.isDeviceChar_of_hlcRe accepted char member)

theorem ascii_of_accepted (accepted : Edge.Accepted op) : OpAscii op := by
  rw [opAscii_iff]
  exact ⟨(kindRe_plain accepted.kind).1, (idRe_plain accepted.id).1, (hlcRe_plain accepted.hlc).1,
    fun field value found => (fieldRe_plain (accepted.fields field value found)).1,
    fun field clock found => (fieldRe_plain (accepted.clocks field clock found).1).1,
    fun field clock found => (hlcRe_plain (accepted.clocks field clock found).2).1⟩

theorem ascii_of_valid (valid : Edge.validateOp (encodeOp op) = none) :
    OpAscii op := by
  have accepted := Edge.accepted_readOp valid
  rw [readOp_encodeOp] at accepted
  exact ascii_of_accepted accepted

/-! ## Validation -/

theorem isHlc_eq (unicode : Unicode) (ascii : IsAscii text) :
    isHlc unicode text = Registry.hlcRe text := by
  have digits : ∀ chars : List Char, (∀ char ∈ chars, char ∈ text.toList) →
      chars.all unicode.isDecimal = chars.all isDigit := by
    intro chars inside
    rw [Bool.eq_iff_iff, List.all_eq_true, List.all_eq_true]
    exact forall₂_congr fun char member => by
      rw [unicode.isDecimal_of_ascii char (ascii char (inside char member))]
  have ms := digits (text.toList.take 13) fun char member => List.mem_of_mem_take member
  have counter := digits ((text.toList.drop 14).take 6) fun char member =>
    List.mem_of_mem_drop (List.mem_of_mem_take member)
  rw [isHlc, Registry.hlcRe, ms, counter]

/-- `validateSet` finds nothing. -/
def SetValid (fieldRe : String → Bool) (op : RowOp) : Prop :=
  if op.op = .delete then op.set = none
  else ∃ set, op.set = some set ∧ ∀ key ∈ set.keys, fieldRe key = true

/-- `validateClocks` finds nothing. -/
def ClocksValid (fieldRe hlcRe : String → Bool) (op : RowOp) : Prop :=
  ∀ entry ∈ (op.clocks.getD ∅).toList, fieldRe entry.1 = true ∧ hlcRe entry.2 = true

theorem validateSet_eq_none_iff (op : RowOp) : validateSet op = none ↔ SetValid fieldRe op := by
  unfold validateSet SetValid
  split
  · cases op.set <;> simp
  · cases op.set with
    | none => simp
    | some set => simp [List.find?_eq_none]

theorem validateClocks_eq_none_iff (unicode : Unicode) (op : RowOp) :
    validateClocks unicode op = none ↔ ClocksValid fieldRe (hlcRe unicode) op := by
  unfold validateClocks ClocksValid
  cases op.clocks with
  | none => simp
  | some clocks =>
      simp only [Option.bind_some, List.findSome?_eq_none_iff]
      refine forall₂_congr fun entry _ => ?_
      cases fieldRe entry.1 <;> cases hlcRe unicode entry.2 <;> simp

theorem validateOp_eq_none_iff (unicode : Unicode) (op : RowOp) :
    validateOp unicode op = none ↔
      kindRe op.kind = true ∧ idRe op.id = true ∧ hlcRe unicode op.hlc = true ∧
        SetValid fieldRe op ∧ ClocksValid fieldRe (hlcRe unicode) op ∧
          bytes (encoded op) ≤ registryMaxOpBytes := by
  rw [← validateSet_eq_none_iff, ← validateClocks_eq_none_iff, bytes, validateOp]
  split
  · simp_all
  · split
    · simp_all
    · split <;> simp_all

section Room

variable (op : RowOp)

theorem member_encodeOp :
    (encodeOp op).member "kind" = some (.str op.kind) ∧
      (encodeOp op).member "id" = some (.str op.id) ∧
      (encodeOp op).member "op" = some (.str op.op.text) ∧
      (encodeOp op).member "hlc" = some (.str op.hlc) ∧
      (encodeOp op).member "set" = op.set.map (fun set => .obj set.toList) ∧
      (encodeOp op).member "clocks" = op.clocks.map (fun clocks =>
        .obj (clocks.toList.map fun entry => (entry.1, .str entry.2))) := by
  rcases op with ⟨kind, id, opKind, set, hlc, clocks⟩
  cases set <;> cases clocks <;>
    simp [encodeOp, optionalMember, Json.member, List.lookup_cons]

theorem room_validateSet_iff :
    Edge.validateSet (encodeOp op) = none ↔ SetValid Edge.fieldRe op := by
  rcases member_encodeOp op with ⟨-, -, kind, -, set, -⟩
  have isDelete : (some (Json.str op.op.text) = some (.str "delete")) ↔ op.op = .delete := by
    cases op.op <;> simp [OpKind.text]
  unfold Edge.validateSet SetValid
  rw [kind, set]
  simp only [isDelete]
  split
  · cases op.set <;> simp
  · cases op.set with
    | none => simp
    | some set => simp [List.find?_eq_none]

theorem room_validateClocks_iff :
    Edge.validateClocks (encodeOp op) = none ↔ ClocksValid Edge.fieldRe Registry.hlcRe op := by
  rcases member_encodeOp op with ⟨-, -, -, -, -, clocks⟩
  unfold Edge.validateClocks ClocksValid
  rw [clocks]
  cases op.clocks with
  | none => simp
  | some clocks =>
      simp only [Option.map_some, List.findSome?_eq_none_iff, List.forall_mem_map]
      refine forall₂_congr fun entry _ => ?_
      have text : Edge.isText Registry.hlcRe (some (.str entry.2)) = Registry.hlcRe entry.2 := rfl
      rw [text]
      cases Edge.fieldRe entry.1 <;> cases Registry.hlcRe entry.2 <;> simp

theorem room_validateOp_iff :
    Edge.validateOp (encodeOp op) = none ↔
      Edge.kindRe op.kind = true ∧ Edge.idRe op.id = true ∧ Registry.hlcRe op.hlc = true ∧
        SetValid Edge.fieldRe op ∧ ClocksValid Edge.fieldRe Registry.hlcRe op ∧
          (encodeOp op).byteLength ≤ Edge.maxOpBytes := by
  rcases member_encodeOp op with ⟨kind, id, opKind, hlc, -, -⟩
  have text : ∀ (pattern : String → Bool) (text : String),
      Edge.isText pattern (some (.str text)) = pattern text := fun _ _ => rfl
  have named : ["upsert", "update", "delete"].contains op.op.text = true := by
    cases op.op <;> decide
  have record : Edge.isRecord (encodeOp op) = true := rfl
  rw [Edge.validateOp_eq_none_iff, kind, id, opKind, hlc, text, text, text, text, named, record,
    room_validateSet_iff, room_validateClocks_iff]
  simp

/-- The phone prints no fewer bytes. -/
theorem byteLength_le_encoded : (encodeOp op).byteLength ≤ bytes (encoded op) := by
  rw [Json.byteLength_eq, encoded]
  induction (encodeOp op).stringify with
  | nil => exact le_rfl
  | cons char rest ih =>
      rw [List.flatMap_cons, bytes_append]
      split
      · rename_i same
        subst same
        simp only [bytes_cons]
        omega
      · simp only [bytes_cons]
        omega

end Room

/-- On plain texts the patterns of the phone are those of the room. -/
theorem patterns_of_plain (unicode : Unicode) (plain : Plain text) :
    kindRe text = Edge.kindRe text ∧ idRe text = Edge.idRe text ∧
      fieldRe text = Edge.fieldRe text ∧ hlcRe unicode text = Registry.hlcRe text :=
  ⟨matchesLine_of_plain _ plain, matchesLine_of_plain _ plain, matchesLine_of_plain _ plain,
    (matchesLine_of_plain _ plain).trans (isHlc_eq unicode plain.1)⟩

theorem SetValid.imp {first second : String → Bool}
    (implies : ∀ text ∈ opTexts op, first text = true → second text = true)
    (valid : SetValid first op) : SetValid second op := by
  unfold SetValid at valid ⊢
  split
  · rwa [if_pos ‹_›] at valid
  · rw [if_neg ‹_›] at valid
    rcases valid with ⟨set, found, names⟩
    refine ⟨set, found, fun key member => implies key ?_ (names key member)⟩
    simp [opTexts, found, member]

theorem ClocksValid.imp {firstField secondField firstHlc secondHlc : String → Bool}
    (fields : ∀ text ∈ opTexts op, firstField text = true → secondField text = true)
    (hlcs : ∀ text ∈ opTexts op, firstHlc text = true → secondHlc text = true)
    (valid : ClocksValid firstField firstHlc op) : ClocksValid secondField secondHlc op := by
  rintro ⟨field, hlc⟩ member
  have stored := Std.ExtTreeMap.mem_toList_iff_getElem?_eq_some.mp member
  have name : field ∈ (op.clocks.getD ∅).keys :=
    Std.ExtTreeMap.mem_keys.mpr (mem_iff_exists.mpr ⟨hlc, stored⟩)
  have clock : hlc ∈ values (op.clocks.getD ∅) := mem_values_iff.mpr ⟨field, stored⟩
  rcases valid (field, hlc) member with ⟨field_valid, hlc_valid⟩
  exact ⟨fields field (by simp [opTexts, name]) field_valid,
    hlcs hlc (by simp [opTexts, clock]) hlc_valid⟩

/-- What the room accepts the phone accepts, if it finds the operation small enough. -/
theorem valid_of_room (unicode : Unicode) (valid : Edge.validateOp (encodeOp op) = none)
    (small : bytes (encoded op) ≤ registryMaxOpBytes) :
    validateOp unicode op = none := by
  rcases (room_validateOp_iff op).mp valid with ⟨kind, id, hlc, set, clocks, -⟩
  have field_valid : ∀ text ∈ opTexts op, Edge.fieldRe text = true → fieldRe text = true :=
    fun text _ accepted => (patterns_of_plain unicode (fieldRe_plain accepted)).2.2.1.trans accepted
  have hlc_valid : ∀ text ∈ opTexts op, Registry.hlcRe text = true → hlcRe unicode text = true :=
    fun text _ accepted => (patterns_of_plain unicode (hlcRe_plain accepted)).2.2.2.trans accepted
  exact (validateOp_eq_none_iff unicode op).mpr
    ⟨(patterns_of_plain unicode (kindRe_plain kind)).1.trans kind,
      (patterns_of_plain unicode (idRe_plain id)).2.1.trans id,
      hlc_valid op.hlc (by simp [opTexts]) hlc, set.imp field_valid, clocks.imp field_valid hlc_valid,
      small⟩

/-- What the phone accepts the room accepts, if all names and clocks are plain. -/
theorem room_of_valid (unicode : Unicode) (plain : ∀ text ∈ opTexts op, Plain text)
    (valid : validateOp unicode op = none) : Edge.validateOp (encodeOp op) = none := by
  rcases (validateOp_eq_none_iff unicode op).mp valid with ⟨kind, id, hlc, set, clocks, small⟩
  have field_valid : ∀ text ∈ opTexts op, fieldRe text = true → Edge.fieldRe text = true :=
    fun text member accepted =>
      (patterns_of_plain unicode (plain text member)).2.2.1.symm.trans accepted
  have hlc_valid : ∀ text ∈ opTexts op, hlcRe unicode text = true → Registry.hlcRe text = true :=
    fun text member accepted =>
      (patterns_of_plain unicode (plain text member)).2.2.2.symm.trans accepted
  exact (room_validateOp_iff op).mpr
    ⟨(patterns_of_plain unicode (plain op.kind (by simp [opTexts]))).1.symm.trans kind,
      (patterns_of_plain unicode (plain op.id (by simp [opTexts]))).2.1.symm.trans id,
      hlc_valid op.hlc (by simp [opTexts]) hlc, set.imp field_valid, clocks.imp field_valid hlc_valid,
      (byteLength_le_encoded op).trans small⟩

end Zeron.Registry.Phone
