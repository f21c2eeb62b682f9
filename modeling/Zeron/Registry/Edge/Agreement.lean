import Zeron.Registry.Edge.Core
import Zeron.Registry.Merge

/-!
# The two merges

On rows whose clocks are validated texts the edge's merge is the engine's merge
of the operation without the fields that are named like an inherited member of
objects.  Such a field is never written at the edge: the function found in its
place prints as `function …`, which no clock text is greater than.
-/

namespace Zeron.Registry.Edge

open Zeron.Data
open Zeron.Wire

/-! ## Comparison of clock texts -/

private theorem map_toNat_lt_iff (first second : List Char) :
    first.map Char.toNat < second.map Char.toNat ↔ first < second := by
  induction first generalizing second with
  | nil => cases second <;> simp
  | cons head tail ih =>
      cases second with
      | nil => simp
      | cons other others =>
          simp only [List.map_cons, List.cons_lt_cons_iff, ih]
          apply or_congr
          · rfl
          · apply and_congr_left'
            exact ⟨fun same => Char.ext (UInt32.toNat_inj.mp same), congrArg Char.toNat⟩

variable {text : String}

/-- Texts of single-unit characters print as their characters. -/
theorem utf16_eq_map (single : ∀ char ∈ text.toList, char.toNat < 0x10000) :
    utf16 text = text.toList.map Char.toNat := by
  unfold utf16
  generalize text.toList = chars at single
  induction chars with
  | nil => rfl
  | cons char rest ih =>
      obtain ⟨charSingle, restSingle⟩ := List.forall_mem_cons.mp single
      rw [List.flatMap_cons, ih restSingle, utf16Char, if_pos charSingle]
      rfl

theorem isDeviceChar_toNat {char : Char} (device : isDeviceChar char = true) :
    char.toNat < 0x10000 := by
  unfold isDeviceChar isAlphanumeric isUpper isLower isDigit at device
  simp only [Bool.or_eq_true, Bool.and_eq_true, decide_eq_true_eq, beq_iff_eq, Char.le_def] at device
  have bound : char.val.toNat ≤ 122 ∨ char = '_' ∨ char = '-' := by
    rcases device with ((((⟨_, high⟩ | ⟨_, high⟩) | ⟨_, high⟩) | isUnder) | isDash)
    · exact Or.inl (high.trans (by decide))
    · exact Or.inl high
    · exact Or.inl (high.trans (by decide))
    · exact Or.inr (Or.inl isUnder)
    · exact Or.inr (Or.inr isDash)
  rcases bound with low | rfl | rfl
  · exact lt_of_le_of_lt low (by decide)
  · decide
  · decide

private theorem isDeviceChar_of_isDigit {char : Char} (digit : isDigit char = true) :
    isDeviceChar char = true := by
  simp [isDeviceChar, isAlphanumeric, digit]

/-- The characters of a clock text are those of device names. -/
theorem isDeviceChar_of_hlcRe (valid : hlcRe text = true) :
    ∀ char ∈ text.toList, isDeviceChar char = true := by
  unfold hlcRe at valid
  simp only [Bool.and_eq_true, beq_iff_eq, List.all_eq_true] at valid
  obtain ⟨⟨⟨⟨⟨⟨⟨⟨_, ms⟩, dash⟩, _⟩, counter⟩, dash'⟩, _⟩, _⟩, device⟩ := valid
  intro char member
  obtain ⟨index, found⟩ := List.mem_iff_getElem?.mp member
  have inMs : index < 13 → isDeviceChar char = true := by
    intro small
    apply isDeviceChar_of_isDigit
    exact ms char (List.mem_iff_getElem?.mpr ⟨index, by rw [List.getElem?_take_of_lt small, found]⟩)
  have inCounter : 14 ≤ index → index < 20 → isDeviceChar char = true := by
    intro low high
    apply isDeviceChar_of_isDigit
    refine counter char (List.mem_iff_getElem?.mpr ⟨index - 14, ?_⟩)
    rw [List.getElem?_take_of_lt (by omega), List.getElem?_drop, ← found]
    congr 1
    omega
  have inDevice : 21 ≤ index → isDeviceChar char = true := by
    intro low
    refine device char (List.mem_iff_getElem?.mpr ⟨index - 21, ?_⟩)
    rw [List.getElem?_drop, ← found]
    congr 1
    omega
  rcases lt_trichotomy index 13 with small | rfl | large
  · exact inMs small
  · obtain rfl : '-' = char := Option.some.inj (dash.symm.trans found)
    decide
  · rcases lt_trichotomy index 20 with small | rfl | larger
    · exact inCounter large small
    · obtain rfl : '-' = char := Option.some.inj (dash'.symm.trans found)
      decide
    · exact inDevice larger

theorem utf16_of_hlcRe (valid : hlcRe text = true) :
    utf16 text = text.toList.map Char.toNat :=
  utf16_eq_map fun char member => isDeviceChar_toNat (isDeviceChar_of_hlcRe valid char member)

/-- A clock text starts with a digit. -/
theorem exists_digit_of_hlcRe (valid : hlcRe text = true) :
    ∃ digit rest, text.toList = digit :: rest ∧ isDigit digit = true := by
  unfold hlcRe at valid
  simp only [Bool.and_eq_true, List.all_eq_true] at valid
  obtain ⟨⟨⟨⟨⟨⟨⟨⟨long, ms⟩, _⟩, _⟩, _⟩, _⟩, _⟩, _⟩, _⟩ := valid
  cases chars : text.toList with
  | nil => simp [chars] at long
  | cons digit rest =>
      refine ⟨digit, rest, rfl, ms digit ?_⟩
      simp [chars]

theorem ne_empty_of_hlcRe (valid : hlcRe text = true) : text ≠ "" := by
  rintro rfl
  obtain ⟨digit, rest, chars, _⟩ := exists_digit_of_hlcRe valid
  simp at chars

/-- On clock texts the edge's comparison is the engine's. -/
theorem hlcNewer_text {clock : Hlc} {stored : Option Hlc} (valid : hlcRe clock = true)
    (storedValid : ∀ other ∈ stored, hlcRe other = true) :
    hlcNewer (.text clock) (stored.map .text) = Registry.hlcNewer clock stored := by
  cases stored with
  | none => rfl
  | some other =>
      have same : utf16 other < utf16 clock ↔ other < clock := by
        rw [utf16_of_hlcRe valid, utf16_of_hlcRe (storedValid other rfl), map_toNat_lt_iff,
          String.lt_iff_toList_lt]
      exact decide_eq_decide.mpr same

/-- No clock is newer than an inherited function of the same property. -/
theorem not_hlcNewer_inherited {clock : Clock} {function : String}
    (source : (∃ hlc, clock = .text hlc ∧ hlcRe hlc = true) ∨ clock = .inherited function) :
    hlcNewer clock (some (.inherited function)) = false := by
  apply decide_eq_false
  rcases source with ⟨hlc, rfl, valid⟩ | rfl
  · obtain ⟨digit, rest, chars, isDigit⟩ := exists_digit_of_hlcRe valid
    have small : digit.toNat < 102 := by
      unfold Registry.isDigit at isDigit
      simp only [Bool.and_eq_true, decide_eq_true_eq] at isDigit
      exact lt_of_le_of_lt isDigit.2 (by decide)
    have functionUnits : ∃ units, utf16 (Clock.inherited function).primitive = 102 :: units := by
      simp only [Clock.primitive, utf16, String.toList_append, List.flatMap_append]
      exact ⟨_, rfl⟩
    obtain ⟨units, unitsEq⟩ := functionUnits
    rw [unitsEq, Clock.primitive, utf16_of_hlcRe valid, chars, List.map_cons, List.cons_lt_cons_iff]
    omega
  · exact lt_irrefl _

/-! ## Rows with validated clocks -/

/-- The field is named like an inherited member of objects. -/
def isInherited (field : String) : Bool :=
  (objectMembers.lookup field).isSome

/-- Every clock on the row is a validated text, and no clock stands under an
inherited name. -/
structure Plain (row : RegistryRow) : Prop where
  delHlc : ∀ clock, row.delHlc = some clock → hlcRe clock = true
  clocks : ∀ (field : String) (clock : Hlc), row.clocks[field]? = some clock →
    hlcRe clock = true ∧ isInherited field = false

variable {row : RegistryRow}

theorem Plain.of_empty (noClocks : row.clocks = ∅)
    (delHlc : ∀ clock, row.delHlc = some clock → hlcRe clock = true) : Plain row where
  delHlc := delHlc
  clocks field clock found := by simp [noClocks] at found

/-- The operation without the fields that have inherited names. -/
def dropInherited (op : RowOp) : RowOp :=
  { op with set := op.set.map fun set => set.filter fun field _ => !isInherited field }

theorem writes_dropInherited (op : RowOp) (field : String) :
    (dropInherited op).writes[field]? = if isInherited field then none else op.writes[field]? := by
  obtain ⟨_, _, _, set, _, _⟩ := op
  cases set with
  | none => simp [dropInherited, RowOp.writes]
  | some set =>
      simp only [dropInherited, RowOp.writes, Option.map_some, Option.getD_some,
        Std.ExtTreeMap.getElem?_filter']
      cases set[field]? <;> cases isInherited field <;> rfl

/-- The operation sets no field with an inherited name. -/
def SetsNoInherited (op : RowOp) : Prop :=
  ∀ field : String, op.writes[field]?.isSome = true → isInherited field = false

variable {op : RowOp}

theorem dropInherited_of_setsNoInherited (none : SetsNoInherited op) :
    dropInherited op = op := by
  obtain ⟨kind, id, opKind, set, hlc, clocks⟩ := op
  cases set with
  | none => rfl
  | some set =>
      have kept : set.filter (fun field _ => !isInherited field) = set := by
        apply Std.ExtTreeMap.ext_getElem?
        intro field
        rw [Std.ExtTreeMap.getElem?_filter']
        cases found : set[field]? with
        | none => rfl
        | some value =>
            have plain := none field (by simp [RowOp.writes, found])
            simp [plain]
      simp only [dropInherited, Option.map_some, kept]

/-- For a field without an inherited name the edge finds the operation's clock. -/
theorem clockFor_of_not_inherited {field : String} (plain : isInherited field = false) :
    clockFor op field = .text (op.clockFor field) := by
  have noMember : objectMembers.lookup field = none := by
    simpa [isInherited] using plain
  unfold clockFor RowOp.clockFor
  cases clocksEq : op.clocks with
  | none => rfl
  | some clocks =>
      simp only [Option.bind_some, property, Std.ExtTreeMap.getElem?_map, noMember,
        Option.getD_some]
      cases clocks[field]? <;> rfl

section Accepted

variable {op : RowOp} (accepted : Accepted op)
include accepted

theorem Accepted.clockFor_valid (field : String) : hlcRe (op.clockFor field) = true := by
  unfold RowOp.clockFor
  cases found : (op.clocks.getD ∅)[field]? with
  | none => exact accepted.hlc
  | some clock => exact (accepted.clocks field clock found).2

/-- For an inherited name it finds a clock text or the inherited function. -/
theorem clockFor_of_inherited {field function : String}
    (inherited : objectMembers.lookup field = some function) :
    (∃ hlc, clockFor op field = .text hlc ∧ hlcRe hlc = true) ∨
      clockFor op field = .inherited function := by
  unfold clockFor
  cases clocksEq : op.clocks with
  | none => exact Or.inl ⟨op.hlc, rfl, accepted.hlc⟩
  | some clocks =>
      simp only [Option.bind_some, property, Std.ExtTreeMap.getElem?_map, inherited]
      cases found : clocks[field]? with
      | none => exact Or.inr rfl
      | some clock =>
          have valid := accepted.clocks field clock (by rw [clocksEq]; exact found)
          exact Or.inl ⟨clock, rfl, valid.2⟩

end Accepted

/-! ## The merges side by side -/

section Loaded

variable {op : RowOp} (accepted : Accepted op)
include accepted

variable {base : RegistryRow}

/-- One field write at the edge is the engine's, or nothing for an inherited name. -/
theorem writeField_loadRow (plain : Plain base) (changed : Bool) (key : String) (value : Json) :
    writeField op (loadRow base, changed) key value =
      if isInherited key then (loadRow base, changed)
      else (loadRow (Registry.writeField op (base, changed) key value).1,
        (Registry.writeField op (base, changed) key value).2) := by
  have ownClock : (loadRow base).clocks[key]? = base.clocks[key]?.map .text := by
    simp [loadRow]
  cases inherited : isInherited key with
  | true =>
      obtain ⟨function, member⟩ := Option.isSome_iff_exists.mp inherited
      have noClock : base.clocks[key]? = none := by
        cases found : base.clocks[key]? with
        | none => rfl
        | some clock =>
            exact absurd (inherited.symm.trans (plain.clocks key clock found).2) (by decide)
      have stored : property (loadRow base).clocks key = some (.inherited function) := by
        rw [property, ownClock, noClock, member]
        rfl
      have older := not_hlcNewer_inherited (clockFor_of_inherited accepted member)
      rw [writeField, stored, if_neg (Bool.eq_false_iff.mp older), if_pos rfl]
  | false =>
      have noMember : objectMembers.lookup key = none := by
        simpa [isInherited] using inherited
      have stored : property (loadRow base).clocks key = base.clocks[key]?.map .text := by
        rw [property, ownClock, noMember]
        simp
      have newerEq : hlcNewer (clockFor op key) (property (loadRow base).clocks key) =
          Registry.hlcNewer (op.clockFor key) base.clocks[key]? := by
        rw [clockFor_of_not_inherited inherited, stored]
        exact hlcNewer_text (accepted.clockFor_valid key)
          fun other found => (plain.clocks key other found).1
      rw [if_neg (by decide), writeField, Registry.writeField, newerEq]
      cases Registry.hlcNewer (op.clockFor key) base.clocks[key]? with
      | false => rfl
      | true =>
          rw [clockFor_of_not_inherited inherited]
          have clocksEq : (base.clocks.map fun _ hlc => Clock.text hlc).insert key
              (.text (op.clockFor key)) =
              (base.clocks.insert key (op.clockFor key)).map fun _ hlc => Clock.text hlc := by
            apply Std.ExtTreeMap.ext_getElem?
            intro other
            rw [getElem?_insert_eq, Std.ExtTreeMap.getElem?_map, Std.ExtTreeMap.getElem?_map,
              getElem?_insert_eq]
            split <;> rfl
          simp only [if_pos, loadRow, clocksEq]

theorem plain_writeField (plain : Plain base) (changed : Bool) {key : String} (value : Json)
    (own : isInherited key = false) :
    Plain (Registry.writeField op (base, changed) key value).1 := by
  cases newer : Registry.hlcNewer (op.clockFor key) base.clocks[key]? with
  | false => rwa [Registry.writeField_of_not_newer op value newer]
  | true =>
      rw [Registry.writeField_of_newer op value newer]
      refine ⟨plain.delHlc, fun field clock found => ?_⟩
      simp only [getElem?_insert_eq] at found
      split at found
      · cases found
        subst field
        exact ⟨accepted.clockFor_valid key, own⟩
      · exact plain.clocks field clock found

private theorem foldl_writeField_loadRow (entries : List (String × Json)) (plain : Plain base)
    (changed : Bool) :
    let result := (entries.filter fun entry => !isInherited entry.1).foldl
      (fun state entry => Registry.writeField op state entry.1 entry.2) (base, changed)
    entries.foldl (fun state entry => writeField op state entry.1 entry.2)
        (loadRow base, changed) = (loadRow result.1, result.2) ∧ Plain result.1 := by
  induction entries generalizing base changed with
  | nil => exact ⟨rfl, plain⟩
  | cons entry rest ih =>
      rw [List.foldl_cons, writeField_loadRow accepted plain]
      cases inherited : isInherited entry.1 with
      | true =>
          rw [List.filter_cons_of_neg (by simp [inherited])]
          exact ih plain changed
      | false =>
          rw [List.filter_cons_of_pos (by simp [inherited])]
          exact ih (plain_writeField accepted plain changed entry.2 inherited) _

/-- The edge's field loop is the engine's without the inherited names. -/
theorem foldl_set_loadRow (plain : Plain base) (changed : Bool) :
    let result := writeFields (dropInherited op) base changed
    (op.set.getD ∅).foldl (writeField op) (loadRow base, changed) =
      (loadRow result.1, result.2) ∧ Plain result.1 := by
  have list := foldl_writeField_loadRow accepted (op.set.getD ∅).toList plain changed
  have dropped : (dropInherited op).set.getD ∅ =
      (op.set.getD ∅).filter fun field _ => !isInherited field := by
    unfold dropInherited
    cases op.set with
    | none => exact (Std.ExtTreeMap.ext_getElem? fun field => by simp)
    | some set => rfl
  simp only [writeFields, dropped, Std.ExtTreeMap.foldl_eq_foldl_toList,
    Std.ExtTreeMap.toList_filter]
  exact list

end Loaded

/-! ## The newest clock -/

theorem values_map_text (clocks : FieldMap Hlc) :
    values (clocks.map fun _ hlc => Clock.text hlc) = (values clocks).map .text := by
  simp [values]

private theorem foldl_maxClock {clocks : List Hlc} (valid : ∀ clock ∈ clocks, hlcRe clock = true)
    {start : Option Hlc} (startValid : ∀ clock ∈ start, hlcRe clock = true) :
    (clocks.map Clock.text).foldl
        (fun max clock => if hlcNewer clock max then some clock else max) (start.map .text) =
      (clocks.foldl (fun max clock => if Registry.hlcNewer clock max then some clock else max)
        start).map .text := by
  induction clocks generalizing start with
  | nil => rfl
  | cons clock rest ih =>
      obtain ⟨clockValid, restValid⟩ := List.forall_mem_cons.mp valid
      rw [List.map_cons, List.foldl_cons, List.foldl_cons, hlcNewer_text clockValid startValid]
      split
      · have nextValid : ∀ other ∈ some clock, hlcRe other = true := by
          rintro _ ⟨⟩
          exact clockValid
        exact ih restValid nextValid
      · exact ih restValid startValid

theorem Plain.delHlc_loadRow (plain : Plain row) :
    (loadRow row).delHlc = row.delHlc := by
  cases found : row.delHlc with
  | none => simp [loadRow, found]
  | some clock =>
      have filled := ne_empty_of_hlcRe (plain.delHlc clock found)
      simp [loadRow, found, filled]

theorem Plain.maxClock_loadRow (plain : Plain row) :
    maxClock (loadRow row) = row.maxClock.map .text := by
  unfold maxClock RegistryRow.maxClock
  rw [plain.delHlc_loadRow]
  change (values (row.clocks.map fun _ hlc => Clock.text hlc)).foldl _ _ = _
  rw [values_map_text]
  apply foldl_maxClock
  · intro clock member
    obtain ⟨field, found⟩ := mem_values_iff.mp member
    exact (plain.clocks field clock found).1
  · exact plain.delHlc

/-- The newest clock of a row is a validated text. -/
theorem Plain.maxClock_valid (plain : Plain row) :
    ∀ clock ∈ row.maxClock, hlcRe clock = true := by
  intro clock found
  rcases RegistryRow.maxClock_mem found with tombstone | ⟨field, lookup⟩
  · exact plain.delHlc clock tombstone
  · exact (plain.clocks field clock lookup).1

/-- A loaded row is saved as it was. -/
theorem Plain.saveRow_loadRow (plain : Plain row) :
    saveRow (loadRow row) = row := by
  have clocksEq : printedClocks (row.clocks.map fun _ hlc => Clock.text hlc) = row.clocks := by
    apply Std.ExtTreeMap.ext_getElem?
    intro field
    rw [printedClocks, Std.ExtTreeMap.getElem?_filterMap', Std.ExtTreeMap.getElem?_map]
    cases row.clocks[field]? <;> rfl
  unfold saveRow
  rw [plain.delHlc_loadRow]
  simp only [loadRow, clocksEq]

/-! ## Whole operations -/

/-- The operation is turned away before its fields. -/
def StopsEarly (row : Option RegistryRow) (op : RowOp) : Prop :=
  match row with
  | none => op.op = .update
  | some row => row.deleted = true ∧
      (op.op = .update ∨ Registry.hlcNewer op.hlc row.delHlc = false)

section Whole

variable {op : RowOp} (accepted : Accepted op) {row : Option RegistryRow}
variable (plain : ∀ stored ∈ row, Plain stored)
include accepted plain

theorem applyDelete_loadRow :
    applyDelete (row.map loadRow) op =
      ((Registry.applyDelete row op).1.map loadRow, (Registry.applyDelete row op).2) := by
  have kept : (some op.hlc).filter (· ≠ "") = some op.hlc := by
    simp [ne_empty_of_hlcRe accepted.hlc]
  cases row with
  | none =>
      simp only [applyDelete, Registry.applyDelete, Option.map_none, Option.map_some, loadRow,
        RegistryRow.tombstone, kept, Std.ExtTreeMap.map_eq_empty_iff.mpr]
  | some row =>
      have rowPlain := plain row rfl
      have beats : (if (loadRow row).deleted then
            hlcNewer (.text op.hlc) ((loadRow row).delHlc.map .text)
          else hlcNewer (.text op.hlc) (maxClock (loadRow row))) =
          if row.deleted then Registry.hlcNewer op.hlc row.delHlc
          else Registry.hlcNewer op.hlc row.maxClock := by
        rw [rowPlain.delHlc_loadRow, rowPlain.maxClock_loadRow,
          hlcNewer_text accepted.hlc rowPlain.delHlc,
          hlcNewer_text accepted.hlc rowPlain.maxClock_valid]
        rfl
      simp only [applyDelete, Registry.applyDelete, Option.map_some, beats]
      by_cases wins : (if row.deleted then Registry.hlcNewer op.hlc row.delHlc
          else Registry.hlcNewer op.hlc row.maxClock) = true
      · rw [if_pos wins, if_pos wins]
        simp only [Option.map_some, loadRow, kept, Std.ExtTreeMap.map_eq_empty_iff.mpr]
      · rw [if_neg wins, if_neg wins]
        rfl

theorem plain_applyDelete : ∀ next ∈ (Registry.applyDelete row op).1, Plain next := by
  have tombstonePlain : ∀ other : RegistryRow, other.clocks = ∅ → other.delHlc = some op.hlc →
      Plain other := by
    intro other noClocks delHlc
    refine .of_empty noClocks fun clock found => ?_
    rw [delHlc] at found
    cases found
    exact accepted.hlc
  cases row with
  | none =>
      rintro _ ⟨⟩
      exact tombstonePlain _ rfl rfl
  | some row =>
      simp only [Registry.applyDelete]
      by_cases wins : (if row.deleted then Registry.hlcNewer op.hlc row.delHlc
          else Registry.hlcNewer op.hlc row.maxClock) = true
      · rw [if_pos wins]
        rintro _ ⟨⟩
        exact tombstonePlain _ rfl rfl
      · rw [if_neg wins]
        exact plain

theorem writeBase_loadRow :
    writeBase (row.map loadRow) op =
      match Registry.writeBase row op with
      | .error result => .error (result.1.map loadRow, result.2)
      | .ok base => .ok (loadRow base) := by
  cases row with
  | none =>
      simp only [writeBase, Registry.writeBase]
      by_cases isUpdate : op.op = .update
      · rw [if_pos isUpdate, if_pos isUpdate]
        rfl
      · rw [if_neg isUpdate, if_neg isUpdate]
        rfl
  | some row =>
      have rowPlain := plain row rfl
      have newerEq : hlcNewer (.text op.hlc) ((loadRow row).delHlc.map .text) =
          Registry.hlcNewer op.hlc row.delHlc := by
        rw [rowPlain.delHlc_loadRow, hlcNewer_text accepted.hlc rowPlain.delHlc]
      simp only [writeBase, Registry.writeBase, Option.map_some, newerEq]
      cases dead : row.deleted with
      | false => simp [loadRow, dead]
      | true =>
          cases Registry.hlcNewer op.hlc row.delHlc <;>
            by_cases isUpdate : op.op = .update <;>
              simp [loadRow, dead, isUpdate]

omit accepted in
theorem plain_writeBase {base : RegistryRow} (reached : Registry.writeBase row op = .ok base) :
    Plain base := by
  cases row with
  | none =>
      simp only [Registry.writeBase] at reached
      split at reached
      · cases reached
      · cases reached
        exact .of_empty rfl (by simp [RegistryRow.blank])
  | some row =>
      simp only [Registry.writeBase] at reached
      split at reached
      · split at reached
        · cases reached
        · cases reached
          exact .of_empty rfl (plain row rfl).delHlc
      · cases reached
        exact plain _ rfl

omit accepted in
theorem plain_of_writeBase_error {result : Option RegistryRow × Bool}
    (stopped : Registry.writeBase row op = .error result) :
    ∀ next ∈ result.1, Plain next := by
  cases row with
  | none =>
      simp only [Registry.writeBase] at stopped
      split at stopped <;> cases stopped
      simp
  | some row =>
      simp only [Registry.writeBase] at stopped
      split at stopped
      · split at stopped <;> cases stopped
        exact plain
      · cases stopped

/-- The edge merges what is left of an operation without the inherited names. -/
theorem applyOp_loadRow :
    let result := Registry.applyOp row (dropInherited op)
    applyOp (row.map loadRow) op = (result.1.map loadRow, result.2) ∧
      ∀ stored ∈ result.1, Plain stored := by
  by_cases isDelete : op.op = .delete
  · have isDelete' : (dropInherited op).op = .delete := isDelete
    simp only [applyOp, Registry.applyOp, if_pos isDelete, if_pos isDelete']
    exact ⟨applyDelete_loadRow accepted plain, plain_applyDelete accepted plain⟩
  · have notDelete' : (dropInherited op).op ≠ .delete := isDelete
    have sameBase : Registry.writeBase row (dropInherited op) = Registry.writeBase row op := rfl
    simp only [applyOp, Registry.applyOp, if_neg isDelete, if_neg notDelete', sameBase,
      writeBase_loadRow accepted plain]
    cases reached : Registry.writeBase row op with
    | error result => exact ⟨rfl, plain_of_writeBase_error plain reached⟩
    | ok base =>
        have flags : ((row.map loadRow).isNone ||
            ((row.map loadRow).any (·.deleted) && !(loadRow base).deleted)) =
            (row.isNone || (row.any (·.deleted) && !base.deleted)) := by
          cases row <;> rfl
        simp only [flags]
        obtain ⟨folded, plainWritten⟩ := foldl_set_loadRow accepted (plain_writeBase plain reached)
          (row.isNone || (row.any (·.deleted) && !base.deleted))
        rw [folded]
        split
        · refine ⟨rfl, ?_⟩
          rintro _ ⟨⟩
          exact ⟨plainWritten.delHlc, plainWritten.clocks⟩
        · have unchanged := Bool.eq_false_iff.mpr ‹_›
          rw [writeFields_of_unchanged _ _ _ unchanged]
          refine ⟨rfl, ?_⟩
          rintro _ ⟨⟩
          exact plain_writeBase plain reached

end Whole

/-! ## Where they agree -/

/-- An operation stopped before its fields does not look at them. -/
theorem applyOp_dropInherited_of_stopsEarly {row : Option RegistryRow}
    (stops : op.op = .delete ∨ StopsEarly row op) :
    Registry.applyOp row (dropInherited op) = Registry.applyOp row op := by
  by_cases isDelete : op.op = .delete
  · have isDelete' : (dropInherited op).op = .delete := isDelete
    simp only [Registry.applyOp, if_pos isDelete, if_pos isDelete']
    rfl
  · have notDelete' : (dropInherited op).op ≠ .delete := isDelete
    have sameBase : Registry.writeBase row (dropInherited op) = Registry.writeBase row op := rfl
    have stopped : ∃ result, Registry.writeBase row op = .error result := by
      rcases stops with isDelete' | early
      · exact absurd isDelete' isDelete
      · cases row with
        | none => exact ⟨_, if_pos early⟩
        | some row =>
            obtain ⟨dead, turnedAway⟩ := early
            simp only [Registry.writeBase, if_pos dead]
            rcases turnedAway with isUpdate | older
            · exact ⟨_, if_pos (by simp [isUpdate])⟩
            · exact ⟨_, if_pos (by simp [older])⟩
    obtain ⟨result, reached⟩ := stopped
    simp only [Registry.applyOp, if_neg isDelete, if_neg notDelete', sameBase, reached]

/-- An operation that reaches its fields has a row to write them into. -/
theorem exists_base_of_not_stopsEarly {row : Option RegistryRow} (notDelete : op.op ≠ .delete)
    (reaches : ¬ StopsEarly row op) :
    ∃ base created, base.deleted = false ∧ (base.clocks = ∅ ∨ row = some base) ∧
      ∀ other : RowOp, other.kind = op.kind → other.id = op.id → other.op = op.op →
        other.hlc = op.hlc →
        Registry.applyOp row other =
          (some (writeFields other base created).1, (writeFields other base created).2) := by
  cases row with
  | none =>
      have isUpsert : op.op = .upsert := by
        cases kind : op.op with
        | upsert => rfl
        | update => exact absurd kind reaches
        | delete => exact absurd kind notDelete
      refine ⟨.blank op.kind op.id, true, rfl, Or.inl rfl, fun other kind id same _ => ?_⟩
      rw [applyOp_upsert_none (same.trans isUpsert), kind, id, writeFields_created]
  | some row =>
      cases dead : row.deleted with
      | false =>
          exact ⟨row, false, dead, Or.inr rfl, fun other _ _ same _ =>
            applyOp_live (same.symm ▸ notDelete) dead⟩
      | true =>
          have early : ¬ (op.op = .update ∨ Registry.hlcNewer op.hlc row.delHlc = false) :=
            fun turnedAway => reaches ⟨dead, turnedAway⟩
          obtain ⟨notUpdate, newer⟩ := not_or.mp early
          have isUpsert : op.op = .upsert := by
            cases kind : op.op with
            | upsert => rfl
            | update => exact absurd kind notUpdate
            | delete => exact absurd kind notDelete
          refine ⟨row.revive, true, rfl, Or.inl rfl, fun other _ _ same hlc => ?_⟩
          rw [applyOp_upsert_tombstone (same.trans isUpsert) dead, hlc,
            if_pos (Bool.not_eq_false _ ▸ newer), writeFields_created]

/-- The edge's merge from columns to columns: load, merge, save. -/
def mergeStored (row : Option RegistryRow) (op : RowOp) : Option RegistryRow × Bool :=
  let result := applyOp (row.map loadRow) op
  (result.1.map saveRow, result.2)

/-- The stored result is the engine's merge without the inherited names. -/
theorem mergeStored_eq {row : Option RegistryRow} (accepted : Accepted op)
    (plain : ∀ stored ∈ row, Plain stored) :
    mergeStored row op = Registry.applyOp row (dropInherited op) ∧
      ∀ stored ∈ (Registry.applyOp row (dropInherited op)).1, Plain stored := by
  obtain ⟨edgeEq, resultPlain⟩ := applyOp_loadRow accepted plain
  refine ⟨?_, resultPlain⟩
  have saved : ((Registry.applyOp row (dropInherited op)).1.map loadRow).map saveRow =
      (Registry.applyOp row (dropInherited op)).1 := by
    cases stored : (Registry.applyOp row (dropInherited op)).1 with
    | none => rfl
    | some next => exact congrArg some (resultPlain next stored).saveRow_loadRow
  rw [mergeStored, edgeEq, saved]

/-- On rows with validated clocks the merges agree exactly on the operations
that set no field with an inherited name, or never come to their fields. -/
theorem agree_iff {row : Option RegistryRow} (accepted : Accepted op)
    (plain : ∀ stored ∈ row, Plain stored) :
    mergeStored row op = Registry.applyOp row op ↔
      op.op = .delete ∨ SetsNoInherited op ∨ StopsEarly row op := by
  rw [(mergeStored_eq accepted plain).1]
  constructor
  · intro same
    by_contra disagree
    obtain ⟨notDelete, rest⟩ := not_or.mp disagree
    obtain ⟨inherits, reaches⟩ := not_or.mp rest
    obtain ⟨field, written, inherited⟩ : ∃ field : String, op.writes[field]?.isSome = true ∧
        isInherited field = true := by
      simpa [SetsNoInherited] using inherits
    obtain ⟨base, created, _, source, applied⟩ := exists_base_of_not_stopsEarly notDelete reaches
    have noClock : base.clocks[field]? = none := by
      rcases source with empty | rfl
      · simp [empty]
      · cases found : base.clocks[field]? with
        | none => rfl
        | some clock =>
            have own := ((plain base rfl).clocks field clock found).2
            exact absurd (inherited.symm.trans own) (by decide)
    rw [applied op rfl rfl rfl rfl, applied (dropInherited op) rfl rfl rfl rfl] at same
    have clocksEq := congrArg (fun row : RegistryRow => row.clocks[field]?)
      (Option.some.inj (Prod.mk.inj same).1)
    simp only [writeFields_clocks, writes_dropInherited, if_pos inherited, noClock,
      written] at clocksEq
    cases clocksEq
  · rintro (isDelete | plainFields | early)
    · exact applyOp_dropInherited_of_stopsEarly (Or.inl isDelete)
    · rw [dropInherited_of_setsNoInherited plainFields]
    · exact applyOp_dropInherited_of_stopsEarly (Or.inr early)

/-- Seeds are the same on both sides. -/
theorem rowToSeedOp_loadRow (plain : Plain row) :
    rowToSeedOp (loadRow row) = Registry.rowToSeedOp row := by
  have clocksEq : printedClocks (loadRow row).clocks = row.clocks :=
    congrArg RegistryRow.clocks plain.saveRow_loadRow
  have hlcEq : ((maxClock (loadRow row)).getD (.text (encodeHlc 0 0 "seed"))).primitive =
      row.maxClock.getD (encodeHlc 0 0 "seed") := by
    rw [plain.maxClock_loadRow]
    cases row.maxClock <;> rfl
  unfold rowToSeedOp Registry.rowToSeedOp
  rw [clocksEq, hlcEq, plain.delHlc_loadRow]
  rfl

end Zeron.Registry.Edge
