import Zeron.Data.Paging
import Zeron.Threads.Printed

/-!
# Nothing is lost between pages
-/

namespace Zeron.Threads.Timeline

open Data Wire

variable {text : Json → Option String} {messages : String → List Json} {thread : Json}
  {runs : List Json} {rows : List Row} {input : ReadInput}

/-! ## Rows -/

/-- The rows of a page, and the position to go on from. -/
def rowsPage (text : Json → Option String) (messages : String → List Json) (thread : Json)
    (runs : List Json) (rows : List Row) (input : ReadInput) (after : Option Int) :
    List Row × Option (Option Int) :=
  let answer := page text messages thread runs rows { input with afterPosition := after }
  (answer.1.items.map ReadItem.row, answer.1.nextPosition.map fun (position : Nat) => some (position : Int))

theorem asUsize_pos {n : Int} (positive : 1 ≤ n) : 1 ≤ asUsize n := by
  unfold asUsize
  split <;> omega

theorem limit_pos (valid : input.valid) : 1 ≤ asUsize (input.limit.getD 50) := by
  unfold ReadInput.valid at valid
  cases limit : input.limit with
  | none => decide
  | some n =>
      rw [limit] at valid
      simp only [Option.all_some, Bool.and_eq_true, decide_eq_true_eq] at valid
      exact asUsize_pos valid.1.1.1.1.1

theorem numbered_sorted (rows : List Row) :
    (numbered rows).Pairwise fun first second => first.position < second.position := by
  rw [List.pairwise_iff_getElem]
  intro first second first_bound second_bound earlier
  simpa [numbered] using earlier

/-- The rows that are left after a position. -/
def remaining (rows : List Row) (input : ReadInput) (after : Option Int) : List Row :=
  (numbered rows).filter (matchesInput { input with afterPosition := after })

theorem rowsPage_eq (after : Option Int) :
    rowsPage text messages thread runs (numbered rows) input after =
      let taken := (remaining rows input after).take (asUsize (input.limit.getD 50))
      (taken, taken.getLast?.map fun row => some (row.position : Int)) := by
  refine Prod.ext ?_ ?_
  · simp [rowsPage, page, remaining, readItem, Function.comp_def]
  · simp only [rowsPage, page, Option.map_map]
    rfl

theorem remaining_after {after : Option Int} (listing : input.itemId = none) {last : Row}
    (later : after.getD (-1) < last.position) :
    remaining rows input (some (last.position : Int)) =
      (remaining rows input after).filter fun row => decide (last.position < row.position) := by
  rw [remaining, remaining, List.filter_filter]
  refine List.filter_congr fun row _ => ?_
  simp only [matchesInput, listing]
  by_cases behind : last.position < row.position
  · have passed : after.getD (-1) < row.position := by omega
    simp [passed]
  · simp [behind]

theorem rowsPage_covers (valid : input.valid) (listing : input.itemId = none) :
    Paging.Covers (rowsPage text messages thread runs (numbered rows) input)
      (remaining rows input) (fun after => (remaining rows input after).length)
      fun _ => True := by
  have sorted (after : Option Int) := (numbered_sorted rows).filter
    (matchesInput { input with afterPosition := after })
  have positive := limit_pos valid
  have next_eq {after : Option Int} {last : Row}
      (ends : ((remaining rows input after).take (asUsize (input.limit.getD 50))).getLast? =
        some last) :
      remaining rows input (some (last.position : Int)) =
        (remaining rows input after).drop (asUsize (input.limit.getD 50)) := by
    have listed : last ∈ remaining rows input after :=
      List.mem_of_mem_take (List.mem_of_getLast? ends)
    have passed := (List.mem_filter.mp listed).2
    simp only [matchesInput, listing, Bool.and_eq_true, decide_eq_true_eq] at passed
    rw [remaining_after listing passed.1]
    exact Paging.filter_lt_eq_drop (sorted after) ends
  refine ⟨fun after _ => ?_, fun _ _ _ _ => trivial, fun after next _ goes_on => ?_⟩
  · rw [rowsPage_eq]
    dsimp only
    cases ends : ((remaining rows input after).take (asUsize (input.limit.getD 50))).getLast? with
    | none =>
        have nothing := List.getLast?_eq_none_iff.mp ends
        rw [nothing]
        rcases List.take_eq_nil_iff.mp nothing with zero | empty
        · omega
        · simpa using empty
    | some last =>
        rw [Option.map_some, Option.map_some, Option.getD_some, next_eq ends, List.take_append_drop]
  · rw [rowsPage_eq] at goes_on
    rcases Option.map_eq_some_iff.mp goes_on with ⟨last, ends, rfl⟩
    have listed : last ∈ remaining rows input after :=
      List.mem_of_mem_take (List.mem_of_getLast? ends)
    have more := List.length_pos_of_mem listed
    rw [next_eq ends, List.length_drop]
    omega

/-! ## Texts -/

/-- The slice of the text of a row on a page, and the offset to go on from. -/
def textPage (text : Json → Option String) (messages : String → List Json) (thread : Json)
    (runs : List Json) (rows : List Row) (input : ReadInput) (place offset : Nat) :
    List Nat × Option Nat :=
  let answer := page text messages thread runs rows { input with textOffset := some (offset : Int) }
  ((answer.1.textUnits.lookup place).getD [],
    (answer.1.items[place]?).bind ReadItem.nextTextOffset)

theorem slice_units (body : String) (offset count : Nat) :
    (slice body offset count).2.1 = ((utf16 body).drop offset).take count := by
  simp only [slice]
  rw [List.drop_take]
  by_cases within : offset ≤ (utf16 body).length
  · rw [min_eq_left within]
    by_cases whole : offset + count ≤ (utf16 body).length
    · rw [min_eq_left whole, Nat.add_sub_cancel_left]
    · rw [min_eq_right (not_le.mp whole).le, List.take_of_length_le (by simp),
        List.take_of_length_le (by rw [List.length_drop]; omega)]
  · have past : (utf16 body).length ≤ offset := (not_le.mp within).le
    rw [min_eq_right past, List.drop_length, List.drop_of_length_le past, List.take_nil,
      List.take_nil]

/-- The units of the items that have a text, by their places. -/
def unitsFrom (items : List (ReadItem × Option (List Nat))) (start : Nat) : List (Nat × List Nat) :=
  (items.zipIdx start).filterMap fun entry => entry.1.2.map fun units => (entry.2, units)

variable {items : List (ReadItem × Option (List Nat))}

theorem unitsFrom_cons {first : ReadItem × Option (List Nat)} {start : Nat} :
    unitsFrom (first :: items) start =
      (first.2.map fun units => (start, units)).toList ++ unitsFrom items (start + 1) := by
  rw [unitsFrom, List.zipIdx_cons, List.filterMap_cons]
  cases own : first.2 <;> simp [unitsFrom]

theorem lookup_unitsFrom_of_lt {position start : Nat} (earlier : position < start) :
    (unitsFrom items start).lookup position = none := by
  induction items generalizing start with
  | nil => rfl
  | cons first items ih =>
      rw [unitsFrom_cons]
      cases first.2 with
      | none => exact ih (Nat.lt_succ_of_lt earlier)
      | some units =>
          rw [Option.map_some, Option.toList_some, List.singleton_append, List.lookup_cons,
            beq_eq_false_iff_ne.mpr earlier.ne]
          exact ih (Nat.lt_succ_of_lt earlier)

/-- The units at a place of the page. -/
theorem lookup_unitsFrom (place start : Nat) :
    (unitsFrom items start).lookup (start + place) = (items[place]?).bind Prod.snd := by
  induction items generalizing place start with
  | nil => rfl
  | cons first items ih =>
      rw [unitsFrom_cons]
      cases place with
      | zero =>
          rw [List.getElem?_cons_zero, Option.bind_some]
          cases own : first.2 with
          | none => exact lookup_unitsFrom_of_lt (Nat.lt_succ_self start)
          | some units => simp
      | succ place =>
          have later := ih place (start + 1)
          rw [Nat.add_assoc, Nat.add_comm 1 place] at later
          rw [List.getElem?_cons_succ, ← later]
          cases own : first.2 with
          | none => rfl
          | some units =>
              have apart : start + (place + 1) ≠ start := by omega
              rw [Option.map_some, Option.toList_some, List.singleton_append, List.lookup_cons,
                beq_eq_false_iff_ne.mpr apart]

def readOffset (input : ReadInput) : Nat :=
  if input.itemId.isSome then asUsize (input.textOffset.getD 0) else 0

def readMax (input : ReadInput) : Nat :=
  asUsize (input.maxCharsPerItem.getD 20000)

theorem max_pos (valid : input.valid) : 1 ≤ readMax input := by
  unfold ReadInput.valid at valid
  unfold readMax
  cases max : input.maxCharsPerItem with
  | none => decide
  | some n =>
      rw [max] at valid
      simp only [Option.all_some, Bool.and_eq_true, decide_eq_true_eq] at valid
      exact asUsize_pos valid.1.1.2.1

theorem lookup_page (position : Nat) :
    (page text messages thread runs rows input).1.textUnits.lookup position =
      ((page text messages thread runs rows input).2[position]?).bind fun row =>
        (readItem text messages (readOffset input) (readMax input) row).2 := by
  have found := @lookup_unitsFrom ((page text messages thread runs rows input).2.map
    (readItem text messages (readOffset input) (readMax input))) position 0
  rw [Nat.zero_add, List.getElem?_map, Option.bind_map] at found
  exact found

theorem getElem?_items (position : Nat) :
    (page text messages thread runs rows input).1.items[position]? =
      ((page text messages thread runs rows input).2[position]?).map fun row =>
        (readItem text messages (readOffset input) (readMax input) row).1 := by
  simp only [page, List.getElem?_map, Option.map_map]
  rfl

variable {body : String} {place : Nat}

/-- The slice of a text on a page, and where it goes on. -/
theorem page_text {row : Row}
    (shown : (page text messages thread runs rows input).2[place]? = some row)
    (has_text : text row.item = some body) :
    (page text messages thread runs rows input).1.textUnits.lookup place =
        some (((utf16 body).drop (readOffset input)).take (readMax input)) ∧
      ((page text messages thread runs rows input).1.items[place]?).bind ReadItem.nextTextOffset =
        if readOffset input + readMax input < (utf16 body).length then
          some (readOffset input + readMax input)
        else none := by
  constructor
  · rw [lookup_page, shown, Option.bind_some]
    simp only [readItem, has_text, Option.map_some, slice_units]
  · rw [getElem?_items, shown]
    simp only [readItem, has_text, Option.map_some, slice]
    by_cases more : readOffset input + readMax input < (utf16 body).length
    · rw [if_pos more, decide_eq_true more]
      rfl
    · rw [if_neg more, decide_eq_false more]
      rfl

theorem textPage_eq {offset : Nat} {row : Row} {id : String} (asked : input.itemId = some id)
    (shown : (page text messages thread runs rows input).2[place]? = some row)
    (has_text : text row.item = some body) :
    textPage text messages thread runs rows input place offset =
      (((utf16 body).drop offset).take (readMax input),
        if offset + readMax input < (utf16 body).length then some (offset + readMax input)
        else none) := by
  have offset_eq : readOffset { input with textOffset := some (offset : Int) } = offset := by
    rw [asked]
    change asUsize (offset : Int) = offset
    rw [asUsize, if_pos (Int.natCast_nonneg offset), Int.toNat_natCast]
  have shown_again : (page text messages thread runs rows
      { input with textOffset := some (offset : Int) }).2[place]? = some row := shown
  rcases page_text shown_again has_text with ⟨units, next⟩
  rw [offset_eq] at units next
  rw [textPage]
  exact Prod.ext (by rw [units]; rfl) next

/-- An offset at which text is left, or the text is empty. -/
def Within (body : String) (offset : Nat) : Prop :=
  offset < (utf16 body).length ∨ utf16 body = []

theorem textPage_covers {row : Row} {id : String} (valid : input.valid)
    (asked : input.itemId = some id)
    (shown : (page text messages thread runs rows input).2[place]? = some row)
    (has_text : text row.item = some body) :
    Paging.Covers (textPage text messages thread runs rows input place)
      (fun offset => (utf16 body).drop offset) (fun offset => (utf16 body).length - offset)
      (Within body) := by
  have positive := max_pos valid
  have next_eq {offset next : Nat}
      (goes_on : (textPage text messages thread runs rows input place offset).2 = some next) :
      next = offset + readMax input ∧ offset + readMax input < (utf16 body).length := by
    rw [textPage_eq asked shown has_text] at goes_on
    split at goes_on
    · rename_i more
      exact ⟨(Option.some.inj goes_on).symm, more⟩
    · cases goes_on
  refine ⟨fun offset _ => ?_, fun offset next _ goes_on => ?_, fun offset next _ goes_on => ?_⟩
  · rw [textPage_eq asked shown has_text]
    split
    · rw [Option.map_some, Option.getD_some, ← List.drop_drop, List.take_append_drop]
    · rename_i rest
      rw [Option.map_none, Option.getD_none, List.append_nil, List.take_of_length_le]
      rw [List.length_drop]
      omega
  · rcases next_eq goes_on with ⟨rfl, more⟩
    exact Or.inl more
  · rcases next_eq goes_on with ⟨rfl, more⟩
    omega

theorem textPage_bounds {offset : Nat} {row : Row} {id : String} (valid : input.valid)
    (asked : input.itemId = some id)
    (shown : (page text messages thread runs rows input).2[place]? = some row)
    (has_text : text row.item = some body) (within : Within body offset) :
    (textPage text messages thread runs rows input place offset).1.length ≤ readMax input ∧
      (utf16 body ≠ [] → (textPage text messages thread runs rows input place offset).1 ≠ []) := by
  have positive := max_pos valid
  rw [textPage_eq asked shown has_text]
  refine ⟨List.length_take_le _ _, fun some_text empty => ?_⟩
  rcases within with more | nothing
  · rcases List.take_eq_nil_iff.mp empty with zero | dropped
    · omega
    · have short := List.drop_eq_nil_iff.mp dropped
      omega
  · exact some_text nothing

/-! ## The answer as it is sent -/

/-- The literal of a slice of a text. -/
def unitsLiteral (units : List Nat) : Json :=
  literal (textValue units)

theorem asUnit_num {unit : Nat} (small : unit < 0x10000) :
    asUnit (.num (toString unit)) = some unit := by
  have value : Nat.ofDigitChars 10 (Nat.toDigits 10 unit) 0 = unit := Nat.ofDigitChars_ten_toDigits
  have digits : (Nat.toDigits 10 unit).all Char.isDigit = true :=
    List.all_eq_true.mpr fun char listed => Nat.isDigit_of_mem_toDigits (by decide) (by decide) listed
  rw [asUnit, Nat.toString_eq_ofList_toDigits, String.toList_ofList, value, if_pos ⟨Nat.toDigits_ne_nil, digits, by omega⟩, Nat.mod_eq_of_lt (by omega)]

theorem mapM_asUnit {units : List Nat} (small : ∀ unit ∈ units, unit < 0x10000) :
    (units.map fun unit => Json.num (toString unit)).mapM asUnit = some units := by
  induction units with
  | nil => rfl
  | cons unit units ih =>
      rw [List.map_cons, List.mapM_cons, asUnit_num (small unit List.mem_cons_self),
        ih fun other listed => small other (List.mem_cons_of_mem _ listed)]
      rfl

theorem marker_textValue (units : List Nat) :
    marker (textValue units) =
      if (decodeUtf16 units).isSome then none
      else some (units.map fun unit => .num (toString unit)) := by
  unfold textValue
  cases decodeUtf16 units with
  | some chars => rfl
  | none => simp [marker, index, Json.member]

/-- The literal of a slice reads back as the slice. -/
theorem readLiteral_unitsLiteral {units : List Nat} (small : ∀ unit ∈ units, unit < 0x10000) :
    readLiteral (unitsLiteral units).stringify = some units := by
  rw [unitsLiteral, literal, marker_textValue]
  cases decoded : decodeUtf16 units with
  | some chars =>
      have same := utf16_of_decodeUtf16 small decoded
      rw [if_pos (by rfl)]
      rw [textValue, decoded]
      rw [Json.stringify, readLiteral_quote, utf16, String.toList_ofList, same]
  | none =>
      rw [if_neg (by simp)]
      rw [stringify_raw, (filterMap_of_mapM (mapM_asUnit small)).1, readLiteral_quotedUnits small]

/-- A page that is sent: each text is a slice of its units, or there is none. -/
structure Sliced (page : ReadPage) : Prop where
  small : ∀ position units, page.textUnits.lookup position = some units →
    ∀ unit ∈ units, unit < 0x10000
  apart : ∀ position item, page.items[position]? = some item →
    page.textUnits.lookup position = none → item.text = .null

theorem setMember_toJson (item : ReadItem) :
    setMember "text" literal item.toJson = { item with text := literal item.text }.toJson := by
  simp [setMember, changeMember, ReadItem.toJson]

theorem withLiterals_toJson (page : ReadPage) (items : List ReadItem) :
    withLiterals (page.toJson items) =
      page.toJson (items.map fun item => { item with text := literal item.text }) := by
  simp [withLiterals, literals, ReadPage.toJson, setMember_toJson]

theorem withLiterals_wireValue {page : ReadPage} (sliced : Sliced page) :
    withLiterals page.wireValue = page.toJson (page.withTexts unitsLiteral) := by
  rw [ReadPage.wireValue, withLiterals_toJson, ReadPage.withTexts, ReadPage.withTexts]
  refine congrArg page.toJson (List.ext_getElem? fun position => ?_)
  rw [List.getElem?_map, List.getElem?_mapIdx, List.getElem?_mapIdx]
  cases there : page.items[position]? with
  | none => rfl
  | some item =>
      cases found : page.textUnits.lookup position with
      | some units => rfl
      | none =>
          have nothing := sliced.apart position item there found
          rcases item with ⟨row, messageId, createdBy, creationSource, body, truncated, next⟩
          dsimp only at nothing ⊢
          rw [nothing]
          rfl

/-- What `page` answers is sliced. -/
theorem sliced_page : Sliced (page text messages thread runs rows input).1 := by
  refine ⟨fun position units found unit listed => ?_, fun position item there absent => ?_⟩
  · rw [lookup_page] at found
    rcases Option.bind_eq_some_iff.mp found with ⟨row, -, sliced⟩
    simp only [readItem, Option.map_map, Option.map_eq_some_iff] at sliced
    rcases sliced with ⟨body, -, rfl⟩
    rw [Function.comp_apply, slice_units] at listed
    exact lt_of_mem_utf16 (List.mem_of_mem_drop (List.mem_of_mem_take listed))
  · rw [lookup_page] at absent
    rw [getElem?_items] at there
    rcases Option.map_eq_some_iff.mp there with ⟨row, shown, rfl⟩
    rw [shown] at absent
    cases body : text row.item with
    | none => simp [readItem, body]
    | some body' => simp [readItem, body] at absent

variable {uuid : Nat → String}

/-- A pass over a list ends if each of its steps does. -/
theorem visit_isSome {α σ : Type} {step : σ → α → Option (α × σ)} {list : List α}
    (each : ∀ item ∈ list, ∀ state, (step state item).isSome) (state : σ) :
    (visit step state list).isSome := by
  induction list generalizing state with
  | nil => rfl
  | cons item list ih =>
      rcases Option.isSome_iff_exists.mp (each item List.mem_cons_self state) with
        ⟨⟨changed, middle⟩, here⟩
      rcases Option.isSome_iff_exists.mp
        (ih (fun other listed => each other (List.mem_cons_of_mem _ listed)) middle) with
        ⟨⟨rest, final⟩, later⟩
      rw [visit, here, Option.bind_eq_bind, Option.bind_some]
      dsimp only
      rw [later]
      rfl

variable {replacements : Replacements}

theorem markSlot_isSome {slot : Json}
    (readable : ∀ values, marker slot = some values → (values.mapM asUnit).isSome) :
    (markSlot uuid replacements slot).isSome := by
  unfold markSlot
  cases marks : marker slot with
  | none => rfl
  | some values =>
      rcases Option.isSome_iff_exists.mp (readable values marks) with ⟨units, read⟩
      dsimp only
      rw [read]
      rfl

/-- Every slot of the page can be read. -/
theorem readable_textValue {units : List Nat} (small : ∀ unit ∈ units, unit < 0x10000)
    (values : List Json) (marks : marker (textValue units) = some values) :
    (values.mapM asUnit).isSome := by
  rw [marker_textValue] at marks
  split at marks
  · cases marks
  · cases marks
    rw [mapM_asUnit small]
    rfl

theorem markItem_isSome {item : ReadItem}
    (readable : ∀ values, marker item.text = some values → (values.mapM asUnit).isSome) :
    (markItem uuid "text" replacements item.toJson).isSome := by
  have visited := @visit_isSome _ _ (markField uuid "text") [
    ("position", Json.num (toString item.row.position)),
    ("visibility", .str item.row.visibility.text), ("sourceThreadId", .str item.row.source),
    ("itemId", .str item.row.id), ("runId", index "runId" item.row.item),
    ("messageId", item.messageId), ("createdBy", item.createdBy),
    ("creationSource", item.creationSource), ("type", index "type" item.row.item),
    ("status", index "status" item.row.item), ("title", index "title" item.row.item),
    ("text", item.text), ("textTruncated", .bool item.textTruncated),
    ("nextTextOffset", optionalNum item.nextTextOffset),
    ("updatedAt", index "updatedAt" item.row.item)] (fun member listed state => by
      unfold markField
      by_cases named : member.1 = "text"
      · have slot : member.2 = item.text := by
          simp only [List.mem_cons, List.not_mem_nil, or_false] at listed
          rcases listed with rfl | rfl | rfl | rfl | rfl | rfl | rfl | rfl | rfl | rfl | rfl | rfl |
            rfl | rfl | rfl <;> simp at named ⊢
        rw [if_pos named, slot]
        rcases Option.isSome_iff_exists.mp (markSlot_isSome readable) with ⟨marked, found⟩
        rw [found]
        rfl
      · rw [if_neg named]
        rfl) replacements
  rcases Option.isSome_iff_exists.mp visited with ⟨result, found⟩
  rw [ReadItem.toJson, markItem, found]
  rfl

/-- Each text of the page is a slice, or nothing. -/
theorem readable_of_sliced {page : ReadPage} (sliced : Sliced page) {item : Json}
    (listed : item ∈ (page.withTexts textValue).map ReadItem.toJson) (replacements : Replacements) :
    (markItem uuid "text" replacements item).isSome := by
  rcases List.mem_map.mp listed with ⟨shown, there, rfl⟩
  rcases List.mem_iff_getElem?.mp there with ⟨position, at_place⟩
  rw [ReadPage.withTexts, List.getElem?_mapIdx] at at_place
  rcases Option.map_eq_some_iff.mp at_place with ⟨item, own, rfl⟩
  apply markItem_isSome
  intro values marks
  cases found : page.textUnits.lookup position with
  | some units =>
      rw [found] at marks
      exact readable_textValue (sliced.small position units found) values marks
  | none =>
      rw [found] at marks
      rw [sliced.apart position item own found] at marks
      cases marks

theorem names_of_passed {collection field : String} {members visited : List (String × Json)}
    (passed : List.Forall₂ (Passed uuid collection field replacements) members visited) :
    visited.map Prod.fst = members.map Prod.fst := by
  induction passed with
  | nil => rfl
  | cons here _ ih => rw [List.map_cons, List.map_cons, here.1, ih]

theorem markMember_isSome_of_ne {collection field : String} {member : String × Json}
    (other : member.1 ≠ collection) :
    (markMember uuid collection field replacements member).isSome := by
  rw [markMember, if_neg other]
  rfl

theorem markCollection_isSome {collection field : String} {members : List (String × Json)}
    (each : ∀ member ∈ members, ∀ state, (markMember uuid collection field state member).isSome) :
    (markCollection uuid collection field replacements (.obj members)).isSome := by
  rcases Option.isSome_iff_exists.mp (visit_isSome each replacements) with ⟨result, found⟩
  rw [markCollection, found]
  rfl

/-- A page is sent. -/
theorem readJson_isSome {page : ReadPage} (sliced : Sliced page) :
    (readJson uuid page.wireValue).isSome := by
  have first : (markCollection uuid "items" "text" [] page.wireValue).isSome := by
    refine markCollection_isSome fun member listed state => ?_
    by_cases named : member.1 = "items"
    · have collection : member.2 = .arr ((page.withTexts textValue).map ReadItem.toJson) := by
        simp only [List.mem_cons, List.not_mem_nil, or_false] at listed
        rcases listed with rfl | rfl | rfl | rfl | rfl <;> simp at named ⊢
      rw [markMember, if_pos named, collection]
      dsimp only
      rcases Option.isSome_iff_exists.mp (visit_isSome (fun item listed state =>
        readable_of_sliced sliced listed state) state) with ⟨result, found⟩
      rw [found]
      rfl
    · exact markMember_isSome_of_ne named
  rcases Option.isSome_iff_exists.mp first with ⟨⟨middle, replacements⟩, passed⟩
  have nothing : Collected uuid [] := fun position replacement listed => by simp at listed
  rcases markCollection_spec nothing passed with ⟨visited, rfl, -, -, each⟩
  have names := names_of_passed each
  have second : (markCollection uuid "matches" "snippet" replacements (.obj visited)).isSome := by
    refine markCollection_isSome fun member listed state => markMember_isSome_of_ne ?_
    have named := List.mem_map_of_mem (f := Prod.fst) listed
    rw [names] at named
    simp only [List.map_cons, List.map_nil, List.mem_cons, List.not_mem_nil, or_false] at named
    rcases named with same | same | same | same | same <;> simp [same]
  rcases Option.isSome_iff_exists.mp second with ⟨result, found⟩
  have marks : markSlots uuid page.wireValue = some result := by
    rw [markSlots, passed]
    exact found
  rw [readJson, marks]
  rfl

theorem responseJson_wireValue {page : ReadPage} {envelope : String} {value : Json}
    (sliced : Sliced page)
    (there : (value.member "result").bind (Json.member "structuredContent") = some page.wireValue)
    (fresh : Fresh uuid (generated uuid page.wireValue) value.stringify)
    (fresh_envelope : FreshName envelope value.stringify) :
    responseJson uuid envelope value =
      some (setMember "result" (setMember "structuredContent" fun _ =>
        page.toJson (page.withTexts unitsLiteral)) value).stringify := by
  have paged : isArray (page.wireValue.member "items") = true := rfl
  have answers : (responseJson uuid envelope value).isSome := by
    rcases Option.isSome_iff_exists.mp (readJson_isSome sliced) with ⟨encoded, found⟩
    unfold responseJson
    rw [there]
    dsimp only
    rw [found]
    rfl
  rcases Option.isSome_iff_exists.mp answers with ⟨encoded, found⟩
  rw [found, responseJson_eq fresh fresh_envelope there (Or.inl paged) found,
    withLiterals_wireValue sliced]

/-- Every page that starts where the one before ended, and every slice of a text. -/
theorem reading_by_pages_loses_nothing (valid : input.valid) :
    -- The pages from the start are together the rows that are asked for.
    (input.itemId = none → ∀ count, rows.length < count →
      (Paging.follow (rowsPage text messages thread runs (numbered rows) input) count none).2 =
          none ∧
        (Paging.follow (rowsPage text messages thread runs (numbered rows) input) count
          none).1.flatten = remaining rows input none) ∧
    -- The slices of a text are together its units, and the first is on every page.
    (∀ place row body, (page text messages thread runs (numbered rows) input).2[place]? = some row →
      text row.item = some body →
      ((page text messages thread runs (numbered rows) input).1.textUnits.lookup place =
          some (((utf16 body).drop (readOffset input)).take (readMax input)) ∧
        ((page text messages thread runs (numbered rows) input).1.items[place]?).bind
            ReadItem.nextTextOffset =
          if readOffset input + readMax input < (utf16 body).length then
            some (readOffset input + readMax input)
          else none) ∧
      (input.itemId.isSome → ∀ offset, Within body offset → ∀ count, (utf16 body).length < count →
        (Paging.follow (textPage text messages thread runs (numbered rows) input place) count
            offset).2 = none ∧
          (Paging.follow (textPage text messages thread runs (numbered rows) input place) count
            offset).1.flatten = (utf16 body).drop offset ∧
          ∀ units ∈ (Paging.follow (textPage text messages thread runs (numbered rows) input place)
            count offset).1, units.length ≤ readMax input ∧ (utf16 body ≠ [] → units ≠ []))) ∧
    -- The answer has literals in these slots, which read back as the slices.
    (∀ uuid envelope value,
      (value.member "result").bind (Json.member "structuredContent") =
        some (page text messages thread runs (numbered rows) input).1.wireValue →
      Fresh uuid (generated uuid (page text messages thread runs (numbered rows) input).1.wireValue)
        value.stringify →
      FreshName envelope value.stringify →
      responseJson uuid envelope value =
        some (setMember "result" (setMember "structuredContent" fun _ =>
          (page text messages thread runs (numbered rows) input).1.toJson
            ((page text messages thread runs (numbered rows) input).1.withTexts unitsLiteral))
          value).stringify) ∧
    (∀ place units,
      (page text messages thread runs (numbered rows) input).1.textUnits.lookup place = some units →
      readLiteral (unitsLiteral units).stringify = some units) ∧
    -- Of any other value that can be printed, too, only the slots are replaced.
    (∀ uuid value encoded, Fresh uuid (generated uuid value) value.stringify →
      readJson uuid value = some encoded → encoded = (withLiterals value).stringify) ∧
    (∀ uuid envelope value content encoded,
      (value.member "result").bind (Json.member "structuredContent") = some content →
      isArray (content.member "items") ∨ isArray (content.member "matches") →
      Fresh uuid (generated uuid content) value.stringify → FreshName envelope value.stringify →
      responseJson uuid envelope value = some encoded →
      encoded = (setMember "result" (setMember "structuredContent" fun _ => withLiterals content)
        value).stringify) := by
  refine ⟨fun listing count enough => ?_, fun place row body shown has_text => ?_,
    fun uuid envelope value there fresh fresh_envelope => ?_, fun place units found => ?_,
    fun uuid value encoded fresh found => readJson_eq fresh found,
    fun uuid envelope value content encoded there paged fresh fresh_envelope found =>
      responseJson_eq fresh fresh_envelope there paged found⟩
  · refine (rowsPage_covers valid listing).follow trivial (lt_of_le_of_lt ?_ enough)
    exact (List.length_filter_le _ _).trans (by simp [numbered])
  · refine ⟨page_text shown has_text, fun asked offset within count enough => ?_⟩
    rcases Option.isSome_iff_exists.mp asked with ⟨id, asked⟩
    have covers := textPage_covers valid asked shown has_text
    rcases @Paging.Covers.follow _ _ _ _ _ _ covers _ within count (by omega) with ⟨ended, whole⟩
    exact ⟨ended, whole, covers.forall_follow
      (fun start within => textPage_bounds valid asked shown has_text within) within count⟩
  · exact responseJson_wireValue sliced_page there fresh fresh_envelope
  · exact readLiteral_unitsLiteral (sliced_page.small place units found)

def smileRow : Row where
  position := 0
  source := "thread"
  id := "smile"
  visibility := .local
  item := .obj [("type", .str "assistant_message"), ("text", .str "A😀")]

def smileInput : ReadInput where
  itemId := some "smile"
  textOffset := none
  view := none
  afterPosition := none
  limit := none
  runLimit := none
  maxCharsPerItem := some 2

/-- The first slice, in the answer of a tool. -/
def smilePage : ReadPage :=
  (page (fun item => (index "text" item).asString) (fun _ => []) .null []
    (numbered [smileRow]) smileInput).1

def smileAnswer : Json :=
  .obj [("result", .obj [("structuredContent", smilePage.wireValue)])]

def smileUuid (position : Nat) : String :=
  if position = 0 then "0f1e2d3c-4b5a-4678" else "9f8e7d6c-5b4a-4321"

theorem freshName_of_digits {name : String} {text : List Char}
    (digits : (name.toList.all fun char => uuidDigits.contains char) = true)
    (absent : ¬ name.toList <:+: text) : FreshName name text where
  digits char listed := by simpa using List.all_eq_true.mp digits char listed
  absent := absent

theorem fresh_smile :
    Fresh smileUuid (generated smileUuid smilePage.wireValue) smileAnswer.stringify := by
  have count : generated smileUuid smilePage.wireValue = 1 := by decide +kernel
  refine ⟨fun position first => ?_, fun first one second two _ => by omega⟩
  obtain rfl : position = 0 := by omega
  exact freshName_of_digits (by decide +kernel) (by decide +kernel)

/-- The cut goes through the surrogate pair, and the answer has half of it as a literal. -/
theorem smile_is_read_in_two_slices :
    (Paging.follow (textPage (fun item => (index "text" item).asString) (fun _ => []) .null []
      (numbered [smileRow]) smileInput 0) 4 0).1.flatten = [65, 0xD83D, 0xDE00] ∧
    responseJson smileUuid "00112233-4455" smileAnswer =
      some (setMember "result" (setMember "structuredContent" fun _ =>
        smilePage.toJson (smilePage.withTexts unitsLiteral)) smileAnswer).stringify := by
  obtain ⟨-, texts, answers, -⟩ := @reading_by_pages_loses_nothing
    (fun item => (index "text" item).asString) (fun _ => []) .null [] [smileRow] smileInput
    (by decide)
  have whole := (texts 0 smileRow "A😀" (by decide) (by decide)).2 (by decide) 0
    (Or.inl (by decide)) 4 (by decide)
  exact ⟨whole.2.1.trans (by decide), answers smileUuid "00112233-4455" smileAnswer rfl fresh_smile
    (freshName_of_digits (by decide +kernel) (by decide +kernel))⟩

end Zeron.Threads.Timeline
