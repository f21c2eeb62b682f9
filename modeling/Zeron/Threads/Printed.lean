import Zeron.Threads.Timeline

/-!
# What a printed answer says

The slots of an answer are printed as the literals that their markers stand for, and everything
else is printed as it is.
-/

namespace Zeron.Threads.Timeline

open Data Wire

/-- A value that prints as these characters. -/
def raw (chars : List Char) : Json :=
  .num (String.ofList chars)

@[simp]
theorem stringify_raw (chars : List Char) : (raw chars).stringify = chars := by
  rw [raw, Json.stringify, String.toList_ofList]

/-- What a marker stands for. -/
def literal (slot : Json) : Json :=
  match marker slot with
  | none => slot
  | some units => raw (quotedUnits (units.filterMap asUnit))

/-- The slots of a collection with their literals. -/
def literals (collection field : String) (member : String × Json) : String × Json :=
  if member.1 = collection then
    match member.2 with
    | .arr items => (member.1, .arr (items.map (setMember field literal)))
    | _ => member
  else member

/-- The value with literals in its slots, and nothing else changed. -/
def withLiterals : Json → Json
  | .obj members =>
      .obj (members.map fun member => literals "matches" "snippet" (literals "items" "text" member))
  | value => value

/-- What a generated name is made of. -/
def uuidDigits : List Char :=
  ['0', '1', '2', '3', '4', '5', '6', '7', '8', '9', 'a', 'b', 'c', 'd', 'e', 'f', '-']

/-- A generated name is of the usual form, and does not stand in a text. -/
structure FreshName (name : String) (text : List Char) : Prop where
  digits : ∀ char ∈ name.toList, char ∈ uuidDigits
  absent : ¬ name.toList <:+: text

/-- So many generated names are fresh, and differ. -/
structure Fresh (uuid : Nat → String) (count : Nat) (text : List Char) : Prop where
  each : ∀ position < count, FreshName (uuid position) text
  distinct : ∀ first < count, ∀ second < count, uuid first = uuid second → first = second

/-- The number of names that are generated for a value. -/
def generated (uuid : Nat → String) (value : Json) : Nat :=
  ((markSlots uuid value).map fun result => result.2.length).getD 0

section

variable {uuid : Nat → String} {replacements later : Replacements} {position : Nat}

/-! ## Tokens -/

/-- The start of a token, printed. -/
def tokenStart : List Char :=
  ['\\', 'u', '0', '0', '0', '0', 'u', 't', 'f', '1', '6', ':']

/-- A token, printed, between its quotes. -/
def tokenWord (uuid : Nat → String) (position : Nat) : List Char :=
  tokenStart ++ (uuid position).toList ++ ':' :: Nat.toDigits 10 position

theorem escapeChar_digit {char : Char} (digit : char ∈ uuidDigits) :
    Json.escapeChar char = [char] := by
  have each : (uuidDigits.all fun char => Json.escapeChar char == [char]) = true := by decide
  exact eq_of_beq (List.all_eq_true.mp each char digit)

theorem mem_digits_of_mem_toDigits {n : Nat} {char : Char} (listed : char ∈ Nat.toDigits 10 n) :
    char ∈ uuidDigits := by
  have digit := Nat.isDigit_of_mem_toDigits (by decide) (by decide) listed
  rw [Char.isDigit, Bool.and_eq_true, decide_eq_true_eq, decide_eq_true_eq] at digit
  have low : 48 ≤ char.toNat := digit.1
  have high : char.toNat ≤ 57 := digit.2
  rw [char_eq_ofNat char]
  generalize char.toNat = code at low high
  interval_cases code <;> decide

theorem flatMap_escapeChar {chars : List Char}
    (plain : ∀ char ∈ chars, char ∈ uuidDigits) :
    chars.flatMap Json.escapeChar = chars := by
  induction chars with
  | nil => rfl
  | cons char chars ih =>
      rw [List.flatMap_cons, escapeChar_digit (plain char List.mem_cons_self),
        ih fun other listed => plain other (List.mem_cons_of_mem _ listed)]
      rfl

theorem stringify_token (fresh : ∀ char ∈ (uuid position).toList,
    char ∈ uuidDigits) :
    (Json.str (token uuid position)).stringify = marked '"' (tokenWord uuid position) := by
  have start : "\x00utf16:".toList.flatMap Json.escapeChar = tokenStart := by decide
  have colon : ":".toList.flatMap Json.escapeChar = [':'] := by decide
  have number : (toString position).toList.flatMap Json.escapeChar = Nat.toDigits 10 position := by
    rw [Nat.toString_eq_ofList_toDigits, String.toList_ofList]
    exact flatMap_escapeChar fun char => mem_digits_of_mem_toDigits
  rw [Json.stringify, Json.quote, token, String.toList_append, String.toList_append,
    String.toList_append, List.flatMap_append, List.flatMap_append, List.flatMap_append, start,
    colon, number, flatMap_escapeChar fresh]
  simp [marked, tokenWord]

theorem quote_not_mem_tokenWord (fresh : ∀ char ∈ (uuid position).toList,
    char ∈ uuidDigits) : '"' ∉ tokenWord uuid position := by
  have apart : '"' ∉ uuidDigits := by decide
  intro listed
  simp only [tokenWord, List.mem_append, List.mem_cons] at listed
  rcases listed with (listed | listed) | listed | listed
  · revert listed
    decide
  · exact apart (fresh _ listed)
  · revert listed
    decide
  · exact apart (mem_digits_of_mem_toDigits listed)

theorem tokenWord_injective {text : List Char} {count first second : Nat}
    (fresh : Fresh uuid count text) (first_bound : first < count) (second_bound : second < count)
    (same : tokenWord uuid first = tokenWord uuid second) : first = second := by
  have no_colon (position : Nat) (bound : position < count) : ':' ∉ (uuid position).toList := by
    intro listed
    have digit := (fresh.each position bound).digits _ listed
    revert digit
    decide
  rw [tokenWord, tokenWord, List.append_assoc, List.append_assoc, List.append_right_inj] at same
  have starts : (uuid first).toList ++ [':'] <+:
      (uuid second).toList ++ ':' :: Nat.toDigits 10 second := by
    rw [← same]
    exact ⟨Nat.toDigits 10 first, by simp⟩
  have names := eq_of_prefix_mark (no_colon first first_bound) (no_colon second second_bound) starts
  exact fresh.distinct first first_bound second second_bound (String.toList_injective names)

theorem tokenWord_absent {text chars : List Char} (fresh : FreshName (uuid position) text)
    (within : chars <:+: text) : ¬ tokenWord uuid position <:+: chars := by
  intro found
  refine fresh.absent (List.IsInfix.trans ?_ (found.trans within))
  exact ⟨tokenStart, ':' :: Nat.toDigits 10 position, rfl⟩

variable {units : List Nat}

theorem mem_escapedUnits {char : Char} (listed : char ∈ escapedUnits units)
    (small : ∀ unit ∈ units, unit < 0x10000) : char ∈ '\\' :: 'u' :: uuidDigits := by
  have digit {n : Nat} (bound : n < 16) : Nat.digitChar n ∈ '\\' :: 'u' :: uuidDigits := by
    interval_cases n <;> decide
  rcases List.mem_flatMap.mp listed with ⟨unit, there, listed⟩
  have bound := small unit there
  simp only [List.mem_cons, List.not_mem_nil, or_false] at listed
  rcases listed with rfl | rfl | rfl | rfl | rfl | rfl
  · decide
  · decide
  · exact digit (by omega)
  · exact digit (by omega)
  · exact digit (by omega)
  · exact digit (by omega)

/-! ## What is collected -/

/-- Each replacement is of the token of its place, by a literal. -/
def Collected (uuid : Nat → String) (replacements : Replacements) : Prop :=
  ∀ position replacement, replacements[position]? = some replacement →
    replacement.1 = (Json.str (token uuid position)).stringify ∧
      ∃ units, (∀ unit ∈ units, unit < 0x10000) ∧ replacement.2 = quotedUnits units

/-- A hole in the answer: the place of its replacement, and the slot. -/
abbrev Hole := Nat × Json

def Hole.token (uuid : Nat → String) (hole : Hole) : List Char :=
  (Json.str (Timeline.token uuid hole.1)).stringify

def Hole.original (hole : Hole) : List Char :=
  hole.2.stringify

def Hole.literal (hole : Hole) : List Char :=
  (Timeline.literal hole.2).stringify

/-- Three ways to print a hole, and what is known of it. -/
structure Prints (β : Type) where
  original : β → List Char
  safe : β → List Char
  final : β → List Char
  known : β → Prop

/-- The three texts differ in holes alone. -/
def Printed {β : Type} (prints : Prints β) (original safe final : List Char) : Prop :=
  ∃ woven : Woven Char β, original = woven.text prints.original ∧
    safe = woven.text prints.safe ∧ final = woven.text prints.final ∧
    ∀ hole ∈ woven.holes, prints.known hole

/-- The holes have been collected. -/
def slotPrints (uuid : Nat → String) (replacements : Replacements) : Prints Hole where
  original := Hole.original
  safe := Hole.token uuid
  final := Hole.literal
  known hole := ∃ replacement, replacements[hole.1]? = some replacement ∧
    replacement.2 = hole.literal

theorem getElem?_of_prefix {α : Type} {short long : List α} (starts : short <+: long)
    {position : Nat} {value : α} (found : short[position]? = some value) :
    long[position]? = some value := by
  rcases starts with ⟨rest, rfl⟩
  rw [List.getElem?_append_left (List.getElem?_eq_some_iff.mp found).1, found]

theorem Printed.mono {original safe final : List Char} (starts : replacements <+: later)
    (printed : Printed (slotPrints uuid replacements) original safe final) :
    Printed (slotPrints uuid later) original safe final := by
  rcases printed with ⟨woven, first, second, third, known⟩
  refine ⟨woven, first, second, third, fun hole listed => ?_⟩
  rcases known hole listed with ⟨replacement, found, same⟩
  exact ⟨replacement, getElem?_of_prefix starts found, same⟩

variable {β : Type} {prints : Prints β}

theorem Printed.refl (chars : List Char) : Printed prints chars chars chars :=
  ⟨Woven.plain chars, by simp, by simp, by simp, by simp⟩

theorem Printed.append {original safe final original' safe' final' : List Char}
    (first : Printed prints original safe final) (second : Printed prints original' safe' final') :
    Printed prints (original ++ original') (safe ++ safe') (final ++ final') := by
  rcases first with ⟨woven, rfl, rfl, rfl, known⟩
  rcases second with ⟨other, rfl, rfl, rfl, known'⟩
  refine ⟨woven ++ other, by simp, by simp, by simp, fun hole listed => ?_⟩
  rw [Woven.holes_append, List.mem_append] at listed
  rcases listed with listed | listed
  · exact known hole listed
  · exact known' hole listed

/-- Values of which the prints differ in holes alone. -/
def PrintedJson (prints : Prints β) (original safe final : Json) : Prop :=
  Printed prints original.stringify safe.stringify final.stringify

variable {final : Json → Json}

theorem printed_items {items safes : List Json}
    (each : List.Forall₂ (fun item safe => PrintedJson prints item safe (final item)) items safes) :
    Printed prints (Json.stringifyItems items) (Json.stringifyItems safes)
      (Json.stringifyItems (items.map final)) := by
  induction each with
  | nil => exact Printed.refl []
  | @cons item safe items safes here rest ih =>
      cases rest with
      | nil => exact here
      | cons next rest => exact (here.append (Printed.refl [','])).append ih

variable {members : List (String × Json)} {safes : List (String × Json)}

theorem printed_members {final : String × Json → String × Json}
    (named : ∀ member, (final member).1 = member.1)
    (each : List.Forall₂ (fun member safe => safe.1 = member.1 ∧
      PrintedJson prints member.2 safe.2 (final member).2) members safes) :
    Printed prints (Json.stringifyMembers members) (Json.stringifyMembers safes)
      (Json.stringifyMembers (members.map final)) := by
  induction each with
  | nil => exact Printed.refl []
  | @cons member safe members safes here rest ih =>
      rcases member with ⟨name, value⟩
      rcases safe with ⟨other, safe⟩
      rcases here with ⟨same, here⟩
      subst same
      have final_name := named (other, value)
      rcases print : final (other, value) with ⟨third, last⟩
      rw [print] at here final_name
      subst final_name
      have start := (Printed.refl (Json.quote third ++ [':'])).append here
      cases rest with
      | nil =>
          simp only [List.map_cons, print]
          exact start
      | cons next rest =>
          simp only [List.map_cons, print] at ih ⊢
          exact (start.append (Printed.refl [','])).append ih

/-! ## The passes -/

/-- A step of a pass keeps what is collected, adds to it, and relates what it changes. -/
theorem visit_spec {α : Type} {step : Replacements → α → Option (α × Replacements)}
    {related : Replacements → α → α → Prop} {list visited : List α}
    (mono : ∀ {first second item other}, first <+: second → related first item other →
      related second item other)
    (each : ∀ {first item other second}, Collected uuid first →
      step first item = some (other, second) →
      Collected uuid second ∧ first <+: second ∧ related second item other)
    (collected : Collected uuid replacements)
    (found : visit step replacements list = some (visited, later)) :
    Collected uuid later ∧ replacements <+: later ∧ List.Forall₂ (related later) list visited := by
  induction list generalizing replacements visited with
  | nil =>
      cases found
      exact ⟨collected, List.prefix_refl _, List.Forall₂.nil⟩
  | cons item list ih =>
      rw [visit, Option.bind_eq_bind, Option.bind_eq_some_iff] at found
      rcases found with ⟨⟨other, middle⟩, here, found⟩
      rcases Option.bind_eq_some_iff.mp found with ⟨⟨others, final⟩, rest, found⟩
      cases found
      rcases each collected here with ⟨collected, grown, relation⟩
      rcases ih collected rest with ⟨collected, grown_again, relations⟩
      exact ⟨collected, grown.trans grown_again,
        List.Forall₂.cons (mono grown_again relation) relations⟩

variable {value : Json}

theorem asUnit_lt {unit : Nat} (found : asUnit value = some unit) : unit < 0x10000 := by
  unfold asUnit at found
  split at found
  · dsimp only at found
    split at found
    · cases found
      exact Nat.mod_lt _ (by decide)
    · cases found
  · cases found

theorem filterMap_of_mapM {values : List Json} (found : values.mapM asUnit = some units) :
    values.filterMap asUnit = units ∧ ∀ unit ∈ units, unit < 0x10000 := by
  induction values generalizing units with
  | nil =>
      cases found
      exact ⟨rfl, by simp⟩
  | cons value values ih =>
      rw [List.mapM_cons, Option.bind_eq_bind, Option.bind_eq_some_iff] at found
      rcases found with ⟨unit, here, found⟩
      rcases Option.bind_eq_some_iff.mp found with ⟨rest, later, found⟩
      cases found
      rcases ih later with ⟨same, small⟩
      refine ⟨by rw [List.filterMap_cons_some here, same], ?_⟩
      simpa using ⟨asUnit_lt here, small⟩

theorem markSlot_spec {slot safe : Json} (collected : Collected uuid replacements)
    (found : markSlot uuid replacements slot = some (safe, later)) :
    Collected uuid later ∧ replacements <+: later ∧
      PrintedJson (slotPrints uuid later) slot safe (literal slot) := by
  unfold markSlot at found
  cases marks : marker slot with
  | none =>
      rw [marks] at found
      cases found
      refine ⟨collected, List.prefix_refl _, ?_⟩
      rw [literal, marks]
      exact Printed.refl _
  | some values =>
      rw [marks] at found
      rcases Option.bind_eq_some_iff.mp found with ⟨units, read, found⟩
      cases found
      rcases filterMap_of_mapM read with ⟨same, small⟩
      have literal_eq : (literal slot).stringify = quotedUnits units := by
        rw [literal, marks]
        dsimp only
        rw [same, stringify_raw]
      refine ⟨?_, List.prefix_append _ _, ?_⟩
      · intro position replacement listed
        by_cases earlier : position < replacements.length
        · rw [List.getElem?_append_left earlier] at listed
          exact collected position replacement listed
        · have bound := (List.getElem?_eq_some_iff.mp listed).1
          rw [List.length_append, List.length_singleton] at bound
          have last : position = replacements.length := by omega
          subst last
          rw [List.getElem?_append_right (le_refl _), Nat.sub_self] at listed
          cases listed
          exact ⟨rfl, units, small, rfl⟩
      · refine ⟨Woven.hole (replacements.length, slot), ?_, ?_, ?_, ?_⟩
        · rw [Woven.text_hole]
          rfl
        · rw [Woven.text_hole]
          rfl
        · rw [Woven.text_hole]
          rfl
        · intro hole listed
          rw [Woven.holes_hole, List.mem_singleton] at listed
          subst listed
          refine ⟨((Json.str (token uuid replacements.length)).stringify, quotedUnits units), ?_, ?_⟩
          · simp
          · exact literal_eq.symm

variable {field : String}

theorem markField_spec {member safe : String × Json} (collected : Collected uuid replacements)
    (found : markField uuid field replacements member = some (safe, later)) :
    Collected uuid later ∧ replacements <+: later ∧ safe.1 = member.1 ∧
      PrintedJson (slotPrints uuid later) member.2 safe.2 (changeMember field literal member).2 := by
  unfold markField at found
  by_cases named : member.1 = field
  · rw [if_pos named, Option.bind_eq_bind, Option.bind_eq_some_iff] at found
    rcases found with ⟨⟨slot, middle⟩, marks, found⟩
    cases found
    rcases markSlot_spec collected marks with ⟨collected, grown, printed⟩
    rw [changeMember, if_pos named]
    exact ⟨collected, grown, rfl, printed⟩
  · rw [if_neg named] at found
    cases found
    rw [changeMember, if_neg named]
    exact ⟨collected, List.prefix_refl _, rfl, Printed.refl _⟩

theorem PrintedJson.mono {original safe final : Json} (grown : replacements <+: later)
    (printed : PrintedJson (slotPrints uuid replacements) original safe final) :
    PrintedJson (slotPrints uuid later) original safe final :=
  Printed.mono grown printed

theorem printed_obj {final : String × Json → String × Json}
    (named : ∀ member, (final member).1 = member.1)
    (each : List.Forall₂ (fun member safe => safe.1 = member.1 ∧
      PrintedJson prints member.2 safe.2 (final member).2) members safes) :
    PrintedJson prints (.obj members) (.obj safes) (.obj (members.map final)) :=
  ((Printed.refl ['\x7b']).append (printed_members named each)).append (Printed.refl ['\x7d'])

theorem printed_arr {items safes : List Json}
    (each : List.Forall₂ (fun item safe => PrintedJson prints item safe (final item)) items safes) :
    PrintedJson prints (.arr items) (.arr safes) (.arr (items.map final)) :=
  ((Printed.refl ['[']).append (printed_items each)).append (Printed.refl [']'])

theorem fst_changeMember (name : String) (change : Json → Json) (member : String × Json) :
    (changeMember name change member).1 = member.1 := by
  unfold changeMember
  split <;> rfl

theorem markItem_spec {item safe : Json} (collected : Collected uuid replacements)
    (found : markItem uuid field replacements item = some (safe, later)) :
    Collected uuid later ∧ replacements <+: later ∧
      PrintedJson (slotPrints uuid later) item safe (setMember field literal item) := by
  cases item with
  | obj members =>
      rw [markItem, Option.bind_eq_bind, Option.bind_eq_some_iff] at found
      rcases found with ⟨⟨visited, final⟩, visits, found⟩
      cases found
      let related := fun reached (member safe : String × Json) =>
        safe.1 = member.1 ∧
          PrintedJson (slotPrints uuid reached) member.2 safe.2 (changeMember field literal member).2
      have spec := @visit_spec _ _ _ _ _ related _ _
        (fun grown relation => And.imp_right (PrintedJson.mono grown) relation)
        (fun known step => markField_spec known step) collected visits
      rcases spec with ⟨collected, grown, each⟩
      exact ⟨collected, grown, printed_obj (fst_changeMember field literal) each⟩
  | null | bool | num | str | arr =>
      cases found
      exact ⟨collected, List.prefix_refl _, Printed.refl _⟩

theorem fst_literals (collection field : String) (member : String × Json) :
    (literals collection field member).1 = member.1 := by
  unfold literals
  split
  · split <;> rfl
  · rfl

variable {collection : String}

theorem literals_of_ne {member : String × Json} (other : member.1 ≠ collection) :
    literals collection field member = member :=
  if_neg other

/-- What a pass makes of a member. -/
def Passed (uuid : Nat → String) (collection field : String) (replacements : Replacements)
    (member safe : String × Json) : Prop :=
  safe.1 = member.1 ∧
    PrintedJson (slotPrints uuid replacements) member.2 safe.2 (literals collection field member).2 ∧
    (member.1 ≠ collection → safe = member)

theorem markMember_spec {member safe : String × Json} (collected : Collected uuid replacements)
    (found : markMember uuid collection field replacements member = some (safe, later)) :
    Collected uuid later ∧ replacements <+: later ∧
      Passed uuid collection field later member safe := by
  rcases member with ⟨name, value⟩
  unfold markMember at found
  by_cases named : name = collection
  · rw [if_pos named] at found
    cases value with
    | arr items =>
        rcases Option.bind_eq_some_iff.mp found with ⟨⟨visited, final⟩, visits, found⟩
        cases found
        let related := fun reached (item safe : Json) =>
          PrintedJson (slotPrints uuid reached) item safe (setMember field literal item)
        rcases @visit_spec _ _ _ _ _ related _ _ (fun grown relation => relation.mono grown)
            (fun known step => markItem_spec known step) collected visits with
          ⟨collected, grown, each⟩
        refine ⟨collected, grown, rfl, ?_, fun other => absurd named other⟩
        rw [literals, if_pos named]
        exact printed_arr each
    | null | bool | num | str | obj =>
        cases found
        refine ⟨collected, List.prefix_refl _, rfl, ?_, fun _ => rfl⟩
        rw [literals, if_pos named]
        exact Printed.refl _
  · rw [if_neg named] at found
    cases found
    refine ⟨collected, List.prefix_refl _, rfl, ?_, fun _ => rfl⟩
    rw [literals_of_ne named]
    exact Printed.refl _

theorem markCollection_spec {safe : Json} (collected : Collected uuid replacements)
    (found : markCollection uuid collection field replacements (.obj members) =
      some (safe, later)) :
    ∃ visited, safe = .obj visited ∧ Collected uuid later ∧ replacements <+: later ∧
      List.Forall₂ (Passed uuid collection field later) members visited := by
  rw [markCollection, Option.bind_eq_bind, Option.bind_eq_some_iff] at found
  rcases found with ⟨⟨visited, final⟩, visits, found⟩
  cases found
  exact ⟨visited, rfl, visit_spec (fun grown relation =>
    ⟨relation.1, relation.2.1.mono grown, relation.2.2⟩)
    (fun known step => markMember_spec known step) collected visits⟩

/-- Two passes over different collections. -/
theorem printed_of_passed {middle : List (String × Json)} (grown : replacements <+: later)
    (first : List.Forall₂ (Passed uuid "items" "text" replacements) members middle)
    (second : List.Forall₂ (Passed uuid "matches" "snippet" later) middle safes) :
    List.Forall₂ (fun member safe => safe.1 = member.1 ∧ PrintedJson (slotPrints uuid later) member.2 safe.2
      (literals "matches" "snippet" (literals "items" "text" member)).2) members safes := by
  induction first generalizing safes with
  | nil =>
      cases second
      exact List.Forall₂.nil
  | @cons member middle members middles here rest ih =>
      cases second with
      | @cons middle safe middles safes there others =>
          rcases here with ⟨name, printed, kept⟩
          rcases there with ⟨name_again, printed_again, kept_again⟩
          refine List.Forall₂.cons ⟨name_again.trans name, ?_⟩ (ih others)
          by_cases matching : member.1 = "matches"
          · have other : member.1 ≠ "items" := by
              rw [matching]
              decide
            rw [kept other] at printed_again
            rwa [literals_of_ne other]
          · rw [kept_again (by rwa [name]), literals_of_ne (by rwa [fst_literals])]
            exact printed.mono grown

/-! ## Tokens leave the print -/

theorem quotedUnits_eq (units : List Nat) : quotedUnits units = marked '"' (escapedUnits units) := by
  simp [quotedUnits, marked]

/-- What stands between the quotes. -/
def unquoted (chars : List Char) : List Char :=
  chars.tail.dropLast

theorem unquoted_marked (word : List Char) : unquoted (marked '"' word) = word := by
  simp [unquoted, marked]

/-- The print once so many replacements are made. -/
def Hole.after (uuid : Nat → String) (count : Nat) (hole : Hole) : List Char :=
  if hole.1 < count then hole.literal else hole.token uuid

theorem Hole.after_of_lt {count : Nat} {hole : Hole} (earlier : hole.1 < count) :
    hole.after uuid count = hole.literal :=
  if_pos earlier

theorem Hole.after_of_le {count : Nat} {hole : Hole} (later : count ≤ hole.1) :
    hole.after uuid count = hole.token uuid :=
  if_neg (not_lt.mpr later)

theorem quote_not_mem_escapedUnits (small : ∀ unit ∈ units, unit < 0x10000) :
    '"' ∉ escapedUnits units := by
  intro listed
  have digit := mem_escapedUnits listed small
  revert digit
  decide

theorem escapedUnits_ne_tokenWord (small : ∀ unit ∈ units, unit < 0x10000) :
    escapedUnits units ≠ tokenWord uuid position := by
  intro same
  have listed : ':' ∈ escapedUnits units := by
    rw [same, tokenWord]
    simp
  have digit := mem_escapedUnits listed small
  revert digit
  decide

theorem foldl_replaceAll {woven : Woven Char Hole} {text : List Char}
    (fresh : Fresh uuid replacements.length text)
    (collected : Collected uuid replacements)
    (within : ∀ chars ∈ woven.plains, chars <:+: text)
    (known : ∀ hole ∈ woven.holes, ∃ replacement, replacements[hole.1]? = some replacement ∧
      replacement.2 = hole.literal) (made rest : Replacements)
    (split : replacements = made ++ rest) :
    rest.foldl (fun encoded replacement => replaceAll replacement.1 replacement.2 encoded)
      (woven.text (Hole.after uuid made.length)) = woven.text Hole.literal := by
  have literal_spec : ∀ hole ∈ woven.holes, ∃ units, (∀ unit ∈ units, unit < 0x10000) ∧
      hole.literal = marked '"' (escapedUnits units) := by
    intro hole listed
    rcases known hole listed with ⟨replacement, found, same⟩
    rcases (collected hole.1 replacement found).2 with ⟨units, small, quoted⟩
    exact ⟨units, small, by rw [← same, quoted, quotedUnits_eq]⟩
  have bounded : ∀ hole ∈ woven.holes, hole.1 < replacements.length := by
    intro hole listed
    rcases known hole listed with ⟨replacement, found, -⟩
    exact (List.getElem?_eq_some_iff.mp found).1
  have token_spec : ∀ hole ∈ woven.holes,
      hole.token uuid = marked '"' (tokenWord uuid hole.1) := fun hole listed =>
    stringify_token (fresh.each hole.1 (bounded hole listed)).digits
  induction rest generalizing made with
  | nil =>
      refine Woven.text_congr fun hole listed => ?_
      have bound := bounded hole listed
      rw [split, List.append_nil] at bound
      exact Hole.after_of_lt bound
  | cons replacement rest ih =>
      have here : replacements[made.length]? = some replacement := by
        rw [split]
        simp
      rcases collected made.length replacement here with ⟨token_eq, -⟩
      have own := fresh.each made.length (List.getElem?_eq_some_iff.mp here).1
      rw [stringify_token own.digits] at token_eq
      have closed : ∀ hole ∈ woven.holes,
          Hole.after uuid made.length hole = marked '"' (unquoted (hole.after uuid made.length)) ∧
            '"' ∉ unquoted (hole.after uuid made.length) := by
        intro hole listed
        rcases literal_spec hole listed with ⟨units, small, quoted⟩
        rcases lt_or_ge hole.1 made.length with earlier | still
        · rw [Hole.after_of_lt earlier, quoted, unquoted_marked]
          exact ⟨rfl, quote_not_mem_escapedUnits small⟩
        · rw [Hole.after_of_le still, token_spec hole listed, unquoted_marked]
          exact ⟨rfl, quote_not_mem_tokenWord (fresh.each hole.1 (bounded hole listed)).digits⟩
      have current : woven.text (Hole.after uuid made.length) =
          (woven.map fun hole => unquoted (hole.after uuid made.length)).text (marked '"') := by
        rw [Woven.text_map]
        exact Woven.text_congr fun hole listed => (closed hole listed).1
      have step : replaceAll replacement.1 replacement.2
          (woven.text (Hole.after uuid made.length)) =
            woven.text (Hole.after uuid (made.length + 1)) := by
        rw [current, token_eq, Woven.replaceAll_text (quote_not_mem_tokenWord own.digits),
          Woven.text_map]
        · refine Woven.text_congr fun hole listed => ?_
          rcases literal_spec hole listed with ⟨units, small, quoted⟩
          rcases lt_trichotomy hole.1 made.length with earlier | same | further
          · rw [Hole.after_of_lt earlier, Hole.after_of_lt (Nat.lt_succ_of_lt earlier), quoted,
              unquoted_marked, if_neg (escapedUnits_ne_tokenWord small)]
          · rw [Hole.after_of_le same.ge, Hole.after_of_lt (same ▸ Nat.lt_succ_self _),
              token_spec hole listed, unquoted_marked, same, if_pos rfl]
            rcases known hole listed with ⟨other, found, literal_eq⟩
            rw [same, here] at found
            cases found
            exact literal_eq
          · rw [Hole.after_of_le further.le, Hole.after_of_le further, token_spec hole listed,
              unquoted_marked, if_neg]
            intro same
            exact further.ne' (tokenWord_injective fresh (bounded hole listed)
              (List.getElem?_eq_some_iff.mp here).1 same)
        · intro chars listed
          rw [Woven.plains_map] at listed
          exact tokenWord_absent own (within chars listed)
        · intro content listed
          rw [Woven.holes_map] at listed
          rcases List.mem_map.mp listed with ⟨hole, there, rfl⟩
          exact (closed hole there).2
      rw [List.foldl_cons, step]
      have later := ih (made ++ [replacement]) (by rw [split]; simp)
      rwa [List.length_append] at later

/-- The slots of the answer are printed as their literals, and everything else as it is. -/
theorem readJson_eq {encoded : List Char}
    (fresh : Fresh uuid (generated uuid value) value.stringify)
    (found : readJson uuid value = some encoded) : encoded = (withLiterals value).stringify := by
  rw [readJson, Option.bind_eq_bind, Option.bind_eq_some_iff] at found
  rcases found with ⟨⟨safe, later⟩, marks, found⟩
  cases found
  rw [generated, marks] at fresh
  rw [markSlots, Option.bind_eq_bind, Option.bind_eq_some_iff] at marks
  rcases marks with ⟨⟨middle, replacements⟩, first, second⟩
  have nothing : Collected uuid [] := fun position replacement listed => by simp at listed
  suffices printed : Collected uuid later ∧
      PrintedJson (slotPrints uuid later) value safe (withLiterals value) by
    rcases printed with ⟨collected, woven, original, tokens, final, known⟩
    have within : ∀ chars ∈ woven.plains, chars <:+: value.stringify := by
      intro chars listed
      rw [original]
      exact Woven.infix_of_mem_plains listed
    have start : woven.text (slotPrints uuid later).safe = woven.text (Hole.after uuid ([] : Replacements).length) :=
      Woven.text_congr fun hole listed => (Hole.after_of_le (Nat.zero_le _)).symm
    rw [tokens, final]
    exact foldl_replaceAll fresh collected within known [] later rfl
  cases value with
  | obj members =>
      rcases markCollection_spec nothing first with ⟨visited, rfl, collected, -, passed⟩
      rcases markCollection_spec collected second with ⟨safes, rfl, collected, grown, passed_again⟩
      refine ⟨collected, printed_obj (fun member => ?_) (printed_of_passed grown passed passed_again)⟩
      rw [fst_literals, fst_literals]
  | null | bool | num | str | arr =>
      cases first
      cases second
      exact ⟨nothing, Printed.refl _⟩

/-! ## The response -/

/-- The slot of the structured content. -/
def contentPrints (token encoded : List Char) : Prints Json where
  original := Json.stringify
  safe _ := token
  final _ := encoded
  known _ := True

theorem printed_setMember {name : String} {safe : Json → Json}
    (each : ∀ value, PrintedJson prints value (safe value) (final value)) (value : Json) :
    PrintedJson prints value (setMember name safe value) (setMember name final value) := by
  cases value with
  | obj members =>
      have relation : List.Forall₂ (fun member changed => changed.1 = member.1 ∧
          PrintedJson prints member.2 changed.2 (changeMember name final member).2) members
          (members.map (changeMember name safe)) := by
        rw [List.forall₂_map_right_iff]
        refine List.forall₂_same.mpr fun member _ => ⟨fst_changeMember name safe member, ?_⟩
        unfold changeMember
        split
        · exact each member.2
        · exact Printed.refl _
      exact printed_obj (fst_changeMember name final) relation
  | null | bool | num | str | arr => exact Printed.refl _

/-- A member stands in the print of its object. -/
theorem stringify_infix_of_member {name : String} {content : Json}
    (found : value.member name = some content) : content.stringify <:+: value.stringify := by
  cases value with
  | obj members =>
      suffices within : content.stringify <:+: Json.stringifyMembers members from
        within.trans ⟨['\x7b'], ['\x7d'], rfl⟩
      rw [Json.member] at found
      induction members with
      | nil => cases found
      | cons member members ih =>
          rcases member with ⟨other, first⟩
          have start : first.stringify <:+: Json.quote other ++ [':'] ++ first.stringify :=
            (List.suffix_append _ _).isInfix
          rw [List.lookup_cons] at found
          cases same : name == other with
          | true =>
              rw [same] at found
              cases found
              cases members with
              | nil => exact start
              | cons next rest => exact start.trans ⟨[], _, by simp [Json.stringifyMembers]; rfl⟩
          | false =>
              rw [same] at found
              cases members with
              | nil => cases found
              | cons next rest =>
                  refine (ih found).trans ⟨Json.quote other ++ [':'] ++ first.stringify ++ [','], [], ?_⟩
                  simp [Json.stringifyMembers]
  | null | bool | num | str | arr => cases found

/-- The start of the token of the structured content, printed. -/
def readStart : List Char :=
  ['\\', 'u', '0', '0', '0', '0', 't', 'h', 'r', 'e', 'a', 'd', '-', 'r', 'e', 'a', 'd', ':']

theorem stringify_readToken {envelope : String} (digits : ∀ char ∈ envelope.toList, char ∈ uuidDigits) :
    (Json.str ("\x00thread-read:" ++ envelope)).stringify =
      marked '"' (readStart ++ envelope.toList) := by
  have start : "\x00thread-read:".toList.flatMap Json.escapeChar = readStart := by decide
  rw [Json.stringify, Json.quote, String.toList_append, List.flatMap_append, start,
    flatMap_escapeChar digits]
  simp [marked]

/-- The structured content leaves with its literals, and the response is printed as it is
otherwise. -/
theorem responseJson_eq {envelope : String} {content : Json} {encoded : List Char}
    (fresh : Fresh uuid (generated uuid content) value.stringify)
    (fresh_envelope : FreshName envelope value.stringify)
    (there : (value.member "result").bind (Json.member "structuredContent") = some content)
    (paged : isArray (content.member "items") ∨ isArray (content.member "matches"))
    (found : responseJson uuid envelope value = some encoded) :
    encoded = (setMember "result" (setMember "structuredContent" fun _ => withLiterals content)
      value).stringify := by
  rcases Option.bind_eq_some_iff.mp there with ⟨result, outer, inner⟩
  have within := (stringify_infix_of_member inner).trans (stringify_infix_of_member outer)
  have fresh_content : Fresh uuid (generated uuid content) content.stringify :=
    ⟨fun position bound => ⟨(fresh.each position bound).digits,
      fun infixed => (fresh.each position bound).absent (infixed.trans within)⟩, fresh.distinct⟩
  have not_plain : ¬ (isArray (content.member "items") = false ∧
      isArray (content.member "matches") = false) := by
    rintro ⟨items, matching⟩
    rcases paged with paged | paged
    · rw [items] at paged
      cases paged
    · rw [matching] at paged
      cases paged
  unfold responseJson at found
  rw [there] at found
  dsimp only at found
  rw [if_neg not_plain, Option.bind_eq_bind, Option.bind_eq_some_iff] at found
  rcases found with ⟨printed, read, found⟩
  cases found
  have literal_eq := readJson_eq fresh_content read
  subst literal_eq
  rw [stringify_readToken fresh_envelope.digits]
  have each (slot : Json) : PrintedJson (contentPrints
      (Json.str ("\x00thread-read:" ++ envelope)).stringify (withLiterals content).stringify)
      slot (Json.str ("\x00thread-read:" ++ envelope)) (withLiterals content) :=
    ⟨Woven.hole slot, by simp [contentPrints], by simp [contentPrints], by simp [contentPrints],
      fun _ _ => trivial⟩
  rcases printed_setMember
    (printed_setMember each) value with
    ⟨woven, original, safe, final, -⟩
  have safe_text : woven.text (contentPrints (Json.str ("\x00thread-read:" ++ envelope)).stringify
      (withLiterals content).stringify).safe =
        (woven.map fun _ => readStart ++ envelope.toList).text (marked '"') := by
    rw [Woven.text_map]
    exact Woven.text_congr fun _ _ => stringify_readToken fresh_envelope.digits
  have apart : '"' ∉ readStart ++ envelope.toList := by
    intro listed
    rcases List.mem_append.mp listed with listed | listed
    · revert listed
      decide
    · have digit := fresh_envelope.digits _ listed
      revert digit
      decide
  rw [safe, final, safe_text, Woven.replaceAll_text apart, Woven.text_map]
  · exact Woven.text_congr fun _ _ => if_pos rfl
  · intro chars listed
    rw [Woven.plains_map] at listed
    intro infixed
    refine fresh_envelope.absent (((List.suffix_append readStart _).isInfix).trans
      (infixed.trans ?_))
    rw [original]
    exact Woven.infix_of_mem_plains listed
  · intro content listed
    rw [Woven.holes_map] at listed
    rcases List.mem_map.mp listed with ⟨hole, -, rfl⟩
    exact apart

end

end Zeron.Threads.Timeline
