import Mathlib.Data.List.Nodup
import Mathlib.Data.List.TakeWhile
import Zeron.Data.Assoc
import Zeron.Wire.JsonText

/-!
# Members of an object

A map of JSON members in the order in which they came, and how a struct reads its fields from an
object.  A field that stands twice is refused; what is left over goes into a map.
-/

namespace Zeron.Wire.Json

open Zeron.Data

/-! ## Maps -/

/-- `Map::insert`: a new name goes behind the others, and one that is there keeps its place. -/
def insertMember (name : String) (value : Json) : List (String × Json) → List (String × Json)
  | [] => [(name, value)]
  | (other, old) :: rest =>
      if name = other then (name, value) :: rest
      else (other, old) :: insertMember name value rest

/-- The map of some members, a later one over an earlier one of its name. -/
def toMap (members : List (String × Json)) : List (String × Json) :=
  members.foldl (fun map member => insertMember member.1 member.2 map) []

/-- The names of a map: each once. -/
def Distinct (members : List (String × Json)) : Prop :=
  (members.map Prod.fst).Nodup

variable {members map : List (String × Json)} {name : String} {value : Json}

theorem insertMember_of_not_mem (new : name ∉ map.map Prod.fst) :
    insertMember name value map = map ++ [(name, value)] := by
  induction map with
  | nil => rfl
  | cons member rest ih =>
      rw [List.map_cons, List.mem_cons, not_or] at new
      rw [insertMember, if_neg new.1, ih new.2, List.cons_append]

theorem foldl_insertMember (distinct : Distinct (map ++ members)) :
    members.foldl (fun map member => insertMember member.1 member.2 map) map = map ++ members := by
  induction members generalizing map with
  | nil => rw [List.foldl_nil, List.append_nil]
  | cons member rest ih =>
      have new : member.1 ∉ map.map Prod.fst := by
        rw [Distinct, List.map_append] at distinct
        exact fun listed => (List.nodup_append.mp distinct).2.2 _ listed _ List.mem_cons_self rfl
      rw [List.foldl_cons, insertMember_of_not_mem new, ih]
      · rw [List.append_assoc, List.singleton_append]
      · rw [List.append_assoc]
        exact distinct

/-- A map is found again from its members, in their order. -/
theorem Distinct.toMap (distinct : Distinct members) : toMap members = members :=
  foldl_insertMember distinct

/-! ## Values -/

mutual

/-- The objects of a value are maps. -/
def Maps : Json → Prop
  | arr items => MapsItems items
  | obj members => Distinct members ∧ MapsMembers members
  | _ => True

def MapsItems : List Json → Prop
  | [] => True
  | item :: items => item.Maps ∧ MapsItems items

def MapsMembers : List (String × Json) → Prop
  | [] => True
  | member :: members => member.2.Maps ∧ MapsMembers members

end

mutual

/-- The `Value` that is read from what stands in a text. -/
def rebuild : Json → Json
  | arr items => arr (rebuildItems items)
  | obj members => obj (toMap (rebuildMembers members))
  | value => value

def rebuildItems : List Json → List Json
  | [] => []
  | item :: items => item.rebuild :: rebuildItems items

def rebuildMembers : List (String × Json) → List (String × Json)
  | [] => []
  | (name, value) :: members => (name, value.rebuild) :: rebuildMembers members

end

mutual

theorem rebuild_eq : ∀ value : Json, value.Maps → value.rebuild = value
  | null, _ => rfl
  | bool _, _ => rfl
  | num _, _ => rfl
  | str _, _ => rfl
  | arr items, maps => by rw [rebuild, rebuildItems_eq items maps]
  | obj members, maps => by
      rw [rebuild, rebuildMembers_eq members maps.2, maps.1.toMap]

theorem rebuildItems_eq : ∀ items : List Json, MapsItems items → rebuildItems items = items
  | [], _ => rfl
  | item :: items, maps => by
      rw [rebuildItems, rebuild_eq item maps.1, rebuildItems_eq items maps.2]

theorem rebuildMembers_eq : ∀ members : List (String × Json), MapsMembers members →
    rebuildMembers members = members
  | [], _ => rfl
  | (name, value) :: members, maps => by
      rw [rebuildMembers, rebuild_eq value maps.1, rebuildMembers_eq members maps.2]

end

mutual

/-- How deep arrays and objects are nested. -/
def depth : Json → Nat
  | arr items => depthItems items + 1
  | obj members => depthMembers members + 1
  | _ => 0

def depthItems : List Json → Nat
  | [] => 0
  | item :: items => max item.depth (depthItems items)

def depthMembers : List (String × Json) → Nat
  | [] => 0
  | member :: members => max member.2.depth (depthMembers members)

end

theorem depthMembers_le_iff {limit : Nat} :
    depthMembers members ≤ limit ↔ ∀ member ∈ members, member.2.depth ≤ limit := by
  induction members with
  | nil => simp [depthMembers]
  | cons member rest ih => simp [depthMembers, ih]

theorem depthItems_le_iff {items : List Json} {limit : Nat} :
    depthItems items ≤ limit ↔ ∀ item ∈ items, item.depth ≤ limit := by
  induction items with
  | nil => simp [depthItems]
  | cons item rest ih => simp [depthItems, ih]

theorem plainMembers_iff : PlainMembers members ↔ ∀ member ∈ members, member.2.Plain := by
  induction members with
  | nil => simp [PlainMembers]
  | cons member rest ih => simp [PlainMembers, ih]

theorem plainItems_iff {items : List Json} : PlainItems items ↔ ∀ item ∈ items, item.Plain := by
  induction items with
  | nil => simp [PlainItems]
  | cons item rest ih => simp [PlainItems, ih]

/-! ## Documents -/

/-- How deep a document may be nested. -/
def depthLimit : Nat := 127

/-- `from_slice`. -/
def fromSlice (bytes : List UInt8) : Option Json :=
  (readBytes bytes).filter fun doc => decide (doc.depth ≤ depthLimit)

/-- `to_vec_pretty`. -/
def toVecPretty (doc : Json) : List UInt8 :=
  Data.encodeUtf8 (print .pretty 0 doc)

theorem fromSlice_toVecPretty {doc : Json} (plain : doc.Plain) :
    fromSlice (toVecPretty doc) = if doc.depth ≤ depthLimit then some doc else none := by
  rw [fromSlice, toVecPretty, readBytes_print plain, Option.filter_some]
  simp only [decide_eq_true_eq]

/-! ## Whole numbers -/

def ofNat (n : Nat) : Json :=
  num (toString n)

/-- The digits of a `u64`. -/
def readU64 (chars : List Char) : Option Nat :=
  if isNumber chars ∧ chars.all isDigit ∧ Nat.ofDigitChars 10 chars 0 < 2 ^ 64 then
    some (Nat.ofDigitChars 10 chars 0)
  else none

/-- A `u64` as a value. -/
def asU64 : Json → Option Nat
  | num literal => readU64 literal.toList
  | _ => none

theorem isDigit_of_mem_toDigits {n : Nat} {char : Char} (listed : char ∈ Nat.toDigits 10 n) :
    isDigit char := by
  have digit := Nat.isDigit_of_mem_toDigits (by decide) (by decide) listed
  rw [Char.isDigit, Bool.and_eq_true, decide_eq_true_eq, decide_eq_true_eq] at digit
  exact decide_eq_true digit

/-- A number begins with the digit zero only if it is zero. -/
theorem exists_toDigits (n : Nat) (positive : 0 < n) :
    ∃ first rest, Nat.toDigits 10 n = first :: rest ∧ first ≠ '0' := by
  induction n using Nat.strongRecOn with
  | ind n ih =>
      by_cases low : n < 10
      · refine ⟨n.digitChar, [], Nat.toDigits_of_lt_base low, ?_⟩
        interval_cases n <;> decide
      · obtain ⟨first, rest, shape, other⟩ := ih (n / 10) (by omega) (by omega)
        refine ⟨first, rest ++ [(n % 10).digitChar], ?_, other⟩
        rw [Nat.toDigits_of_base_le (by decide) (by omega), shape, List.cons_append]

theorem isNumber_toDigits (n : Nat) : isNumber (Nat.toDigits 10 n) := by
  rcases Nat.eq_zero_or_pos n with rfl | positive
  · rfl
  · obtain ⟨first, rest, shape, other⟩ := exists_toDigits n positive
    have digits : ∀ char ∈ first :: rest, isDigit char := fun char listed =>
      isDigit_of_mem_toDigits (shape ▸ listed)
    have first_digit := digits first List.mem_cons_self
    have rest_digits : rest.dropWhile isDigit = [] :=
      List.dropWhile_eq_nil_iff.mpr fun char listed => digits char (List.mem_cons_of_mem _ listed)
    have whole_eq : whole (first :: rest) = some [] := by
      unfold whole
      split
      · rename_i same
        exact absurd (List.cons.inj same).1 other
      · simp [someDigits, first_digit, rest_digits]
    have unsigned : first ≠ '-' := by
      rintro rfl
      exact absurd first_digit (by decide)
    simp [shape, isNumber, unsigned, whole_eq, fraction, exponent]

theorem readU64_toDigits {n : Nat} (bounded : n < 2 ^ 64) :
    readU64 (Nat.toDigits 10 n) = some n := by
  have value : Nat.ofDigitChars 10 (Nat.toDigits 10 n) 0 = n := Nat.ofDigitChars_ten_toDigits
  have digits : (Nat.toDigits 10 n).all isDigit = true :=
    List.all_eq_true.mpr fun char listed => isDigit_of_mem_toDigits listed
  rw [readU64, value, if_pos ⟨isNumber_toDigits n, digits, bounded⟩]

theorem toList_toString (n : Nat) : (toString n).toList = Nat.toDigits 10 n := by
  rw [Nat.toString_eq_ofList_toDigits, String.toList_ofList]

@[simp]
theorem asU64_ofNat {n : Nat} (bounded : n < 2 ^ 64) : (ofNat n).asU64 = some n := by
  rw [ofNat, asU64, toList_toString, readU64_toDigits bounded]

@[simp]
theorem plain_ofNat (n : Nat) : (ofNat n).Plain := by
  have numbers : ∀ char ∈ Nat.toDigits 10 n, isNumberChar char := fun char listed => by
    simp [isNumberChar, isDigit_of_mem_toDigits listed]
  rw [ofNat, Plain, toList_toString]
  exact ⟨numbers, isNumber_toDigits n, Nat.toDigits_ne_nil⟩

@[simp]
theorem depth_ofNat (n : Nat) : (ofNat n).depth = 0 :=
  rfl

/-! ## Fields -/

/-- What stands under a name: a name that stands twice is refused. -/
def once {α : Type} (name : String) (members : List (String × α)) : Option (Option α) :=
  match members.filter fun member => member.1 == name with
  | [] => some none
  | [member] => some (some member.2)
  | _ => none

/-- A field that has to be there. -/
def required {α β : Type} (name : String) (members : List (String × α)) (reader : α → Option β) :
    Option β :=
  (once name members).bind fun value => value.bind reader

/-- A field with a default. -/
def defaulted {α β : Type} (name : String) (default : β) (members : List (String × α))
    (reader : α → Option β) : Option β :=
  (once name members).bind fun
    | none => some default
    | some value => reader value

/-- An `Option<String>`. -/
def asText? : Json → Option (Option String)
  | null => some none
  | str text => some (some text)
  | _ => none

/-- `#[serde(flatten)]`: the members that are no field. -/
def flattened (names : List String) (members : List (String × Json)) : List (String × Json) :=
  toMap (rebuildMembers (members.filter fun member => !names.contains member.1))

variable {α : Type}

/-- Members that do not have the name are passed over. -/
theorem once_append_of_not_mem {entries more : List (String × α)}
    (absent : name ∉ more.map Prod.fst) : once name (entries ++ more) = once name entries := by
  have none_left : more.filter (fun member => member.1 == name) = [] := by
    rw [List.filter_eq_nil_iff]
    intro entry listed same
    rw [← eq_of_beq same] at absent
    exact absent (List.mem_map_of_mem listed)
  rw [once, once, List.filter_append, none_left, List.append_nil]

/-- A name in two parts stands twice. -/
theorem once_append_of_mem {entries more : List (String × α)} (first : name ∈ entries.map Prod.fst)
    (second : name ∈ more.map Prod.fst) : once name (entries ++ more) = none := by
  have there {entries : List (String × α)} (listed : name ∈ entries.map Prod.fst) :
      ∃ entry rest, entries.filter (fun member => member.1 == name) = entry :: rest := by
    obtain ⟨entry, member, rfl⟩ := List.mem_map.mp listed
    have kept : entry ∈ entries.filter (fun member => member.1 == entry.1) :=
      List.mem_filter.mpr ⟨member, beq_self_eq_true _⟩
    exact List.exists_cons_of_ne_nil (List.ne_nil_of_mem kept)
  obtain ⟨entry, rest, found⟩ := there first
  obtain ⟨entry', rest', found'⟩ := there second
  rw [once, List.filter_append, found, found']
  cases rest <;> rfl

theorem flattened_append (names : List String) (distinct : Distinct map)
    (maps : MapsMembers map) (own : ∀ member ∈ members, member.1 ∈ names)
    (apart : ∀ name ∈ names, name ∉ map.map Prod.fst) :
    flattened names (members ++ map) = map := by
  have kept : (members ++ map).filter (fun member => !names.contains member.1) = map := by
    rw [List.filter_append, List.filter_eq_nil_iff.mpr, List.nil_append, List.filter_eq_self]
    · intro member listed
      simpa using fun named => apart _ named (List.mem_map_of_mem listed)
    · intro member listed
      simpa using own member listed
  rw [flattened, kept, rebuildMembers_eq map maps, distinct.toMap]

end Zeron.Wire.Json
