import Mathlib.Algebra.BigOperators.Group.List.Basic
import Mathlib.Data.String.Basic
import Mathlib.Tactic.Ring

/-!
# JSON values

The value type that both sides exchange: `serde_json::Value` in the engine and
the result of `JSON.parse` at the edge.  A number is its literal text, since
nothing here computes with it.  An object is its list of members, each name
once.

`stringify` is the text `JSON.stringify` prints for such a value; its length in
bytes is what the edge holds against an operation's size budget.
-/

namespace Zeron.Wire

inductive Json where
  | null
  | bool (value : Bool)
  | num (literal : String)
  | str (text : String)
  | arr (items : List Json)
  | obj (members : List (String × Json))
  deriving Inhabited

namespace Json

mutual

/-- Structural equality test. -/
def beq : Json → Json → Bool
  | null, null => true
  | bool first, bool second => first == second
  | num first, num second => first == second
  | str first, str second => first == second
  | arr first, arr second => beqItems first second
  | obj first, obj second => beqMembers first second
  | _, _ => false

def beqItems : List Json → List Json → Bool
  | [], [] => true
  | first :: firsts, second :: seconds => beq first second && beqItems firsts seconds
  | _, _ => false

def beqMembers : List (String × Json) → List (String × Json) → Bool
  | [], [] => true
  | (name, first) :: firsts, (other, second) :: seconds =>
      name == other && beq first second && beqMembers firsts seconds
  | _, _ => false

end

mutual

theorem beq_iff_eq : ∀ first second : Json, beq first second = true ↔ first = second
  | null, second => by cases second <;> simp [beq]
  | bool _, second => by cases second <;> simp [beq]
  | num _, second => by cases second <;> simp [beq]
  | str _, second => by cases second <;> simp [beq]
  | arr items, second => by cases second <;> simp [beq, beqItems_iff_eq items]
  | obj members, second => by cases second <;> simp [beq, beqMembers_iff_eq members]

theorem beqItems_iff_eq : ∀ first second : List Json,
    beqItems first second = true ↔ first = second
  | [], second => by cases second <;> simp [beqItems]
  | item :: items, second => by
      cases second <;> simp [beqItems, beq_iff_eq item, beqItems_iff_eq items]

theorem beqMembers_iff_eq : ∀ first second : List (String × Json),
    beqMembers first second = true ↔ first = second
  | [], second => by cases second <;> simp [beqMembers]
  | (name, value) :: members, second => by
      rcases second with _ | ⟨⟨other, otherValue⟩, others⟩ <;>
        simp [beqMembers, beq_iff_eq value, beqMembers_iff_eq members]

end

instance : DecidableEq Json := fun first second =>
  decidable_of_iff (beq first second = true) (beq_iff_eq first second)

/-- `Value::is_null`, `value === null`. -/
def isNull : Json → Bool
  | null => true
  | _ => false

/-- The member `name` of an object; nothing on any other value. -/
def member (name : String) : Json → Option Json
  | obj members => members.lookup name
  | _ => none

/-- `typeof value === "string"`. -/
def asString : Json → Option String
  | str text => some text
  | _ => none

/-! ## Printing -/

/-- The four lower-case hex digits of a control character's escape. -/
def hexEscape (code : Nat) : List Char :=
  ['\\', 'u', '0', '0', Nat.digitChar (code / 16), Nat.digitChar (code % 16)]

/-- One character inside a quoted string. -/
def escapeChar (char : Char) : List Char :=
  if char = '"' then ['\\', '"']
  else if char = '\\' then ['\\', '\\']
  else if char.toNat = 8 then ['\\', 'b']
  else if char.toNat = 9 then ['\\', 't']
  else if char.toNat = 10 then ['\\', 'n']
  else if char.toNat = 12 then ['\\', 'f']
  else if char.toNat = 13 then ['\\', 'r']
  else if char.toNat < 32 then hexEscape char.toNat
  else [char]

def quote (text : String) : List Char :=
  ['"'] ++ text.toList.flatMap escapeChar ++ ['"']

mutual

/-- The characters of `JSON.stringify(value)`. -/
def stringify : Json → List Char
  | null => ['n', 'u', 'l', 'l']
  | bool true => ['t', 'r', 'u', 'e']
  | bool false => ['f', 'a', 'l', 's', 'e']
  | num literal => literal.toList
  | str text => quote text
  | arr items => ['['] ++ stringifyItems items ++ [']']
  | obj members => ['{'] ++ stringifyMembers members ++ ['}']

def stringifyItems : List Json → List Char
  | [] => []
  | [item] => stringify item
  | item :: next :: rest => stringify item ++ [','] ++ stringifyItems (next :: rest)

def stringifyMembers : List (String × Json) → List Char
  | [] => []
  | [(name, value)] => quote name ++ [':'] ++ stringify value
  | (name, value) :: next :: rest =>
      quote name ++ [':'] ++ stringify value ++ [','] ++ stringifyMembers (next :: rest)

end

/-- `new TextEncoder().encode(JSON.stringify(value)).byteLength`. -/
def byteLength (value : Json) : Nat :=
  (value.stringify.map Char.utf8Size).sum

example : (obj [("a", num "1"), ("b", arr [null, str "x\n"])]).byteLength = 24 := by decide

end Json

/-! ## UTF-16 -/

/-- The UTF-16 units of a character. -/
def utf16Char (char : Char) : List Nat :=
  if char.toNat < 0x10000 then [char.toNat]
  else [0xD800 + (char.toNat - 0x10000) / 0x400, 0xDC00 + (char.toNat - 0x10000) % 0x400]

/-- The units that the edge compares and counts. -/
def utf16 (text : String) : List Nat :=
  text.toList.flatMap utf16Char

end Zeron.Wire

/-!
## The size of a printed value

The bytes of a text add up over its parts, so the size of an array or object is
the sum over its members and what stands between them.
-/

namespace Zeron.Wire

/-- The bytes of the characters in UTF-8. -/
def bytes (chars : List Char) : Nat :=
  (chars.map Char.utf8Size).sum

@[simp]
theorem bytes_nil : bytes [] = 0 :=
  rfl

@[simp]
theorem bytes_cons (char : Char) (chars : List Char) :
    bytes (char :: chars) = char.utf8Size + bytes chars := by
  simp [bytes]

@[simp]
theorem bytes_append (first second : List Char) :
    bytes (first ++ second) = bytes first + bytes second := by
  simp [bytes]

namespace Json

theorem byteLength_eq (value : Json) : value.byteLength = bytes value.stringify :=
  rfl

/-- Each item with the comma after it, the last one apart. -/
theorem bytes_stringifyItems {items : List Json} (some_item : items ≠ []) :
    bytes (stringifyItems items) + 1 = (items.map fun item => item.byteLength + 1).sum := by
  have comma : Char.utf8Size ',' = 1 := by decide
  induction items with
  | nil => exact absurd rfl some_item
  | cons item rest ih =>
      cases rest with
      | nil => simp [stringifyItems, byteLength_eq]
      | cons next rest =>
          have later := ih (List.cons_ne_nil _ _)
          simp only [stringifyItems, bytes_append, bytes_cons, bytes_nil, comma] at later ⊢
          rw [List.map_cons, List.sum_cons, ← later, byteLength_eq]
          ring

theorem bytes_stringifyMembers {members : List (String × Json)} (some_member : members ≠ []) :
    bytes (stringifyMembers members) + 1 =
      (members.map fun entry => bytes (quote entry.1) + entry.2.byteLength + 2).sum := by
  have comma : Char.utf8Size ',' = 1 := by decide
  have colon : Char.utf8Size ':' = 1 := by decide
  induction members with
  | nil => exact absurd rfl some_member
  | cons entry rest ih =>
      obtain ⟨name, value⟩ := entry
      cases rest with
      | nil =>
          simp only [stringifyMembers, bytes_append, bytes_cons, bytes_nil, colon, List.map_cons,
            List.map_nil, List.sum_cons, List.sum_nil, byteLength_eq]
          ring
      | cons next rest =>
          have later := ih (List.cons_ne_nil _ _)
          simp only [stringifyMembers, bytes_append, bytes_cons, bytes_nil, comma, colon] at later ⊢
          rw [List.map_cons, List.sum_cons, ← later, byteLength_eq]
          ring

theorem byteLength_arr {items : List Json} (some_item : items ≠ []) :
    (arr items).byteLength = (items.map fun item => item.byteLength + 1).sum + 1 := by
  have opening : Char.utf8Size '[' = 1 := by decide
  have closing : Char.utf8Size ']' = 1 := by decide
  have inside := bytes_stringifyItems some_item
  rw [byteLength_eq, stringify, ← inside]
  simp only [bytes_append, bytes_cons, bytes_nil, opening, closing]
  ring

theorem byteLength_obj {members : List (String × Json)} (some_member : members ≠ []) :
    (obj members).byteLength =
      (members.map fun entry => bytes (quote entry.1) + entry.2.byteLength + 2).sum + 1 := by
  have opening : Char.utf8Size '\x7b' = 1 := by decide
  have closing : Char.utf8Size '\x7d' = 1 := by decide
  have inside := bytes_stringifyMembers some_member
  rw [byteLength_eq, stringify, ← inside]
  simp only [bytes_append, bytes_cons, bytes_nil]
  rw [opening, closing]
  ring

@[simp]
theorem byteLength_str (text : String) : (str text).byteLength = bytes (quote text) :=
  rfl

/-- A repeated character that needs no escape takes its own size each time. -/
theorem bytes_quote_replicate {char : Char} (plain : escapeChar char = [char]) (count : Nat) :
    bytes (quote (String.ofList (List.replicate count char))) = count * char.utf8Size + 2 := by
  have mark : Char.utf8Size '"' = 1 := by decide
  have inside : bytes ((List.replicate count char).flatMap escapeChar) = count * char.utf8Size := by
    induction count with
    | zero => simp
    | succ count ih =>
        rw [List.replicate_succ, List.flatMap_cons, bytes_append, ih, plain]
        simp only [bytes_cons, bytes_nil]
        ring
  rw [quote, String.toList_ofList]
  simp only [bytes_append, bytes_cons, bytes_nil, mark, inside]
  ring

end Json

end Zeron.Wire
