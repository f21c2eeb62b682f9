import Mathlib.Tactic.IntervalCases
import Zeron.Data.Utf8
import Zeron.Wire.Json

/-!
# Reading JSON

A reader of JSON text.  It keeps the literals of numbers and the members of objects as they
stand in the text, and reads what a printer prints, with or without blanks between the parts.
-/

namespace Zeron.Wire.Json

/-! ## Text -/

/-- Where the reader is inside a quoted text: between characters, after a backslash, inside the
digits of a code, or between the two codes of a pair. -/
inductive Quoted where
  | plain
  | escape
  | code (high : Option Nat) (digits value : Nat)
  | pair (high : Nat)
  | pairCode (high : Nat)

def hexDigit (char : Char) : Option Nat :=
  if '0' ≤ char ∧ char ≤ '9' then some (char.toNat - 48)
  else if 'a' ≤ char ∧ char ≤ 'f' then some (char.toNat - 87)
  else if 'A' ≤ char ∧ char ≤ 'F' then some (char.toNat - 55)
  else none

/-- The character after a backslash. -/
def unescape : Char → Option Char
  | '"' => some '"'
  | '\\' => some '\\'
  | '/' => some '/'
  | 'b' => some (Char.ofNat 8)
  | 'f' => some (Char.ofNat 12)
  | 'n' => some '\n'
  | 'r' => some '\r'
  | 't' => some '\t'
  | _ => none

/-- What a code of four digits stands for: a character, or the first half of one. -/
def codePoint (high : Option Nat) (code : Nat) : Option (Char ⊕ Nat) :=
  match high with
  | none =>
      if 0xD800 ≤ code ∧ code < 0xDC00 then some (.inr code)
      else if 0xDC00 ≤ code ∧ code < 0xE000 then none
      else some (.inl (Char.ofNat code))
  | some high =>
      if 0xDC00 ≤ code ∧ code < 0xE000 then
        some (.inl (Char.ofNat (0x10000 + (high - 0xD800) * 0x400 + (code - 0xDC00))))
      else none

/-- The characters up to the closing quote. -/
def quoted : Quoted → List Char → Option (List Char × List Char)
  | _, [] => none
  | .plain, char :: rest =>
      if char = '"' then some ([], rest)
      else if char = '\\' then quoted .escape rest
      else if char.toNat < 32 then none
      else (quoted .plain rest).map fun (text, rest) => (char :: text, rest)
  | .escape, char :: rest =>
      if char = 'u' then quoted (.code none 0 0) rest
      else (unescape char).bind fun char =>
        (quoted .plain rest).map fun (text, rest) => (char :: text, rest)
  | .code high digits value, char :: rest =>
      (hexDigit char).bind fun digit =>
        if digits < 3 then quoted (.code high (digits + 1) (value * 16 + digit)) rest
        else (codePoint high (value * 16 + digit)).bind fun
          | .inl char => (quoted .plain rest).map fun (text, rest) => (char :: text, rest)
          | .inr high => quoted (.pair high) rest
  | .pair high, char :: rest => if char = '\\' then quoted (.pairCode high) rest else none
  | .pairCode high, char :: rest =>
      if char = 'u' then quoted (.code (some high) 0 0) rest else none

/-! ## Numbers -/

def isDigit (char : Char) : Bool :=
  decide ('0' ≤ char ∧ char ≤ '9')

def isNumberChar (char : Char) : Bool :=
  isDigit char || char == '-' || char == '+' || char == '.' || char == 'e' || char == 'E'

def someDigits : List Char → Option (List Char)
  | char :: rest => if isDigit char then some (rest.dropWhile isDigit) else none
  | [] => none

def whole : List Char → Option (List Char)
  | '0' :: rest => some rest
  | rest => someDigits rest

def fraction : List Char → Option (List Char)
  | '.' :: rest => someDigits rest
  | rest => some rest

def exponent : List Char → Option (List Char)
  | 'e' :: '+' :: rest | 'e' :: '-' :: rest | 'E' :: '+' :: rest | 'E' :: '-' :: rest
  | 'e' :: rest | 'E' :: rest => someDigits rest
  | rest => some rest

/-- The grammar of a number. -/
def isNumber (chars : List Char) : Bool :=
  let unsigned := match chars with
    | '-' :: rest => rest
    | rest => rest
  decide (((whole unsigned).bind fraction).bind exponent = some [])

/-! ## Values -/

def isBlank (char : Char) : Bool :=
  char == ' ' || char == '\t' || char == '\n' || char == '\r'

def skip (chars : List Char) : List Char :=
  chars.dropWhile isBlank

/-- `null`, `true`, `false` or a number. -/
def scalar (chars : List Char) : Option (Json × List Char) :=
  match chars with
  | 'n' :: 'u' :: 'l' :: 'l' :: rest => some (null, rest)
  | 't' :: 'r' :: 'u' :: 'e' :: rest => some (bool true, rest)
  | 'f' :: 'a' :: 'l' :: 's' :: 'e' :: rest => some (bool false, rest)
  | chars =>
      let literal := chars.takeWhile isNumberChar
      if isNumber literal then
        some (num (String.ofList literal), chars.dropWhile isNumberChar)
      else none

mutual

/-- A value at the start of a text, and the rest of it. -/
def value : Nat → List Char → Option (Json × List Char)
  | 0, _ => none
  | fuel + 1, chars =>
      match skip chars with
      | '"' :: rest =>
          (quoted .plain rest).map fun (text, rest) => (str (String.ofList text), rest)
      | '[' :: rest =>
          match skip rest with
          | ']' :: rest => some (arr [], rest)
          | rest => (items fuel rest).map fun (items, rest) => (arr items, rest)
      | '\x7b' :: rest =>
          match skip rest with
          | '\x7d' :: rest => some (obj [], rest)
          | rest => (members fuel rest).map fun (members, rest) => (obj members, rest)
      | rest => scalar rest

/-- The items of an array, with the bracket that closes it. -/
def items : Nat → List Char → Option (List Json × List Char)
  | 0, _ => none
  | fuel + 1, chars =>
      (value fuel chars).bind fun (item, rest) =>
        match skip rest with
        | ',' :: rest => (items fuel rest).map fun (others, rest) => (item :: others, rest)
        | ']' :: rest => some ([item], rest)
        | _ => none

/-- The members of an object, with the brace that closes it. -/
def members : Nat → List Char → Option (List (String × Json) × List Char)
  | 0, _ => none
  | fuel + 1, chars =>
      match skip chars with
      | '"' :: rest =>
          (quoted .plain rest).bind fun (name, rest) =>
            match skip rest with
            | ':' :: rest =>
                (value fuel rest).bind fun (item, rest) =>
                  match skip rest with
                  | ',' :: rest =>
                      (members fuel rest).map fun (others, rest) =>
                        ((String.ofList name, item) :: others, rest)
                  | '\x7d' :: rest => some ([(String.ofList name, item)], rest)
                  | _ => none
            | _ => none
      | _ => none

end

/-- A text that is one value, with blanks around it. -/
def read (chars : List Char) : Option Json :=
  (value (chars.length + 1) chars).bind fun (value, rest) =>
    if skip rest = [] then some value else none

/-- The value that some bytes are the text of. -/
def readBytes (bytes : List UInt8) : Option Json :=
  (Data.decodeUtf8 bytes).bind read

/-! ## Parts of a printed value -/

theorem quoted_hexEscape {code : Nat} (low : code < 32) (rest : List Char) :
    quoted .plain (hexEscape code ++ rest) =
      (quoted .plain rest).map fun (text, rest) => (Char.ofNat code :: text, rest) := by
  interval_cases code <;> rfl

variable {char : Char}

/-- A short escape is read as its character. -/
theorem quoted_short {mark : Char} (known : unescape mark = some char) (rest : List Char)
    (other : mark ≠ 'u') :
    quoted .plain ('\\' :: mark :: rest) =
      (quoted .plain rest).map fun (text, rest) => (char :: text, rest) := by
  simp [quoted, known, other]

theorem quoted_escapeChar (char : Char) (rest : List Char) :
    quoted .plain (escapeChar char ++ rest) =
      (quoted .plain rest).map fun (text, rest) => (char :: text, rest) := by
  have coded : ∀ {code : Nat}, char.toNat = code → char = Char.ofNat code := by
    rintro code rfl
    exact (Char.ofNat_toNat char).symm
  unfold escapeChar
  split_ifs with quote slash back tab line form ret low
  · subst quote
    exact quoted_short rfl rest (by decide)
  · subst slash
    exact quoted_short rfl rest (by decide)
  · rw [coded back]
    exact quoted_short rfl rest (by decide)
  · rw [coded tab]
    exact quoted_short rfl rest (by decide)
  · rw [coded line]
    exact quoted_short rfl rest (by decide)
  · rw [coded form]
    exact quoted_short rfl rest (by decide)
  · rw [coded ret]
    exact quoted_short rfl rest (by decide)
  · rw [quoted_hexEscape low, Char.ofNat_toNat]
  · simp [quoted, quote, slash, low]

/-- A quoted text is read up to its closing quote. -/
theorem quoted_text (text rest : List Char) :
    quoted .plain (text.flatMap escapeChar ++ '"' :: rest) = some (text, rest) := by
  induction text with
  | nil => rfl
  | cons char text ih =>
      rw [List.flatMap_cons, List.append_assoc, quoted_escapeChar, ih]
      rfl

theorem quoted_quote (text : String) (rest : List Char) :
    quoted .plain ((quote text).tail ++ rest) = some (text.toList, rest) := by
  have shape : (quote text).tail ++ rest = text.toList.flatMap escapeChar ++ '"' :: rest := by
    simp [quote]
  rw [shape, quoted_text]

mutual

/-- The numbers of a value have the literals that the grammar has. -/
def Plain : Json → Prop
  | num literal =>
      (∀ char ∈ literal.toList, isNumberChar char) ∧ isNumber literal.toList ∧
        literal.toList ≠ []
  | arr items => PlainItems items
  | obj members => PlainMembers members
  | _ => True

def PlainItems : List Json → Prop
  | [] => True
  | item :: items => item.Plain ∧ PlainItems items

def PlainMembers : List (String × Json) → Prop
  | [] => True
  | member :: members => member.2.Plain ∧ PlainMembers members

end

/-- What follows a value: no digit and nothing else that a number could go on with. -/
def Ends (rest : List Char) : Prop :=
  ∀ char, rest.head? = some char → isNumberChar char = false

theorem takeWhile_number {literal rest : List Char} (all : ∀ char ∈ literal, isNumberChar char)
    (ends : Ends rest) :
    (literal ++ rest).takeWhile isNumberChar = literal ∧
      (literal ++ rest).dropWhile isNumberChar = rest := by
  have none_left : rest.takeWhile isNumberChar = [] ∧ rest.dropWhile isNumberChar = rest := by
    cases rest with
    | nil => exact ⟨rfl, rfl⟩
    | cons char rest =>
        have stop := ends char rfl
        exact ⟨List.takeWhile_cons_of_neg (by simp [stop]),
          List.dropWhile_cons_of_neg (by simp [stop])⟩
  rw [List.takeWhile_append_of_pos all, List.dropWhile_append_of_pos all, none_left.1, none_left.2,
    List.append_nil]
  exact ⟨rfl, rfl⟩

theorem skip_cons {rest : List Char} (dark : isBlank char = false) :
    skip (char :: rest) = char :: rest := by
  rw [skip, List.dropWhile_cons_of_neg (by simp [dark])]

theorem isBlank_of_isNumberChar (number : isNumberChar char) : isBlank char = false := by
  by_contra blank
  simp only [isBlank, Bool.not_eq_false, Bool.or_eq_true] at blank
  rcases blank with ((same | same) | same) | same <;>
    (obtain rfl := eq_of_beq same; exact absurd number (by decide))

/-- A number is read up to what ends it. -/
theorem value_number {literal rest : List Char} (all : ∀ char ∈ literal, isNumberChar char)
    (number : isNumber literal) (some_char : literal ≠ []) (ends : Ends rest) (fuel : Nat) :
    value (fuel + 1) (literal ++ rest) = some (num (String.ofList literal), rest) := by
  obtain ⟨char, others, rfl⟩ := List.exists_cons_of_ne_nil some_char
  have first : isNumberChar char := all char List.mem_cons_self
  have plain : value (fuel + 1) (char :: others ++ rest) = scalar (char :: others ++ rest) := by
    rw [List.cons_append, value, skip_cons (isBlank_of_isNumberChar first)]
    split
    · exact absurd first (by simp_all [isNumberChar, isDigit])
    · exact absurd first (by simp_all [isNumberChar, isDigit])
    · exact absurd first (by simp_all [isNumberChar, isDigit])
    · rfl
  rw [plain]
  obtain ⟨taken, dropped⟩ := takeWhile_number all ends
  unfold scalar
  split
  · exact absurd first (by simp_all [isNumberChar, isDigit])
  · exact absurd first (by simp_all [isNumberChar, isDigit])
  · exact absurd first (by simp_all [isNumberChar, isDigit])
  · rw [taken, if_pos number, dropped]

theorem ends_cons (stops : isNumberChar char = false) (rest : List Char) : Ends (char :: rest) := by
  intro other first
  cases first
  exact stops

variable {blanks : List Char}

section

variable (all : ∀ char ∈ blanks, isBlank char)
include all

theorem ends_append_cons (stops : isNumberChar char = false) (rest : List Char) :
    Ends (blanks ++ char :: rest) := by
  cases blanks with
  | nil => exact ends_cons stops rest
  | cons blank blanks =>
      refine ends_cons (Bool.eq_false_iff.mpr fun number => ?_) _
      exact absurd (all blank List.mem_cons_self) (by simp [isBlank_of_isNumberChar number])

theorem skip_blanks (rest : List Char) : skip (blanks ++ rest) = skip rest :=
  List.dropWhile_append_of_pos all

theorem value_blanks (fuel : Nat) (rest : List Char) :
    value fuel (blanks ++ rest) = value fuel rest := by
  cases fuel with
  | zero => rfl
  | succ fuel => rw [value, value, skip_blanks all]

theorem items_blanks (fuel : Nat) (rest : List Char) :
    items fuel (blanks ++ rest) = items fuel rest := by
  cases fuel with
  | zero => rfl
  | succ fuel => rw [items, items, value_blanks all]

theorem members_blanks (fuel : Nat) (rest : List Char) :
    members fuel (blanks ++ rest) = members fuel rest := by
  cases fuel with
  | zero => rfl
  | succ fuel => rw [members, members, skip_blanks all]

end

/-! ## Printing with blanks -/

/-- Where a printer puts blanks: a gap in front of items and closing brackets, at each depth, and
what follows a colon. -/
structure Style where
  gap : Nat → List Char
  colon : List Char
  gap_blank : ∀ level, ∀ char ∈ gap level, isBlank char
  colon_blank : ∀ char ∈ colon, isBlank char

/-- No blanks at all. -/
def Style.compact : Style where
  gap _ := []
  colon := []
  gap_blank _ _ listed := by cases listed
  colon_blank _ listed := by cases listed

/-- A line for every item, indented by two blanks for each level. -/
def Style.pretty : Style where
  gap level := '\n' :: List.replicate (2 * level) ' '
  colon := [' ']
  gap_blank level char listed := by
    rcases List.mem_cons.mp listed with rfl | listed
    · rfl
    · rw [List.eq_of_mem_replicate listed]
      rfl
  colon_blank char listed := by
    rw [List.mem_singleton.mp listed]
    rfl

mutual

/-- The text of a value at a depth. -/
def print (style : Style) (level : Nat) : Json → List Char
  | arr [] => ['[', ']']
  | arr (item :: items) =>
      '[' :: style.gap (level + 1) ++ printItems style (level + 1) (item :: items) ++
        style.gap level ++ [']']
  | obj [] => ['\x7b', '\x7d']
  | obj (member :: members) =>
      '\x7b' :: style.gap (level + 1) ++ printMembers style (level + 1) (member :: members) ++
        style.gap level ++ ['\x7d']
  | value => value.stringify

def printItems (style : Style) (level : Nat) : List Json → List Char
  | [] => []
  | [item] => print style level item
  | item :: next :: rest =>
      print style level item ++ ',' :: style.gap level ++ printItems style level (next :: rest)

def printMembers (style : Style) (level : Nat) : List (String × Json) → List Char
  | [] => []
  | [(name, value)] => quote name ++ ':' :: style.colon ++ print style level value
  | (name, value) :: next :: rest =>
      quote name ++ ':' :: style.colon ++ print style level value ++ ',' :: style.gap level ++
        printMembers style level (next :: rest)

end

mutual

theorem print_compact : ∀ (level : Nat) (v : Json), print .compact level v = v.stringify
  | _, null => rfl
  | _, bool _ => rfl
  | _, num _ => rfl
  | _, str _ => rfl
  | _, arr [] => rfl
  | level, arr (item :: items) => by
      rw [print, stringify, printItems_compact (level + 1) (item :: items)]
      simp [Style.compact]
  | _, obj [] => rfl
  | level, obj (member :: members) => by
      rw [print, stringify, printMembers_compact (level + 1) (member :: members)]
      simp [Style.compact]

theorem printItems_compact : ∀ (level : Nat) (items : List Json),
    printItems .compact level items = stringifyItems items
  | _, [] => rfl
  | level, [item] => by rw [printItems, stringifyItems, print_compact]
  | level, item :: next :: rest => by
      rw [printItems, stringifyItems, print_compact, printItems_compact level (next :: rest)]
      simp [Style.compact]

theorem printMembers_compact : ∀ (level : Nat) (members : List (String × Json)),
    printMembers .compact level members = stringifyMembers members
  | _, [] => rfl
  | level, [(name, value)] => by
      rw [printMembers, stringifyMembers, print_compact]
      simp [Style.compact]
  | level, (name, value) :: next :: rest => by
      rw [printMembers, stringifyMembers, print_compact, printMembers_compact level (next :: rest)]
      simp [Style.compact]

end

/-! ## What is printed is read -/

variable {style : Style} {v : Json}

/-- A printed value begins with a character that is no blank and closes no array. -/
theorem exists_head_print (plain : v.Plain) (level : Nat) :
    ∃ char rest, print style level v = char :: rest ∧ isBlank char = false ∧ char ≠ ']' := by
  cases v with
  | null => exact ⟨_, _, rfl, rfl, by decide⟩
  | bool value => cases value <;> exact ⟨_, _, rfl, rfl, by decide⟩
  | num literal =>
      obtain ⟨all, -, some_char⟩ := plain
      obtain ⟨char, others, shape⟩ := List.exists_cons_of_ne_nil some_char
      have first : isNumberChar char := all char (by rw [shape]; exact List.mem_cons_self)
      refine ⟨char, others, shape, isBlank_of_isNumberChar first, ?_⟩
      rintro rfl
      exact absurd first (by decide)
  | str text => exact ⟨_, _, rfl, rfl, by decide⟩
  | arr items => cases items <;> exact ⟨_, _, rfl, rfl, by decide⟩
  | obj members => cases members <;> exact ⟨_, _, rfl, rfl, by decide⟩

mutual

theorem value_print : ∀ (v : Json), v.Plain → ∀ (level fuel : Nat) (rest : List Char), Ends rest →
    (print style level v).length < fuel → value fuel (print style level v ++ rest) = some (v, rest)
  | null, _, _, fuel + 1, rest, _, _ => rfl
  | bool true, _, _, fuel + 1, rest, _, _ => rfl
  | bool false, _, _, fuel + 1, rest, _, _ => rfl
  | num literal, plain, _, fuel + 1, rest, ends, _ => by
      have read := value_number plain.1 plain.2.1 plain.2.2 ends fuel
      rwa [String.ofList_toList] at read
  | str text, _, level, fuel + 1, rest, _, _ => by
      have opened : print style level (str text) ++ rest = '"' :: ((quote text).tail ++ rest) := by
        simp [print, stringify, quote]
      rw [opened, value, skip_cons (by decide)]
      simp only [quoted_quote, Option.map_some, String.ofList_toList]
  | arr [], _, _, fuel + 1, rest, _, _ => rfl
  | arr (item :: others), plain, level, fuel + 1, rest, _, enough => by
      have opened : print style level (arr (item :: others)) ++ rest =
          '[' :: (style.gap (level + 1) ++ (printItems style (level + 1) (item :: others) ++
            (style.gap level ++ ']' :: rest))) := by
        simp [print]
      have inside := items_print (item :: others) plain (by simp) (level + 1) fuel
        (style.gap level) rest (style.gap_blank level) (by
          simp only [print, List.length_append, List.length_cons, List.length_nil] at enough
          omega)
      obtain ⟨char, more, shape, dark, other⟩ := exists_head_print plain.1
        (level + 1)
      have head : ∃ more, printItems style (level + 1) (item :: others) ++
          (style.gap level ++ ']' :: rest) = char :: more := by
        cases others with
        | nil => exact ⟨_, by rw [printItems, shape]; rfl⟩
        | cons next others => exact ⟨_, by rw [printItems, shape]; rfl⟩
      obtain ⟨more, head⟩ := head
      rw [opened, value, skip_cons (by decide)]
      rw [head] at inside ⊢
      simp only [skip_blanks (style.gap_blank (level + 1)), skip_cons dark]
      split
      · rename_i same
        exact absurd (List.cons.inj same).1 other
      · rw [inside]
        rfl
  | obj [], _, _, fuel + 1, rest, _, _ => rfl
  | obj ((name, item) :: others), plain, level, fuel + 1, rest, _, enough => by
      have opened : print style level (obj ((name, item) :: others)) ++ rest =
          '\x7b' :: (style.gap (level + 1) ++
            (printMembers style (level + 1) ((name, item) :: others) ++
              (style.gap level ++ '\x7d' :: rest))) := by
        simp [print]
      have inside := members_print ((name, item) :: others) plain (by simp) (level + 1) fuel
        (style.gap level) rest (style.gap_blank level) (by
          simp only [print, List.length_append, List.length_cons, List.length_nil] at enough
          omega)
      have head : ∃ more, printMembers style (level + 1) ((name, item) :: others) ++
          (style.gap level ++ '\x7d' :: rest) = '"' :: more := by
        cases others <;> exact ⟨_, rfl⟩
      obtain ⟨more, head⟩ := head
      rw [opened, value, skip_cons (by decide)]
      rw [head] at inside ⊢
      simp only [skip_blanks (style.gap_blank (level + 1)),
        skip_cons (by decide : isBlank '"' = false)]
      split
      · rename_i same
        exact absurd (List.cons.inj same).1 (by decide)
      · rw [inside]
        rfl

theorem items_print : ∀ (list : List Json), PlainItems list → list ≠ [] →
    ∀ (level fuel : Nat) (blanks rest : List Char), (∀ char ∈ blanks, isBlank char) →
      (printItems style level list).length + 1 < fuel →
        items fuel (printItems style level list ++ (blanks ++ ']' :: rest)) = some (list, rest)
  | [item], plain, _, level, fuel + 1, blanks, rest, all, enough => by
      have ends : Ends (blanks ++ ']' :: rest) := ends_append_cons all (by decide) rest
      have first := value_print item plain.1 level fuel (blanks ++ ']' :: rest) ends
        (by rw [printItems] at enough; omega)
      rw [printItems, items, first, Option.bind_some]
      simp only [skip_blanks all, skip_cons (by decide : isBlank ']' = false)]
  | item :: next :: others, plain, _, level, fuel + 1, blanks, rest, all, enough => by
      have split : printItems style level (item :: next :: others) ++ (blanks ++ ']' :: rest) =
          print style level item ++ (',' :: (style.gap level ++
            (printItems style level (next :: others) ++ (blanks ++ ']' :: rest)))) := by
        simp [printItems]
      simp only [printItems, List.length_append, List.length_cons] at enough
      have first := value_print item plain.1 level fuel
        (',' :: (style.gap level ++ (printItems style level (next :: others) ++
          (blanks ++ ']' :: rest)))) (ends_cons (by decide) _) (by omega)
      have later := items_print (next :: others) plain.2 (by simp) level fuel blanks rest all
        (by omega)
      rw [split, items, first, Option.bind_some]
      simp only [skip_cons (by decide : isBlank ',' = false),
        items_blanks (style.gap_blank level), later, Option.map_some]

theorem members_print : ∀ (list : List (String × Json)), PlainMembers list → list ≠ [] →
    ∀ (level fuel : Nat) (blanks rest : List Char), (∀ char ∈ blanks, isBlank char) →
      (printMembers style level list).length + 1 < fuel →
        members fuel (printMembers style level list ++ (blanks ++ '\x7d' :: rest)) =
          some (list, rest)
  | [(name, item)], plain, _, level, fuel + 1, blanks, rest, all, enough => by
      have split : printMembers style level [(name, item)] ++ (blanks ++ '\x7d' :: rest) =
          '"' :: ((quote name).tail ++ ':' :: (style.colon ++
            (print style level item ++ (blanks ++ '\x7d' :: rest)))) := by
        simp [printMembers, quote]
      simp only [printMembers, List.length_append, List.length_cons] at enough
      have ends : Ends (blanks ++ '\x7d' :: rest) := ends_append_cons all (by decide) rest
      have first := value_print item plain.1 level fuel (blanks ++ '\x7d' :: rest) ends (by omega)
      rw [split, members, skip_cons (by decide)]
      simp only [quoted_quote, Option.bind_some, skip_cons (by decide : isBlank ':' = false),
        value_blanks style.colon_blank, first, skip_blanks all,
        skip_cons (by decide : isBlank '\x7d' = false), String.ofList_toList]
  | (name, item) :: next :: others, plain, _, level, fuel + 1, blanks, rest, all, enough => by
      have split : printMembers style level ((name, item) :: next :: others) ++
          (blanks ++ '\x7d' :: rest) =
          '"' :: ((quote name).tail ++ ':' :: (style.colon ++ (print style level item ++
            ',' :: (style.gap level ++ (printMembers style level (next :: others) ++
              (blanks ++ '\x7d' :: rest)))))) := by
        simp [printMembers, quote]
      simp only [printMembers, List.length_append, List.length_cons] at enough
      have first := value_print item plain.1 level fuel
        (',' :: (style.gap level ++ (printMembers style level (next :: others) ++
          (blanks ++ '\x7d' :: rest)))) (ends_cons (by decide) _) (by omega)
      have later := members_print (next :: others) plain.2 (by simp) level fuel blanks rest all
        (by omega)
      rw [split, members, skip_cons (by decide)]
      simp only [quoted_quote, Option.bind_some, skip_cons (by decide : isBlank ':' = false),
        value_blanks style.colon_blank, first, skip_cons (by decide : isBlank ',' = false),
        members_blanks (style.gap_blank level), later, Option.map_some, String.ofList_toList]

end

/-- What is printed is read as the value that was printed. -/
theorem read_print (plain : v.Plain) : read (print style 0 v) = some v := by
  have whole := value_print v plain 0 ((print style 0 v).length + 1) []
    (fun _ first => by cases first) (Nat.lt_succ_self _)
  rw [List.append_nil] at whole
  rw [read, whole]
  rfl

theorem readBytes_print (plain : v.Plain) :
    readBytes (Data.encodeUtf8 (print style 0 v)) = some v := by
  rw [readBytes, Data.decodeUtf8_encodeUtf8, Option.bind_some, read_print plain]

theorem read_stringify (plain : v.Plain) : read v.stringify = some v := by
  rw [← print_compact 0, read_print plain]

theorem readBytes_stringify (plain : v.Plain) :
    readBytes (Data.encodeUtf8 v.stringify) = some v := by
  rw [← print_compact 0, readBytes_print plain]

end Zeron.Wire.Json
