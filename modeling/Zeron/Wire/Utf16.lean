import Zeron.Wire.Json
import Mathlib.Tactic.IntervalCases

/-!
# Text in UTF-16 units

Half of a surrogate pair is no text, but it can stand in a JSON literal, escaped.
-/

namespace Zeron.Wire

def isHigh (unit : Nat) : Bool :=
  decide (0xD800 ≤ unit ∧ unit < 0xDC00)

def isLow (unit : Nat) : Bool :=
  decide (0xDC00 ≤ unit ∧ unit < 0xE000)

/-- The character of a surrogate pair. -/
def paired (high low : Nat) : Char :=
  Char.ofNat (0x10000 + (high - 0xD800) * 0x400 + (low - 0xDC00))

/-- `String::from_utf16`. -/
def decodeUtf16 : List Nat → Option (List Char)
  | [] => some []
  | [unit] => if isHigh unit ∨ isLow unit then none else some [Char.ofNat unit]
  | unit :: next :: rest =>
      if isHigh unit then
        if isLow next then (decodeUtf16 rest).map (paired unit next :: ·) else none
      else if isLow unit then none
      else (decodeUtf16 (next :: rest)).map (Char.ofNat unit :: ·)

/-- `String::from_utf16_lossy`. -/
def decodeUtf16Lossy : List Nat → List Char
  | [] => []
  | [unit] => [if isHigh unit ∨ isLow unit then '\uFFFD' else Char.ofNat unit]
  | unit :: next :: rest =>
      if isHigh unit ∧ isLow next then paired unit next :: decodeUtf16Lossy rest
      else
        (if isHigh unit ∨ isLow unit then '\uFFFD' else Char.ofNat unit) ::
          decodeUtf16Lossy (next :: rest)

theorem toNat_ofNat {code : Nat} (valid : code.isValidChar) : (Char.ofNat code).toNat = code := by
  unfold Char.ofNat
  rw [dif_pos valid]
  rfl

theorem char_eq_ofNat (char : Char) : char = Char.ofNat char.toNat := by
  have valid : char.toNat.isValidChar := char.valid
  exact Char.ext (UInt32.toNat.inj (toNat_ofNat valid).symm)

theorem utf16Char_ofNat {unit : Nat} (small : unit < 0x10000) (high : isHigh unit = false)
    (low : isLow unit = false) : utf16Char (Char.ofNat unit) = [unit] := by
  simp only [isHigh, isLow, decide_eq_false_iff_not] at high low
  have valid : unit.isValidChar := by
    omega
  rw [utf16Char, toNat_ofNat valid, if_pos small]

theorem utf16Char_paired {high low : Nat} (is_high : isHigh high = true)
    (is_low : isLow low = true) : utf16Char (paired high low) = [high, low] := by
  simp only [isHigh, isLow, decide_eq_true_eq] at is_high is_low
  have valid : (0x10000 + (high - 0xD800) * 0x400 + (low - 0xDC00)).isValidChar := by
    omega
  rw [utf16Char, paired, toNat_ofNat valid, if_neg (by omega), List.cons.injEq, List.cons.injEq]
  exact ⟨by omega, by omega, rfl⟩

variable {units : List Nat}

/-- What is decoded has these units. -/
theorem utf16_of_decodeUtf16 {chars : List Char} (small : ∀ unit ∈ units, unit < 0x10000)
    (decoded : decodeUtf16 units = some chars) :
    chars.flatMap utf16Char = units := by
  induction units using decodeUtf16.induct generalizing chars with
  | case1 =>
      cases decoded
      rfl
  | case2 unit half =>
      rw [decodeUtf16, if_pos half] at decoded
      cases decoded
  | case3 unit whole =>
      rw [decodeUtf16, if_neg whole] at decoded
      cases decoded
      rw [not_or, Bool.not_eq_true, Bool.not_eq_true] at whole
      simpa using utf16Char_ofNat (small unit List.mem_cons_self) whole.1 whole.2
  | case4 unit next rest high low ih =>
      rw [decodeUtf16, if_pos high, if_pos low] at decoded
      rcases Option.map_eq_some_iff.mp decoded with ⟨later, found, rfl⟩
      rw [List.flatMap_cons, utf16Char_paired high low,
        ih (fun other listed => small other (by simp [listed])) found]
      rfl
  | case5 unit next rest high other =>
      rw [decodeUtf16, if_pos high, if_neg other] at decoded
      cases decoded
  | case6 unit next rest other low =>
      rw [decodeUtf16, if_neg other, if_pos low] at decoded
      cases decoded
  | case7 unit next rest other still ih =>
      rw [decodeUtf16, if_neg other, if_neg still] at decoded
      rcases Option.map_eq_some_iff.mp decoded with ⟨later, found, rfl⟩
      rw [Bool.not_eq_true] at other still
      rw [List.flatMap_cons, utf16Char_ofNat (small unit List.mem_cons_self) other still,
        ih (fun unit listed => small unit (List.mem_cons_of_mem _ listed)) found]
      rfl

theorem lt_of_mem_utf16Char {char : Char} {unit : Nat} (listed : unit ∈ utf16Char char) :
    unit < 0x10000 := by
  have bound : char.toNat < 0x110000 := by
    have valid : char.toNat.isValidChar := char.valid
    omega
  unfold utf16Char at listed
  split at listed
  · simp only [List.mem_singleton] at listed
    omega
  · rcases List.mem_pair.mp listed with same | same
    · omega
    · omega

theorem lt_of_mem_utf16 {text : String} {unit : Nat} (listed : unit ∈ utf16 text) :
    unit < 0x10000 := by
  rcases List.mem_flatMap.mp listed with ⟨char, -, listed⟩
  exact lt_of_mem_utf16Char listed

/-! ## Literals -/

/-- The units of a literal, each of them escaped. -/
def escapedUnits (units : List Nat) : List Char :=
  units.flatMap fun unit =>
    ['\\', 'u', Nat.digitChar (unit / 4096), Nat.digitChar (unit / 256 % 16),
      Nat.digitChar (unit / 16 % 16), Nat.digitChar (unit % 16)]

def quotedUnits (units : List Nat) : List Char :=
  ['"'] ++ escapedUnits units ++ ['"']

/-- The value of a hexadecimal digit. -/
def hexDigit (char : Char) : Option Nat :=
  if '0' ≤ char ∧ char ≤ '9' then some (char.toNat - '0'.toNat)
  else if 'a' ≤ char ∧ char ≤ 'f' then some (char.toNat - 'a'.toNat + 10)
  else if 'A' ≤ char ∧ char ≤ 'F' then some (char.toNat - 'A'.toNat + 10)
  else none

/-- What stands for a unit after a backslash. -/
def shortEscape : Char → Option Nat
  | '"' => some 34
  | '\\' => some 92
  | '/' => some 47
  | 'b' => some 8
  | 'f' => some 12
  | 'n' => some 10
  | 'r' => some 13
  | 't' => some 9
  | _ => none

/-- The units that `JSON.parse` finds up to the quote at the end. -/
def readUnits : List Char → Option (List Nat)
  | [] => none
  | '"' :: rest => if rest = [] then some [] else none
  | '\\' :: 'u' :: a :: b :: c :: d :: rest => do
      let first ← hexDigit a
      let second ← hexDigit b
      let third ← hexDigit c
      let fourth ← hexDigit d
      let units ← readUnits rest
      return (first * 4096 + second * 256 + third * 16 + fourth) :: units
  | '\\' :: char :: rest => do
      let unit ← shortEscape char
      let units ← readUnits rest
      return unit :: units
  | char :: rest =>
      if char.toNat < 32 ∨ char = '\\' then none
      else do
        let units ← readUnits rest
        return utf16Char char ++ units

/-- The units that `JSON.parse` finds in a literal. -/
def readLiteral : List Char → Option (List Nat)
  | '"' :: rest => readUnits rest
  | _ => none

theorem hexDigit_digitChar {digit : Nat} (small : digit < 16) :
    hexDigit (Nat.digitChar digit) = some digit := by
  interval_cases digit <;> decide

theorem readUnits_escapedUnits (small : ∀ unit ∈ units, unit < 0x10000) :
    readUnits (escapedUnits units ++ ['"']) = some units := by
  induction units with
  | nil => rfl
  | cons unit rest ih =>
      have bound := small unit List.mem_cons_self
      have later := ih fun other listed => small other (List.mem_cons_of_mem _ listed)
      rw [escapedUnits, List.flatMap_cons, ← escapedUnits]
      simp only [List.cons_append, List.nil_append, readUnits]
      rw [hexDigit_digitChar (by omega), hexDigit_digitChar (by omega),
        hexDigit_digitChar (by omega), hexDigit_digitChar (by omega), later]
      simp only [Option.bind_eq_bind, Option.bind_some, Option.pure_def, Option.some.injEq,
        List.cons.injEq, and_true]
      omega

/-- Escaped units are read back. -/
theorem readLiteral_quotedUnits (small : ∀ unit ∈ units, unit < 0x10000) :
    readLiteral (quotedUnits units) = some units :=
  readUnits_escapedUnits small

/-- Some characters have an escape of two characters, and the other control characters one of
six. -/
theorem escapeChar_cases (char : Char) :
    char ∈ ['"', '\\', '\x08', '\x09', '\x0a', '\x0c', '\x0d'] ∨
      char.toNat < 32 ∧ Json.escapeChar char = Json.hexEscape char.toNat ∨
      32 ≤ char.toNat ∧ char ≠ '"' ∧ char ≠ '\\' ∧ Json.escapeChar char = [char] := by
  have coded {code : Nat} (same : char.toNat = code) : char = Char.ofNat code := by
    rw [← same]
    exact char_eq_ofNat char
  by_cases short : char ∈ ['"', '\\', '\x08', '\x09', '\x0a', '\x0c', '\x0d']
  · exact Or.inl short
  · refine Or.inr ?_
    simp only [List.mem_cons, List.not_mem_nil, or_false, not_or] at short
    rcases short with ⟨quoted, slashed, backspace, tab, feed, page, carriage⟩
    have skip : Json.escapeChar char =
        if char.toNat < 32 then Json.hexEscape char.toNat else [char] := by
      rw [Json.escapeChar, if_neg quoted, if_neg slashed, if_neg fun same => backspace (coded same),
        if_neg fun same => tab (coded same), if_neg fun same => feed (coded same),
        if_neg fun same => page (coded same), if_neg fun same => carriage (coded same)]
    by_cases control : char.toNat < 32
    · exact Or.inl ⟨control, by rw [skip, if_pos control]⟩
    · exact Or.inr ⟨not_lt.mp control, quoted, slashed, by rw [skip, if_neg control]⟩

theorem readUnits_escapeChar (char : Char) {rest : List Char}
    (found : readUnits rest = some units) :
    readUnits (Json.escapeChar char ++ rest) = some (utf16Char char ++ units) := by
  rcases escapeChar_cases char with short | ⟨control, escaped⟩ | ⟨printed, quoted, slashed, escaped⟩
  · simp only [List.mem_cons, List.not_mem_nil, or_false] at short
    rcases short with rfl | rfl | rfl | rfl | rfl | rfl | rfl <;>
      simp [Json.escapeChar, readUnits, shortEscape, utf16Char, found]
  · have zero : hexDigit '0' = some 0 := by decide
    have unit : utf16Char char = [char.toNat] := by
      rw [utf16Char, if_pos (by omega)]
    rw [escaped]
    simp only [Json.hexEscape, List.cons_append, List.nil_append, readUnits]
    rw [zero, hexDigit_digitChar (by omega), hexDigit_digitChar (by omega), found, unit]
    simp only [Option.bind_eq_bind, Option.bind_some, Option.pure_def, Option.some.injEq,
      List.cons_append, List.nil_append, List.cons.injEq, and_true]
    omega
  · rw [escaped, List.singleton_append, readUnits]
    · rw [if_neg (not_or.mpr ⟨not_lt.mpr printed, slashed⟩), found]
      rfl
    · exact quoted
    · intro a b c d later same
      exact absurd same slashed
    · intro next later same
      exact absurd same slashed

/-- A text is read back from its literal. -/
theorem readLiteral_quote (text : String) : readLiteral (Json.quote text) = some (utf16 text) := by
  have read : ∀ chars : List Char,
      readUnits (chars.flatMap Json.escapeChar ++ ['"']) = some (chars.flatMap utf16Char) := by
    intro chars
    induction chars with
    | nil => rfl
    | cons char chars ih =>
        rw [List.flatMap_cons, List.append_assoc]
        exact readUnits_escapeChar char ih
  exact read text.toList

end Zeron.Wire
