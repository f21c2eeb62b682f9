import Mathlib.Data.List.Basic

/-!
# Text

Blanks, lines and segments of a text, as in a standard library that follows Unicode.
-/

namespace Zeron.Data

/-- `char::is_whitespace`. -/
def isWhitespace (c : Char) : Bool :=
  decide (9 ≤ c.toNat ∧ c.toNat ≤ 13) || decide (c.toNat = 32) || decide (c.toNat = 133) ||
    decide (c.toNat = 160) || decide (c.toNat = 5760) ||
    decide (8192 ≤ c.toNat ∧ c.toNat ≤ 8202) || decide (c.toNat = 8232) ||
    decide (c.toNat = 8233) || decide (c.toNat = 8239) || decide (c.toNat = 8287) ||
    decide (c.toNat = 12288)

def trimStart (chars : List Char) : List Char :=
  chars.dropWhile isWhitespace

def trimEnd (chars : List Char) : List Char :=
  (chars.reverse.dropWhile isWhitespace).reverse

def trim (chars : List Char) : List Char :=
  trimEnd (trimStart chars)

/-- `trim` of a string. -/
def trimmed (text : String) : String :=
  String.ofList (trim text.toList)

/-- `split` at a character. -/
def segments (separator : Char) (text : String) : List String :=
  (text.toList.splitOn separator).map String.ofList

end Zeron.Data
