import AtomicCss.Text.Search

/-
  This file defines how text is written in selectors: as a
  class name and inside a quoted attribute value.

  Key definitions include:
    * `Selector.isNameChar`
    * `Selector.escapeChar`
    * `Selector.escape`
    * `Selector.quote`
-/

namespace AtomicCss.Selector

------------------------------------------------------------
-- Class names
------------------------------------------------------------

/- The characters that a class name holds as they are. -/
def isNameChar
    (c : Char) : Bool :=
  c.isAlphanum || c = '-' || c = '_' || 128 ≤ c.toNat

/- A character of a class name; a backslash marks special ones. -/
def escapeChar
    (c : Char) : List Char :=
  if isNameChar c then [c] else ['\\', c]

/-
  The first character of a class name. A digit is written by
  its code, and a space ends the code.
-/
def escapeFirst
    (c : Char) : List Char :=
  if c.isDigit then
    '\\' :: Nat.toDigits 16 c.toNat ++ [' ']
  else
    escapeChar c

/- The class name that denotes a text. -/
def escape : List Char → List Char
  | [] => []
  | c :: rest => escapeFirst c ++ rest.flatMap escapeChar

------------------------------------------------------------
-- Quoted values
------------------------------------------------------------

/- A text between double quotes, its own quotes marked. -/
def quote
    (text : String) : String :=
  "\"" ++ Text.fillText '"' "\\\"" text ++ "\""

end AtomicCss.Selector
