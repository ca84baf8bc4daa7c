/-
  This file defines white space and the operations that cut
  text along it.

  White space is the Unicode property White_Space, which has
  25 code points.

  Key definitions include:
    * `Text.blankRanges`
    * `Text.isBlank`
    * `Text.trim`
    * `Text.words`
    * `Text.trimmed`
    * `Text.wordsOf`
-/

namespace AtomicCss.Text

------------------------------------------------------------
-- White space
------------------------------------------------------------

/- The code points of White_Space, as closed ranges. -/
def blankRanges : List (Nat × Nat) :=
  [ (0x0009, 0x000D),
    (0x0020, 0x0020),
    (0x0085, 0x0085),
    (0x00A0, 0x00A0),
    (0x1680, 0x1680),
    (0x2000, 0x200A),
    (0x2028, 0x2029),
    (0x202F, 0x202F),
    (0x205F, 0x205F),
    (0x3000, 0x3000) ]

/- Whether a character is white space. -/
def isBlank
    (c : Char) : Bool :=
  blankRanges.any (fun r => r.1 ≤ c.toNat && c.toNat ≤ r.2)

------------------------------------------------------------
-- Trimming
------------------------------------------------------------

/- Drop leading white space. -/
def trimStart
    (cs : List Char) : List Char :=
  cs.dropWhile isBlank

/- Drop trailing white space. -/
def trimEnd
    (cs : List Char) : List Char :=
  (cs.reverse.dropWhile isBlank).reverse

/- Drop white space at both ends. -/
def trim
    (cs : List Char) : List Char :=
  trimEnd (trimStart cs)

/- The text without white space at its ends. -/
def trimmed
    (s : String) : String :=
  String.ofList (trim s.toList)

/- Whether a text holds nothing but white space. -/
def isBlankText
    (s : String) : Bool :=
  s.toList.all isBlank

------------------------------------------------------------
-- Words
------------------------------------------------------------

/- The maximal runs of characters that are not white space. -/
def words
    (cs : List Char) : List (List Char) :=
  (cs.splitOnP isBlank).filter (fun w => !w.isEmpty)

/- The words of a text, in order. -/
def wordsOf
    (s : String) : List String :=
  (words s.toList).map String.ofList

end AtomicCss.Text
