import AtomicCss.Text.Blank
import AtomicCss.Text.Search

/-
  This file defines how text changes when a layout runs from
  right to left: the words `left` and `right` change places,
  and horizontal offsets change sign.

  Key definitions include:
    * `RightToLeft.swapSides`
    * `RightToLeft.OffsetCall`
    * `RightToLeft.OffsetCall.scan?`
    * `RightToLeft.isZero`
    * `RightToLeft.negateOffsets`
-/

namespace AtomicCss.RightToLeft

------------------------------------------------------------
-- Sides
------------------------------------------------------------

/- The rule that finds a side and puts the other in its place. -/
def otherSide : Text.Rule (List Char) :=
  fun cs =>
    if "left".toList.isPrefixOf cs then
      some ("right".toList, 4)
    else if "right".toList.isPrefixOf cs then
      some ("left".toList, 5)
    else
      none

/- Swap the two sides everywhere in a text. -/
def swapSides
    (s : String) : String :=
  String.ofList (Text.substitute otherSide 0 s.toList)

------------------------------------------------------------
-- Decimal numbers
------------------------------------------------------------

/-
  The unsigned decimal at the front of a text. It may lack
  whole digits or a fraction, and a point without digits
  after it is no part of it.
-/
def scanDecimal?
    (cs : List Char) : Option (List Char) :=
  let whole := cs.takeWhile Char.isDigit
  let fraction :=
    match cs.dropWhile Char.isDigit with
    | '.' :: rest => rest.takeWhile Char.isDigit
    | _ => []
  if !fraction.isEmpty then
    some (whole ++ '.' :: fraction)
  else if !whole.isEmpty then
    some whole
  else
    none

/- The digits of a decimal as one number. -/
def digitsValue
    (cs : List Char) : Nat :=
  (cs.filter Char.isDigit).foldl
    (fun n c => n * 10 + (c.toNat - '0'.toNat)) 0

/- The number of digits after the point of a decimal. -/
def places
    (cs : List Char) : Nat :=
  (cs.dropWhile Char.isDigit).length - 1

/-
  Whether a decimal is zero as a double: at most half of the
  least positive double.
-/
def isZero
    (cs : List Char) : Bool :=
  digitsValue cs * Nat.pow 2 1075 ≤ Nat.pow 10 (places cs)

------------------------------------------------------------
-- Offsets
------------------------------------------------------------

/-
  A call with a horizontal offset, up to the end of that
  number: `head` is the function with its parenthesis and
  white space.
-/
structure OffsetCall where
  head : List Char
  negative : Bool
  number : List Char

namespace OffsetCall

/- The functions whose first argument is horizontal. -/
def functions : List (List Char) :=
  [ "translate(".toList,
    "translateX(".toList,
    "translate3d(".toList ]

/- The characters of a call. -/
def text
    (call : OffsetCall) : List Char :=
  call.head ++ (if call.negative then ['-'] else []) ++ call.number

/- The call with its offset the other way; zero stays as it is. -/
def negated
    (call : OffsetCall) : OffsetCall :=
  if isZero call.number then
    call
  else
    { call with negative := !call.negative }

/- The offset call at the front of a text. -/
def scan?
    (cs : List Char) : Option OffsetCall := do
  let function ← functions.find? (·.isPrefixOf cs)
  let rest := cs.drop function.length
  let blanks := rest.takeWhile Text.isBlank
  let rest := rest.dropWhile Text.isBlank
  let head := function ++ blanks
  match rest with
  | '-' :: rest => return ⟨head, true, ← scanDecimal? rest⟩
  | rest => return ⟨head, false, ← scanDecimal? rest⟩

end OffsetCall

/- The rule that finds an offset call and turns it around. -/
def otherWay : Text.Rule (List Char) :=
  fun cs =>
    (OffsetCall.scan? cs).map
      (fun call => (call.negated.text, call.text.length))

/- Turn all horizontal offsets of a text around. -/
def negateOffsets
    (s : String) : String :=
  String.ofList (Text.substitute otherWay 0 s.toList)

end AtomicCss.RightToLeft
