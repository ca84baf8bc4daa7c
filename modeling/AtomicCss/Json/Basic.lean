/-
  This file defines JSON values as they are written.

  Members keep their order and may repeat a key. A number is
  kept as its numeral, so that its range matters only where
  a double is asked for. A string is `none` when it has a
  surrogate escape without its partner, because it then
  denotes no text.

  Key definitions include:
    * `Json.Numeral`
    * `Json.Value`
    * `Json.Value.members?`
    * `Json.Value.items?`
    * `Json.Value.text?`
    * `Json.Numeral.toFloat?`
-/

namespace AtomicCss.Json

------------------------------------------------------------
-- Values
------------------------------------------------------------

/-
  A numeral, digit by digit. An empty fraction or exponent
  is one that was not written.
-/
structure Numeral where
  negative : Bool
  whole : List Nat
  fraction : List Nat
  exponentNegative : Bool
  exponent : List Nat
deriving DecidableEq, Inhabited

/- A JSON value. -/
inductive Value where
  | null
  | bool (b : Bool)
  | number (n : Numeral)
  | string (text? : Option String)
  | array (items : List Value)
  | object (members : List (Option String × Value))
deriving Inhabited

namespace Value

/- The members of an object whose keys are all text. -/
def members? : Value → Option (List (String × Value))
  | object members =>
      members.mapM (fun m => m.1.map (fun key => (key, m.2)))
  | _ => none

/- The items of an array. -/
def items? : Value → Option (List Value)
  | array items => some items
  | _ => none

/- The text of a string. -/
def text? : Value → Option String
  | string text => text
  | _ => none

end Value

------------------------------------------------------------
-- Doubles
------------------------------------------------------------

namespace Numeral

/-
  Append digits to a significand as long as it stays below
  `2 ^ 64`. The second part holds the digits left over.
-/
def absorb : Nat → List Nat → Nat × List Nat
  | significand, [] => (significand, [])
  | significand, d :: digits =>
      if significand * 10 + d < Nat.pow 2 64 then
        absorb (significand * 10 + d) digits
      else
        (significand, d :: digits)

/- The number that digits denote. -/
def natOfDigits
    (digits : List Nat) : Nat :=
  digits.foldl (fun n d => n * 10 + d) 0

/- A power of ten as a double. -/
def powerOfTen
    (n : Nat) : Float :=
  Float.ofScientific 1 false n

/-
  A significand scaled by a power of ten, with one rounding
  per factor. Values beyond the largest double are refused.
-/
def scale
    (significand : Nat)
    (exponent : Int) : Option Float :=
  let x := Float.ofNat significand
  if 308 < exponent then
    if significand = 0 then some 0 else none
  else if 0 ≤ exponent then
    let y := x * powerOfTen exponent.toNat
    if y.isInf then none else some y
  else if -308 ≤ exponent then
    some (x / powerOfTen (-exponent).toNat)
  else if -616 ≤ exponent then
    some (x / powerOfTen 308 / powerOfTen (-exponent - 308).toNat)
  else
    some 0

/- The bounds of exponents and of their sums. -/
def exponentLimit : Int :=
  2147483648

/-
  The double that a numeral denotes. The significand takes
  as many digits as 64 bits hold. Whole digits beyond that
  only raise the exponent, and fraction digits are ignored.
-/
def toFloat?
    (n : Numeral) : Option Float :=
  let whole := absorb 0 n.whole
  let fraction := absorb whole.1 n.fraction
  let written := natOfDigits n.exponent
  let places : Int :=
    (whole.2.length : Int) -
      ((n.fraction.length - fraction.2.length : Nat) : Int)
  let exponent :=
    if n.exponentNegative then
      max (-exponentLimit) (places - written)
    else
      min (exponentLimit - 1) (places + written)
  let magnitude :=
    if exponentLimit ≤ written then
      if fraction.1 ≠ 0 && !n.exponentNegative then none else some 0
    else
      scale fraction.1 exponent
  magnitude.map (fun x => if n.negative then -x else x)

end Numeral

end AtomicCss.Json
