import AtomicCss.Number.Binary64

/-
  This file defines the text of a double: the fewest decimal
  digits that read back as the same double, in positional
  notation.

  Of the decimals with the fewest digits the nearest one is
  written, and of two equally near ones the larger.

  Key definitions include:
    * `Number.Decimal`
    * `Number.Interval`
    * `Number.Interval.around`
    * `Number.onGrid?`
    * `Number.shortest`
    * `Number.positional`
    * `Number.text`
-/

namespace AtomicCss.Number

------------------------------------------------------------
-- Rounding intervals
------------------------------------------------------------

/- The number `digits · 10 ^ exponent`. -/
structure Decimal where
  digits : Nat
  exponent : Int
deriving DecidableEq

/-
  A positive number between two bounds, all three over one
  denominator. The bounds belong to the interval when it is
  closed.
-/
structure Interval where
  low : Nat
  value : Nat
  high : Nat
  denominator : Nat
  closed : Bool

/-
  The reals that round to the double with a given significand
  and exponent. The gap below a power of two is half as wide
  as the gap above it, except at the least exponent. The
  bounds round to the double when its significand is even.
-/
def Interval.around
    (significand : Nat)
    (exponent : Int) : Interval :=
  let unit := Nat.pow 2 exponent.toNat
  let below :=
    if significand = Nat.pow 2 52 ∧ -1074 < exponent then 1 else 2
  { low := (4 * significand - below) * unit
    value := 4 * significand * unit
    high := (4 * significand + 2) * unit
    denominator := 4 * Nat.pow 2 (-exponent).toNat
    closed := significand % 2 = 0 }

/- Whether a decimal lies in an interval. -/
def Interval.contains
    (i : Interval)
    (d : Decimal) : Bool :=
  let lhs := d.digits * i.denominator * Nat.pow 10 d.exponent.toNat
  let scale := Nat.pow 10 (-d.exponent).toNat
  if i.closed then
    i.low * scale ≤ lhs && lhs ≤ i.high * scale
  else
    i.low * scale < lhs && lhs < i.high * scale

------------------------------------------------------------
-- Shortest decimals
------------------------------------------------------------

/-
  The multiple of a power of ten in the interval that is
  nearest to its value, if the interval holds one. Only the
  two neighbours of the value have to be tried.
-/
def onGrid?
    (i : Interval)
    (exponent : Int) : Option Decimal :=
  let unit := i.denominator * Nat.pow 10 exponent.toNat
  let value := i.value * Nat.pow 10 (-exponent).toNat
  let down : Decimal := ⟨value / unit, exponent⟩
  let up : Decimal := ⟨value / unit + 1, exponent⟩
  if i.contains up && (unit ≤ 2 * (value % unit) || !i.contains down) then
    some up
  else if i.contains down then
    some down
  else
    none

/-
  The number of digits before the point of an interval's
  value. It is zero or negative for a value below one.
-/
def leadingExponent
    (i : Interval) : Int :=
  let whole := i.value / i.denominator
  if whole = 0 then
    match (List.range 330).find?
        (fun t => i.denominator ≤ i.value * Nat.pow 10 t) with
    | some t => 1 - (t : Int)
    | none => 0
  else
    ((Nat.toDigits 10 whole).length : Int)

/-
  The decimal in an interval with the fewest digits. Seventeen
  digits always suffice for a double.
-/
def shortest
    (i : Interval) : Decimal :=
  let top := leadingExponent i
  let grids := (List.range 17).map (fun n : Nat => top - 1 - (n : Int))
  (grids.findSome? (onGrid? i)).getD ⟨0, 0⟩

/- Drop trailing zero digits, at most a given number of them. -/
def Decimal.strip : Nat → Decimal → Decimal
  | 0, d => d
  | n + 1, d =>
      if d.digits ≠ 0 ∧ d.digits % 10 = 0 then
        strip n ⟨d.digits / 10, d.exponent + 1⟩
      else
        d

------------------------------------------------------------
-- Text
------------------------------------------------------------

/-
  Positional notation: no exponent, and no point when nothing
  follows it.
-/
def positional
    (d : Decimal) : List Char :=
  let digits := Nat.toDigits 10 d.digits
  let places := (-d.exponent).toNat
  if places = 0 then
    digits ++ List.replicate d.exponent.toNat '0'
  else if places < digits.length then
    digits.take (digits.length - places) ++
      '.' :: digits.drop (digits.length - places)
  else
    '0' :: '.' :: List.replicate (places - digits.length) '0' ++
      digits

/- The text of a double. -/
def text
    (x : Float) : String :=
  let d := Dyadic.ofFloat x
  let sign := if d.negative then "-" else ""
  if x.isNaN then
    "NaN"
  else if x.isInf then
    sign ++ "inf"
  else if d.significand = 0 then
    sign ++ "0"
  else
    let decimal := shortest (Interval.around d.significand d.exponent)
    sign ++ String.ofList (positional (decimal.strip 17))

end AtomicCss.Number
