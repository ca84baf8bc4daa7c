/-
  This file defines the exact value of a double and the
  operations that are read off it.

  Key definitions include:
    * `Number.Dyadic`
    * `Number.Dyadic.ofFloat`
    * `Number.orderKey`
    * `Number.roundWhole`
-/

namespace AtomicCss.Number

------------------------------------------------------------
-- Exact values
------------------------------------------------------------

/-
  The number `± significand · 2 ^ exponent`.
-/
structure Dyadic where
  negative : Bool
  significand : Nat
  exponent : Int
deriving DecidableEq

/- The bit pattern of a double as a number. -/
def bits
    (x : Float) : Nat :=
  x.toBits.toNat

/-
  The exact value of a finite double. A biased exponent of
  zero marks a subnormal, which has no hidden bit.
-/
def Dyadic.ofFloat
    (x : Float) : Dyadic :=
  let biased : Nat := bits x / Nat.pow 2 52 % Nat.pow 2 11
  let fraction : Nat := bits x % Nat.pow 2 52
  { negative := Nat.pow 2 63 ≤ bits x
    significand :=
      if biased = 0 then fraction else fraction + Nat.pow 2 52
    exponent :=
      if biased = 0 then -1074 else (biased : Int) - 1075 }

------------------------------------------------------------
-- Total order
------------------------------------------------------------

/-
  A key that orders all doubles totally: by value, with -0
  below +0.
-/
def orderKey
    (x : Float) : Int :=
  let half := Nat.pow 2 63
  if bits x < half then
    (bits x : Int)
  else
    (half : Int) - 1 - (bits x : Int)

------------------------------------------------------------
-- Rounding
------------------------------------------------------------

/-
  The whole number nearest to a double, a half going away
  from zero. The sign of a zero result is kept.
-/
def roundWhole
    (x : Float) : Float :=
  let d := Dyadic.ofFloat x
  if x.isFinite && d.exponent < 0 then
    let scale := Nat.pow 2 d.exponent.natAbs
    let whole := Float.ofNat ((2 * d.significand + scale) / (2 * scale))
    if d.negative then -whole else whole
  else
    x

/- A double rounded to two decimal places. -/
def roundCents
    (x : Float) : Float :=
  roundWhole (x * 100) / 100

end AtomicCss.Number
