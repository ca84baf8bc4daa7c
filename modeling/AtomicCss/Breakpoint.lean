import AtomicCss.Number.Shortest

/-
  This file defines breakpoints: the media conditions that
  rules are grouped under.

  Each configured name has an upward variant, active from a
  width on, and mostly also a downward one, active up to a
  width.

  Key definitions include:
    * `Direction`
    * `Variant`
    * `Variant.name`
    * `Variant.mediaQuery`
    * `Breakpoint`
    * `Comparison`
-/

namespace AtomicCss

------------------------------------------------------------
-- Directions
------------------------------------------------------------

/- Whether a breakpoint bounds the width from below or above. -/
inductive Direction where
  | up
  | down
deriving DecidableEq

namespace Direction

/- The end of a derived name. -/
def ending : Direction → String
  | up => "-up"
  | down => "-down"

/- The media feature that bounds the width. -/
def feature : Direction → String
  | up => "min-width"
  | down => "max-width"

end Direction

------------------------------------------------------------
-- Breakpoints
------------------------------------------------------------

/- A configured name in one direction, with its threshold in pixels. -/
structure Variant where
  base : String
  direction : Direction
  threshold : Float
deriving DecidableEq

namespace Variant

/- The derived name, such as `md-up`. -/
def name
    (v : Variant) : String :=
  v.base ++ v.direction.ending

/- The media condition, such as `(min-width: 768px)`. -/
def mediaQuery
    (v : Variant) : String :=
  "(" ++ v.direction.feature ++ ": " ++
    Number.text v.threshold ++ "px)"

end Variant

/-
  A variant with its place in cascade order. Later places
  win over earlier ones.
-/
structure Breakpoint extends Variant where
  rank : Nat
deriving DecidableEq

/- Whether a breakpoint is the first one, which is always active. -/
def Breakpoint.isMinimum
    (b : Breakpoint) : Bool :=
  b.rank = 0

------------------------------------------------------------
-- Comparisons
------------------------------------------------------------

/- The relations between two thresholds. -/
inductive Comparison where
  | less
  | atMost
  | equal
  | atLeast
  | greater
deriving DecidableEq

/- Whether two thresholds are in a relation. -/
def Comparison.holds
    (r : Comparison)
    (a b : Float) : Bool :=
  match r with
  | less => a < b
  | atMost => a ≤ b
  | equal => a == b
  | atLeast => b ≤ a
  | greater => b < a

end AtomicCss
