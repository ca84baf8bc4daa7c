import AtomicCss.OrderedMap

/-
  This file defines configurations and how one is laid over
  another.

  Key definitions include:
    * `Properties`
    * `Patch`
    * `Utility`
    * `Utility.defaultFor?`
    * `Utility.overlay`
    * `Family`
    * `Config`
    * `Config.overlay`
-/

namespace AtomicCss

------------------------------------------------------------
-- Properties
------------------------------------------------------------

/- CSS properties with their values, in declaration order. -/
abbrev Properties :=
  OrderedMap String String

/- The properties of each value of a utility. -/
abbrev ValueTable :=
  OrderedMap String Properties

/- Lay value tables over each other, property by property. -/
def ValueTable.overlay
    (a b : ValueTable) : ValueTable :=
  a.mergeWith (fun old new => (old.getD ∅).extend new) b

/- The second of two optional values, if it is set. -/
def replaceIfSet
    {α : Type}
    (a b : Option α) : Option α :=
  match b with
  | some y => some y
  | none => a

------------------------------------------------------------
-- Utilities
------------------------------------------------------------

/- What a utility looks like from right to left. -/
structure Patch where
  values : ValueTable := ∅
  common : Properties := ∅
  template : Option Properties := none
deriving DecidableEq

/-
  A utility: what its key declares.

  `values` lists the properties of each value and `common`
  those of all of them. `template` has slots for the payload
  of a parenthesized value. `defaults` names the value of a
  token without one, per breakpoint or for all of them.
  `selector` replaces the generated selector.
-/
structure Utility where
  values : ValueTable := ∅
  common : Properties := ∅
  defaults : OrderedMap String String := ∅
  selector : Option String := none
  template : Option Properties := none
  rtl : Option Patch := none
deriving DecidableEq

namespace Utility

/- The breakpoint name that stands for all breakpoints. -/
def anyBreakpoint : String :=
  "*"

/- The value of a token without one at a breakpoint. -/
def defaultFor?
    (u : Utility)
    (breakpoint : String) : Option String :=
  match u.defaults.get? breakpoint with
  | some value => some value
  | none => u.defaults.get? anyBreakpoint

/-
  Lay a utility over another. Maps are merged entry by entry
  and the other parts are replaced where they are set.
-/
def overlay
    (a b : Utility) : Utility where
  values := a.values.overlay b.values
  common := a.common.extend b.common
  defaults := a.defaults.extend b.defaults
  selector := replaceIfSet a.selector b.selector
  template := replaceIfSet a.template b.template
  rtl := replaceIfSet a.rtl b.rtl

/- A utility laid over another, which may be missing. -/
def overlayOn
    (old : Option Utility)
    (u : Utility) : Utility :=
  match old with
  | none => u
  | some a => a.overlay u

end Utility

------------------------------------------------------------
-- Families
------------------------------------------------------------

/- Scales of named values. -/
abbrev Scales :=
  OrderedMap String (OrderedMap String String)

/-
  A family of utilities that share a stem and a scale. Each
  member adds an ending to the stem and names the properties
  that receive the value.
-/
structure Family where
  stem : String := ""
  scale : Option String := none
  values : OrderedMap String String := ∅
  members : OrderedMap String (List String) := ∅
deriving DecidableEq

------------------------------------------------------------
-- Configurations
------------------------------------------------------------

/- What a user can configure. -/
structure Config where
  breakpoints : OrderedMap String Float := ∅
  selectors : OrderedMap String String := ∅
  scales : Scales := ∅
  utilities : OrderedMap String Utility := ∅
  overrides : OrderedMap String Properties := ∅
  families : List Family := []
deriving DecidableEq

namespace Config

/- The configuration that sets nothing. -/
def empty : Config :=
  {}

/-
  Lay a configuration over another. Breakpoints are replaced
  as a whole, if there are any. The other maps are merged and
  families are appended.
-/
def overlay
    (a b : Config) : Config where
  breakpoints :=
    if b.breakpoints.isEmpty then a.breakpoints else b.breakpoints
  selectors := a.selectors.extend b.selectors
  scales :=
    a.scales.mergeWith
      (fun old scale => (old.getD ∅).extend scale) b.scales
  utilities := a.utilities.mergeWith Utility.overlayOn b.utilities
  overrides := a.overrides.extend b.overrides
  families := a.families ++ b.families

end Config

end AtomicCss
