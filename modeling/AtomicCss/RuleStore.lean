import AtomicCss.Declarations.Basic
import AtomicCss.Error

/-
  This file defines the store of rules. It remembers every
  rule that was ever stored, and it gathers those of the
  current pass by breakpoint and selector.

  Key definitions include:
    * `Fingerprint`
    * `Working`
    * `RuleStore`
    * `RuleStore.beginPass`
    * `RuleStore.insert`
    * `RuleStore.clear`
-/

namespace AtomicCss

------------------------------------------------------------
-- Stores
------------------------------------------------------------

/- What a rule is recognized by. -/
structure Fingerprint where
  breakpoint : String
  selector : String
  text : String
deriving DecidableEq

/- The rules of a pass, by breakpoint and then by selector. -/
abbrev Working :=
  OrderedMap String (OrderedMap String Declarations)

/- The rules seen so far and those of the current pass. -/
structure RuleStore where
  seen : OrderedSet Fingerprint := ∅
  working : Working := ∅
deriving DecidableEq

namespace RuleStore

/- The store that has seen nothing. -/
def empty : RuleStore :=
  {}

/- Forget the rules of the last pass, but not that they were seen. -/
def beginPass
    (s : RuleStore) : RuleStore :=
  { s with working := ∅ }

/- Forget everything. -/
def clear
    (_ : RuleStore) : RuleStore :=
  empty

/- The fingerprint of a rule. -/
def fingerprint
    (breakpoint selector : String)
    (d : Declarations) : Fingerprint :=
  ⟨breakpoint, selector, d.text⟩

/- Declarations laid over those of the same rule, if any. -/
def gather
    (w : Working)
    (breakpoint selector : String)
    (d : Declarations) : Working :=
  w.upsert breakpoint (fun rules =>
    (rules.getD ∅).upsert selector (fun old =>
      (old.getD .empty).overlay d))

/-
  Store a rule, which has to declare something. The answer
  tells whether the rule is new; a rule that was seen before
  changes nothing.
-/
def insert
    (s : RuleStore)
    (breakpoint selector : String)
    (d : Declarations) : Except Error (Bool × RuleStore) :=
  if d.isEmpty then
    .error (.emptyDeclarations breakpoint selector)
  else
    let f := fingerprint breakpoint selector d
    if s.seen.contains f then
      .ok (false, s)
    else
      .ok (true,
        { seen := s.seen.insert f ()
          working := gather s.working breakpoint selector d })

end RuleStore

end AtomicCss
