/-
  This file defines signals: a current value with listeners
  that are called whenever it is set.

  Key definitions include:
    * `Signal`
    * `Signal.subscribe`
    * `Signal.set`
    * `Signal.calls`
-/

namespace AtomicCss

/-
  The current value, how often it was set, and the number of
  listeners. Listeners are numbered in the order in which
  they subscribed.
-/
structure Signal (α : Type) where
  current : Option α := none
  version : Nat := 0
  listeners : Nat := 0
deriving DecidableEq

namespace Signal

variable {α : Type}

/- Add a listener. It learns nothing of earlier values. -/
def subscribe
    (s : Signal α) : Signal α :=
  { s with listeners := s.listeners + 1 }

/- Set the value. -/
def set
    (s : Signal α)
    (value : α) : Signal α :=
  { s with current := some value, version := s.version + 1 }

/- The calls that setting a value makes, listener by listener. -/
def calls
    (s : Signal α)
    (value : α) : List (Nat × α) :=
  (List.range s.listeners).map (fun i => (i, value))

end Signal

end AtomicCss
