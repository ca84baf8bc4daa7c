import AtomicCss.Batch.Run
import AtomicCss.Sheet
import AtomicCss.Signal

/-
  This file defines sessions: the state of a compiler between
  calls.

  A session compiles into partitions, which are the main one
  and any number of scopes. Each has a sheet and a store of
  its own. Calls made before the start are kept and run at
  the start.

  Key definitions include:
    * `Partition`
    * `Call`
    * `Appended`
    * `Event`
    * `Phase`
    * `Session`
    * `Session.partition?`
    * `Session.setPartition`
    * `Reply`
    * `Reply.andThen`
-/

namespace AtomicCss

------------------------------------------------------------
-- Parts
------------------------------------------------------------

/- A sheet with the store of the rules that it received. -/
structure Partition where
  sheet : Sheet := ∅
  store : RuleStore := .empty
deriving DecidableEq

/- The partition with its sheet and its store emptied. -/
def Partition.reset
    (p : Partition) : Partition where
  sheet := p.sheet.clear
  store := p.store.clear

/- A request to compile tokens, into a scope or the main partition. -/
structure Call where
  tokens : List String
  scope : Option Nat
deriving DecidableEq

/- New text that a sheet received. -/
structure Appended where
  breakpoint : String
  css : String
  scope : Option Nat
deriving DecidableEq

/- What the listeners of a session learn. -/
inductive Event where
  | initialized (ready : Bool)
  | appended (a : Appended)
deriving DecidableEq

/- How far a session has come. -/
inductive Phase where
  /- It has not been started. -/
  | waiting
  /- It was started to do nothing. -/
  | disabled
  /- It compiles. -/
  | ready (env : Environment)

------------------------------------------------------------
-- Sessions
------------------------------------------------------------

/-
  The state of a compiler. `pending` holds the calls to run
  at the start, in order. Scopes are numbered from zero on and
  `nextScope` is the first number that was never used. A run
  is taken to open fewer than 2 ^ 32 scopes, so that numbers
  of 32 bits are enough.
-/
structure Session where
  phase : Phase := .waiting
  main : Option Partition := none
  scopes : OrderedMap Nat Partition := ∅
  nextScope : Nat := 0
  pending : List Call := []
  initialized : Signal Bool := {}
  appended : Signal Appended := {}

namespace Session

/- The session before its start. -/
def new : Session :=
  {}

/- The partition of a scope, or the main one. -/
def partition?
    (s : Session) : Option Nat → Option Partition
  | none => s.main
  | some id => s.scopes.get? id

/- Replace the partition of a scope, or the main one. -/
def setPartition
    (s : Session)
    (p : Partition) : Option Nat → Session
  | none => { s with main := some p }
  | some id => { s with scopes := s.scopes.insert id p }

/- What tokens are compiled against, if the session compiles. -/
def environment?
    (s : Session) : Option Environment :=
  match s.phase with
  | .ready env => some env
  | _ => none

/- Whether a session compiles. -/
def isReady
    (s : Session) : Bool :=
  s.environment?.isSome

/- Whether a session was not started to do nothing. -/
def isEnabled
    (s : Session) : Bool :=
  match s.phase with
  | .disabled => false
  | _ => true

/- Add a listener for the end of a start. -/
def onInitialized
    (s : Session) : Session :=
  { s with initialized := s.initialized.subscribe }

/- Add a listener for new text. -/
def onAppended
    (s : Session) : Session :=
  { s with appended := s.appended.subscribe }

end Session

------------------------------------------------------------
-- Replies
------------------------------------------------------------

/-
  What an operation answers: the session after it, its result
  and the events that it caused, in order.
-/
structure Reply (α : Type) where
  session : Session
  result : Except Error α
  events : List Event

namespace Reply

variable {α β : Type}

/- A result without events. -/
def done
    (s : Session)
    (a : α) : Reply α :=
  ⟨s, .ok a, []⟩

/- A failure without events. -/
def failed
    (s : Session)
    (e : Error) : Reply α :=
  ⟨s, .error e, []⟩

/- Go on with another operation, unless this one failed. -/
def andThen
    (r : Reply α)
    (next : Session → α → Reply β) : Reply β :=
  match r.result with
  | .error e => ⟨r.session, .error e, r.events⟩
  | .ok a =>
      let r' := next r.session a
      ⟨r'.session, r'.result, r.events ++ r'.events⟩

end Reply

end AtomicCss
