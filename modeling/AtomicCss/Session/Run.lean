import AtomicCss.Markup
import AtomicCss.Session.Basic
import AtomicCss.Session.Setup

/-
  This file defines the operations of sessions.

  Key definitions include:
    * `Sheet.appendAll`
    * `Session.deliver`
    * `Session.run`
    * `Session.runAll`
    * `Session.activate`
    * `Session.start`
    * `Session.compile`
    * `Session.compileMarkup`
    * `Session.createScope`
    * `Session.dropScope`
-/

namespace AtomicCss

------------------------------------------------------------
-- Delivering text
------------------------------------------------------------

/- Append text for the breakpoint of a name, if there is one. -/
def Sheet.appendNamed
    (cascade : Cascade)
    (sheet : Sheet)
    (name css : String) : Sheet :=
  match cascade.get? name with
  | some b => sheet.append b css
  | none => sheet

/- Append chunks to a sheet, in order. -/
def Sheet.appendAll
    (cascade : Cascade)
    (sheet : Sheet)
    (chunks : List Chunk) : Sheet :=
  chunks.foldl
    (fun sheet c => sheet.appendNamed cascade c.breakpoint.name c.css)
    sheet

/- What listeners learn of a chunk. -/
def Chunk.notice
    (scope : Option Nat)
    (c : Chunk) : Appended :=
  ⟨c.breakpoint.name, c.css, scope⟩

namespace Session

/- Put the outcome of a batch into a partition and announce it. -/
def deliver
    (s : Session)
    (cascade : Cascade)
    (scope : Option Nat)
    (p : Partition)
    (outcome : Outcome)
    (store : RuleStore) : Reply Outcome :=
  let notices := outcome.emitted.map (Chunk.notice scope)
  let received : Partition :=
    { sheet := p.sheet.appendAll cascade outcome.emitted
      store := store }
  let s := s.setPartition received scope
  { session := { s with appended := notices.foldl Signal.set s.appended }
    result := .ok outcome
    events := notices.map .appended }

------------------------------------------------------------
-- Running calls
------------------------------------------------------------

/-
  Compile tokens into a partition. Without that partition, or
  if the session does not compile, nothing happens.
-/
def run
    (s : Session)
    (call : Call) : Reply Outcome :=
  match s.phase with
  | .ready env =>
      match s.partition? call.scope with
      | none => .done s {}
      | some p =>
          match env.run p.store call.scope.isSome call.tokens with
          | .error e => .failed s e
          | .ok (outcome, store) =>
              s.deliver env.cascade call.scope p outcome store
  | _ => .done s {}

/- Run calls in order. -/
def runAll
    (s : Session) : List Call → Reply Unit
  | [] => .done s ()
  | call :: calls =>
      (s.run call).andThen (fun s _ => s.runAll calls)

------------------------------------------------------------
-- Starting
------------------------------------------------------------

/- Begin to compile. All partitions are emptied. -/
def activate
    (s : Session)
    (env : Environment)
    (target : Sheet) : Session :=
  { s with
    phase := .ready env
    main := some { sheet := target }
    scopes := s.scopes.mapValues Partition.reset }

/- The calls that compile a whitelist. -/
def whitelistCalls
    (whitelist : List String) : List Call :=
  if whitelist.isEmpty then [] else [⟨whitelist, none⟩]

/- Run the calls that were waiting for the start. -/
def flush
    (s : Session) : Reply Unit :=
  { s with pending := [] }.runAll s.pending

/- Announce the end of a start. -/
def announce
    (s : Session) : Reply Unit :=
  { session := { s with initialized := s.initialized.set true }
    result := .ok ()
    events := [.initialized true] }

/-
  Start a session, also again. A disabled one drops the calls
  that were waiting. Otherwise the configuration is built, and
  only if that succeeds does anything change: the partitions
  are emptied, then the whitelist and the waiting calls are
  compiled.
-/
def start
    (s : Session)
    (o : Setup) : Reply Unit :=
  if o.enabled then
    match o.environment? with
    | .error e => .failed s e
    | .ok env =>
        (((s.activate env o.target).runAll
          (whitelistCalls o.whitelist)).andThen
            (fun s _ => s.flush)).andThen
              (fun s _ => s.announce)
  else
    .done { s with phase := .disabled, pending := [] } ()

------------------------------------------------------------
-- Compiling
------------------------------------------------------------

/-
  Compile tokens into a scope or the main partition. Before
  the start the call is kept for later.
-/
def compile
    (s : Session)
    (tokens : List String)
    (scope : Option Nat) : Reply Outcome :=
  match s.phase with
  | .waiting =>
      .done { s with pending := s.pending ++ [⟨tokens, scope⟩] } {}
  | .disabled => .done s {}
  | .ready _ => s.run ⟨tokens, scope⟩

/- Compile the words of a text. -/
def compileText
    (s : Session)
    (text : String)
    (scope : Option Nat) : Reply Outcome :=
  s.compile (Text.wordsOf text) scope

/- Compile the class attributes of markup. -/
def compileMarkup
    (s : Session)
    (markup : String)
    (scope : Option Nat) : Reply Outcome :=
  s.compile (Markup.tokens markup) scope

------------------------------------------------------------
-- Scopes
------------------------------------------------------------

/- Open a scope with a sheet; the result is its number. -/
def createScope
    (s : Session)
    (target : Sheet) : Reply Nat :=
  .done
    { s with
      scopes := s.scopes.insert s.nextScope { sheet := target }
      nextScope := s.nextScope + 1 }
    s.nextScope

/- Close a scope; the result is its sheet, if there was one. -/
def dropScope
    (s : Session)
    (id : Nat) : Reply (Option Sheet) :=
  .done
    { s with scopes := s.scopes.erase id }
    ((s.scopes.get? id).map Partition.sheet)

/- The sheet of a scope or of the main partition. -/
def sheet?
    (s : Session)
    (scope : Option Nat) : Option Sheet :=
  (s.partition? scope).map Partition.sheet

/- How a scope is displayed. -/
def scopeName
    (id : Nat) : String :=
  "scope#" ++ toString id

end Session

end AtomicCss
