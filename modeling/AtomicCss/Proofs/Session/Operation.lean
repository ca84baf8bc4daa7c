import AtomicCss.Proofs.Session.Running

/-
  This file defines the operations of a session as data, and
  what a sequence of them does. It proves how each operation
  depends on the phase of the session.

  Key definitions include:
    * `Setup.opens?`
    * `Operation`
    * `Operation.call?`
    * `Session.perform`
    * `Session.performAll`

  The main statements are:
    * `Operation.cases_call`
    * `Session.start_of_opens?`
    * `Session.start_runs`
    * `Session.start_of_error`
    * `Session.perform_of_call?`
    * `Session.compile_of_not_waiting`
    * `Session.perform_call_cases`
-/

namespace AtomicCss

------------------------------------------------------------
-- Operations
------------------------------------------------------------

/- What a session can be asked to do. -/
inductive Operation where
  | start (o : Setup)
  | compile (tokens : List String) (scope : Option Nat)
  | compileText (text : String) (scope : Option Nat)
  | compileMarkup (markup : String) (scope : Option Nat)
  | createScope (target : Sheet)
  | dropScope (id : Nat)

/- What an operation results in. -/
inductive Answer where
  | started
  | compiled (o : Outcome)
  | created (id : Nat)
  | dropped (sheet : Option Sheet)
deriving DecidableEq

namespace Operation

/- The call that an operation makes, if it is one that compiles. -/
def call? : Operation → Option Call
  | .compile tokens scope => some ⟨tokens, scope⟩
  | .compileText text scope => some ⟨Text.wordsOf text, scope⟩
  | .compileMarkup markup scope => some ⟨Markup.tokens markup, scope⟩
  | _ => none

/- Whether an operation opens or closes a scope. -/
def isScoping : Operation → Bool
  | .createScope _ => true
  | .dropScope _ => true
  | _ => false

/- Whether all the sheets that an operation brings are empty. -/
def BringsEmpty : Operation → Prop
  | .start o => o.target = ∅
  | .createScope target => target = ∅
  | _ => True

instance : DecidablePred BringsEmpty
  | .start o => inferInstanceAs (Decidable (o.target = ∅))
  | .createScope target => inferInstanceAs (Decidable (target = ∅))
  | .compile _ _ => .isTrue trivial
  | .compileText _ _ => .isTrue trivial
  | .compileMarkup _ _ => .isTrue trivial
  | .dropScope _ => .isTrue trivial

/- Operations case by case, where all that compile are one case. -/
@[elab_as_elim]
theorem cases_call
    {motive : Operation → Prop}
    (start : ∀ o, motive (.start o))
    (compiling : ∀ op call, op.call? = some call → motive op)
    (createScope : ∀ target, motive (.createScope target))
    (dropScope : ∀ id, motive (.dropScope id))
    (op : Operation) :
    motive op := by
  cases op with
  | start o => exact start o
  | compile tokens scope => exact compiling _ _ rfl
  | compileText text scope => exact compiling _ _ rfl
  | compileMarkup markup scope => exact compiling _ _ rfl
  | createScope target => exact createScope target
  | dropScope id => exact dropScope id

/- An operation that opens or closes a scope compiles nothing. -/
theorem call?_of_isScoping
    {op : Operation}
    (hScoping : op.isScoping = true) :
    op.call? = none := by
  cases op with
  | createScope target => rfl
  | dropScope id => rfl
  | _ => cases hScoping

end Operation

/- The same reply with another result. -/
def Reply.map
    {α β : Type}
    (f : α → β)
    (r : Reply α) : Reply β where
  session := r.session
  result := r.result.map f
  events := r.events

namespace Session

/- Do what an operation asks for. -/
def perform
    (s : Session) : Operation → Reply Answer
  | .start o => (s.start o).map (fun _ => .started)
  | .compile tokens scope =>
      (s.compile tokens scope).map .compiled
  | .compileText text scope =>
      (s.compileText text scope).map .compiled
  | .compileMarkup markup scope =>
      (s.compileMarkup markup scope).map .compiled
  | .createScope target => (s.createScope target).map .created
  | .dropScope id => (s.dropScope id).map .dropped

/-
  The session after operations, and all of their events. An
  operation that fails does not keep the others from being
  performed.
-/
def performAll
    (s : Session) : List Operation → Session × List Event
  | [] => (s, [])
  | op :: ops =>
      let r := s.perform op
      let rest := r.session.performAll ops
      (rest.1, r.events ++ rest.2)

theorem performAll_append
    (s : Session)
    (xs ys : List Operation) :
    s.performAll (xs ++ ys) =
      (((s.performAll xs).1.performAll ys).1,
        (s.performAll xs).2 ++
          ((s.performAll xs).1.performAll ys).2) := by
  induction xs generalizing s with
  | nil => rfl
  | cons op ops ih =>
      rw [List.cons_append, performAll, performAll, ih]
      simp only [List.append_assoc]

end Session

------------------------------------------------------------
-- Starting
------------------------------------------------------------

namespace Setup

/- What is compiled against after a start, if it succeeds. -/
def opens?
    (o : Setup) : Option Environment :=
  if o.enabled then o.environment?.toOption else none

/- Whether a start fails. -/
def Fails
    (o : Setup) : Prop :=
  o.enabled = true ∧ ∃ e, o.environment? = .error e

/- A small setup, with one utility for two colors. -/
def swatches : Setup where
  builtin := false
  config := some {
    breakpoints := .ofList [("sm", 576), ("md", 768)]
    utilities := .ofList [("color", {
      values := .ofList
        [("red", .ofList [("color", "red")]),
          ("blue", .ofList [("color", "blue")])] })] }

theorem opens?_eq_some_iff
    (o : Setup)
    (env : Environment) :
    o.opens? = some env ↔
      o.enabled = true ∧ o.environment? = .ok env := by
  unfold opens?
  cases o.enabled <;> cases o.environment? <;>
    simp [Except.toOption]

/- A setup opens a session, fails, or disables it. -/
theorem cases
    (o : Setup) :
    (∃ env, o.opens? = some env) ∨
      (o.opens? = none ∧ o.Fails) ∨
      (o.opens? = none ∧ o.enabled = false) := by
  unfold opens? Fails
  cases o.enabled with
  | false => exact Or.inr (Or.inr ⟨rfl, rfl⟩)
  | true =>
      cases o.environment? with
      | error e => exact Or.inr (Or.inl ⟨rfl, rfl, e, rfl⟩)
      | ok env => exact Or.inl ⟨env, rfl⟩

end Setup

namespace Session

variable (s : Session)

/- The whitelist of a start is compiled before any other token. -/
def listed
    (env : Environment)
    (o : Setup) : Reply Unit :=
  (s.activate env o.target).runAll (whitelistCalls o.whitelist)

theorem phase_listed_ne_waiting
    (env : Environment)
    (o : Setup) :
    (s.listed env o).session.phase ≠ .waiting := by
  rw [listed, phase_runAll]
  exact Phase.noConfusion

/-
  A start that succeeds runs the whitelist, then the calls that
  were waiting, and then announces that it is over.
-/
theorem start_of_opens?
    {o : Setup}
    {env : Environment}
    (hOpens : o.opens? = some env) :
    let flushed := (s.listed env o).session.runAll s.pending
    s.start o =
      { session :=
          flushed.session.besides [] (s.initialized.set true)
        result := .ok ()
        events :=
          (s.listed env o).events ++ flushed.events ++
            [.initialized true] } := by
  intro flushed
  rcases (o.opens?_eq_some_iff env).1 hOpens with ⟨hEnabled, hEnv⟩
  have hPending : (s.listed env o).session.pending = s.pending :=
    pending_runAll _ _
  have hInitialized :
      (s.listed env o).session.initialized = s.initialized :=
    initialized_runAll _ _
  have hFlushed :
      ((s.listed env o).session.besides []
          (s.listed env o).session.initialized).runAll s.pending =
        { flushed with
          session :=
            flushed.session.besides []
              (s.listed env o).session.initialized } :=
    runAll_besides _ _ _ _
  rw [start, if_pos hEnabled, hEnv]
  simp only [Reply.andThen, result_runAll, flush, announce]
  let finish : Reply Unit → Reply Unit := fun r =>
    { session :=
        { r.session with
          initialized := r.session.initialized.set true }
      result := .ok ()
      events :=
        (s.listed env o).events ++ r.events ++
          [.initialized true] }
  change finish
    (((s.listed env o).session.besides []
      (s.listed env o).session.initialized).runAll
        (s.listed env o).session.pending) = _
  rw [hPending, hFlushed, hInitialized]
  rfl

/- So it runs all of them in a row, in a session made empty. -/
theorem start_runs
    {o : Setup}
    {env : Environment}
    (hOpens : o.opens? = some env) :
    let ran :=
      (s.activate env o.target).runAll
        (whitelistCalls o.whitelist ++ s.pending)
    s.start o =
      { session := ran.session.besides [] (s.initialized.set true)
        result := .ok ()
        events := ran.events ++ [.initialized true] } := by
  intro ran
  rw [s.start_of_opens? hOpens]
  dsimp only [ran, listed]
  rw [runAll_append]

/- A start empties the partitions, but it drops no scope. -/
theorem partition?_activate
    (env : Environment)
    (target : Sheet)
    (id : Nat) :
    (s.activate env target).partition? (some id) =
      (s.scopes.get? id).map Partition.reset :=
  OrderedMap.get?_mapValues _ _ _

/- After a start the calls are served whose scope is there. -/
theorem serves_activate
    (env : Environment)
    (target : Sheet)
    (call : Call) :
    (s.activate env target).serves call =
      call.scope.all s.scopes.contains := by
  unfold serves
  cases call.scope with
  | none => rfl
  | some id =>
      rw [partition?_activate, Option.isSome_map]
      rfl

/- A start that fails changes nothing. -/
theorem start_of_error
    {o : Setup}
    {e : Error}
    (hEnabled : o.enabled = true)
    (hEnv : o.environment? = .error e) :
    s.start o = .failed s e := by
  rw [start, if_pos hEnabled, hEnv]

theorem perform_of_fails
    {o : Setup}
    (hFails : o.Fails) :
    ∃ e, s.perform (.start o) = .failed s e := by
  rcases hFails with ⟨hEnabled, e, hEnv⟩
  refine ⟨e, ?_⟩
  rw [perform, s.start_of_error hEnabled hEnv]
  rfl

theorem start_of_disabled
    {o : Setup}
    (hDisabled : o.enabled = false) :
    s.start o =
      .done { s with phase := .disabled, pending := [] } () := by
  rw [start, if_neg (by simp [hDisabled])]

------------------------------------------------------------
-- Compiling
------------------------------------------------------------

/- All operations that compile do so alike. -/
theorem perform_of_call?
    {op : Operation}
    {call : Call}
    (hCall : op.call? = some call) :
    s.perform op =
      (s.compile call.tokens call.scope).map .compiled := by
  cases op <;> cases hCall <;> rfl

theorem compile_of_waiting
    (hPhase : s.phase = .waiting)
    (call : Call) :
    s.compile call.tokens call.scope =
      .done { s with pending := s.pending ++ [call] } {} := by
  rw [compile, hPhase]

/- A session that waits serves no call. -/
theorem serves_of_waiting
    (hPhase : s.phase = .waiting)
    (call : Call) :
    s.serves call = false := by
  rw [serves, isReady, environment?, hPhase]
  rfl

/- A session that compiles does not wait. -/
theorem phase_ne_waiting_of_environment?
    {env : Environment}
    (hEnv : s.environment? = some env) :
    s.phase ≠ .waiting := by
  intro hWaiting
  rw [environment?, hWaiting] at hEnv
  cases hEnv

/- Unless it waits for its start, a session runs a call at once. -/
theorem compile_of_not_waiting
    (hPhase : s.phase ≠ .waiting)
    (call : Call) :
    s.compile call.tokens call.scope = s.run call := by
  unfold compile
  cases h : s.phase with
  | waiting => exact absurd h hPhase
  | disabled =>
      refine (s.run_of_serves_eq_false call ?_).symm
      rw [serves, isReady, environment?, h]
      rfl
  | ready env => rfl

/-
  An operation that compiles is served, or at most kept for the
  start.
-/
theorem perform_call_cases
    {op : Operation}
    {call : Call}
    (hCall : op.call? = some call) :
    (s.serves call = false ∧
      ∃ pending,
        s.perform op =
          .done { s with pending := pending } (.compiled {})) ∨
      ∃ env p,
        s.environment? = some env ∧
        s.partition? call.scope = some p ∧
        s.serves call = true ∧
        s.perform op = (s.run call).map .compiled := by
  have hPerform := s.perform_of_call? hCall
  by_cases hPhase : s.phase = .waiting
  · rw [s.compile_of_waiting hPhase] at hPerform
    exact Or.inl ⟨s.serves_of_waiting hPhase call, _, hPerform⟩
  · rw [s.compile_of_not_waiting hPhase] at hPerform
    rcases s.run_cases call with
      ⟨hServes, hRun⟩ | ⟨env, p, hEnv, hPartition, hServes, _⟩
    · rw [hRun] at hPerform
      exact Or.inl ⟨hServes, s.pending, hPerform⟩
    · exact Or.inr
        ⟨env, p, hEnv, hPartition, hServes, hPerform⟩

/-
  An operation that compiles never fails, and announces just
  the text that it answers.
-/
theorem perform_announces
    {op : Operation}
    {call : Call}
    (hCall : op.call? = some call) :
    ∃ outcome,
      (s.perform op).result = .ok (.compiled outcome) ∧
      (s.perform op).events =
        outcome.emitted.map
          (fun c => .appended (c.notice call.scope)) := by
  rw [s.perform_of_call? hCall]
  by_cases hPhase : s.phase = .waiting
  · rw [s.compile_of_waiting hPhase]
    exact ⟨{}, rfl, rfl⟩
  · rw [s.compile_of_not_waiting hPhase]
    rcases s.run_announces call with ⟨outcome, hResult, hEvents⟩
    refine ⟨outcome, ?_, hEvents⟩
    rw [Reply.map, hResult]
    rfl

end Session

end AtomicCss
