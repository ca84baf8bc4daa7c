import AtomicCss.Proofs.Session.Numbering
import AtomicCss.Proofs.Session.Queue

/-
  This file proves that a start forgets everything that
  happened before it, but for the scopes, their numbering and
  the calls that wait.

  What the signals were set to has no effect on a session, so
  sessions are compared without it. A session that was started
  before is compared to its blank counterpart, which has the
  same scopes and the same waiting calls but was never
  started. A new session reaches that counterpart by opening
  scopes, closing some of them and compiling.

  Key definitions include:
    * `Session.hush`
    * `Session.attended`
    * `Session.blank`
    * `Session.scoping`
    * `Session.preparation`

  The main statements are:
    * `Session.perform_of_hush_eq`
    * `Session.performAll_of_hush_eq`
    * `Session.hush_start_blank`
    * `Session.performAll_preparation`
    * `Session.restart_forgets_history`
-/

namespace AtomicCss

------------------------------------------------------------
-- Signals
------------------------------------------------------------

/- The signal with its listeners, but never set. -/
def Signal.unset
    {α : Type}
    (s : Signal α) : Signal α :=
  { listeners := s.listeners }

theorem Signal.unset_foldl_set
    {α : Type}
    (s : Signal α)
    (values : List α) :
    (values.foldl Signal.set s).unset = s.unset := by
  induction values generalizing s with
  | nil => rfl
  | cons value values ih => exact ih (s.set value)

namespace Session

/- The session, but its signals were never set. -/
def hush
    (s : Session) : Session :=
  { s with
    initialized := s.initialized.unset
    appended := s.appended.unset }

/- A new session, with the listeners that signals have. -/
def attended
    (initialized : Signal Bool)
    (appended : Signal Appended) : Session :=
  { initialized := initialized, appended := appended }

end Session

/- The same reply, but the signals were never set. -/
def Reply.hush
    {α : Type}
    (r : Reply α) : Reply α :=
  { r with session := r.session.hush }

namespace Session

variable {s t : Session}

/- Signals are no part of what a session compiles into. -/
theorem partition?_of_hush_eq
    (h : s.hush = t.hush)
    (scope : Option Nat) :
    s.partition? scope = t.partition? scope :=
  partition?_of_fields (congrArg (fun r => r.main) h)
    (congrArg (fun r => r.scopes) h) scope

theorem environment?_of_hush_eq
    (h : s.hush = t.hush) :
    s.environment? = t.environment? :=
  congrArg (fun r => r.environment?) h

------------------------------------------------------------
-- Calls
------------------------------------------------------------

/- A delivery sets a signal, but is not affected by it. -/
theorem hush_deliver
    (s : Session)
    (cascade : Cascade)
    (scope : Option Nat)
    (p : Partition)
    (outcome : Outcome)
    (store : RuleStore) :
    (s.deliver cascade scope p outcome store).hush =
      { session :=
          s.hush.setPartition
            { sheet := p.sheet.appendAll cascade outcome.emitted
              store := store } scope
        result := .ok outcome
        events :=
          (outcome.emitted.map (Chunk.notice scope)).map
            .appended } := by
  have hUnset :=
    s.appended.unset_foldl_set
      (outcome.emitted.map (Chunk.notice scope))
  cases scope <;>
    simp only [deliver, Reply.hush, hush, setPartition, hUnset]

theorem run_of_hush_eq
    (h : s.hush = t.hush)
    (call : Call) :
    (s.run call).hush = (t.run call).hush := by
  have hEnv := environment?_of_hush_eq h
  have hPartition := partition?_of_hush_eq h call.scope
  rcases s.run_cases call with
    ⟨hServes, hRun⟩ | ⟨env, p, hEnv', hPartition', _, hRun⟩
  · rw [serves_congr hEnv hPartition] at hServes
    rw [hRun, t.run_of_serves_eq_false call hServes]
    exact congrArg (fun r => Reply.done r ({} : Outcome)) h
  · rw [hRun, t.run_of_partition? call (hEnv.symm.trans hEnv')
      (hPartition.symm.trans hPartition'), hush_deliver,
      hush_deliver, h]

theorem runAll_of_hush_eq
    (h : s.hush = t.hush)
    (calls : List Call) :
    (s.runAll calls).hush = (t.runAll calls).hush := by
  induction calls generalizing s t with
  | nil => exact congrArg (fun r => Reply.done r ()) h
  | cons call calls ih =>
      have hFirst := run_of_hush_eq h call
      have hEvents : (s.run call).events = (t.run call).events :=
        congrArg (fun r => r.events) hFirst
      have hRest := ih (congrArg (fun r => r.session) hFirst)
      rw [runAll_cons, runAll_cons, hEvents]
      exact congrArg
        (fun r =>
          { r with events := (t.run call).events ++ r.events })
        hRest

------------------------------------------------------------
-- Operations
------------------------------------------------------------

/-
  A start that opens depends on what the session is once it is
  emptied, and on the calls that wait, but not on the signals.
-/
theorem start_of_hush_activate_eq
    {o : Setup}
    {env : Environment}
    (hOpens : o.opens? = some env)
    (hActive :
      (s.activate env o.target).hush =
        (t.activate env o.target).hush) :
    (s.start o).hush = (t.start o).hush := by
  have hPending : s.pending = t.pending :=
    congrArg (fun r => r.pending) hActive
  have hUnset : s.initialized.unset = t.initialized.unset :=
    congrArg (fun r => r.initialized) hActive
  have hRan :=
    runAll_of_hush_eq hActive
      (whitelistCalls o.whitelist ++ s.pending)
  have hFinished :
      ∀ (r : Reply Unit) (a : Signal Bool),
        Reply.hush
            { session := r.session.besides [] (a.set true)
              result := Except.ok ()
              events := r.events ++ [.initialized true] } =
          { session := r.hush.session.besides [] a.unset
            result := .ok ()
            events := r.hush.events ++ [.initialized true] } :=
    fun _ _ => rfl
  rw [s.start_runs hOpens, t.start_runs hOpens, ← hPending,
    hFinished, hFinished, hRan, hUnset]

theorem start_of_hush_eq
    (h : s.hush = t.hush)
    (o : Setup) :
    (s.start o).hush = (t.start o).hush := by
  rcases o.cases with
    ⟨env, hOpens⟩ | ⟨_, hEnabled, e, hEnv⟩ | ⟨_, hDisabled⟩
  · exact start_of_hush_activate_eq hOpens
      (congrArg (fun r => r.activate env o.target) h)
  · rw [s.start_of_error hEnabled hEnv,
      t.start_of_error hEnabled hEnv]
    exact congrArg (fun r => Reply.failed r e) h
  · rw [s.start_of_disabled hDisabled,
      t.start_of_disabled hDisabled]
    exact congrArg
      (fun r =>
        Reply.done { r with phase := .disabled, pending := [] } ())
      h

theorem perform_call_of_hush_eq
    (h : s.hush = t.hush)
    {op : Operation}
    {call : Call}
    (hCall : op.call? = some call) :
    (s.perform op).hush = (t.perform op).hush := by
  have hPhase : s.phase = t.phase :=
    congrArg (fun r => r.phase) h
  rw [s.perform_of_call? hCall, t.perform_of_call? hCall]
  by_cases hWaiting : s.phase = .waiting
  · rw [s.compile_of_waiting hWaiting,
      t.compile_of_waiting (hPhase.symm.trans hWaiting)]
    exact congrArg
      (fun r =>
        (Reply.done { r with pending := r.pending ++ [call] }
          {}).map Answer.compiled) h
  · rw [s.compile_of_not_waiting hWaiting,
      t.compile_of_not_waiting (hPhase ▸ hWaiting)]
    exact congrArg (Reply.map Answer.compiled)
      (run_of_hush_eq h call)

/- What an operation does has nothing to do with the signals. -/
theorem perform_of_hush_eq
    (h : s.hush = t.hush)
    (op : Operation) :
    (s.perform op).hush = (t.perform op).hush := by
  cases op using Operation.cases_call with
  | start o =>
      exact congrArg (Reply.map (fun _ => Answer.started))
        (start_of_hush_eq h o)
  | compiling op call hCall =>
      exact perform_call_of_hush_eq h hCall
  | createScope target =>
      exact congrArg
        (fun r => r.perform (.createScope target)) h
  | dropScope id =>
      exact congrArg (fun r => r.perform (.dropScope id)) h

theorem performAll_of_hush_eq
    (h : s.hush = t.hush)
    (ops : List Operation) :
    (s.performAll ops).1.hush = (t.performAll ops).1.hush ∧
      (s.performAll ops).2 = (t.performAll ops).2 := by
  induction ops generalizing s t with
  | nil => exact ⟨h, rfl⟩
  | cons op ops ih =>
      have hFirst := perform_of_hush_eq h op
      have hEvents :
          (s.perform op).events = (t.perform op).events :=
        congrArg (fun r => r.events) hFirst
      rcases ih (congrArg (fun r => r.session) hFirst) with
        ⟨hRest, hRestEvents⟩
      rw [performAll, performAll]
      dsimp only
      rw [hEvents, hRestEvents]
      exact ⟨hRest, rfl⟩

------------------------------------------------------------
-- Blank sessions
------------------------------------------------------------

/-
  The session that was never started, but has the same scopes,
  with empty sheets, and the same waiting calls and listeners.
-/
def blank
    (s : Session) : Session where
  scopes := s.scopes.mapValues (fun _ => {})
  nextScope := s.nextScope
  pending := s.pending
  initialized := s.initialized.unset
  appended := s.appended.unset

/- To be emptied makes a session and its blank one the same. -/
theorem hush_activate_blank
    (s : Session)
    (env : Environment)
    (target : Sheet) :
    (s.blank.activate env target).hush =
      (s.activate env target).hush := by
  have hScopes :
      (s.scopes.mapValues (fun _ => {})).mapValues
          Partition.reset =
        s.scopes.mapValues Partition.reset := by
    apply OrderedMap.ext
    exact List.map_map
  exact congrArg
    (fun scopes =>
      { s with
        phase := .ready env
        main := some { sheet := target }
        scopes := scopes
        initialized := s.initialized.unset
        appended := s.appended.unset }) hScopes

/- So after a start that opens they are the same. -/
theorem hush_start_blank
    (s : Session)
    {o : Setup}
    {env : Environment}
    (hOpens : o.opens? = some env) :
    (s.blank.start o).hush = (s.start o).hush :=
  start_of_hush_activate_eq hOpens
    (s.hush_activate_blank env o.target)

/- Open a scope, and close it again if it is not live. -/
def opening
    (live : Nat → Bool)
    (id : Nat) : List Operation :=
  if live id then [.createScope ∅]
  else [.createScope ∅, .dropScope id]

/- The operations after which a session has just the same scopes. -/
def scoping
    (s : Session) : List Operation :=
  (List.range s.nextScope).flatMap (opening s.scopes.contains)

/- The operations that make a new session a blank one. -/
def preparation
    (s : Session) : List Operation :=
  s.scoping ++
    s.pending.map (fun call => .compile call.tokens call.scope)

theorem isScoping_of_mem_scoping
    {op : Operation}
    (hOp : op ∈ s.scoping) :
    op.isScoping = true ∧ op.BringsEmpty := by
  rcases List.mem_flatMap.1 hOp with ⟨id, _, hId⟩
  unfold opening at hId
  split at hId
  · cases List.mem_singleton.1 hId
    exact ⟨rfl, rfl⟩
  · rcases List.mem_pair.1 hId with rfl | rfl
    · exact ⟨rfl, rfl⟩
    · exact ⟨rfl, trivial⟩

/- They are operations on scopes, with empty sheets, and calls. -/
theorem isScoping_or_of_mem_preparation
    {op : Operation}
    (hOp : op ∈ s.preparation) :
    (op.isScoping = true ∨ op.call?.isSome = true) ∧
      op.BringsEmpty := by
  rcases List.mem_append.1 hOp with hScoping | hCall
  · rcases isScoping_of_mem_scoping hScoping with
      ⟨hScoping, hEmpty⟩
    exact ⟨Or.inl hScoping, hEmpty⟩
  · rcases List.mem_map.1 hCall with ⟨call, _, rfl⟩
    exact ⟨Or.inr rfl, trivial⟩

theorem filter_isScoping_preparation
    (s : Session) :
    s.preparation.filter Operation.isScoping = s.scoping := by
  rw [preparation, List.filter_append, List.filter_eq_self.2,
    List.filter_eq_nil_iff.2, List.append_nil]
  · intro op hOp
    rcases List.mem_map.1 hOp with ⟨call, _, rfl⟩
    exact Bool.false_ne_true
  · exact fun _ hOp => (isScoping_of_mem_scoping hOp).1

theorem filterMap_call?_preparation
    (s : Session) :
    s.preparation.filterMap Operation.call? = s.pending := by
  rw [preparation, List.filterMap_append,
    List.filterMap_eq_nil_iff.2, List.filterMap_map,
    List.nil_append]
  · exact List.filterMap_some
  · intro op hOp
    exact Operation.call?_of_isScoping
      (isScoping_of_mem_scoping hOp).1

/-
  Scopes that are opened and closed one after another leave
  the live ones, with empty sheets. The induction is on the
  number of scopes; the new one is never among those before.
-/
theorem performAll_opening
    (live : Nat → Bool)
    (a : Signal Bool)
    (b : Signal Appended)
    (n : Nat) :
    ∃ scopes : OrderedMap Nat Partition,
      (attended a b).performAll
          ((List.range n).flatMap (opening live)) =
        ({ attended a b with
            scopes := scopes
            nextScope := n }, []) ∧
      scopes.entries =
        ((List.range n).filter live).map (fun id => (id, {})) := by
  induction n with
  | zero => exact ⟨∅, rfl, rfl⟩
  | succ n ih =>
      rcases ih with ⟨scopes, hPerformed, hEntries⟩
      have hNew : n ∉ scopes.keys := by
        rw [OrderedMap.keys, hEntries, List.map_map]
        intro hMem
        rcases List.mem_map.1 hMem with ⟨id, hId, rfl⟩
        have hRange := (List.mem_filter.1 hId).1
        exact absurd (List.mem_range.1 hRange)
          (Nat.lt_irrefl _)
      rw [List.range_succ, List.flatMap_append,
        performAll_append, hPerformed, List.flatMap_singleton,
        opening, List.filter_append, List.map_append, ← hEntries]
      cases hLive : live n with
      | true =>
          refine ⟨scopes.insert n {}, rfl, ?_⟩
          rw [OrderedMap.entries_insert_of_not_mem hNew,
            List.filter_cons_of_pos hLive]
          rfl
      | false =>
          have hErased :=
            OrderedMap.erase_insert_of_not_mem hNew {}
          refine ⟨scopes, ?_, ?_⟩
          · exact congrArg
              (fun scopes =>
                ({ attended a b with
                    scopes := scopes
                    nextScope := n + 1 }, [])) hErased
          · rw [List.filter_cons_of_neg (by simp [hLive])]
            exact (List.append_nil _).symm

/- A new session becomes the blank one of any that is numbered. -/
theorem performAll_preparation
    (h : s.Numbered) :
    (attended s.initialized.unset s.appended.unset).performAll
        s.preparation =
      (s.blank, []) := by
  rcases performAll_opening s.scopes.contains
    s.initialized.unset s.appended.unset s.nextScope with
      ⟨scopes, hPerformed, hEntries⟩
  have hScopes : scopes = s.scopes.mapValues (fun _ => {}) := by
    apply OrderedMap.ext
    rw [hEntries, h.filter_range]
    exact List.map_map
  have hBefore : ∀ op ∈ s.preparation, op.BeforeOpening := by
    intro op hOp
    cases op with
    | start o =>
        rcases (isScoping_or_of_mem_preparation hOp).1 with h | h
          <;> cases h
    | _ => exact trivial
  rw [performAll_of_waiting _ rfl hBefore,
    filter_isScoping_preparation, filterMap_call?_preparation,
    scoping, hPerformed, hScopes]
  rfl

/-
  A start that succeeds leaves a session that was used before
  as it leaves its blank counterpart, but for what the signals
  were set to. From then on both have the same sheets, and all
  operations answer and announce the same. The counterpart is
  what a new session becomes by opening empty scopes, closing
  some of them and keeping the waiting calls.
-/
theorem restart_forgets_history
    {o : Setup}
    {env : Environment}
    (hEnabled : o.enabled = true)
    (hBuilt : o.environment? = .ok env)
    (initialized : Signal Bool)
    (appended : Signal Appended)
    (ops : List Operation) :
    let s := ((attended initialized appended).performAll ops).1
    let again := s.start o
    let first := s.blank.start o
    (attended s.initialized.unset s.appended.unset).performAll
        s.preparation =
      (s.blank, []) ∧
    (∀ op ∈ s.preparation,
      (op.isScoping = true ∨ op.call?.isSome = true) ∧
        op.BringsEmpty) ∧
    again.result = .ok () ∧
    again.hush = first.hush ∧
    ∀ later : List Operation,
      let x := again.session.performAll later
      let y := first.session.performAll later
      x.1.hush = y.1.hush ∧
      x.2 = y.2 ∧
      (∀ scope, x.1.sheet? scope = y.1.sheet? scope) ∧
      ∀ op, (x.1.perform op).result = (y.1.perform op).result := by
  intro s again first
  have hOpens := (o.opens?_eq_some_iff env).2 ⟨hEnabled, hBuilt⟩
  have hNumbered : s.Numbered :=
    (Numbered.of_isEmpty rfl).performAll ops
  have hSame : again.hush = first.hush :=
    (s.hush_start_blank hOpens).symm
  refine ⟨performAll_preparation hNumbered,
    fun _ => isScoping_or_of_mem_preparation, ?_, hSame, ?_⟩
  · exact congrArg (fun r => r.result) (s.start_runs hOpens)
  · intro later x y
    rcases performAll_of_hush_eq
      (congrArg (fun r => r.session) hSame) later with
        ⟨hLater, hEvents⟩
    refine ⟨hLater, hEvents, ?_, ?_⟩
    · intro scope
      exact congrArg (Option.map Partition.sheet)
        (partition?_of_hush_eq hLater scope)
    · intro op
      exact congrArg (fun r => r.result)
        (perform_of_hush_eq hLater op)

/-
  A session that was started, has compiled, has closed a scope
  and was disabled. After another start the scope that is left
  receives its rule again.
-/
theorem restart_forgets_history_of_swatches :
    let ops : List Operation :=
      [.createScope ∅,
        .createScope ∅,
        .start Setup.swatches,
        .compile ["color=red"] (some 1),
        .dropScope 0,
        .start { enabled := false }]
    let o := Setup.swatches
    let s := (new.performAll ops).1
    let op : Operation := .compile ["color=red"] (some 1)
    o.enabled = true ∧
    (∃ env, o.environment? = .ok env) ∧
    s.isEnabled = false ∧
    s.blank.scopes.keys = [1] ∧
    (s.start o).hush = (s.blank.start o).hush ∧
    ((s.start o).session.perform op).events =
      [.appended ⟨"sm-up", ":host\x7bcolor:red;\x7d", some 1⟩] := by
  intro ops o s op
  have hBuilt : ∃ env, o.environment? = .ok env := ⟨_, rfl⟩
  rcases hBuilt with ⟨env, hEnv⟩
  have hEnabled : o.enabled = true := rfl
  have hSame :=
    (restart_forgets_history hEnabled hEnv {} {} ops).2.2.2.1
  exact ⟨hEnabled, ⟨env, hEnv⟩, by decide, by decide, hSame,
    by decide⟩

end Session

end AtomicCss
