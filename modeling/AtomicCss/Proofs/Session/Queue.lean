import AtomicCss.Proofs.Session.Operation

/-
  This file proves that calls made before the start of a
  session are neither lost, nor made twice, nor reordered.

  A session that waits for its start only keeps its calls and
  opens and closes scopes. Running calls touches neither the
  waiting calls nor the signal of the start, so the start may
  as well be moved before the calls that it flushes.

  Key definitions include:
    * `Operation.BeforeOpening`
    * `Operation.finds`

  The main statements are:
    * `Session.performAll_of_waiting`
    * `Session.performAll_calls`
    * `Session.start_flushes_waiting_calls`
-/

namespace AtomicCss

namespace Operation

/- Whether an operation does not open a session that waits. -/
def BeforeOpening : Operation → Prop
  | .start o => o.Fails
  | _ => True

/- Whether the scope that a call names, if it names one, is there. -/
def finds
    (s : Session)
    (op : Operation) : Bool :=
  op.call?.all (fun call => call.scope.all s.scopes.contains)

end Operation

namespace Session

variable (s : Session)

------------------------------------------------------------
-- Waiting
------------------------------------------------------------

/- Opening and closing scopes has only to do with scopes. -/
theorem perform_of_isScoping
    {op : Operation}
    (hScoping : op.isScoping = true) :
    (s.perform op).session.phase = s.phase ∧
      (s.perform op).session.pending = s.pending ∧
      (s.perform op).session.initialized = s.initialized ∧
      (s.perform op).events = [] := by
  cases op with
  | createScope target => exact ⟨rfl, rfl, rfl, rfl⟩
  | dropScope id => exact ⟨rfl, rfl, rfl, rfl⟩
  | _ => cases hScoping

theorem performAll_of_isScoping
    {ops : List Operation}
    (hScoping : ∀ op ∈ ops, op.isScoping = true) :
    (s.performAll ops).1.phase = s.phase ∧
      (s.performAll ops).1.pending = s.pending ∧
      (s.performAll ops).1.initialized = s.initialized ∧
      (s.performAll ops).2 = [] := by
  induction ops generalizing s with
  | nil => exact ⟨rfl, rfl, rfl, rfl⟩
  | cons op ops ih =>
      rcases List.forall_mem_cons.1 hScoping with ⟨hFirst, hRest⟩
      rcases s.perform_of_isScoping hFirst with
        ⟨hPhase, hPending, hInitialized, hEvents⟩
      have hTail := ih (s.perform op).session hRest
      rw [hPhase, hPending, hInitialized] at hTail
      refine ⟨hTail.1, hTail.2.1, hTail.2.2.1, ?_⟩
      rw [performAll]
      dsimp only
      rw [hEvents, hTail.2.2.2]
      rfl

/- What becomes of the scopes has nothing to do with the calls. -/
theorem performAll_besides
    {ops : List Operation}
    (hScoping : ∀ op ∈ ops, op.isScoping = true)
    (pending : List Call)
    (initialized : Signal Bool) :
    ((s.besides pending initialized).performAll ops).1 =
      (s.performAll ops).1.besides pending initialized := by
  induction ops generalizing s with
  | nil => rfl
  | cons op ops ih =>
      rcases List.forall_mem_cons.1 hScoping with ⟨hFirst, hRest⟩
      have hMoved :
          ((s.besides pending initialized).perform op).session =
            (s.perform op).session.besides
              pending initialized := by
        cases op with
        | createScope target => rfl
        | dropScope id => rfl
        | _ => cases hFirst
      rw [performAll, performAll]
      dsimp only
      rw [hMoved, ih _ hRest]

/-
  A session that waits keeps its calls in order, on top of what
  becomes of its scopes. The induction is on the operations.
-/
theorem performAll_of_waiting
    (hPhase : s.phase = .waiting)
    {ops : List Operation}
    (hBefore : ∀ op ∈ ops, op.BeforeOpening) :
    s.performAll ops =
      ((s.performAll (ops.filter Operation.isScoping)).1.besides
        (s.pending ++ ops.filterMap Operation.call?)
        s.initialized, []) := by
  induction ops generalizing s with
  | nil =>
      rw [List.filter_nil, List.filterMap_nil, List.append_nil]
      rfl
  | cons op ops ih =>
      rcases List.forall_mem_cons.1 hBefore with ⟨hFirst, hRest⟩
      have hOthers :
          ∀ op ∈ ops.filter Operation.isScoping,
            op.isScoping = true :=
        fun _ hOp => (List.mem_filter.1 hOp).2
      cases hScoping : op.isScoping with
      | true =>
          rcases s.perform_of_isScoping hScoping with
            ⟨hSame, hPending, hInitialized, hEvents⟩
          have hCall := Operation.call?_of_isScoping hScoping
          rw [List.filter_cons_of_pos hScoping,
            List.filterMap_cons_none hCall, performAll, performAll]
          dsimp only
          rw [ih _ (hSame.trans hPhase) hRest, hEvents, hPending,
            hInitialized]
          rfl
      | false =>
          -- The operation is a call or a start that fails.
          rw [List.filter_cons_of_neg (by simp [hScoping])]
          cases hCall : op.call? with
          | some call =>
              have hPerform := s.perform_of_call? hCall
              rw [s.compile_of_waiting hPhase] at hPerform
              have hSession :
                  (s.perform op).session =
                    s.besides (s.pending ++ [call])
                      s.initialized := by
                rw [hPerform]
                rfl
              have hTail := ih (s.perform op).session
                (by rw [hSession]; exact hPhase) hRest
              rw [hSession, s.performAll_besides hOthers] at hTail
              rw [List.filterMap_cons_some hCall, performAll,
                hSession, hTail, hPerform]
              simp only [besides, Reply.map, Reply.done,
                List.append_nil, List.append_assoc,
                List.singleton_append]
          | none =>
              obtain ⟨o, rfl⟩ : ∃ o, op = .start o := by
                cases op with
                | start o => exact ⟨o, rfl⟩
                | createScope target => cases hScoping
                | dropScope id => cases hScoping
                | _ => cases hCall
              rcases s.perform_of_fails hFirst with ⟨e, hPerform⟩
              rw [List.filterMap_cons_none hCall, performAll,
                hPerform]
              exact ih s hPhase hRest

------------------------------------------------------------
-- Calls after the start
------------------------------------------------------------

/- Unless a session waits, it runs its calls one after another. -/
theorem performAll_calls
    (hPhase : s.phase ≠ .waiting)
    {ops : List Operation}
    (hCalls : ∀ op ∈ ops, op.call?.isSome = true) :
    s.performAll ops =
      ((s.runAll (ops.filterMap Operation.call?)).session,
        (s.runAll (ops.filterMap Operation.call?)).events) := by
  induction ops generalizing s with
  | nil => rfl
  | cons op ops ih =>
      rcases List.forall_mem_cons.1 hCalls with ⟨hFirst, hRest⟩
      rcases Option.isSome_iff_exists.1 hFirst with ⟨call, hCall⟩
      have hPerform := s.perform_of_call? hCall
      rw [s.compile_of_not_waiting hPhase] at hPerform
      have hTail := ih (s.run call).session
        (by rw [phase_run]; exact hPhase) hRest
      rw [performAll, hPerform, List.filterMap_cons_some hCall,
        runAll_cons]
      dsimp only [Reply.map]
      rw [hTail]

/- Calls that are not served could as well not be made. -/
theorem performAll_filter
    (hPhase : s.phase ≠ .waiting)
    {ops : List Operation}
    (hCalls : ∀ op ∈ ops, op.call?.isSome = true)
    {keep : Operation → Bool}
    (hKeep :
      ∀ op ∈ ops, ∀ call, op.call? = some call →
        keep op = s.serves call) :
    s.performAll (ops.filter keep) = s.performAll ops := by
  have hFound :
      (ops.filter keep).filterMap Operation.call? =
        (ops.filterMap Operation.call?).filter s.serves := by
    rw [List.filter_filterMap, List.filterMap_filter]
    apply List.filterMap_congr
    intro op hOp
    rcases Option.isSome_iff_exists.1 (hCalls op hOp) with
      ⟨call, hCall⟩
    rw [hKeep op hOp call hCall, hCall, Option.filter_some]
  rw [s.performAll_calls hPhase
      (fun op hOp => hCalls op (List.mem_filter.1 hOp).1),
    s.performAll_calls hPhase hCalls, hFound,
    runAll_filter_serves]

------------------------------------------------------------
-- The start
------------------------------------------------------------

/- A start with waiting calls runs them after the whitelist. -/
theorem start_besides
    {o : Setup}
    {env : Environment}
    (hOpens : o.opens? = some env)
    (calls : List Call) :
    let flushed := (s.listed env o).session.runAll calls
    (s.besides calls s.initialized).start o =
      { session :=
          flushed.session.besides [] (s.initialized.set true)
        result := .ok ()
        events :=
          (s.listed env o).events ++ flushed.events ++
            [.initialized true] } := by
  intro flushed
  have hListed :
      (s.besides calls s.initialized).listed env o =
        { s.listed env o with
          session :=
            (s.listed env o).session.besides calls
              s.initialized } :=
    (s.activate env o.target).runAll_besides calls s.initialized _
  have hFlushed :
      ((s.listed env o).session.besides calls
          s.initialized).runAll calls =
        { flushed with
          session :=
            flushed.session.besides calls s.initialized } :=
    (s.listed env o).session.runAll_besides _ _ _
  rw [start_of_opens? _ hOpens, hListed]
  dsimp only [besides] at hFlushed ⊢
  rw [hFlushed]

/- A start without waiting calls runs the whitelist only. -/
theorem start_of_pending_eq_nil
    {o : Setup}
    {env : Environment}
    (hOpens : o.opens? = some env)
    (hPending : s.pending = []) :
    s.start o =
      { session :=
          (s.listed env o).session.besides []
            (s.initialized.set true)
        result := .ok ()
        events := (s.listed env o).events ++ [.initialized true] } := by
  rw [s.start_of_opens? hOpens, hPending]
  simp only [runAll, Reply.done, List.append_nil]

/- Calls after such a start are run on top of the whitelist. -/
theorem performAll_start
    {o : Setup}
    {env : Environment}
    (hOpens : o.opens? = some env)
    (hPending : s.pending = [])
    {ops : List Operation}
    (hCalls : ∀ op ∈ ops, op.call?.isSome = true) :
    let flushed :=
      (s.listed env o).session.runAll
        (ops.filterMap Operation.call?)
    (s.start o).session.performAll ops =
      (flushed.session.besides [] (s.initialized.set true),
        flushed.events) := by
  intro flushed
  rw [s.start_of_pending_eq_nil hOpens hPending]
  dsimp only
  rw [performAll_calls _ ?_ hCalls, runAll_besides]
  exact s.phase_listed_ne_waiting env o

/- After a start the calls are served whose scope was there. -/
theorem serves_start
    {o : Setup}
    {env : Environment}
    (hOpens : o.opens? = some env)
    (hPending : s.pending = [])
    (call : Call) :
    (s.start o).session.serves call =
      call.scope.all s.scopes.contains := by
  rw [s.start_of_pending_eq_nil hOpens hPending]
  change (s.listed env o).session.serves call = _
  rw [listed, serves_runAll, serves_activate]

/-
  The calls that wait for a start are run by it just as if
  they were made, in their order, after a start with nothing
  waiting: the sessions are the same, and so is the text that
  is announced, the whitelist first. Only the end of the start
  is announced later. Calls into scopes that are not there at
  the start are ignored.
-/
theorem start_flushes_waiting_calls
    {ops : List Operation}
    (hBefore : ∀ op ∈ ops, op.BeforeOpening)
    {o : Setup}
    {env : Environment}
    (hEnabled : o.enabled = true)
    (hBuilt : o.environment? = .ok env) :
    let waited := new.performAll ops
    let prepared := new.performAll (ops.filter Operation.isScoping)
    let compiles := ops.filter (fun op => op.call?.isSome)
    let queued := waited.1.start o
    let opened := prepared.1.start o
    let after := opened.session.performAll compiles
    queued.result = .ok () ∧
    queued.session = after.1 ∧
    queued.session.pending = [] ∧
    waited.2 = [] ∧
    prepared.2 = [] ∧
    (∃ listed,
      opened.events = listed ++ [.initialized true] ∧
      queued.events = listed ++ after.2 ++ [.initialized true] ∧
      ∀ e ∈ listed ++ after.2, ∃ a, e = .appended a) ∧
    opened.session.performAll
      (compiles.filter (Operation.finds waited.1)) = after := by
  intro waited prepared compiles queued opened after
  have hOpens := (o.opens?_eq_some_iff env).2 ⟨hEnabled, hBuilt⟩
  have hScoping :
      ∀ op ∈ ops.filter Operation.isScoping,
        op.isScoping = true :=
    fun _ hOp => (List.mem_filter.1 hOp).2
  rcases new.performAll_of_isScoping hScoping with
    ⟨_, hPending, hInitialized, hSilent⟩
  have hCompiles : ∀ op ∈ compiles, op.call?.isSome = true :=
    fun _ hOp => (List.mem_filter.1 hOp).2
  -- The session that waited is the one with the scopes and calls.
  let calls := ops.filterMap Operation.call?
  have hWaited :
      waited =
        (prepared.1.besides calls prepared.1.initialized, []) := by
    rw [hInitialized]
    exact new.performAll_of_waiting rfl hBefore
  have hCalls : compiles.filterMap Operation.call? = calls := by
    rw [List.filterMap_filter]
    apply List.filterMap_congr
    intro op _
    cases op.call? <;> rfl
  have hOpened :=
    prepared.1.start_of_pending_eq_nil hOpens hPending
  have hAfter :=
    prepared.1.performAll_start hOpens hPending hCompiles
  have hQueued := prepared.1.start_besides hOpens calls
  rw [hCalls] at hAfter
  have hQueued' : queued = _ :=
    (congrArg (fun w => w.1.start o) hWaited).trans hQueued
  refine ⟨?_, ?_, ?_, ?_, hSilent, ?_, ?_⟩
  · rw [hQueued']
  · rw [hQueued']
    exact (congrArg Prod.fst hAfter).symm
  · rw [hQueued']
    rfl
  · rw [hWaited]
  · refine ⟨(prepared.1.listed env o).events, ?_, ?_, ?_⟩
    · exact congrArg Reply.events hOpened
    · rw [hQueued']
      dsimp only [after, opened]
      rw [hAfter]
    · intro e he
      dsimp only [after, opened] at he
      rw [hAfter] at he
      rcases List.mem_append.1 he with hListed | hFlushed
      · exact appended_of_mem_events_runAll _ hListed
      · exact appended_of_mem_events_runAll _ hFlushed
  · refine performAll_filter _ ?_ hCompiles ?_
    · dsimp only [opened]
      rw [hOpened]
      exact prepared.1.phase_listed_ne_waiting env o
    · intro op _ call hCall
      have hServes :=
        prepared.1.serves_start hOpens hPending call
      rw [hServes, Operation.finds, hCall, Option.all_some, hWaited]
      rfl

/-
  A start that fails, a call into a scope that is still open
  at the start, and one into a scope that is not.
-/
theorem start_flushes_waiting_calls_of_swatches :
    let ops : List Operation :=
      [.createScope ∅,
        .compile ["color=red", "color=blue"] (some 0),
        .start { builtin := false },
        .createScope ∅,
        .compile ["color=red"] (some 1),
        .compile ["color=red"] none,
        .dropScope 1]
    let o := { Setup.swatches with whitelist := ["color=blue"] }
    let queued := (new.performAll ops).1.start o
    let opened :=
      (new.performAll (ops.filter Operation.isScoping)).1.start o
    let after :=
      opened.session.performAll
        (ops.filter (fun op => op.call?.isSome))
    (∀ op ∈ ops, op.BeforeOpening) ∧
    o.enabled = true ∧
    (∃ env, o.environment? = .ok env) ∧
    queued.session = after.1 ∧
    queued.events.length = 4 := by
  intro ops o queued opened after
  have hBefore : ∀ op ∈ ops, op.BeforeOpening := by
    intro op hOp
    simp only [ops, List.mem_cons, List.not_mem_nil,
      or_false] at hOp
    rcases hOp with rfl | rfl | rfl | rfl | rfl | rfl | rfl
    case inr.inr.inl => exact ⟨rfl, _, rfl⟩
    all_goals exact trivial
  have hBuilt : ∃ env, o.environment? = .ok env := ⟨_, rfl⟩
  rcases hBuilt with ⟨env, hEnv⟩
  have hStart := start_flushes_waiting_calls hBefore rfl hEnv
  exact ⟨hBefore, rfl, ⟨env, hEnv⟩, hStart.2.1, by decide⟩

end Session

end AtomicCss
