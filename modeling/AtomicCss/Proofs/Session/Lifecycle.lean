import AtomicCss.Proofs.Session.Closing
import AtomicCss.Proofs.Session.Failure
import AtomicCss.Proofs.Session.Queue

/-
  This file proves what holds of a session at any time,
  whatever it was asked for.

  Calls wait only as long as no start has succeeded or has
  disabled the session, and until then nothing is compiled. A
  session that compiles has a main partition, and all that it
  announces is appended to a sheet. The number of a scope that
  was closed stays without effect.

  Key definitions include:
    * `Session.Untouched`
    * `Session.Sound`

  The main statements are:
    * `Session.phase_performAll_eq_waiting_iff`
    * `Session.Sound.performAll`
    * `Session.sessions_keep_their_invariants`
-/

namespace AtomicCss

namespace Session

------------------------------------------------------------
-- Phases
------------------------------------------------------------

section Phases

variable (s : Session)

theorem phase_perform_of_call?
    {op : Operation}
    {call : Call}
    (hCall : op.call? = some call) :
    (s.perform op).session.phase = s.phase := by
  rcases s.perform_call_cases hCall with
    ⟨_, pending, hPerform⟩ | ⟨_, _, _, _, _, hPerform⟩
  · rw [hPerform]
    rfl
  · rw [hPerform]
    exact s.phase_run call

/- A start leaves a session waiting only if it fails. -/
theorem phase_start_eq_waiting_iff
    (o : Setup) :
    (s.start o).session.phase = .waiting ↔
      s.phase = .waiting ∧ o.Fails := by
  rcases o.cases with
    ⟨env, hOpens⟩ | ⟨_, hFails⟩ | ⟨_, hDisabled⟩
  · rcases (o.opens?_eq_some_iff env).1 hOpens with ⟨_, hEnv⟩
    have hPhase : (s.start o).session.phase = .ready env := by
      rw [s.start_runs hOpens]
      exact (s.activate env o.target).phase_runAll _
    rw [hPhase]
    refine iff_of_false Phase.noConfusion ?_
    rintro ⟨_, _, e, hError⟩
    rw [hEnv] at hError
    cases hError
  · have hFails' := hFails
    rcases hFails' with ⟨hEnabled, e, hEnv⟩
    rw [s.start_of_error hEnabled hEnv]
    exact (and_iff_left hFails).symm
  · rw [s.start_of_disabled hDisabled]
    refine iff_of_false Phase.noConfusion ?_
    rintro ⟨_, hEnabled, _⟩
    rw [hDisabled] at hEnabled
    cases hEnabled

theorem phase_perform_eq_waiting_iff
    (op : Operation) :
    (s.perform op).session.phase = .waiting ↔
      s.phase = .waiting ∧ op.BeforeOpening := by
  cases op using Operation.cases_call with
  | start o => exact s.phase_start_eq_waiting_iff o
  | compiling op call hCall =>
      have hBefore : op.BeforeOpening := by
        cases op <;> cases hCall <;> exact trivial
      rw [s.phase_perform_of_call? hCall]
      exact (and_iff_left hBefore).symm
  | createScope target => exact (and_iff_left trivial).symm
  | dropScope id => exact (and_iff_left trivial).symm

/- A session waits as long as all starts fail. -/
theorem phase_performAll_eq_waiting_iff
    (ops : List Operation) :
    (s.performAll ops).1.phase = .waiting ↔
      s.phase = .waiting ∧ ∀ op ∈ ops, op.BeforeOpening := by
  induction ops generalizing s with
  | nil => simp [performAll]
  | cons op ops ih =>
      rw [List.forall_mem_cons, ← and_assoc,
        ← s.phase_perform_eq_waiting_iff op]
      exact ih _

end Phases

------------------------------------------------------------
-- The invariant
------------------------------------------------------------

/- A session in which nothing was compiled and no event fired. -/
structure Untouched
    (s : Session) : Prop where
  main : s.main = none
  stores :
    ∀ id p, s.scopes.get? id = some p → p.store = .empty
  initialized : s.initialized = {}
  appended : s.appended = {}

namespace Untouched

variable {s : Session}

theorem new : Session.new.Untouched where
  main := rfl
  stores := fun _ _ hFound => by cases hFound
  initialized := rfl
  appended := rfl

/- Calls that wait are not compiled. -/
theorem keep
    (h : s.Untouched)
    (pending : List Call) :
    Untouched { s with pending := pending } where
  main := h.main
  stores := h.stores
  initialized := h.initialized
  appended := h.appended

/- A scope is empty when it is opened. -/
theorem createScope
    (h : s.Untouched)
    (target : Sheet) :
    (s.createScope target).session.Untouched where
  main := h.main
  stores id p hFound := by
    have hGet := s.partition?_createScope target (some id)
    rw [partition?, hFound] at hGet
    split at hGet
    · cases hGet
      rfl
    · exact h.stores id p hGet.symm
  initialized := h.initialized
  appended := h.appended

theorem dropScope
    (h : s.Untouched)
    (id : Nat) :
    (s.dropScope id).session.Untouched where
  main := h.main
  stores id' p hFound := by
    have hGet := s.partition?_dropScope id (some id')
    rw [partition?, hFound] at hGet
    split at hGet
    · cases hGet
    · exact h.stores id' p hGet.symm
  initialized := h.initialized
  appended := h.appended

end Untouched

/-
  What holds of a session at any time: its scopes are numbered,
  calls are kept only while it waits, it has a main partition
  if it compiles, and while it waits it is untouched.
-/
structure Sound
    (s : Session) : Prop where
  numbered : s.Numbered
  queue : s.phase ≠ .waiting → s.pending = []
  target : s.isReady = true → s.main.isSome = true
  untouched : s.phase = .waiting → s.Untouched

namespace Sound

variable {s : Session}

theorem new : Session.new.Sound where
  numbered := .of_isEmpty rfl
  queue hPhase := absurd rfl hPhase
  target hReady := by cases hReady
  untouched _ := .new

/- A call is kept, or it fills a partition that is there. -/
theorem perform_call
    (h : s.Sound)
    {op : Operation}
    {call : Call}
    (hCall : op.call? = some call) :
    (s.perform op).session.Sound := by
  have hNumbered := h.numbered.perform op
  rw [s.perform_of_call? hCall] at hNumbered ⊢
  by_cases hPhase : s.phase = .waiting
  · rw [s.compile_of_waiting hPhase] at hNumbered ⊢
    exact
      { numbered := hNumbered
        queue := fun hOther => absurd hPhase hOther
        target := h.target
        untouched := fun _ => (h.untouched hPhase).keep _ }
  · rw [s.compile_of_not_waiting hPhase] at hNumbered ⊢
    refine
      { numbered := hNumbered
        queue := fun _ => ?queue
        target := fun hReady => ?target
        untouched := fun hWaiting => ?untouched }
    case queue => exact (s.pending_run call).trans (h.queue hPhase)
    case target =>
      have hReady' : s.isReady = true := by
        rw [isReady, ← s.environment?_run call]
        exact hReady
      exact (s.isSome_partition?_run call none).trans
        (h.target hReady')
    case untouched =>
      exact absurd ((s.phase_run call).symm.trans hWaiting) hPhase

/- A start empties the queue, unless it fails. -/
theorem start
    (h : s.Sound)
    (o : Setup) :
    (s.start o).session.Sound := by
  have hNumbered := h.numbered.start o
  rcases o.cases with
    ⟨env, hOpens⟩ | ⟨_, hEnabled, e, hEnv⟩ | ⟨_, hDisabled⟩
  · rw [s.start_runs hOpens] at hNumbered ⊢
    refine
      { numbered := hNumbered
        queue := fun _ => rfl
        target := fun _ => ?target
        untouched := fun hWaiting => ?untouched }
    case target =>
      -- Calls are served whose partition is there.
      have hServes :
          ((s.activate env o.target).runAll
            (whitelistCalls o.whitelist ++
              s.pending)).session.serves ⟨[], none⟩ = true := by
        rw [serves_runAll, serves_activate]
        rfl
      exact (Bool.and_eq_true_iff.1 hServes).2
    case untouched =>
      have hReady :
          ((s.activate env o.target).runAll
            (whitelistCalls o.whitelist ++
              s.pending)).session.phase = .ready env :=
        phase_runAll _ _
      exact Phase.noConfusion (hReady.symm.trans hWaiting)
  · rw [s.start_of_error hEnabled hEnv]
    exact h
  · rw [s.start_of_disabled hDisabled] at hNumbered ⊢
    exact
      { numbered := hNumbered
        queue := fun _ => rfl
        target := fun hReady => by cases hReady
        untouched := fun hWaiting => Phase.noConfusion hWaiting }

theorem createScope
    (h : s.Sound)
    (target : Sheet) :
    (s.createScope target).session.Sound where
  numbered := h.numbered.createScope target
  queue := h.queue
  target := h.target
  untouched hWaiting := (h.untouched hWaiting).createScope target

theorem dropScope
    (h : s.Sound)
    (id : Nat) :
    (s.dropScope id).session.Sound where
  numbered := h.numbered.dropScope id
  queue := h.queue
  target := h.target
  untouched hWaiting := (h.untouched hWaiting).dropScope id

/- Every operation keeps the invariant. -/
theorem perform
    (h : s.Sound)
    (op : Operation) :
    (s.perform op).session.Sound := by
  cases op using Operation.cases_call with
  | start o => exact h.start o
  | compiling op call hCall => exact h.perform_call hCall
  | createScope target => exact h.createScope target
  | dropScope id => exact h.dropScope id

theorem performAll
    (h : s.Sound)
    (ops : List Operation) :
    (s.performAll ops).1.Sound := by
  induction ops generalizing s with
  | nil => exact h
  | cons op ops ih => exact ih (h.perform op)

end Sound

------------------------------------------------------------
-- Histories
------------------------------------------------------------

/- A start fails as its setup does, whatever the session. -/
theorem fails_iff
    (s : Session)
    (o : Setup) :
    o.Fails ↔ ∃ e, (s.perform (.start o)).result = .error e := by
  constructor
  · intro hFails
    rcases s.perform_of_fails hFails with ⟨e, hPerform⟩
    exact ⟨e, congrArg Reply.result hPerform⟩
  · rintro ⟨e, hError⟩
    rw [result_perform_eq_error_iff,
      Operation.failure?_eq_some_iff] at hError
    rcases hError with ⟨o', hStart, hEnabled, hEnv⟩
    cases hStart
    exact ⟨hEnabled, e, hEnv⟩

/-
  After any operations on a new session:

  It waits exactly if every start among them failed. Calls are
  kept only then; and then it is untouched and there was no
  event.

  If it compiles then it has a main sheet. An operation that
  compiles has for its events what it answers, and events of
  any operation are delivered: each text is appended to the
  sheet of a partition.

  The scopes that are there have distinct numbers below the
  next one, which is the number of scopes opened so far. The
  numbers were given in order, and the next one is given next.

  Once a scope was closed whose number had been given, it is
  gone after whatever else is done. To close it again does
  nothing, no text is announced for it, and a call into it has
  an empty outcome and, unless the session still waits,
  changes nothing.
-/
theorem sessions_keep_their_invariants
    (ops : List Operation) :
    let s := (new.performAll ops).1
    (∀ o : Setup, o.Fails ↔
      ∃ e, (s.perform (.start o)).result = .error e) ∧
    (s.phase = .waiting ↔ ∀ op ∈ ops, op.BeforeOpening) ∧
    (s.pending ≠ [] → ∀ op ∈ ops, op.BeforeOpening) ∧
    ((∀ op ∈ ops, op.BeforeOpening) →
      s.Untouched ∧ (new.performAll ops).2 = []) ∧
    (s.isReady = true → (s.sheet? none).isSome = true) ∧
    (∀ op call, op.call? = some call →
      ∃ outcome,
        (s.perform op).result = .ok (.compiled outcome) ∧
        (s.perform op).events =
          outcome.emitted.map
            (fun c => .appended (c.notice call.scope))) ∧
    (∀ op, (s.perform op).events ≠ [] →
      ∃ env,
        (s.perform op).session.environment? = some env ∧
        Delivers env (s.readied op) (s.perform op).events
          (s.perform op).session) ∧
    s.scopes.keys.Pairwise (· < ·) ∧
    (∀ id ∈ s.scopes.keys, id < s.nextScope) ∧
    s.nextScope = ops.countP Operation.opensScope ∧
    new.issued ops = List.range s.nextScope ∧
    (∀ target,
      (s.perform (.createScope target)).result =
        .ok (.created s.nextScope)) ∧
    ∀ id ∈ new.issued ops, ∀ later : List Operation,
      let closed := (s.perform (.dropScope id)).session
      let t := (closed.performAll later).1
      t.sheet? (some id) = none ∧
      t.perform (.dropScope id) = .done t (.dropped none) ∧
      (∀ op,
        Event.noticesFor (some id) (t.perform op).events = []) ∧
      ∀ op call, op.call? = some call → call.scope = some id →
        (t.perform op).result = .ok (.compiled {}) ∧
        (t.perform op).events = [] ∧
        (t.phase ≠ .waiting → (t.perform op).session = t) := by
  intro s
  have hSound : s.Sound := Sound.new.performAll ops
  have hPhase :
      s.phase = .waiting ↔ ∀ op ∈ ops, op.BeforeOpening := by
    rw [new.phase_performAll_eq_waiting_iff ops]
    exact and_iff_right rfl
  rcases new.issued_eq ops with ⟨hIssued, hCount⟩
  have hNext : s.nextScope = ops.countP Operation.opensScope :=
    hCount.trans (Nat.zero_add _)
  have hRange : new.issued ops = List.range s.nextScope := by
    rw [hIssued, hNext, List.range_eq_range']
    rfl
  refine ⟨s.fails_iff, hPhase, ?queue, ?untouched, ?target,
    fun op call hCall => s.perform_announces hCall,
    s.delivers_perform, hSound.numbered.ascending,
    hSound.numbered.below, hNext, hRange, fun _ => rfl, ?closed⟩
  case queue =>
    intro hPending
    by_contra hOpened
    exact hPending (hSound.queue (mt hPhase.1 hOpened))
  case untouched =>
    intro hBefore
    have hSilent := new.performAll_of_waiting rfl hBefore
    exact ⟨hSound.untouched (hPhase.2 hBefore),
      congrArg Prod.snd hSilent⟩
  case target =>
    intro hReady
    rw [sheet?, Option.isSome_map]
    exact hSound.target hReady
  case closed =>
    intro id hId later closed t
    rw [hRange, List.mem_range] at hId
    have hClosed : t.Closed id :=
      Closed.performAll (closed_dropScope hId) later
    refine ⟨?_, hClosed.perform_dropScope,
      hClosed.noticesFor_perform,
      fun op call => hClosed.perform_call⟩
    rw [sheet?, hClosed.partition?_eq_none]
    rfl

/-
  A call that waits for a scope which is closed before the
  start, and another scope that is filled after it.
-/
theorem sessions_keep_their_invariants_of_swatches :
    let ops : List Operation :=
      [.createScope ∅,
        .createScope ∅,
        .compile ["color=red"] (some 0),
        .start { builtin := false }]
    let later : List Operation :=
      [.start Setup.swatches,
        .compile ["color=blue"] (some 1)]
    let s := (new.performAll ops).1
    let t :=
      ((s.perform (.dropScope 0)).session.performAll later).1
    let op : Operation := .compile ["color=red"] (some 0)
    s.pending ≠ [] ∧
    s.Untouched ∧
    0 ∈ new.issued ops ∧
    t.phase ≠ .waiting ∧
    (t.perform op).session = t ∧
    (t.sheet? (some 1)).map Sheet.css =
      some ":host\x7bcolor:blue;\x7d" := by
  intro ops later s t op
  rcases sessions_keep_their_invariants ops with
    ⟨_, _, hQueue, hUntouched, _, _, _, _, _, _, _, _, hClosed⟩
  have hPending : s.pending ≠ [] := List.cons_ne_nil _ _
  have hIssued : 0 ∈ new.issued ops := by decide
  have hPhase : t.phase ≠ .waiting := Phase.noConfusion
  have hSame :=
    ((hClosed 0 hIssued later).2.2.2 op _ rfl rfl).2.2 hPhase
  exact ⟨hPending, (hUntouched (hQueue hPending)).1, hIssued, hPhase,
    hSame, by decide⟩

end Session

end AtomicCss
