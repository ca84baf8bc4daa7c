import AtomicCss.Proofs.Session.Partition
import AtomicCss.Session.Run

/-
  This file proves what running calls does to a session, and
  what it leaves alone.

  A call fills the one partition that it names, and announces
  the new text. If there is no such partition, or the session
  does not compile, then nothing happens.

  Key definitions include:
    * `Session.serves`
    * `Session.besides`

  The main statements are:
    * `Session.partition?_deliver`
    * `Session.run_cases`
    * `Session.partition?_run_self`
    * `Session.partition?_run_other`
    * `Session.run_announces`
    * `Session.run_congr`
    * `Session.result_runAll`
    * `Session.runAll_filter_serves`
    * `Session.runAll_besides`
-/

namespace AtomicCss

namespace Session

/- Whether a call finds its partition and is compiled into it. -/
def serves
    (s : Session)
    (call : Call) : Bool :=
  s.isReady && (s.partition? call.scope).isSome

/- The session with other waiting calls and another first signal. -/
def besides
    (s : Session)
    (pending : List Call)
    (initialized : Signal Bool) : Session :=
  { s with pending := pending, initialized := initialized }

------------------------------------------------------------
-- Partitions
------------------------------------------------------------

/- Partitions are found in two fields of a session only. -/
theorem partition?_of_fields
    {s t : Session}
    (hMain : s.main = t.main)
    (hScopes : s.scopes = t.scopes)
    (scope : Option Nat) :
    s.partition? scope = t.partition? scope := by
  cases scope with
  | none => exact hMain
  | some id => exact congrArg (fun m => m.get? id) hScopes

@[simp]
theorem partition?_besides
    (s : Session)
    (pending : List Call)
    (initialized : Signal Bool)
    (scope : Option Nat) :
    (s.besides pending initialized).partition? scope =
      s.partition? scope :=
  partition?_of_fields rfl rfl scope

/- Replacing a partition changes no other one. -/
theorem partition?_setPartition
    (s : Session)
    (p : Partition)
    (own scope : Option Nat) :
    (s.setPartition p own).partition? scope =
      if scope = own then some p else s.partition? scope := by
  cases own with
  | none => cases scope <;> rfl
  | some id =>
      cases scope with
      | none => rfl
      | some id' =>
          refine (OrderedMap.get?_insert _ _ _ _).trans ?_
          simp only [Option.some.injEq]
          rfl

theorem partition?_deliver
    (s : Session)
    (cascade : Cascade)
    (own : Option Nat)
    (p : Partition)
    (outcome : Outcome)
    (store : RuleStore)
    (scope : Option Nat) :
    (s.deliver cascade own p outcome store).session.partition?
        scope =
      if scope = own then
        some
          { sheet := p.sheet.appendAll cascade outcome.emitted
            store := store }
      else
        s.partition? scope :=
  (partition?_of_fields rfl rfl scope).trans
    (s.partition?_setPartition _ own scope)

theorem partition?_createScope
    (s : Session)
    (target : Sheet)
    (scope : Option Nat) :
    (s.createScope target).session.partition? scope =
      if scope = some s.nextScope then some { sheet := target }
      else s.partition? scope :=
  (partition?_of_fields rfl rfl scope).trans
    (s.partition?_setPartition { sheet := target }
      (some s.nextScope) scope)

theorem partition?_dropScope
    (s : Session)
    (id : Nat)
    (scope : Option Nat) :
    (s.dropScope id).session.partition? scope =
      if scope = some id then none else s.partition? scope := by
  cases scope with
  | none => rfl
  | some id' =>
      refine (OrderedMap.get?_erase _ _ _).trans ?_
      simp only [Option.some.injEq]
      rfl

------------------------------------------------------------
-- Running one call
------------------------------------------------------------

variable (s : Session) (call : Call)

/- A call is dropped, or it is compiled into its partition. -/
theorem run_cases :
    s.serves call = false ∧ s.run call = .done s {} ∨
      ∃ env p,
        s.environment? = some env ∧
        s.partition? call.scope = some p ∧
        s.serves call = true ∧
        s.run call =
          s.deliver env.cascade call.scope p
            (env.outcome p.store call.scope.isSome call.tokens)
            (env.storeAfter p.store call.scope.isSome
              call.tokens) := by
  unfold serves isReady environment? run
  cases hPhase : s.phase with
  | waiting => exact Or.inl ⟨rfl, rfl⟩
  | disabled => exact Or.inl ⟨rfl, rfl⟩
  | ready env =>
      cases hPartition : s.partition? call.scope with
      | none => exact Or.inl ⟨rfl, rfl⟩
      | some p =>
          refine Or.inr ⟨env, p, rfl, rfl, rfl, ?_⟩
          dsimp only
          rw [env.run_eq_ok]

theorem run_of_serves_eq_false
    (hServes : s.serves call = false) :
    s.run call = .done s {} := by
  rcases s.run_cases call with ⟨_, hRun⟩ | ⟨_, _, _, _, hTrue, _⟩
  · exact hRun
  · rw [hServes] at hTrue
    cases hTrue

theorem run_of_partition?
    {env : Environment}
    {p : Partition}
    (hEnv : s.environment? = some env)
    (hPartition : s.partition? call.scope = some p) :
    s.run call =
      s.deliver env.cascade call.scope p
        (env.outcome p.store call.scope.isSome call.tokens)
        (env.storeAfter p.store call.scope.isSome
          call.tokens) := by
  rcases s.run_cases call with
    ⟨hServes, _⟩ | ⟨env', p', hEnv', hPartition', _, hRun⟩
  · rw [serves, isReady, hEnv, hPartition] at hServes
    cases hServes
  · rw [hEnv, Option.some.injEq] at hEnv'
    rw [hPartition, Option.some.injEq] at hPartition'
    subst hEnv' hPartition'
    exact hRun

/- Whether a call is served depends on its partition only. -/
theorem serves_congr
    {s t : Session}
    {call : Call}
    (hEnv : s.environment? = t.environment?)
    (hPartition :
      s.partition? call.scope = t.partition? call.scope) :
    s.serves call = t.serves call := by
  rw [serves, isReady, hEnv, hPartition, serves, isReady]

------------------------------------------------------------
-- What a call leaves alone
------------------------------------------------------------

@[simp]
theorem phase_run :
    (s.run call).session.phase = s.phase := by
  rcases s.run_cases call with ⟨_, hRun⟩ | ⟨_, _, _, _, _, hRun⟩
  · rw [hRun]
    rfl
  · rw [hRun]
    cases call.scope <;> rfl

@[simp]
theorem nextScope_run :
    (s.run call).session.nextScope = s.nextScope := by
  rcases s.run_cases call with ⟨_, hRun⟩ | ⟨_, _, _, _, _, hRun⟩
  · rw [hRun]
    rfl
  · rw [hRun]
    cases call.scope <;> rfl

theorem pending_run :
    (s.run call).session.pending = s.pending := by
  rcases s.run_cases call with ⟨_, hRun⟩ | ⟨_, _, _, _, _, hRun⟩
  · rw [hRun]
    rfl
  · rw [hRun]
    cases call.scope <;> rfl

@[simp]
theorem environment?_run :
    (s.run call).session.environment? = s.environment? := by
  rw [environment?, phase_run, environment?]

/- Of the partitions only the one of the call changes. -/
theorem partition?_run_other
    {scope : Option Nat}
    (hOther : scope ≠ call.scope) :
    (s.run call).session.partition? scope =
      s.partition? scope := by
  rcases s.run_cases call with ⟨_, hRun⟩ | ⟨_, _, _, _, _, hRun⟩
  · rw [hRun]
    rfl
  · rw [hRun, partition?_deliver, if_neg hOther]

/- The partition of a call that is served is filled. -/
theorem partition?_run_self
    {env : Environment}
    {p : Partition}
    (hEnv : s.environment? = some env)
    (hPartition : s.partition? call.scope = some p) :
    (s.run call).session.partition? call.scope =
      some (env.fill call.scope.isSome p call.tokens) := by
  rw [s.run_of_partition? call hEnv hPartition,
    partition?_deliver, if_pos rfl]
  rfl

/- Running a call opens and closes no partition. -/
theorem isSome_partition?_run
    (scope : Option Nat) :
    ((s.run call).session.partition? scope).isSome =
      (s.partition? scope).isSome := by
  by_cases hScope : scope = call.scope
  · rcases s.run_cases call with
      ⟨_, hRun⟩ | ⟨env, p, hEnv, hPartition, _, _⟩
    · rw [hRun]
      rfl
    · rw [hScope, s.partition?_run_self call hEnv hPartition,
        hPartition]
      rfl
  · rw [s.partition?_run_other call hScope]

@[simp]
theorem serves_run
    (other : Call) :
    (s.run call).session.serves other = s.serves other := by
  rw [serves, isReady, environment?_run, isSome_partition?_run,
    serves, isReady]

------------------------------------------------------------
-- What a call answers
------------------------------------------------------------

/-
  A call never fails. It announces just the text that it
  answers, in order and for its own scope.
-/
theorem run_announces :
    ∃ outcome,
      (s.run call).result = .ok outcome ∧
      (s.run call).events =
        outcome.emitted.map
          (fun c => .appended (c.notice call.scope)) := by
  rcases s.run_cases call with ⟨_, hRun⟩ | ⟨_, _, _, _, _, hRun⟩
  · rw [hRun]
    exact ⟨_, rfl, rfl⟩
  · rw [hRun]
    exact ⟨_, rfl, List.map_map⟩

/- A call that is served announces what is new in its partition. -/
theorem events_run
    {env : Environment}
    {p : Partition}
    (hEnv : s.environment? = some env)
    (hPartition : s.partition? call.scope = some p) :
    (s.run call).events =
      ((env.outcome p.store call.scope.isSome
        call.tokens).emitted.map
          (Chunk.notice call.scope)).map .appended := by
  rw [s.run_of_partition? call hEnv hPartition]
  rfl

/- What a call does depends on its partition only. -/
theorem run_congr
    {s t : Session}
    {call : Call}
    (hEnv : s.environment? = t.environment?)
    (hPartition :
      s.partition? call.scope = t.partition? call.scope) :
    (s.run call).session.partition? call.scope =
        (t.run call).session.partition? call.scope ∧
      (s.run call).result = (t.run call).result ∧
      (s.run call).events = (t.run call).events := by
  rcases s.run_cases call with
    ⟨hServes, hRun⟩ | ⟨env, p, hEnv', hPartition', _, hRun⟩
  · rw [serves_congr hEnv hPartition] at hServes
    rw [hRun, t.run_of_serves_eq_false call hServes]
    exact ⟨hPartition, rfl, rfl⟩
  · have hEnv'' := hEnv.symm.trans hEnv'
    have hPartition'' := hPartition.symm.trans hPartition'
    rw [s.partition?_run_self call hEnv' hPartition',
      t.partition?_run_self call hEnv'' hPartition'', hRun,
      t.run_of_partition? call hEnv'' hPartition'']
    exact ⟨rfl, rfl, rfl⟩

/- Calls use neither the waiting calls nor the first signal. -/
theorem run_besides
    (pending : List Call)
    (initialized : Signal Bool) :
    (s.besides pending initialized).run call =
      { s.run call with
        session :=
          (s.run call).session.besides pending initialized } := by
  have hSame :
      (s.besides pending initialized).partition? call.scope =
        s.partition? call.scope :=
    s.partition?_besides pending initialized call.scope
  rcases s.run_cases call with
    ⟨hServes, hRun⟩ | ⟨env, p, hEnv, hPartition, _, hRun⟩
  · have hServes' :
        (s.besides pending initialized).serves call = false :=
      (serves_congr rfl hSame).trans hServes
    rw [hRun, run_of_serves_eq_false _ _ hServes']
    rfl
  · have hPartition' := hSame.trans hPartition
    have hRun' :=
      (s.besides pending initialized).run_of_partition? call
        hEnv hPartition'
    rw [hRun, hRun']
    cases call.scope <;> rfl

------------------------------------------------------------
-- Running several calls
------------------------------------------------------------

/- Calls are run one after another, as none of them fails. -/
theorem runAll_cons
    (calls : List Call) :
    s.runAll (call :: calls) =
      { (s.run call).session.runAll calls with
        events :=
          (s.run call).events ++
            ((s.run call).session.runAll calls).events } := by
  rcases s.run_announces call with ⟨outcome, hResult, _⟩
  rw [runAll, Reply.andThen, hResult]

@[simp]
theorem result_runAll
    (calls : List Call) :
    (s.runAll calls).result = .ok () := by
  induction calls generalizing s with
  | nil => rfl
  | cons call calls ih =>
      rw [runAll_cons]
      exact ih _

@[simp]
theorem phase_runAll
    (calls : List Call) :
    (s.runAll calls).session.phase = s.phase := by
  induction calls generalizing s with
  | nil => rfl
  | cons call calls ih =>
      rw [runAll_cons]
      exact (ih _).trans (s.phase_run call)

@[simp]
theorem serves_runAll
    (calls : List Call)
    (other : Call) :
    (s.runAll calls).session.serves other = s.serves other := by
  induction calls generalizing s with
  | nil => rfl
  | cons call calls ih =>
      rw [runAll_cons]
      exact (ih _).trans (s.serves_run call other)

/- Every event of calls announces text. -/
theorem appended_of_mem_events_runAll
    {calls : List Call}
    {e : Event}
    (hEvent : e ∈ (s.runAll calls).events) :
    ∃ a, e = .appended a := by
  induction calls generalizing s with
  | nil => cases hEvent
  | cons call calls ih =>
      rw [runAll_cons] at hEvent
      rcases List.mem_append.1 hEvent with hFirst | hRest
      · rcases s.run_announces call with ⟨outcome, _, hEvents⟩
        rw [hEvents] at hFirst
        rcases List.mem_map.1 hFirst with ⟨c, _, rfl⟩
        exact ⟨_, rfl⟩
      · exact ih _ hRest

/- Calls that are not served could as well not be made. -/
theorem runAll_filter_serves
    (calls : List Call) :
    s.runAll (calls.filter s.serves) = s.runAll calls := by
  induction calls generalizing s with
  | nil => rfl
  | cons call calls ih =>
      have hServes :
          (s.run call).session.serves = s.serves :=
        funext (s.serves_run call)
      have hRest := ih (s.run call).session
      rw [hServes] at hRest
      cases hCall : s.serves call with
      | true =>
          rw [List.filter_cons_of_pos hCall, runAll_cons,
            runAll_cons, hRest]
      | false =>
          have hRun := s.run_of_serves_eq_false call hCall
          rw [hRun] at hRest
          rw [List.filter_cons_of_neg (by simp [hCall]),
            runAll_cons, hRun]
          exact hRest

/- Two lists of calls are run one after the other. -/
theorem runAll_append
    (xs ys : List Call) :
    s.runAll (xs ++ ys) =
      { (s.runAll xs).session.runAll ys with
        events :=
          (s.runAll xs).events ++
            ((s.runAll xs).session.runAll ys).events } := by
  induction xs generalizing s with
  | nil => rfl
  | cons call calls ih =>
      rw [List.cons_append, runAll_cons, runAll_cons, ih]
      simp only [List.append_assoc]

theorem runAll_besides
    (pending : List Call)
    (initialized : Signal Bool)
    (calls : List Call) :
    (s.besides pending initialized).runAll calls =
      { s.runAll calls with
        session :=
          (s.runAll calls).session.besides
            pending initialized } := by
  induction calls generalizing s with
  | nil => rfl
  | cons call calls ih =>
      rw [runAll_cons, runAll_cons, run_besides]
      dsimp only
      rw [ih]

theorem pending_runAll
    (calls : List Call) :
    (s.runAll calls).session.pending = s.pending := by
  have hFrame := s.runAll_besides s.pending s.initialized calls
  exact congrArg (fun r => r.session.pending) hFrame

theorem initialized_runAll
    (calls : List Call) :
    (s.runAll calls).session.initialized = s.initialized := by
  have hFrame := s.runAll_besides s.pending s.initialized calls
  exact congrArg (fun r => r.session.initialized) hFrame

end Session

end AtomicCss
