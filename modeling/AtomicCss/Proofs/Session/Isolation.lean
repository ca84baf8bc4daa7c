import AtomicCss.Proofs.Session.Chronicle

/-
  This file proves that partitions do not interfere: calls
  into other partitions may be deleted from a run, and a
  partition does not notice.

  Two sessions agree on a partition if they have it in common,
  along with the phase, the numbering of scopes and the calls
  that wait for it. What is done to a session depends, as far
  as that partition is concerned, on nothing else.

  Key definitions include:
    * `Call.into`
    * `Operation.concerns`
    * `Operation.compilesBesides`
    * `Operation.kept`
    * `Session.AgreeOn`

  The main statements are:
    * `Session.agreeOn_run_other`
    * `Session.AgreeOn.runAll`
    * `Session.AgreeOn.perform`
    * `Session.agreeOn_perform_other`
    * `Session.other_calls_do_not_interfere`
-/

namespace AtomicCss

------------------------------------------------------------
-- Agreement on a partition
------------------------------------------------------------

/- The calls into a partition. -/
def Call.into
    (scope : Option Nat)
    (calls : List Call) : List Call :=
  calls.filter (fun call => call.scope = scope)

theorem Call.into_append
    (scope : Option Nat)
    (xs ys : List Call) :
    into scope (xs ++ ys) = into scope xs ++ into scope ys :=
  List.filter_append _ _

theorem Call.into_cons_of_eq
    {scope : Option Nat}
    {call : Call}
    (hOwn : call.scope = scope)
    (calls : List Call) :
    into scope (call :: calls) = call :: into scope calls :=
  List.filter_cons_of_pos (by simpa using hOwn)

theorem Call.into_cons_of_ne
    {scope : Option Nat}
    {call : Call}
    (hOther : call.scope ≠ scope)
    (calls : List Call) :
    into scope (call :: calls) = into scope calls :=
  List.filter_cons_of_neg (by simpa using hOther)

namespace Operation

/- Whether the result of an operation concerns a partition. -/
def concerns
    (scope : Option Nat) : Operation → Bool
  | .compile _ own => own = scope
  | .compileText _ own => own = scope
  | .compileMarkup _ own => own = scope
  | .dropScope id => some id = scope
  | .start _ => true
  | .createScope _ => true

/- Whether an operation compiles into another partition. -/
def compilesBesides
    (scope : Option Nat)
    (op : Operation) : Bool :=
  op.call?.any (fun call => call.scope ≠ scope)

/- The operations that are marked to be kept. -/
def kept
    (marked : List (Operation × Bool)) : List Operation :=
  (marked.filter Prod.snd).map Prod.fst

theorem concerns_of_call?
    {op : Operation}
    {call : Call}
    (hCall : op.call? = some call)
    (scope : Option Nat) :
    op.concerns scope = decide (call.scope = scope) := by
  cases op <;> cases hCall <;> rfl

theorem kept_cons_true
    (op : Operation)
    (marked : List (Operation × Bool)) :
    kept ((op, true) :: marked) = op :: kept marked := by
  rw [kept, List.filter_cons_of_pos rfl]
  rfl

theorem kept_cons_false
    (op : Operation)
    (marked : List (Operation × Bool)) :
    kept ((op, false) :: marked) = kept marked := by
  rw [kept, List.filter_cons_of_neg Bool.false_ne_true]
  rfl

end Operation

namespace Session

/- Two sessions that look the same from a partition. -/
structure AgreeOn
    (scope : Option Nat)
    (s t : Session) : Prop where
  phase : s.phase = t.phase
  nextScope : s.nextScope = t.nextScope
  partition : s.partition? scope = t.partition? scope
  pending :
    Call.into scope s.pending = Call.into scope t.pending

namespace AgreeOn

variable {scope : Option Nat} {s t u : Session}

theorem refl
    (scope : Option Nat)
    (s : Session) :
    AgreeOn scope s s :=
  ⟨rfl, rfl, rfl, rfl⟩

theorem symm
    (h : AgreeOn scope s t) :
    AgreeOn scope t s :=
  ⟨h.phase.symm, h.nextScope.symm, h.partition.symm,
    h.pending.symm⟩

theorem trans
    (h : AgreeOn scope s t)
    (h' : AgreeOn scope t u) :
    AgreeOn scope s u :=
  ⟨h.phase.trans h'.phase, h.nextScope.trans h'.nextScope,
    h.partition.trans h'.partition, h.pending.trans h'.pending⟩

/- Signals do not matter, nor do calls that wait for others. -/
theorem besides
    (h : AgreeOn scope s t)
    {xs ys : List Call}
    (hCalls : Call.into scope xs = Call.into scope ys)
    (a b : Signal Bool) :
    AgreeOn scope (s.besides xs a) (t.besides ys b) := by
  refine ⟨h.phase, h.nextScope, ?_, hCalls⟩
  rw [partition?_besides, partition?_besides, h.partition]

theorem environment?
    (h : AgreeOn scope s t) :
    s.environment? = t.environment? := by
  rw [Session.environment?, h.phase, Session.environment?]

end AgreeOn

------------------------------------------------------------
-- Calls
------------------------------------------------------------

/- A call into another partition goes unnoticed. -/
theorem agreeOn_run_other
    (s : Session)
    {scope : Option Nat}
    {call : Call}
    (hOther : call.scope ≠ scope) :
    AgreeOn scope (s.run call).session s ∧
      Event.noticesFor scope (s.run call).events = [] := by
  refine ⟨⟨s.phase_run call, s.nextScope_run call,
    s.partition?_run_other call hOther.symm,
    congrArg _ (s.pending_run call)⟩, ?_⟩
  rcases s.run_cases call with
    ⟨_, hRun⟩ | ⟨env, p, hEnv, hPartition, _, _⟩
  · rw [hRun]
    rfl
  · rw [s.events_run call hEnv hPartition,
      Event.noticesFor_announced, if_neg hOther]

namespace AgreeOn

variable {scope : Option Nat} {s t : Session}

/- A call into the partition has the same effect in both. -/
theorem run_own
    (h : AgreeOn scope s t)
    {call : Call}
    (hOwn : call.scope = scope) :
    AgreeOn scope (s.run call).session (t.run call).session ∧
      (s.run call).result = (t.run call).result ∧
      (s.run call).events = (t.run call).events := by
  subst hOwn
  have hSame := run_congr h.environment? h.partition
  refine ⟨⟨?_, ?_, hSame.1, ?_⟩, hSame.2⟩
  · rw [phase_run, phase_run, h.phase]
  · rw [nextScope_run, nextScope_run, h.nextScope]
  · rw [pending_run, pending_run, h.pending]

/- Of several calls only those into the partition matter. -/
theorem runAll_into
    (h : AgreeOn scope s t)
    (calls : List Call) :
    AgreeOn scope (s.runAll calls).session
        (t.runAll (Call.into scope calls)).session ∧
      Event.noticesFor scope (s.runAll calls).events =
        Event.noticesFor scope
          (t.runAll (Call.into scope calls)).events := by
  induction calls generalizing s t with
  | nil => exact ⟨h, rfl⟩
  | cons call calls ih =>
      by_cases hOwn : call.scope = scope
      · rcases h.run_own hOwn with ⟨hFirst, _, hEvents⟩
        rcases ih hFirst with ⟨hRest, hNotices⟩
        rw [Call.into_cons_of_eq hOwn, runAll_cons, runAll_cons]
        refine ⟨hRest, ?_⟩
        dsimp only
        rw [Event.noticesFor_append, Event.noticesFor_append,
          hEvents]
        exact congrArg _ hNotices
      · rcases s.agreeOn_run_other hOwn with ⟨hFirst, hSilent⟩
        rcases ih (hFirst.trans h) with ⟨hRest, hNotices⟩
        rw [Call.into_cons_of_ne hOwn, runAll_cons]
        refine ⟨hRest, ?_⟩
        dsimp only
        rw [Event.noticesFor_append, hSilent]
        exact hNotices

theorem runAll
    (h : AgreeOn scope s t)
    {xs ys : List Call}
    (hCalls : Call.into scope xs = Call.into scope ys) :
    AgreeOn scope (s.runAll xs).session (t.runAll ys).session ∧
      Event.noticesFor scope (s.runAll xs).events =
        Event.noticesFor scope (t.runAll ys).events := by
  rcases h.runAll_into xs with ⟨hxs, hxsNotices⟩
  rcases (refl scope t).runAll_into ys with ⟨hys, hysNotices⟩
  rw [hCalls] at hxs hxsNotices
  exact ⟨hxs.trans hys.symm, hxsNotices.trans hysNotices.symm⟩

------------------------------------------------------------
-- Operations
------------------------------------------------------------

theorem activate
    (h : AgreeOn scope s t)
    (env : Environment)
    (target : Sheet) :
    AgreeOn scope (s.activate env target)
      (t.activate env target) := by
  refine ⟨rfl, h.nextScope, ?_, h.pending⟩
  cases scope with
  | none => rfl
  | some id =>
      rw [partition?_activate, partition?_activate]
      exact congrArg _ h.partition

/- A start does the same to the partition in both sessions. -/
theorem start
    (h : AgreeOn scope s t)
    (o : Setup) :
    AgreeOn scope (s.start o).session (t.start o).session ∧
      Event.noticesFor scope (s.start o).events =
        Event.noticesFor scope (t.start o).events ∧
      (s.start o).result = (t.start o).result := by
  rcases o.cases with
    ⟨env, hOpens⟩ | ⟨_, hEnabled, e, hEnv⟩ | ⟨_, hDisabled⟩
  · have hCalls :
        Call.into scope (whitelistCalls o.whitelist ++ s.pending) =
          Call.into scope
            (whitelistCalls o.whitelist ++ t.pending) := by
      rw [Call.into_append, Call.into_append, h.pending]
    rcases (h.activate env o.target).runAll hCalls with
      ⟨hRan, hNotices⟩
    rw [s.start_runs hOpens, t.start_runs hOpens]
    refine ⟨hRan.besides rfl _ _, ?_, rfl⟩
    dsimp only
    rw [Event.noticesFor_append, Event.noticesFor_append,
      hNotices]
  · rw [s.start_of_error hEnabled hEnv,
      t.start_of_error hEnabled hEnv]
    exact ⟨h, rfl, rfl⟩
  · rw [s.start_of_disabled hDisabled,
      t.start_of_disabled hDisabled]
    -- The phase and the waiting calls are no part of a partition.
    refine ⟨⟨rfl, h.nextScope, ?_, rfl⟩, rfl, rfl⟩
    exact (partition?_of_fields rfl rfl scope).trans
      (h.partition.trans (partition?_of_fields rfl rfl scope))

end AgreeOn

/- An operation that compiles elsewhere goes unnoticed. -/
theorem agreeOn_perform_other
    (s : Session)
    {scope : Option Nat}
    {op : Operation}
    {call : Call}
    (hCall : op.call? = some call)
    (hOther : call.scope ≠ scope) :
    AgreeOn scope (s.perform op).session s ∧
      Event.noticesFor scope (s.perform op).events = [] := by
  by_cases hPhase : s.phase = .waiting
  · have hPending :
        Call.into scope (s.pending ++ [call]) =
          Call.into scope s.pending := by
      rw [Call.into_append, Call.into_cons_of_ne hOther]
      exact List.append_nil _
    rw [s.perform_of_call? hCall, s.compile_of_waiting hPhase]
    exact ⟨(AgreeOn.refl scope s).besides hPending
      s.initialized s.initialized, rfl⟩
  · rw [s.perform_of_call? hCall,
      s.compile_of_not_waiting hPhase]
    exact s.agreeOn_run_other hOther

namespace AgreeOn

variable {scope : Option Nat} {s t : Session}

theorem perform_own
    (h : AgreeOn scope s t)
    {op : Operation}
    {call : Call}
    (hCall : op.call? = some call)
    (hOwn : call.scope = scope) :
    AgreeOn scope (s.perform op).session
        (t.perform op).session ∧
      Event.noticesFor scope (s.perform op).events =
        Event.noticesFor scope (t.perform op).events ∧
      (s.perform op).result = (t.perform op).result := by
  rw [s.perform_of_call? hCall, t.perform_of_call? hCall]
  by_cases hPhase : s.phase = .waiting
  · have hPending :
        Call.into scope (s.pending ++ [call]) =
          Call.into scope (t.pending ++ [call]) := by
      rw [Call.into_append, Call.into_append, h.pending]
    rw [s.compile_of_waiting hPhase,
      t.compile_of_waiting (h.phase.symm.trans hPhase)]
    exact ⟨h.besides hPending s.initialized t.initialized,
      rfl, rfl⟩
  · rw [s.compile_of_not_waiting hPhase,
      t.compile_of_not_waiting (h.phase ▸ hPhase)]
    rcases h.run_own hOwn with ⟨hRan, hResult, hEvents⟩
    exact ⟨hRan, congrArg (Event.noticesFor scope) hEvents,
      congrArg (Except.map Answer.compiled) hResult⟩

theorem perform_call
    (h : AgreeOn scope s t)
    {op : Operation}
    {call : Call}
    (hCall : op.call? = some call) :
    AgreeOn scope (s.perform op).session
        (t.perform op).session ∧
      Event.noticesFor scope (s.perform op).events =
        Event.noticesFor scope (t.perform op).events ∧
      (op.concerns scope = true →
        (s.perform op).result = (t.perform op).result) := by
  by_cases hOwn : call.scope = scope
  · rcases h.perform_own hCall hOwn with
      ⟨hAfter, hNotices, hResult⟩
    exact ⟨hAfter, hNotices, fun _ => hResult⟩
  · rcases s.agreeOn_perform_other hCall hOwn with ⟨hs, hsNone⟩
    rcases t.agreeOn_perform_other hCall hOwn with ⟨ht, htNone⟩
    refine ⟨hs.trans (h.trans ht.symm), hsNone.trans htNone.symm,
      ?_⟩
    intro hConcerns
    have hScope := op.concerns_of_call? hCall scope
    rw [hScope] at hConcerns
    exact absurd (of_decide_eq_true hConcerns) hOwn

theorem createScope
    (h : AgreeOn scope s t)
    (target : Sheet) :
    AgreeOn scope (s.createScope target).session
      (t.createScope target).session := by
  refine ⟨h.phase, congrArg (· + 1) h.nextScope, ?_, h.pending⟩
  rw [partition?_createScope, partition?_createScope,
    h.nextScope, h.partition]

theorem dropScope
    (h : AgreeOn scope s t)
    (id : Nat) :
    AgreeOn scope (s.dropScope id).session
      (t.dropScope id).session := by
  refine ⟨h.phase, h.nextScope, ?_, h.pending⟩
  rw [partition?_dropScope, partition?_dropScope, h.partition]

/-
  An operation does the same to the partition in both sessions,
  and its result is the same if it concerns the partition.
-/
theorem perform
    (h : AgreeOn scope s t)
    (op : Operation) :
    AgreeOn scope (s.perform op).session
        (t.perform op).session ∧
      Event.noticesFor scope (s.perform op).events =
        Event.noticesFor scope (t.perform op).events ∧
      (op.concerns scope = true →
        (s.perform op).result = (t.perform op).result) := by
  cases op using Operation.cases_call with
  | start o =>
      rcases h.start o with ⟨hAfter, hNotices, hResult⟩
      exact ⟨hAfter, hNotices, fun _ =>
        congrArg (Except.map (fun _ => Answer.started)) hResult⟩
  | compiling op call hCall => exact h.perform_call hCall
  | createScope target =>
      refine ⟨h.createScope target, rfl, fun _ => ?_⟩
      exact congrArg (fun id => Except.ok (Answer.created id))
        h.nextScope
  | dropScope id =>
      refine ⟨h.dropScope id, rfl, fun hConcerns => ?_⟩
      cases of_decide_eq_true hConcerns
      exact congrArg
        (fun p => Except.ok
          (Answer.dropped (p.map Partition.sheet)))
        h.partition

------------------------------------------------------------
-- Runs
------------------------------------------------------------

/-
  Sessions that agree on a partition still do after a run from
  which calls elsewhere were deleted in one of them. The
  induction is on the marked operations.
-/
theorem performAll
    (h : AgreeOn scope s t)
    {marked : List (Operation × Bool)}
    (hDeleted :
      ∀ m ∈ marked, m.2 = false → m.1.compilesBesides scope) :
    AgreeOn scope (s.performAll (marked.map Prod.fst)).1
        (t.performAll (Operation.kept marked)).1 ∧
      Event.noticesFor scope
          (s.performAll (marked.map Prod.fst)).2 =
        Event.noticesFor scope
          (t.performAll (Operation.kept marked)).2 := by
  induction marked generalizing s t with
  | nil => exact ⟨h, rfl⟩
  | cons m marked ih =>
      rcases m with ⟨op, isKept⟩
      rcases List.forall_mem_cons.1 hDeleted with ⟨hFirst, hRest⟩
      rw [List.map_cons, Session.performAll]
      dsimp only
      rw [Event.noticesFor_append]
      cases isKept with
      | true =>
          rcases h.perform op with ⟨hAfter, hNotices, _⟩
          rcases ih hAfter hRest with ⟨hTail, hTailNotices⟩
          rw [Operation.kept_cons_true, Session.performAll]
          dsimp only
          rw [Event.noticesFor_append, hNotices, hTailNotices]
          exact ⟨hTail, rfl⟩
      | false =>
          rcases (Option.any_eq_true _ _).1 (hFirst rfl) with
            ⟨call, hCall, hOther⟩
          rcases s.agreeOn_perform_other hCall
            (of_decide_eq_true hOther) with ⟨hAfter, hSilent⟩
          rw [hSilent, Operation.kept_cons_false]
          exact ih (hAfter.trans h) hRest

end AgreeOn

variable (s : Session) (scope : Option Nat)

/-
  Calls into other partitions may be deleted from a run, also
  those that wait for a start. At every point the partition is
  the same, sheet and store, and so is what was announced for
  it. The remaining operations that concern the partition
  answer the same.
-/
theorem other_calls_do_not_interfere
    {marked : List (Operation × Bool)}
    (hDeleted :
      ∀ m ∈ marked, m.2 = false → m.1.compilesBesides scope) :
    let whole := fun part : List (Operation × Bool) =>
      s.performAll (part.map Prod.fst)
    let rest := fun part : List (Operation × Bool) =>
      s.performAll (Operation.kept part)
    (∀ before later, marked = before ++ later →
      (whole before).1.partition? scope =
          (rest before).1.partition? scope ∧
        Event.noticesFor scope (whole before).2 =
          Event.noticesFor scope (rest before).2) ∧
    ∀ before op later, marked = before ++ (op, true) :: later →
      op.concerns scope = true →
        ((whole before).1.perform op).result =
          ((rest before).1.perform op).result := by
  intro whole rest
  have hPart :
      ∀ before later, marked = before ++ later →
        AgreeOn scope (whole before).1 (rest before).1 ∧
          Event.noticesFor scope (whole before).2 =
            Event.noticesFor scope (rest before).2 := by
    rintro before later rfl
    exact (AgreeOn.refl scope s).performAll
      (fun m hm => hDeleted m (List.mem_append_left _ hm))
  constructor
  · intro before later hSplit
    rcases hPart before later hSplit with ⟨hAgree, hNotices⟩
    exact ⟨hAgree.partition, hNotices⟩
  · intro before op later hSplit hConcerns
    exact ((hPart before _ hSplit).1.perform op).2.2 hConcerns

/-
  Calls into the main partition and another scope, one of them
  before the start, around the calls into a scope.
-/
theorem other_calls_do_not_interfere_of_swatches :
    let own : List (Operation × Bool) :=
      [(.createScope ∅, true),
        (.createScope ∅, true),
        (.compile ["color=red"] (some 1), false),
        (.compile ["color=red"] (some 0), true),
        (.start Setup.swatches, true),
        (.compile ["color=blue"] none, false),
        (.compile ["color=red"] (some 1), false)]
    let last : Operation :=
      .compile ["color=blue"] (some 0)
    let marked := own ++ [(last, true)]
    let whole := (new.performAll (own.map Prod.fst)).1
    let rest := (new.performAll (Operation.kept own)).1
    (∀ m ∈ marked, m.2 = false →
      m.1.compilesBesides (some 0) = true) ∧
    (whole.perform last).result = (rest.perform last).result ∧
    (whole.perform last).events =
      [.appended ⟨"sm-up", ":host\x7bcolor:blue;\x7d", some 0⟩] ∧
    whole.sheet? none ≠ rest.sheet? none := by
  intro own last marked whole rest
  have hDeleted :
      ∀ m ∈ marked, m.2 = false →
        m.1.compilesBesides (some 0) = true := by
    decide
  have hResult :=
    (new.other_calls_do_not_interfere (some 0) hDeleted).2
      own last [] rfl rfl
  exact ⟨hDeleted, hResult, by decide, by decide⟩

end Session

end AtomicCss
