import AtomicCss.Proofs.Session.Chronicle
import AtomicCss.Proofs.Session.Numbering

/-
  This file proves that the partitions of a session are what
  its history since the last start makes of the sheets that
  they began with, and that all text of the history was
  announced. If no sheet is brought that has text, then the
  partitions began fresh.

  Key definitions include:
    * `Operation.Brings`
    * `Chronicle.Founded`
    * `Chronicle.Consistent`

  The main statements are:
    * `Chronicle.Founded.run`
    * `Chronicle.Founded.next`
    * `Chronicle.founded_after`
    * `Chronicle.consistent_after`
-/

namespace AtomicCss

/- Whether the sheet that an operation brings has a property. -/
def Operation.Brings
    (Base : Sheet → Prop) : Operation → Prop
  | .start o => Base o.target
  | .createScope target => Base target
  | _ => True

namespace Chronicle

------------------------------------------------------------
-- The invariant
------------------------------------------------------------

/-
  The partitions are determined by the history and the sheets
  that they began with, and so are the announcements. Scopes
  are numbered, and none has a history before it is opened.
-/
structure Founded (Base : Sheet → Prop) (c : Chronicle) : Prop where
  ready :
    ∀ env, c.session.environment? = some env →
      c.environment = some env
  numbered : c.session.Numbered
  called :
    ∀ id, c.session.nextScope ≤ id →
      c.batches (some id) = []
  filled :
    ∀ env, c.environment = some env →
      ∀ scope p, c.session.partition? scope = some p →
        ∃ base, Base base ∧
          p = env.filledFrom scope.isSome base (c.batches scope)
  logged :
    ∀ env, c.environment = some env →
      ∀ scope,
        c.notices scope =
          (env.emitted scope.isSome (c.batches scope)).map
            (Chunk.notice scope)

/- The invariant of chronicles whose sheets all began empty. -/
structure Consistent (c : Chronicle) : Prop where
  ready :
    ∀ env, c.session.environment? = some env →
      c.environment = some env
  numbered :
    ∀ id, c.session.nextScope ≤ id →
      c.session.scopes.get? id = none
  called :
    ∀ id, c.session.nextScope ≤ id →
      c.batches (some id) = []
  filled :
    ∀ env, c.environment = some env →
      ∀ scope p, c.session.partition? scope = some p →
        p = env.filled scope.isSome (c.batches scope)
  logged :
    ∀ env, c.environment = some env →
      ∀ scope,
        c.notices scope =
          (env.emitted scope.isSome (c.batches scope)).map
            (Chunk.notice scope)

------------------------------------------------------------
-- Single steps keep the invariant
------------------------------------------------------------

theorem founded_empty
    (Base : Sheet → Prop) :
    ({} : Chronicle).Founded Base where
  ready _ hEnv := by cases hEnv
  numbered := .of_isEmpty rfl
  called _ _ := rfl
  filled _ hEnv := by cases hEnv
  logged _ hEnv := by cases hEnv

namespace Founded

variable {Base : Sheet → Prop} {c : Chronicle}

/- What does not concern the partitions may change. -/
theorem frame
    (hc : c.Founded Base)
    {s : Session}
    (hEnv :
      ∀ env, s.environment? = some env →
        c.session.environment? = some env)
    (hMain : s.main = c.session.main)
    (hScopes : s.scopes = c.session.scopes)
    (hNext : s.nextScope = c.session.nextScope) :
    Founded Base { c with session := s } where
  ready env h := hc.ready env (hEnv env h)
  numbered := hc.numbered.of_keys (by rw [hScopes]) hNext
  called id h := by
    rw [hNext] at h
    exact hc.called id h
  filled env h scope p hPartition := by
    rw [Session.partition?_of_fields hMain hScopes]
      at hPartition
    exact hc.filled env h scope p hPartition
  logged env h scope := hc.logged env h scope

/- The end of a start is no announcement of text. -/
theorem initialized
    (hc : c.Founded Base)
    (ready : Bool) :
    Founded Base
      { c with events := c.events ++ [.initialized ready] } where
  ready := hc.ready
  numbered := hc.numbered
  called := hc.called
  filled := hc.filled
  logged env h scope := by
    rw [notices_append]
    exact (List.append_nil _).trans (hc.logged env h scope)

/- A start empties all partitions but for the sheet it brings. -/
theorem opened
    (hc : c.Founded Base)
    (hEmpty : Base ∅)
    (env : Environment)
    {target : Sheet}
    (hTarget : Base target) :
    (c.opened env target).Founded Base where
  ready _ h := h
  numbered := hc.numbered.activate env target
  called _ _ := rfl
  filled env' h scope p hPartition := by
    cases scope with
    | none =>
        cases hPartition
        exact ⟨target, hTarget, rfl⟩
    | some id =>
        rw [Chronicle.opened, Session.partition?_activate]
          at hPartition
        rcases Option.map_eq_some_iff.1 hPartition with
          ⟨_, _, rfl⟩
        exact ⟨∅, hEmpty, rfl⟩
  logged _ _ _ := rfl

/- A call that is served continues the history of its partition. -/
theorem run
    (hc : c.Founded Base)
    (call : Call) :
    (c.run call).Founded Base := by
  rcases c.session.run_cases call with
    ⟨hFalse, _⟩ | ⟨env, p, hEnv, hPartition, hTrue, _⟩
  · rw [c.run_of_serves_eq_false hFalse]
    exact hc
  · -- Scopes that are still to come have no partition.
    have hScope :
        ∀ id, c.session.nextScope ≤ id → call.scope ≠ some id := by
      intro id hId hScope
      rw [hScope, Session.partition?, hc.numbered.get?_eq_none hId]
        at hPartition
      cases hPartition
    have hNext :
        (c.run call).session.nextScope = c.session.nextScope :=
      c.session.nextScope_run call
    rcases hc.filled env (hc.ready env hEnv) _ p hPartition with
      ⟨base, hBase, hp⟩
    have hStore :
        p.store =
          (env.filled call.scope.isSome
            (c.batches call.scope)).store :=
      hp ▸ env.store_filledFrom _ base _
    refine
      { ready := ?ready
        numbered := ?numbered
        called := ?called
        filled := ?filled
        logged := ?logged }
    case ready =>
      intro env' hEnv'
      rw [Chronicle.run, Session.environment?_run] at hEnv'
      exact hc.ready env' hEnv'
    case numbered => exact hc.numbered.run call
    case called =>
      intro id hId
      rw [hNext] at hId
      rw [c.batches_run hTrue, if_neg (hScope id hId)]
      exact hc.called id hId
    case filled =>
      intro env' hEnv' scope p' hPartition'
      rw [c.batches_run hTrue]
      by_cases hSame : call.scope = scope
      · subst hSame
        cases (hc.ready env hEnv).symm.trans hEnv'
        rw [Chronicle.run,
          c.session.partition?_run_self call hEnv hPartition]
          at hPartition'
        rw [if_pos rfl]
        refine ⟨base, hBase, ?_⟩
        rw [env.filledFrom_append_singleton, ← hp]
        exact (Option.some.inj hPartition').symm
      · rw [Chronicle.run,
          c.session.partition?_run_other call (Ne.symm hSame)]
          at hPartition'
        rw [if_neg hSame]
        exact hc.filled env' hEnv' scope p' hPartition'
    case logged =>
      intro env' hEnv' scope
      cases (hc.ready env hEnv).symm.trans hEnv'
      rw [c.notices_run hEnv hPartition, c.batches_run hTrue,
        hc.logged env (hc.ready env hEnv) scope]
      by_cases hSame : call.scope = scope
      · subst hSame
        rw [if_pos rfl, if_pos rfl, env.emitted_append_singleton,
          hStore, List.map_append]
      · rw [if_neg hSame, if_neg hSame, List.append_nil]

/- So do several calls. -/
theorem runAll
    (hc : c.Founded Base)
    (calls : List Call) :
    (c.runAll calls).Founded Base := by
  induction calls generalizing c with
  | nil =>
      rw [runAll_nil]
      exact hc
  | cons call calls ih =>
      rw [runAll_cons]
      exact ih (hc.run call)

/- A new scope is fresh, as its number was never used. -/
theorem createScope
    (hc : c.Founded Base)
    {target : Sheet}
    (hTarget : Base target) :
    Founded Base
      { c with
        session := (c.session.createScope target).session } where
  ready := hc.ready
  numbered := hc.numbered.createScope target
  called id h := by
    have hLess : c.session.nextScope < id := h
    exact hc.called id (Nat.le_of_lt hLess)
  filled env h scope p hPartition := by
    rw [Session.partition?_createScope] at hPartition
    split at hPartition
    · rename_i hNew
      subst hNew
      have hFresh := hc.called _ (Nat.le_refl _)
      change ∃ base, Base base ∧
        p = env.filledFrom true base (c.batches _)
      rw [hFresh]
      exact ⟨target, hTarget, (Option.some.inj hPartition).symm⟩
    · exact hc.filled env h scope p hPartition
  logged := hc.logged

/- The other scopes are still there without a dropped one. -/
theorem dropScope
    (hc : c.Founded Base)
    (id : Nat) :
    Founded Base
      { c with session := (c.session.dropScope id).session } where
  ready := hc.ready
  numbered := hc.numbered.dropScope id
  called := hc.called
  filled env h scope p hPartition := by
    rw [Session.partition?_dropScope] at hPartition
    split at hPartition
    · cases hPartition
    · exact hc.filled env h scope p hPartition
  logged := hc.logged

end Founded

------------------------------------------------------------
-- Operations keep the invariant
------------------------------------------------------------

variable {Base : Sheet → Prop} {c : Chronicle}

theorem Founded.call
    (hc : c.Founded Base)
    {op : Operation}
    {call : Call}
    (hCall : op.call? = some call) :
    (c.next op).Founded Base := by
  by_cases hPhase : c.session.phase = .waiting
  · have hPerform := c.session.perform_of_call? hCall
    rw [c.session.compile_of_waiting hPhase] at hPerform
    have hServes := c.session.serves_of_waiting hPhase call
    rw [c.next_of_silent]
    · rw [hPerform]
      exact hc.frame (fun _ h => h) rfl rfl rfl
    · exact Operation.opens?_of_call? hCall
    · rw [Operation.served_of_call? _ hCall]
      exact List.filter_cons_of_neg (by simp [hServes])
    · rw [hPerform]
      rfl
  · rw [c.next_of_call? hCall hPhase]
    exact hc.run call

theorem Founded.start
    (hc : c.Founded Base)
    (hEmpty : Base ∅)
    {o : Setup}
    (hTarget : Base o.target) :
    (c.next (.start o)).Founded Base := by
  rcases o.cases with
    ⟨env, hOpens⟩ | ⟨hNone, hFails⟩ | ⟨hNone, hDisabled⟩
  · rw [c.next_of_opens? hOpens]
    have hRan :=
      (hc.opened hEmpty env hTarget).runAll
        (Session.whitelistCalls o.whitelist ++ c.session.pending)
    have hEnded := hRan.initialized true
    exact hEnded.frame (fun _ h => h) rfl rfl rfl
  · rcases c.session.perform_of_fails hFails with ⟨e, hPerform⟩
    have hClosed : (Operation.start o).opens? = none := hNone
    rw [c.next_of_silent hClosed]
    · rw [hPerform]
      exact hc
    · rw [Operation.served, hNone]
    · rw [hPerform]
      rfl
  · have hStart := c.session.start_of_disabled hDisabled
    have hPerform :
        c.session.perform (.start o) =
          .done { c.session with phase := .disabled, pending := [] }
            .started := by
      rw [Session.perform, hStart]
      rfl
    have hClosed : (Operation.start o).opens? = none := hNone
    rw [c.next_of_silent hClosed]
    · rw [hPerform]
      exact hc.frame (fun _ h => by cases h) rfl rfl rfl
    · rw [Operation.served, hNone]
    · rw [hPerform]
      rfl

/- One case for each kind of operation. -/
theorem Founded.next
    (hc : c.Founded Base)
    (hEmpty : Base ∅)
    {op : Operation}
    (hBrings : op.Brings Base) :
    (c.next op).Founded Base := by
  cases op using Operation.cases_call with
  | start o => exact hc.start hEmpty hBrings
  | compiling op call hCall => exact hc.call hCall
  | createScope target =>
      rw [c.next_of_silent rfl rfl rfl]
      exact hc.createScope hBrings
  | dropScope id =>
      rw [c.next_of_silent rfl rfl rfl]
      exact hc.dropScope id

/-
  Whatever the operations, the partitions are what they began
  with and what the history made of it.
-/
theorem founded_after
    (hEmpty : Base ∅)
    {ops : List Operation}
    (hBrings : ∀ op ∈ ops, op.Brings Base) :
    (after ops).Founded Base := by
  induction ops using List.reverseRecOn with
  | nil => exact founded_empty Base
  | append_singleton ops op ih =>
      rw [after, List.foldl_append]
      refine Founded.next (ih ?_) hEmpty (hBrings op (by simp))
      exact fun op' h => hBrings op' (List.mem_append_left _ h)

/-
  Whatever the operations, as long as the sheets they bring
  are empty, the partitions are what the history says.
-/
theorem consistent_after
    {ops : List Operation}
    (hEmpty : ∀ op ∈ ops, op.BringsEmpty) :
    (after ops).Consistent := by
  have hc : (after ops).Founded (fun base => base = ∅) := by
    apply founded_after
    · rfl
    · intro op hOp
      have hOwn := hEmpty op hOp
      cases op <;> exact hOwn
  refine
    { ready := hc.ready
      numbered := fun _ hId => hc.numbered.get?_eq_none hId
      called := hc.called
      filled := ?filled
      logged := hc.logged }
  intro env hEnv scope p hPartition
  rcases hc.filled env hEnv scope p hPartition with
    ⟨base, rfl, hp⟩
  exact hp

end Chronicle

end AtomicCss
