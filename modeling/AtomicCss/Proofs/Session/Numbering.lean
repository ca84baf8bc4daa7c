import AtomicCss.Proofs.OrderedMap
import AtomicCss.Proofs.Session.Operation
import Mathlib.Data.List.Sort

/-
  This file proves how scopes are numbered: in the order in
  which they were opened, and below the next number.

  Key definitions include:
    * `Session.Numbered`

  The main statements are:
    * `Session.keys_scopes_run`
    * `Session.Numbered.perform`
    * `Session.Numbered.performAll`
    * `Session.Numbered.filter_range`
-/

namespace AtomicCss

namespace Session

/- Scopes ascend, and the next number is above all of them. -/
structure Numbered
    (s : Session) : Prop where
  ascending : s.scopes.keys.Pairwise (· < ·)
  below : ∀ id ∈ s.scopes.keys, id < s.nextScope

------------------------------------------------------------
-- Numbers
------------------------------------------------------------

/- A call opens no scope and closes none. -/
theorem keys_scopes_run
    (s : Session)
    (call : Call) :
    (s.run call).session.scopes.keys = s.scopes.keys := by
  rcases s.run_cases call with
    ⟨_, hRun⟩ | ⟨env, p, _, hPartition, _, hRun⟩
  · rw [hRun]
    rfl
  · rw [hRun]
    cases hScope : call.scope with
    | none => rfl
    | some id =>
        rw [hScope] at hPartition
        have hFound : s.scopes.get? id = some p := hPartition
        have hMem : id ∈ s.scopes.keys :=
          (s.scopes.mem_keys_iff_get?_ne_none id).2
            (hFound ▸ Option.some_ne_none p)
        exact (OrderedMap.keys_upsert _ _ _).trans (if_pos hMem)

theorem keys_scopes_activate
    (s : Session)
    (env : Environment)
    (target : Sheet) :
    (s.activate env target).scopes.keys = s.scopes.keys :=
  OrderedMap.keys_mapValues _ _

theorem keys_scopes_dropScope
    (s : Session)
    (id : Nat) :
    (s.dropScope id).session.scopes.keys =
      s.scopes.keys.filter (fun id' => id' ≠ id) :=
  s.scopes.keys_erase id

namespace Numbered

variable {s t : Session}

/- A number that was not given yet is of no scope. -/
theorem get?_eq_none
    (h : s.Numbered)
    {id : Nat}
    (hId : s.nextScope ≤ id) :
    s.scopes.get? id = none := by
  by_contra hFound
  have hMem := (s.scopes.mem_keys_iff_get?_ne_none id).2 hFound
  exact absurd (h.below id hMem) (Nat.not_lt.2 hId)

theorem of_isEmpty
    (hEmpty : s.scopes = ∅) :
    s.Numbered := by
  constructor
  · rw [hEmpty]
    exact List.Pairwise.nil
  · rw [hEmpty]
    exact fun _ hId => absurd hId List.not_mem_nil

/- Nothing but the numbers matters. -/
theorem of_keys
    (h : s.Numbered)
    (hKeys : t.scopes.keys = s.scopes.keys)
    (hNext : t.nextScope = s.nextScope) :
    t.Numbered := by
  constructor
  · rw [hKeys]
    exact h.ascending
  · rw [hKeys, hNext]
    exact h.below

theorem run
    (h : s.Numbered)
    (call : Call) :
    (s.run call).session.Numbered :=
  h.of_keys (s.keys_scopes_run call) (s.nextScope_run call)

theorem runAll
    (h : s.Numbered)
    (calls : List Call) :
    (s.runAll calls).session.Numbered := by
  induction calls generalizing s with
  | nil => exact h
  | cons call calls ih =>
      rw [runAll_cons]
      exact ih (h.run call)

------------------------------------------------------------
-- Operations
------------------------------------------------------------

theorem activate
    (h : s.Numbered)
    (env : Environment)
    (target : Sheet) :
    (s.activate env target).Numbered :=
  h.of_keys (s.keys_scopes_activate env target) rfl

theorem start
    (h : s.Numbered)
    (o : Setup) :
    (s.start o).session.Numbered := by
  rcases o.cases with
    ⟨env, hOpens⟩ | ⟨_, hEnabled, e, hEnv⟩ | ⟨_, hDisabled⟩
  · rw [s.start_runs hOpens]
    exact ((h.activate env o.target).runAll _).of_keys rfl rfl
  · rw [s.start_of_error hEnabled hEnv]
    exact h
  · rw [s.start_of_disabled hDisabled]
    exact h.of_keys rfl rfl

theorem perform_call
    (h : s.Numbered)
    {op : Operation}
    {call : Call}
    (hCall : op.call? = some call) :
    (s.perform op).session.Numbered := by
  rcases s.perform_call_cases hCall with
    ⟨_, pending, hPerform⟩ | ⟨_, _, _, _, _, hPerform⟩
  · rw [hPerform]
    exact h.of_keys rfl rfl
  · rw [hPerform]
    exact h.run call

/- A new scope has the next number, which no scope had. -/
theorem createScope
    (h : s.Numbered)
    (target : Sheet) :
    (s.createScope target).session.Numbered := by
  have hNew : s.nextScope ∉ s.scopes.keys :=
    fun hMem => Nat.lt_irrefl _ (h.below _ hMem)
  have hKeys :
      (s.createScope target).session.scopes.keys =
        s.scopes.keys ++ [s.nextScope] :=
    (OrderedMap.keys_upsert _ _ _).trans (if_neg hNew)
  constructor
  · rw [hKeys]
    refine List.pairwise_append.2
      ⟨h.ascending, List.pairwise_singleton _ _, ?_⟩
    intro id hId next hNext
    rw [List.mem_singleton.1 hNext]
    exact h.below id hId
  · rw [hKeys]
    intro id hId
    rcases List.mem_append.1 hId with hOld | hLast
    · exact Nat.lt_succ_of_lt (h.below id hOld)
    · rw [List.mem_singleton.1 hLast]
      exact Nat.lt_succ_self _

theorem dropScope
    (h : s.Numbered)
    (id : Nat) :
    (s.dropScope id).session.Numbered := by
  constructor
  · rw [keys_scopes_dropScope]
    exact h.ascending.filter _
  · rw [keys_scopes_dropScope]
    exact fun id' hId => h.below id' (List.mem_filter.1 hId).1

/- Every operation keeps the numbering. -/
theorem perform
    (h : s.Numbered)
    (op : Operation) :
    (s.perform op).session.Numbered := by
  cases op using Operation.cases_call with
  | start o => exact h.start o
  | compiling op call hCall => exact h.perform_call hCall
  | createScope target => exact h.createScope target
  | dropScope id => exact h.dropScope id

theorem performAll
    (h : s.Numbered)
    (ops : List Operation) :
    (s.performAll ops).1.Numbered := by
  induction ops generalizing s with
  | nil => exact h
  | cons op ops ih => exact ih (h.perform op)

/- The scopes are the numbers given so far less the closed ones. -/
theorem filter_range
    (h : s.Numbered) :
    (List.range s.nextScope).filter s.scopes.contains =
      s.scopes.keys := by
  refine List.Pairwise.eq_of_mem_iff
    (List.pairwise_lt_range.filter _) h.ascending ?_
  intro id
  rw [List.mem_filter, List.mem_range,
    OrderedMap.contains_iff_mem_keys]
  exact ⟨And.right, fun hId => ⟨h.below id hId, hId⟩⟩

end Numbered

end Session

end AtomicCss
