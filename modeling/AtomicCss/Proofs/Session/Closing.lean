import AtomicCss.Proofs.Session.Delivery
import AtomicCss.Proofs.Session.Numbering

/-
  This file proves that no number is given to two scopes, and
  that a scope which was closed is closed for ever.

  Numbers are given in order, from the first that was never
  given. So the number of a scope that is gone never comes
  back, and what is asked of it later has no effect.

  Key definitions include:
    * `Operation.opensScope`
    * `Session.issued`
    * `Session.Closed`

  The main statements are:
    * `Session.issued_eq`
    * `Session.Closed.performAll`
    * `Session.Closed.perform_call`
    * `Session.Closed.perform_dropScope`
    * `Session.Closed.noticesFor_perform`
-/

namespace AtomicCss

/- Whether an operation opens a scope. -/
def Operation.opensScope : Operation → Bool
  | .createScope _ => true
  | _ => false

/- The number that an operation gives to a scope, if it does. -/
def Answer.created? : Answer → Option Nat
  | .created id => some id
  | _ => none

namespace Session

------------------------------------------------------------
-- Scopes and their numbers
------------------------------------------------------------

section Scopes

variable (s : Session)

theorem keys_scopes_runAll
    (calls : List Call) :
    (s.runAll calls).session.scopes.keys = s.scopes.keys := by
  induction calls generalizing s with
  | nil => rfl
  | cons call calls ih =>
      rw [runAll_cons]
      exact (ih _).trans (s.keys_scopes_run call)

theorem nextScope_runAll
    (calls : List Call) :
    (s.runAll calls).session.nextScope = s.nextScope := by
  induction calls generalizing s with
  | nil => rfl
  | cons call calls ih =>
      rw [runAll_cons]
      exact (ih _).trans (s.nextScope_run call)

/- An operation that compiles opens no scope and closes none. -/
theorem scopes_perform_call
    {op : Operation}
    {call : Call}
    (hCall : op.call? = some call) :
    (s.perform op).session.scopes.keys = s.scopes.keys ∧
      (s.perform op).session.nextScope = s.nextScope := by
  rcases s.perform_call_cases hCall with
    ⟨_, pending, hPerform⟩ | ⟨_, _, _, _, _, hPerform⟩
  · rw [hPerform]
    exact ⟨rfl, rfl⟩
  · rw [hPerform]
    exact ⟨s.keys_scopes_run call, s.nextScope_run call⟩

/- Neither does a start. -/
theorem scopes_start
    (o : Setup) :
    (s.start o).session.scopes.keys = s.scopes.keys ∧
      (s.start o).session.nextScope = s.nextScope := by
  rcases o.cases with
    ⟨env, hOpens⟩ | ⟨_, hEnabled, e, hEnv⟩ | ⟨_, hDisabled⟩
  · rw [s.start_runs hOpens]
    exact ⟨(keys_scopes_runAll _ _).trans
      (s.keys_scopes_activate env o.target), nextScope_runAll _ _⟩
  · rw [s.start_of_error hEnabled hEnv]
    exact ⟨rfl, rfl⟩
  · rw [s.start_of_disabled hDisabled]
    exact ⟨rfl, rfl⟩

/- A scope that is there was there before, or its number is new. -/
theorem mem_keys_scopes_perform
    {op : Operation}
    {id : Nat}
    (hId : id ∈ (s.perform op).session.scopes.keys) :
    id ∈ s.scopes.keys ∨ id = s.nextScope := by
  cases op using Operation.cases_call with
  | start o =>
      have hKeys : (s.perform (.start o)).session.scopes.keys = _ :=
        (s.scopes_start o).1
      rw [hKeys] at hId
      exact Or.inl hId
  | compiling op call hCall =>
      rw [(s.scopes_perform_call hCall).1] at hId
      exact Or.inl hId
  | createScope target =>
      have hKeys :
          (s.perform (.createScope target)).session.scopes.keys =
            if s.nextScope ∈ s.scopes.keys then s.scopes.keys
            else s.scopes.keys ++ [s.nextScope] :=
        OrderedMap.keys_upsert _ _ _
      rw [hKeys] at hId
      split at hId
      · exact Or.inl hId
      · simpa using hId
  | dropScope own =>
      have hKept : id ∈ (s.dropScope own).session.scopes.keys := hId
      rw [keys_scopes_dropScope] at hKept
      exact Or.inl (List.mem_filter.1 hKept).1

/- The number that an operation answers is the next one. -/
theorem created?_perform
    (op : Operation) :
    (s.perform op).result.toOption.bind Answer.created? =
      if op.opensScope then some s.nextScope else none := by
  -- Any other operation answers something else, if it succeeds.
  have hOther :
      ∀ {α : Type} (f : α → Answer) (r : Reply α),
        (∀ a, (f a).created? = none) →
          (r.map f).result.toOption.bind Answer.created? =
            none := by
    intro α f r hNone
    rcases r with ⟨_, _ | a, _⟩
    · rfl
    · exact hNone a
  cases op with
  | createScope target => rfl
  | _ => exact hOther _ _ (fun _ => rfl)

theorem nextScope_perform
    (op : Operation) :
    (s.perform op).session.nextScope =
      s.nextScope + if op.opensScope then 1 else 0 := by
  cases op using Operation.cases_call with
  | start o => exact (s.scopes_start o).2
  | compiling op call hCall =>
      have hNone : op.opensScope = false := by
        cases op <;> cases hCall <;> rfl
      rw [hNone]
      exact (s.scopes_perform_call hCall).2
  | createScope target => rfl
  | dropScope id => rfl

/- The numbers that operations answered, in order. -/
def issued
    (s : Session) : List Operation → List Nat
  | [] => []
  | op :: ops =>
      let r := s.perform op
      (r.result.toOption.bind Answer.created?).toList ++
        r.session.issued ops

/- Numbers are given in order, one for each scope opened. -/
theorem issued_eq
    (ops : List Operation) :
    s.issued ops =
        List.range' s.nextScope (ops.countP Operation.opensScope) ∧
      (s.performAll ops).1.nextScope =
        s.nextScope + ops.countP Operation.opensScope := by
  induction ops generalizing s with
  | nil => exact ⟨rfl, rfl⟩
  | cons op ops ih =>
      rcases ih (s.perform op).session with ⟨hIssued, hNext⟩
      rw [s.nextScope_perform op] at hIssued hNext
      rw [issued, performAll, List.countP_cons, s.created?_perform op]
      dsimp only
      rw [hIssued, hNext]
      cases op.opensScope with
      | true =>
          refine ⟨?_, ?_⟩
          · simp [List.range'_succ]
          · simp only [if_true]
            omega
      | false => simp

end Scopes

------------------------------------------------------------
-- Closed scopes
------------------------------------------------------------

/- Whether a number was given to a scope that is gone. -/
structure Closed
    (s : Session)
    (id : Nat) : Prop where
  given : id < s.nextScope
  gone : id ∉ s.scopes.keys

theorem closed_dropScope
    {s : Session}
    {id : Nat}
    (hGiven : id < s.nextScope) :
    (s.dropScope id).session.Closed id where
  given := hGiven
  gone := by simp [keys_scopes_dropScope]

namespace Closed

variable {s : Session} {id : Nat}

/- No operation opens a closed scope again. -/
theorem perform
    (h : s.Closed id)
    (op : Operation) :
    (s.perform op).session.Closed id where
  given := by
    have hGiven := h.given
    rw [nextScope_perform]
    omega
  gone hId := by
    rcases s.mem_keys_scopes_perform hId with hOld | hNew
    · exact h.gone hOld
    · exact absurd h.given (by omega)

theorem performAll
    (h : s.Closed id)
    (ops : List Operation) :
    (s.performAll ops).1.Closed id := by
  induction ops generalizing s with
  | nil => exact h
  | cons op ops ih => exact ih (h.perform op)

theorem partition?_eq_none
    (h : s.Closed id) :
    s.partition? (some id) = none := by
  by_contra hFound
  exact h.gone ((s.scopes.mem_keys_iff_get?_ne_none id).2 hFound)

/- To close it again has no effect. -/
theorem perform_dropScope
    (h : s.Closed id) :
    s.perform (.dropScope id) = .done s (.dropped none) := by
  have hScopes : s.scopes.erase id = s.scopes := by
    apply OrderedMap.ext
    apply List.filter_eq_self.2
    intro e he
    refine decide_eq_true (fun hKey => h.gone ?_)
    exact hKey ▸ List.mem_map_of_mem he
  have hSheet : s.scopes.get? id = none := h.partition?_eq_none
  rw [Session.perform, dropScope, hScopes, hSheet]
  rfl

/- A call into it emits nothing, and is at most kept. -/
theorem perform_call
    (h : s.Closed id)
    {op : Operation}
    {call : Call}
    (hCall : op.call? = some call)
    (hScope : call.scope = some id) :
    (s.perform op).result = .ok (.compiled {}) ∧
      (s.perform op).events = [] ∧
      (s.phase ≠ .waiting → (s.perform op).session = s) := by
  rw [s.perform_of_call? hCall]
  by_cases hPhase : s.phase = .waiting
  · rw [s.compile_of_waiting hPhase]
    exact ⟨rfl, rfl, fun hOther => absurd hPhase hOther⟩
  · have hServes : s.serves call = false := by
      rw [serves, hScope, h.partition?_eq_none]
      exact Bool.and_false _
    rw [s.compile_of_not_waiting hPhase,
      s.run_of_serves_eq_false call hServes]
    exact ⟨rfl, rfl, fun _ => rfl⟩

/- It is closed too when an operation begins to compile. -/
theorem readied
    (h : s.Closed id)
    (op : Operation) :
    (s.readied op).Closed id := by
  cases op with
  | start o =>
      rw [Session.readied]
      cases o.opens? with
      | none => exact h
      | some env =>
          refine ⟨h.given, ?_⟩
          rw [keys_scopes_activate]
          exact h.gone
  | _ => exact h

/- Nothing is announced for it, also not for calls that waited. -/
theorem noticesFor_perform
    (h : s.Closed id)
    (op : Operation) :
    Event.noticesFor (some id) (s.perform op).events = [] := by
  by_cases hText : (s.perform op).events = []
  · rw [hText]
    rfl
  · rcases s.delivers_perform op hText with ⟨env, _, hDelivers⟩
    apply List.filter_eq_nil_iff.2
    intro a ha
    rcases List.mem_filterMap.1 ha with ⟨e, he, hAppended⟩
    have hEvent : e = .appended a := by
      cases e with
      | initialized ready => cases hAppended
      | appended a' => exact congrArg _ (Option.some.inj hAppended)
    have hSheet := (hDelivers.addressed a (hEvent ▸ he)).1
    intro hScope
    rw [of_decide_eq_true hScope, sheet?,
      (h.readied op).partition?_eq_none] at hSheet
    cases hSheet

end Closed

end Session

end AtomicCss
