import AtomicCss.Proofs.Session.Operation

/-
  This file proves that nothing but a configuration makes an
  operation fail, and that an operation that fails leaves no
  trace.

  A start changes the session before it compiles the whitelist
  and the calls that were waiting. That is safe only because
  compiling never fails, whatever the catalog and the tokens.

  Key definitions include:
    * `Error.IsOfConfig`
    * `Operation.failure?`

  The main statements are:
    * `Setup.isOfConfig_of_environment?`
    * `Session.perform_of_failure?`
    * `Session.result_perform_eq_error_iff`
    * `Session.failures_leave_no_trace`
-/

namespace AtomicCss

------------------------------------------------------------
-- Errors of configurations
------------------------------------------------------------

/- Whether an error is found in a configuration. -/
def Error.IsOfConfig : Error → Prop
  | .emptyDeclarations _ _ => False
  | _ => True

theorem Error.ne_emptyDeclarations
    {e : Error}
    (hConfig : e.IsOfConfig)
    (breakpoint selector : String) :
    e ≠ .emptyDeclarations breakpoint selector := by
  rintro rfl
  exact hConfig

/- One of two computations in a row fails if both together do. -/
theorem eq_error_of_bind
    {α β ε : Type}
    {x : Except ε α}
    {f : α → Except ε β}
    {e : ε}
    (hError : x >>= f = .error e) :
    x = .error e ∨ ∃ a, x = .ok a ∧ f a = .error e := by
  cases x with
  | error e' => exact Or.inl (by cases hError; rfl)
  | ok a => exact Or.inr ⟨a, rfl, hError⟩

theorem exists_of_foldlM_eq_error
    {σ α ε : Type}
    {step : σ → α → Except ε σ}
    {xs : List α}
    {s : σ}
    {e : ε}
    (hError : xs.foldlM step s = .error e) :
    ∃ t, ∃ x ∈ xs, step t x = .error e := by
  induction xs generalizing s with
  | nil => cases hError
  | cons x rest ih =>
      rw [List.foldlM_cons] at hError
      rcases eq_error_of_bind hError with
        hStep | ⟨t, _, hRest⟩
      · exact ⟨s, x, List.mem_cons_self, hStep⟩
      · rcases ih hRest with ⟨t', y, hy, hFound⟩
        exact ⟨t', y, List.mem_cons_of_mem x hy, hFound⟩

theorem Cascade.isOfConfig_of_build?
    {config : OrderedMap String Float}
    {e : Error}
    (hError : build? config = .error e) :
    e.IsOfConfig := by
  unfold build? at hError
  split at hError
  · cases hError
    exact trivial
  · split at hError
    · cases hError
      exact trivial
    · cases hError

theorem Family.isOfConfig_of_scale?
    {f : Family}
    {scales : Scales}
    {e : Error}
    (hError : f.scale? scales = .error e) :
    e.IsOfConfig := by
  unfold scale? at hError
  split at hError
  · cases hError
  · split at hError
    · cases hError
      exact trivial
    · cases hError

theorem Pattern.isOfConfig_of_read?
    {text : String}
    {e : Error}
    (hError : read? text = .error e) :
    e.IsOfConfig := by
  unfold read? at hError
  dsimp only at hError
  split at hError
  · cases hError
    exact trivial
  · cases hError

/- Families and overrides are all that a catalog can fail at. -/
theorem Catalog.isOfConfig_of_ofConfig
    {config : Config}
    {e : Error}
    (hError : ofConfig config = .error e) :
    e.IsOfConfig := by
  rcases eq_error_of_bind hError with hFamilies | ⟨_, _, hRest⟩
  · rcases exists_of_foldlM_eq_error hFamilies with
      ⟨c, f, _, hFamily⟩
    rcases eq_error_of_bind hFamily with hScale | ⟨_, _, hNone⟩
    · exact Family.isOfConfig_of_scale? hScale
    · cases hNone
  · rcases exists_of_foldlM_eq_error hRest with
      ⟨c, entry, _, hOverride⟩
    rcases eq_error_of_bind hOverride with
      hPattern | ⟨_, _, hNone⟩
    · exact Pattern.isOfConfig_of_read? hPattern
    · cases hNone

/- What makes a setup fail is found in its configuration. -/
theorem Setup.isOfConfig_of_environment?
    {o : Setup}
    {e : Error}
    (hError : o.environment? = .error e) :
    e.IsOfConfig := by
  rcases eq_error_of_bind hError with hCascade | ⟨_, _, hRest⟩
  · exact Cascade.isOfConfig_of_build? hCascade
  · rcases eq_error_of_bind hRest with hCatalog | ⟨_, _, hNone⟩
    · exact Catalog.isOfConfig_of_ofConfig hCatalog
    · cases hNone

------------------------------------------------------------
-- Operations that fail
------------------------------------------------------------

/- What an operation fails with, in whatever session. -/
def Operation.failure? : Operation → Option Error
  | .start o =>
      match o.enabled, o.environment? with
      | true, .error e => some e
      | _, _ => none
  | _ => none

theorem Operation.failure?_eq_some_iff
    (op : Operation)
    (e : Error) :
    op.failure? = some e ↔
      ∃ o, op = .start o ∧
        o.enabled = true ∧ o.environment? = .error e := by
  cases op with
  | start o =>
      unfold failure?
      cases hEnabled : o.enabled <;>
        cases hEnv : o.environment? <;>
          simp [hEnabled, hEnv]
  | _ => simp [failure?]

namespace Session

variable (s : Session)

theorem perform_of_failure?
    {op : Operation}
    {e : Error}
    (hFailure : op.failure? = some e) :
    s.perform op = .failed s e := by
  rcases (op.failure?_eq_some_iff e).1 hFailure with
    ⟨o, rfl, hEnabled, hEnv⟩
  rw [perform, s.start_of_error hEnabled hEnv]
  rfl

/- Whatever is compiled, there is a result. -/
theorem result_perform_of_call?
    {op : Operation}
    {call : Call}
    (hCall : op.call? = some call) :
    ∃ a, (s.perform op).result = .ok a := by
  rcases s.perform_announces hCall with ⟨outcome, hResult, _⟩
  exact ⟨.compiled outcome, hResult⟩

/- An operation without a reason to fail has a result. -/
theorem result_perform_of_failure?
    {op : Operation}
    (hFailure : op.failure? = none) :
    ∃ a, (s.perform op).result = .ok a := by
  cases op using Operation.cases_call with
  | start o =>
      rcases o.cases with
        ⟨env, hOpens⟩ | ⟨_, hEnabled, e, hEnv⟩ | ⟨_, hOff⟩
      · rw [perform, s.start_of_opens? hOpens]
        exact ⟨_, rfl⟩
      · have hSome :=
          ((Operation.start o).failure?_eq_some_iff e).2
            ⟨o, rfl, hEnabled, hEnv⟩
        rw [hFailure] at hSome
        cases hSome
      · rw [perform, s.start_of_disabled hOff]
        exact ⟨_, rfl⟩
  | compiling op call hCall => exact s.result_perform_of_call? hCall
  | createScope target => exact ⟨_, rfl⟩
  | dropScope id => exact ⟨_, rfl⟩

/- Whether an operation fails does not depend on the session. -/
theorem result_perform_eq_error_iff
    (op : Operation)
    (e : Error) :
    (s.perform op).result = .error e ↔ op.failure? = some e := by
  constructor
  · intro hResult
    cases hFailure : op.failure? with
    | none =>
        rcases s.result_perform_of_failure? hFailure with
          ⟨a, hOk⟩
        rw [hResult] at hOk
        cases hOk
    | some e' =>
        rw [s.perform_of_failure? hFailure] at hResult
        cases hResult
        rfl
  · intro hFailure
    rw [s.perform_of_failure? hFailure]
    rfl

/- So operations that fail could as well not be performed. -/
theorem performAll_filter_failure?
    (ops : List Operation) :
    s.performAll (ops.filter (fun op => op.failure?.isNone)) =
      s.performAll ops := by
  induction ops generalizing s with
  | nil => rfl
  | cons op ops ih =>
      cases hFailure : op.failure? with
      | none =>
          rw [List.filter_cons_of_pos (by simp [hFailure]),
            performAll, performAll, ih]
      | some e =>
          rw [List.filter_cons_of_neg (by simp [hFailure]),
            performAll, s.perform_of_failure? hFailure, ih]
          rfl

/-
  In every session, an operation that compiles has a result,
  and an operation fails exactly if it is a start whose
  configuration cannot be built. The error is then of the
  configuration, the session is what it was before, and there
  is no event. So a run is the same without the operations
  that fail.
-/
theorem failures_leave_no_trace :
    (∀ op call, op.call? = some call →
      ∃ outcome,
        (s.perform op).result = .ok (.compiled outcome)) ∧
    (∀ op e, (s.perform op).result = .error e ↔
      ∃ o, op = .start o ∧
        o.enabled = true ∧ o.environment? = .error e) ∧
    (∀ op e, (s.perform op).result = .error e →
      (∀ breakpoint selector,
        e ≠ .emptyDeclarations breakpoint selector) ∧
      (s.perform op).session = s ∧
      (s.perform op).events = []) ∧
    ∀ ops : List Operation,
      s.performAll (ops.filter (fun op => op.failure?.isNone)) =
        s.performAll ops := by
  refine ⟨?_, ?_, ?_, s.performAll_filter_failure?⟩
  · intro op call hCall
    rcases s.perform_announces hCall with ⟨outcome, hResult, _⟩
    exact ⟨outcome, hResult⟩
  · intro op e
    rw [s.result_perform_eq_error_iff, op.failure?_eq_some_iff]
  · intro op e hError
    have hFailure := (s.result_perform_eq_error_iff op e).1 hError
    rcases (op.failure?_eq_some_iff e).1 hFailure with
      ⟨o, _, _, hEnv⟩
    have hConfig := Setup.isOfConfig_of_environment? hEnv
    rw [s.perform_of_failure? hFailure]
    exact ⟨e.ne_emptyDeclarations hConfig, rfl, rfl⟩

/- A start without breakpoints, in a session that has compiled. -/
theorem failures_leave_no_trace_of_swatches :
    let ops : List Operation :=
      [.createScope ∅,
        .start Setup.swatches,
        .compile ["color=red"] (some 0)]
    let s := (new.performAll ops).1
    let op : Operation := .start { builtin := false }
    (s.perform op).result = .error .noBreakpoints ∧
    (s.perform op).session = s ∧
    (s.sheet? (some 0)).map Sheet.css =
      some ":host\x7bcolor:red;\x7d" := by
  intro ops s op
  have hError : (s.perform op).result = .error .noBreakpoints :=
    rfl
  exact ⟨hError,
    (s.failures_leave_no_trace.2.2.1 op _ hError).2.1, by decide⟩

end Session

end AtomicCss
