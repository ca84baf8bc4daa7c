import AtomicCss.Proofs.Session.Consistency

/-
  This file proves that nothing is emitted twice into a
  partition: a call whose tokens were all compiled into it
  since the last start has no new text.

  What a partition has seen only grows between two starts, and
  the rule of a token depends on nothing but the token, what
  is compiled against and whether there is a host. It does not
  matter in which calls and in which order the tokens came.

  Key definitions include:
    * `Session.seen?`

  The main statements are:
    * `Environment.knows_rules_of_settled`
    * `Environment.outcome_of_knows`
    * `Session.run_of_knows`
    * `Session.known_tokens_emit_nothing`
-/

namespace AtomicCss

------------------------------------------------------------
-- Batches of known tokens
------------------------------------------------------------

namespace Environment

variable (env : Environment) (hosted : Bool)

/- A partition knows all rules of the batches compiled into it. -/
theorem knows_filled_of_mem_rules
    {batches : List (List String)}
    {tokens : List String}
    (hBatch : tokens ∈ batches)
    {r : Rule}
    (hRule : r ∈ env.rules hosted tokens) :
    (env.filled hosted batches).store.Knows r := by
  induction batches using List.reverseRecOn with
  | nil => cases hBatch
  | append_singleton batches last ih =>
      rw [filled_append_singleton]
      rcases List.mem_append.1 hBatch with hEarlier | hLast
      · have hKnown :
            (env.filled hosted batches).store.beginPass.Knows r :=
          ih hEarlier
        exact hKnown.offerAll _
      · cases List.mem_singleton.1 hLast
        exact RuleStore.knows_offerAll_of_mem _ hRule
          (declares_of_mem_rules hRule).1

/- So it knows those of tokens that all occur in the batches. -/
theorem knows_rules_of_settled
    {batches : List (List String)}
    {tokens : List String}
    (hSettled :
      ∀ text ∈ Token.settle tokens,
        ∃ batch ∈ batches, text ∈ Token.settle batch) :
    ∀ r ∈ env.rules hosted tokens,
      (env.filled hosted batches).store.Knows r := by
  intro r hr
  rcases List.mem_filterMap.1 hr with ⟨text, hText, hRule⟩
  rcases hSettled text hText with ⟨batch, hBatch, hOccurs⟩
  exact env.knows_filled_of_mem_rules hosted hBatch
    (List.mem_filterMap.2 ⟨text, hOccurs, hRule⟩)

variable {env hosted}

theorem newRules_of_knows
    {store : RuleStore}
    {tokens : List String}
    (hKnown : ∀ r ∈ env.rules hosted tokens, store.Knows r) :
    env.newRules store hosted tokens = [] :=
  store.beginPass.taken_eq_nil_of_knows hKnown

/- A batch of known rules stores nothing. -/
theorem storeAfter_of_knows
    {store : RuleStore}
    {tokens : List String}
    (hKnown : ∀ r ∈ env.rules hosted tokens, store.Knows r) :
    env.storeAfter store hosted tokens = store.beginPass :=
  store.beginPass.offerAll_eq_self_of_knows hKnown

/- It has no text, and each token is skipped or deduplicated. -/
theorem outcome_of_knows
    {store : RuleStore}
    {tokens : List String}
    (hKnown : ∀ r ∈ env.rules hosted tokens, store.Knows r) :
    let outcome := env.outcome store hosted tokens
    outcome.emitted = [] ∧
      outcome.tally.cached = 0 ∧
      outcome.tally.rendered = 0 ∧
      outcome.tally.skipped + outcome.tally.deduplicated =
        outcome.tally.tokens := by
  intro outcome
  have hNew := newRules_of_knows hKnown
  have hEmitted : outcome.emitted = [] := by
    dsimp only [outcome, Environment.outcome]
    rw [hNew, emissions]
    simp
  have hCached : outcome.tally.cached = 0 := by
    dsimp only [outcome, Environment.outcome]
    rw [hNew]
    rfl
  have hTally := env.tally_outcome store hosted tokens
  refine ⟨hEmitted, hCached, congrArg List.length hEmitted, ?_⟩
  change _ + outcome.tally.cached + _ = _ at hTally
  rw [hCached] at hTally
  exact hTally

end Environment

------------------------------------------------------------
-- Calls of known tokens
------------------------------------------------------------

namespace Session

/- The rules that a partition has seen, if it is there. -/
def seen?
    (s : Session)
    (scope : Option Nat) : Option (OrderedSet Fingerprint) :=
  (s.partition? scope).map (fun p => p.store.seen)

variable (s : Session)

/- A call of known rules changes only what the last pass gathered. -/
theorem run_of_knows
    {call : Call}
    {env : Environment}
    {p : Partition}
    (hEnv : s.environment? = some env)
    (hPartition : s.partition? call.scope = some p)
    (hKnown :
      ∀ r ∈ env.rules call.scope.isSome call.tokens,
        p.store.Knows r) :
    s.run call =
      .done
        (s.setPartition
          { p with store := p.store.beginPass } call.scope)
        (env.outcome p.store call.scope.isSome call.tokens) := by
  have hEmitted := (Environment.outcome_of_knows hKnown).1
  rw [s.run_of_partition? call hEnv hPartition, deliver, hEmitted,
    Environment.storeAfter_of_knows hKnown]
  cases call.scope <;> rfl

/- Of a partition it keeps the sheet and what was seen. -/
theorem sheet?_run_of_knows
    {call : Call}
    {env : Environment}
    {p : Partition}
    (hEnv : s.environment? = some env)
    (hPartition : s.partition? call.scope = some p)
    (hKnown :
      ∀ r ∈ env.rules call.scope.isSome call.tokens,
        p.store.Knows r)
    (scope : Option Nat) :
    (s.run call).session.sheet? scope = s.sheet? scope ∧
      (s.run call).session.seen? scope = s.seen? scope := by
  rw [s.run_of_knows hEnv hPartition hKnown]
  dsimp only [Reply.done]
  rw [sheet?, seen?, partition?_setPartition, sheet?, seen?]
  by_cases hScope : scope = call.scope
  · rw [if_pos hScope, hScope, hPartition]
    exact ⟨rfl, rfl⟩
  · rw [if_neg hScope]
    exact ⟨rfl, rfl⟩

/- A partition knows the rules of tokens of its earlier calls. -/
theorem knows_rules_after
    {ops : List Operation}
    {call : Call}
    (hSettled :
      ∀ text ∈ Token.settle call.tokens,
        ∃ batch ∈ (Chronicle.after ops).batches call.scope,
          text ∈ Token.settle batch)
    {env : Environment}
    {p : Partition}
    (hEnv :
      (Chronicle.after ops).session.environment? = some env)
    (hPartition :
      (Chronicle.after ops).session.partition? call.scope =
        some p) :
    ∀ r ∈ env.rules call.scope.isSome call.tokens,
      p.store.Knows r := by
  -- The sheets that the partitions began with do not matter.
  have hc : (Chronicle.after ops).Founded (fun _ => True) := by
    apply Chronicle.founded_after trivial
    intro op _
    cases op <;> exact trivial
  rcases hc.filled env (hc.ready env hEnv) _ p hPartition with
    ⟨base, _, hp⟩
  have hStore := env.store_filledFrom call.scope.isSome base
    ((Chronicle.after ops).batches call.scope)
  intro r hr
  rw [hp, hStore]
  exact env.knows_rules_of_settled _ hSettled r hr

/-
  A call whose tokens all occurred in calls that were compiled
  into its partition since the last start, or since the scope
  was created, emits nothing and announces nothing. The sheets
  and what was seen stay as they are, and every token is
  skipped or deduplicated.
-/
theorem known_tokens_emit_nothing
    {ops : List Operation}
    {op : Operation}
    {call : Call}
    (hCall : op.call? = some call)
    (hSettled :
      ∀ text ∈ Token.settle call.tokens,
        ∃ batch ∈ (Chronicle.after ops).batches call.scope,
          text ∈ Token.settle batch) :
    let s := (Chronicle.after ops).session
    let r := s.perform op
    (∃ outcome,
      r.result = .ok (.compiled outcome) ∧
      outcome.emitted = [] ∧
      outcome.tally.cached = 0 ∧
      outcome.tally.rendered = 0 ∧
      outcome.tally.skipped + outcome.tally.deduplicated =
        outcome.tally.tokens ∧
      (s.serves call = true →
        outcome.tally.tokens =
          (Token.settle call.tokens).length)) ∧
    r.events = [] ∧
    ∀ scope,
      r.session.sheet? scope = s.sheet? scope ∧
      r.session.seen? scope = s.seen? scope := by
  intro s r
  dsimp only [r]
  rcases s.perform_call_cases hCall with
    ⟨hServes, pending, hPerform⟩ |
      ⟨env, p, hEnv, hPartition, _, hPerform⟩
  · rw [hPerform, hServes]
    refine ⟨⟨{}, rfl, rfl, rfl, rfl, rfl, ?_⟩, rfl, ?_⟩
    · exact fun h => Bool.noConfusion h
    · intro scope
      cases scope <;> exact ⟨rfl, rfl⟩
  · have hKnown := knows_rules_after hSettled hEnv hPartition
    have hRun := s.run_of_knows hEnv hPartition hKnown
    rcases Environment.outcome_of_knows hKnown with
      ⟨hEmitted, hCached, hRendered, hTokens⟩
    rw [hPerform]
    refine ⟨⟨_, ?_, hEmitted, hCached, hRendered, hTokens, ?_⟩,
      ?_, s.sheet?_run_of_knows hEnv hPartition hKnown⟩
    · rw [hRun]
      rfl
    · exact fun _ => rfl
    · rw [hRun]
      rfl

/-
  Tokens of two calls into a scope, with a call elsewhere and
  a competing token in between.
-/
theorem known_tokens_emit_nothing_of_swatches :
    let ops : List Operation :=
      [.start Setup.swatches,
        .createScope ∅,
        .compile ["color=red"] (some 0),
        .compile ["color=red"] none,
        .compile ["color=blue", "x"] (some 0)]
    let call : Call := ⟨["x", "color=red"], some 0⟩
    let op : Operation := .compile call.tokens call.scope
    let c := Chronicle.after ops
    (∀ text ∈ Token.settle call.tokens,
      ∃ batch ∈ c.batches call.scope,
        text ∈ Token.settle batch) ∧
    c.session.serves call = true ∧
    ∃ outcome,
      (c.session.perform op).result = .ok (.compiled outcome) ∧
      outcome.emitted = [] ∧
      outcome.tally.skipped + outcome.tally.deduplicated = 2 := by
  intro ops call op c
  have hSettled :
      ∀ text ∈ Token.settle call.tokens,
        ∃ batch ∈ c.batches call.scope,
          text ∈ Token.settle batch := by
    decide
  have hServes : c.session.serves call = true := rfl
  have hCall : op.call? = some call := rfl
  rcases (known_tokens_emit_nothing hCall hSettled).1 with
    ⟨outcome, hResult, hEmitted, _, _, hTokens, hAll⟩
  have hTwo : (Token.settle call.tokens).length = 2 := by decide
  exact ⟨hSettled, hServes, outcome, hResult, hEmitted,
    hTokens.trans ((hAll hServes).trans hTwo)⟩

end Session

end AtomicCss
