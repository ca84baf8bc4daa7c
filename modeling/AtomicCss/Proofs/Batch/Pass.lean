import AtomicCss.Proofs.Batch.Gathered
import AtomicCss.Proofs.Cascade
import Mathlib.Data.List.ReduceOption

/-
  This file proves what a pass does to its store, its tally
  and the breakpoints it touches, and that it never fails.

  A pass offers the rules of its tokens to the store, one after
  another. All it does is determined by those that are new.

  Key definitions include:
    * `Environment.rules`
    * `Environment.newRules`
    * `Environment.storeAfter`
    * `Pass.advance`

  The main statements are:
    * `Environment.declares_of_rule?`
    * `Environment.foldlM_step`
    * `Pass.store_foldl_advance`
    * `Pass.tally_foldl_advance`
-/

namespace AtomicCss

------------------------------------------------------------
-- Rules of tokens
------------------------------------------------------------

namespace Environment

variable (env : Environment)

/- The rules of the settled tokens, in order. -/
def rules
    (hosted : Bool)
    (tokens : List String) : List Rule :=
  (Token.settle tokens).filterMap (env.rule? hosted)

/- The rules of a batch that are new to a store, in order. -/
def newRules
    (store : RuleStore)
    (hosted : Bool)
    (tokens : List String) : List Rule :=
  store.beginPass.taken (env.rules hosted tokens)

/- The store after a batch. -/
def storeAfter
    (store : RuleStore)
    (hosted : Bool)
    (tokens : List String) : RuleStore :=
  store.beginPass.offerAll (env.rules hosted tokens)

/- What a store has seen grows by the new rules of a batch. -/
theorem seen_storeAfter
    (store : RuleStore)
    (hosted : Bool)
    (tokens : List String) :
    (env.storeAfter store hosted tokens).seen =
      (env.newRules store hosted tokens).foldl
        (fun seen r => seen.insert r.fingerprint ()) store.seen :=
  RuleStore.seen_offerAll _ _

/- What was gathered of a batch are its new rules. -/
theorem working_storeAfter
    (store : RuleStore)
    (hosted : Bool)
    (tokens : List String) :
    (env.storeAfter store hosted tokens).working =
      Rule.gathered (env.newRules store hosted tokens) :=
  RuleStore.working_offerAll _ _

variable {env}

/- The breakpoint of a token that was read belongs to the cascade. -/
theorem exists_breakpoint_of_read?
    {hosted : Bool}
    {text : String}
    {t : Token}
    (hRead :
      Token.read? env.cascade env.catalog hosted text = some t) :
    ∃ b ∈ env.cascade.breakpoints, b.name = t.breakpoint := by
  have hHead :
      ∀ text : String,
        (Token.Head.ofText env.cascade text).breakpoint ∈
          env.cascade.breakpoints := by
    intro text
    unfold Token.Head.ofText
    dsimp only
    split
    · rename_i b hOpening
      exact (Cascade.of_longestOpening? hOpening).1
    · exact List.head_mem env.cascade.breakpoints_ne_nil
  unfold Token.read? at hRead
  dsimp only at hRead
  split at hRead
  · cases hRead
  · split at hRead
    · cases hRead
      exact ⟨_, hHead _, rfl⟩
    · cases hRead

/-
  The rule of a token declares something, at a breakpoint of
  the cascade.
-/
theorem declares_of_rule?
    {hosted : Bool}
    {text : String}
    {r : Rule}
    (hRule : env.rule? hosted text = some r) :
    r.Declares ∧
      ∃ b ∈ env.cascade.breakpoints, b.name = r.breakpoint := by
  unfold rule? at hRule
  rcases Option.bind_eq_some_iff.1 hRule with ⟨t, hRead, hRule⟩
  rcases Option.bind_eq_some_iff.1 hRule with ⟨u, _, hRule⟩
  dsimp only at hRule
  split at hRule
  · cases hRule
  · rename_i hDeclares
    cases hRule
    refine ⟨?_, exists_breakpoint_of_read? hRead⟩
    simpa [Rule.Declares] using hDeclares

theorem declares_of_mem_rules
    {hosted : Bool}
    {tokens : List String}
    {r : Rule}
    (hRule : r ∈ env.rules hosted tokens) :
    r.Declares ∧
      ∃ b ∈ env.cascade.breakpoints, b.name = r.breakpoint := by
  rcases List.mem_filterMap.1 hRule with ⟨_, _, hText⟩
  exact declares_of_rule? hText

end Environment

------------------------------------------------------------
-- Steps
------------------------------------------------------------

/-
  A pass after one more token, whose rule is given. It offers
  the rule to the store.
-/
def Pass.advance
    (pass : Pass) : Option Rule → Pass
  | none =>
      { pass with
        tally :=
          { pass.tally with skipped := pass.tally.skipped + 1 } }
  | some r =>
      if (pass.store.offer r).1 then
        { store := (pass.store.offer r).2
          tally := { pass.tally with cached := pass.tally.cached + 1 }
          touched := pass.touched.insert r.breakpoint () }
      else
        { pass with
          store := (pass.store.offer r).2
          tally :=
            { pass.tally with
              deduplicated := pass.tally.deduplicated + 1 } }

namespace Environment

variable {env : Environment}

/- A step never fails, as the rule of a token declares something. -/
theorem step_eq_ok
    (hosted : Bool)
    (pass : Pass)
    (text : String) :
    env.step hosted pass text =
      .ok (pass.advance (env.rule? hosted text)) := by
  unfold step
  cases hRule : env.rule? hosted text with
  | none => rfl
  | some r =>
      have hInsert :=
        pass.store.insert_of_declares (declares_of_rule? hRule).1
      simp only [hInsert, bind, Except.bind, Pass.advance]
      split <;> rfl

theorem foldlM_step
    (hosted : Bool)
    (texts : List String)
    (pass : Pass) :
    texts.foldlM (env.step hosted) pass =
      .ok ((texts.map (env.rule? hosted)).foldl Pass.advance pass) := by
  induction texts generalizing pass with
  | nil => rfl
  | cons text rest ih =>
      rw [List.foldlM_cons, step_eq_ok]
      exact ih _

end Environment

namespace Pass

variable (pass : Pass) (found : List (Option Rule))

/- A pass offers all rules to its store. -/
theorem store_foldl_advance :
    (found.foldl advance pass).store =
      pass.store.offerAll found.reduceOption := by
  induction found generalizing pass with
  | nil => rfl
  | cons rule? rest ih =>
      rw [List.foldl_cons, ih]
      cases rule? with
      | none => rfl
      | some r =>
          rw [List.reduceOption_cons_of_some,
            RuleStore.offerAll_cons, advance]
          split <;> rfl

/- A pass touches the breakpoints of its new rules. -/
theorem touched_foldl_advance :
    (found.foldl advance pass).touched =
      (pass.store.taken found.reduceOption).foldl
        (fun touched r => touched.insert r.breakpoint ())
        pass.touched := by
  induction found generalizing pass with
  | nil => rfl
  | cons rule? rest ih =>
      rw [List.foldl_cons, ih]
      cases rule? with
      | none => rfl
      | some r =>
          rw [List.reduceOption_cons_of_some, RuleStore.taken,
            advance]
          split <;> rfl

/-
  A pass counts tokens without a rule as skipped, new rules as
  cached and the other rules as deduplicated.
-/
theorem tally_foldl_advance :
    (found.foldl advance pass).tally =
      { pass.tally with
        skipped := pass.tally.skipped + found.count none
        cached :=
          pass.tally.cached +
            (pass.store.taken found.reduceOption).length
        deduplicated :=
          pass.tally.deduplicated +
            (found.reduceOption.length -
              (pass.store.taken found.reduceOption).length) } := by
  induction found generalizing pass with
  | nil => rfl
  | cons rule? rest ih =>
      rw [List.foldl_cons, ih]
      cases rule? with
      | none =>
          rw [List.reduceOption_cons_of_none, advance,
            Tally.mk.injEq, List.count_cons_self]
          dsimp only
          exact ⟨rfl, by omega, rfl, rfl, rfl⟩
      | some r =>
          have hLength :=
            ((pass.store.offer r).2.taken_sublist
              rest.reduceOption).length_le
          rw [List.reduceOption_cons_of_some, RuleStore.taken,
            advance, List.count_cons_of_ne (by simp)]
          by_cases hNew : (pass.store.offer r).1 = true
          · rw [if_pos hNew, if_pos hNew, Tally.mk.injEq,
              List.length_cons, List.length_cons]
            dsimp only
            exact ⟨rfl, rfl, by omega, by omega, rfl⟩
          · rw [if_neg hNew, if_neg hNew, Tally.mk.injEq,
              List.length_cons]
            dsimp only
            exact ⟨rfl, rfl, rfl, by omega, rfl⟩

end Pass

end AtomicCss
