import AtomicCss.Proofs.Batch.Deciding
import AtomicCss.Proofs.Session.Deduplication
import AtomicCss.Proofs.Session.Repetition
import AtomicCss.Proofs.Token.Settling

/-
  This file proves that it does not matter whether tokens that
  do not compete are compiled in one call or in two.

  A store takes from a batch what it has not seen, and what it
  gathers plays no part in that. So the new rules of the one
  call are those of the first call and then those of the
  second. Only the blocks differ: the one call lays over each
  other what the two calls write one after the other.

  Key definitions include:
    * `Environment.Prints`
    * `Session.blocksAt`

  The main statements are:
    * `RuleStore.taken_beginPass`
    * `Environment.newRules_append`
    * `Environment.tally_append`
    * `Environment.prints_emitted`
    * `Session.batching_does_not_matter`
-/

namespace AtomicCss

------------------------------------------------------------
-- Batches in a row
------------------------------------------------------------

/- What is taken does not depend on what was gathered. -/
theorem RuleStore.taken_beginPass
    (s : RuleStore)
    (rules : List Rule) :
    s.beginPass.taken rules = s.taken rules := by
  have hSeen :
      ∀ f, s.beginPass.seen.contains f =
        (s.seen.contains f || false) :=
    fun f => (Bool.or_false _).symm
  have hTaken := taken_eq_filter_of_seen hSeen rules
  simpa using hTaken

namespace Environment

variable {env : Environment} {store : RuleStore} {hosted : Bool}
variable {xs ys : List String}

variable (hApart : Token.Apart xs ys)

include hApart

theorem rules_append :
    env.rules hosted (xs ++ ys) =
      env.rules hosted xs ++ env.rules hosted ys := by
  simp only [rules, Token.settle_append hApart,
    List.filterMap_append]

/- The new rules of both batches together are those of each in turn. -/
theorem newRules_append :
    env.newRules store hosted (xs ++ ys) =
      env.newRules store hosted xs ++
        env.newRules (env.storeAfter store hosted xs) hosted ys := by
  rw [newRules, rules_append hApart, RuleStore.taken_append,
    newRules, newRules, RuleStore.taken_beginPass (storeAfter ..)]
  rfl

theorem seen_storeAfter_append :
    (env.storeAfter store hosted (xs ++ ys)).seen =
      (env.storeAfter (env.storeAfter store hosted xs)
        hosted ys).seen := by
  simp only [seen_storeAfter, newRules_append hApart,
    List.foldl_append]

/- Both tallies together are that of the whole. -/
theorem tally_append :
    let whole := (env.outcome store hosted (xs ++ ys)).tally
    let first := (env.outcome store hosted xs).tally
    let second :=
      (env.outcome (env.storeAfter store hosted xs) hosted ys).tally
    whole.tokens = first.tokens + second.tokens ∧
      whole.skipped = first.skipped + second.skipped ∧
      whole.cached = first.cached + second.cached ∧
      whole.deduplicated =
        first.deduplicated + second.deduplicated := by
  have hFirst :
      (env.newRules store hosted xs).length ≤
        (env.rules hosted xs).length :=
    (RuleStore.taken_sublist _ _).length_le
  have hSecond :
      (env.newRules (env.storeAfter store hosted xs)
        hosted ys).length ≤ (env.rules hosted ys).length :=
    (RuleStore.taken_sublist _ _).length_le
  simp only [outcome, Token.settle_append hApart,
    rules_append hApart, newRules_append hApart, List.length_append,
    List.map_append, List.count_append, true_and]
  omega

end Environment

------------------------------------------------------------
-- Text as blocks
------------------------------------------------------------

/-
  Whether text was printed from blocks: all text that chunks
  have for a breakpoint are its blocks, under its condition.
-/
def Environment.Prints
    (env : Environment)
    (chunks : List Chunk)
    (blocks : Breakpoint → List (String × Declarations)) : Prop :=
  (∀ c ∈ chunks, c.breakpoint ∈ env.cascade.breakpoints) ∧
  ∀ b ∈ env.cascade.breakpoints,
    Chunk.textsAt chunks b.name =
      if blocks b = [] then
        []
      else
        [Render.wrap b (String.join
          ((blocks b).map (Render.block env.extensions)))]

/- The new text of a batch is printed from its new rules. -/
theorem Environment.prints_emitted
    (env : Environment)
    (store : RuleStore)
    (hosted : Bool)
    (tokens : List String) :
    env.Prints (env.outcome store hosted tokens).emitted
      (fun b =>
        Rule.blocksAt (env.newRules store hosted tokens) b.name) := by
  constructor
  · intro c hc
    rcases List.mem_map.1 hc with ⟨b, hb, rfl⟩
    exact (List.mem_filter.1 hb).1
  · intro b hb
    have hNil :=
      Rule.blocksAt_eq_nil_iff
        (env.newRules store hosted tokens) b.name
    refine (env.textsAt_emissions _ hb).trans ?_
    by_cases hName :
        b.name ∈
          (env.newRules store hosted tokens).map Rule.breakpoint
    · rw [if_pos hName, if_neg (fun h => hNil.1 h hName),
        bodyAt_eq_join_block]
    · rw [if_neg hName, if_pos (hNil.2 hName)]

------------------------------------------------------------
-- Calls
------------------------------------------------------------

namespace Session

/-
  The blocks that the last call into a partition has gathered
  at a breakpoint.
-/
def blocksAt
    (s : Session)
    (scope : Option Nat)
    (b : Breakpoint) : List (String × Declarations) :=
  match s.partition? scope with
  | some p => Render.rules p.store.working b
  | none => []

/- A call of a session that compiles fills its partition. -/
theorem compile_fills
    {s : Session}
    {env : Environment}
    {scope : Option Nat}
    {p : Partition}
    (hEnv : s.environment? = some env)
    (hPartition : s.partition? scope = some p)
    (tokens : List String) :
    let r := s.compile tokens scope
    r.result = .ok (env.outcome p.store scope.isSome tokens) ∧
      r.session.environment? = some env ∧
      r.session.partition? scope =
        some (env.fill scope.isSome p tokens) := by
  let call : Call := ⟨tokens, scope⟩
  have hPhase := s.phase_ne_waiting_of_environment? hEnv
  have hCompile : s.compile tokens scope = s.run call :=
    s.compile_of_not_waiting hPhase call
  dsimp only
  rw [hCompile]
  refine ⟨?_, ?_, s.partition?_run_self call hEnv hPartition⟩
  · rw [s.run_of_partition? call hEnv hPartition]
    rfl
  · rw [environment?_run]
    exact hEnv

/- The blocks of a filled partition are those of its new rules. -/
theorem blocksAt_of_filled
    {s : Session}
    {env : Environment}
    {hosted : Bool}
    {scope : Option Nat}
    {p : Partition}
    {tokens : List String}
    (hFilled :
      s.partition? scope = some (env.fill hosted p tokens)) :
    s.blocksAt scope =
      fun b =>
        Rule.blocksAt (env.newRules p.store hosted tokens) b.name := by
  funext b
  rw [blocksAt, hFilled]
  change Render.rules (env.storeAfter p.store hosted tokens).working b = _
  rw [env.working_storeAfter]
  exact Rule.rules_gathered env.declares_of_mem_newRules b

/-
  In a session that compiles, whatever its state, let there be
  two lists of tokens such that none of the one competes with
  one of the other. Whether they are compiled into a partition
  in one call or in two, in the end it has seen the same rules,
  and the tallies of the two calls add up to that of the one.
  The new text is printed from blocks; the last block in which
  a selector has a property gives it the same value, whether
  it is looked for in the blocks of the one call or in those
  of the first call with those of the second behind them.
-/
theorem batching_does_not_matter
    {s : Session}
    {env : Environment}
    (hEnv : s.environment? = some env)
    {scope : Option Nat}
    (hPartition : (s.partition? scope).isSome = true)
    {xs ys : List String}
    (hApart : Token.Apart xs ys) :
    let whole := s.compile (xs ++ ys) scope
    let first := s.compile xs scope
    let second := first.session.compile ys scope
    ∃ o a b,
      whole.result = .ok o ∧
      first.result = .ok a ∧
      second.result = .ok b ∧
      (∃ seen,
        whole.session.seen? scope = some seen ∧
        second.session.seen? scope = some seen) ∧
      o.tally.tokens = a.tally.tokens + b.tally.tokens ∧
      o.tally.skipped = a.tally.skipped + b.tally.skipped ∧
      o.tally.cached = a.tally.cached + b.tally.cached ∧
      o.tally.deduplicated =
        a.tally.deduplicated + b.tally.deduplicated ∧
      env.Prints o.emitted (whole.session.blocksAt scope) ∧
      env.Prints a.emitted (first.session.blocksAt scope) ∧
      env.Prints b.emitted (second.session.blocksAt scope) ∧
      ∀ breakpoint selector property,
        Rule.decided (whole.session.blocksAt scope breakpoint)
            selector property =
          Rule.decided
            (first.session.blocksAt scope breakpoint ++
              second.session.blocksAt scope breakpoint)
            selector property := by
  intro whole first second
  rcases Option.isSome_iff_exists.1 hPartition with ⟨p, hp⟩
  rcases compile_fills hEnv hp (xs ++ ys) with
    ⟨hWhole, _, hWholeFilled⟩
  rcases compile_fills hEnv hp xs with
    ⟨hFirst, hFirstEnv, hFirstFilled⟩
  rcases compile_fills hFirstEnv hFirstFilled ys with
    ⟨hSecond, _, hSecondFilled⟩
  have hWholeBlocks := blocksAt_of_filled hWholeFilled
  have hFirstBlocks := blocksAt_of_filled hFirstFilled
  have hSecondBlocks := blocksAt_of_filled hSecondFilled
  rcases Environment.tally_append hApart with
    ⟨hTokens, hSkipped, hCached, hDeduplicated⟩
  refine ⟨_, _, _, hWhole, hFirst, hSecond, ?_,
    hTokens, hSkipped, hCached, hDeduplicated, ?_, ?_, ?_, ?_⟩
  · refine
      ⟨(env.storeAfter p.store scope.isSome (xs ++ ys)).seen,
        ?_, ?_⟩
    · simp only [whole, seen?, hWholeFilled, Option.map_some]
      rfl
    · simp only [second, first, seen?, hSecondFilled,
        Option.map_some]
      apply congrArg some
      exact (Environment.seen_storeAfter_append hApart).symm
  · rw [hWholeBlocks]
    exact env.prints_emitted _ _ _
  · rw [hFirstBlocks]
    exact env.prints_emitted _ _ _
  · rw [hSecondBlocks]
    exact env.prints_emitted _ _ _
  · intro breakpoint selector property
    rw [hWholeBlocks, hFirstBlocks, hSecondBlocks]
    dsimp only
    rw [Rule.decided_append, Rule.decided_blocksAt,
      Rule.decided_blocksAt, Rule.decided_blocksAt,
      Environment.newRules_append hApart, Rule.placed_append,
      Rule.lastValue_append]
    rfl

/-
  Tokens that write one property of one selector: one call
  writes a block where two calls write a block each.
-/
theorem batching_does_not_matter_of_paints :
    let s := (new.performAll
      [.start Setup.paints, .createScope ∅]).1
    let xs := ["color=red", "x"]
    let ys := ["paint=blue", "y"]
    let whole := s.compile (xs ++ ys) (some 0)
    let first := s.compile xs (some 0)
    let second := first.session.compile ys (some 0)
    let sm : Breakpoint := ⟨⟨"sm", .up, 576⟩, 0⟩
    (whole.session.blocksAt (some 0) sm).length = 1 ∧
    (first.session.blocksAt (some 0) sm ++
      second.session.blocksAt (some 0) sm).length = 2 ∧
    Rule.decided (whole.session.blocksAt (some 0) sm)
      ":host" "color" = some "blue" ∧
    Rule.decided
      (first.session.blocksAt (some 0) sm ++
        second.session.blocksAt (some 0) sm)
      ":host" "color" = some "blue" := by
  intro s xs ys whole first second sm
  have hEnv : ∃ env, s.environment? = some env := ⟨_, rfl⟩
  rcases hEnv with ⟨env, hEnv⟩
  have hPartition : (s.partition? (some 0)).isSome = true := rfl
  have hApart : Token.Apart xs ys := by decide
  have hWhole :
      Rule.decided (whole.session.blocksAt (some 0) sm)
        ":host" "color" = some "blue" := by
    decide
  rcases batching_does_not_matter hEnv hPartition hApart with
    ⟨_, _, _, _, _, _, _, _, _, _, _, _, _, _, hDecided⟩
  refine ⟨by decide, by decide, hWhole, ?_⟩
  rw [← hDecided sm ":host" "color"]
  exact hWhole

end Session

end AtomicCss
