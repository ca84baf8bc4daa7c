import AtomicCss.Proofs.Session.EffectiveStyle

/-
  This file proves what a partition has of a rule that a call
  leaves out because it was seen before.

  A rule with the same fingerprint was stored in some pass,
  and the block of that pass has each of its properties as the
  last rule of the pass wrote it. A rule that was overwritten
  within its own pass has no block with its value, and it is
  still left out ever after.

  Key definitions include:
    * `Environment.Deduplicates`
    * `Environment.Shows`

  The main statements are:
    * `Environment.knows_of_deduplicates`
    * `Environment.shows_iff`
    * `Chronicle.Founded.next_of_serves`
    * `Chronicle.deduplicated_rules_were_stored`
-/

namespace AtomicCss

namespace Environment

variable {env : Environment} {hosted : Bool}

------------------------------------------------------------
-- Tokens that are left out
------------------------------------------------------------

/-
  Whether a pass over tokens counts one of them as
  deduplicated, given the store that it begins with.
-/
def Deduplicates
    (env : Environment)
    (store : RuleStore)
    (hosted : Bool)
    (tokens : List String)
    (text : String) : Prop :=
  ∃ front rest before pass,
    Token.settle tokens = front ++ text :: rest ∧
    front.foldlM (env.step hosted)
      { store := store.beginPass
        tally := { tokens := (Token.settle tokens).length } } =
      .ok before ∧
    env.step hosted before text = .ok pass ∧
    pass.tally.deduplicated = before.tally.deduplicated + 1

/- A step counts so exactly the rules that the store knows. -/
theorem deduplicated_step_iff
    {before pass : Pass}
    {text : String}
    (hStep : env.step hosted before text = .ok pass) :
    pass.tally.deduplicated = before.tally.deduplicated + 1 ↔
      ∃ r, env.rule? hosted text = some r ∧
        before.store.Knows r := by
  rw [step_eq_ok, Except.ok.injEq] at hStep
  subst hStep
  cases hRule : env.rule? hosted text with
  | none => simp [Pass.advance]
  | some r =>
      have hKnows :
          (∃ r', some r = some r' ∧ before.store.Knows r') ↔
            before.store.Knows r := by
        simp
      rw [hKnows, Pass.advance]
      rcases before.store.offer_cases r with
        ⟨hOffer, hKnown⟩ | ⟨hOffer, _, hNew⟩
      · rw [hOffer, if_neg Bool.false_ne_true]
        exact iff_of_true rfl (hKnown (declares_of_rule? hRule).1)
      · rw [hOffer, if_pos rfl]
        exact iff_of_false (Nat.ne_of_lt (Nat.lt_succ_self _)) hNew

/- They are known from before, or from earlier in the pass. -/
theorem deduplicates_iff
    {store : RuleStore}
    {tokens : List String}
    {text : String} :
    env.Deduplicates store hosted tokens text ↔
      ∃ front rest r,
        Token.settle tokens = front ++ text :: rest ∧
        env.rule? hosted text = some r ∧
        (store.beginPass.offerAll
          (front.filterMap (env.rule? hosted))).Knows r := by
  have hFront :
      ∀ front : List String,
        (front.map (env.rule? hosted)).reduceOption =
          front.filterMap (env.rule? hosted) := by
    intro front
    rw [List.reduceOption, List.filterMap_map]
    rfl
  constructor
  · rintro ⟨front, rest, before, pass, hSettled, hPass, hStep, hCount⟩
    rcases (deduplicated_step_iff hStep).1 hCount with
      ⟨r, hRule, hKnown⟩
    rw [foldlM_step, Except.ok.injEq] at hPass
    rw [← hPass, Pass.store_foldl_advance, hFront] at hKnown
    exact ⟨front, rest, r, hSettled, hRule, hKnown⟩
  · rintro ⟨front, rest, r, hSettled, hRule, hKnown⟩
    refine ⟨front, rest, _, _, hSettled, foldlM_step hosted front _,
      step_eq_ok hosted _ text, ?_⟩
    apply (deduplicated_step_iff (step_eq_ok hosted _ text)).2
    refine ⟨r, hRule, ?_⟩
    rw [Pass.store_foldl_advance, hFront]
    exact hKnown

/- What was known during a pass is known after it. -/
theorem knows_of_deduplicates
    {store : RuleStore}
    {tokens : List String}
    {text : String}
    (hText : env.Deduplicates store hosted tokens text) :
    ∃ r,
      env.rule? hosted text = some r ∧
      (env.storeAfter store hosted tokens).Knows r := by
  rcases deduplicates_iff.1 hText with
    ⟨front, rest, r, hSettled, hRule, hKnown⟩
  refine ⟨r, hRule, ?_⟩
  rw [storeAfter, rules, hSettled, List.filterMap_append,
    RuleStore.offerAll_append]
  exact hKnown.offerAll _

------------------------------------------------------------
-- Blocks of stored rules
------------------------------------------------------------

/- Whether a block that batches append declares an entry. -/
def Shows
    (env : Environment)
    (hosted : Bool)
    (batches : List (List String))
    (name selector property : String)
    (e : String × Bool) : Prop :=
  ∃ d,
    (selector, d) ∈ env.blocks hosted batches name ∧
    d.declared? property = some e

/- Of each pass, the last rule with the property is shown. -/
theorem shows_iff
    {batches : List (List String)}
    {name selector property : String}
    {e : String × Bool} :
    env.Shows hosted batches name selector property e ↔
      ∃ new ∈ env.passes hosted batches,
        Rule.lastDeclared property
          (Rule.placed new name selector) = some e := by
  unfold Shows blocks
  constructor
  · rintro ⟨d, hBlock, hEntry⟩
    rcases List.mem_flatMap.1 hBlock with ⟨new, hNew, hBlock⟩
    exact ⟨new, hNew, Rule.exists_block_iff.1 ⟨d, hBlock, hEntry⟩⟩
  · rintro ⟨new, hNew, hEntry⟩
    rcases Rule.exists_block_iff.2 hEntry with ⟨d, hBlock, hEntry⟩
    exact ⟨d, List.mem_flatMap.2 ⟨new, hNew, hBlock⟩, hEntry⟩

/- A known rule has a copy in the block of some pass. -/
theorem exists_block_of_knows
    {batches : List (List String)}
    {r : Rule}
    (hKnown : (env.filled hosted batches).store.Knows r) :
    ∃ new ∈ env.passes hosted batches, ∃ front w rest,
      Rule.placed new r.breakpoint r.selector =
        front ++ w :: rest ∧
      w.fingerprint = r.fingerprint ∧
      ∃ d,
        (r.selector, d) ∈ Rule.blocksAt new r.breakpoint ∧
        ∀ property,
          d.declared? property =
            ((Rule.lastDeclared property rest).or
              (w.declared? property)).or
                (Rule.lastDeclared property front) := by
  rw [knows_filled_iff] at hKnown
  rcases List.mem_map.1 hKnown with ⟨w, hStored, hSame⟩
  rcases List.mem_flatten.1 hStored with ⟨new, hNew, hw⟩
  have hAt : w.breakpoint = r.breakpoint :=
    congrArg Fingerprint.breakpoint hSame
  have hBy : w.selector = r.selector :=
    congrArg Fingerprint.selector hSame
  have hPlaced : w ∈ Rule.placed new r.breakpoint r.selector :=
    Rule.mem_placed_iff.2 ⟨hw, hAt, hBy⟩
  rcases List.append_of_mem hPlaced with ⟨front, rest, hSplit⟩
  refine ⟨new, hNew, front, w, rest, hSplit, hSame,
    Rule.merged (Rule.placed new r.breakpoint r.selector), ?_, ?_⟩
  · exact Rule.mem_blocksAt_iff.2 ⟨List.ne_nil_of_mem hPlaced, rfl⟩
  · intro property
    rw [Rule.declared?_merged, hSplit, Rule.lastDeclared_split]

/- A sheet is what it began with and all that was added to it. -/
theorem sheet_filledFrom
    (env : Environment)
    (hosted : Bool)
    (base : Sheet)
    (batches : List (List String)) :
    (env.filledFrom hosted base batches).sheet =
      base.appendAll env.cascade (env.emitted hosted batches) := by
  induction batches using List.reverseRecOn with
  | nil => rfl
  | append_singleton batches tokens ih =>
      rw [filledFrom_append_singleton, emitted_append_singleton,
        Sheet.appendAll_append, ← ih, fill, store_filledFrom]

end Environment

------------------------------------------------------------
-- Calls
------------------------------------------------------------

/- A small setup, with two utilities for one property. -/
def Setup.paints : Setup where
  builtin := false
  config := some {
    breakpoints := .ofList [("sm", 576), ("md", 768)]
    utilities := .ofList
      [("color", {
        values := .ofList [("red", .ofList [("color", "red")])] }),
      ("paint", {
        values := .ofList [("blue", .ofList [("color", "blue")])] })] }

namespace Chronicle

/- A call that is served continues its partition. -/
theorem Founded.next_of_serves
    {Base : Sheet → Prop}
    {c : Chronicle}
    (hc : c.Founded Base)
    {env : Environment}
    (hEnv : c.session.environment? = some env)
    {op : Operation}
    {call : Call}
    (hCall : op.call? = some call)
    (hServes : c.session.serves call = true) :
    ∃ base, Base base ∧
      c.session.partition? call.scope =
        some (env.filledFrom call.scope.isSome base
          (c.batches call.scope)) ∧
      (c.next op).session.partition? call.scope =
        some (env.filledFrom call.scope.isSome base
          (c.batches call.scope ++ [call.tokens])) := by
  rcases partition?_next_of_serves hEnv hCall hServes with
    ⟨p, hPartition, hNext⟩
  rcases hc.filled env (hc.ready env hEnv) _ p hPartition with
    ⟨base, hBase, hp⟩
  refine ⟨base, hBase, hPartition.trans (congrArg some hp), ?_⟩
  rw [hNext, env.filledFrom_append_singleton, ← hp]

/-
  A token that a call counts as deduplicated has a rule of
  which a copy, with the same fingerprint, was stored in some
  pass over its partition. The block of that pass declares
  each property as the last rule of the pass wrote it: so it
  declares what the rule declares, unless the copy differs or
  a rule that was stored later in the same pass has the
  property. Whether any block declares it is decided by the
  last rules of all passes.
-/
theorem deduplicated_rules_were_stored
    {ops : List Operation}
    {env : Environment}
    (hEnv : (after ops).session.environment? = some env)
    {op : Operation}
    {call : Call}
    (hCall : op.call? = some call)
    (hServes : (after ops).session.serves call = true) :
    let c := after ops
    let hosted := call.scope.isSome
    let all := c.batches call.scope ++ [call.tokens]
    ∃ p base,
      c.session.partition? call.scope = some p ∧
      (c.next op).session.partition? call.scope =
        some (env.filledFrom hosted base all) ∧
      (env.filledFrom hosted base all).sheet =
        base.appendAll env.cascade (env.emitted hosted all) ∧
      (∀ b ∈ env.cascade.breakpoints,
        Chunk.textsAt (env.emitted hosted all) b.name =
          env.texts hosted all b) ∧
      ∀ text, env.Deduplicates p.store hosted call.tokens text →
        ∃ r, env.rule? hosted text = some r ∧
          (∃ new ∈ env.passes hosted all, ∃ front w rest,
            Rule.placed new r.breakpoint r.selector =
              front ++ w :: rest ∧
            w.fingerprint = r.fingerprint ∧
            ∃ d,
              (r.selector, d) ∈ Rule.blocksAt new r.breakpoint ∧
              ∀ property,
                d.declared? property =
                  ((Rule.lastDeclared property rest).or
                    (w.declared? property)).or
                      (Rule.lastDeclared property front) ∧
                (w.declarations = r.declarations →
                  Rule.lastDeclared property rest = none →
                  ∀ e, r.declared? property = some e →
                    d.declared? property = some e)) ∧
          ∀ property e,
            env.Shows hosted all
              r.breakpoint r.selector property e ↔
                ∃ new ∈ env.passes hosted all,
                  Rule.lastDeclared property
                    (Rule.placed new r.breakpoint r.selector) =
                      some e := by
  intro c hosted all
  -- The sheets that the partitions began with do not matter.
  have hc : c.Founded (fun _ => True) := by
    apply founded_after trivial
    intro op _
    cases op <;> exact trivial
  rcases hc.next_of_serves hEnv hCall hServes with
    ⟨base, _, hBefore, hAfter⟩
  refine ⟨_, base, hBefore, hAfter,
    env.sheet_filledFrom hosted base all,
    fun b hb => env.textsAt_emitted hosted all hb, ?_⟩
  intro text hText
  rcases Environment.knows_of_deduplicates hText with
    ⟨r, hRule, hKnown⟩
  rw [env.store_filledFrom] at hKnown
  have hFilled : (env.filled hosted all).store.Knows r := by
    rw [env.filled_append_singleton]
    exact hKnown
  rcases Environment.exists_block_of_knows hFilled with
    ⟨new, hNew, front, w, rest, hSplit, hSame, d, hBlock, hEntry⟩
  refine ⟨r, hRule, ⟨new, hNew, front, w, rest, hSplit, hSame,
    d, hBlock, ?_⟩, fun _ _ => Environment.shows_iff⟩
  intro property
  refine ⟨hEntry property, ?_⟩
  intro hCopy hRest e hDeclared
  have hw : w.declared? property = some e := by
    rw [Rule.declared?, hCopy]
    exact hDeclared
  rw [hEntry, hRest, hw]
  rfl

/- A call of a known token, and the block of its rule. -/
theorem deduplicated_rules_were_stored_of_swatches :
    let ops : List Operation :=
      [.start Setup.swatches,
        .createScope ∅,
        .compile ["color=red"] (some 0)]
    let last : Operation := .compile ["color=red"] (some 0)
    let call : Call := ⟨["color=red"], some 0⟩
    let c := after ops
    last.call? = some call ∧
    c.session.serves call = true ∧
    ∃ env p,
      c.session.environment? = some env ∧
      c.session.partition? (some 0) = some p ∧
      env.Deduplicates p.store true ["color=red"] "color=red" ∧
      ∃ r, env.rule? true "color=red" = some r ∧
        (env.Shows true [["color=red"], ["color=red"]]
            r.breakpoint r.selector "color" ("red", false) ↔
          ∃ new ∈ env.passes true [["color=red"], ["color=red"]],
            Rule.lastDeclared "color"
              (Rule.placed new r.breakpoint r.selector) =
                some ("red", false)) := by
  intro ops last call c
  have hServes : c.session.serves call = true := rfl
  have hCall : last.call? = some call := rfl
  have hEnv : ∃ env, c.session.environment? = some env := ⟨_, rfl⟩
  rcases hEnv with ⟨env, hEnv⟩
  rcases deduplicated_rules_were_stored hEnv hCall hServes with
    ⟨p, base, hPartition, _, _, _, hTokens⟩
  have hText :
      env.Deduplicates p.store true ["color=red"] "color=red" := by
    cases hEnv
    cases hPartition
    exact Environment.deduplicates_iff.2
      ⟨[], [], _, by decide, rfl, by decide⟩
  rcases hTokens "color=red" hText with ⟨r, hRule, _, hShows⟩
  exact ⟨hCall, hServes, env, p, hEnv, hPartition, hText, r, hRule,
    hShows "color" ("red", false)⟩

/-
  Two tokens of one call write one property of the host. The
  first is never in a block, and still a later call of it
  alone counts it as deduplicated.
-/
theorem overwritten_rule_is_deduplicated :
    let ops : List Operation :=
      [.start Setup.paints,
        .createScope ∅,
        .compile ["color=red", "paint=blue"] (some 0)]
    let last : Operation := .compile ["color=red"] (some 0)
    let c := after ops
    ∃ env p,
      c.session.environment? = some env ∧
      env.extensions.isEmpty = true ∧
      c.session.partition? (some 0) = some p ∧
      env.Deduplicates p.store true ["color=red"] "color=red" ∧
      (env.rule? true "color=red").map
        (fun r => (r.breakpoint, r.selector, r.declared? "color")) =
          some ("sm-up", ":host", some ("red", false)) ∧
      ¬ env.Shows true ((c.next last).batches (some 0))
        "sm-up" ":host" "color" ("red", false) ∧
      (((c.next last).session.sheet? (some 0)).bind
        (fun sheet => sheet.get? "sm-up")) =
          some ":host\x7bcolor:blue;\x7d" := by
  intro ops last c
  refine ⟨_, _, rfl, by decide, rfl, ?_, by decide, ?_, by decide⟩
  · exact Environment.deduplicates_iff.2
      ⟨[], [], _, by decide, rfl, by decide⟩
  · rw [Environment.shows_iff]
    decide

end Chronicle

end AtomicCss
