import AtomicCss.Proofs.Batch.Blocks
import AtomicCss.Proofs.Batch.Pass
import Mathlib.Logic.ExistsUnique

/-
  This file proves what a pass emits: the rules that are new
  to its store, and nothing else.

  The new text is described without the gathered rules, the
  touched breakpoints and the tests for emptiness: it has one
  chunk for each breakpoint with a new rule.

  Key definitions include:
    * `Environment.bodyAt`
    * `Environment.emissions`
    * `Environment.outcome`
    * `Environment.blockLines`

  The main statements are:
    * `Environment.chunks_eq_emissions`
    * `Environment.tally_outcome`
    * `Environment.run_eq_ok`
    * `Environment.bodyAt_eq_join_blockLines`
    * `Environment.run_emits_exactly_the_new_rules`
-/

namespace AtomicCss

------------------------------------------------------------
-- Texts that are not empty
------------------------------------------------------------

namespace Render

theorem block_ne_empty
    (extensions : Extensions)
    (rule : String × Declarations) :
    block extensions rule ≠ "" := by
  simp [block, String.append_eq_empty_iff]

theorem wrap_ne_empty
    (b : Breakpoint)
    {body : String}
    (hBody : body ≠ "") :
    wrap b body ≠ "" := by
  unfold wrap
  split
  · exact hBody
  · simp [String.append_eq_empty_iff]

/- A breakpoint with blocks has text. -/
theorem join_block_ne_empty
    (extensions : Extensions)
    {blocks : List (String × Declarations)}
    (hBlocks : blocks ≠ []) :
    String.join (blocks.map (block extensions)) ≠ "" := by
  cases blocks with
  | nil => exact absurd rfl hBlocks
  | cons rule rest =>
      rw [List.map_cons, String.join_cons]
      intro hEmpty
      exact block_ne_empty extensions rule
        (String.append_eq_empty_iff.1 hEmpty).1

end Render

------------------------------------------------------------
-- The text of new rules
------------------------------------------------------------

namespace Environment

variable (env : Environment)

/- Only the minimum stands without its condition. -/
theorem wrap_eq
    {b : Breakpoint}
    (hMem : b ∈ env.cascade.breakpoints)
    (body : String) :
    Render.wrap b body =
      if b = env.cascade.minimum then
        body
      else
        "@media (" ++
          (match b.direction with
            | .up => "min-width"
            | .down => "max-width") ++ ": " ++
          Number.text b.threshold ++ "px) \x7b" ++ body ++
          "\x7d" := by
  unfold Render.wrap
  by_cases hMinimum : b = env.cascade.minimum
  · rw [if_pos ((Cascade.isMinimum_iff hMem).2 hMinimum),
      if_pos hMinimum]
  · rw [if_neg (mt (Cascade.isMinimum_iff hMem).1 hMinimum),
      if_neg hMinimum]
    apply String.toList_inj.1
    cases hDirection : b.direction <;>
      simp [Variant.mediaQuery, Direction.feature, hDirection]

/-
  The rules at a breakpoint as text: one block for each
  selector, in order of first occurrence, with all that the
  rules of that selector declare there.
-/
def bodyAt
    (new : List Rule)
    (name : String) : String :=
  let here := Rule.atBreakpoint new name
  String.join ((Rule.selectors here).map (fun selector =>
    selector ++ "\x7b" ++
      Render.declarations env.extensions
        (Rule.merged (Rule.withSelector here selector)) ++ "\x7d"))

theorem bodyAt_eq_join_block
    (new : List Rule)
    (name : String) :
    env.bodyAt new name =
      String.join
        ((Rule.blocksAt new name).map
          (Render.block env.extensions)) := by
  simp only [bodyAt, Rule.blocksAt, List.map_map]
  rfl

/- The chunks of new rules, in the order of the cascade. -/
def emissions
    (new : List Rule) : List Chunk :=
  (env.cascade.breakpoints.filter
    (fun b => b.name ∈ new.map Rule.breakpoint)).map
      (fun b => ⟨b, Render.wrap b (env.bodyAt new b.name)⟩)

theorem pairwise_rank_emissions
    (new : List Rule) :
    ((env.emissions new).map (fun c => c.breakpoint.rank)).Pairwise
      (· < ·) := by
  have hRanks :=
    env.cascade.pairwise_rank_breakpoints.filter
      (fun b => b.name ∈ new.map Rule.breakpoint)
  rw [List.pairwise_map]
  exact List.pairwise_map.2 hRanks

/- A breakpoint with a new rule has one chunk. -/
theorem existsUnique_mem_emissions
    {new : List Rule}
    {b : Breakpoint}
    (hMem : b ∈ env.cascade.breakpoints)
    (hNew : b.name ∈ new.map Rule.breakpoint) :
    ∃! c, c ∈ env.emissions new ∧ c.breakpoint.name = b.name := by
  refine ⟨_, ⟨List.mem_map.2 ⟨b, ?_, rfl⟩, rfl⟩, ?_⟩
  · exact List.mem_filter.2 ⟨hMem, decide_eq_true hNew⟩
  · rintro c ⟨hc, hName⟩
    rcases List.mem_map.1 hc with ⟨b', hb', rfl⟩
    rw [Cascade.eq_of_name_eq (List.mem_filter.1 hb').1 hMem hName]

/- What a breakpoint of a pass is rendered to. -/
theorem breakpoint_gathered
    {new : List Rule}
    (hDeclares : ∀ r ∈ new, r.Declares)
    (b : Breakpoint) :
    Render.breakpoint env.extensions (Rule.gathered new) b =
      if b.name ∈ new.map Rule.breakpoint then
        Render.wrap b (env.bodyAt new b.name)
      else
        "" := by
  rw [Render.breakpoint, Rule.rules_gathered hDeclares,
    bodyAt_eq_join_block]
  have hNil := Rule.blocksAt_eq_nil_iff new b.name
  by_cases hName : b.name ∈ new.map Rule.breakpoint
  · have hBlocks : Rule.blocksAt new b.name ≠ [] :=
      fun h => hNil.1 h hName
    rw [if_pos hName, List.isEmpty_eq_false_iff.2 hBlocks]
    rfl
  · rw [if_neg hName, hNil.2 hName]
    rfl

/-
  A breakpoint is emitted exactly if it has a new rule: what
  was touched has text, and the minimum has none without one.
-/
theorem chunks_eq_emissions
    (pass : Pass)
    {new : List Rule}
    (hDeclares : ∀ r ∈ new, r.Declares)
    (hWorking : pass.store.working = Rule.gathered new)
    (hTouched :
      ∀ name, pass.touched.contains name =
        decide (name ∈ new.map Rule.breakpoint)) :
    env.chunks pass = env.emissions new := by
  have hText :
      ∀ b, Render.breakpoint env.extensions
          (Rule.gathered new) b ≠ "" ↔
        b.name ∈ new.map Rule.breakpoint := by
    intro b
    rw [env.breakpoint_gathered hDeclares]
    by_cases hName : b.name ∈ new.map Rule.breakpoint
    · have hBlocks : Rule.blocksAt new b.name ≠ [] :=
        fun h => (Rule.blocksAt_eq_nil_iff new b.name).1 h hName
      rw [if_pos hName, bodyAt_eq_join_block]
      exact iff_of_true
        (Render.wrap_ne_empty b
          (Render.join_block_ne_empty _ hBlocks)) hName
    · rw [if_neg hName]
      exact iff_of_false (fun h => h rfl) hName
  rw [chunks, rendered, emissions, hWorking, List.filter_map,
    List.filter_filter]
  have hFilter :
      env.cascade.breakpoints.filter (fun b =>
        decide (Render.breakpoint env.extensions
          (Rule.gathered new) b ≠ "") &&
            (b.isMinimum || pass.touched.contains b.name)) =
        env.cascade.breakpoints.filter
          (fun b => b.name ∈ new.map Rule.breakpoint) := by
    apply List.filter_congr
    intro b _
    rw [hTouched]
    by_cases hName : b.name ∈ new.map Rule.breakpoint
    · rw [decide_eq_true ((hText b).2 hName),
        decide_eq_true hName, Bool.or_true, Bool.and_true]
    · rw [decide_eq_false (mt (hText b).1 hName),
        decide_eq_false hName, Bool.false_and]
  refine (congrArg _ hFilter).trans (List.map_congr_left ?_)
  intro b hb
  have hName : b.name ∈ new.map Rule.breakpoint := by
    simpa using (List.mem_filter.1 hb).2
  rw [env.breakpoint_gathered hDeclares, if_pos hName]

------------------------------------------------------------
-- Runs
------------------------------------------------------------

/- The outcome of a batch, by the rules that are new in it. -/
def outcome
    (store : RuleStore)
    (hosted : Bool)
    (tokens : List String) : Outcome :=
  let settled := Token.settle tokens
  let all := env.rules hosted tokens
  let new := env.newRules store hosted tokens
  let emitted := env.emissions new
  { emitted := emitted
    tally :=
      { tokens := settled.length
        skipped := (settled.map (env.rule? hosted)).count none
        cached := new.length
        deduplicated := all.length - new.length
        rendered := emitted.length } }

/- A token has a rule or none. -/
theorem count_none_add_length_rules
    (hosted : Bool)
    (tokens : List String) :
    ((Token.settle tokens).map (env.rule? hosted)).count none +
      (env.rules hosted tokens).length =
        (Token.settle tokens).length := by
  rw [rules]
  induction Token.settle tokens with
  | nil => rfl
  | cons text rest ih =>
      rw [List.map_cons]
      cases hRule : env.rule? hosted text with
      | none =>
          rw [List.filterMap_cons_none hRule,
            List.count_cons_self, List.length_cons]
          omega
      | some r =>
          rw [List.filterMap_cons_some hRule,
            List.count_cons_of_ne (by simp), List.length_cons,
            List.length_cons]
          omega

/- Every token is counted once, by what became of it. -/
theorem tally_outcome
    (store : RuleStore)
    (hosted : Bool)
    (tokens : List String) :
    let tally := (env.outcome store hosted tokens).tally
    tally.skipped + tally.cached + tally.deduplicated =
      tally.tokens := by
  intro tally
  have hNew :
      (env.newRules store hosted tokens).length ≤
        (env.rules hosted tokens).length :=
    (RuleStore.taken_sublist _ _).length_le
  have hFound := env.count_none_add_length_rules hosted tokens
  dsimp only [tally, outcome]
  omega

theorem declares_of_mem_newRules
    {store : RuleStore}
    {hosted : Bool}
    {tokens : List String} :
    ∀ r ∈ env.newRules store hosted tokens, r.Declares :=
  fun _ hr => RuleStore.declares_of_mem_taken _ hr

/- Compiling never fails, whatever the store has seen. -/
theorem run_eq_ok
    (store : RuleStore)
    (hosted : Bool)
    (tokens : List String) :
    env.run store hosted tokens =
      .ok (env.outcome store hosted tokens,
        env.storeAfter store hosted tokens) := by
  let found := (Token.settle tokens).map (env.rule? hosted)
  let first : Pass :=
    { store := store.beginPass
      tally := { tokens := (Token.settle tokens).length } }
  have hFound : found.reduceOption = env.rules hosted tokens := by
    simp [found, rules, List.reduceOption, List.filterMap_map]
  have hStore := Pass.store_foldl_advance first found
  have hTouched := Pass.touched_foldl_advance first found
  have hTally := Pass.tally_foldl_advance first found
  rw [hFound] at hStore hTouched hTally
  have hEmitted :
      env.chunks (found.foldl Pass.advance first) =
        env.emissions (env.newRules store hosted tokens) := by
    refine env.chunks_eq_emissions _
      env.declares_of_mem_newRules ?_ ?_
    · rw [hStore, RuleStore.working_offerAll]
      rfl
    · intro name
      rw [hTouched, OrderedSet.contains_foldl_insert]
      exact Bool.or_false _
  have hFold :
      (Token.settle tokens).foldlM (env.step hosted) first =
        .ok (found.foldl Pass.advance first) :=
    foldlM_step hosted _ _
  unfold run
  simp only [first, bind, Except.bind] at hFold ⊢
  rw [hFold]
  change Except.ok _ = _
  rw [hEmitted, hStore, hTally]
  simp only [outcome, first, found, newRules, storeAfter,
    Nat.zero_add]

------------------------------------------------------------
-- Blocks and their lines
------------------------------------------------------------

/- The blocks of a breakpoint, each with the lines it holds. -/
def blockLines
    (new : List Rule)
    (name : String) : List (String × List (String × String)) :=
  let here := Rule.atBreakpoint new name
  (Rule.selectors here).map (fun selector =>
    (selector,
      Rule.lines env.extensions (Rule.withSelector here selector)))

theorem fst_blockLines
    (new : List Rule)
    (name : String) :
    (env.blockLines new name).map Prod.fst =
      Rule.selectors (Rule.atBreakpoint new name) := by
  rw [blockLines, List.map_map]
  exact List.map_id _

/- The blocks are the text of the breakpoint. -/
theorem bodyAt_eq_join_blockLines
    (new : List Rule)
    (name : String) :
    env.bodyAt new name =
      String.join ((env.blockLines new name).map (fun block =>
        block.1 ++ "\x7b" ++ String.join (block.2.map Prod.snd) ++
          "\x7d")) := by
  rw [blockLines, List.map_map, bodyAt]
  congr 2
  funext selector
  rw [Function.comp_apply, Rule.join_snd_lines]

/-
  A pass emits exactly its new rules: one chunk for each
  breakpoint that has one and no other chunk, in increasing
  rank. Only the minimum stands without a media condition.

  A chunk has a block for each selector of its rules, in order
  of first occurrence, and a block has a line for each
  property of the rules with its selector. The last of them
  that has the property decides about the line: an important
  value ends in the mark, unless it contains it, and an
  extension writes the line itself.
-/
theorem run_emits_exactly_the_new_rules
    (store : RuleStore)
    (hosted : Bool)
    (tokens : List String) :
    let new := env.newRules store hosted tokens
    ∃ outcome store',
      env.run store hosted tokens = .ok (outcome, store') ∧
      (outcome.emitted.map (fun c => c.breakpoint.rank)).Pairwise
        (· < ·) ∧
      (∀ r ∈ new, ∃! c, c ∈ outcome.emitted ∧
        c.breakpoint.name = r.breakpoint) ∧
      ∀ c ∈ outcome.emitted,
        let here := Rule.atBreakpoint new c.breakpoint.name
        (∃ r ∈ new, r.breakpoint = c.breakpoint.name) ∧
        c.breakpoint ∈ env.cascade.breakpoints ∧
        ∃ blocks : List (String × List (String × String)),
          blocks.map Prod.fst = Rule.selectors here ∧
          (∀ block ∈ blocks,
            let own := Rule.withSelector here block.1
            block.2.map Prod.fst =
              (own.flatMap
                (·.declarations.properties.keys)).eraseDups ∧
            ∀ line ∈ block.2, ∃ value important,
              Rule.LastDeclares own line.1 value important ∧
              line.2 =
                let shown :=
                  if important = true ∧
                      ¬ "!important".toList <:+: value.toList then
                    value ++ " !important"
                  else
                    value
                match env.extensions.get? line.1 with
                | some extension => extension line.1 shown
                | none => line.1 ++ ":" ++ shown ++ ";") ∧
          let body :=
            String.join (blocks.map (fun block =>
              block.1 ++ "\x7b" ++
                String.join (block.2.map Prod.snd) ++ "\x7d"))
          c.css =
            if c.breakpoint = env.cascade.minimum then
              body
            else
              "@media (" ++
                (match c.breakpoint.direction with
                  | .up => "min-width"
                  | .down => "max-width") ++ ": " ++
                Number.text c.breakpoint.threshold ++ "px) \x7b" ++
                body ++ "\x7d" := by
  intro new
  refine ⟨_, _, env.run_eq_ok store hosted tokens,
    env.pairwise_rank_emissions new, ?_, ?_⟩
  · intro r hr
    have hRule : r ∈ env.rules hosted tokens :=
      (RuleStore.taken_sublist _ _).subset hr
    rcases (declares_of_mem_rules hRule).2 with ⟨b, hb, hName⟩
    have hNew : r.breakpoint ∈ new.map Rule.breakpoint :=
      List.mem_map_of_mem hr
    rw [← hName] at hNew ⊢
    exact env.existsUnique_mem_emissions hb hNew
  · intro c hc
    rcases List.mem_map.1 hc with ⟨b, hb, rfl⟩
    rcases List.mem_filter.1 hb with ⟨hMem, hNew⟩
    refine ⟨by simpa using hNew, hMem, env.blockLines new b.name,
      env.fst_blockLines new b.name, ?_, ?_⟩
    · intro block hBlock own
      rcases List.mem_map.1 hBlock with ⟨selector, _, rfl⟩
      refine ⟨Rule.fst_lines _ _, ?_⟩
      intro line hLine
      rcases List.mem_map.1 hLine with ⟨e, he, rfl⟩
      exact ⟨e.2, _, Rule.lastDeclares_of_mem_entries he,
        Render.declaration_eq _ _ e⟩
    · dsimp only
      rw [← env.bodyAt_eq_join_blockLines]
      exact env.wrap_eq hMem _

/-
  Two rules for one host, of which the second has a mark of
  its own, a rule that is known, and one that an extension
  writes at another breakpoint.
-/
theorem run_emits_exactly_the_new_rules_of_gaps :
    let color : Utility :=
      { values := .ofList
          [("red",
            .ofList [("color", "red"), ("border-color", "red")])] }
    let paint : Utility :=
      { values := .ofList
          [("blue", .ofList [("color", "blue !important")])] }
    let gap : Utility :=
      { common := .ofList [("margin-x", "4px")] }
    let env : Environment :=
      { cascade := ⟨[("sm", 576), ("md", 768)], by decide, by decide⟩
        catalog :=
          { utilities := .ofList
              [("color", color), ("paint", paint), ("gap", gap)] }
        extensions := .ofList
          [("margin-x", fun _ v =>
            "margin-left:" ++ v ++ ";margin-right:" ++ v ++ ";")] }
    let store := env.storeAfter .empty true ["gap"]
    let tokens := ["color=red!", "gap", "paint=blue!", "md-up:gap!"]
    (env.newRules store true tokens).map Rule.breakpoint =
      ["sm-up", "sm-up", "md-up"] ∧
    ∃ outcome store',
      env.run store true tokens = .ok (outcome, store') ∧
      (outcome.emitted.map (fun c => c.breakpoint.rank)).Pairwise
        (· < ·) ∧
      (∀ c ∈ outcome.emitted, c.breakpoint.name = "sm-up" →
        ∃ blocks : List (String × List (String × String)),
          blocks.map Prod.fst = [":host"] ∧
          ∀ block ∈ blocks,
            block.2.map Prod.fst = ["color", "border-color"]) ∧
      outcome.emitted.map Chunk.css =
        [ ":host\x7bcolor:blue !important;" ++
            "border-color:red !important;\x7d",
          "@media (min-width: 768px) \x7b:host\x7b" ++
            "margin-left:4px !important;" ++
            "margin-right:4px !important;\x7d\x7d" ] := by
  intro color paint gap env store tokens
  rcases env.run_emits_exactly_the_new_rules store true tokens with
    ⟨outcome, store', hRun, hRanks, _, hChunks⟩
  have hBlocks :
      ∀ c ∈ outcome.emitted, c.breakpoint.name = "sm-up" →
        ∃ blocks : List (String × List (String × String)),
          blocks.map Prod.fst = [":host"] ∧
          ∀ block ∈ blocks,
            block.2.map Prod.fst = ["color", "border-color"] := by
    intro c hc hName
    rcases hChunks c hc with ⟨_, _, blocks, hSelectors, hLines, _⟩
    rw [hName] at hSelectors hLines
    have hHost : blocks.map Prod.fst = [":host"] :=
      hSelectors.trans (by decide)
    refine ⟨blocks, hHost, fun block hBlock => ?_⟩
    have hOwn : block.1 = ":host" := by
      have hMem : block.1 ∈ blocks.map Prod.fst :=
        List.mem_map_of_mem hBlock
      rw [hHost] at hMem
      exact List.mem_singleton.1 hMem
    rw [(hLines block hBlock).1, hOwn]
    decide
  have hCss :
      (env.run store true tokens).toOption.map
          (fun r => r.1.emitted.map Chunk.css) =
        some
          [ ":host\x7bcolor:blue !important;" ++
              "border-color:red !important;\x7d",
            "@media (min-width: 768px) \x7b:host\x7b" ++
              "margin-left:4px !important;" ++
              "margin-right:4px !important;\x7d\x7d" ] := by
    decide
  rw [hRun] at hCss
  exact ⟨by decide, outcome, store', hRun, hRanks, hBlocks,
    Option.some.inj hCss⟩

end Environment

end AtomicCss
