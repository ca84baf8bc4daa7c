import AtomicCss.Proofs.Batch.Emission
import AtomicCss.Proofs.Token.Settling
import Mathlib.Data.List.Perm.Subperm

/-
  This file proves what the order of the tokens in a batch has
  an effect on, if no two of them compete.

  Of tokens with one rule the first is cached and the others
  are deduplicated, so that the order decides which one that
  is. But the rules that are new are the same in every order,
  up to rules that are recognized as one; and the tally, the
  breakpoints, the selectors and the rules that were seen only
  depend on what rules are recognized by.

  Key definitions include:
    * `Environment.newFingerprints`

  The main statements are:
    * `Environment.length_emissions_le`
    * `Environment.newFingerprints_perm`
    * `Environment.tally_of_perm`
    * `Environment.order_of_tokens_does_not_matter`
-/

namespace AtomicCss

namespace Environment

variable (env : Environment)

------------------------------------------------------------
-- Chunks
------------------------------------------------------------

/- The chunks of new rules stand for breakpoints that have one. -/
theorem breakpoints_emissions
    (new : List Rule) :
    (env.emissions new).map Chunk.breakpoint =
      env.cascade.breakpoints.filter
        (fun b => b.name ∈ new.map Rule.breakpoint) := by
  rw [emissions, List.map_map]
  exact List.map_id _

/- There are at most as many chunks as new rules. -/
theorem length_emissions_le
    (new : List Rule) :
    (env.emissions new).length ≤ new.length := by
  have hNodup :
      (((env.emissions new).map Chunk.breakpoint).map
        (fun b => b.name)).Nodup := by
    rw [breakpoints_emissions]
    exact env.cascade.nodup_names_breakpoints.sublist
      (List.filter_sublist.map _)
  have hSubset :
      ((env.emissions new).map Chunk.breakpoint).map
        (fun b => b.name) ⊆ new.map Rule.breakpoint := by
    intro name hName
    rw [breakpoints_emissions] at hName
    rcases List.mem_map.1 hName with ⟨b, hb, rfl⟩
    exact of_decide_eq_true (List.mem_filter.1 hb).2
  simpa using (hNodup.subperm hSubset).length_le

/- A chunk is what the gathered rules of its breakpoint come to. -/
theorem css_of_mem_emitted
    {store : RuleStore}
    {hosted : Bool}
    {tokens : List String}
    {c : Chunk}
    (hChunk : c ∈ (env.outcome store hosted tokens).emitted) :
    c.css =
      Render.breakpoint env.extensions
        (env.storeAfter store hosted tokens).working
        c.breakpoint := by
  rcases List.mem_map.1 hChunk with ⟨b, hb, rfl⟩
  have hName := of_decide_eq_true (List.mem_filter.1 hb).2
  rw [working_storeAfter,
    env.breakpoint_gathered env.declares_of_mem_newRules,
    if_pos hName]

------------------------------------------------------------
-- New rules
------------------------------------------------------------

/- What the new rules of a batch are recognized by, in order. -/
def newFingerprints
    (store : RuleStore)
    (hosted : Bool)
    (tokens : List String) : List Fingerprint :=
  (env.newRules store hosted tokens).map Rule.fingerprint

variable (store : RuleStore) (hosted : Bool)

/- They tell how many rules are new. -/
theorem length_newFingerprints
    (tokens : List String) :
    (env.newFingerprints store hosted tokens).length =
      (env.newRules store hosted tokens).length :=
  List.length_map _

/- They tell which breakpoints have new rules. -/
theorem breakpoint_newFingerprints
    (tokens : List String) :
    (env.newFingerprints store hosted tokens).map
        Fingerprint.breakpoint =
      (env.newRules store hosted tokens).map Rule.breakpoint :=
  List.map_map

/- They tell which selectors the rendered rules have. -/
theorem mem_selectors_storeAfter_iff
    (tokens : List String)
    (b : Breakpoint)
    (selector : String) :
    selector ∈
        (Render.rules (env.storeAfter store hosted tokens).working
          b).map Prod.fst ↔
      ∃ f ∈ env.newFingerprints store hosted tokens,
        f.breakpoint = b.name ∧ f.selector = selector := by
  rw [working_storeAfter,
    Rule.rules_gathered env.declares_of_mem_newRules, Rule.blocksAt,
    List.map_map]
  change selector ∈ List.map id _ ↔ _
  rw [List.map_id, Rule.mem_selectors_iff]
  constructor
  · rintro ⟨r, hr, hSelector⟩
    rcases Rule.mem_atBreakpoint_iff.1 hr with ⟨hNew, hName⟩
    exact ⟨_, List.mem_map_of_mem hNew, hName, hSelector⟩
  · rintro ⟨f, hf, hName, hSelector⟩
    rcases List.mem_map.1 hf with ⟨r, hNew, rfl⟩
    exact ⟨r, Rule.mem_atBreakpoint_iff.2 ⟨hNew, hName⟩, hSelector⟩

/- They tell which rules have been seen in the end. -/
theorem contains_seen_storeAfter
    (tokens : List String)
    (f : Fingerprint) :
    (env.storeAfter store hosted tokens).seen.contains f =
      (decide (f ∈ env.newFingerprints store hosted tokens) ||
        store.seen.contains f) := by
  rw [seen_storeAfter, OrderedSet.contains_foldl_insert]
  rfl

------------------------------------------------------------
-- Tokens in another order
------------------------------------------------------------

section

variable {xs ys : List String}
variable (hPerm : xs.Perm ys)
variable (hApart : ((Token.written xs).map Token.place).Nodup)

include hPerm hApart

/- The settled tokens are the same. -/
theorem settle_perm :
    (Token.settle xs).Perm (Token.settle ys) := by
  have hWritten := Token.written_perm hPerm
  have hOther : ((Token.written ys).map Token.place).Nodup :=
    (hWritten.map Token.place).nodup_iff.1 hApart
  rw [Token.settle_of_nodup hApart, Token.settle_of_nodup hOther]
  exact hWritten

theorem rules_perm :
    (env.rules hosted xs).Perm (env.rules hosted ys) :=
  (settle_perm hPerm hApart).filterMap _

/- The same rules are new, up to rules that are recognized as one. -/
theorem newFingerprints_perm :
    (env.newFingerprints store hosted xs).Perm
      (env.newFingerprints store hosted ys) :=
  store.beginPass.fingerprints_taken_perm
    (fun _ hr => (declares_of_mem_rules hr).1)
    (env.rules_perm hosted hPerm hApart)

theorem emitted_of_perm :
    (env.outcome store hosted xs).emitted.map Chunk.breakpoint =
      (env.outcome store hosted ys).emitted.map Chunk.breakpoint := by
  have hNew := env.newFingerprints_perm store hosted hPerm hApart
  have hNames := hNew.map Fingerprint.breakpoint
  rw [breakpoint_newFingerprints, breakpoint_newFingerprints]
    at hNames
  change (env.emissions _).map Chunk.breakpoint =
    (env.emissions _).map Chunk.breakpoint
  rw [breakpoints_emissions, breakpoints_emissions]
  apply List.filter_congr
  intro b _
  exact decide_eq_decide.2 hNames.mem_iff

theorem tally_of_perm :
    (env.outcome store hosted xs).tally =
      (env.outcome store hosted ys).tally := by
  have hSettled := settle_perm hPerm hApart
  have hRules := env.rules_perm hosted hPerm hApart
  have hNew :=
    (env.newFingerprints_perm store hosted hPerm hApart).length_eq
  rw [length_newFingerprints, length_newFingerprints] at hNew
  have hSkipped :=
    (hSettled.map (env.rule? hosted)).count_eq none
  have hEmitted := congrArg List.length
    (env.emitted_of_perm store hosted hPerm hApart)
  rw [List.length_map, List.length_map] at hEmitted
  change (env.emissions _).length = (env.emissions _).length
    at hEmitted
  simp only [outcome, hSettled.length_eq, hRules.length_eq, hNew,
    hSkipped, hEmitted]

end

/-
  A batch is compiled whatever the store has seen. Its tokens
  are skipped, cached or deduplicated, and at most as many
  chunks are rendered as rules are cached.

  If no two tokens compete for a place, then in another order
  they are compiled with the same tally, and for the same
  breakpoints in the same order. Each chunk is printed from
  the rules that the store has gathered for its breakpoint,
  and these have the same selectors. In the end the same rules
  have been seen.
-/
theorem order_of_tokens_does_not_matter
    (env : Environment)
    (store : RuleStore)
    (hosted : Bool) :
    (∀ tokens, ∃ o after,
      env.run store hosted tokens = .ok (o, after) ∧
      o.tally.tokens =
        o.tally.skipped + o.tally.cached + o.tally.deduplicated ∧
      o.tally.rendered = o.emitted.length ∧
      o.emitted.length ≤ o.tally.cached) ∧
    ∀ xs ys : List String, xs.Perm ys →
      ((Token.written xs).map Token.place).Nodup →
        ∃ o p afterXs afterYs,
          env.run store hosted xs = .ok (o, afterXs) ∧
          env.run store hosted ys = .ok (p, afterYs) ∧
          o.tally = p.tally ∧
          o.emitted.map Chunk.breakpoint =
            p.emitted.map Chunk.breakpoint ∧
          (∀ c ∈ o.emitted,
            c.css = Render.breakpoint env.extensions
              afterXs.working c.breakpoint) ∧
          (∀ c ∈ p.emitted,
            c.css = Render.breakpoint env.extensions
              afterYs.working c.breakpoint) ∧
          (∀ b selector,
            selector ∈
                (Render.rules afterXs.working b).map Prod.fst ↔
              selector ∈
                (Render.rules afterYs.working b).map Prod.fst) ∧
          ∀ f, afterXs.seen.contains f = afterYs.seen.contains f := by
  constructor
  · intro tokens
    refine ⟨_, _, env.run_eq_ok store hosted tokens, ?_, rfl, ?_⟩
    · exact (env.tally_outcome store hosted tokens).symm
    · exact env.length_emissions_le _
  · intro xs ys hPerm hApart
    have hNew :=
      env.newFingerprints_perm store hosted hPerm hApart
    refine ⟨_, _, _, _, env.run_eq_ok store hosted xs,
      env.run_eq_ok store hosted ys,
      env.tally_of_perm store hosted hPerm hApart,
      env.emitted_of_perm store hosted hPerm hApart,
      fun _ hc => env.css_of_mem_emitted hc,
      fun _ hc => env.css_of_mem_emitted hc, ?_, ?_⟩
    · intro b selector
      rw [mem_selectors_storeAfter_iff, mem_selectors_storeAfter_iff]
      exact exists_congr (fun f => and_congr_left' hNew.mem_iff)
    · intro f
      rw [contains_seen_storeAfter, contains_seen_storeAfter]
      exact congrArg (· || _) (decide_eq_decide.2 hNew.mem_iff)

/- Utilities of which two write the same rule of a host. -/
def twins : Environment where
  cascade := ⟨[("sm", 576), ("md", 768)], by decide, by decide⟩
  catalog := {
    utilities := .ofList
      [("color", {
        values := .ofList [("red", .ofList [("color", "red")])] }),
      ("paint", {
        values := .ofList [("red", .ofList [("color", "red")])] }),
      ("size", {
        values := .ofList [("big", .ofList [("width", "9px")])] })] }
  extensions := ∅

/-
  Tokens of which two have one rule: whichever of them comes
  first is cached, and the other one is deduplicated.
-/
theorem order_of_tokens_does_not_matter_of_twins :
    let xs := ["color=red", "md-up:size=big", "paint=red", "x"]
    let ys := ["paint=red", "x", "color=red", "md-up:size=big"]
    ∃ o p afterXs afterYs,
      twins.run .empty true xs = .ok (o, afterXs) ∧
      twins.run .empty true ys = .ok (p, afterYs) ∧
      p.tally = ⟨4, 1, 2, 1, 2⟩ ∧
      o.tally = p.tally := by
  intro xs ys
  have hPerm : xs.Perm ys := by decide
  have hApart : ((Token.written xs).map Token.place).Nodup := by
    decide
  rcases (order_of_tokens_does_not_matter twins .empty true).2
      xs ys hPerm hApart with
    ⟨o, p, afterXs, afterYs, hXs, hYs, hTally, _⟩
  have hCounts :
      (twins.outcome .empty true ys).tally = ⟨4, 1, 2, 1, 2⟩ := by
    decide
  rw [twins.run_eq_ok] at hYs
  cases hYs
  exact ⟨o, _, afterXs, _, hXs, twins.run_eq_ok _ _ _, hCounts,
    hTally⟩

end Environment

end AtomicCss
