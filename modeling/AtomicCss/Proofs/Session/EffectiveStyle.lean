import AtomicCss.Proofs.Batch.Deciding
import AtomicCss.Proofs.Session.Consistency

/-
  This file proves which value a sheet gives to a property
  after a call, compared with the value that the same call
  gives in a fresh partition.

  A rule that was stored before is not appended again, so it
  keeps its old place. Hence the values agree if the rule that
  decides for the call is new. If it is not, the rules that
  were stored after its copy come in between.

  Key definitions include:
    * `Environment.stored`
    * `Environment.decided`

  The main statements are:
    * `Environment.decided_eq_lastValue`
    * `Environment.stored_append_eq`
    * `Environment.decided_append_of_decided`
    * `Chronicle.decided_after_call`
-/

namespace AtomicCss

namespace Environment

variable (env : Environment) (hosted : Bool)

------------------------------------------------------------
-- Stored rules
------------------------------------------------------------

/- The rules that batches store in a fresh partition, in order. -/
def stored
    (batches : List (List String)) : List Rule :=
  (env.passes hosted batches).flatten

/-
  The value of a property for a selector at a breakpoint, read
  off the blocks that batches append to a fresh partition.
-/
def decided
    (batches : List (List String))
    (name selector property : String) : Option String :=
  Rule.decided (env.blocks hosted batches name) selector property

/- The last of the stored rules decides. -/
theorem decided_eq_lastValue
    (batches : List (List String))
    (name selector property : String) :
    env.decided hosted batches name selector property =
      Rule.lastValue property
        (Rule.placed (env.stored hosted batches)
          name selector) :=
  Rule.decided_flatMap_blocksAt _ _ _ _

theorem stored_append_singleton
    (batches : List (List String))
    (tokens : List String) :
    env.stored hosted (batches ++ [tokens]) =
      env.stored hosted batches ++
        env.newRules (env.filled hosted batches).store
          hosted tokens := by
  rw [stored, passes_append_singleton, List.flatten_append,
    List.flatten_cons, List.flatten_nil, List.append_nil]
  rfl

theorem stored_singleton
    (tokens : List String) :
    env.stored hosted [tokens] =
      RuleStore.empty.taken (env.rules hosted tokens) :=
  List.append_nil _

/- What a partition has seen are the rules stored in it. -/
theorem knows_filled_iff
    (batches : List (List String))
    (r : Rule) :
    (env.filled hosted batches).store.Knows r ↔
      r.fingerprint ∈
        (env.stored hosted batches).map Rule.fingerprint := by
  induction batches using List.reverseRecOn with
  | nil =>
      refine iff_of_false ?_ List.not_mem_nil
      exact Bool.false_ne_true
  | append_singleton batches tokens ih =>
      have hOffer :=
        (env.filled hosted batches).store.beginPass.knows_offerAll_iff
          (env.rules hosted tokens) r
      rw [filled_append_singleton, stored_append_singleton,
        List.map_append, List.mem_append, ← ih, List.mem_map]
      exact hOffer

/-
  A call adds what it would store in a fresh partition, but
  for the rules that were stored before.
-/
theorem stored_append_eq
    (batches : List (List String))
    (tokens : List String) :
    env.stored hosted (batches ++ [tokens]) =
      env.stored hosted batches ++
        (env.stored hosted [tokens]).filter (fun r =>
          !decide (r.fingerprint ∈
            (env.stored hosted batches).map Rule.fingerprint)) := by
  let store := (env.filled hosted batches).store.beginPass
  have hSeen :
      ∀ f, store.seen.contains f =
        (RuleStore.empty.seen.contains f ||
          store.seen.contains f) :=
    fun f => (Bool.false_or _).symm
  have hTaken :
      store.taken (env.rules hosted tokens) =
        (RuleStore.empty.taken (env.rules hosted tokens)).filter
          (fun r => !store.seen.contains r.fingerprint) :=
    RuleStore.taken_eq_filter_of_seen hSeen _
  rw [stored_append_singleton, stored_singleton]
  refine congrArg _ (hTaken.trans (List.filter_congr ?_))
  intro r _
  congr 1
  apply Bool.eq_iff_iff.2
  rw [decide_eq_true_iff]
  exact env.knows_filled_iff hosted batches r

/- A fresh partition has a copy of each rule of its call. -/
theorem exists_stored_of_mem_rules
    {tokens : List String}
    {r : Rule}
    (hRule : r ∈ env.rules hosted tokens) :
    ∃ w ∈ env.stored hosted [tokens],
      w.fingerprint = r.fingerprint := by
  have hKnows :=
    RuleStore.empty.knows_offerAll_of_mem hRule
      (declares_of_mem_rules hRule).1
  rw [RuleStore.knows_offerAll_iff] at hKnows
  rw [stored_singleton]
  exact hKnows.resolve_left Bool.false_ne_true

------------------------------------------------------------
-- Deciding rules
------------------------------------------------------------

variable {env hosted}

/- What a rule writes that a fresh partition stores is decided there. -/
theorem isSome_decided_of_mem_stored
    {batches : List (List String)}
    {w : Rule}
    (hStored : w ∈ env.stored hosted batches)
    {property : String}
    (hValue : (w.value? property).isSome = true) :
    (env.decided hosted batches w.breakpoint w.selector
      property).isSome = true := by
  have hPlaced :
      w ∈ Rule.placed (env.stored hosted batches)
        w.breakpoint w.selector :=
    Rule.mem_placed_iff.2 ⟨hStored, rfl, rfl⟩
  rw [decided_eq_lastValue, Option.isSome_iff_ne_none]
  intro hNone
  have hAll := (Declarations.lastValue_eq_none_iff _ _).1 hNone
  have hOwn := hAll _ (List.mem_map_of_mem hPlaced)
  rw [Rule.value?, hOwn] at hValue
  cases hValue

/- If the deciding rule is new, it decides after the call too. -/
theorem decided_append_of_new
    {batches : List (List String)}
    {tokens : List String}
    {name selector property v : String}
    {front rest : List Rule}
    {w : Rule}
    (hSplit :
      Rule.placed (env.stored hosted [tokens]) name selector =
        front ++ w :: rest)
    (hValue : w.value? property = some v)
    (hRest : Rule.lastValue property rest = none)
    (hNew :
      w.fingerprint ∉
        (env.stored hosted batches).map Rule.fingerprint) :
    env.decided hosted (batches ++ [tokens])
      name selector property = some v := by
  rw [decided_eq_lastValue, stored_append_eq, Rule.placed_append,
    Rule.placed_filter, hSplit, List.filter_append,
    List.filter_cons_of_pos (by simpa using hNew),
    ← List.append_assoc, Rule.lastValue_split, hValue,
    Rule.lastValue_eq_none_of_sublist List.filter_sublist hRest]
  rfl

/- If it was stored before, all that was stored later counts. -/
theorem decided_append_of_stored
    {batches : List (List String)}
    (tokens : List String)
    {r : Rule}
    (hStored : r ∈ env.stored hosted batches)
    (property : String) :
    let all := batches ++ [tokens]
    ∃ before later,
      Rule.placed (env.stored hosted all)
          r.breakpoint r.selector =
        before ++ r :: later ∧
      env.decided hosted all r.breakpoint r.selector property =
        ((Rule.lastValue property later).or
          (r.value? property)).or
            (Rule.lastValue property before) := by
  intro all
  have hPlaced :
      r ∈ Rule.placed (env.stored hosted all)
        r.breakpoint r.selector := by
    refine Rule.mem_placed_iff.2 ⟨?_, rfl, rfl⟩
    rw [stored_append_eq]
    exact List.mem_append_left _ hStored
  rcases List.append_of_mem hPlaced with ⟨before, later, hSplit⟩
  refine ⟨before, later, hSplit, ?_⟩
  rw [decided_eq_lastValue, hSplit, Rule.lastValue_split]

end Environment

------------------------------------------------------------
-- Calls
------------------------------------------------------------

namespace Chronicle

/- A call that is served fills its partition with its tokens. -/
theorem partition?_next_of_serves
    {c : Chronicle}
    {env : Environment}
    (hEnv : c.session.environment? = some env)
    {op : Operation}
    {call : Call}
    (hCall : op.call? = some call)
    (hServes : c.session.serves call = true) :
    ∃ p,
      c.session.partition? call.scope = some p ∧
      (c.next op).session.partition? call.scope =
        some (env.fill call.scope.isSome p call.tokens) := by
  have hPhase := c.session.phase_ne_waiting_of_environment? hEnv
  rcases c.session.run_cases call with
    ⟨hFalse, _⟩ | ⟨env', p, hEnv', hPartition, _, _⟩
  · rw [hServes] at hFalse
    cases hFalse
  · rw [hEnv, Option.some.injEq] at hEnv'
    subst hEnv'
    refine ⟨p, hPartition, ?_⟩
    rw [c.next_of_call? hCall hPhase]
    exact c.session.partition?_run_self call hEnv hPartition

/- So it continues the batches of that partition. -/
theorem filled_next_of_serves
    {c : Chronicle}
    (hc : c.Consistent)
    {env : Environment}
    (hEnv : c.session.environment? = some env)
    {op : Operation}
    {call : Call}
    (hCall : op.call? = some call)
    (hServes : c.session.serves call = true) :
    (c.next op).session.partition? call.scope =
      some (env.filled call.scope.isSome
        (c.batches call.scope ++ [call.tokens])) := by
  rcases partition?_next_of_serves hEnv hCall hServes with
    ⟨p, hPartition, hNext⟩
  have hp := hc.filled env (hc.ready env hEnv) _ p hPartition
  rw [hNext, env.filled_append_singleton, ← hp]

/-
  After a call, a property has the value that the same call
  gives it in a fresh partition, unless the rule that decides
  there was stored by an earlier call. In that case the call
  does not append it again: a rule that was stored later than
  the copy, by an earlier call or by this one, wins over it.
-/
theorem decided_after_call
    {ops : List Operation}
    (hEmpty : ∀ op ∈ ops, op.BringsEmpty)
    {env : Environment}
    (hEnv : (after ops).session.environment? = some env)
    {op : Operation}
    {call : Call}
    (hCall : op.call? = some call)
    (hServes : (after ops).session.serves call = true) :
    let c := after ops
    let hosted := call.scope.isSome
    let earlier := c.batches call.scope
    let all := earlier ++ [call.tokens]
    (c.next op).session.partition? call.scope =
      some (env.filled hosted all) ∧
    (∀ batches, ∀ b ∈ env.cascade.breakpoints,
      (env.filled hosted batches).sheet.get? b.name =
        Text.joined? (env.texts hosted batches b)) ∧
    (∀ r ∈ env.rules hosted call.tokens,
      ∃ w ∈ env.stored hosted [call.tokens],
        w.fingerprint = r.fingerprint ∧
        ∀ property, (w.value? property).isSome = true →
          (env.decided hosted [call.tokens]
            w.breakpoint w.selector property).isSome = true) ∧
    ∀ name selector property v,
      env.decided hosted [call.tokens]
        name selector property = some v →
      ∃ front w rest,
        Rule.placed (env.stored hosted [call.tokens])
          name selector = front ++ w :: rest ∧
        w.value? property = some v ∧
        Rule.lastValue property rest = none ∧
        (w.fingerprint ∉
            (env.stored hosted earlier).map Rule.fingerprint →
          env.decided hosted all
            name selector property = some v) ∧
        ∀ r ∈ env.stored hosted earlier,
          r.fingerprint = w.fingerprint →
          ∃ before later,
            Rule.placed (env.stored hosted all)
              name selector = before ++ r :: later ∧
            env.decided hosted all name selector property =
              ((Rule.lastValue property later).or
                (r.value? property)).or
                  (Rule.lastValue property before) ∧
            (r.value? property = some v →
              (env.decided hosted all
                name selector property = some v ↔
                ∀ u, Rule.lastValue property later = some u →
                  u = v)) := by
  intro c hosted earlier all
  refine ⟨?_, ?_, ?_, ?_⟩
  · exact filled_next_of_serves (consistent_after hEmpty) hEnv
      hCall hServes
  · exact fun batches b hb => env.get?_sheet_filled hosted batches hb
  · intro r hr
    rcases env.exists_stored_of_mem_rules hosted hr with
      ⟨w, hw, hSame⟩
    exact ⟨w, hw, hSame, fun property hValue =>
      Environment.isSome_decided_of_mem_stored hw hValue⟩
  · intro name selector property v hFresh
    rw [Environment.decided_eq_lastValue] at hFresh
    rcases Rule.exists_of_lastValue_eq_some hFresh with
      ⟨front, w, rest, hSplit, hValue, hRest⟩
    refine ⟨front, w, rest, hSplit, hValue, hRest, ?_, ?_⟩
    · exact Environment.decided_append_of_new hSplit hValue hRest
    · intro r hr hSame
      have hPlaced :
          w ∈ Rule.placed (env.stored hosted [call.tokens])
            name selector := by
        rw [hSplit]
        exact List.mem_append_right _ List.mem_cons_self
      rcases Rule.mem_placed_iff.1 hPlaced with
        ⟨_, hName, hSelector⟩
      have hAt : r.breakpoint = name :=
        (congrArg Fingerprint.breakpoint hSame).trans hName
      have hBy : r.selector = selector :=
        (congrArg Fingerprint.selector hSame).trans hSelector
      rcases
          Environment.decided_append_of_stored call.tokens hr property with
        ⟨before, later, hStored, hDecided⟩
      rw [hAt, hBy] at hStored hDecided
      refine ⟨before, later, hStored, hDecided, ?_⟩
      intro hCopy
      rw [hDecided, hCopy]
      cases Rule.lastValue property later <;> simp

/-
  A color that was stored before a competing one: in a fresh
  partition it decides, but after the call its competitor
  does, which was stored later than its copy.
-/
theorem decided_after_call_of_swatches :
    let ops : List Operation :=
      [.start Setup.swatches,
        .createScope ∅,
        .compile ["color=red"] (some 0),
        .compile ["color=blue"] (some 0)]
    let last : Operation := .compile ["color=red"] (some 0)
    let call : Call := ⟨["color=red"], some 0⟩
    let c := after ops
    let earlier := c.batches (some 0)
    let all := earlier ++ [["color=red"]]
    (∀ op ∈ ops, op.BringsEmpty) ∧
    last.call? = some call ∧
    c.session.serves call = true ∧
    ∃ env,
      c.session.environment? = some env ∧
      (c.next last).session.partition? (some 0) =
        some (env.filled true all) ∧
      env.decided true [["color=red"]] "sm-up" ":host" "color" =
        some "red" ∧
      ∃ r ∈ env.stored true earlier,
        r.value? "color" = some "red" ∧
        ∃ before later,
          Rule.placed (env.stored true all) "sm-up" ":host" =
            before ++ r :: later ∧
          Rule.lastValue "color" later = some "blue" ∧
          env.decided true all "sm-up" ":host" "color" =
            some "blue" := by
  intro ops last call c earlier all
  have hEmpty : ∀ op ∈ ops, op.BringsEmpty := by decide
  have hServes : c.session.serves call = true := rfl
  have hCall : last.call? = some call := rfl
  have hEnv : ∃ env, c.session.environment? = some env ∧
      env.decided true [["color=red"]] "sm-up" ":host" "color" =
        some "red" ∧
      env.decided true all "sm-up" ":host" "color" = some "blue" ∧
      ∀ w ∈ env.stored true [["color=red"]],
        ∀ r ∈ env.stored true earlier,
          r.fingerprint = w.fingerprint →
            r.value? "color" = some "red" :=
    ⟨_, rfl, by decide, by decide, by decide⟩
  rcases hEnv with ⟨env, hEnv, hFresh, hAll, hCopies⟩
  rcases decided_after_call hEmpty hEnv hCall hServes with
    ⟨hFilled, _, _, hDecided⟩
  rcases hDecided "sm-up" ":host" "color" "red" hFresh with
    ⟨front, w, rest, hSplit, _, _, hNew, hOld⟩
  have hPlaced :
      w ∈ Rule.placed (env.stored true [["color=red"]])
        "sm-up" ":host" :=
    hSplit ▸ List.mem_append_right _ List.mem_cons_self
  -- If the deciding rule were new it would decide here too.
  have hStored :
      w.fingerprint ∈
        (env.stored true earlier).map Rule.fingerprint := by
    by_contra hNot
    exact absurd (hAll.symm.trans (hNew hNot)) (by decide)
  rcases List.mem_map.1 hStored with ⟨r, hr, hSame⟩
  have hCopy : r.value? "color" = some "red" :=
    hCopies w (Rule.mem_placed_iff.1 hPlaced).1 r hr hSame
  rcases hOld r hr hSame with ⟨before, later, hBehind, hLater, _⟩
  have hBlue : Rule.lastValue "color" later = some "blue" := by
    have hSum := hAll.symm.trans hLater
    rw [hCopy] at hSum
    cases hLast : Rule.lastValue "color" later with
    | none => simp [hLast] at hSum
    | some u => simpa [hLast] using hSum.symm
  exact ⟨hEmpty, hCall, hServes, env, hEnv, hFilled, hFresh, r, hr,
    hCopy, before, later, hBehind, hBlue, hAll⟩

/-
  Two colors for one host, and then the first of them again:
  in a fresh partition it decides, but here it does not.
-/
theorem recompiled_rule_loses_to_its_competitor :
    let ops : List Operation :=
      [.start Setup.swatches,
        .createScope ∅,
        .compile ["color=red"] (some 0),
        .compile ["color=blue"] (some 0)]
    let last : Operation := .compile ["color=red"] (some 0)
    let c := (after ops).next last
    ∃ env,
      c.environment = some env ∧
      env.extensions.isEmpty = true ∧
      c.batches (some 0) =
        [["color=red"], ["color=blue"], ["color=red"]] ∧
      (env.rules true ["color=red"]).map
        (fun r => (r.breakpoint, r.selector, r.value? "color")) =
          [("sm-up", ":host", some "red")] ∧
      env.decided true [["color=red"]]
        "sm-up" ":host" "color" = some "red" ∧
      env.decided true (c.batches (some 0))
        "sm-up" ":host" "color" = some "blue" ∧
      (c.session.sheet? (some 0)).map Sheet.css =
        some ":host\x7bcolor:red;\x7d:host\x7bcolor:blue;\x7d" := by
  intro ops last c
  refine ⟨_, rfl, ?_⟩
  exact ⟨by decide, by decide, by decide, by decide, by decide,
    by decide⟩

end Chronicle

end AtomicCss
