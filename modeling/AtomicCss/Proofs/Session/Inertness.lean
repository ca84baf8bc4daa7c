import AtomicCss.Proofs.Batch.Competition
import AtomicCss.Proofs.Session.Operation

/-
  This file proves what becomes of a call if a token without a
  rule is left out of it.

  Such a token has no text of its own, but it competes for its
  place before it is looked up. So the call may have to be
  changed in more than that token: if it is the last of its
  place then all others of the place go with it, and if it is
  the first then the last one moves up.

  Key definitions include:
    * `Reply.EmitsAlike`

  The main statements are:
    * `Session.compile_of_rules`
    * `Session.tokens_without_rule_only_compete`
-/

namespace AtomicCss

/-
  Whether two replies succeed with the same new text, and leave
  the same session and the same events. Only what they count
  may differ.
-/
def Reply.EmitsAlike
    (r r' : Reply Outcome) : Prop :=
  r.session = r'.session ∧
    r.events = r'.events ∧
    ∃ o o',
      r.result = .ok o ∧ r'.result = .ok o' ∧
        o.emitted = o'.emitted

namespace Session

variable {s : Session} {env : Environment}

/- What a call emits depends on the rules of its tokens only. -/
theorem compile_of_rules
    (hEnv : s.environment? = some env)
    {scope : Option Nat}
    {xs ys : List String}
    (hRules :
      env.rules scope.isSome xs = env.rules scope.isSome ys) :
    (s.compile xs scope).EmitsAlike (s.compile ys scope) := by
  have hPhase := s.phase_ne_waiting_of_environment? hEnv
  rw [s.compile_of_not_waiting hPhase ⟨xs, scope⟩,
    s.compile_of_not_waiting hPhase ⟨ys, scope⟩]
  cases hPartition : s.partition? scope with
  | none =>
      have hServes :
          ∀ tokens, s.serves ⟨tokens, scope⟩ = false := by
        intro tokens
        rw [serves, hPartition]
        exact Bool.and_false _
      rw [s.run_of_serves_eq_false _ (hServes xs),
        s.run_of_serves_eq_false _ (hServes ys)]
      exact ⟨rfl, rfl, _, _, rfl, rfl, rfl⟩
  | some p =>
      have hNew :
          env.newRules p.store scope.isSome xs =
            env.newRules p.store scope.isSome ys := by
        rw [Environment.newRules, hRules]
        rfl
      have hEmitted :
          (env.outcome p.store scope.isSome xs).emitted =
            (env.outcome p.store scope.isSome ys).emitted :=
        congrArg env.emissions hNew
      have hStore :
          env.storeAfter p.store scope.isSome xs =
            env.storeAfter p.store scope.isSome ys := by
        rw [Environment.storeAfter, hRules]
        rfl
      rw [s.run_of_partition? ⟨xs, scope⟩ hEnv hPartition,
        s.run_of_partition? ⟨ys, scope⟩ hEnv hPartition]
      dsimp only
      unfold deliver
      rw [hEmitted, hStore]
      exact ⟨rfl, rfl, _, _, rfl, rfl, hEmitted⟩

/-
  In a session that compiles, let a token have no rule, and let
  its place be the text in front of its value.

  If it is blank, or if its place has no rule in the end even
  without it, or if others compete for the place both before
  and behind it, then the call emits what it emits without the
  token. If no other token follows that competes for the
  place, then it emits what it emits without all of them. If
  others follow, then it emits what it emits with the last of
  them instead of the token, and without the rest of those.
-/
theorem tokens_without_rule_only_compete
    (hEnv : s.environment? = some env)
    (scope : Option Nat)
    (xs ys : List String)
    {text : String}
    (hNone : env.rule? scope.isSome text = none) :
    let k := Token.place (Text.trimmed text)
    (Text.trimmed text = "" ∨
        (∀ t ∈ (Token.rivals k (xs ++ ys)).getLast?,
          env.rule? scope.isSome t = none) ∨
        (Token.rivals k xs ≠ [] ∧ Token.rivals k ys ≠ []) →
      (s.compile (xs ++ text :: ys) scope).EmitsAlike
        (s.compile (xs ++ ys) scope)) ∧
    (Text.trimmed text ≠ "" →
      (Token.rivals k ys = [] →
        (s.compile (xs ++ text :: ys) scope).EmitsAlike
          (s.compile (Token.without k (xs ++ ys)) scope)) ∧
      ∀ w, (Token.rivals k ys).getLast? = some w →
        (s.compile (xs ++ text :: ys) scope).EmitsAlike
          (s.compile (xs ++ w :: Token.without k ys) scope)) := by
  intro k
  constructor
  · intro hCases
    apply compile_of_rules hEnv
    by_cases hBlank : Text.trimmed text = ""
    · exact Environment.rules_of_blank hBlank
    · rcases hCases with hBlank' | hOthers | ⟨hBefore, hBehind⟩
      · exact absurd hBlank' hBlank
      · exact Environment.rules_of_ruled_out hBlank rfl hNone hOthers
      · exact Environment.rules_of_surrounded hBlank rfl hBefore
          hBehind
  · intro hWritten
    constructor
    · intro hLast
      apply compile_of_rules hEnv
      apply Environment.rules_without_others hWritten rfl hNone
      rw [hLast]
      intro t ht
      cases ht
    · intro w hWinner
      apply compile_of_rules hEnv
      exact Environment.rules_of_followed hWritten rfl hWinner

/-
  An unknown color between two known ones, which is the first
  of its place. The last one moves up to it.
-/
theorem tokens_without_rule_only_compete_of_swatches :
    let s := (new.start Setup.swatches).session
    let xs := ["md-up:color=red"]
    let ys := ["sm-down:color=blue", "color=red", "color=blue"]
    ∃ env,
      s.environment? = some env ∧
      env.rule? false "color=nope" = none ∧
      (s.compile (xs ++ "color=nope" :: ys) none).EmitsAlike
        (s.compile (xs ++ "color=blue" :: ["sm-down:color=blue"])
          none) := by
  intro s xs ys
  have hEnv : ∃ env, s.environment? = some env := ⟨_, rfl⟩
  rcases hEnv with ⟨env, hEnv⟩
  have hNone : env.rule? false "color=nope" = none := by
    cases hEnv
    decide
  have hWithout :
      Token.without (Token.place (Text.trimmed "color=nope")) ys =
        ["sm-down:color=blue"] := by
    decide +kernel
  have hAlike :=
    ((tokens_without_rule_only_compete hEnv none xs ys hNone).2
      (by decide)).2 "color=blue" (by decide +kernel)
  rw [hWithout] at hAlike
  exact ⟨env, hEnv, hNone, hAlike⟩

/-
  A token without a rule keeps one of the same place from being
  compiled that was written before it.
-/
theorem token_without_rule_hides_another :
    let s := (new.start Setup.swatches).session
    ∃ env,
      s.environment? = some env ∧
      env.rule? false "color=nope" = none ∧
      (s.compile ["color=red", "color=nope"] none).result.toOption.map
        Outcome.css = some "" ∧
      (s.compile ["color=red"] none).result.toOption.map
        Outcome.css =
          some "[class*=\"color=red\"]\x7bcolor:red;\x7d" := by
  intro s
  refine ⟨_, rfl, by decide, by decide, by decide⟩

end Session

end AtomicCss
