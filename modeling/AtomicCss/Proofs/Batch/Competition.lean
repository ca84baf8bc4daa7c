import AtomicCss.Proofs.Batch.Pass
import AtomicCss.Proofs.OrderedMap.Listing
import AtomicCss.Proofs.Text.Trimming
import AtomicCss.Proofs.Token.Settling

/-
  This file proves what a token without a rule does to the
  rules of a batch.

  Tokens are settled before any of them is looked up, so that
  a token without a rule competes as well as any other. As the
  last one it wins its place, which then has no rule at all.
  As the first one it says where the place is. In between, or
  if the place has no rule anyway, it has no effect.

  Key definitions include:
    * `Token.rivals`
    * `Token.without`

  The main statements are:
    * `Environment.rules_without`
    * `Environment.rules_of_surrounded`
    * `Environment.rules_of_followed`
    * `Environment.rules_without_others`
    * `Environment.rules_of_ruled_out`
-/

namespace AtomicCss

------------------------------------------------------------
-- Competing tokens
------------------------------------------------------------

namespace Token

/- The written tokens that compete for a place. -/
def rivals
    (k : String)
    (tokens : List String) : List String :=
  (written tokens).filter (fun t => place t = k)

/- A list without the tokens that compete for a place. -/
def without
    (k : String)
    (tokens : List String) : List String :=
  tokens.filter (fun text => place (Text.trimmed text) ≠ k)

theorem rivals_append
    (k : String)
    (xs ys : List String) :
    rivals k (xs ++ ys) = rivals k xs ++ rivals k ys := by
  simp [rivals, written]

theorem without_append
    (k : String)
    (xs ys : List String) :
    without k (xs ++ ys) = without k xs ++ without k ys :=
  List.filter_append _ _

section

variable {text k : String}

theorem without_cons
    (hPlace : place (Text.trimmed text) = k)
    (ys : List String) :
    without k (text :: ys) = without k ys :=
  List.filter_cons_of_neg (by simp [hPlace])

theorem rivals_cons
    (hWritten : Text.trimmed text ≠ "")
    (hPlace : place (Text.trimmed text) = k)
    (ys : List String) :
    rivals k (text :: ys) = Text.trimmed text :: rivals k ys := by
  simp [rivals, written, hWritten, hPlace]

end

theorem placed_cons
    {text : String}
    (hWritten : Text.trimmed text ≠ "")
    (ys : List String) :
    placed (text :: ys) =
      (place (Text.trimmed text), Text.trimmed text) ::
        placed ys := by
  simp [placed, written, hWritten]

/- Blank tokens are dropped. -/
theorem placed_cons_of_blank
    {text : String}
    (hBlank : Text.trimmed text = "")
    (ys : List String) :
    placed (text :: ys) = placed ys := by
  simp [placed, written, hBlank]

theorem written_without
    (k : String)
    (tokens : List String) :
    written (without k tokens) =
      (written tokens).filter (fun t => place t ≠ k) := by
  have hTrimmed :
      (without k tokens).map Text.trimmed =
        (tokens.map Text.trimmed).filter (fun t => place t ≠ k) := by
    simp only [without, List.filter_map, Function.comp_def]
  rw [written, written, hTrimmed, List.filter_comm]

theorem placed_without
    (k : String)
    (tokens : List String) :
    placed (without k tokens) = Entries.erase k (placed tokens) := by
  rw [placed, written_without, Entries.erase, placed, List.filter_map]
  rfl

/- The last of the competing tokens wins the place. -/
theorem last?_placed
    (k : String)
    (tokens : List String) :
    Entries.last? k (placed tokens) = (rivals k tokens).getLast? := by
  rw [Entries.last?, placed, List.filter_map, List.getLast?_map,
    Option.map_map]
  exact congrFun Option.map_id _

/- A written token is its own text. -/
theorem trimmed_of_mem_rivals
    {k : String}
    {tokens : List String}
    {t : String}
    (hRival : t ∈ rivals k tokens) :
    Text.trimmed t = t ∧ t ≠ "" ∧ place t = k := by
  rcases List.mem_filter.1 hRival with ⟨hWritten, hPlace⟩
  rcases List.mem_filter.1 hWritten with ⟨hTrimmed, hNe⟩
  rcases List.mem_map.1 hTrimmed with ⟨text, _, rfl⟩
  exact ⟨Text.trimmed_trimmed text, of_decide_eq_true hNe,
    of_decide_eq_true hPlace⟩

end Token

------------------------------------------------------------
-- Rules of competing tokens
------------------------------------------------------------

namespace Environment

variable {env : Environment} {hosted : Bool}

theorem rule?_trimmed
    (text : String) :
    env.rule? hosted (Text.trimmed text) = env.rule? hosted text := by
  rw [rule?, Token.read?, Text.trimmed_trimmed]
  rfl

theorem rules_eq
    (tokens : List String) :
    env.rules hosted tokens =
      (OrderedMap.ofList (Token.placed tokens)).values.filterMap
        (env.rule? hosted) :=
  rfl

/-
  If the winner of a place has no rule, then none of the
  tokens that compete for it has an effect.
-/
theorem rules_without
    {k : String}
    {tokens : List String}
    (hNone :
      ∀ t ∈ (Token.rivals k tokens).getLast?,
        env.rule? hosted t = none) :
    env.rules hosted (Token.without k tokens) =
      env.rules hosted tokens := by
  rw [rules_eq, rules_eq, Token.placed_without,
    ← OrderedMap.erase_ofList]
  apply OrderedMap.filterMap_values_erase
  rw [OrderedMap.get?_ofList, Token.last?_placed]
  exact hNone

variable {text : String} {xs ys : List String}

/- A blank token has no effect. -/
theorem rules_of_blank
    (hBlank : Text.trimmed text = "") :
    env.rules hosted (xs ++ text :: ys) =
      env.rules hosted (xs ++ ys) := by
  rw [rules_eq, rules_eq, Token.placed_append,
    Token.placed_cons_of_blank hBlank, Token.placed_append]

section

variable {k : String}
variable (hWritten : Text.trimmed text ≠ "")
variable (hPlace : Token.place (Text.trimmed text) = k)

include hWritten hPlace

/- A token between others of its place has no effect. -/
theorem rules_of_surrounded
    (hBefore : Token.rivals k xs ≠ [])
    (hBehind : Token.rivals k ys ≠ []) :
    env.rules hosted (xs ++ text :: ys) =
      env.rules hosted (xs ++ ys) := by
  have hKey : k ∈ (Token.placed xs).map Prod.fst := by
    rcases List.exists_mem_of_ne_nil _ hBefore with ⟨t, ht⟩
    rcases List.mem_filter.1 ht with ⟨hMem, hSame⟩
    rw [Token.placed, List.map_map]
    exact List.mem_map.2 ⟨t, hMem, of_decide_eq_true hSame⟩
  have hLast : Entries.last? k (Token.placed ys) ≠ none := by
    rw [Token.last?_placed]
    exact mt List.getLast?_eq_none_iff.1 hBehind
  rw [rules_eq, rules_eq, Token.placed_append,
    Token.placed_cons hWritten, Token.placed_append, hPlace,
    OrderedMap.ofList_of_surrounded hKey hLast]

/-
  If others of its place follow a token, then the last of them
  stands in its place, and the rest of them have no effect.
-/
theorem rules_of_followed
    {w : String}
    (hWinner : (Token.rivals k ys).getLast? = some w) :
    env.rules hosted (xs ++ text :: ys) =
      env.rules hosted (xs ++ w :: Token.without k ys) := by
  have hLast : Entries.last? k (Token.placed ys) = some w := by
    rw [Token.last?_placed, hWinner]
  rcases Token.trimmed_of_mem_rivals (List.mem_of_getLast? hWinner)
    with ⟨hTrimmed, hNe, hSame⟩
  have hOther : Text.trimmed w ≠ "" := by
    rw [hTrimmed]
    exact hNe
  rw [rules_eq, rules_eq, Token.placed_append,
    Token.placed_cons hWritten, Token.placed_append,
    Token.placed_cons hOther, hTrimmed, hPlace, hSame,
    Token.placed_without, OrderedMap.ofList_of_followed hLast]

variable (hNone : env.rule? hosted text = none)

include hNone

/-
  A token without a rule keeps the others of its place from
  having an effect, unless one with a rule is the last.
-/
theorem rules_without_others
    (hBehind :
      ∀ t ∈ (Token.rivals k ys).getLast?,
        env.rule? hosted t = none) :
    env.rules hosted (xs ++ text :: ys) =
      env.rules hosted (Token.without k (xs ++ ys)) := by
  have hWinner :
      ∀ t ∈ (Token.rivals k (xs ++ text :: ys)).getLast?,
        env.rule? hosted t = none := by
    intro t ht
    rw [Token.rivals_append, Token.rivals_cons hWritten hPlace,
      List.getLast?_append, List.getLast?_cons, Option.some_or,
      Option.mem_some_iff] at ht
    cases hLast : (Token.rivals k ys).getLast? with
    | none =>
        rw [hLast, Option.getD_none] at ht
        rw [← ht, rule?_trimmed, hNone]
    | some w =>
        rw [hLast, Option.getD_some] at ht
        exact hBehind t (ht ▸ hLast)
  rw [← rules_without hWinner, Token.without_append,
    Token.without_cons hPlace, Token.without_append]

/-
  If the place of a token has no rule without it, then the
  token has no effect.
-/
theorem rules_of_ruled_out
    (hOthers :
      ∀ t ∈ (Token.rivals k (xs ++ ys)).getLast?,
        env.rule? hosted t = none) :
    env.rules hosted (xs ++ text :: ys) =
      env.rules hosted (xs ++ ys) := by
  rw [← rules_without hOthers]
  refine rules_without_others hWritten hPlace hNone ?_
  intro t ht
  refine hOthers t ?_
  rw [Token.rivals_append, List.getLast?_append, Option.mem_def.1 ht]
  rfl

end

end Environment

end AtomicCss
