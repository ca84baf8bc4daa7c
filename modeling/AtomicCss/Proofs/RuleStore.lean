import AtomicCss.Batch.Run
import AtomicCss.Proofs.OrderedMap

/-
  This file proves what a store holds after rules were offered
  to it one after another.

  The rules that were new are a list of their own: the store
  has seen them besides what it had seen before, and it has
  gathered them on top of what it had gathered.

  Key definitions include:
    * `RuleStore.offer`
    * `RuleStore.offerAll`
    * `RuleStore.taken`
    * `RuleStore.Knows`

  The main statements are:
    * `RuleStore.seen_offerAll`
    * `RuleStore.working_offerAll`
    * `RuleStore.taken_append`
    * `RuleStore.knows_offerAll_iff`
    * `RuleStore.taken_eq_filter_of_seen`
    * `RuleStore.mem_fingerprints_taken_iff`
    * `RuleStore.fingerprints_taken_perm`
-/

namespace AtomicCss

------------------------------------------------------------
-- Rules
------------------------------------------------------------

namespace Rule

/- What a store recognizes a rule by. -/
def fingerprint
    (r : Rule) : Fingerprint :=
  RuleStore.fingerprint r.breakpoint r.selector r.declarations

/- Whether a rule has declarations. -/
def Declares
    (r : Rule) : Prop :=
  r.declarations.isEmpty = false

theorem not_declares_iff
    (r : Rule) :
    ¬ r.Declares ↔ r.declarations.isEmpty = true :=
  iff_of_eq (Bool.not_eq_false _)

end Rule

------------------------------------------------------------
-- Offering rules
------------------------------------------------------------

namespace RuleStore

/-
  Insert a rule: whether it is new, and the store after it.
  A rule that cannot be stored is dropped.
-/
def offer
    (s : RuleStore)
    (r : Rule) : Bool × RuleStore :=
  match s.insert r.breakpoint r.selector r.declarations with
  | .ok answer => answer
  | .error _ => (false, s)

/- Insert rules one after another. -/
def offerAll
    (s : RuleStore)
    (rules : List Rule) : RuleStore :=
  rules.foldl (fun s r => (s.offer r).2) s

/- The rules that are new when all are inserted in order. -/
def taken
    (s : RuleStore) : List Rule → List Rule
  | [] => []
  | r :: rest =>
      if (s.offer r).1 then
        r :: taken (s.offer r).2 rest
      else
        taken (s.offer r).2 rest

/- Whether a store has seen a rule. -/
def Knows
    (s : RuleStore)
    (r : Rule) : Prop :=
  s.seen.contains r.fingerprint = true

instance
    (s : RuleStore)
    (r : Rule) :
    Decidable (s.Knows r) :=
  inferInstanceAs (Decidable (_ = true))

/- The store with one more rule. -/
def put
    (s : RuleStore)
    (r : Rule) : RuleStore where
  seen := s.seen.insert r.fingerprint ()
  working := gather s.working r.breakpoint r.selector r.declarations

variable (s : RuleStore)

/- A rule with declarations is stored unless it was seen. -/
theorem insert_of_declares
    {r : Rule}
    (hDeclares : r.Declares) :
    s.insert r.breakpoint r.selector r.declarations =
      .ok (s.offer r) := by
  unfold offer insert
  rw [if_neg (Bool.eq_false_iff.1 hDeclares)]
  dsimp only
  split <;> rfl

/- An offer changes nothing, or it is taken. -/
theorem offer_cases
    (r : Rule) :
    s.offer r = (false, s) ∧ (r.Declares → s.Knows r) ∨
      s.offer r = (true, s.put r) ∧ r.Declares ∧ ¬ s.Knows r := by
  cases hEmpty : r.declarations.isEmpty with
  | true =>
      refine Or.inl ⟨by simp [offer, insert, hEmpty], ?_⟩
      intro hDeclares
      rw [Rule.Declares, hEmpty] at hDeclares
      cases hDeclares
  | false =>
      unfold offer insert
      rw [if_neg (Bool.eq_false_iff.1 hEmpty)]
      by_cases hKnown : s.Knows r
      · have hIf := hKnown
        unfold Knows Rule.fingerprint at hIf
        exact Or.inl ⟨by simp only [hIf, if_true], fun _ => hKnown⟩
      · have hIf := hKnown
        unfold Knows Rule.fingerprint at hIf
        exact Or.inr
          ⟨by simp only [hIf]; rfl, hEmpty, hKnown⟩

theorem offerAll_cons
    (r : Rule)
    (rest : List Rule) :
    s.offerAll (r :: rest) = (s.offer r).2.offerAll rest :=
  rfl

theorem offerAll_append
    (xs ys : List Rule) :
    s.offerAll (xs ++ ys) = (s.offerAll xs).offerAll ys :=
  List.foldl_append

/- What is new of two lists is new of each in turn. -/
theorem taken_append
    (xs ys : List Rule) :
    s.taken (xs ++ ys) =
      s.taken xs ++ (s.offerAll xs).taken ys := by
  induction xs generalizing s with
  | nil => rfl
  | cons r rest ih =>
      rw [List.cons_append, taken, taken, ih, offerAll_cons]
      split <;> rfl

/- The store is the one that holds the new rules on top. -/
theorem offerAll_eq_foldl_put
    (rules : List Rule) :
    s.offerAll rules = (s.taken rules).foldl put s := by
  induction rules generalizing s with
  | nil => rfl
  | cons r rest ih =>
      rw [offerAll_cons, ih, taken]
      rcases s.offer_cases r with ⟨hOffer, _⟩ | ⟨hOffer, _⟩
      · simp [hOffer]
      · simp [hOffer]

private theorem seen_foldl_put
    (rules : List Rule) :
    (rules.foldl put s).seen =
      rules.foldl (fun seen r => seen.insert r.fingerprint ())
        s.seen := by
  induction rules generalizing s with
  | nil => rfl
  | cons r rest ih => exact ih _

private theorem working_foldl_put
    (rules : List Rule) :
    (rules.foldl put s).working =
      rules.foldl
        (fun w r => gather w r.breakpoint r.selector r.declarations)
        s.working := by
  induction rules generalizing s with
  | nil => rfl
  | cons r rest ih => exact ih _

/- What a store has seen grows by the new rules. -/
theorem seen_offerAll
    (rules : List Rule) :
    (s.offerAll rules).seen =
      (s.taken rules).foldl
        (fun seen r => seen.insert r.fingerprint ()) s.seen := by
  rw [offerAll_eq_foldl_put, seen_foldl_put]

/- Exactly the new rules are gathered. -/
theorem working_offerAll
    (rules : List Rule) :
    (s.offerAll rules).working =
      (s.taken rules).foldl
        (fun w r => gather w r.breakpoint r.selector r.declarations)
        s.working := by
  rw [offerAll_eq_foldl_put, working_foldl_put]

theorem knows_offerAll_iff
    (rules : List Rule)
    (r : Rule) :
    (s.offerAll rules).Knows r ↔
      s.Knows r ∨
        ∃ r' ∈ s.taken rules, r'.fingerprint = r.fingerprint := by
  rw [Knows, seen_offerAll,
    OrderedSet.contains_foldl_insert Rule.fingerprint,
    Bool.or_eq_true, decide_eq_true_iff, List.mem_map]
  exact or_comm

/- A store knows every rule that it was offered. -/
theorem knows_offer
    {r : Rule}
    (hDeclares : r.Declares) :
    (s.offer r).2.Knows r := by
  rcases s.offer_cases r with ⟨hOffer, hKnown⟩ | ⟨hOffer, _⟩
  · rw [hOffer]
    exact hKnown hDeclares
  · rw [hOffer, Knows, put, OrderedMap.contains_insert]
    simp

/-
  A store that has seen more takes less, and otherwise the
  same rules. The induction keeps the difference of what the
  two stores have seen.
-/
theorem taken_eq_filter_of_seen
    {s t : RuleStore}
    {more : Fingerprint → Bool}
    (hSeen :
      ∀ f, t.seen.contains f = (s.seen.contains f || more f))
    (rules : List Rule) :
    t.taken rules =
      (s.taken rules).filter (fun r => !more r.fingerprint) := by
  induction rules generalizing s t with
  | nil => rfl
  | cons r rest ih =>
      have hKnows :
          t.Knows r ↔ s.Knows r ∨ more r.fingerprint = true := by
        rw [Knows, Knows, hSeen, Bool.or_eq_true]
      rw [taken, taken]
      rcases s.offer_cases r with
        ⟨hs, hsKnown⟩ | ⟨hs, hsDeclares, hsNew⟩
      · -- Both stores leave the rule.
        have ht : t.offer r = (false, t) := by
          rcases t.offer_cases r with ⟨ht, _⟩ | ⟨_, hDeclares, hNew⟩
          · exact ht
          · exact absurd
              (hKnows.2 (Or.inl (hsKnown hDeclares))) hNew
        rw [hs, ht]
        exact ih hSeen
      · have hPut :
            ∀ f, (s.put r).seen.contains f =
              (decide (f = r.fingerprint) || s.seen.contains f) :=
          fun f => OrderedMap.contains_insert _ _ _ _
        rcases t.offer_cases r with
          ⟨ht, htKnown⟩ | ⟨ht, _, htNew⟩
        · -- Only the store that has seen less takes it.
          have hMore : more r.fingerprint = true :=
            (hKnows.1 (htKnown hsDeclares)).resolve_left hsNew
          rw [hs, ht, if_pos rfl,
            List.filter_cons_of_neg (by simp [hMore])]
          apply ih
          intro f
          rw [hPut, hSeen]
          by_cases hf : f = r.fingerprint
          · rw [hf, hMore, Bool.or_true, Bool.or_true]
          · rw [decide_eq_false hf, Bool.false_or]
        · -- Both take it.
          have hMore : more r.fingerprint = false :=
            Bool.eq_false_iff.2
              (fun h => htNew (hKnows.2 (Or.inr h)))
          rw [hs, ht, if_pos rfl, if_pos rfl,
            List.filter_cons_of_pos (by simp [hMore])]
          refine congrArg _ (ih ?_)
          intro f
          rw [hPut, Bool.or_assoc, ← hSeen]
          exact OrderedMap.contains_insert _ _ _ _

/- A store keeps what it has seen. -/
theorem Knows.offerAll
    {s : RuleStore}
    {r : Rule}
    (hKnown : s.Knows r)
    (rules : List Rule) :
    (s.offerAll rules).Knows r :=
  (s.knows_offerAll_iff rules r).2 (Or.inl hKnown)

/- Of every rule that is offered a store has a copy. -/
theorem knows_offerAll_of_mem
    {rules : List Rule}
    {r : Rule}
    (hRule : r ∈ rules)
    (hDeclares : r.Declares) :
    (s.offerAll rules).Knows r := by
  rcases List.append_of_mem hRule with ⟨xs, ys, rfl⟩
  rw [offerAll_append, offerAll_cons]
  exact (knows_offer _ hDeclares).offerAll ys

/- Of rules that it knows a store takes none. -/
theorem taken_eq_nil_of_knows
    {rules : List Rule}
    (hKnown : ∀ r ∈ rules, s.Knows r) :
    s.taken rules = [] := by
  induction rules with
  | nil => rfl
  | cons r rest ih =>
      rcases List.forall_mem_cons.1 hKnown with ⟨hFirst, hRest⟩
      rcases s.offer_cases r with ⟨hOffer, _⟩ | ⟨_, _, hNew⟩
      · rw [taken, hOffer]
        exact ih hRest
      · exact absurd hFirst hNew

theorem offerAll_eq_self_of_knows
    {rules : List Rule}
    (hKnown : ∀ r ∈ rules, s.Knows r) :
    s.offerAll rules = s := by
  rw [offerAll_eq_foldl_put, s.taken_eq_nil_of_knows hKnown]
  rfl

/- Only offered rules are taken, in the order of the offers. -/
theorem taken_sublist
    (rules : List Rule) :
    (s.taken rules).Sublist rules := by
  induction rules generalizing s with
  | nil => exact List.Sublist.refl _
  | cons r rest ih =>
      rw [taken]
      split
      · exact (ih _).cons_cons r
      · exact (ih _).cons r

theorem declares_of_mem_taken
    {rules : List Rule}
    {r : Rule}
    (hTaken : r ∈ s.taken rules) :
    r.Declares := by
  induction rules generalizing s with
  | nil => exact absurd hTaken List.not_mem_nil
  | cons a rest ih =>
      rw [taken] at hTaken
      rcases s.offer_cases a with ⟨hOffer, _⟩ | ⟨hOffer, hNew, _⟩
      · rw [hOffer] at hTaken
        exact ih _ (by simpa using hTaken)
      · rw [hOffer, if_pos rfl] at hTaken
        rcases List.mem_cons.1 hTaken with rfl | hRest
        · exact hNew
        · exact ih _ hRest

/-
  The rules that are taken were not known, and no two of them
  are recognized as one.
-/
theorem fingerprints_taken
    (rules : List Rule) :
    (∀ r ∈ s.taken rules, ¬ s.Knows r) ∧
      ((s.taken rules).map Rule.fingerprint).Nodup := by
  induction rules generalizing s with
  | nil =>
      exact ⟨fun _ hr => absurd hr List.not_mem_nil, List.nodup_nil⟩
  | cons a rest ih =>
      rw [taken]
      rcases s.offer_cases a with ⟨hOffer, _⟩ | ⟨hOffer, _, hNew⟩
      · rw [hOffer]
        exact ih s
      · rw [hOffer, if_pos rfl]
        rcases ih (s.put a) with ⟨hUnknown, hNodup⟩
        -- What is taken later is known neither to be `a` nor before.
        have hLater :
            ∀ r ∈ (s.put a).taken rest,
              r.fingerprint ≠ a.fingerprint ∧ ¬ s.Knows r := by
          intro r hr
          have hPut := hUnknown r hr
          rw [Knows, put, OrderedMap.contains_insert,
            Bool.or_eq_true, decide_eq_true_iff, not_or] at hPut
          exact hPut
        constructor
        · exact List.forall_mem_cons.2
            ⟨hNew, fun r hr => (hLater r hr).2⟩
        · rw [List.map_cons, List.nodup_cons]
          refine ⟨?_, hNodup⟩
          intro hMem
          rcases List.mem_map.1 hMem with ⟨r, hr, hSame⟩
          exact (hLater r hr).1 hSame

/-
  So of the rules that are offered, each that is not known is
  taken, up to rules that are recognized as one.
-/
theorem mem_fingerprints_taken_iff
    {rules : List Rule}
    (hDeclares : ∀ r ∈ rules, r.Declares)
    (f : Fingerprint) :
    f ∈ (s.taken rules).map Rule.fingerprint ↔
      f ∈ rules.map Rule.fingerprint ∧ s.seen.contains f = false := by
  constructor
  · intro hTaken
    rcases List.mem_map.1 hTaken with ⟨r, hr, rfl⟩
    refine ⟨List.mem_map_of_mem ((s.taken_sublist rules).subset hr), ?_⟩
    exact Bool.eq_false_iff.2 ((s.fingerprints_taken rules).1 r hr)
  · rintro ⟨hOffered, hUnseen⟩
    rcases List.mem_map.1 hOffered with ⟨r, hr, rfl⟩
    have hKnown := s.knows_offerAll_of_mem hr (hDeclares r hr)
    rcases (s.knows_offerAll_iff rules r).1 hKnown with
      hBefore | ⟨r', hr', hSame⟩
    · exact absurd hBefore (Bool.eq_false_iff.1 hUnseen)
    · exact List.mem_map.2 ⟨r', hr', hSame⟩

/-
  In another order the same rules are new, up to rules that
  are recognized as one.
-/
theorem fingerprints_taken_perm
    {xs ys : List Rule}
    (hDeclares : ∀ r ∈ xs, r.Declares)
    (hPerm : xs.Perm ys) :
    ((s.taken xs).map Rule.fingerprint).Perm
      ((s.taken ys).map Rule.fingerprint) := by
  have hOther : ∀ r ∈ ys, r.Declares :=
    fun r hr => hDeclares r (hPerm.mem_iff.2 hr)
  refine (List.perm_ext_iff_of_nodup
    (s.fingerprints_taken xs).2 (s.fingerprints_taken ys).2).2 ?_
  intro f
  rw [s.mem_fingerprints_taken_iff hDeclares,
    s.mem_fingerprints_taken_iff hOther,
    (hPerm.map Rule.fingerprint).mem_iff]

end RuleStore

end AtomicCss
