import AtomicCss.Clause
import Mathlib.Data.List.Infix

/-
  This file proves where clauses are cut: at the `=` outside
  parentheses behind which no other one stands. So neither a
  value without `=` nor one in parentheses is cut itself.

  Key definitions include:
    * `Clause.depth`
    * `Clause.Nested`
    * `Clause.Enclosed`

  The main statements are:
    * `Clause.cut_eq_some_iff`
    * `Clause.cut_eq_none_iff`
    * `Clause.cut_parenthesized`
    * `Clause.cut_separator`
    * `Clause.ofText_of_not_mem`
    * `Clause.ofText_separator`
-/

namespace AtomicCss.Clause

------------------------------------------------------------
-- Depth
------------------------------------------------------------

/- How many parentheses are open behind a text. -/
def depth
    (start : Nat)
    (cs : List Char) : Nat :=
  cs.foldl depthAfter start

theorem depth_cons
    (start : Nat)
    (c : Char)
    (cs : List Char) :
    depth start (c :: cs) = depth (depthAfter start c) cs :=
  rfl

theorem depth_append
    (start : Nat)
    (xs ys : List Char) :
    depth start (xs ++ ys) = depth (depth start xs) ys :=
  List.foldl_append

/- One character closes at most one parenthesis, if it is one. -/
theorem count_le_depthAfter
    (start : Nat)
    (c : Char) :
    start + [c].count '(' ≤ depthAfter start c + [c].count ')' := by
  unfold depthAfter
  by_cases hOpen : c = '('
  · simp [hOpen]
  · by_cases hClose : c = ')'
    · simp [hClose]
      omega
    · simp [hOpen, hClose]

/- A stray closing parenthesis only makes the depth larger. -/
theorem count_le_depth
    (start : Nat)
    (cs : List Char) :
    start + cs.count '(' ≤ depth start cs + cs.count ')' := by
  induction cs generalizing start with
  | nil => simp [depth]
  | cons c rest ih =>
      have hFirst := count_le_depthAfter start c
      have hRest := ih (depthAfter start c)
      rw [depth_cons, ← List.singleton_append, List.count_append,
        List.count_append]
      omega

/- Parentheses that never close more than they opened. -/
def Nested
    (cs : List Char) : Prop :=
  ∀ front, front <+: cs → front.count ')' ≤ front.count '('

instance
    (cs : List Char) :
    Decidable (Nested cs) :=
  decidable_of_iff
    (∀ front ∈ cs.inits, front.count ')' ≤ front.count '(')
    (by simp only [List.mem_inits, Nested])

/- A text without parentheses keeps the depth. -/
theorem depth_eq_self
    {cs : List Char}
    (hPlain : ∀ c ∈ cs, c ≠ '(' ∧ c ≠ ')')
    (start : Nat) :
    depth start cs = start := by
  induction cs with
  | nil => rfl
  | cons c rest ih =>
      rcases hPlain c List.mem_cons_self with ⟨hOpen, hClose⟩
      rw [depth_cons, depthAfter, if_neg hOpen, if_neg hClose]
      exact ih (fun d hd => hPlain d (List.mem_cons_of_mem c hd))

------------------------------------------------------------
-- Cutting
------------------------------------------------------------

/- A text is cut at its first character if not behind it. -/
theorem cut_cons_eq_some_nil_iff
    {start : Nat}
    {c : Char}
    {rest value : List Char} :
    cut start (c :: rest) = some ([], value) ↔
      c = '=' ∧ start = 0 ∧ rest = value ∧ cut 0 value = none := by
  constructor
  · intro hCut
    rw [cut] at hCut
    split at hCut
    · cases hCut
    · rename_i hRest
      split at hCut
      · rename_i hHere
        cases hCut
        rcases hHere with ⟨rfl, rfl⟩
        exact ⟨rfl, rfl, rfl, hRest⟩
      · cases hCut
  · rintro ⟨rfl, rfl, rfl, hRest⟩
    have hDepth : depthAfter 0 '=' = 0 := rfl
    rw [cut, hDepth, hRest]
    rfl

/- A cut behind the first character is one of the rest. -/
theorem cut_cons_eq_some_cons_iff
    {start : Nat}
    {c d : Char}
    {rest head value : List Char} :
    cut start (c :: rest) = some (d :: head, value) ↔
      c = d ∧ cut (depthAfter start c) rest = some (head, value) := by
  rw [cut]
  cases cut (depthAfter start c) rest with
  | some parts => simp [Prod.ext_iff, and_assoc]
  | none =>
      have hFront :
          ∀ p : Prop, [Decidable p] →
            (if p then some ([], rest) else none) ≠
              some (d :: head, value) := by
        intro p _
        split <;> simp
      refine iff_of_false (hFront _) ?_
      rintro ⟨_, hNone⟩
      cases hNone

/- A text is cut at the last `=` at depth zero. -/
theorem cut_eq_some_iff
    {start : Nat}
    {cs head value : List Char} :
    cut start cs = some (head, value) ↔
      cs = head ++ '=' :: value ∧
      depth start head = 0 ∧
      cut 0 value = none := by
  induction cs generalizing start head with
  | nil => simp [cut]
  | cons c rest ih =>
      cases head with
      | nil =>
          rw [cut_cons_eq_some_nil_iff, List.nil_append,
            List.cons.injEq, and_assoc]
          exact and_congr_right (fun _ => and_left_comm)
      | cons d head =>
          rw [cut_cons_eq_some_cons_iff, ih, List.cons_append,
            List.cons.injEq, and_assoc, depth_cons]
          exact and_congr_right (fun hHead => by rw [hHead])

theorem cut_eq_none_iff
    {start : Nat}
    {cs : List Char} :
    cut start cs = none ↔
      ∀ head value,
        cs = head ++ '=' :: value → depth start head ≠ 0 := by
  constructor
  · intro hNone head value hSplit hDepth
    cases hValue : cut 0 value with
    | none =>
        have hSome := cut_eq_some_iff.2 ⟨hSplit, hDepth, hValue⟩
        rw [hNone] at hSome
        cases hSome
    | some parts =>
        rcases parts with ⟨front, back⟩
        rcases cut_eq_some_iff.1 hValue with ⟨rfl, hFront, hBack⟩
        have hSome :
            cut start cs = some (head ++ '=' :: front, back) := by
          refine cut_eq_some_iff.2 ⟨?_, ?_, hBack⟩
          · rw [hSplit, List.append_assoc]
            rfl
          · rw [depth_append, hDepth]
            exact hFront
        rw [hNone] at hSome
        cases hSome
  · intro hDeep
    cases hCut : cut start cs with
    | none => rfl
    | some parts =>
        rcases cut_eq_some_iff.1 hCut with ⟨hSplit, hDepth, _⟩
        exact absurd hDepth (hDeep _ _ hSplit)

------------------------------------------------------------
-- Values
------------------------------------------------------------

theorem cut_of_not_mem
    {start : Nat}
    {cs : List Char}
    (hPlain : '=' ∉ cs) :
    cut start cs = none := by
  apply cut_eq_none_iff.2
  rintro head value rfl
  exact absurd (List.mem_append_right _ List.mem_cons_self) hPlain

/- Within one pair of parentheses nothing is cut. -/
theorem cut_parenthesized
    {cs : List Char}
    (hNested : Nested cs) :
    cut 0 ('(' :: (cs ++ [')'])) = none := by
  apply cut_eq_none_iff.2
  intro head value hSplit hDepth
  cases head with
  | nil => cases hSplit
  | cons c head =>
      rw [List.cons_append, List.cons.injEq] at hSplit
      rcases hSplit with ⟨rfl, hRest⟩
      have hFront : head <+: cs := by
        have hPrefix : head <+: cs ++ [')'] :=
          ⟨'=' :: value, hRest.symm⟩
        rcases List.prefix_concat_iff.1 hPrefix with hWhole | hFront
        · have hLength := congrArg List.length hRest
          rw [← hWhole, List.length_append, List.length_cons]
            at hLength
          omega
        · exact hFront
      have hBalance := hNested head hFront
      have hCount := count_le_depth 1 head
      have hInner : depth 1 head = 0 := hDepth
      omega

/- A clause with such a value is cut in front of it. -/
theorem cut_separator
    {head value : List Char}
    (hHead : ∀ c ∈ head, c ≠ '(' ∧ c ≠ ')')
    (hValue : cut 0 value = none) :
    cut 0 (head ++ '=' :: value) = some (head, value) :=
  cut_eq_some_iff.2 ⟨rfl, depth_eq_self hHead 0, hValue⟩

/- Whether every `=` of a text stands within parentheses. -/
def Enclosed
    (cs : List Char) : Prop :=
  ∀ front back, cs = front ++ '=' :: back → depth 0 front ≠ 0

theorem cut_eq_none_iff_enclosed
    (cs : List Char) :
    cut 0 cs = none ↔ Enclosed cs :=
  cut_eq_none_iff

instance
    (cs : List Char) :
    Decidable (Enclosed cs) :=
  decidable_of_iff _ (cut_eq_none_iff_enclosed cs)

theorem enclosed_of_not_mem
    {cs : List Char}
    (hPlain : '=' ∉ cs) :
    Enclosed cs :=
  (cut_eq_none_iff_enclosed cs).1 (cut_of_not_mem hPlain)

theorem enclosed_parenthesized
    {cs : List Char}
    (hNested : Nested cs) :
    Enclosed ('(' :: (cs ++ [')'])) :=
  (cut_eq_none_iff_enclosed _).1 (cut_parenthesized hNested)

------------------------------------------------------------
-- Clauses
------------------------------------------------------------

theorem ofText_of_not_mem
    {text : String}
    (hPlain : '=' ∉ text.toList) :
    ofText text = ⟨text, none⟩ := by
  rw [ofText, cut_of_not_mem hPlain]

/- The value of a written clause is the one that was written. -/
theorem ofText_separator
    {head value : String}
    (hHead : ∀ c ∈ head.toList, c ≠ '(' ∧ c ≠ ')')
    (hNe : value ≠ "")
    (hValue : Enclosed value.toList) :
    ofText (head ++ ("=" ++ value)) = ⟨head, some value⟩ := by
  have hText :
      (head ++ ("=" ++ value)).toList =
        head.toList ++ '=' :: value.toList := by
    rw [String.toList_append, String.toList_append]
    rfl
  have hCut :=
    cut_separator hHead ((cut_eq_none_iff_enclosed _).2 hValue)
  rw [ofText, hText, hCut]
  simp [hNe]

end AtomicCss.Clause
