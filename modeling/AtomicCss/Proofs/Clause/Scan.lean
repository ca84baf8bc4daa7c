import AtomicCss.Proofs.Clause
import Mathlib.Data.List.Induction

/-
  This file proves that clauses are cut as by one scan from
  left to right, at the last `=` outside parentheses, and that
  the cut loses nothing but that `=`.

  A place is outside parentheses if every text that ends there
  closes all the parentheses that it opens. The counter of a
  scan tells this although it forgets stray closing ones.

  Key definitions include:
    * `Clause.Outside`
    * `Clause.Balanced`
    * `Clause.Scan`
    * `Clause.scanned`

  The main statements are:
    * `Clause.depth_eq_zero_iff`
    * `Clause.depth_of_balanced`
    * `Clause.ofText_eq_scanned`
    * `Clause.cut_at_last_separator_outside_parentheses`
-/

namespace AtomicCss.Clause

------------------------------------------------------------
-- Places outside parentheses
------------------------------------------------------------

/- Whether behind a text no parenthesis is open. -/
def Outside
    (front : List Char) : Prop :=
  ∀ back, back <:+ front → back.count '(' ≤ back.count ')'

/- Parentheses of which each has its partner. -/
def Balanced
    (cs : List Char) : Prop :=
  Nested cs ∧ cs.count '(' = cs.count ')'

instance
    (cs : List Char) :
    Decidable (Balanced cs) :=
  inferInstanceAs (Decidable (_ ∧ _))

theorem depth_concat
    (start : Nat)
    (cs : List Char)
    (c : Char) :
    depth start (cs ++ [c]) = depthAfter (depth start cs) c :=
  depth_append start cs [c]

/- No end of a text has more open parentheses than the text. -/
theorem count_le_of_suffix
    {back cs : List Char}
    (hSuffix : back <:+ cs) :
    back.count '(' ≤ depth 0 cs + back.count ')' := by
  rcases hSuffix with ⟨front, rfl⟩
  have hBack := count_le_depth (depth 0 front) back
  rw [depth_append]
  omega

/-
  Some end of a text has just the open parentheses of the text.
  The induction is on the text from its end, where the depth
  changes.
-/
theorem exists_suffix_count_eq
    (cs : List Char) :
    ∃ back, back <:+ cs ∧
      back.count '(' = depth 0 cs + back.count ')' := by
  induction cs using List.reverseRecOn with
  | nil => exact ⟨[], List.suffix_rfl, rfl⟩
  | append_singleton cs c ih =>
      rcases ih with ⟨back, hSuffix, hCount⟩
      have hLonger : back ++ [c] <:+ cs ++ [c] := by
        rcases hSuffix with ⟨front, rfl⟩
        exact ⟨front, (List.append_assoc _ _ _).symm⟩
      have hOpened :
          (back ++ [c]).count '(' =
            back.count '(' + [c].count '(' :=
        List.count_append
      have hClosed :
          (back ++ [c]).count ')' =
            back.count ')' + [c].count ')' :=
        List.count_append
      rw [depth_concat]
      by_cases hOpen : c = '('
      · subst hOpen
        refine ⟨back ++ ['('], hLonger, ?_⟩
        rw [hOpened, hClosed, hCount]
        simp [depthAfter]
        omega
      · by_cases hClose : c = ')'
        · subst hClose
          cases hDepth : depth 0 cs with
          | zero => exact ⟨[], List.nil_suffix, rfl⟩
          | succ n =>
              refine ⟨back ++ [')'], hLonger, ?_⟩
              rw [hOpened, hClosed, hCount, hDepth]
              simp [depthAfter]
              omega
        · refine ⟨back ++ [c], hLonger, ?_⟩
          rw [hOpened, hClosed, hCount]
          simp [depthAfter, hOpen, hClose]

/- The depth is zero exactly behind texts that leave none open. -/
theorem depth_eq_zero_iff
    (front : List Char) :
    depth 0 front = 0 ↔ Outside front := by
  constructor
  · intro hDepth back hSuffix
    have hCount := count_le_of_suffix hSuffix
    omega
  · intro hOutside
    rcases exists_suffix_count_eq front with
      ⟨back, hSuffix, hCount⟩
    have hClosed := hOutside back hSuffix
    omega

/-
  As long as no more are closed than were open, the counter
  forgets nothing.
-/
theorem depth_add_count
    {start : Nat}
    {cs : List Char}
    (hOpen :
      ∀ front, front <+: cs →
        front.count ')' ≤ start + front.count '(') :
    depth start cs + cs.count ')' = start + cs.count '(' := by
  induction cs using List.reverseRecOn with
  | nil => rfl
  | append_singleton cs c ih =>
      have hInit :=
        ih (fun front hFront =>
          hOpen front (hFront.trans (List.prefix_append cs [c])))
      have hWhole := hOpen (cs ++ [c]) List.prefix_rfl
      rw [List.count_append, List.count_append] at hWhole
      rw [depth_concat, List.count_append, List.count_append]
      unfold depthAfter
      by_cases hOpens : c = '('
      · simp [hOpens]
        omega
      · by_cases hCloses : c = ')'
        · simp [hCloses] at hWhole ⊢
          omega
        · simp [hOpens, hCloses]
          omega

/- Balanced parentheses leave the depth as it was. -/
theorem depth_of_balanced
    {cs : List Char}
    (hBalanced : Balanced cs)
    (start : Nat) :
    depth start cs = start := by
  have hCount :
      depth start cs + cs.count ')' = start + cs.count '(' := by
    apply depth_add_count
    intro front hFront
    exact Nat.le_trans (hBalanced.1 front hFront)
      (Nat.le_add_left _ _)
  have hEqual := hBalanced.2
  omega

------------------------------------------------------------
-- Scanning
------------------------------------------------------------

/-
  A scan under way: how much was read, how many parentheses
  are open, and where the last `=` outside of them stood.
-/
structure Scan where
  position : Nat := 0
  depth : Nat := 0
  separator : Option Nat := none

/- The scan after one more character. -/
def Scan.next
    (s : Scan)
    (c : Char) : Scan where
  position := s.position + 1
  depth := depthAfter s.depth c
  separator :=
    if c = '=' ∧ s.depth = 0 then some s.position else s.separator

/- The clause that a scan finds, cut at its last separator. -/
def scanned
    (text : String) : Clause :=
  let cs := text.toList
  match (cs.foldl Scan.next {}).separator with
  | none => ⟨text, none⟩
  | some i =>
      let value := cs.drop (i + 1)
      { head := String.ofList (cs.take i)
        value :=
          if value.isEmpty then none else some (String.ofList value) }

/- One more character is a later separator or part of the value. -/
theorem cut_concat
    (start : Nat)
    (cs : List Char)
    (c : Char) :
    cut start (cs ++ [c]) =
      if c = '=' ∧ depth start cs = 0 then some (cs, [])
      else (cut start cs).map (fun p => (p.1, p.2 ++ [c])) := by
  induction cs generalizing start with
  | nil => rfl
  | cons d rest ih =>
      rw [List.cons_append, cut, ih, depth_cons, cut]
      by_cases hLast : c = '=' ∧ depth (depthAfter start d) rest = 0
      · rw [if_pos hLast, if_pos hLast]
      · rw [if_neg hLast, if_neg hLast]
        cases cut (depthAfter start d) rest with
        | some parts => rfl
        | none =>
            by_cases hFirst : d = '=' ∧ start = 0
            · simp [hFirst]
            · simp [hFirst]

/- What a scan knows of the text that it has read. -/
theorem foldl_next
    (cs : List Char) :
    cs.foldl Scan.next {} =
      { position := cs.length
        depth := depth 0 cs
        separator := (cut 0 cs).map (fun p => p.1.length) } := by
  induction cs using List.reverseRecOn with
  | nil => rfl
  | append_singleton cs c ih =>
      rw [List.foldl_append, ih, cut_concat, depth_concat,
        List.length_append]
      by_cases hHere : c = '=' ∧ depth 0 cs = 0
      · simp [Scan.next, hHere]
      · simp [Scan.next, hHere, Function.comp_def]

/- A scan cuts a text where the text is cut. -/
theorem ofText_eq_scanned
    (text : String) :
    ofText text = scanned text := by
  unfold ofText scanned
  dsimp only
  rw [foldl_next]
  cases hCut : cut 0 text.toList with
  | none => rfl
  | some parts =>
      rcases parts with ⟨head, value⟩
      have hText := (cut_eq_some_iff.1 hCut).1
      have hHead : text.toList.take head.length = head := by
        rw [hText]
        exact List.take_left
      have hValue : text.toList.drop (head.length + 1) = value := by
        rw [hText, ← List.drop_drop, List.drop_left]
        rfl
      dsimp only [Option.map_some]
      rw [hHead, hValue]

------------------------------------------------------------
-- Clauses
------------------------------------------------------------

/- A clause has a value if there is one behind the cut. -/
theorem ofText_eq_some_iff
    {text head value : String} :
    ofText text = ⟨head, some value⟩ ↔
      value ≠ "" ∧
      cut 0 text.toList = some (head.toList, value.toList) := by
  constructor
  · intro hClause
    unfold ofText at hClause
    cases hCut : cut 0 text.toList with
    | none => simp [hCut] at hClause
    | some parts =>
        rcases parts with ⟨front, back⟩
        cases back with
        | nil => simp [hCut] at hClause
        | cons c back =>
            simp only [hCut, List.isEmpty_cons, Clause.mk.injEq]
              at hClause
            rcases hClause with ⟨rfl, hValue⟩
            cases hValue
            rw [String.toList_ofList, String.toList_ofList]
            exact ⟨by simp, rfl⟩
  · rintro ⟨hNe, hCut⟩
    rw [ofText, hCut]
    simp [hNe]

/- It has none if there is no cut, or nothing behind it. -/
theorem ofText_eq_none_iff
    {text head : String} :
    ofText text = ⟨head, none⟩ ↔
      head = text ∧ cut 0 text.toList = none ∨
        cut 0 text.toList = some (head.toList, []) := by
  constructor
  · intro hClause
    unfold ofText at hClause
    cases hCut : cut 0 text.toList with
    | none =>
        simp only [hCut, Clause.mk.injEq] at hClause
        exact Or.inl ⟨hClause.1.symm, rfl⟩
    | some parts =>
        rcases parts with ⟨front, back⟩
        cases back with
        | nil =>
            simp only [hCut, Clause.mk.injEq] at hClause
            rw [← hClause.1, String.toList_ofList]
            exact Or.inr rfl
        | cons c back => simp [hCut] at hClause
  · rintro (⟨rfl, hCut⟩ | hCut)
    · rw [ofText, hCut]
    · rw [ofText, hCut]
      simp

theorem toList_separated
    (head value : String) :
    (head ++ "=" ++ value).toList =
      head.toList ++ '=' :: value.toList := by
  rw [String.toList_append, String.toList_append,
    List.append_assoc]
  rfl

/- Behind a separator outside parentheses the depth starts anew. -/
theorem depth_append_separator
    {head : List Char}
    (hHead : depth 0 head = 0)
    (front : List Char) :
    depth 0 (head ++ '=' :: front) = depth 0 front := by
  rw [depth_append, hHead]
  rfl

/- A payload in parentheses is the value behind such a head. -/
theorem ofText_payload
    {head payload : String}
    (hHead : depth 0 head.toList = 0)
    (hPayload : Nested payload.toList) :
    ofText (head ++ "=(" ++ payload ++ ")") =
      ⟨head, some ("(" ++ payload ++ ")")⟩ := by
  have hValue :
      ("(" ++ payload ++ ")").toList =
        '(' :: (payload.toList ++ [')']) := by
    rw [String.toList_append, String.toList_append]
    rfl
  have hText :
      head ++ "=(" ++ payload ++ ")" =
        head ++ "=" ++ ("(" ++ payload ++ ")") := by
    apply String.toList_inj.1
    simp
  rw [hText, ofText_eq_some_iff, toList_separated]
  refine ⟨?_, cut_eq_some_iff.2 ⟨rfl, hHead, ?_⟩⟩
  · intro hEmpty
    rw [hEmpty] at hValue
    cases hValue
  · rw [hValue]
    exact cut_parenthesized hPayload

/-
  A text is cut as one scan from the left cuts it, whose depth
  is zero just outside parentheses. It has a value if the last
  `=` outside parentheses has text behind it, and then head,
  `=` and value are the whole text. It has none if there is no
  such `=`, and the head is the whole text, or if the last one
  ends the text. So a payload in parentheses that closes no
  more than it opens is a value as a whole.
-/
theorem cut_at_last_separator_outside_parentheses :
    (∀ text, ofText text = scanned text) ∧
    (∀ front, depth 0 front = 0 ↔ Outside front) ∧
    (∀ text head value,
      ofText text = ⟨head, some value⟩ ↔
        text = head ++ "=" ++ value ∧
        value ≠ "" ∧
        depth 0 head.toList = 0 ∧
        ∀ front back, value.toList = front ++ '=' :: back →
          depth 0 (head.toList ++ '=' :: front) ≠ 0) ∧
    (∀ text head,
      ofText text = ⟨head, none⟩ ↔
        (head = text ∧
          ∀ front back, text.toList = front ++ '=' :: back →
            depth 0 front ≠ 0) ∨
        (text = head ++ "=" ∧ depth 0 head.toList = 0)) ∧
    ∀ head payload : String,
      Balanced head.toList → Nested payload.toList →
        ofText (head ++ "=(" ++ payload ++ ")") =
          ⟨head, some ("(" ++ payload ++ ")")⟩ := by
  refine ⟨ofText_eq_scanned, depth_eq_zero_iff, ?_, ?_, ?_⟩
  · intro text head value
    rw [ofText_eq_some_iff, cut_eq_some_iff, ← toList_separated,
      String.toList_inj, cut_eq_none_iff]
    constructor
    · rintro ⟨hNe, hText, hHead, hLast⟩
      refine ⟨hText, hNe, hHead, ?_⟩
      intro front back hValue
      rw [depth_append_separator hHead]
      exact hLast front back hValue
    · rintro ⟨hText, hNe, hHead, hLast⟩
      refine ⟨hNe, hText, hHead, ?_⟩
      intro front back hValue
      rw [← depth_append_separator hHead]
      exact hLast front back hValue
  · intro text head
    have hEnds :
        text.toList = head.toList ++ '=' :: [] ↔
          text = head ++ "=" := by
      rw [← String.toList_inj, String.toList_append]
      rfl
    rw [ofText_eq_none_iff, cut_eq_none_iff, cut_eq_some_iff, hEnds]
    simp only [cut, and_true]
  · intro head payload hHead hPayload
    exact ofText_payload (depth_of_balanced hHead 0) hPayload

/- A payload with separators inside and outside a pair of its own. -/
theorem cut_at_last_separator_outside_parentheses_of_content :
    let head := "nth(1):content"
    let payload := "a=(b=c)=d"
    Balanced head.toList ∧
    Nested payload.toList ∧
    ofText "nth(1):content=(a=(b=c)=d)" =
      ⟨head, some "(a=(b=c)=d)"⟩ := by
  intro head payload
  have hHead : Balanced head.toList := by decide
  have hPayload : Nested payload.toList := by decide
  exact ⟨hHead, hPayload,
    cut_at_last_separator_outside_parentheses.2.2.2.2
      head payload hHead hPayload⟩

end AtomicCss.Clause
