import AtomicCss.Proofs.Token.Identifier

/-
  This file proves when the quoted identifier in a selector
  is a string that denotes the identifier.

  Quotes are marked, but backslashes are not. So a backslash
  of the identifier marks what follows it: it is lost itself,
  and in front of a quote or at the end the string does not
  end where it should.

  Key definitions include:
    * `Selector.endsString`
    * `Selector.readQuoted`
    * `Selector.inside`
    * `Selector.marksAfter`
    * `Selector.NoneMarked`

  The main statements are:
    * `Selector.readQuoted_inside_cons`
    * `Selector.isSome_readQuoted_iff`
    * `Selector.readQuoted_eq_some_self_iff`
    * `Selector.quoted_identifier_is_read_back_without_backslashes`
-/

namespace AtomicCss.Selector

------------------------------------------------------------
-- Reading strings
------------------------------------------------------------

/- The characters at which a string ends: its quote and line ends. -/
def endsString
    (c : Char) : Bool :=
  c = '"' || c = '\n' || c = '\r' || c = '\x0c'

/-
  What the inside of a quoted string denotes. A backslash
  marks the character behind it, which then stands for
  itself; `marked` tells whether one stands in front.
-/
def readQuoted : Bool → List Char → Option (List Char)
  | marked, [] => if marked then none else some []
  | true, c :: rest => (readQuoted false rest).map (c :: ·)
  | false, c :: rest =>
      if c = '\\' then
        readQuoted true rest
      else if endsString c then
        none
      else
        (readQuoted false rest).map (c :: ·)

/- The inside of the string that `quote` writes. -/
def inside
    (cs : List Char) : List Char :=
  Text.fillSlots '"' ['\\', '"'] cs

theorem quote_eq
    (text : String) :
    quote text =
      "\"" ++ String.ofList (inside text.toList) ++ "\"" :=
  rfl

/-
  What is read of a text that was quoted. A quote behind a
  backslash ends the string, as its mark is read as the
  character that the backslash marks.
-/
theorem readQuoted_inside_cons
    {c : Char}
    (hLine : c ≠ '"' → endsString c = false)
    (marked : Bool)
    (rest : List Char) :
    readQuoted marked (inside (c :: rest)) =
      if marked = true ∧ c = '"' then
        none
      else if marked = false ∧ c = '\\' then
        readQuoted true (inside rest)
      else
        (readQuoted false (inside rest)).map (c :: ·) := by
  by_cases hQuote : c = '"'
  · subst hQuote
    cases marked <;> rfl
  · have hInside : inside (c :: rest) = c :: inside rest := by
      simp [inside, Text.fillSlots, hQuote]
    rw [hInside]
    cases marked with
    | true => simp [readQuoted, hQuote]
    | false => simp [readQuoted, hLine hQuote]

------------------------------------------------------------
-- Strings that end where they should
------------------------------------------------------------

/-
  Whether a backslash marks what follows a text: one that is
  not marked itself stands at its end.
-/
def marksAfter
    (marked : Bool)
    (cs : List Char) : Bool :=
  cs.foldl (fun marked c => !marked && c = '\\') marked

/- No quote and not the end of a text is marked by a backslash. -/
def NoneMarked
    (marked : Bool)
    (cs : List Char) : Prop :=
  marksAfter marked cs = false ∧
  ∀ front back,
    cs = front ++ '"' :: back → marksAfter marked front = false

theorem noneMarked_nil_iff
    (marked : Bool) :
    NoneMarked marked [] ↔ marked = false := by
  refine ⟨fun h => h.1, fun h => ⟨h, ?_⟩⟩
  intro front back hCut
  simp at hCut

theorem noneMarked_cons_iff
    (marked : Bool)
    (c : Char)
    (rest : List Char) :
    NoneMarked marked (c :: rest) ↔
      (c = '"' → marked = false) ∧
      NoneMarked (!marked && c = '\\') rest := by
  constructor
  · rintro ⟨hEnd, hQuotes⟩
    refine ⟨?_, hEnd, ?_⟩
    · rintro rfl
      exact hQuotes [] rest rfl
    · rintro front back rfl
      exact hQuotes (c :: front) back rfl
  · rintro ⟨hFirst, hEnd, hQuotes⟩
    refine ⟨hEnd, ?_⟩
    intro front back hCut
    cases front with
    | nil =>
        cases hCut
        exact hFirst rfl
    | cons d front =>
        rw [List.cons_append, List.cons.injEq] at hCut
        rcases hCut with ⟨rfl, hRest⟩
        exact hQuotes front back hRest

/-
  What is written is a string exactly if no quote and not the
  end is marked by a backslash of the text.
-/
theorem isSome_readQuoted_iff
    {cs : List Char}
    (hLine : ∀ c ∈ cs, c ≠ '"' → endsString c = false)
    (marked : Bool) :
    (readQuoted marked (inside cs)).isSome = true ↔
      NoneMarked marked cs := by
  induction cs generalizing marked with
  | nil =>
      rw [noneMarked_nil_iff]
      cases marked <;> decide
  | cons c rest ih =>
      rcases List.forall_mem_cons.1 hLine with ⟨hFirst, hRest⟩
      rw [readQuoted_inside_cons hFirst, noneMarked_cons_iff]
      split
      · rename_i hEarly
        simp [hEarly]
      · rename_i hNotEarly
        have hOpen : c = '"' → marked = false := by
          intro hQuote
          by_contra hMarked
          exact hNotEarly ⟨eq_true_of_ne_false hMarked, hQuote⟩
        rw [and_iff_right hOpen]
        split
        · rename_i hMarks
          rw [ih hRest]
          simp [hMarks]
        · rename_i hPlain
          have hUnmarked :
              (!marked && decide (c = '\\')) = false := by
            simpa using hPlain
          rw [Option.isSome_map, ih hRest, hUnmarked]

------------------------------------------------------------
-- Strings that denote the text
------------------------------------------------------------

/- What is read has no more characters than the text. -/
theorem length_le_of_readQuoted
    {cs found : List Char}
    {marked : Bool}
    (hLine : ∀ c ∈ cs, c ≠ '"' → endsString c = false)
    (hRead : readQuoted marked (inside cs) = some found) :
    found.length ≤ cs.length := by
  induction cs generalizing marked found with
  | nil =>
      cases marked with
      | true => cases hRead
      | false =>
          cases hRead
          exact Nat.le_refl 0
  | cons c rest ih =>
      rcases List.forall_mem_cons.1 hLine with ⟨hFirst, hRest⟩
      rw [readQuoted_inside_cons hFirst] at hRead
      split at hRead
      · cases hRead
      · split at hRead
        · exact Nat.le_succ_of_le (ih hRest hRead)
        · rcases Option.map_eq_some_iff.1 hRead with
            ⟨back, hBack, rfl⟩
          exact Nat.succ_le_succ (ih hRest hBack)

/-
  A text is read back exactly if it has no backslash: the
  first one would have to be read from fewer characters.
-/
theorem readQuoted_eq_some_self_iff
    {cs : List Char}
    (hLine : ∀ c ∈ cs, c ≠ '"' → endsString c = false) :
    readQuoted false (inside cs) = some cs ↔ '\\' ∉ cs := by
  induction cs with
  | nil => exact iff_of_true rfl List.not_mem_nil
  | cons c rest ih =>
      rcases List.forall_mem_cons.1 hLine with ⟨hFirst, hRest⟩
      rw [readQuoted_inside_cons hFirst, if_neg (by simp)]
      by_cases hBackslash : c = '\\'
      · subst hBackslash
        refine iff_of_false ?_ (not_not.2 List.mem_cons_self)
        intro hRead
        rw [if_pos ⟨rfl, rfl⟩] at hRead
        have hLength := length_le_of_readQuoted hRest hRead
        rw [List.length_cons] at hLength
        omega
      · rw [if_neg (by simp [hBackslash]), List.mem_cons, not_or,
          and_iff_right (Ne.symm hBackslash), ← ih hRest]
        simp

------------------------------------------------------------
-- Identifiers
------------------------------------------------------------

section Identifier

variable {cascade : Cascade} {catalog : Catalog}
variable {text : String} {t : Token}

/- The characters that end strings are the quote and blanks. -/
theorem endsString_eq_false
    {c : Char}
    (hBlank : Text.isBlank c = false)
    (hQuote : c ≠ '"') :
    endsString c = false := by
  rw [← Bool.not_eq_true, endsString]
  simp only [Bool.or_eq_true, decide_eq_true_eq]
  rintro (((rfl | rfl) | rfl) | rfl)
  · exact hQuote rfl
  · exact absurd hBlank (by decide)
  · exact absurd hBlank (by decide)
  · exact absurd hBlank (by decide)

/-
  The selector of a token without a payload holds its
  identifier between quotes. What stands there is the inside
  of a string exactly if no quote of the identifier, and not
  its end, is marked by one of its backslashes, and it
  denotes the identifier exactly if that has no backslash.
-/
theorem quoted_identifier_is_read_back_without_backslashes
    (hSolid : Text.Solid text)
    (hRead : Token.read? cascade catalog false text = some t)
    (hPlain : t.isParametric = false)
    {u : Utility}
    (hOwn : u.selector = none) :
    ∃ cs,
      subjects t u =
        ["[class*=\"" ++ String.ofList cs ++ "\"]"] ∧
      ((readQuoted false cs).isSome = true ↔
        NoneMarked false t.identifier.toList) ∧
      (readQuoted false cs = some t.identifier.toList ↔
        '\\' ∉ t.identifier.toList) := by
  have hLine :
      ∀ c ∈ t.identifier.toList, c ≠ '"' → endsString c = false :=
    fun c hc hQuote =>
      endsString_eq_false
        (Token.solid_identifier hSolid hRead c hc) hQuote
  refine ⟨inside t.identifier.toList, ?_,
    isSome_readQuoted_iff hLine false,
    readQuoted_eq_some_self_iff hLine⟩
  have hOpen : "[class*=" ++ "\"" = "[class*=\"" := by
    decide
  have hClose : "\"" ++ "]" = "\"]" := by
    decide
  simp only [subjects, hOwn, ofClass, hPlain, quote_eq]
  rw [← hOpen, ← hClose]
  simp only [String.append_assoc]
  rfl

theorem quoted_identifier_is_read_back_without_backslashes_of_quotes :
    let cascade : Cascade :=
      ⟨[("sm", 576), ("md", 768)], by decide, by decide⟩
    let catalog : Catalog :=
      { utilities := .ofList [("content", {})] }
    let text := "md-up:content=\"a\""
    ∃ t cs,
      Token.read? cascade catalog false text = some t ∧
      subjects t {} =
        ["[class*=\"" ++ String.ofList cs ++ "\"]"] ∧
      readQuoted false cs = some text.toList := by
  intro cascade catalog text
  let t : Token :=
    ⟨text, "md-up", [], "content", some "\"a\"", false, false, true⟩
  have hRead : Token.read? cascade catalog false text = some t := by
    decide
  have hText : t.identifier = text := by
    decide
  rcases quoted_identifier_is_read_back_without_backslashes
      (by decide) hRead (by decide) (u := {}) rfl with
    ⟨cs, hSubjects, _, hDenotes⟩
  rw [hText] at hDenotes
  exact ⟨t, cs, hRead, hSubjects, hDenotes.2 (by decide)⟩

/- A backslash at the end marks the quote behind the identifier. -/
theorem quoted_backslash_leaves_string_open :
    let cascade : Cascade :=
      ⟨[("sm", 576), ("md", 768)], by decide, by decide⟩
    let catalog : Catalog :=
      { utilities := .ofList [("box", {})] }
    let text := "box=a\\"
    ∃ t u,
      Text.Solid text ∧
      Token.read? cascade catalog false text = some t ∧
      t.isParametric = false ∧
      catalog.utility? t.key = some u ∧
      u.selector = none ∧
      t.identifier = text ∧
      subjects t u =
        ["[class*=\"" ++ String.ofList text.toList ++ "\"]"] ∧
      readQuoted false text.toList = none := by
  intro cascade catalog text
  let t : Token :=
    ⟨text, "sm-up", [], "box", some "a\\", false, false, false⟩
  refine ⟨t, {}, by decide, by decide, by decide, by decide, rfl,
    by decide, by decide, by decide⟩

end Identifier

end AtomicCss.Selector
