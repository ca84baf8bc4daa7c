import AtomicCss.Proofs.Selector.ClassName
import AtomicCss.Proofs.Token.Identifier

/-
  This file proves which class names are identifiers.

  An identifier is made of characters and escapes, and it
  must not begin like a number: no digit comes first, also
  not behind a hyphen. Escaping writes a first digit by its
  code, but it leaves one behind a hyphen as it is.

  Key definitions include:
    * `Selector.startsIdentifier`
    * `Selector.continuesIdentifier`
    * `Selector.Piece.Fits`
    * `Selector.Piece.starts`
    * `Selector.Opens`
    * `Selector.IsIdentifier`
    * `Selector.beginsNegative`

  The main statements are:
    * `Selector.exists_plain_of_texts_eq`
    * `Selector.isIdentifier_escape_iff`
    * `Selector.class_names_are_identifiers_unless_negative`
-/

namespace AtomicCss.Selector

------------------------------------------------------------
-- Identifiers
------------------------------------------------------------

/- Letters, the underscore and all that is not ASCII. -/
def startsIdentifier
    (c : Char) : Bool :=
  c.isAlpha || c = '_' || 128 ≤ c.toNat

/- Behind the first place there may be digits and hyphens too. -/
def continuesIdentifier
    (c : Char) : Bool :=
  startsIdentifier c || c.isDigit || c = '-'

/- The characters that end a line. A backslash marks none of them. -/
def endsLine
    (c : Char) : Bool :=
  c = '\n' || c = '\r' || c = '\x0c'

namespace Piece

/- Whether a piece is a character or an escape of identifiers. -/
def Fits : Piece → Prop
  | plain c => continuesIdentifier c = true
  | marked c => isHexDigit c = false ∧ endsLine c = false
  | coded digits _ =>
      1 ≤ digits.length ∧ digits.length ≤ 6 ∧
      ∀ c ∈ digits, isHexDigit c = true

/- Whether an identifier may begin with a piece. -/
def starts : Piece → Bool
  | plain c => startsIdentifier c
  | marked _ => true
  | coded _ _ => true

end Piece

/-
  Whether pieces begin like an identifier: with two hyphens,
  or with a piece that starts one, perhaps behind a hyphen.
-/
def Opens
    (ps : List Piece) : Prop :=
  (∃ rest, ps = .plain '-' :: .plain '-' :: rest) ∨
  ∃ p rest,
    p.starts = true ∧
      (ps = p :: rest ∨ ps = .plain '-' :: p :: rest)

/- Whether a text as a whole is an identifier. -/
def IsIdentifier
    (cs : List Char) : Prop :=
  ∃ ps, texts ps = cs ∧ (∀ p ∈ ps, p.Fits) ∧ Opens ps

/- Whether a text begins with a hyphen and a digit. -/
def beginsNegative : List Char → Bool
  | '-' :: c :: _ => c.isDigit
  | _ => false

------------------------------------------------------------
-- Texts that are no identifiers
------------------------------------------------------------

/- A character that is no backslash is a piece of its own. -/
theorem exists_plain_of_texts_eq
    {ps : List Piece}
    {c : Char}
    {rest : List Char}
    (hTexts : texts ps = c :: rest)
    (hPlain : c ≠ '\\') :
    ∃ qs, ps = .plain c :: qs ∧ texts qs = rest := by
  cases ps with
  | nil => cases hTexts
  | cons p qs =>
      rw [texts_cons] at hTexts
      cases p with
      | plain d =>
          rcases List.cons.inj hTexts with ⟨rfl, hRest⟩
          exact ⟨qs, rfl, hRest⟩
      | marked d => exact absurd (List.cons.inj hTexts).1.symm hPlain
      | coded digits spaced =>
          exact absurd (List.cons.inj hTexts).1.symm hPlain

/- A hyphen needs another one behind it, or a piece that starts. -/
theorem opens_hyphen_cons_iff
    (ps : List Piece) :
    Opens (.plain '-' :: ps) ↔
      ∃ p rest, ps = p :: rest ∧ (p = .plain '-' ∨ p.starts = true) := by
  constructor
  · rintro (⟨rest, hTwo⟩ | ⟨p, rest, hStarts, hFirst | hSecond⟩)
    · exact ⟨_, rest, (List.cons.inj hTwo).2, Or.inl rfl⟩
    · rw [← (List.cons.inj hFirst).1] at hStarts
      exact absurd hStarts (by decide)
    · exact ⟨p, rest, (List.cons.inj hSecond).2, Or.inr hStarts⟩
  · rintro ⟨p, rest, rfl, rfl | hStarts⟩
    · exact Or.inl ⟨rest, rfl⟩
    · exact Or.inr ⟨p, rest, hStarts, Or.inr rfl⟩

theorem startsIdentifier_of_isDigit
    {c : Char}
    (hDigit : c.isDigit = true) :
    startsIdentifier c = false :=
  of_isDigit (fun d => startsIdentifier d = false)
    (by decide) hDigit

/- A digit behind a first hyphen is neither of them. -/
theorem not_isIdentifier_of_hyphen_digit
    {c : Char}
    (hDigit : c.isDigit = true)
    (rest : List Char) :
    ¬ IsIdentifier ('-' :: c :: rest) := by
  rintro ⟨ps, hTexts, _, hOpens⟩
  have hPlain : ∀ d : Char, d.isDigit = false → c ≠ d := by
    rintro d hOther rfl
    rw [hDigit] at hOther
    cases hOther
  rcases exists_plain_of_texts_eq hTexts (by decide) with
    ⟨qs, rfl, hBehind⟩
  rcases exists_plain_of_texts_eq hBehind (hPlain '\\' (by decide)) with
    ⟨others, rfl, _⟩
  rcases (opens_hyphen_cons_iff _).1 hOpens with
    ⟨p, rest, hSecond, hHyphen | hStarts⟩
  · rw [hHyphen, List.cons.injEq, Piece.plain.injEq] at hSecond
    exact hPlain '-' (by decide) hSecond.1
  · rw [← (List.cons.inj hSecond).1] at hStarts
    exact absurd hStarts
      (Bool.eq_false_iff.1 (startsIdentifier_of_isDigit hDigit))

------------------------------------------------------------
-- Texts that were escaped
------------------------------------------------------------

/- Of the characters that stay as they are, the others start one. -/
theorem isNameChar_iff
    (c : Char) :
    isNameChar c = true ↔
      startsIdentifier c = true ∨ c.isDigit = true ∨ c = '-' := by
  simp only [isNameChar, startsIdentifier, Char.isAlphanum,
    Bool.or_eq_true, decide_eq_true_eq]
  tauto

theorem fits_written
    {c : Char}
    (hLine : endsLine c = false) :
    (written c).Fits := by
  have hValid := valid_written c
  unfold written at hValid ⊢
  split
  · rename_i hName
    have hKinds := (isNameChar_iff c).1 hName
    simpa [Piece.Fits, continuesIdentifier, or_assoc] using hKinds
  · rename_i hOther
    rw [if_neg hOther] at hValid
    exact ⟨hValid, hLine⟩

theorem fits_writtenFirst
    {c : Char}
    (hLine : endsLine c = false) :
    (writtenFirst c).Fits := by
  have hValid := valid_writtenFirst c
  unfold writtenFirst at hValid ⊢
  split
  · rename_i hDigit
    rw [if_pos hDigit] at hValid
    rcases hValid with ⟨hNe, hLength, hDigits, _⟩
    exact ⟨List.length_pos_iff.2 hNe, hLength, hDigits⟩
  · exact fits_written hLine

theorem fits_of_mem_writtenFor
    {cs : List Char}
    (hLine : ∀ c ∈ cs, endsLine c = false)
    {p : Piece}
    (hMem : p ∈ writtenFor cs) :
    p.Fits := by
  cases cs with
  | nil => exact absurd hMem List.not_mem_nil
  | cons c rest =>
      rcases List.forall_mem_cons.1 hLine with ⟨hFirst, hRest⟩
      rcases List.mem_cons.1 hMem with rfl | hLater
      · exact fits_writtenFirst hFirst
      · rcases List.mem_map.1 hLater with ⟨d, hd, rfl⟩
        exact fits_written (hRest d hd)

theorem starts_written
    {c : Char}
    (hDigit : c.isDigit = false)
    (hHyphen : c ≠ '-') :
    (written c).starts = true := by
  unfold written
  split
  · rename_i hName
    rcases (isNameChar_iff c).1 hName with hStarts | hOther | rfl
    · exact hStarts
    · exact absurd hOther (Bool.eq_false_iff.1 hDigit)
    · exact absurd rfl hHyphen
  · rfl

/- A first digit is written as an escape, which starts a name. -/
theorem starts_writtenFirst
    {c : Char}
    (hHyphen : c ≠ '-') :
    (writtenFirst c).starts = true := by
  unfold writtenFirst
  split
  · rfl
  · rename_i hDigit
    exact starts_written (Bool.not_eq_true _ ▸ hDigit) hHyphen

theorem isIdentifier_escape_of_opens
    {cs : List Char}
    (hLine : ∀ c ∈ cs, endsLine c = false)
    (hOpens : Opens (writtenFor cs)) :
    IsIdentifier (escape cs) :=
  ⟨writtenFor cs, texts_writtenFor cs,
    fun _ hMem => fits_of_mem_writtenFor hLine hMem, hOpens⟩

/- A digit that is not the first character stays as it is. -/
theorem escape_hyphen_digit
    {c : Char}
    (hDigit : c.isDigit = true)
    (rest : List Char) :
    escape ('-' :: c :: rest) =
      '-' :: c :: rest.flatMap escapeChar := by
  have hName := (isNameChar_iff c).2 (Or.inr (Or.inl hDigit))
  have hChar : escapeChar c = [c] := if_pos hName
  rw [escape, List.flatMap_cons, hChar]
  rfl

/-
  An escaped text is an identifier unless it begins with a
  hyphen and a digit, which both stay as they are.
-/
theorem isIdentifier_escape_iff
    {cs : List Char}
    (hLine : ∀ c ∈ cs, endsLine c = false)
    (hNe : cs ≠ [])
    (hHyphen : cs ≠ ['-']) :
    IsIdentifier (escape cs) ↔ beginsNegative cs = false := by
  cases cs with
  | nil => exact absurd rfl hNe
  | cons c rest =>
      by_cases hFirst : c = '-'
      · subst hFirst
        cases rest with
        | nil => exact absurd rfl hHyphen
        | cons d rest =>
            change _ ↔ d.isDigit = false
            cases hDigit : d.isDigit with
            | true =>
                rw [escape_hyphen_digit hDigit]
                exact iff_of_false
                  (not_isIdentifier_of_hyphen_digit hDigit _)
                  Bool.noConfusion
            | false =>
                refine iff_of_true ?_ rfl
                apply isIdentifier_escape_of_opens hLine
                apply (opens_hyphen_cons_iff _).2
                refine ⟨written d, rest.map written, rfl, ?_⟩
                by_cases hSecond : d = '-'
                · exact Or.inl (by rw [hSecond]; rfl)
                · exact Or.inr (starts_written hDigit hSecond)
      · have hPositive : beginsNegative (c :: rest) = false := by
          unfold beginsNegative
          split
          · rename_i hCons
            exact absurd (List.cons.inj hCons).1 hFirst
          · rfl
        refine iff_of_true ?_ hPositive
        apply isIdentifier_escape_of_opens hLine
        exact Or.inr
          ⟨_, _, starts_writtenFirst hFirst, Or.inl rfl⟩

------------------------------------------------------------
-- Class names of tokens
------------------------------------------------------------

section ClassName

variable {cascade : Cascade} {catalog : Catalog}
variable {text : String} {t : Token}

/- A line end is white space. -/
theorem endsLine_eq_false
    {c : Char}
    (hBlank : Text.isBlank c = false) :
    endsLine c = false := by
  rw [← Bool.not_eq_true, endsLine]
  simp only [Bool.or_eq_true, decide_eq_true_eq]
  rintro ((rfl | rfl) | rfl) <;>
    exact absurd hBlank (by decide)

/- A token with a payload has a separator in its text. -/
theorem separator_mem_of_isParametric
    (hRead : Token.read? cascade catalog false text = some t)
    (hPayload : t.isParametric = true) :
    '=' ∈ t.raw.toList := by
  have hValue : ∃ v, t.value = some v := by
    cases hNone : t.value with
    | some v => exact ⟨v, rfl⟩
    | none =>
        rw [Token.isParametric, Token.payload?, hNone] at hPayload
        cases hPayload
  rcases hValue with ⟨v, hValue⟩
  have hClause := congrArg Token.value (Token.of_read? hRead).2
  rw [hValue, ← Token.raw_of_read? hRead] at hClause
  dsimp only at hClause
  rcases Token.exists_mark t.raw with ⟨mark, hMark, _⟩
  rcases Token.exists_separator (Token.cutImportant t.raw).1 with
    ⟨sign, hSign, _⟩
  rw [hMark, hSign, ← hClause]
  simp [Token.valueText]

/-
  The selector of a token with a payload is a class name. It
  is an identifier as a whole, unless the token begins with a
  hyphen and a digit; then it is none.
-/
theorem class_names_are_identifiers_unless_negative
    (hSolid : Text.Solid text)
    (hRead : Token.read? cascade catalog false text = some t)
    (hPayload : t.isParametric = true)
    {u : Utility}
    (hOwn : u.selector = none) :
    ∃ name,
      subjects t u = ["." ++ String.ofList name] ∧
      (IsIdentifier name ↔ beginsNegative text.toList = false) := by
  have hRaw : t.raw = text := by
    rw [Token.raw_of_read? hRead, Text.trimmed_eq_self hSolid]
  have hSign := separator_mem_of_isParametric hRead hPayload
  rw [hRaw] at hSign
  refine ⟨escape text.toList, ?_, ?_⟩
  · simp [subjects, hOwn, ofClass, hPayload, hRaw]
  · apply isIdentifier_escape_iff
    · exact fun c hc => endsLine_eq_false (hSolid c hc)
    · intro hNil
      rw [hNil] at hSign
      exact List.not_mem_nil hSign
    · intro hHyphen
      rw [hHyphen] at hSign
      exact absurd hSign (by decide)

theorem class_names_are_identifiers_unless_negative_of_hyphens :
    let cascade : Cascade :=
      ⟨[("2xl", 576), ("md", 768)], by decide, by decide⟩
    let catalog : Catalog :=
      { utilities := .ofList [("-w", {})] }
    let text := "--2:-w=(1)!"
    ∃ t name,
      Token.read? cascade catalog false text = some t ∧
      t.isParametric = true ∧
      subjects t {} = ["." ++ String.ofList name] ∧
      IsIdentifier name := by
  intro cascade catalog text
  let t : Token :=
    ⟨text, "2xl-up", ["--2"], "-w", some "(1)", true, false, false⟩
  have hRead : Token.read? cascade catalog false text = some t := by
    decide
  have hPayload : t.isParametric = true := by
    decide
  rcases class_names_are_identifiers_unless_negative (by decide)
      hRead hPayload (u := {}) rfl with
    ⟨name, hSubjects, hIdentifier⟩
  exact ⟨t, name, hRead, hPayload, hSubjects,
    hIdentifier.2 (by decide)⟩

/- A key with a hyphen and a digit in front gives no identifier. -/
theorem negative_class_name_is_no_identifier :
    let cascade : Cascade :=
      ⟨[("sm", 576), ("md", 768)], by decide, by decide⟩
    let u : Utility :=
      { template := some (.ofList [("perspective", "*")]) }
    let catalog : Catalog := { utilities := .ofList [("-3d", u)] }
    let text := "-3d=(5px)"
    let name := "-3d\\=\\(5px\\)"
    ∃ t,
      (∀ c ∈ text.toList, 32 < c.toNat ∧ c.toNat < 127) ∧
      Token.read? cascade catalog false text = some t ∧
      t.isParametric = true ∧
      catalog.utility? t.key = some u ∧
      u.selector = none ∧
      subjects t u = ["." ++ name] ∧
      ¬ IsIdentifier name.toList := by
  intro cascade u catalog text name
  let t : Token :=
    ⟨text, "sm-up", [], "-3d", some "(5px)", false, false, false⟩
  have hName : name.toList = '-' :: '3' :: name.toList.drop 2 := by
    decide
  have hDigit : '3'.isDigit = true := by
    decide
  have hVisible :
      text.toList.all (fun c => 32 < c.toNat ∧ c.toNat < 127) = true := by
    decide
  refine ⟨t, ?_, by decide, by decide, by decide, rfl, by decide, ?_⟩
  · exact fun c hc => of_decide_eq_true
      (List.all_eq_true.1 hVisible c hc)
  · rw [hName]
    exact not_isIdentifier_of_hyphen_digit hDigit _

end ClassName

end AtomicCss.Selector
