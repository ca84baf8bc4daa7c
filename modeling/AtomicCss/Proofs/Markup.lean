import AtomicCss.Markup
import AtomicCss.Proofs.OrderedMap
import AtomicCss.Proofs.Text.Substitution

/-
  This file proves that the tokens of markup are the words of
  its class attributes.

  Markup is class attributes with other text between them,
  which does not contain the name `class`. The body of an
  attribute may contain anything but its own quote, and is
  passed over even if it looks like an attribute itself.

  Key definitions include:
    * `Markup.Attribute`
    * `Markup.Attribute.text`

  The main statements are:
    * `Markup.attribute?_written`
    * `Markup.collect_text`
    * `Markup.tokens_are_the_words_of_class_attributes`
-/

namespace AtomicCss.Markup

open Text

/- The name of the attributes that hold tokens. -/
def name : List Char :=
  "class".toList

/-
  A class attribute with the text in front of it. White space
  separates the two, and may surround the equals sign.
-/
structure Attribute where
  filler : List Char
  gap : List Char
  before : List Char
  behind : List Char
  quote : Char
  body : List Char
  filler_clear : ¬ name <:+: filler
  gap_ne_nil : gap ≠ []
  gap_blank : ∀ c ∈ gap, isBlank c = true
  before_blank : ∀ c ∈ before, isBlank c = true
  behind_blank : ∀ c ∈ behind, isBlank c = true
  quote_eq : quote = '"' ∨ quote = '\''
  body_clear : quote ∉ body

namespace Attribute

/- The attribute itself, from its name to its closing quote. -/
def own
    (a : Attribute) : List Char :=
  name ++ a.before ++ '=' :: a.behind ++ a.quote :: a.body ++ [a.quote]

/- The attribute with all that stands in front of it. -/
def text
    (a : Attribute) : List Char :=
  a.filler ++ a.gap ++ a.own

end Attribute

------------------------------------------------------------
-- Places without an attribute
------------------------------------------------------------

theorem not_blank_of_mem_name
    {c : Char}
    (hName : c ∈ name) :
    isBlank c = false := by
  have hAll : name.all (fun c => !isBlank c) = true := by decide
  simpa using List.all_eq_true.1 hAll c hName

theorem attribute?_eq_none
    {cs : List Char}
    (hName : ¬ name <+: cs) :
    attribute? cs = none := by
  unfold attribute?
  split
  · rename_i rest
    exact absurd (List.prefix_append name rest) hName
  · rfl

theorem spacedAttribute?_eq_none
    {c : Char}
    {cs : List Char}
    (hName : ¬ name <+: cs) :
    spacedAttribute? (c :: cs) = none := by
  simp [spacedAttribute?, attribute?_eq_none hName]

/- The name has no white space, so it ends in front of some. -/
theorem prefix_of_prefix_append_blank
    {front tail : List Char}
    {blank : Char}
    (hBlank : isBlank blank = true)
    (hName : name <+: front ++ blank :: tail) :
    name <+: front := by
  rcases prefix_append_cases hName with
    hInside | ⟨more, hNe, hMore, hBehind⟩
  · exact hInside
  · rcases List.exists_cons_of_ne_nil hNe with ⟨c, more, rfl⟩
    have hFirst := (List.cons_prefix_cons.1 hBehind).1
    have hLetter : isBlank c = false := by
      apply not_blank_of_mem_name
      rw [hMore]
      simp
    rw [hFirst, hBlank] at hLetter
    cases hLetter

/- No attribute begins in text without the name. -/
theorem spacedAttribute?_of_filler
    {filler : List Char}
    (hFiller : ¬ name <:+: filler)
    {tail : List Char}
    (hTail : ∀ c ∈ tail.head?, isBlank c = true)
    {front : List Char}
    (hNe : front ≠ [])
    (hFront : front <:+ filler) :
    spacedAttribute? (front ++ tail) = none := by
  rcases List.exists_cons_of_ne_nil hNe with ⟨c, front, rfl⟩
  rw [List.cons_append]
  apply spacedAttribute?_eq_none
  intro hName
  have hInside : name <+: front := by
    cases tail with
    | nil => rwa [List.append_nil] at hName
    | cons blank tail =>
        exact prefix_of_prefix_append_blank (hTail blank rfl) hName
  apply hFiller
  exact hInside.isInfix.trans
    ((List.suffix_cons c front).trans hFront).isInfix

/- A search passes over such text in front of white space. -/
theorem collect_filler
    {filler : List Char}
    (hFiller : ¬ name <:+: filler)
    {tail : List Char}
    (hTail : ∀ c ∈ tail.head?, isBlank c = true) :
    collect spacedAttribute? 0 (filler ++ tail) =
      collect spacedAttribute? 0 tail :=
  collect_append_of_none
    (fun _ hNe hFront => spacedAttribute?_of_filler hFiller hTail hNe hFront)

/- White space does not contain the name. -/
theorem not_name_infix_blanks
    {blanks : List Char}
    (hBlanks : ∀ c ∈ blanks, isBlank c = true) :
    ¬ name <:+: blanks := by
  intro hName
  have hLetter : 'c' ∈ blanks := hName.subset (by decide)
  have hBlank := hBlanks 'c' hLetter
  revert hBlank
  decide

------------------------------------------------------------
-- Attributes
------------------------------------------------------------

theorem quoted?_closed
    {quote : Char}
    {body : List Char}
    (hBody : quote ∉ body)
    (rest : List Char) :
    quoted? quote (body ++ quote :: rest) = some body := by
  have hOther : ∀ c ∈ body, decide (c ≠ quote) = true := by
    intro c hc
    exact decide_eq_true (fun h => hBody (h ▸ hc))
  have hQuote : decide (quote ≠ quote) = false := by simp
  rcases span_append_cons hOther hQuote rest with ⟨hBefore, hBehind⟩
  rw [quoted?, hBefore, hBehind]

namespace Attribute

variable (a : Attribute)

theorem isBlank_quote :
    isBlank a.quote = false := by
  rcases a.quote_eq with h | h <;> rw [h] <;> decide

theorem body?_quoted
    (rest : List Char) :
    body? (a.quote :: (a.body ++ a.quote :: rest)) =
      some a.body := by
  rw [body?, if_pos a.quote_eq, quoted?_closed a.body_clear]

/- An attribute in front is found from its name to its end. -/
theorem attribute?_own
    (rest : List Char) :
    attribute? (a.own ++ rest) = some (a.body, a.own.length) := by
  have hText :
      a.own ++ rest =
        'c' :: 'l' :: 'a' :: 's' :: 's' ::
          (a.before ++ '=' ::
            (a.behind ++ a.quote ::
              (a.body ++ a.quote :: rest))) := by
    simp [own, name]
  have hLength :
      a.before.length + a.behind.length + a.body.length + 8 =
        a.own.length := by
    simp [own, name]
    omega
  have hBefore :=
    span_append_cons a.before_blank (c := '=') (by decide)
      (a.behind ++ a.quote :: (a.body ++ a.quote :: rest))
  have hBehind :=
    span_append_cons a.behind_blank a.isBlank_quote
      (a.body ++ a.quote :: rest)
  rw [hText]
  simp only [attribute?, hBefore.1, hBefore.2, hBehind.1, hBehind.2,
    a.body?_quoted rest, Option.map_some, hLength]

theorem spacedAttribute?_own
    {blank : Char}
    (hBlank : isBlank blank = true)
    (rest : List Char) :
    spacedAttribute? (blank :: (a.own ++ rest)) =
      some (a.body, a.own.length + 1) := by
  rw [spacedAttribute?, if_pos hBlank, a.attribute?_own rest]
  rfl

------------------------------------------------------------
-- Searching through markup
------------------------------------------------------------

/- The text in front of an attribute begins with none. -/
theorem not_name_prefix_text
    (rest : List Char) :
    ¬ name <+: a.text ++ rest := by
  intro hName
  rcases List.exists_cons_of_ne_nil a.gap_ne_nil with
    ⟨blank, gap, hGap⟩
  have hBlank : isBlank blank = true :=
    a.gap_blank blank (by simp [hGap])
  rw [text, hGap, List.append_assoc, List.append_assoc,
    List.cons_append] at hName
  exact a.filler_clear
    (prefix_of_prefix_append_blank hBlank hName).isInfix

/-
  A search passes over the filler and all but the last white
  space of the gap, finds the attribute there, and goes on
  behind it.
-/
theorem collect_text
    (rest : List Char) :
    collect spacedAttribute? 0 (a.text ++ rest) =
      a.body :: collect spacedAttribute? 0 rest := by
  rcases List.eq_nil_or_concat a.gap with hNil | ⟨gap, blank, hGap⟩
  · exact absurd hNil a.gap_ne_nil
  · rw [List.concat_eq_append] at hGap
    have hBlanks : ∀ c ∈ gap ++ [blank], isBlank c = true := by
      rw [← hGap]
      exact a.gap_blank
    have hBlank : isBlank blank = true := hBlanks blank (by simp)
    have hFront : ∀ c ∈ gap, isBlank c = true :=
      fun c hc => hBlanks c (List.mem_append_left _ hc)
    have hText :
        a.text ++ rest =
          a.filler ++ (gap ++ (blank :: (a.own ++ rest))) := by
      simp [text, hGap]
    have hLast :
        ∀ c ∈ (blank :: (a.own ++ rest)).head?, isBlank c = true :=
      fun c hc => Option.some.inj hc ▸ hBlank
    have hHead :
        ∀ c ∈ (gap ++ (blank :: (a.own ++ rest))).head?,
          isBlank c = true := by
      intro c hc
      cases gap with
      | nil => exact hLast c hc
      | cons d gap => exact Option.some.inj hc ▸ hFront d (by simp)
    rw [hText, collect_filler a.filler_clear hHead,
      collect_filler (not_name_infix_blanks hFront) hLast,
      collect_of_match (List.cons_ne_nil _ _) (Nat.succ_pos _)
        (a.spacedAttribute?_own hBlank rest),
      List.drop_succ_cons, List.drop_left]

end Attribute

/- The bodies found are those of the attributes, in order. -/
theorem bodies_written
    (attributes : List Attribute)
    {last : List Char}
    (hLast : ¬ name <:+: last) :
    bodies (attributes.flatMap Attribute.text ++ last) =
      attributes.map Attribute.body := by
  have hCollected :
      collect spacedAttribute? 0
          (attributes.flatMap Attribute.text ++ last) =
        attributes.map Attribute.body := by
    induction attributes with
    | nil =>
        have hNone :
            collect spacedAttribute? 0 (last ++ []) = [] :=
          collect_filler hLast (fun _ hc => by cases hc)
        rwa [List.append_nil] at hNone
    | cons a rest ih =>
        rw [List.flatMap_cons, List.append_assoc, a.collect_text, ih,
          List.map_cons]
  have hFront :
      attribute? (attributes.flatMap Attribute.text ++ last) = none := by
    apply attribute?_eq_none
    cases attributes with
    | nil => exact fun hName => hLast hName.isInfix
    | cons a rest =>
        rw [List.flatMap_cons, List.append_assoc]
        exact a.not_name_prefix_text _
  rw [bodies, hFront]
  exact hCollected

/-
  The tokens of markup are the words of the bodies of its class
  attributes in order, each where it first occurs.
-/
theorem tokens_are_the_words_of_class_attributes
    (attributes : List Attribute)
    {last : List Char}
    (hLast : ¬ name <:+: last) :
    tokens
        (String.ofList
          (attributes.flatMap Attribute.text ++ last)) =
      ((attributes.flatMap
        (fun a => words a.body)).map String.ofList).eraseDups := by
  rw [tokens, String.toList_ofList, bodies_written attributes hLast,
    OrderedSet.ofList, OrderedMap.keys_ofList, List.flatMap_map,
    List.map_map]
  congr 1
  exact List.map_id _

theorem tokens_are_the_words_of_class_attributes_of_quotes :
    let first : Attribute := {
      filler := "<p id=a".toList
      gap := "\t ".toList
      before := " ".toList
      behind := "\n".toList
      quote := '\''
      body := " row class=\"x\"\n row =".toList
      filler_clear := by decide
      gap_ne_nil := by decide
      gap_blank := List.all_eq_true.1 (by decide)
      before_blank := List.all_eq_true.1 (by decide)
      behind_blank := List.all_eq_true.1 (by decide)
      quote_eq := by decide
      body_clear := by decide }
    let second : Attribute := {
      filler := "><i".toList
      gap := "\u3000".toList
      before := []
      behind := []
      quote := '"'
      body := "x row it's".toList
      filler_clear := by decide
      gap_ne_nil := by decide
      gap_blank := List.all_eq_true.1 (by decide)
      before_blank := List.all_eq_true.1 (by decide)
      behind_blank := List.all_eq_true.1 (by decide)
      quote_eq := by decide
      body_clear := by decide }
    let last := "></i>".toList
    let markup :=
      "<p id=a\t class =\n' row class=\"x\"\n row ='" ++
        "><i\u3000class=\"x row it's\"></i>"
    ¬ name <:+: last ∧
    markup =
      String.ofList
        ([first, second].flatMap Attribute.text ++ last) ∧
    tokens markup = ["row", "class=\"x\"", "=", "x", "it's"] := by
  intro first second last markup
  have hLast : ¬ name <:+: last := by decide
  have hMarkup :
      markup =
        String.ofList
          ([first, second].flatMap Attribute.text ++ last) := by
    decide
  have hTokens :=
    tokens_are_the_words_of_class_attributes [first, second] hLast
  rw [← hMarkup] at hTokens
  exact ⟨hLast, hMarkup, hTokens.trans (by decide)⟩

end AtomicCss.Markup
