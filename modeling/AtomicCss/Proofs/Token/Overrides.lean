import AtomicCss.Proofs.Token.Precedence
import Mathlib.Data.List.Basic

/-
  This file proves which overrides of a catalog apply to a
  token.

  A pattern accepts a token if each of its criteria does. Of
  the patterns that accept a token, all are looked up but the
  blanket ones, which ask for any value of any key. So every
  other override is a source of the token, and a blanket one
  might as well not be there.

  Key definitions include:
    * `Criterion.Accepts`
    * `Pattern.Accepts`
    * `Pattern.IsBlanket`

  The main statements are:
    * `Token.override_mem_sources_iff`
    * `Token.declarations_without_override`
    * `Token.overrides_apply_unless_blanket`
-/

namespace AtomicCss

------------------------------------------------------------
-- Acceptance
------------------------------------------------------------

/- Whether a criterion accepts a part of a token, or its absence. -/
def Criterion.Accepts : Criterion → Option String → Prop
  | .any, part => part.isSome = true
  | .exactly text, part => part = some text
  | .absent, part => part = none

instance
    (c : Criterion)
    (part : Option String) :
    Decidable (c.Accepts part) := by
  cases c <;> exact inferInstanceAs (Decidable (_ = _))

theorem Criterion.accepts_some_iff
    (c : Criterion)
    (text : String) :
    c.Accepts (some text) ↔ c = .any ∨ c = .exactly text := by
  cases c with
  | any => simp [Accepts]
  | exactly other => simp [Accepts, eq_comm]
  | absent => simp [Accepts]

theorem Criterion.accepts_none_iff
    (c : Criterion) :
    c.Accepts none ↔ c = .absent := by
  cases c <;> simp [Accepts]

namespace Pattern

/-
  Whether a pattern accepts a token of a certain value. A
  token always has a breakpoint and a key.
-/
def Accepts
    (p : Pattern)
    (t : Token)
    (value : Option String) : Prop :=
  p.breakpoint.Accepts (some t.breakpoint) ∧
    p.key.Accepts (some t.key) ∧
    p.value.Accepts value

instance
    (p : Pattern)
    (t : Token)
    (value : Option String) :
    Decidable (p.Accepts t value) :=
  inferInstanceAs (Decidable (_ ∧ _ ∧ _))

/- Whether a pattern asks for any value of any key. -/
def IsBlanket
    (p : Pattern) : Prop :=
  p.key = .any ∧ p.value = .any

instance
    (p : Pattern) :
    Decidable p.IsBlanket :=
  inferInstanceAs (Decidable (_ ∧ _))

end Pattern

------------------------------------------------------------
-- Patterns that are looked up
------------------------------------------------------------

namespace Token

/-
  The overrides among the sources of a token are those that
  accept it, blanket ones excepted.
-/
theorem override_mem_sources_iff
    (t : Token)
    (value : Option String)
    (p : Pattern) :
    .override p ∈ t.sources value ↔
      p.Accepts t value ∧ ¬ p.IsBlanket := by
  rcases p with ⟨breakpoint, key, v⟩
  -- Two overrides are sources only where there is a value.
  cases value with
  | none =>
      simp only [Pattern.Accepts, Pattern.IsBlanket,
        Criterion.accepts_some_iff, Criterion.accepts_none_iff]
      grind [sources, Criterion.ofOption]
  | some text =>
      simp only [Pattern.Accepts, Pattern.IsBlanket,
        Criterion.accepts_some_iff]
      grind [sources, Criterion.ofOption]

/- Every pattern that is looked up stands among the sources. -/
theorem override_mem_sources
    {t : Token}
    {value : Option String}
    {p : Pattern}
    (hPattern : p = t.exactPattern value ∨ p ∈ t.openPatterns value) :
    .override p ∈ t.sources value := by
  rw [sources_eq]
  rcases hPattern with rfl | hOpen
  · simp
  · simp [hOpen]

/- An override that is no source of a token can be removed. -/
theorem declarations_without_override
    (catalog : Catalog)
    {t : Token}
    {u : Utility}
    {p : Pattern}
    (hNone : .override p ∉ t.sources (t.effectiveValue? u)) :
    t.declarations
        { catalog with overrides := catalog.overrides.erase p } u =
      t.declarations catalog u := by
  let other : Catalog :=
    { catalog with overrides := catalog.overrides.erase p }
  let value := t.effectiveValue? u
  have hSame :
      ∀ q, q = t.exactPattern value ∨ q ∈ t.openPatterns value →
        other.override? q = catalog.override? q := by
    intro q hq
    have hNe : q ≠ p :=
      fun h => hNone (h ▸ override_mem_sources hq)
    exact (OrderedMap.get?_erase _ _ _).trans (if_neg hNe)
  have hOpen :
      (t.openPatterns value).filterMap other.override? =
        (t.openPatterns value).filterMap catalog.override? :=
    List.filterMap_congr (fun q hq => hSame q (Or.inr hq))
  have hExact := hSame _ (Or.inl rfl)
  have hLayers : t.layers other u = t.layers catalog u := by
    simp only [layers, value] at hOpen hExact ⊢
    rw [hOpen, hExact]
  simp only [declarations, resolve, other] at hLayers ⊢
  rw [hLayers]

/-
  An override that accepts a token gives it every property
  that it has, unless a source of higher precedence gives the
  property another value. Blanket overrides are the exception:
  the token has the same declarations without them.
-/
theorem overrides_apply_unless_blanket
    {catalog : Catalog}
    {p : Pattern}
    {properties : Properties}
    (hEntry : catalog.override? p = some properties)
    {t : Token}
    {u : Utility}
    (hAccepts : p.Accepts t (t.effectiveValue? u)) :
    let value := t.effectiveValue? u
    let d := t.declarations catalog u
    (¬ p.IsBlanket →
      ∃ higher lower,
        t.sources value = higher ++ .override p :: lower ∧
        .override p ∉ higher ∧
        ∀ property x, properties.get? property = some x →
          d.properties.get? property =
            some ((higher.findSome?
              (Source.give? catalog t u value property)).getD x)) ∧
    (p.IsBlanket →
      t.declarations
        { catalog with overrides := catalog.overrides.erase p } u =
          d) := by
  intro value d
  have hSource := t.override_mem_sources_iff value p
  refine ⟨?_, ?_⟩
  · intro hNarrow
    rcases List.eq_append_cons_of_mem
        (hSource.2 ⟨hAccepts, hNarrow⟩) with
      ⟨higher, lower, hSplit, hFirst⟩
    refine ⟨higher, lower, hSplit, hFirst, ?_⟩
    intro property x hGiven
    have hOverride :
        Source.give? catalog t u value property (.override p) =
          some x := by
      simp [Source.give?, Source.offer?, hEntry, hGiven]
    rw [get?_declarations]
    change (t.sources value).findSome? _ = _
    rw [hSplit, List.findSome?_append, findSome?_cons_eq_or,
      hOverride, Option.some_or]
    cases higher.findSome?
        (Source.give? catalog t u value property) <;> rfl
  · intro hBlanket
    apply declarations_without_override
    exact fun h => (hSource.1 h).2 hBlanket

/- An override for all values of a key, above two sources. -/
theorem overrides_apply_unless_blanket_of_boxes :
    let t : Token :=
      ⟨"md-up:box", "md-up", [], "box", none, false, false, true⟩
    let p : Pattern := ⟨.any, .exactly "box", .any⟩
    let properties : Properties :=
      .ofList [("outline", "dotted"),
        ("box-sizing", "content-box"), ("padding", "2px")]
    Catalog.boxes.override? p = some properties ∧
    p.Accepts t (t.effectiveValue? .box) ∧
    ¬ p.IsBlanket ∧
    ∃ higher lower,
      t.sources (some "a") = higher ++ .override p :: lower ∧
      (t.declarations .boxes .box).properties.get? "box-sizing" =
        some ((higher.findSome?
          (Source.give? .boxes t .box (some "a")
            "box-sizing")).getD "content-box") := by
  intro t p properties
  have hEntry : Catalog.boxes.override? p = some properties := rfl
  have hAccepts : p.Accepts t (t.effectiveValue? .box) := by decide
  have hNarrow : ¬ p.IsBlanket := by decide
  rcases (overrides_apply_unless_blanket hEntry hAccepts).1 hNarrow with
    ⟨higher, lower, hSplit, _, hDeclared⟩
  exact ⟨hEntry, hAccepts, hNarrow, higher, lower, hSplit,
    hDeclared _ _ (by decide)⟩

/-
  A configured override for all tokens with a value accepts
  such a token, but the token declares nothing.
-/
theorem blanket_override_declares_nothing :
    let config : Config :=
      { utilities := .ofList [("box", {})]
        overrides := .ofList [("*:*=*", .ofList [("opacity", "1")])] }
    let p : Pattern := ⟨.any, .any, .any⟩
    let cascade : Cascade := ⟨[("sm", 576)], by decide, by decide⟩
    let t : Token :=
      ⟨"box=a", "sm-up", [], "box", some "a", false, false, false⟩
    ∃ c u,
      Catalog.ofConfig config = .ok c ∧
      read? cascade c false "box=a" = some t ∧
      c.utility? "box" = some u ∧
      c.override? p = some (.ofList [("opacity", "1")]) ∧
      p.Accepts t (t.effectiveValue? u) ∧
      t.declarations c u = .empty := by
  intro config p cascade t
  refine ⟨_, {}, rfl, ?_, rfl, rfl, ?_, rfl⟩ <;> decide

end Token

end AtomicCss
