import AtomicCss.Proofs.Declarations.Payload
import AtomicCss.Proofs.Layers
import AtomicCss.Proofs.Token.Spelling
import Mathlib.Data.List.Basic

/-
  This file proves which of the sources of a token decides
  about a property: the first one that has it, in an order
  that is fixed except for two overrides of tokens that have
  a value.

  Only two sources stand above the properties of a value: the
  override of exactly the token, and the template filled with
  its payload.

  Key definitions include:
    * `Source`
    * `Source.offer?`
    * `Source.give?`
    * `Token.sources`

  The main statements are:
    * `Source.offer?_template_eq_some_iff`
    * `Token.effectiveValue?_eq`
    * `Token.sources_eq`
    * `Token.get?_declarations`
    * `Token.declarations_follow_precedence`
    * `Token.value_entries_yield_only_to_literal_and_template`
-/

namespace AtomicCss

------------------------------------------------------------
-- Sources
------------------------------------------------------------

/- Where a property of a token can come from. -/
inductive Source where
  /- An override. -/
  | override (pattern : Pattern)
  /- The template of the utility, filled with the payload. -/
  | template
  /- The properties of the value. -/
  | value
  /- The common properties of the utility. -/
  | common
deriving DecidableEq

namespace Source

section

variable (catalog : Catalog) (t : Token) (u : Utility)
variable (value : Option String)

/- The properties that a source has for a token, if any. -/
def offer? : Source → Option Properties
  | .override pattern => catalog.override? pattern
  | .template =>
      t.payload?.bind (fun payload =>
        u.template.map (fun template =>
          Payload.fill template t.key payload))
  | .value => value.bind u.values.get?
  | .common => some u.common

/- The value that a source gives to a property, if any. -/
def give?
    (property : String)
    (s : Source) : Option String :=
  (s.offer? catalog t u value).bind (fun p => p.get? property)

theorem give?_ne_none_iff
    (property : String)
    (s : Source) :
    s.give? catalog t u value property ≠ none ↔
      ∃ p, s.offer? catalog t u value = some p ∧
        property ∈ p.keys := by
  unfold give?
  cases s.offer? catalog t u value with
  | none => simp
  | some p => simp [OrderedMap.mem_keys_iff_get?_ne_none]

/-
  The template is offered if the value of the token is in
  parentheses. What they enclose stands for a text, which then
  joins the parts of each value of the template that stand
  between asterisks.
-/
theorem offer?_template_eq_some_iff
    (p : Properties) :
    Source.template.offer? catalog t u value = some p ↔
      ∃ payload filling template,
        t.value = some ("(" ++ payload ++ ")") ∧
        '\n' ∉ payload.toList ∧
        Payload.StandsFor t.key payload filling ∧
        u.template = some template ∧
        p.entries =
          template.entries.map (fun e =>
            (e.1, String.intercalate filling
              ((e.2.toList.splitOn '*').map String.ofList))) := by
  have hPayload :
      ∀ payload, t.payload? = some payload ↔
        t.value = some ("(" ++ payload ++ ")") ∧
          '\n' ∉ payload.toList := by
    intro payload
    simp only [Token.payload?, Option.bind_eq_some_iff,
      Token.payloadOf?_eq_some_iff]
    constructor
    · rintro ⟨v, hv, rfl, hLine⟩
      exact ⟨hv, hLine⟩
    · rintro ⟨hv, hLine⟩
      exact ⟨_, hv, rfl, hLine⟩
  simp only [offer?, Option.bind_eq_some_iff, Option.map_eq_some_iff,
    hPayload, Payload.standsFor_iff]
  constructor
  · rintro ⟨payload, ⟨hv, hLine⟩, template, hTemplate, rfl⟩
    exact ⟨payload, _, template, hv, hLine, rfl, hTemplate,
      Payload.entries_fill template t.key payload⟩
  · rintro ⟨payload, _, template, hv, hLine, rfl, hTemplate, hEntries⟩
    refine ⟨payload, ⟨hv, hLine⟩, template, hTemplate, ?_⟩
    apply OrderedMap.ext
    rw [Payload.entries_fill, hEntries]

end

end Source

namespace Token

/-
  The sources of a token, from the highest precedence to the
  lowest. Two of the overrides are for tokens with a value.
-/
def sources
    (t : Token)
    (value : Option String) : List Source :=
  let breakpoint := Criterion.exactly t.breakpoint
  let key := Criterion.exactly t.key
  let v := Criterion.ofOption value
  [ .override ⟨breakpoint, key, v⟩,
    .template,
    .value,
    .override ⟨.any, key, v⟩ ] ++
  (if value.isSome then
    [ .override ⟨breakpoint, key, .any⟩,
      .override ⟨.any, key, .any⟩ ]
  else
    []) ++
  [ .override ⟨breakpoint, .any, v⟩,
    .override ⟨.any, .any, v⟩,
    .common ]

/-
  The overrides that a token shares with others have their
  precedence in reverse order of their layers.
-/
theorem sources_eq
    (t : Token)
    (value : Option String) :
    t.sources value =
      [.override (t.exactPattern value), .template, .value] ++
        (t.openPatterns value).reverse.map .override ++
          [.common] := by
  cases value <;> rfl

/- The default of a breakpoint goes before that of all of them. -/
theorem effectiveValue?_eq
    (t : Token)
    (u : Utility) :
    t.effectiveValue? u =
      t.value.or
        ((u.defaults.get? t.breakpoint).or
          (u.defaults.get? "*")) := by
  unfold effectiveValue? Utility.defaultFor?
  cases t.value with
  | some v => rfl
  | none => cases u.defaults.get? t.breakpoint <;> rfl

theorem filledTemplate?_eq
    (t : Token)
    (u : Utility) :
    t.filledTemplate? u =
      t.payload?.bind (fun payload =>
        u.template.map (fun template =>
          Payload.fill template t.key payload)) := by
  unfold filledTemplate?
  cases t.payload? <;> cases u.template <;> rfl

end Token

------------------------------------------------------------
-- Layers and sources
------------------------------------------------------------

/- A search takes the first element or goes on to the others. -/
theorem findSome?_cons_eq_or
    {α β : Type}
    (f : α → Option β)
    (x : α)
    (xs : List α) :
    (x :: xs).findSome? f = (f x).or (xs.findSome? f) := by
  rw [List.findSome?_cons]
  cases f x <;> rfl

/- All properties of uniform declarations share their mark. -/
theorem Declarations.isImportant_uniform
    (p : Properties)
    (important : Bool)
    (property : String) :
    (uniform p important).isImportant property =
      (p.contains property && important) := by
  cases important with
  | true =>
      rw [Bool.and_true]
      exact OrderedMap.contains_mapValues (fun _ => ()) p property
  | false =>
      rw [Bool.and_false]
      rfl

namespace Token

variable (catalog : Catalog) (t : Token) (u : Utility)

/-
  What is resolved for a property is what its first source
  gives. The layers above the common properties are concrete
  ones and fallbacks, and all of the former have precedence.
-/
theorem get?_resolve
    (property : String) :
    (t.resolve catalog u).properties.get? property =
      (t.sources (t.effectiveValue? u)).findSome?
        (Source.give? catalog t u (t.effectiveValue? u)
          property) := by
  let value := t.effectiveValue? u
  let common := Layered.add {} (.base u.common)
  let above :=
    (value.bind u.values.get?).toList.map Layer.concrete ++
      (t.filledTemplate? u).toList.map Layer.concrete ++
      ((t.openPatterns value).filterMap catalog.override?).map
        Layer.fallback ++
      (catalog.override? (t.exactPattern value)).toList.map
        Layer.concrete
  have hResolve : t.resolve catalog u = above.foldl .add common := by
    simp [resolve, layers, above, common, value]
  have hAbove : ∀ p, Layer.base p ∉ above := by
    simp [above]
  have hFree : property ∉ common.pinned := by
    simp [common, Layered.mem_pinned_add_iff, Layer.concrete?]
  have hConcrete :
      above.filterMap Layer.concrete? =
        (value.bind u.values.get?).toList ++
          (t.filledTemplate? u).toList ++
          (catalog.override? (t.exactPattern value)).toList := by
    simp [above, List.filterMap_map, Function.comp_def,
      Layer.concrete?]
  have hFallback :
      above.filterMap Layer.fallback? =
        (t.openPatterns value).filterMap catalog.override? := by
    simp [above, List.filterMap_map, Function.comp_def,
      Layer.fallback?]
  have hCommon :
      common.properties.get? property =
        u.common.get? property := by
    rw [Layered.get?_add_base]
    exact Option.or_none
  rw [hResolve, Layered.get?_foldl_add hAbove hFree, hConcrete,
    hFallback, hCommon, Properties.lastValue_append,
    Properties.lastValue_append, Properties.lastValue_toList,
    Properties.lastValue_toList, Properties.lastValue_toList,
    Properties.lastValue_filterMap, filledTemplate?_eq, sources_eq,
    List.findSome?_append, List.findSome?_append, List.findSome?_map]
  simp [findSome?_cons_eq_or, Source.give?, Source.offer?,
    Function.comp_def, Option.or_assoc, value]

/- The declarations of a token are what is resolved for it. -/
theorem get?_declarations
    (property : String) :
    (t.declarations catalog u).properties.get? property =
      (t.sources (t.effectiveValue? u)).findSome?
        (Source.give? catalog t u (t.effectiveValue? u)
          property) :=
  t.get?_resolve catalog u property

theorem isImportant_declarations
    (property : String) :
    (t.declarations catalog u).isImportant property =
      ((t.declarations catalog u).properties.contains property &&
        t.important) :=
  Declarations.isImportant_uniform _ _ _

/-
  The value of a token is its own, or else the default for its
  breakpoint, or else that for all breakpoints. Given it, a
  property is declared exactly if one of the sources has it.
  Its value is that of the first source that has it, and it is
  important exactly if the token is.

  An override has what is configured for its pattern, and a
  value what the utility lists for it. The template has what
  it is filled to: its asterisks are replaced by the text that
  the payload stands for.
-/
theorem declarations_follow_precedence :
    let value :=
      t.value.or
        ((u.defaults.get? t.breakpoint).or (u.defaults.get? "*"))
    let breakpoint := Criterion.exactly t.breakpoint
    let key := Criterion.exactly t.key
    let v := value.elim Criterion.absent Criterion.exactly
    let order : List Source :=
      [ .override ⟨breakpoint, key, v⟩,
        .template,
        .value,
        .override ⟨.any, key, v⟩ ] ++
      (if value.isSome then
        [ .override ⟨breakpoint, key, .any⟩,
          .override ⟨.any, key, .any⟩ ]
      else
        []) ++
      [ .override ⟨breakpoint, .any, v⟩,
        .override ⟨.any, .any, v⟩,
        .common ]
    let d := t.declarations catalog u
    (∀ pattern,
      (Source.override pattern).offer? catalog t u value =
        catalog.overrides.get? pattern) ∧
    (∀ p,
      Source.template.offer? catalog t u value = some p ↔
        ∃ payload filling template,
          t.value = some ("(" ++ payload ++ ")") ∧
          '\n' ∉ payload.toList ∧
          Payload.StandsFor t.key payload filling ∧
          u.template = some template ∧
          p.entries =
            template.entries.map (fun e =>
              (e.1, String.intercalate filling
                ((e.2.toList.splitOn '*').map String.ofList)))) ∧
    (Source.value.offer? catalog t u value =
      value.bind u.values.get?) ∧
    (Source.common.offer? catalog t u value = some u.common) ∧
    ∀ property,
      (property ∈ d.properties.keys ↔
        ∃ s ∈ order, ∃ p,
          s.offer? catalog t u value = some p ∧
            property ∈ p.keys) ∧
      d.properties.get? property =
        order.findSome? (fun s =>
          (s.offer? catalog t u value).bind (fun p =>
            p.get? property)) ∧
      d.isImportant property =
        (d.properties.contains property && t.important) := by
  intro value breakpoint key v order d
  have hOrder : t.sources value = order := by
    dsimp only [order, v]
    cases value <;> rfl
  have hFirst :
      ∀ property,
        d.properties.get? property =
          order.findSome?
            (Source.give? catalog t u value property) := by
    intro property
    have hValue : t.effectiveValue? u = value :=
      t.effectiveValue?_eq u
    rw [← hOrder, ← hValue]
    exact t.get?_declarations catalog u property
  refine ⟨fun _ => rfl,
    Source.offer?_template_eq_some_iff catalog t u value, rfl, rfl,
    fun property => ⟨?_, hFirst property,
      t.isImportant_declarations catalog u property⟩⟩
  rw [OrderedMap.mem_keys_iff_get?_ne_none, hFirst, ne_eq,
    List.findSome?_eq_none_iff]
  push Not
  exact exists_congr (fun s =>
    and_congr_right (fun _ =>
      s.give?_ne_none_iff catalog t u value property))

end Token

/- A utility with a value, a default and common properties. -/
def Utility.box : Utility where
  common := .ofList [("box-sizing", "border-box"), ("outline", "none")]
  values := .ofList
    [("a", .ofList [("color", "red"), ("outline", "1px solid")])]
  defaults := .ofList [("md-up", "a")]

/- A catalog of this utility with overrides of all kinds. -/
def Catalog.boxes : Catalog where
  utilities := .ofList [("box", .box)]
  overrides := .ofList
    [ (⟨.any, .any, .exactly "a"⟩,
        .ofList [("color", "black"), ("margin", "1px")]),
      (⟨.exactly "md-up", .any, .exactly "a"⟩,
        .ofList [("margin", "2px")]),
      (⟨.any, .exactly "box", .any⟩,
        .ofList [("outline", "dotted"),
          ("box-sizing", "content-box"), ("padding", "2px")]),
      (⟨.exactly "md-up", .exactly "box", .any⟩,
        .ofList [("padding", "3px")]),
      (⟨.any, .exactly "box", .exactly "a"⟩,
        .ofList [("padding", "4px")]),
      (⟨.exactly "md-up", .exactly "box", .exactly "a"⟩,
        .ofList [("color", "blue")]) ]

/- A token without a value, at the breakpoint of its default. -/
example :
    let t : Token :=
      ⟨"md-up:box", "md-up", [], "box", none, false, false, true⟩
    (t.declarations .boxes .box).text =
      "box-sizing:content-box;outline:1px solid;color:blue;" ++
        "margin:2px;padding:4px;" := by
  decide

namespace Token

/- Two rows of grid areas, below an override that yields to them. -/
theorem declarations_follow_precedence_of_areas :
    let cascade : Cascade := ⟨[("sm", 576)], by decide, by decide⟩
    let template : Properties :=
      .ofList [("grid-template-areas", "*"), ("grid", "* / auto")]
    let u : Utility :=
      { common := .ofList [("display", "grid")]
        template := some template }
    let catalog : Catalog :=
      { utilities := .ofList [("grid-areas", u)]
        overrides := .ofList
          [(⟨.any, .exactly "grid-areas", .any⟩,
            .ofList
              [("display", "inline-grid"), ("grid", "none")])] }
    let payload := "top_top|side_main"
    let t : Token :=
      ⟨"grid-areas=(top_top|side_main)!", "sm-up", [], "grid-areas",
        some ("(" ++ payload ++ ")"), true, false, false⟩
    let filled : Properties :=
      .ofList
        [("grid-template-areas", "\"top top\" \"side main\""),
          ("grid", "\"top top\" \"side main\" / auto")]
    let d := t.declarations catalog u
    read? cascade catalog false "grid-areas=(top_top|side_main)!" =
      some t ∧
    Payload.StandsFor t.key payload "\"top top\" \"side main\"" ∧
    Source.template.offer? catalog t u t.value = some filled ∧
    d.properties.get? "grid" = filled.get? "grid" ∧
    d.properties.get? "display" = some "inline-grid" ∧
    d.isImportant "grid" = true := by
  intro cascade template u catalog payload t filled d
  rcases declarations_follow_precedence catalog t u with
    ⟨_, hTemplate, _, _, hProperty⟩
  have hStands :
      Payload.StandsFor t.key payload
        "\"top top\" \"side main\"" :=
    Payload.standsFor_iff.2 (by decide)
  have hFilled :
      Source.template.offer? catalog t u t.value = some filled :=
    (hTemplate filled).2
      ⟨payload, _, template, rfl, by decide, hStands, rfl, by decide⟩
  exact ⟨by decide, hStands, hFilled,
    (hProperty "grid").2.1.trans (by decide),
    (hProperty "display").2.1.trans (by decide),
    (hProperty "grid").2.2.trans (by decide)⟩

end Token

------------------------------------------------------------
-- The properties of a value
------------------------------------------------------------

namespace Token

/- Two sources come before the properties of a value. -/
theorem findSome?_sources_of_value
    {α : Type}
    {f : Source → Option α}
    {x : α}
    (hGiven : f .value = some x)
    (t : Token)
    (value : Option String) :
    (t.sources value).findSome? f =
      (f (.override (t.exactPattern value))).or
        ((f .template).or (some x)) := by
  rw [sources_eq]
  simp [findSome?_cons_eq_or, hGiven]

/- A token without a payload has no filled template. -/
theorem give?_template_of_not_isParametric
    {t : Token}
    (hPlain : t.isParametric = false)
    (catalog : Catalog)
    (u : Utility)
    (value : Option String)
    (property : String) :
    Source.template.give? catalog t u value property = none := by
  have hNone : t.payload? = none := by
    simpa [isParametric] using hPlain
  simp [Source.give?, Source.offer?, hNone]

/-
  A property that is listed for the value of a token yields
  only to the override of exactly the token and to the filled
  template. Unless that override has the property, it keeps
  the listed value exactly if the template does not give it
  another one, and so it does for every token without a
  payload. No other override matters, whatever it has.
-/
theorem value_entries_yield_only_to_literal_and_template
    (catalog : Catalog)
    {t : Token}
    {u : Utility}
    {v : String}
    (hValue : t.effectiveValue? u = some v)
    {entry : Properties}
    (hEntry : u.values.get? v = some entry)
    {property x : String}
    (hListed : entry.get? property = some x) :
    let pattern := t.exactPattern (some v)
    let give := Source.give? catalog t u (some v) property
    let literal := give (.override pattern)
    let filled := give .template
    let declared := (t.declarations catalog u).properties.get? property
    declared = literal.or (filled.or (some x)) ∧
    (literal = none →
      (declared = some x ↔ filled = none ∨ filled = some x)) ∧
    (literal = none → t.isParametric = false →
      declared = some x) ∧
    ∀ other : Catalog,
      other.override? pattern = catalog.override? pattern →
      (t.declarations other u).properties.get? property =
        declared := by
  intro pattern give literal filled declared
  have hDeclared :
      ∀ c : Catalog,
        (t.declarations c u).properties.get? property =
          (Source.give? c t u (some v) property
            (.override pattern)).or (filled.or (some x)) := by
    intro c
    have hGiven :
        Source.give? c t u (some v) property .value = some x := by
      simp [Source.give?, Source.offer?, hEntry, hListed]
    rw [get?_declarations, hValue, findSome?_sources_of_value hGiven]
    rfl
  have hKept :
      literal = none →
        (declared = some x ↔ filled = none ∨ filled = some x) := by
    intro hLiteral
    have hHere : declared = literal.or (filled.or (some x)) :=
      hDeclared catalog
    rw [hHere, hLiteral, Option.none_or]
    cases filled <;> simp
  refine ⟨hDeclared catalog, hKept, ?_, ?_⟩
  · intro hLiteral hPlain
    exact (hKept hLiteral).2 (Or.inl
      (give?_template_of_not_isParametric hPlain catalog u _ _))
  · intro other hSame
    have hOffer :
        Source.give? other t u (some v) property
            (.override pattern) = literal := by
      simp only [literal, give, Source.give?, Source.offer?, hSame]
    rw [hDeclared other, hOffer]
    exact (hDeclared catalog).symm

end Token

/- A utility with a value in parentheses and a template. -/
def Utility.width : Utility where
  values := .ofList
    [("(full)", .ofList [("width", "100%"), ("max-width", "none")])]
  template := some (.ofList [("width", "*")])

/- A catalog of this utility with a broad override. -/
def Catalog.widths : Catalog where
  utilities := .ofList [("width", .width)]
  overrides := .ofList
    [(⟨.any, .exactly "width", .any⟩,
      .ofList [("width", "auto"), ("max-width", "50%")])]

namespace Token

/- What the template does not have is kept, payload or not. -/
theorem value_entries_yield_only_to_literal_and_template_of_widths :
    let t : Token :=
      ⟨"width=(full)", "sm-up", [], "width", some "(full)",
        false, false, false⟩
    let entry : Properties :=
      .ofList [("width", "100%"), ("max-width", "none")]
    t.effectiveValue? .width = some "(full)" ∧
    Utility.width.values.get? "(full)" = some entry ∧
    entry.get? "max-width" = some "none" ∧
    Source.give? .widths t .width (some "(full)") "max-width"
      (.override (t.exactPattern (some "(full)"))) = none ∧
    (t.declarations .widths .width).properties.get? "max-width" =
      some "none" := by
  intro t entry
  have hValue : t.effectiveValue? .width = some "(full)" := rfl
  have hEntry : Utility.width.values.get? "(full)" = some entry := rfl
  have hListed : entry.get? "max-width" = some "none" := by decide
  have h :=
    value_entries_yield_only_to_literal_and_template .widths
      hValue hEntry hListed
  exact ⟨hValue, hEntry, hListed, by decide,
    (h.2.1 (by decide)).2 (Or.inl (by decide))⟩

/- What the template has is replaced, even in a listed value. -/
theorem filled_template_replaces_value_entry :
    let cascade : Cascade := ⟨[("sm", 576)], by decide, by decide⟩
    let t : Token :=
      ⟨"width=(full)", "sm-up", [], "width", some "(full)",
        false, false, false⟩
    let entry : Properties :=
      .ofList [("width", "100%"), ("max-width", "none")]
    read? cascade .widths false "width=(full)" = some t ∧
    t.effectiveValue? .width = some "(full)" ∧
    Utility.width.values.get? "(full)" = some entry ∧
    entry.get? "width" = some "100%" ∧
    Catalog.widths.override? (t.exactPattern (some "(full)")) = none ∧
    (t.declarations .widths .width).properties.get? "width" =
      some "full" := by
  intro cascade t entry
  refine ⟨by decide, rfl, rfl, ?_, ?_, ?_⟩ <;> decide

end Token

end AtomicCss
