import AtomicCss.Proofs.Catalog.Overrides
import AtomicCss.Proofs.RightToLeft.Resolution
import AtomicCss.Proofs.Token.Precedence
import AtomicCss.Proofs.Token.Reading
import AtomicCss.Proofs.Token.Spelling

/-
  This file proves that an override which is configured under
  the text of a token is found by that token.

  A token and a pattern are cut at different places: the one
  behind its breakpoint and at each colon, the other at its
  last colon. The pattern of a token is put together again
  from its pieces. It is the one that the text of the token
  writes, if qualifiers and mark are left out.

  Key definitions include:
    * `Token.Spelling.literal`

  The main statements are:
    * `Text.cutAtLast_append_cons`
    * `Token.Spelling.read?_literal`
    * `Token.get?_declarations_of_exact`
    * `Token.Spelling.literal_overrides_are_found`
-/

namespace AtomicCss

------------------------------------------------------------
-- Last places
------------------------------------------------------------

namespace Text

theorem cutAtLast_of_not_mem
    {mark : Char}
    {cs : List Char}
    (hNone : mark ∉ cs) :
    cutAtLast mark cs = none := by
  induction cs with
  | nil => rfl
  | cons c rest ih =>
      rcases not_or.1 (List.mem_cons.not.1 hNone) with ⟨hFirst, hRest⟩
      rw [cutAtLast, ih hRest]
      exact if_neg (Ne.symm hFirst)

/- A text is cut at a mark that does not occur behind it. -/
theorem cutAtLast_append_cons
    {mark : Char}
    (before : List Char)
    {after : List Char}
    (hLast : mark ∉ after) :
    cutAtLast mark (before ++ mark :: after) =
      some (before, after) := by
  induction before with
  | nil =>
      rw [List.nil_append, cutAtLast, cutAtLast_of_not_mem hLast]
      exact if_pos rfl
  | cons c rest ih =>
      rw [List.cons_append, cutAtLast, ih]

end Text

------------------------------------------------------------
-- Patterns that are written
------------------------------------------------------------

theorem Criterion.ofText_of_ne
    {text : String}
    (hNe : text ≠ "*") :
    ofText text = .exactly text :=
  if_neg hNe

namespace Pattern

theorem cutHead_colon
    (breakpoint : String)
    {key : String}
    (hKey : ':' ∉ key.toList) :
    cutHead (breakpoint ++ (":" ++ key)) =
      (.ofText breakpoint, key) := by
  have hText :
      (breakpoint ++ (":" ++ key)).toList =
        breakpoint.toList ++ ':' :: key.toList := by
    rw [String.toList_append, String.toList_append]
    rfl
  rw [cutHead, hText, Text.cutAtLast_append_cons _ hKey]
  simp

/- The pattern of a clause whose parts are no stars. -/
theorem read?_of_clause
    {text breakpoint key : String}
    {value : Option String}
    (hClause :
      Clause.ofText text = ⟨breakpoint ++ (":" ++ key), value⟩)
    (hBreakpoint : breakpoint ≠ "" ∧ breakpoint ≠ "*")
    (hKey : key ≠ "" ∧ key ≠ "*" ∧ ':' ∉ key.toList)
    (hValue : value ≠ some "*") :
    read? text =
      .ok ⟨.exactly breakpoint, .exactly key, .ofOption value⟩ := by
  rcases hKey with ⟨hKeyNe, hKeyStar, hColon⟩
  have hSomewhere :
      ¬ (key = "" ∨ Criterion.exactly breakpoint = .exactly "") := by
    simp [hKeyNe, hBreakpoint.1]
  simp only [read?, hClause, cutHead_colon breakpoint hColon,
    Criterion.ofText_of_ne hBreakpoint.2,
    Criterion.ofText_of_ne hKeyStar, if_neg hSomewhere]
  cases value with
  | none => rfl
  | some v =>
      have hNe : v ≠ "*" := fun h => hValue (congrArg some h)
      simp only [Criterion.ofText_of_ne hNe, Criterion.ofOption]

end Pattern

------------------------------------------------------------
-- Names of breakpoints
------------------------------------------------------------

/- A derived name is longer than its ending. -/
theorem Variant.name_ne_star
    (v : Variant) :
    v.name ≠ "*" := by
  intro hStar
  have hLength := congrArg String.length hStar
  rw [Variant.name, String.length_append] at hLength
  have hEnding : 2 ≤ v.direction.ending.length := by
    cases v.direction <;> decide
  have hStarLength : "*".length = 1 := rfl
  omega

namespace Token

namespace Spelling

/-
  The text of the override for exactly the tokens that differ
  from this one in qualifiers or in the mark.
-/
def literal
    (w : Spelling) : String :=
  String.intercalate ":" (w.breakpoint.toList ++ [w.key]) ++
    valueText w.value

section Literals

variable {cascade : Cascade} {w : Spelling}
variable (hNames : ∀ b ∈ cascade.breakpoints, Unmarked b.name)
variable (hValid : w.Valid cascade)

include hValid

/- The override is itself what can be written. -/
theorem valid_without_chain
    (hBreakpoint : w.breakpoint ≠ none) :
    Valid cascade { w with chain := [], important := true } where
  breakpoint := hValid.breakpoint
  segments := by
    intro s hs
    exact hValid.segments s (List.mem_append_right _ hs)
  first := fun hNone => absurd hNone hBreakpoint
  value := hValid.value
  mark := fun hMark => Bool.noConfusion hMark

include hNames

/-
  The override writes the criteria that are put together from
  the pieces of the token.
-/
theorem read?_literal
    {name : String}
    (hBreakpoint : w.breakpoint = some name)
    (hKey : w.key ≠ "*")
    (hValue : w.value ≠ some "*") :
    Pattern.read? w.literal =
      .ok ⟨.exactly name, .exactly w.key, .ofOption w.value⟩ := by
  have hWritten :
      Valid cascade { w with chain := [], important := true } :=
    valid_without_chain hValid (by simp [hBreakpoint])
  have hHead :
      Spelling.head { w with chain := [], important := true } =
        name ++ (":" ++ w.key) := by
    simp [head, segments, hBreakpoint, String.append_assoc]
  have hContains := hValid.breakpoint name hBreakpoint
  rcases Option.isSome_iff_exists.1 hContains with ⟨b, hFound⟩
  have hName := (Cascade.of_get? hFound).2
  have hNe : name ≠ "" := by
    rw [← hName, ne_eq, ← String.toList_eq_nil_iff]
    exact Head.name_toList_ne_nil b
  have hSegment := hValid.segments w.key (by simp [segments])
  have hColon : ':' ∉ w.key.toList :=
    fun hMem => (hSegment.2 ':' hMem).1 (by decide)
  have hClause := ofText_body hNames hWritten
  rw [hHead] at hClause
  have hStar : name ≠ "*" := hName ▸ b.name_ne_star
  exact Pattern.read?_of_clause hClause ⟨hNe, hStar⟩
    ⟨hSegment.1, hKey, hColon⟩ hValue

end Literals

/-
  The value of a token that has one, or whose utility has no
  default at its breakpoint, is the one that was written.
-/
theorem effectiveValue?_token
    {cascade : Cascade}
    {w : Spelling}
    {name : String}
    (hBreakpoint : w.breakpoint = some name)
    {u : Utility}
    (hOwn : w.value ≠ none ∨ u.defaultFor? name = none)
    (hosted : Bool) :
    (w.token cascade hosted).effectiveValue? u = w.value := by
  have hName : (w.token cascade hosted).breakpoint = name := by
    simp [token, hBreakpoint]
  have hWritten : (w.token cascade hosted).value = w.value := rfl
  unfold effectiveValue?
  rw [hWritten, hName]
  cases hValue : w.value with
  | none => exact hOwn.resolve_left (fun h => h hValue)
  | some v => rfl

end Spelling

------------------------------------------------------------
-- Overrides of exactly one token
------------------------------------------------------------

/-
  The override of exactly a token is its last layer, and the
  token has all properties of it.
-/
theorem get?_declarations_of_exact
    {catalog : Catalog}
    {t : Token}
    {u : Utility}
    {properties : Properties}
    (hEntry :
      catalog.override? (t.exactPattern (t.effectiveValue? u)) =
        some properties) :
    (t.layers catalog u).getLast? = some (.concrete properties) ∧
    ∀ property x, properties.get? property = some x →
      (t.declarations catalog u).properties.get? property =
        some x := by
  constructor
  · rw [layers, hEntry]
    exact List.getLast?_concat
  · intro property x hGiven
    have hFirst :
        Source.give? catalog t u (t.effectiveValue? u) property
          (.override (t.exactPattern (t.effectiveValue? u))) =
            some x := by
      rw [Source.give?, Source.offer?, hEntry]
      exact hGiven
    rw [get?_declarations, sources_eq]
    change List.findSome? _ (_ :: _) = _
    rw [findSome?_cons_eq_or, hFirst, Option.some_or]

end Token

/-
  An override for a value with `=` in parentheses, and another
  one for all values of the key.
-/
def Config.boxes : Config where
  utilities := .ofList [("box", .box)]
  overrides := .ofList
    [("md-up:box=(a=b)", .ofList [("color", "teal")]),
      ("box=*", .ofList [("color", "black")])]

namespace Token.Spelling

/-
  The breakpoint, the key and the value of a token, without
  its qualifiers and its mark, write the pattern that is
  looked up last for the token, if it has a value or if there
  is no default for it. The properties under this pattern are
  its last layer, so that they stand over all others.

  If in a configuration no other text writes the pattern, then
  the properties under it are those configured for the text,
  with their sides changed in a right-to-left layout.
-/
theorem literal_overrides_are_found
    {cascade : Cascade}
    (hStops : ∀ stop ∈ cascade.stops, Unmarked stop.1)
    {w : Spelling}
    (hValid : w.Valid cascade)
    {name : String}
    (hBreakpoint : w.breakpoint = some name)
    (hKey : w.key ≠ "*")
    (hValue : w.value ≠ some "*")
    {catalog : Catalog}
    {u : Utility}
    (hUtility : catalog.utility? w.key = some u)
    (hOwn : w.value ≠ none ∨ u.defaultFor? name = none)
    (hosted : Bool) :
    let t := w.token cascade hosted
    let p := t.exactPattern (t.effectiveValue? u)
    let d := t.declarations catalog u
    read? cascade catalog hosted w.text = some t ∧
    Pattern.read? w.literal = .ok p ∧
    (∀ properties, catalog.override? p = some properties →
      (t.layers catalog u).getLast? = some (.concrete properties) ∧
      ∀ property x, properties.get? property = some x →
        d.properties.get? property = some x ∧
        d.isImportant property = w.important) ∧
    ∀ config built properties,
      Catalog.ofConfig config = .ok built →
      config.overrides.get? w.literal = some properties →
      (∀ other ∈ config.overrides.keys,
        Pattern.read? other = .ok p → other = w.literal) →
      built.override? p = some properties ∧
      built.flip.override? p = some properties.flip := by
  intro t p d
  have hNames : ∀ b ∈ cascade.breakpoints, Unmarked b.name :=
    fun b hb => unmarked_name hStops hb
  have hContains : catalog.contains w.key = true :=
    Option.isSome_iff_exists.2 ⟨u, hUtility⟩
  have hPattern :
      p = ⟨.exactly name, .exactly w.key, .ofOption w.value⟩ := by
    simp only [p, exactPattern, t,
      effectiveValue?_token hBreakpoint hOwn hosted]
    simp [token, hBreakpoint]
  have hRead : Pattern.read? w.literal = .ok p := by
    rw [hPattern]
    exact read?_literal hNames hValid hBreakpoint hKey hValue
  refine ⟨read?_text hNames hValid hContains hosted, hRead, ?_, ?_⟩
  · intro properties hEntry
    have hExact := get?_declarations_of_exact hEntry
    refine ⟨hExact.1, ?_⟩
    intro property x hGiven
    have hDeclared := hExact.2 property x hGiven
    refine ⟨hDeclared, ?_⟩
    rw [isImportant_declarations, OrderedMap.contains, hDeclared]
    rfl
  · intro config built properties hBuilt hText hOnly
    have hEntry :=
      Catalog.override?_of_only hBuilt hText hRead hOnly
    refine ⟨hEntry, ?_⟩
    rw [Catalog.override?_flip, hEntry]
    rfl

theorem literal_overrides_are_found_of_box :
    let cascade : Cascade :=
      ⟨[("sm", 576), ("md", 768)], by decide, by decide⟩
    let own : Properties := .ofList [("color", "teal")]
    let w : Spelling :=
      ⟨some "md-up", ["hover"], "box", some "(a=b)", true⟩
    let t := w.token cascade false
    w.text = "md-up:hover:box=(a=b)!" ∧
    w.literal = "md-up:box=(a=b)" ∧
    ∃ c u,
      Catalog.ofConfig Config.boxes = .ok c ∧
      c.utility? "box" = some u ∧
      read? cascade c false w.text = some t ∧
      (t.layers c u).getLast? = some (.concrete own) ∧
      (t.declarations c u).properties.get? "color" = some "teal" ∧
      (t.declarations c u).isImportant "color" = true := by
  intro cascade own w t
  have hStops : ∀ stop ∈ cascade.stops, Unmarked stop.1 := by decide
  have hValid : w.Valid cascade := {
    breakpoint := by decide
    segments := by decide
    first := by decide
    value := by
      intro v hValue
      cases hValue
      exact ⟨by decide, by decide,
        Or.inr ⟨"a=b", by decide, by decide⟩⟩
    mark := by decide }
  have hBuilt : ∃ c, Catalog.ofConfig Config.boxes = .ok c := ⟨_, rfl⟩
  rcases hBuilt with ⟨c, hBuilt⟩
  have hUtility : c.utility? w.key = some .box := by
    cases hBuilt
    decide
  have hOnly :
      ∀ other ∈ Config.boxes.overrides.keys,
        Pattern.read? other =
            .ok (t.exactPattern (t.effectiveValue? .box)) →
          other = w.literal := by
    decide
  rcases literal_overrides_are_found hStops hValid rfl (by decide)
      (by decide) hUtility (Or.inl (by decide)) false with
    ⟨hRead, _, hDeclared, hConfigured⟩
  have hEntry :=
    (hConfigured .boxes c own hBuilt (by decide) hOnly).1
  rcases hDeclared own hEntry with ⟨hLast, hAll⟩
  have hColor := hAll "color" "teal" (by decide)
  exact ⟨by decide, by decide, c, .box, hBuilt, hUtility, hRead, hLast,
    hColor.1, hColor.2⟩

end Token.Spelling

end AtomicCss
