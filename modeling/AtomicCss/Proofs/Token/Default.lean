import AtomicCss.Proofs.Token.Identifier
import AtomicCss.Proofs.Token.Precedence

/-
  This file proves what a token without a value stands for if
  its utility has a default: for the token that is written
  with the default as its value, but with no template.

  The value of a token is its own or the default, wherever a
  value is looked up. The payload is that of the own value
  only. So a default in parentheses fills no template.

  Key definitions include:
    * `Token.withValue`

  The main statements are:
    * `Token.read?_withValue`
    * `Token.declarations_of_default`
    * `Token.get?_declarations_withValue`
    * `Token.default_stands_for_value_without_template`
-/

namespace AtomicCss.Token

------------------------------------------------------------
-- Writing a value
------------------------------------------------------------

/- A text with a value in front of its mark. -/
def withValue
    (text value : String) : String :=
  let (body, important) := cutImportant text
  body ++ ("=" ++ value) ++ (if important then "!" else "")

section Writing

variable {value : String}

theorem cutImportant_withValue
    (hMark : value.toList.getLast? ≠ some '!')
    (text : String) :
    cutImportant (withValue text value) =
      ((cutImportant text).1 ++ ("=" ++ value),
        (cutImportant text).2) := by
  unfold withValue
  rcases cutImportant text with ⟨body, important⟩
  cases important with
  | true => exact cutImportant_mark _
  | false =>
      have hBody :
          (body ++ ("=" ++ value)).toList.getLast? ≠ some '!' := by
        simp only [String.toList_append, List.getLast?_append]
        cases hLast : value.toList.getLast? with
        | none => simp
        | some c => simpa [hLast] using hMark
      dsimp only
      rw [if_neg Bool.false_ne_true, String.append_empty]
      exact cutImportant_of_not_mark hBody

/- A value without white space puts none at the ends. -/
theorem bare_withValue
    {text : String}
    (hText : Text.Bare text.toList)
    (hSolid : Text.Solid value) :
    Text.Bare (withValue text value).toList := by
  rcases exists_mark text with ⟨marks, hMarks, _⟩
  rw [hMarks] at hText
  unfold withValue
  rcases hCut : cutImportant text with ⟨body, important⟩
  rw [hCut] at hText
  dsimp only at hText ⊢
  generalize hMark : (if important then "!" else "") = mark
  have hWritten :
      (body ++ ("=" ++ value) ++ mark).toList =
        body.toList ++ '=' :: (value.toList ++ mark.toList) := by
    simp only [String.toList_append, List.append_assoc]
    rfl
  have hBehind :
      ∀ c ∈ '=' :: (value.toList ++ mark.toList),
        Text.isBlank c = false := by
    intro c hc
    rcases List.mem_cons.1 hc with rfl | hc
    · decide
    · rcases List.mem_append.1 hc with hValue | hc
      · exact hSolid c hValue
      · have hPlain : Text.Solid (if important then "!" else "") := by
          cases important <;> decide
        exact hPlain c (hMark ▸ hc)
  rw [hWritten]
  constructor
  · intro c hc
    cases hBody : body.toList with
    | nil =>
        rw [hBody] at hc
        exact hBehind c (List.mem_of_mem_head? hc)
    | cons d rest =>
        rw [hBody] at hc hText
        exact hText.1 c hc
  · intro c hc
    rw [List.getLast?_append_of_ne_nil _ (List.cons_ne_nil _ _)] at hc
    exact hBehind c (List.mem_of_getLast? hc)

end Writing

------------------------------------------------------------
-- Reading it
------------------------------------------------------------

/-
  A token whose text has neither separators of values nor
  parentheses has no value. With one written it is read as
  the same token with that value.
-/
theorem read?_withValue
    {cascade : Cascade}
    {catalog : Catalog}
    {hosted : Bool}
    {text : String}
    {t : Token}
    (hRead : read? cascade catalog hosted text = some t)
    (hPlain : ∀ c ∈ t.raw.toList, c ≠ '=' ∧ c ≠ '(' ∧ c ≠ ')')
    {value : String}
    (hNe : value ≠ "")
    (hSolid : Text.Solid value)
    (hMark : value.toList.getLast? ≠ some '!')
    (hEnclosed : Clause.Enclosed value.toList) :
    t.value = none ∧
    read? cascade catalog hosted (withValue t.raw value) =
      some
        { t with
          raw := withValue t.raw value
          value := some value } := by
  have hRaw := raw_of_read? hRead
  rw [hRaw] at hPlain ⊢
  generalize hText : Text.trimmed text = raw at hPlain
  have hBody :
      ∀ c ∈ (cutImportant raw).1.toList,
        c ≠ '=' ∧ c ≠ '(' ∧ c ≠ ')' := by
    rcases exists_mark raw with ⟨marks, hMarks, _⟩
    rw [hMarks] at hPlain
    exact fun c hc => hPlain c (List.mem_append_left _ hc)
  have hBare : Text.Bare (withValue raw value).toList := by
    apply bare_withValue _ hSolid
    rw [← hText, Text.trimmed, String.toList_ofList]
    exact Text.bare_trim _
  have hClause :
      Clause.ofText (cutImportant raw).1 =
        ⟨(cutImportant raw).1, none⟩ :=
    Clause.ofText_of_not_mem (fun h => (hBody _ h).1 rfl)
  have hWritten :
      Clause.ofText ((cutImportant raw).1 ++ ("=" ++ value)) =
        ⟨(cutImportant raw).1, some value⟩ :=
    Clause.ofText_separator (fun c hc => (hBody c hc).2) hNe hEnclosed
  unfold read? at hRead ⊢
  rw [hText] at hRead
  rw [Text.trimmed_of_bare hBare]
  simp only [cutImportant_withValue hMark, hClause, hWritten]
    at hRead ⊢
  split at hRead
  · cases hRead
  · rename_i key hKey
    split at hRead
    · rename_i hContains
      cases hRead
      simp only [hContains, if_true, and_self]
    · cases hRead

------------------------------------------------------------
-- Resolving it
------------------------------------------------------------

section Resolving

variable {t : Token} {u : Utility}

/- Without a payload a template makes no difference. -/
theorem declarations_without_template
    (hPlain : t.payload? = none)
    (catalog : Catalog) :
    t.declarations catalog { u with template := none } =
      t.declarations catalog u := by
  have hFilled :
      ∀ v : Utility, t.filledTemplate? v = none := by
    intro v
    rw [filledTemplate?_eq, hPlain]
    rfl
  have hLayers :
      t.layers catalog { u with template := none } =
        t.layers catalog u := by
    simp only [layers, hFilled, effectiveValue?]
    rfl
  rw [declarations, declarations, resolve, resolve, hLayers]

variable {value : String}
variable (hNone : t.value = none)
variable (hDefault : t.effectiveValue? u = some value)

include hNone

theorem payload?_of_no_value :
    t.payload? = none := by
  rw [payload?, hNone]
  rfl

include hDefault

/-
  A default is looked up wherever a written value is. Only
  the template is filled for the written one alone.
-/
theorem declarations_of_default
    (catalog : Catalog)
    (raw : String) :
    let w : Token := { t with raw := raw, value := some value }
    t.declarations catalog u =
      w.declarations catalog { u with template := none } := by
  intro w
  have hFilled : t.filledTemplate? u = none := by
    rw [filledTemplate?_eq, payload?_of_no_value hNone]
    rfl
  have hOther : w.filledTemplate? { u with template := none } = none := by
    rw [filledTemplate?_eq]
    cases w.payload? <;> rfl
  have hValue :
      w.effectiveValue? { u with template := none } = some value :=
    rfl
  have hLayers :
      t.layers catalog u =
        w.layers catalog { u with template := none } := by
    simp only [layers, hFilled, hOther, hDefault, hValue]
    rfl
  rw [declarations, declarations, resolve, resolve, hLayers]

/-
  So the written value adds what the template gives, below
  the override of exactly the token.
-/
theorem get?_declarations_withValue
    (catalog : Catalog)
    (raw property : String) :
    let w : Token := { t with raw := raw, value := some value }
    let give := Source.give? catalog w u (some value) property
    (w.declarations catalog u).properties.get? property =
      (give (.override (t.exactPattern (some value)))).or
        ((give .template).or
          ((t.declarations catalog u).properties.get? property)) := by
  intro w give
  have hPayload := payload?_of_no_value hNone
  have hValue : w.effectiveValue? u = some value :=
    rfl
  let old := Source.give? catalog t u (some value) property
  let lower : List Source :=
    [.value] ++
      (t.openPatterns (some value)).reverse.map .override ++
        [.common]
  have hLower : lower.findSome? give = lower.findSome? old := by
    simp only [lower, List.findSome?_append, List.findSome?_map]
    rfl
  have hTemplate : old .template = none := by
    simp [old, Source.give?, Source.offer?, hPayload]
  have hOld :
      (t.declarations catalog u).properties.get? property =
        (old (.override (t.exactPattern (some value)))).or
          (lower.findSome? old) := by
    rw [get?_declarations, hDefault, sources_eq]
    change (_ :: _ :: lower).findSome? old = _
    rw [findSome?_cons_eq_or, findSome?_cons_eq_or, hTemplate,
      Option.none_or]
  have hNew :
      (w.declarations catalog u).properties.get? property =
        (give (.override (t.exactPattern (some value)))).or
          ((give .template).or (lower.findSome? give)) := by
    rw [get?_declarations, hValue, sources_eq]
    change (_ :: _ :: lower).findSome? give = _
    rw [findSome?_cons_eq_or, findSome?_cons_eq_or]
    rfl
  have hExact :
      old (.override (t.exactPattern (some value))) =
        give (.override (t.exactPattern (some value))) :=
    rfl
  rw [hNew, hOld, hLower, hExact]
  cases give (.override (t.exactPattern (some value))) <;> simp

end Resolving

------------------------------------------------------------
-- Defaults
------------------------------------------------------------

/-
  A token without a value declares what it declares with the
  default of its utility written as the value, in the utility
  without its template. Hence both declare the same where the
  default has no payload, or where there is no template. In
  all other cases the written default adds what its payload
  makes of the template: each property of that has this value
  unless the override of exactly the token has the property.
-/
theorem default_stands_for_value_without_template
    {cascade : Cascade}
    {catalog : Catalog}
    {hosted : Bool}
    {text : String}
    {t : Token}
    (hRead : read? cascade catalog hosted text = some t)
    (hPlain : ∀ c ∈ t.raw.toList, c ≠ '=' ∧ c ≠ '(' ∧ c ≠ ')')
    {u : Utility}
    {value : String}
    (hDefault :
      (u.defaults.get? t.breakpoint).or (u.defaults.get? "*") =
        some value)
    (hNe : value ≠ "")
    (hSolid : Text.Solid value)
    (hMark : '!' ∉ value.toList)
    (hEnclosed : Clause.Enclosed value.toList) :
    let w : Token :=
      { t with
        raw := withValue t.raw value
        value := some value }
    read? cascade catalog hosted (withValue t.raw value) = some w ∧
    t.declarations catalog u =
      w.declarations catalog { u with template := none } ∧
    (w.isParametric = false ∨ u.template = none →
      t.declarations catalog u = w.declarations catalog u) ∧
    ∀ property,
      let give := Source.give? catalog w u (some value) property
      (w.declarations catalog u).properties.get? property =
        (give (.override (w.exactPattern (some value)))).or
          ((give .template).or
            ((t.declarations catalog u).properties.get?
              property)) := by
  intro w
  have hLast : value.toList.getLast? ≠ some '!' :=
    fun h => hMark (List.mem_of_getLast? h)
  rcases read?_withValue hRead hPlain hNe hSolid hLast hEnclosed with
    ⟨hNone, hWritten⟩
  have hValue : t.effectiveValue? u = some value := by
    rw [effectiveValue?_eq, hNone, Option.none_or, hDefault]
  have hSame := declarations_of_default hNone hValue catalog w.raw
  refine ⟨hWritten, hSame, ?_,
    get?_declarations_withValue hNone hValue catalog w.raw⟩
  rintro (hNoPayload | hNoTemplate)
  · have hPayload : w.payload? = none := by
      simpa [isParametric] using hNoPayload
    exact hSame.trans (declarations_without_template hPayload catalog)
  · have hUtility : { u with template := none } = u := by
      rw [← hNoTemplate]
    rw [hUtility] at hSame
    exact hSame

theorem default_stands_for_value_without_template_of_boxes :
    let cascade : Cascade :=
      ⟨[("sm", 576), ("md", 768)], by decide, by decide⟩
    ∃ t,
      read? cascade .boxes false "md-up:hover:box!" = some t ∧
      t.value = none ∧
      (t.declarations .boxes .box).isEmpty = false ∧
      let text := withValue t.raw "a"
      let w : Token := { t with raw := text, value := some "a" }
      text = "md-up:hover:box=a!" ∧
      read? cascade .boxes false text = some w ∧
      t.declarations .boxes .box = w.declarations .boxes .box := by
  intro cascade
  let t : Token :=
    ⟨"md-up:hover:box!", "md-up", ["hover"], "box", none, true,
      false, true⟩
  have hRead :
      read? cascade .boxes false "md-up:hover:box!" = some t := by
    decide
  have hDefault :
      (Utility.box.defaults.get? t.breakpoint).or
        (Utility.box.defaults.get? "*") = some "a" := by
    decide
  have hPlain :
      t.raw.toList.all (fun c => c ≠ '=' ∧ c ≠ '(' ∧ c ≠ ')') =
        true := by
    decide
  rcases default_stands_for_value_without_template hRead
      (fun c hc => of_decide_eq_true
        (List.all_eq_true.1 hPlain c hc))
      hDefault (by decide) (by decide) (by decide) (by decide) with
    ⟨hWritten, _, hSame, _⟩
  exact ⟨t, hRead, rfl, by decide, by decide, hWritten,
    hSame (Or.inl (by decide))⟩

/- A default in parentheses fills no template, the value does. -/
theorem parenthesized_default_fills_no_template :
    let cascade : Cascade :=
      ⟨[("sm", 576), ("md", 768)], by decide, by decide⟩
    let u : Utility :=
      { defaults := .ofList [("*", "(5px)")]
        template := some (.ofList [("width", "*")]) }
    let catalog : Catalog := { utilities := .ofList [("width", u)] }
    ∃ t w,
      read? cascade catalog false "width" = some t ∧
      catalog.utility? t.key = some u ∧
      u.defaultFor? t.breakpoint = some "(5px)" ∧
      Text.Solid "(5px)" ∧
      '!' ∉ "(5px)".toList ∧
      Clause.Enclosed "(5px)".toList ∧
      withValue "width" "(5px)" = "width=(5px)" ∧
      read? cascade catalog false "width=(5px)" = some w ∧
      t.declarations catalog u = .empty ∧
      w.declarations catalog u =
        ⟨.ofList [("width", "5px")], ∅⟩ := by
  intro cascade u catalog
  let t : Token :=
    ⟨"width", "sm-up", [], "width", none, false, false, false⟩
  let w : Token :=
    ⟨"width=(5px)", "sm-up", [], "width", some "(5px)", false, false,
      false⟩
  refine ⟨t, w, by decide, rfl, rfl, by decide, by decide, by decide,
    by decide, by decide, by decide, by decide⟩

end AtomicCss.Token
