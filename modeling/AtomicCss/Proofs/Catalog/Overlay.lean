import AtomicCss.Proofs.Catalog.Overrides

/-
  This file proves which overrides the catalog of an overlaid
  configuration has.

  Configurations are laid over each other by the texts of
  their overrides. A text that the base writes keeps its place
  there, and the other texts of the overlay follow in order.
  The catalog has for each pattern the properties of the last
  text that writes it. So a text that the base writes as well
  yields to each other spelling of its pattern that stands
  behind it.

  The main statements are:
    * `Pattern.lastText?_extend`
    * `Catalog.overlaid_overrides_apply_unless_written_before`
-/

namespace AtomicCss

------------------------------------------------------------
-- Last texts of extended maps
------------------------------------------------------------

/- An extended map has the new texts behind its own. -/
theorem Pattern.lastText?_extend
    {ν : Type}
    (p : Pattern)
    (base top : OrderedMap String ν) :
    p.lastText? (base.extend top).keys =
      (p.lastText?
        (top.keys.filter (fun t => t ∉ base.keys))).or
          (p.lastText? base.keys) := by
  rw [OrderedMap.extend, OrderedMap.keys_mergeWith, lastText?_append]

/- The new texts write a pattern if some text does that is new. -/
theorem Pattern.lastText?_new_eq_none_iff
    {p : Pattern}
    {base texts : List String} :
    p.lastText? (texts.filter (fun t => t ∉ base)) = none ↔
      ∀ text ∈ texts, read? text = .ok p → text ∈ base := by
  rw [lastText?_eq_none_iff]
  constructor
  · intro hNone text hText hRead
    by_contra hNew
    exact hNone text
      (List.mem_filter.2 ⟨hText, decide_eq_true hNew⟩) hRead
  · intro hOld text hText hRead
    rcases List.mem_filter.1 hText with ⟨hMem, hNew⟩
    exact of_decide_eq_true hNew (hOld text hMem hRead)

/-
  The overlay's last text of a pattern decides exactly if it
  is new, or it is the base's last one and the overlay has no
  new text of the pattern.
-/
theorem Pattern.lastText?_extend_eq_some_iff
    {ν : Type}
    {p : Pattern}
    {base top : OrderedMap String ν}
    {text : String}
    (hLast : p.lastText? top.keys = some text) :
    p.lastText? (base.extend top).keys = some text ↔
      (text ∈ base.keys →
        (∀ other ∈ top.keys,
          read? other = .ok p → other ∈ base.keys) ∧
        p.lastText? base.keys = some text) := by
  rw [lastText?_extend, ← lastText?_new_eq_none_iff]
  by_cases hOld : text ∈ base.keys
  · simp only [hOld, forall_const]
    cases hNew :
        p.lastText?
          (top.keys.filter (fun t => t ∉ base.keys)) with
    | none => simp
    | some other =>
        -- The other text is new, so it is not the present one.
        have hOther :=
          (List.mem_filter.1 (of_lastText? hNew).1).2
        have hNe : other ≠ text :=
          fun h => of_decide_eq_true hOther (h ▸ hOld)
        simp [hNe]
  · have hNew :
        p.lastText?
          (top.keys.filter (fun t => t ∉ base.keys)) =
            some text :=
      lastText?_filter hLast (decide_eq_true hOld)
    rw [hNew]
    simp [hOld]

------------------------------------------------------------
-- Overrides of an overlay
------------------------------------------------------------

namespace Catalog

/-
  For a pattern that the overlay writes, the catalog has the
  properties of one text: the overlay's last new one or else
  the base's last one, with the overlay's properties where it
  has some.

  They are those of the overlay's last entry if that is the
  entry's text. It is, unless the base writes that text too and
  another one stands behind it there or is new in the overlay.
-/
theorem overlaid_overrides_apply_unless_written_before
    {base top : Config}
    {c : Catalog}
    (hBuilt : ofConfig (base.overlay top) = .ok c)
    {p : Pattern}
    {last : String}
    (hLast : p.lastText? top.overrides.keys = some last) :
    ∃ text properties,
      (p.lastText?
        (top.overrides.keys.filter
          (fun t => t ∉ base.overrides.keys))).or
            (p.lastText? base.overrides.keys) = some text ∧
      (top.overrides.get? text).or
        (base.overrides.get? text) = some properties ∧
      c.override? p = some properties ∧
      (text = last →
        Entries.last? p top.patterns = some properties) ∧
      (text = last ↔
        (last ∈ base.overrides.keys →
          (∀ other ∈ top.overrides.keys,
            Pattern.read? other = .ok p →
              other ∈ base.overrides.keys) ∧
          p.lastText? base.overrides.keys = some last)) := by
  rcases Pattern.of_lastText? hLast with ⟨hMem, hRead⟩
  rcases (OrderedMap.mem_keys_iff_exists _ _).1 hMem with ⟨own, hOwn⟩
  let keys := (base.overrides.extend top.overrides).keys
  have hKey : last ∈ keys := by
    refine (OrderedMap.mem_keys_iff_exists _ _).2 ⟨own, ?_⟩
    rw [OrderedMap.get?_extend, hOwn, Option.some_or]
  have hSome : p.lastText? keys ≠ none :=
    fun hNone => Pattern.lastText?_eq_none_iff.1 hNone last hKey hRead
  rcases Option.ne_none_iff_exists'.1 hSome with ⟨text, hText⟩
  rcases (OrderedMap.mem_keys_iff_exists _ _).1
      (Pattern.of_lastText? hText).1 with
    ⟨properties, hProperties⟩
  have hOverride : c.override? p = some properties := by
    rw [override?_ofConfig hBuilt]
    exact (congrArg (Option.bind · _) hText).trans hProperties
  refine ⟨text, properties, ?_, ?_, hOverride, ?_, ?_⟩
  · exact (p.lastText?_extend _ _).symm.trans hText
  · exact (OrderedMap.get?_extend _ _ _).symm.trans hProperties
  · intro hSame
    rw [hSame, OrderedMap.get?_extend, hOwn] at hProperties
    rw [top.last?_patterns, hLast, Option.bind_some, hOwn,
      ← hProperties, Option.some_or]
  · rw [← Pattern.lastText?_extend_eq_some_iff hLast, hText,
      Option.some.injEq]

end Catalog

/- A configuration that sets the order for some patterns. -/
def Config.ordering
    (texts : List (String × String)) : Config where
  overrides :=
    .ofList (texts.map (fun e => (e.1, .ofList [("order", e.2)])))

/- The pattern of flexible displays at any breakpoint. -/
def Pattern.displayFlex : Pattern where
  breakpoint := .any
  key := .exactly "display"
  value := .exactly "flex"

namespace Catalog

/- A text that the base has no place for decides for its pattern. -/
theorem overlaid_overrides_apply_unless_written_before_of_new_text :
    ∃ c,
      ofConfig
        ((Config.ordering [("*:display=flex", "0")]).overlay
          (.ordering [("display=flex", "1")])) = .ok c ∧
      Pattern.displayFlex.lastText?
        (Config.ordering [("display=flex", "1")]).overrides.keys =
          some "display=flex" ∧
      c.override? .displayFlex = some (.ofList [("order", "1")]) := by
  have hLast :
      Pattern.displayFlex.lastText?
        (Config.ordering [("display=flex", "1")]).overrides.keys =
          some "display=flex" := by
    decide
  have hBuilt :
      ∃ c,
        ofConfig
          ((Config.ordering [("*:display=flex", "0")]).overlay
            (.ordering [("display=flex", "1")])) = .ok c :=
    ⟨_, rfl⟩
  rcases hBuilt with ⟨c, hBuilt⟩
  rcases overlaid_overrides_apply_unless_written_before hBuilt hLast
    with ⟨text, properties, -, -, hOverride, hOwn, hDecides⟩
  have hNew :
      "display=flex" ∉
        (Config.ordering [("*:display=flex", "0")]).overrides.keys := by
    decide
  have hEntry := hOwn (hDecides.2 (fun h => absurd h hNew))
  refine ⟨c, hBuilt, hLast, hOverride.trans ?_⟩
  rw [← hEntry]
  decide

/-
  The text that the base has a place for yields to the other
  one, though the overlay has it last.
-/
theorem repeated_text_yields_to_another_spelling :
    ∃ c,
      ofConfig
        ((Config.ordering [("*:display=flex", "0")]).overlay
          (.ordering
            [("display=flex", "1"), ("*:display=flex", "2")])) =
        .ok c ∧
      Entries.last? .displayFlex
        (Config.ordering
          [("display=flex", "1"), ("*:display=flex", "2")]).patterns =
        some (.ofList [("order", "2")]) ∧
      c.override? .displayFlex = some (.ofList [("order", "1")]) ∧
      c.override? .displayFlex ≠ some (.ofList [("order", "2")]) := by
  refine ⟨_, rfl, ?_⟩
  decide

end Catalog

end AtomicCss
