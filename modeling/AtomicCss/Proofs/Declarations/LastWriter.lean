import AtomicCss.Proofs.Declarations
import AtomicCss.Proofs.Merging

/-
  This file proves what is declared after declarations were
  merged one by one: each property as the last of them that
  has it declares it, with its importance.

  A merge writes value and importance together. So an
  important name that is no property has no effect on what
  it is laid over, and what is important was declared.

  Key definitions include:
    * `Declarations.Proper`

  The main statements are:
    * `Declarations.properties_foldl_overlay`
    * `Declarations.exists_last_writer`
    * `Declarations.Proper.foldl_overlay`
    * `Declarations.isImportant_overlay_assoc`
    * `Declarations.merging_keeps_the_last_writer`
-/

namespace AtomicCss.Declarations

------------------------------------------------------------
-- Properties
------------------------------------------------------------

theorem mem_keys_overlay
    (a b : Declarations)
    (property : String) :
    property ∈ (a.overlay b).properties.keys ↔
      property ∈ b.properties.keys ∨ property ∈ a.properties.keys := by
  simp only [OrderedMap.mem_keys_iff_get?_ne_none, get?_overlay,
    ne_eq, Option.or_eq_none_iff, not_and_or]

/- Merged properties are those of all entries in a row. -/
theorem properties_foldl_overlay
    (ds : List Declarations) :
    (ds.foldl overlay empty).properties =
      OrderedMap.ofList (ds.flatMap (·.properties.entries)) := by
  induction ds using List.reverseRecOn with
  | nil => rfl
  | append_singleton rest d ih =>
      rw [List.foldl_append, List.foldl_cons, List.foldl_nil,
        properties_overlay, ih, List.flatMap_append,
        List.flatMap_singleton, OrderedMap.ofList_append,
        OrderedMap.ofList_entries]

/- So they stand in the order in which they first occur. -/
theorem keys_foldl_overlay
    (ds : List Declarations) :
    (ds.foldl overlay empty).properties.keys =
      (ds.flatMap (·.properties.keys)).eraseDups := by
  rw [properties_foldl_overlay, OrderedMap.keys_ofList,
    List.map_flatMap]
  rfl

------------------------------------------------------------
-- Last writers
------------------------------------------------------------

theorem declared?_eq_some_iff
    {d : Declarations}
    {property value : String}
    {important : Bool} :
    d.declared? property = some (value, important) ↔
      d.properties.get? property = some value ∧
      d.isImportant property = important := by
  simp [declared?]

theorem declared?_eq_none_iff
    {d : Declarations}
    {property : String} :
    d.declared? property = none ↔ property ∉ d.properties.keys := by
  rw [declared?, Option.map_eq_none_iff,
    OrderedMap.mem_keys_iff_get?_ne_none, not_not]

/- A merged property is as its last writer declares it. -/
theorem exists_last_writer
    {ds : List Declarations}
    {property : String}
    (hKey : property ∈ (ds.foldl overlay empty).properties.keys) :
    ∃ before last later,
      ds = before ++ last :: later ∧
      property ∈ last.properties.keys ∧
      (∀ d ∈ later, property ∉ d.properties.keys) ∧
      (ds.foldl overlay empty).properties.get? property =
        last.properties.get? property ∧
      (ds.foldl overlay empty).isImportant property =
        last.isImportant property := by
  have hNe :
      (ds.foldl overlay empty).declared? property ≠ none :=
    fun hNone => declared?_eq_none_iff.1 hNone hKey
  have hMerged := declared?_foldl_overlay property ds empty
  rcases Option.ne_none_iff_exists'.1 hNe with
    ⟨⟨value, important⟩, hEntry⟩
  have hNothing : empty.declared? property = none := rfl
  rw [hEntry, hNothing, Option.or_none] at hMerged
  rcases exists_of_findSome?_reverse hMerged.symm with
    ⟨before, last, later, hSplit, hLast, hLater⟩
  have hLastKey : property ∈ last.properties.keys := by
    by_contra hNot
    rw [declared?_eq_none_iff.2 hNot] at hLast
    cases hLast
  rcases declared?_eq_some_iff.1 hEntry with ⟨hValue, hMark⟩
  rcases declared?_eq_some_iff.1 hLast with ⟨hLastValue, hLastMark⟩
  exact ⟨before, last, later, hSplit, hLastKey,
    fun d hd => declared?_eq_none_iff.1 (hLater d hd),
    hValue.trans hLastValue.symm, hMark.trans hLastMark.symm⟩

------------------------------------------------------------
-- Importance
------------------------------------------------------------

/- Whether all that is important is declared. -/
def Proper
    (d : Declarations) : Prop :=
  ∀ property,
    d.isImportant property = true → property ∈ d.properties.keys

/- Names without a value are not carried over by a merge. -/
theorem Proper.overlay
    {a : Declarations}
    (hProper : a.Proper)
    (b : Declarations) :
    (a.overlay b).Proper := by
  intro property hImportant
  rw [isImportant_overlay] at hImportant
  rw [mem_keys_overlay]
  by_cases hAbove : property ∈ b.properties.keys
  · exact Or.inl hAbove
  · rw [if_neg hAbove] at hImportant
    exact Or.inr (hProper property hImportant)

theorem Proper.foldl_overlay
    {d : Declarations}
    (hProper : d.Proper)
    (ds : List Declarations) :
    (ds.foldl Declarations.overlay d).Proper := by
  induction ds generalizing d with
  | nil => exact hProper
  | cons a rest ih => exact ih (hProper.overlay a)

theorem proper_empty :
    empty.Proper := by
  intro property hImportant
  cases hImportant

/- Importance does not depend on what is merged first. -/
theorem isImportant_overlay_assoc
    (a b c : Declarations)
    (property : String) :
    ((a.overlay b).overlay c).isImportant property =
      (a.overlay (b.overlay c)).isImportant property := by
  simp only [isImportant_overlay, mem_keys_overlay]
  by_cases hLast : property ∈ c.properties.keys
  · simp [hLast]
  · by_cases hMiddle : property ∈ b.properties.keys <;>
      simp [hLast, hMiddle]

/-
  Merged into the empty one, declarations list their
  properties in order of first occurrence, each as its last
  writer declares it. Nothing else is important. Merging in a
  row is merging together.
-/
theorem merging_keeps_the_last_writer
    (ds : List Declarations)
    (a b c : Declarations) :
    let d := ds.foldl overlay empty
    d.properties.keys =
      (ds.flatMap (·.properties.keys)).eraseDups ∧
    (∀ property ∈ d.properties.keys,
      ∃ before last later,
        ds = before ++ last :: later ∧
        property ∈ last.properties.keys ∧
        (∀ x ∈ later, property ∉ x.properties.keys) ∧
        d.properties.get? property = last.properties.get? property ∧
        d.isImportant property = last.isImportant property) ∧
    (∀ property,
      d.isImportant property = true → property ∈ d.properties.keys) ∧
    ((a.overlay b).overlay c).properties =
      (a.overlay (b.overlay c)).properties ∧
    ∀ property,
      ((a.overlay b).overlay c).isImportant property =
        (a.overlay (b.overlay c)).isImportant property := by
  refine ⟨keys_foldl_overlay ds, fun _ => exists_last_writer,
    proper_empty.foldl_overlay ds, ?_, isImportant_overlay_assoc a b c⟩
  simp only [properties_overlay, OrderedMap.extend_assoc]

theorem merging_keeps_the_last_writer_of_colors :
    let a : Declarations :=
      { properties := .ofList [("color", "red"), ("margin", "0")]
        important := OrderedSet.ofList ["margin", "border"] }
    let b : Declarations :=
      { properties := .ofList [("border", "none"), ("color", "blue")]
        important := OrderedSet.ofList ["color", "padding"] }
    let c := uniform (.ofList [("padding", "0"), ("color", "teal")]) false
    let d := [a, b].foldl overlay empty
    d.properties.keys = ["color", "margin", "border"] ∧
    "color" ∈ d.properties.keys ∧
    (∃ before last later,
      [a, b] = before ++ last :: later ∧
      "color" ∈ last.properties.keys ∧
      (∀ x ∈ later, "color" ∉ x.properties.keys) ∧
      d.properties.get? "color" = last.properties.get? "color" ∧
      d.isImportant "color" = last.isImportant "color") ∧
    d.isImportant "margin" = true ∧
    "margin" ∈ d.properties.keys ∧
    d.isImportant "border" = false ∧
    ((a.overlay b).overlay c).properties =
      (a.overlay (b.overlay c)).properties ∧
    ((a.overlay b).overlay c).isImportant "color" =
      (a.overlay (b.overlay c)).isImportant "color" := by
  intro a b c d
  rcases merging_keeps_the_last_writer [a, b] a b c with
    ⟨hKeys, hWriter, hProper, hValues, hMarks⟩
  have hColor : "color" ∈ d.properties.keys := by
    decide
  exact ⟨hKeys.trans (by decide), hColor, hWriter "color" hColor,
    by decide, hProper "margin" (by decide), by decide, hValues,
    hMarks "color"⟩

end AtomicCss.Declarations
