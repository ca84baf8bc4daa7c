import AtomicCss.Batch.Render
import AtomicCss.Declarations.Layers
import AtomicCss.Proofs.Text.Spots
import AtomicCss.Token.Reader
import Mathlib.Data.List.Infix

/-
  This file proves how the importance of a property is
  written.

  The mark is left out wherever a value contains its text. So
  an important property is important on the page exactly if
  its value ends in a mark that stands outside strings and
  comments, or if it has none at all and closes them.

  Key definitions include:
    * `Render.mark`
    * `Render.Annotated`

  The main statements are:
    * `Render.value_eq`
    * `Render.annotated_append_iff`
    * `Render.importance_is_written_unless_the_mark_occurs`
-/

namespace AtomicCss.Render

------------------------------------------------------------
-- Marks
------------------------------------------------------------

/- The text that makes a declaration important. -/
def mark : List Char :=
  "!important".toList

/- Whether a text ends in a mark outside strings and comments. -/
def Annotated
    (cs : List Char) : Prop :=
  ∃ front, cs = front ++ mark ∧ (Text.spotAfter front).isOpen = true

theorem annotated_iff
    (cs : List Char) :
    Annotated cs ↔
      mark <:+ cs ∧
      (Text.spotAfter (cs.take (cs.length - mark.length))).isOpen =
        true := by
  constructor
  · rintro ⟨front, rfl, hOpen⟩
    refine ⟨List.suffix_append front mark, ?_⟩
    rwa [List.length_append, Nat.add_sub_cancel, List.take_left]
  · rintro ⟨⟨front, rfl⟩, hOpen⟩
    rw [List.length_append, Nat.add_sub_cancel, List.take_left]
      at hOpen
    exact ⟨front, rfl, hOpen⟩

instance
    (cs : List Char) :
    Decidable (Annotated cs) :=
  decidable_of_iff _ (annotated_iff cs).symm

/- Behind a text and a blank, a mark counts unless it is enclosed. -/
theorem annotated_append_iff
    (cs : List Char) :
    Annotated (cs ++ ' ' :: mark) ↔
      (Text.spotAfter cs).isEnclosed = false := by
  have hBlank :
      (Text.spotAfter (cs ++ [' '])).isOpen =
        !(Text.spotAfter cs).isEnclosed := by
    rw [Text.spotAfter_concat, Text.Spot.isOpen_next_blank]
  rw [← Bool.not_eq_true', ← hBlank, List.append_cons]
  constructor
  · rintro ⟨front, hSplit, hOpen⟩
    rwa [List.append_cancel_right hSplit]
  · exact fun hOpen => ⟨cs ++ [' '], rfl, hOpen⟩

------------------------------------------------------------
-- Values
------------------------------------------------------------

/- A value is marked exactly if it does not contain the mark. -/
theorem value_eq
    (important : Bool)
    (v : String) :
    value important v =
      if important = true ∧ ¬ mark <:+: v.toList then
        v ++ " !important"
      else
        v := by
  have hOccurs :
      Text.occurs "!important" v = true ↔ mark <:+: v.toList :=
    Text.isSome_cutAt_iff mark v.toList
  unfold value
  simp only [Bool.and_eq_true, Bool.not_eq_true', ← hOccurs,
    Bool.not_eq_true]

/- In the text of a rule each entry has its own declaration. -/
theorem declarations_append_cons
    {extensions : Extensions}
    {d : Declarations}
    {front back : List (String × String)}
    {e : String × String}
    (hEntry : d.properties.entries = front ++ e :: back) :
    declarations extensions d =
      String.join (front.map (declaration extensions d)) ++
        declaration extensions d e ++
        String.join (back.map (declaration extensions d)) := by
  rw [declarations, hEntry, List.map_append, List.map_cons,
    String.join_append, String.join_cons, String.append_assoc]

theorem declaration_of_no_extension
    {extensions : Extensions}
    {e : String × String}
    (hOwn : extensions.get? e.1 = none)
    (d : Declarations) :
    declaration extensions d e =
      e.1 ++ ":" ++ value (d.isImportant e.1) e.2 ++ ";" := by
  simp only [declaration, hOwn]

/-
  A property without an extension is written with its value,
  behind which the mark is put if the property is important
  and the value does not contain it. So the text ends in a
  mark of its own exactly if the value does, or if the value
  contains none and closes its strings and comments.
-/
theorem importance_is_written_unless_the_mark_occurs
    {extensions : Extensions}
    {d : Declarations}
    {front back : List (String × String)}
    {property v : String}
    (hEntry : d.properties.entries = front ++ (property, v) :: back)
    (hOwn : extensions.get? property = none) :
    ∃ shown : String,
      declarations extensions d =
        String.join (front.map (declaration extensions d)) ++
          (property ++ ":" ++ shown ++ ";") ++
          String.join (back.map (declaration extensions d)) ∧
      (d.isImportant property = false → shown = v) ∧
      (d.isImportant property = true →
        (shown = v ∨ shown = v ++ " !important") ∧
        (shown = v ↔ mark <:+: v.toList) ∧
        (Annotated shown.toList ↔
          if mark <:+: v.toList then
            Annotated v.toList
          else
            (Text.spotAfter v.toList).isEnclosed = false)) := by
  refine ⟨value (d.isImportant property) v, ?_, ?_, ?_⟩
  · rw [declarations_append_cons hEntry,
      declaration_of_no_extension hOwn d]
  · intro hPlain
    rw [value_eq, if_neg (by simp [hPlain])]
  · intro hImportant
    rw [value_eq]
    by_cases hOccurs : mark <:+: v.toList
    · simp [hOccurs]
    · have hMarked :
          (v ++ " !important").toList = v.toList ++ ' ' :: mark := by
        rw [String.toList_append]
        rfl
      have hNe : v ++ " !important" ≠ v := by
        intro hSame
        have hLength := congrArg String.length hSame
        simp at hLength
      rw [if_pos ⟨hImportant, hOccurs⟩, if_neg hOccurs, hMarked,
        annotated_append_iff]
      exact ⟨Or.inr rfl, iff_of_false hNe hOccurs, Iff.rfl⟩

theorem importance_is_written_unless_the_mark_occurs_of_margins :
    let extensions : Extensions :=
      .ofList [("inset", fun _ v => "top:" ++ v ++ ";")]
    let front := [("margin", "0 !important")]
    let back := [("inset", "0")]
    let v := "\"a\\\"b\""
    let d :=
      Declarations.uniform (.ofList (front ++ ("content", v) :: back))
        true
    d.properties.entries = front ++ ("content", v) :: back ∧
    extensions.get? "content" = none ∧
    ∃ shown : String,
      declarations extensions d =
        "margin:0 !important;" ++ ("content:" ++ shown ++ ";") ++
          "top:0 !important;" ∧
      (shown = v ∨ shown = v ++ " !important") ∧
      Annotated shown.toList := by
  intro extensions front back v d
  have hEntry :
      d.properties.entries = front ++ ("content", v) :: back := by
    decide
  have hOwn : extensions.get? "content" = none := rfl
  have hFront :
      String.join (front.map (declaration extensions d)) =
        "margin:0 !important;" := by
    decide
  have hBack :
      String.join (back.map (declaration extensions d)) =
        "top:0 !important;" := by
    decide
  rcases importance_is_written_unless_the_mark_occurs hEntry hOwn with
    ⟨shown, hText, _, hMarked⟩
  rw [hFront, hBack] at hText
  rcases hMarked (by decide) with ⟨hShown, _, hAnnotated⟩
  exact ⟨hEntry, hOwn, shown, hText, hShown,
    hAnnotated.2 (by decide)⟩

/- A mark within a string keeps a property from being important. -/
theorem quoted_mark_drops_importance :
    let cascade : Cascade :=
      ⟨[("sm", 576), ("md", 768)], by decide, by decide⟩
    let u : Utility := { template := some (.ofList [("content", "*")]) }
    let catalog : Catalog := { utilities := .ofList [("content", u)] }
    let v := "\"!important\""
    ∃ t d,
      Token.read? cascade catalog false ("content=(" ++ v ++ ")!") =
        some t ∧
      t.declarations catalog u = d ∧
      d.properties.entries = [("content", v)] ∧
      d.isImportant "content" = true ∧
      declarations ∅ d = "content:" ++ v ++ ";" ∧
      (∀ shown : String,
        declarations ∅ d = "content:" ++ shown ++ ";" →
          ¬ Annotated shown.toList) ∧
      Annotated (v ++ " !important").toList := by
  intro cascade u catalog v
  let t : Token :=
    ⟨"content=(" ++ v ++ ")!", "sm-up", [], "content",
      some ("(" ++ v ++ ")"), true, false, false⟩
  let d := Declarations.uniform (.ofList [("content", v)]) true
  have hText : declarations ∅ d = "content:" ++ v ++ ";" := by
    decide
  refine ⟨t, d, by decide, by decide, by decide, by decide, hText,
    ?_, by decide⟩
  intro shown hShown
  rw [hText, String.append_left_inj, String.append_right_inj] at hShown
  rw [← hShown]
  decide

end AtomicCss.Render
