import AtomicCss.Declarations.Payload
import Mathlib.Data.List.Basic

/-
  This file proves what a template becomes when a payload
  fills it: its values are cut at their slots, and what the
  payload stands for joins the parts.

  Key definitions include:
    * `Payload.StandsFor`

  The main statements are:
    * `Text.fillText_eq_intercalate`
    * `Text.fillText_eq_map`
    * `Payload.standsFor_iff`
    * `Payload.entries_fill`
-/

namespace AtomicCss

------------------------------------------------------------
-- Slots
------------------------------------------------------------

namespace Text

/- To fill slots is to join what stands between them. -/
theorem fillSlots_eq_intercalate
    (slot : Char)
    (fill cs : List Char) :
    fillSlots slot fill cs = fill.intercalate (cs.splitOn slot) := by
  induction cs with
  | nil => simp [fillSlots, List.intercalate]
  | cons c rest ih =>
      rcases List.exists_cons_of_ne_nil
          (List.splitOn_ne_nil slot rest) with
        ⟨first, others, hParts⟩
      have hFill :
          fillSlots slot fill (c :: rest) =
            (if c = slot then fill else [c]) ++
              fillSlots slot fill rest :=
        List.flatMap_cons
      rw [hFill, ih, List.splitOn_cons_eq_if_modifyHead, hParts]
      by_cases hSlot : c = slot
      · rw [if_pos hSlot, if_pos (beq_iff_eq.2 hSlot),
          List.intercalate_cons_cons, List.nil_append]
      · rw [if_neg hSlot, if_neg (mt beq_iff_eq.1 hSlot),
          List.modifyHead_cons]
        cases others with
        | nil => simp [List.intercalate]
        | cons second others =>
            simp [List.intercalate_cons_cons]

theorem fillText_eq_intercalate
    (slot : Char)
    (fill text : String) :
    fillText slot fill text =
      String.intercalate fill
        ((text.toList.splitOn slot).map String.ofList) := by
  have hParts :
      ((text.toList.splitOn slot).map String.ofList).map
        String.toList = text.toList.splitOn slot := by
    simp [List.map_map, Function.comp_def]
  apply String.toList_inj.1
  rw [fillText, String.toList_ofList, fillSlots_eq_intercalate,
    String.toList_intercalate, hParts]

/- A slot that is filled with one character becomes it. -/
theorem fillText_eq_map
    (slot c : Char)
    (text : String) :
    fillText slot (String.singleton c) text =
      String.ofList
        (text.toList.map (fun d => if d = slot then c else d)) := by
  rw [fillText, fillSlots, String.toList_singleton,
    List.map_eq_flatMap]
  congr 2
  funext d
  split <;> rfl

end Text

------------------------------------------------------------
-- Payloads
------------------------------------------------------------

namespace Payload

/-
  What a payload stands for: itself under `content`, rows in
  quotes under the keys of grid areas, and words elsewhere.
-/
inductive StandsFor
    (key payload : String) : String → Prop where
  | itself
      (hContent : key = "content") :
      StandsFor key payload payload
  /- Bars separate rows and underscores their cells. -/
  | rows
      (hGrid : key ∈ ["grid-template-areas", "grid-areas"]) :
      StandsFor key payload
        (String.intercalate " " ((payload.toList.splitOn '|').map
          (fun row =>
            "\"" ++
              String.ofList
                (row.map (fun c => if c = '_' then ' ' else c)) ++
              "\"")))
  /- Bars separate words. -/
  | words
      (hContent : key ≠ "content")
      (hGrid : key ∉ ["grid-template-areas", "grid-areas"]) :
      StandsFor key payload
        (String.ofList
          (payload.toList.map (fun c => if c = '|' then ' ' else c)))

theorem expand_of_mem_gridKeys
    {key : String}
    (hGrid : key ∈ gridKeys)
    (payload : String) :
    expand key payload =
      String.intercalate " "
        ((Text.splitAt '|' payload).map gridRow) := by
  have hOther : key ≠ "content" := by
    rintro rfl
    exact absurd hGrid (by decide)
  rw [expand, if_neg hOther, if_pos hGrid]

theorem gridRow_ofList
    (row : List Char) :
    gridRow (String.ofList row) =
      "\"" ++
        String.ofList
          (row.map (fun c => if c = '_' then ' ' else c)) ++
        "\"" := by
  change "\"" ++ Text.fillText '_' (String.singleton ' ') _ ++ _ = _
  rw [Text.fillText_eq_map, String.toList_ofList]

/- A payload stands for nothing but what it expands to. -/
theorem StandsFor.eq_expand
    {key payload filling : String}
    (h : StandsFor key payload filling) :
    filling = expand key payload := by
  cases h with
  | itself hContent => rw [expand, if_pos hContent]
  | rows hGrid =>
      rw [expand_of_mem_gridKeys hGrid, Text.splitAt, List.map_map]
      congr 2
      funext row
      exact (gridRow_ofList row).symm
  | words hContent hGrid =>
      have hKey : key ∉ gridKeys := hGrid
      rw [expand, if_neg hContent, if_neg hKey]
      exact (Text.fillText_eq_map '|' ' ' payload).symm

/- So under each key it stands for exactly one text. -/
theorem standsFor_iff
    {key payload filling : String} :
    StandsFor key payload filling ↔
      filling = expand key payload := by
  refine ⟨StandsFor.eq_expand, ?_⟩
  rintro rfl
  by_cases hContent : key = "content"
  · have h : StandsFor key payload _ := .itself hContent
    exact h.eq_expand ▸ h
  · by_cases hGrid : key ∈ ["grid-template-areas", "grid-areas"]
    · have h : StandsFor key payload _ := .rows hGrid
      exact h.eq_expand ▸ h
    · have h : StandsFor key payload _ := .words hContent hGrid
      exact h.eq_expand ▸ h

/- A template is filled value by value. -/
theorem entries_fill
    (template : Properties)
    (key payload : String) :
    (fill template key payload).entries =
      template.entries.map (fun e =>
        (e.1, String.intercalate (expand key payload)
          ((e.2.toList.splitOn '*').map String.ofList))) := by
  change template.entries.map _ = _
  apply List.map_congr_left
  intro e _
  rw [Text.fillText_eq_intercalate]

end Payload

end AtomicCss
