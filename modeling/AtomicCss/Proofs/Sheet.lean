import AtomicCss.Proofs.Cascade
import AtomicCss.Session.Run
import Mathlib.Data.List.Induction

/-
  This file proves what a sheet holds after texts were
  appended to it under the breakpoints of one cascade: at each
  breakpoint its own texts in order, and no other section.

  Key definitions include:
    * `Text.joined?`
    * `Section.ofTexts`
    * `Chunk.textsAt`

  The main statements are:
    * `Section.append_ofTexts`
    * `Section.find?_ofTexts`
    * `Sheet.sections_appendAll`
    * `Sheet.get?_of_sections`
-/

namespace AtomicCss

------------------------------------------------------------
-- Texts put together
------------------------------------------------------------

/- Texts put together, if there are any. -/
def Text.joined? : List String → Option String
  | [] => none
  | texts => some (String.join texts)

theorem Text.joined?_append_singleton
    (texts : List String)
    (text : String) :
    joined? (texts ++ [text]) =
      some ((joined? texts).getD "" ++ text) := by
  cases texts with
  | nil => simp [joined?]
  | cons t rest => simp [joined?, String.append_assoc]

------------------------------------------------------------
-- Sections in cascade order
------------------------------------------------------------

namespace Section

/- The sections of breakpoints, for those that have a text. -/
def ofTexts
    (text? : Breakpoint → Option String)
    (bs : List Breakpoint) : List Section :=
  bs.filterMap (fun b => (text? b).map (Section.mk b.rank b.name))

theorem rank_lt_of_mem_ofTexts
    {text? : Breakpoint → Option String}
    {bs : List Breakpoint}
    {n : Nat}
    (hAbove : ∀ a ∈ bs, n < a.rank) :
    ∀ s ∈ ofTexts text? bs, n < s.rank := by
  intro s hs
  rcases List.mem_filterMap.1 hs with ⟨a, ha, hText⟩
  rcases Option.map_eq_some_iff.1 hText with ⟨_, _, rfl⟩
  exact hAbove a ha

/- A section of the lowest rank is put in front. -/
theorem append_of_rank_lt
    {b : Breakpoint}
    {css : String}
    {sections : List Section}
    (hAbove : ∀ s ∈ sections, b.rank < s.rank) :
    append b css sections = ⟨b.rank, b.name, css⟩ :: sections := by
  cases sections with
  | nil => rfl
  | cons s rest =>
      rw [append, if_pos (hAbove s List.mem_cons_self)]

/-
  Appending for a breakpoint changes its own text only. The
  induction is on the cascade, whose ranks increase.
-/
theorem append_ofTexts
    (text? : Breakpoint → Option String)
    {b : Breakpoint}
    (css : String)
    {bs : List Breakpoint}
    (hSorted : bs.Pairwise (fun a b => a.rank < b.rank))
    (hMem : b ∈ bs) :
    append b css (ofTexts text? bs) =
      ofTexts
        (fun a =>
          if a = b then some ((text? b).getD "" ++ css)
          else text? a)
        bs := by
  induction bs with
  | nil => exact absurd hMem List.not_mem_nil
  | cons a rest ih =>
      rcases List.pairwise_cons.1 hSorted with ⟨hAbove, hRest⟩
      by_cases hEq : a = b
      · subst hEq
        have hOthers :
            ofTexts
                (fun c =>
                  if c = a then some ((text? a).getD "" ++ css)
                  else text? c) rest =
              ofTexts text? rest := by
          apply List.filterMap_congr
          intro c hc
          have hNe : c ≠ a := by
            rintro rfl
            exact Nat.lt_irrefl _ (hAbove c hc)
          simp only [if_neg hNe]
        rw [ofTexts, ofTexts, List.filterMap_cons,
          List.filterMap_cons, if_pos rfl]
        cases hText : text? a with
        | none =>
            refine (append_of_rank_lt
              (rank_lt_of_mem_ofTexts hAbove)).trans ?_
            rw [hText] at hOthers
            simpa [ofTexts] using hOthers.symm
        | some text =>
            rw [hText] at hOthers
            simp only [Option.map_some, append, Nat.lt_irrefl,
              if_false, if_true, Option.getD_some]
            exact congrArg _ hOthers.symm
      · have hLater : b ∈ rest :=
          (List.mem_cons.1 hMem).resolve_left (fun h => hEq h.symm)
        have hRank := hAbove b hLater
        rw [ofTexts, ofTexts, List.filterMap_cons,
          List.filterMap_cons, if_neg hEq]
        cases hText : text? a with
        | none => exact ih hRest hLater
        | some text =>
            simp only [Option.map_some]
            rw [append, if_neg (Nat.lt_asymm hRank),
              if_neg (Nat.ne_of_lt hRank)]
            exact congrArg _ (ih hRest hLater)

/- The section of a breakpoint is found under its name. -/
theorem find?_ofTexts
    (text? : Breakpoint → Option String)
    {b : Breakpoint}
    {bs : List Breakpoint}
    (hNames : ∀ a ∈ bs, a.name = b.name → a = b) :
    ((ofTexts text? bs).find?
      (fun s => s.name = b.name)).map Section.css =
        if b ∈ bs then text? b else none := by
  induction bs with
  | nil => rfl
  | cons a rest ih =>
      have hRest :=
        ih (fun c hc => hNames c (List.mem_cons_of_mem a hc))
      rw [ofTexts] at hRest ⊢
      rw [List.filterMap_cons]
      by_cases hEq : a = b
      · subst hEq
        rw [if_pos List.mem_cons_self]
        cases hText : text? a with
        | none =>
            rw [hText, ite_self] at hRest
            exact hRest
        | some text => simp
      · have hName : a.name ≠ b.name :=
          fun h => hEq (hNames a List.mem_cons_self h)
        have hMem : b ∈ a :: rest ↔ b ∈ rest := by
          rw [List.mem_cons]
          exact or_iff_right (fun h => hEq h.symm)
        simp only [hMem]
        cases hText : text? a with
        | none => exact hRest
        | some text => simpa [hName] using hRest

end Section

------------------------------------------------------------
-- Sheets
------------------------------------------------------------

/- The texts of the chunks at the breakpoint of a name. -/
def Chunk.textsAt
    (chunks : List Chunk)
    (name : String) : List String :=
  (chunks.filter (fun c => c.breakpoint.name = name)).map Chunk.css

namespace Sheet

variable {cascade : Cascade}

theorem appendNamed_of_mem
    (sheet : Sheet)
    {b : Breakpoint}
    (hMem : b ∈ cascade.breakpoints)
    (css : String) :
    sheet.appendNamed cascade b.name css = sheet.append b css := by
  rw [appendNamed, Cascade.get?_name hMem]

theorem appendAll_append
    (sheet : Sheet)
    (xs ys : List Chunk) :
    sheet.appendAll cascade (xs ++ ys) =
      (sheet.appendAll cascade xs).appendAll cascade ys :=
  List.foldl_append

/-
  A sheet that received chunks has the sections of their
  breakpoints, in cascade order, with their texts in order.
-/
theorem sections_appendAll
    {chunks : List Chunk}
    (hChunks : ∀ c ∈ chunks, c.breakpoint ∈ cascade.breakpoints) :
    ((∅ : Sheet).appendAll cascade chunks).sections =
      Section.ofTexts
        (fun b => Text.joined? (Chunk.textsAt chunks b.name))
        cascade.breakpoints := by
  induction chunks using List.reverseRecOn with
  | nil =>
      symm
      apply List.filterMap_eq_nil_iff.2
      intro b _
      rfl
  | append_singleton chunks c ih =>
      have hLast : c.breakpoint ∈ cascade.breakpoints :=
        hChunks c (by simp)
      have hInit :=
        ih (fun c' hc' => hChunks c' (List.mem_append_left _ hc'))
      rw [appendAll_append]
      change (((∅ : Sheet).appendAll cascade chunks).appendNamed
        cascade c.breakpoint.name c.css).sections = _
      rw [appendNamed_of_mem _ hLast]
      change Section.append c.breakpoint c.css
        ((∅ : Sheet).appendAll cascade chunks).sections = _
      rw [hInit, Section.append_ofTexts _ _
        cascade.pairwise_rank_breakpoints hLast]
      apply List.filterMap_congr
      intro b hb
      by_cases hEq : b = c.breakpoint
      · subst hEq
        have hTexts :
            Chunk.textsAt (chunks ++ [c]) c.breakpoint.name =
              Chunk.textsAt chunks c.breakpoint.name ++ [c.css] := by
          simp [Chunk.textsAt]
        simp only [if_true, hTexts, Text.joined?_append_singleton]
      · have hName : ¬ c.breakpoint.name = b.name :=
          fun h => hEq (Cascade.eq_of_name_eq hb hLast h.symm)
        have hTexts :
            Chunk.textsAt (chunks ++ [c]) b.name =
              Chunk.textsAt chunks b.name := by
          simp [Chunk.textsAt, hName]
        simp only [if_neg hEq, hTexts]

/- The text under the name of a breakpoint is its own. -/
theorem get?_of_sections
    {sheet : Sheet}
    {text? : Breakpoint → Option String}
    (hSections :
      sheet.sections =
        Section.ofTexts text? cascade.breakpoints)
    {b : Breakpoint}
    (hMem : b ∈ cascade.breakpoints) :
    sheet.get? b.name = text? b := by
  rw [get?, hSections]
  rw [Section.find?_ofTexts text?
    (fun a ha => Cascade.eq_of_name_eq ha hMem), if_pos hMem]

end Sheet

end AtomicCss
