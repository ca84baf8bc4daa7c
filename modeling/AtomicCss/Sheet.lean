import AtomicCss.Breakpoint

/-
  This file defines style sheets, which keep the text of each
  breakpoint apart and in cascade order.

  Key definitions include:
    * `Section`
    * `Sheet`
    * `Sheet.append`
    * `Sheet.get?`
    * `Sheet.css`
-/

namespace AtomicCss

------------------------------------------------------------
-- Sections
------------------------------------------------------------

/- The text appended for a breakpoint. -/
structure Section where
  rank : Nat
  name : String
  css : String
deriving DecidableEq

/-
  Append text to the section of a rank, in a list sorted by
  rank. A new section is named for its breakpoint.
-/
def Section.append
    (b : Breakpoint)
    (css : String) : List Section → List Section
  | [] => [⟨b.rank, b.name, css⟩]
  | s :: rest =>
      if b.rank < s.rank then
        ⟨b.rank, b.name, css⟩ :: s :: rest
      else if s.rank = b.rank then
        { s with css := s.css ++ css } :: rest
      else
        s :: append b css rest

/- Appending adds no rank but that of the breakpoint. -/
theorem Section.rank_of_mem_append
    {b : Breakpoint}
    {css : String}
    {sections : List Section}
    {s : Section}
    (h : s ∈ Section.append b css sections) :
    s.rank = b.rank ∨ ∃ t ∈ sections, t.rank = s.rank := by
  induction sections with
  | nil =>
      simp only [Section.append, List.mem_singleton] at h
      exact Or.inl (h ▸ rfl)
  | cons t rest ih =>
      unfold Section.append at h
      split at h
      · rcases List.mem_cons.1 h with h | h
        · exact Or.inl (h ▸ rfl)
        · exact Or.inr ⟨s, h, rfl⟩
      · split at h
        · rcases List.mem_cons.1 h with h | h
          · exact Or.inr ⟨t, List.mem_cons_self, h ▸ rfl⟩
          · exact Or.inr ⟨s, List.mem_cons_of_mem t h, rfl⟩
        · rcases List.mem_cons.1 h with h | h
          · exact Or.inr ⟨t, List.mem_cons_self, h ▸ rfl⟩
          · rcases ih h with h | ⟨u, hu, hr⟩
            · exact Or.inl h
            · exact Or.inr ⟨u, List.mem_cons_of_mem t hu, hr⟩

/- Appending keeps the order of ranks. -/
theorem Section.sorted_append
    (b : Breakpoint)
    (css : String)
    {sections : List Section}
    (h : (sections.map Section.rank).Pairwise (· < ·)) :
    ((Section.append b css sections).map Section.rank).Pairwise
      (· < ·) := by
  induction sections with
  | nil => simp [Section.append]
  | cons t rest ih =>
      have ht := (List.pairwise_cons.1 (List.map_cons ▸ h)).1
      have hrest := (List.pairwise_cons.1 (List.map_cons ▸ h)).2
      unfold Section.append
      split
      · rename_i hlt
        refine List.pairwise_cons.2 ⟨?_, h⟩
        intro r hr
        rcases List.mem_cons.1 hr with hr | hr
        · exact hr ▸ hlt
        · exact Nat.lt_trans hlt (ht r hr)
      · rename_i hge
        split
        · exact List.pairwise_cons.2 ⟨ht, hrest⟩
        · rename_i hne
          refine List.pairwise_cons.2 ⟨?_, ih hrest⟩
          intro r hr
          obtain ⟨s, hs, rfl⟩ := List.mem_map.1 hr
          rcases Section.rank_of_mem_append hs with h' | ⟨u, hu, h'⟩
          · omega
          · exact h' ▸ ht u.rank (List.mem_map_of_mem hu)

------------------------------------------------------------
-- Sheets
------------------------------------------------------------

/- Sections in cascade order. -/
structure Sheet where
  sections : List Section
  sorted : (sections.map Section.rank).Pairwise (· < ·)
deriving DecidableEq

namespace Sheet

/- The sheet without sections. -/
def empty : Sheet :=
  ⟨[], List.Pairwise.nil⟩

instance : EmptyCollection Sheet := ⟨empty⟩

/- Append text for a breakpoint. -/
def append
    (sheet : Sheet)
    (b : Breakpoint)
    (css : String) : Sheet where
  sections := Section.append b css sheet.sections
  sorted := Section.sorted_append b css sheet.sorted

/- Drop all sections. -/
def clear
    (_ : Sheet) : Sheet :=
  empty

/- The text of the breakpoint of a name, if it has a section. -/
def get?
    (sheet : Sheet)
    (name : String) : Option String :=
  (sheet.sections.find? (fun s => s.name = name)).map Section.css

/- The whole sheet as text. -/
def css
    (sheet : Sheet) : String :=
  String.join (sheet.sections.map Section.css)

/- Whether no section has text. -/
def isEmpty
    (sheet : Sheet) : Bool :=
  sheet.sections.all (fun s => s.css = "")

end Sheet

end AtomicCss
