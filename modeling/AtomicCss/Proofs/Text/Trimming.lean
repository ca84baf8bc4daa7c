import AtomicCss.Text.Blank
import Mathlib.Data.List.DropRight

/-
  This file proves that trimming leaves a text without white
  space at its ends, and that it leaves such a text alone.

  Key definitions include:
    * `Text.Bare`

  The main statements are:
    * `Text.trim_eq_self`
    * `Text.bare_trim`
    * `Text.trimmed_trimmed`
-/

namespace AtomicCss.Text

/- Whether a text neither begins nor ends with white space. -/
def Bare
    (cs : List Char) : Prop :=
  (∀ c ∈ cs.head?, isBlank c = false) ∧
    ∀ c ∈ cs.getLast?, isBlank c = false

private theorem dropWhile_eq_self
    {cs : List Char}
    (hFirst : ∀ c ∈ cs.head?, isBlank c = false) :
    cs.dropWhile isBlank = cs := by
  cases cs with
  | nil => rfl
  | cons c rest =>
      exact List.dropWhile_cons_of_neg (by simp [hFirst c rfl])

private theorem of_mem_head?_dropWhile
    {cs : List Char}
    {c : Char}
    (hFirst : c ∈ (cs.dropWhile isBlank).head?) :
    isBlank c = false := by
  have hNot := List.head?_dropWhile_not isBlank cs
  rw [Option.mem_def.1 hFirst] at hNot
  exact hNot

theorem trim_eq_self
    {cs : List Char}
    (hBare : Bare cs) :
    trim cs = cs := by
  have hLast : ∀ c ∈ cs.reverse.head?, isBlank c = false := by
    rw [List.head?_reverse]
    exact hBare.2
  rw [trim, trimStart, dropWhile_eq_self hBare.1, trimEnd,
    dropWhile_eq_self hLast, List.reverse_reverse]

/- What is dropped at the end does not change the beginning. -/
theorem bare_trim
    (cs : List Char) :
    Bare (trim cs) := by
  have hPrefix : trim cs <+: trimStart cs :=
    List.rdropWhile_prefix isBlank _
  constructor
  · intro c hc
    rcases hPrefix with ⟨behind, hStart⟩
    have hFirst : c ∈ (trimStart cs).head? := by
      rw [← hStart, List.head?_append, Option.mem_def.1 hc]
      rfl
    exact of_mem_head?_dropWhile hFirst
  · intro c hc
    rw [trim, trimEnd, List.getLast?_reverse] at hc
    exact of_mem_head?_dropWhile hc

/- A text that was trimmed stays as it is. -/
@[simp]
theorem trimmed_trimmed
    (s : String) :
    trimmed (trimmed s) = trimmed s := by
  rw [trimmed, trimmed, String.toList_ofList,
    trim_eq_self (bare_trim s.toList)]

theorem trimmed_of_bare
    {s : String}
    (hBare : Bare s.toList) :
    trimmed s = s := by
  rw [trimmed, trim_eq_self hBare, String.ofList_toList]

end AtomicCss.Text
