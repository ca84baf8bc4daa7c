import AtomicCss.Proofs.Text.Substitution
import AtomicCss.RightToLeft.Text

/-
  This file proves that to swap sides twice changes nothing,
  for all texts. The two words do not overlap, and where one
  was put in place of the other no further word begins.

  Key definitions include:
    * `RightToLeft.sides`

  The main statements are:
    * `RightToLeft.substitute_otherSide_twice`
    * `RightToLeft.swapSides_swapSides`
    * `RightToLeft.swapSides_injective`
    * `RightToLeft.swapSides_eq_self_iff`
-/

namespace AtomicCss.RightToLeft

open Text

------------------------------------------------------------
-- Words for sides
------------------------------------------------------------

/- The words that are swapped. -/
def sides : List (List Char) :=
  ["left".toList, "right".toList]

/- A side in front is found, and nothing else. -/
theorem otherSide_eq_some_iff
    {cs found : List Char}
    {n : Nat} :
    otherSide cs = some (found, n) ↔
      (∃ rest, cs = "left".toList ++ rest ∧
        found = "right".toList ∧ n = 4) ∨
      ∃ rest, cs = "right".toList ++ rest ∧
        found = "left".toList ∧ n = 5 := by
  constructor
  · intro hMatch
    unfold otherSide at hMatch
    split at hMatch
    · rename_i hLeft
      rcases List.isPrefixOf_iff_prefix.1 hLeft with ⟨rest, rfl⟩
      cases hMatch
      exact Or.inl ⟨rest, rfl, rfl, rfl⟩
    · split at hMatch
      · rename_i hRight
        rcases List.isPrefixOf_iff_prefix.1 hRight with ⟨rest, rfl⟩
        cases hMatch
        exact Or.inr ⟨rest, rfl, rfl, rfl⟩
      · cases hMatch
  · rintro (⟨rest, rfl, rfl, rfl⟩ | ⟨rest, rfl, rfl, rfl⟩) <;> rfl

theorem otherSide_eq_none_iff
    {cs : List Char} :
    otherSide cs = none ↔ ∀ w ∈ sides, ¬ w <+: cs := by
  have hSides :
      (∀ w ∈ sides, ¬ w <+: cs) ↔
        ¬ "left".toList <+: cs ∧ ¬ "right".toList <+: cs := by
    rw [sides, List.forall_mem_cons, List.forall_mem_singleton]
  rw [hSides, ← List.isPrefixOf_iff_prefix,
    ← List.isPrefixOf_iff_prefix, otherSide]
  split
  · rename_i hLeft
    exact iff_of_false (by simp) (fun h => h.1 hLeft)
  · rename_i hLeft
    split
    · rename_i hRight
      exact iff_of_false (by simp) (fun h => h.2 hRight)
    · rename_i hRight
      exact iff_of_true rfl ⟨hLeft, hRight⟩

theorem opensWith_otherSide :
    Rule.OpensWith otherSide sides where
  nonempty := by decide
  length_pos := by
    intro cs found n hMatch
    rcases otherSide_eq_some_iff.1 hMatch with
      ⟨rest, _, _, rfl⟩ | ⟨rest, _, _, rfl⟩ <;> decide
  matched := by
    intro cs found n hMatch
    rcases otherSide_eq_some_iff.1 hMatch with
      ⟨rest, rfl, _, _⟩ | ⟨rest, rfl, _, _⟩
    · exact ⟨_, List.mem_cons_self, List.prefix_append _ _⟩
    · exact ⟨_, List.mem_cons_of_mem _ List.mem_cons_self,
        List.prefix_append _ _⟩
  found := by
    intro cs found n hMatch
    rcases otherSide_eq_some_iff.1 hMatch with
      ⟨rest, _, rfl, _⟩ | ⟨rest, _, rfl, _⟩
    · exact ⟨_, List.mem_cons_of_mem _ List.mem_cons_self,
        List.prefix_rfl⟩
    · exact ⟨_, List.mem_cons_self, List.prefix_rfl⟩

/- Behind its first character, a side is clear of sides. -/
theorem clear_tail_of_mem_sides
    {w : List Char}
    (hSide : w ∈ sides) :
    Clear sides w.tail := by
  have hAll : ∀ w ∈ sides, Clear sides w.tail := by decide
  exact hAll w hSide

------------------------------------------------------------
-- Swapping twice
------------------------------------------------------------

theorem otherSide_back
    {cs found : List Char}
    {n : Nat}
    (hMatch : otherSide cs = some (found, n)) :
    otherSide (found ++ substitute otherSide 0 (cs.drop n)) =
      some (cs.take n, found.length) := by
  rcases otherSide_eq_some_iff.1 hMatch with
    ⟨rest, rfl, rfl, rfl⟩ | ⟨rest, rfl, rfl, rfl⟩ <;> rfl

/- Where no side was found, none comes about. -/
theorem otherSide_kept
    {c : Char}
    {rest : List Char}
    (hNone : otherSide (c :: rest) = none) :
    otherSide (c :: substitute otherSide 0 rest) = none := by
  rw [otherSide_eq_none_iff] at hNone ⊢
  intro w hSide hPrefix
  cases w with
  | nil => exact opensWith_otherSide.nonempty hSide
  | cons d w =>
      have hClear : Clear sides w := clear_tail_of_mem_sides hSide
      rcases List.cons_prefix_cons.1 hPrefix with ⟨rfl, hTail⟩
      rw [prefix_substitute_iff opensWith_otherSide hClear] at hTail
      exact hNone _ hSide (List.cons_prefix_cons.2 ⟨rfl, hTail⟩)

theorem substitute_otherSide_twice
    (cs : List Char) :
    substitute otherSide 0 (substitute otherSide 0 cs) = cs :=
  substitute_substitute opensWith_otherSide otherSide_back
    otherSide_kept cs

/- To swap sides twice changes nothing. -/
@[simp]
theorem swapSides_swapSides
    (s : String) :
    swapSides (swapSides s) = s := by
  rw [swapSides, swapSides, String.toList_ofList,
    substitute_otherSide_twice, String.ofList_toList]

/- Hence different texts stay different. -/
theorem swapSides_injective :
    Function.Injective swapSides :=
  Function.LeftInverse.injective swapSides_swapSides

------------------------------------------------------------
-- Text without sides
------------------------------------------------------------

theorem substitute_otherSide_eq_self_iff
    {cs : List Char} :
    substitute otherSide 0 cs = cs ↔ ∀ w ∈ sides, ¬ w <:+: cs := by
  induction cs with
  | nil =>
      have hNone : ∀ w ∈ sides, ¬ w <:+: [] := by decide
      exact iff_of_true rfl hNone
  | cons c rest ih =>
      cases hMatch : otherSide (c :: rest) with
      | none =>
          have hFront := otherSide_eq_none_iff.1 hMatch
          rw [substitute_of_none hMatch, List.cons.injEq]
          simp only [true_and, ih, List.infix_cons_iff]
          refine forall₂_congr (fun w hSide => ?_)
          rw [not_or]
          exact (and_iff_right (hFront w hSide)).symm
      | some finding =>
          rcases finding with ⟨found, n⟩
          rw [substitute_of_match opensWith_otherSide hMatch]
          refine iff_of_false (fun hSame => ?_) (fun hNone => ?_)
          · -- The two sides do not begin with the same character.
            rcases otherSide_eq_some_iff.1 hMatch with
              ⟨more, hText, rfl, rfl⟩ | ⟨more, hText, rfl, rfl⟩ <;>
            · rw [hText] at hSame
              exact absurd (List.cons_eq_cons.1 hSame).1 (by decide)
          · rcases opensWith_otherSide.matched hMatch with
              ⟨w, hSide, hPrefix⟩
            exact hNone w hSide hPrefix.isInfix

/- Text stays as it is exactly if it has no sides. -/
theorem swapSides_eq_self_iff
    {s : String} :
    swapSides s = s ↔ ∀ w ∈ sides, ¬ w <:+: s.toList := by
  rw [← substitute_otherSide_eq_self_iff, swapSides,
    ← String.toList_inj, String.toList_ofList]

end AtomicCss.RightToLeft
