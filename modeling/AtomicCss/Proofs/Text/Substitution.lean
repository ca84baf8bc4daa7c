import AtomicCss.Text.Search
import Mathlib.Data.List.Infix
import Mathlib.Data.List.TakeWhile

/-
  This file proves what a search does that replaces matches:
  which text it passes over, and when a second search undoes
  the first. A search that collects findings runs the same way.

  The matches of a rule may all begin with one of some words,
  and what replaces them too. A text is clear of words if none
  of them can begin inside it, not even one that ends behind
  it. Clear text is found at the same place before and after
  a search.

  Key definitions include:
    * `Text.Clear`
    * `Text.Rule.OpensWith`

  The main statements are:
    * `Text.prefix_append_cases`
    * `Text.substitute_append_of_none`
    * `Text.substitute_append_of_clear`
    * `Text.exists_of_substitute_eq_append`
    * `Text.span_append`
    * `Text.takeWhile_substitute`
    * `Text.substitute_substitute`
    * `Text.collect_append_of_none`
    * `Text.collect_of_match`
-/

namespace AtomicCss.Text

------------------------------------------------------------
-- Clear text
------------------------------------------------------------

variable {words : List (List Char)}

/- A word in front ends there, or the rest of it is behind. -/
theorem prefix_append_cases
    {w front tail : List Char}
    (hPrefix : w <+: front ++ tail) :
    w <+: front ∨
      ∃ rest, rest ≠ [] ∧ w = front ++ rest ∧ rest <+: tail := by
  rcases List.prefix_or_prefix_of_prefix hPrefix
      (List.prefix_append front tail) with hShort | hLong
  · exact Or.inl hShort
  · rcases hLong with ⟨rest, rfl⟩
    rw [List.prefix_append_right_inj] at hPrefix
    cases rest with
    | nil =>
        rw [List.append_nil]
        exact Or.inl List.prefix_rfl
    | cons c rest =>
        exact Or.inr ⟨_, List.cons_ne_nil c rest, rfl, hPrefix⟩

/- No word begins inside a text, whatever follows the text. -/
inductive Clear
    (words : List (List Char)) : List Char → Prop where
  | nil : Clear words []
  | cons
      {c : Char}
      {rest : List Char}
      (front :
        ∀ w ∈ words, ¬ c :: rest <+: w ∧ ¬ w <+: c :: rest)
      (later : Clear words rest) : Clear words (c :: rest)

theorem clear_cons_iff
    {c : Char}
    {rest : List Char} :
    Clear words (c :: rest) ↔
      (∀ w ∈ words, ¬ c :: rest <+: w ∧ ¬ w <+: c :: rest) ∧
        Clear words rest := by
  constructor
  · rintro (_ | ⟨hFront, hLater⟩)
    exact ⟨hFront, hLater⟩
  · exact fun h => .cons h.1 h.2

instance decidableClear
    (words : List (List Char)) :
    (text : List Char) → Decidable (Clear words text)
  | [] => isTrue .nil
  | _ :: rest =>
      have := decidableClear words rest
      decidable_of_iff' _ clear_cons_iff

theorem Clear.of_suffix
    {text : List Char}
    (hClear : Clear words text)
    {rest : List Char}
    (hRest : rest <:+ text) :
    Clear words rest := by
  induction hClear with
  | nil => exact List.suffix_nil.1 hRest ▸ .nil
  | @cons c later hFront hLater ih =>
      rcases List.suffix_cons_iff.1 hRest with rfl | hRest
      · exact .cons hFront hLater
      · exact ih hRest

/- What is clear at its front stays so, whatever follows. -/
theorem Clear.not_prefix_append
    {text : List Char}
    (hClear : Clear words text)
    (hNe : text ≠ [])
    {w : List Char}
    (hWord : w ∈ words)
    (tail : List Char) :
    ¬ w <+: text ++ tail := by
  intro hPrefix
  rcases List.exists_cons_of_ne_nil hNe with ⟨c, rest, rfl⟩
  have hFront := (clear_cons_iff.1 hClear).1 w hWord
  rcases prefix_append_cases hPrefix with hShort | ⟨more, _, rfl, _⟩
  · exact hFront.2 hShort
  · exact hFront.1 (List.prefix_append _ more)

/- Nor is it in front of a text that begins with a word. -/
theorem Clear.not_prefix_word
    {text : List Char}
    (hClear : Clear words text)
    (hNe : text ≠ [])
    {w tail : List Char}
    (hWord : w ∈ words)
    (hTail : w <+: tail) :
    ¬ text <+: tail := by
  intro hPrefix
  rcases List.exists_cons_of_ne_nil hNe with ⟨c, rest, rfl⟩
  have hFront := (clear_cons_iff.1 hClear).1 w hWord
  rcases List.prefix_or_prefix_of_prefix hPrefix hTail with
    hShort | hLong
  · exact hFront.1 hShort
  · exact hFront.2 hLong

theorem Clear.append
    {a b : List Char}
    (ha : Clear words a)
    (hb : Clear words b) :
    Clear words (a ++ b) := by
  induction ha with
  | nil => exact hb
  | @cons c rest hFront hLater ih =>
      refine .cons ?_ ih
      intro w hWord
      refine ⟨?_, (hLater.cons hFront).not_prefix_append
        (List.cons_ne_nil c rest) hWord b⟩
      intro hPrefix
      exact (hFront w hWord).1
        ((List.prefix_append (c :: rest) b).trans hPrefix)

/- Text without the first characters of words is clear of them. -/
theorem clear_of_forall
    (hNonempty : [] ∉ words)
    {text : List Char}
    (hText : ∀ c ∈ text, ∀ w ∈ words, w.head? ≠ some c) :
    Clear words text := by
  induction text with
  | nil => exact .nil
  | cons c rest ih =>
      rcases List.forall_mem_cons.1 hText with ⟨hFirst, hRest⟩
      refine .cons ?_ (ih hRest)
      intro w hWord
      have hHead := hFirst w hWord
      cases w with
      | nil => exact absurd hWord hNonempty
      | cons d w =>
          have hNe : d ≠ c := fun h => hHead (congrArg some h)
          constructor
          · exact fun h => hNe (List.cons_prefix_cons.1 h).1.symm
          · exact fun h => hNe (List.cons_prefix_cons.1 h).1

------------------------------------------------------------
-- Searching
------------------------------------------------------------

/-
  What a rule matches begins with one of some words, and so
  does what it finds. A match has characters.
-/
structure Rule.OpensWith
    (rule : Rule (List Char))
    (words : List (List Char)) : Prop where
  nonempty : [] ∉ words
  length_pos :
    ∀ {cs found n}, rule cs = some (found, n) → 0 < n
  matched :
    ∀ {cs found n}, rule cs = some (found, n) →
      ∃ w ∈ words, w <+: cs
  found :
    ∀ {cs found n}, rule cs = some (found, n) →
      ∃ w ∈ words, w <+: found

variable {rule : Rule (List Char)}

theorem substitute_eq_drop
    (rule : Rule (List Char))
    (n : Nat)
    (cs : List Char) :
    substitute rule n cs = substitute rule 0 (cs.drop n) := by
  induction n generalizing cs with
  | zero => rfl
  | succ n ih =>
      cases cs with
      | nil => rfl
      | cons c rest => exact ih rest

theorem substitute_of_none
    {c : Char}
    {rest : List Char}
    (hNone : rule (c :: rest) = none) :
    substitute rule 0 (c :: rest) = c :: substitute rule 0 rest := by
  simp only [substitute, hNone]

theorem Rule.OpensWith.ne_nil
    (hRule : rule.OpensWith words)
    {cs found : List Char}
    {n : Nat}
    (hMatch : rule cs = some (found, n)) :
    cs ≠ [] := by
  rintro rfl
  rcases hRule.matched hMatch with ⟨w, hWord, hPrefix⟩
  exact hRule.nonempty (List.prefix_nil.1 hPrefix ▸ hWord)

theorem substitute_of_match
    (hRule : rule.OpensWith words)
    {cs found : List Char}
    {n : Nat}
    (hMatch : rule cs = some (found, n)) :
    substitute rule 0 cs =
      found ++ substitute rule 0 (cs.drop n) := by
  rcases List.exists_cons_of_ne_nil (hRule.ne_nil hMatch) with
    ⟨c, rest, rfl⟩
  rcases Nat.exists_eq_add_one.2 (hRule.length_pos hMatch) with
    ⟨m, rfl⟩
  simp only [substitute, hMatch]
  rw [Nat.add_sub_cancel, substitute_eq_drop, List.drop_succ_cons]

/- Text where nothing is found stays as it is. -/
theorem substitute_append_of_none
    {text tail : List Char}
    (hNone :
      ∀ front, front ≠ [] → front <:+ text →
        rule (front ++ tail) = none) :
    substitute rule 0 (text ++ tail) =
      text ++ substitute rule 0 tail := by
  induction text with
  | nil => rfl
  | cons c rest ih =>
      have hHere := hNone _ (List.cons_ne_nil c rest) List.suffix_rfl
      rw [List.cons_append] at hHere ⊢
      rw [substitute_of_none hHere, List.cons_append,
        ih (fun front hNe hFront =>
          hNone front hNe (hFront.trans (List.suffix_cons c rest)))]

/- A search passes over clear text. -/
theorem substitute_append_of_clear
    (hRule : rule.OpensWith words)
    {text : List Char}
    (hClear : Clear words text)
    (tail : List Char) :
    substitute rule 0 (text ++ tail) =
      text ++ substitute rule 0 tail := by
  apply substitute_append_of_none
  intro front hNe hFront
  apply Option.eq_none_iff_forall_not_mem.2
  rintro ⟨found, n⟩ hMatch
  rcases hRule.matched hMatch with ⟨w, hWord, hPrefix⟩
  exact (hClear.of_suffix hFront).not_prefix_append hNe hWord tail
    hPrefix

/- And where it leaves clear text, it has found that text. -/
theorem exists_of_substitute_eq_append
    (hRule : rule.OpensWith words)
    {text : List Char}
    (hClear : Clear words text)
    {cs rest : List Char}
    (hText : substitute rule 0 cs = text ++ rest) :
    ∃ tail, cs = text ++ tail ∧ substitute rule 0 tail = rest := by
  induction text generalizing cs with
  | nil => exact ⟨cs, rfl, hText⟩
  | cons c text ih =>
      cases hMatch : rule cs with
      | some finding =>
          rcases finding with ⟨found, n⟩
          rcases hRule.found hMatch with ⟨w, hWord, hPrefix⟩
          rw [substitute_of_match hRule hMatch] at hText
          have hFound : w <+: c :: text ++ rest :=
            hText ▸ hPrefix.trans (List.prefix_append found _)
          exact absurd hFound
            (hClear.not_prefix_append (List.cons_ne_nil c text)
              hWord rest)
      | none =>
          cases cs with
          | nil => cases hText
          | cons d cs =>
              rw [substitute_of_none hMatch] at hText
              rcases List.cons_eq_cons.1 hText with ⟨rfl, hTail⟩
              have hLater := (clear_cons_iff.1 hClear).2
              rcases ih hLater hTail with ⟨tail, rfl, hRest⟩
              exact ⟨tail, rfl, hRest⟩

/- So clear text is in front exactly where it was in front. -/
theorem prefix_substitute_iff
    (hRule : rule.OpensWith words)
    {text : List Char}
    (hClear : Clear words text)
    {cs : List Char} :
    text <+: substitute rule 0 cs ↔ text <+: cs := by
  constructor
  · rintro ⟨rest, hText⟩
    rcases exists_of_substitute_eq_append hRule hClear hText.symm with
      ⟨tail, hTail, _⟩
    exact ⟨tail, hTail.symm⟩
  · rintro ⟨tail, rfl⟩
    rw [substitute_append_of_clear hRule hClear]
    exact List.prefix_append text _

/- The first character stays if all words begin with the same one. -/
theorem head?_substitute
    (hRule : rule.OpensWith words)
    {c : Char}
    (hWords : ∀ w ∈ words, w.head? = some c)
    (cs : List Char) :
    (substitute rule 0 cs).head? = cs.head? := by
  have hHead :
      ∀ w ∈ words, ∀ text, w <+: text → text.head? = some c := by
    rintro w hWord text ⟨tail, rfl⟩
    rw [List.head?_append, hWords w hWord]
    rfl
  cases hMatch : rule cs with
  | some finding =>
      rcases finding with ⟨found, n⟩
      rcases hRule.found hMatch with ⟨w, hWord, hFound⟩
      rcases hRule.matched hMatch with ⟨w', hWord', hPrefix⟩
      rw [substitute_of_match hRule hMatch,
        hHead w hWord _ (hFound.trans (List.prefix_append _ _)),
        hHead w' hWord' _ hPrefix]
  | none =>
      cases cs with
      | nil => rfl
      | cons d rest => rw [substitute_of_none hMatch]; rfl

------------------------------------------------------------
-- Runs of characters
------------------------------------------------------------

/- A run ends at the first character of another class. -/
theorem span_append
    {p : Char → Bool}
    {run : List Char}
    (hRun : ∀ c ∈ run, p c = true)
    {rest : List Char}
    (hStop : ∀ c ∈ rest.head?, p c = false) :
    (run ++ rest).takeWhile p = run ∧
      (run ++ rest).dropWhile p = rest := by
  rw [List.takeWhile_append_of_pos hRun,
    List.dropWhile_append_of_pos hRun]
  cases rest with
  | nil => exact ⟨List.append_nil run, rfl⟩
  | cons c rest =>
      have hc : ¬ p c = true := by
        rw [hStop c rfl]
        exact Bool.false_ne_true
      rw [List.takeWhile_cons_of_neg hc, List.dropWhile_cons_of_neg hc]
      exact ⟨List.append_nil run, rfl⟩

theorem span_append_cons
    {p : Char → Bool}
    {run : List Char}
    (hRun : ∀ c ∈ run, p c = true)
    {c : Char}
    (hStop : p c = false)
    (rest : List Char) :
    (run ++ c :: rest).takeWhile p = run ∧
      (run ++ c :: rest).dropWhile p = c :: rest :=
  span_append hRun (fun _ hc => Option.some.inj hc ▸ hStop)

/-
  The run of a class of characters at the front stays the same
  if no word begins with one of them.
-/
theorem takeWhile_substitute
    (hRule : rule.OpensWith words)
    {p : Char → Bool}
    (hWords : ∀ w ∈ words, ∀ c, w.head? = some c → p c = false)
    (cs : List Char) :
    (substitute rule 0 cs).takeWhile p = cs.takeWhile p := by
  have hStop :
      ∀ w ∈ words, ∀ text, w <+: text → text.takeWhile p = [] := by
    intro w hWord text hPrefix
    cases w with
    | nil => exact absurd hWord hRule.nonempty
    | cons c w =>
        rcases hPrefix with ⟨tail, rfl⟩
        exact List.takeWhile_cons_of_neg
          (by simp [hWords _ hWord c rfl])
  induction cs with
  | nil => rfl
  | cons c rest ih =>
      cases hMatch : rule (c :: rest) with
      | some finding =>
          rcases finding with ⟨found, n⟩
          rcases hRule.found hMatch with ⟨w, hWord, hFound⟩
          rcases hRule.matched hMatch with ⟨w', hWord', hPrefix⟩
          rw [substitute_of_match hRule hMatch,
            hStop w hWord _ (hFound.trans (List.prefix_append _ _)),
            hStop w' hWord' _ hPrefix]
      | none =>
          rw [substitute_of_none hMatch, List.takeWhile_cons,
            List.takeWhile_cons, ih]

/- What follows the run is searched on its own. -/
theorem dropWhile_substitute
    (hRule : rule.OpensWith words)
    {p : Char → Bool}
    (hWords : ∀ w ∈ words, ∀ c, w.head? = some c → p c = false)
    (cs : List Char) :
    (substitute rule 0 cs).dropWhile p =
      substitute rule 0 (cs.dropWhile p) := by
  have hClear : Clear words (cs.takeWhile p) := by
    apply clear_of_forall hRule.nonempty
    intro c hc w hWord hHead
    have hp := List.mem_takeWhile_imp hc
    rw [hWords w hWord c hHead] at hp
    cases hp
  have hSplit :
      substitute rule 0 cs =
        cs.takeWhile p ++ substitute rule 0 (cs.dropWhile p) := by
    rw [← substitute_append_of_clear hRule hClear,
      List.takeWhile_append_dropWhile]
  have hWhole :
      cs.takeWhile p ++ (substitute rule 0 cs).dropWhile p =
        substitute rule 0 cs := by
    rw [← takeWhile_substitute hRule hWords cs,
      List.takeWhile_append_dropWhile]
  exact List.append_cancel_left (hWhole.trans hSplit)

------------------------------------------------------------
-- Searching again
------------------------------------------------------------

/-
  A second search undoes the first if it turns each finding
  back into its match, and if it finds nothing new where the
  first found nothing.
-/
theorem substitute_substitute
    (hRule : rule.OpensWith words)
    (hBack :
      ∀ {cs found n}, rule cs = some (found, n) →
        rule (found ++ substitute rule 0 (cs.drop n)) =
          some (cs.take n, found.length))
    (hKept :
      ∀ {c rest}, rule (c :: rest) = none →
        rule (c :: substitute rule 0 rest) = none)
    (cs : List Char) :
    substitute rule 0 (substitute rule 0 cs) = cs := by
  induction hLength : cs.length using Nat.strong_induction_on
    generalizing cs with
  | _ length ih =>
      cases hMatch : rule cs with
      | some finding =>
          rcases finding with ⟨found, n⟩
          have hShorter : (cs.drop n).length < length := by
            have hPos := hRule.length_pos hMatch
            have hCs :=
              List.length_pos_iff.2 (hRule.ne_nil hMatch)
            rw [List.length_drop]
            omega
          rw [substitute_of_match hRule hMatch,
            substitute_of_match hRule (hBack hMatch),
            List.drop_left, ih _ hShorter _ rfl,
            List.take_append_drop]
      | none =>
          cases cs with
          | nil => rfl
          | cons c rest =>
              have hShorter : rest.length < length := by
                rw [← hLength, List.length_cons]
                exact Nat.lt_succ_self _
              rw [substitute_of_none hMatch,
                substitute_of_none (hKept hMatch),
                ih _ hShorter _ rfl]

------------------------------------------------------------
-- Collecting
------------------------------------------------------------

section Collecting

variable {α : Type}

/- Text where nothing is found is passed over. -/
theorem collect_append_of_none
    {rule : Rule α}
    {text tail : List Char}
    (hNone :
      ∀ front, front ≠ [] → front <:+ text →
        rule (front ++ tail) = none) :
    collect rule 0 (text ++ tail) = collect rule 0 tail := by
  induction text with
  | nil => rfl
  | cons c rest ih =>
      have hHere := hNone _ (List.cons_ne_nil c rest) List.suffix_rfl
      rw [List.cons_append] at hHere ⊢
      simp only [collect, hHere]
      exact ih (fun front hNe hFront =>
        hNone front hNe (hFront.trans (List.suffix_cons c rest)))

theorem collect_eq_drop
    (rule : Rule α)
    (n : Nat)
    (cs : List Char) :
    collect rule n cs = collect rule 0 (cs.drop n) := by
  induction n generalizing cs with
  | zero => rfl
  | succ n ih =>
      cases cs with
      | nil => rfl
      | cons c rest => exact ih rest

/- What is found in front is collected first. -/
theorem collect_of_match
    {rule : Rule α}
    {cs : List Char}
    (hNe : cs ≠ [])
    {found : α}
    {n : Nat}
    (hPos : 0 < n)
    (hMatch : rule cs = some (found, n)) :
    collect rule 0 cs = found :: collect rule 0 (cs.drop n) := by
  rcases List.exists_cons_of_ne_nil hNe with ⟨c, rest, rfl⟩
  rcases Nat.exists_eq_add_one.2 hPos with ⟨m, rfl⟩
  simp only [collect, hMatch]
  rw [Nat.add_sub_cancel, collect_eq_drop, List.drop_succ_cons]

end Collecting

end AtomicCss.Text
