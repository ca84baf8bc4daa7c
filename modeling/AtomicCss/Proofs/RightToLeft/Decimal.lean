import AtomicCss.Proofs.Text.Substitution
import AtomicCss.RightToLeft.Text
import Mathlib.Algebra.Order.Field.Rat
import Mathlib.Data.Nat.Digits.Defs

/-
  This file proves how decimals are read, and which of them
  are zero as a double.

  A decimal is its digits, before and after the point. It is
  read from the front of a text if it does not go on in the
  text behind it.

  Key definitions include:
    * `RightToLeft.pointDigits`
    * `RightToLeft.Decimal`
    * `RightToLeft.Decimal.value`
    * `RightToLeft.Decimal.Continues`

  The main statements are:
    * `RightToLeft.scanDecimal?_spec`
    * `RightToLeft.Decimal.scanDecimal?_text`
    * `RightToLeft.Decimal.isZero_text`
-/

namespace AtomicCss.RightToLeft

open Text

------------------------------------------------------------
-- Reading decimals
------------------------------------------------------------

/- The digits after a point in front. -/
def pointDigits : List Char → List Char
  | '.' :: rest => rest.takeWhile Char.isDigit
  | _ => []

theorem scanDecimal?_eq
    (cs : List Char) :
    scanDecimal? cs =
      let whole := cs.takeWhile Char.isDigit
      let fraction := pointDigits (cs.dropWhile Char.isDigit)
      if !fraction.isEmpty then
        some (whole ++ '.' :: fraction)
      else if !whole.isEmpty then
        some whole
      else
        none :=
  rfl

/- Digits after a point stand in front, behind the point. -/
theorem prefix_of_pointDigits
    {cs : List Char}
    (hDigits : pointDigits cs ≠ []) :
    '.' :: pointDigits cs <+: cs := by
  revert hDigits
  fun_cases pointDigits cs with
  | case1 rest =>
      intro _
      exact List.cons_prefix_cons.2 ⟨rfl, List.takeWhile_prefix _⟩
  | case2 => exact fun hDigits => absurd rfl hDigits

theorem pointDigits_eq_nil
    {cs : List Char}
    (hPoint : ¬ ∃ rest, cs = ['.'] ++ rest) :
    pointDigits cs = [] := by
  fun_cases pointDigits cs with
  | case1 rest => exact absurd ⟨rest, rfl⟩ hPoint
  | case2 => rfl

theorem isDigit_of_mem_pointDigits
    {cs : List Char}
    {c : Char}
    (hc : c ∈ pointDigits cs) :
    c.isDigit = true := by
  unfold pointDigits at hc
  split at hc
  · exact List.mem_takeWhile_imp hc
  · cases hc

/- A decimal consists of digits and a point, and is in front. -/
theorem scanDecimal?_spec
    {cs number : List Char}
    (hNumber : scanDecimal? cs = some number) :
    number ≠ [] ∧
      (∀ c ∈ number, c.isDigit = true ∨ c = '.') ∧
      number <+: cs := by
  have hWhole :
      ∀ c ∈ cs.takeWhile Char.isDigit, c.isDigit = true :=
    fun c hc => List.mem_takeWhile_imp hc
  rw [scanDecimal?_eq] at hNumber
  dsimp only at hNumber
  split at hNumber
  · rename_i hFraction
    cases hNumber
    refine ⟨by simp, ?_, ?_⟩
    · intro c hc
      rcases List.mem_append.1 hc with hc | hc
      · exact Or.inl (hWhole c hc)
      · rcases List.mem_cons.1 hc with rfl | hc
        · exact Or.inr rfl
        · exact Or.inl (isDigit_of_mem_pointDigits hc)
    · have hNe : pointDigits (cs.dropWhile Char.isDigit) ≠ [] := by
        simpa using hFraction
      have hPoint := prefix_of_pointDigits hNe
      rw [← List.prefix_append_right_inj (cs.takeWhile Char.isDigit),
        List.takeWhile_append_dropWhile] at hPoint
      exact hPoint
  · split at hNumber
    · rename_i hDigits
      cases hNumber
      exact ⟨by simpa using hDigits,
        fun c hc => Or.inl (hWhole c hc),
        List.takeWhile_prefix _⟩
    · cases hNumber

/- A decimal does not begin with a sign or with white space. -/
theorem scanDecimal?_front
    {cs number : List Char}
    (hNumber : scanDecimal? cs = some number) :
    ∃ c rest, cs = c :: rest ∧ c ≠ '-' ∧ isBlank c = false := by
  rcases scanDecimal?_spec hNumber with ⟨hNe, hChars, hPrefix⟩
  rcases List.exists_cons_of_ne_nil hNe with ⟨c, digits, rfl⟩
  rcases hPrefix with ⟨rest, rfl⟩
  refine ⟨c, digits ++ rest, rfl, ?_⟩
  rcases hChars c List.mem_cons_self with hDigit | rfl
  · have hRange : 48 ≤ c.toNat ∧ c.toNat ≤ 57 := by
      simpa [Char.isDigit, UInt32.le_iff_toNat_le] using hDigit
    constructor
    · rintro rfl
      exact absurd hRange.1 (by decide)
    · simp [isBlank, blankRanges]
      omega
  · decide

------------------------------------------------------------
-- Written decimals
------------------------------------------------------------

/- Digits as they are written. -/
def written
    (digits : List (Fin 10)) : List Char :=
  digits.map (fun d => Nat.digitChar d.val)

/- A decimal has whole digits, a fraction or both. -/
structure Decimal where
  whole : List (Fin 10)
  fraction : List (Fin 10)
  digits_ne_nil : whole ++ fraction ≠ []

namespace Decimal

/- The characters of a decimal. -/
def text
    (d : Decimal) : List Char :=
  written d.whole ++
    if d.fraction = [] then [] else '.' :: written d.fraction

/- All digits of a decimal. -/
def digits
    (d : Decimal) : List Nat :=
  (d.whole ++ d.fraction).map Fin.val

/- The number that a decimal writes. -/
def value
    (d : Decimal) : ℚ :=
  (Nat.ofDigits 10 d.digits.reverse : ℕ) / 10 ^ d.fraction.length

/-
  Whether a decimal goes on in the text behind it: there is a
  digit, or a point with a digit if it has no fraction.
-/
def Continues
    (d : Decimal)
    (rest : List Char) : Prop :=
  rest.head?.any Char.isDigit = true ∨
    d.fraction = [] ∧ rest.head? = some '.' ∧
      rest.tail.head?.any Char.isDigit = true

instance
    (d : Decimal)
    (rest : List Char) :
    Decidable (d.Continues rest) :=
  inferInstanceAs (Decidable (_ ∨ _))

end Decimal

theorem isDigit_of_mem_written
    {digits : List (Fin 10)}
    {c : Char}
    (hc : c ∈ written digits) :
    c.isDigit = true := by
  have hAll : ∀ d : Fin 10, (Nat.digitChar d.val).isDigit = true := by
    decide
  rcases List.mem_map.1 hc with ⟨d, _, rfl⟩
  exact hAll d

theorem written_eq_nil_iff
    {digits : List (Fin 10)} :
    written digits = [] ↔ digits = [] :=
  List.map_eq_nil_iff

namespace Decimal

variable (d : Decimal)

/- The decimal in front is read up to its end. -/
theorem scanDecimal?_text
    {rest : List Char}
    (hEnd : ¬ d.Continues rest) :
    scanDecimal? (d.text ++ rest) = some d.text := by
  have hStop : ∀ c ∈ rest.head?, c.isDigit = false := by
    intro c hc
    by_contra hDigit
    refine hEnd (Or.inl ?_)
    rw [hc, Option.any_some]
    exact Bool.eq_true_of_not_eq_false hDigit
  have hDigits :
      ∀ digits, ∀ c ∈ written digits, c.isDigit = true :=
    fun _ _ => isDigit_of_mem_written
  rw [scanDecimal?_eq, text]
  by_cases hFraction : d.fraction = []
  · have hWhole : written d.whole ≠ [] := by
      intro hNil
      apply d.digits_ne_nil
      rw [written_eq_nil_iff.1 hNil, hFraction]
      rfl
    have hPoint : pointDigits rest = [] := by
      by_contra hNe
      rcases List.exists_cons_of_ne_nil hNe with ⟨c, more, hPoint⟩
      rcases prefix_of_pointDigits hNe with ⟨tail, hRest⟩
      have hDigit : c.isDigit = true :=
        isDigit_of_mem_pointDigits (hPoint ▸ List.mem_cons_self)
      rw [hPoint] at hRest
      subst hRest
      exact hEnd (Or.inr ⟨hFraction, rfl, hDigit⟩)
    rcases span_append (hDigits d.whole) hStop with ⟨hRun, hBehind⟩
    rw [if_pos hFraction, List.append_nil, hRun, hBehind, hPoint]
    simp [hWhole]
  · have hPoint : Char.isDigit '.' = false := by decide
    rcases span_append_cons (hDigits d.whole) hPoint
        (written d.fraction ++ rest) with
      ⟨hRun, hBehind⟩
    have hDigitsBehind :
        pointDigits ('.' :: (written d.fraction ++ rest)) =
          written d.fraction :=
      (span_append (hDigits d.fraction) hStop).1
    rw [if_neg hFraction, List.append_assoc, List.cons_append, hRun,
      hBehind, hDigitsBehind]
    simp [written_eq_nil_iff, hFraction]

theorem filter_text :
    d.text.filter Char.isDigit = written (d.whole ++ d.fraction) := by
  have hDigits :
      ∀ digits, (written digits).filter Char.isDigit = written digits :=
    fun _ => List.filter_eq_self.2 (fun _ => isDigit_of_mem_written)
  rw [text, List.filter_append, hDigits]
  by_cases hFraction : d.fraction = []
  · simp [hFraction, written]
  · rw [if_neg hFraction, List.filter_cons_of_neg (by decide), hDigits]
    exact List.map_append.symm

theorem digitsValue_text :
    digitsValue d.text = Nat.ofDigits 10 d.digits.reverse := by
  have hDigit :
      ∀ d : Fin 10, (Nat.digitChar d.val).toNat - '0'.toNat = d.val := by
    decide
  rw [digitsValue, filter_text, written, List.foldl_map, digits,
    Nat.ofDigits_eq_foldr, List.foldr_reverse, List.foldl_map]
  simp only [hDigit, Nat.cast_id, Nat.mul_comm, Nat.add_comm]

theorem places_text :
    places d.text = d.fraction.length := by
  have hDigits : ∀ c ∈ written d.whole, c.isDigit = true :=
    fun _ => isDigit_of_mem_written
  rw [places, text]
  by_cases hFraction : d.fraction = []
  · rw [if_pos hFraction, hFraction,
      (span_append hDigits (fun _ hc => by cases hc)).2]
    rfl
  · have hPoint : Char.isDigit '.' = false := by decide
    rw [if_neg hFraction, (span_append_cons hDigits hPoint _).2,
      List.length_cons, Nat.add_sub_cancel, written, List.length_map]

theorem value_nonneg :
    0 ≤ d.value :=
  div_nonneg (Nat.cast_nonneg _) (by positivity)

/- Half of the least positive double. -/
def halfLeast : ℚ :=
  1 / 2 ^ 1075

/- A decimal is zero as a double if it is at most that. -/
theorem isZero_text :
    isZero d.text = true ↔ d.value ≤ halfLeast := by
  rw [isZero, decide_eq_true_iff, digitsValue_text, places_text, value,
    halfLeast]
  -- The exponent is too large for the powers to be computed.
  generalize 1075 = exponent
  rw [div_le_div_iff₀ (by positivity) (by positivity), one_mul]
  exact_mod_cast Iff.rfl

end Decimal

end AtomicCss.RightToLeft
