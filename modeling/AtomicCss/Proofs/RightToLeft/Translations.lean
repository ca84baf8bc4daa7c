import AtomicCss.Proofs.RightToLeft.Catalog

/-
  This file proves what becomes of the translations in a
  transform from right to left.

  A transform is translations whose first argument is a
  number, with other text around them. Translations that are
  not horizontal are part of that text. A number is turned
  around unless it is marked with a plus, or so small that it
  is zero as a double.

  Nothing else changes unless the text in front of a
  translation ends in `lef` or `righ`, which its first
  character makes a side.

  Key definitions include:
    * `RightToLeft.Translation`
    * `RightToLeft.Translation.turned`
    * `RightToLeft.Transform`

  The main statements are:
    * `RightToLeft.Transform.negateOffsets_text`
    * `RightToLeft.Transform.swapSides_text_eq_self_iff`
    * `Properties.translations_are_turned_unless_plus_or_tiny`
-/

namespace AtomicCss.RightToLeft

open Text

------------------------------------------------------------
-- Translations
------------------------------------------------------------

/- What can stand in front of a number. -/
inductive Sign where
  | bare
  | plus
  | minus
deriving DecidableEq

namespace Sign

/- The characters of a sign. -/
def text : Sign → List Char
  | bare => []
  | plus => ['+']
  | minus => ['-']

/- The sign of the other direction, where it is not a plus. -/
def turned : Sign → Sign
  | bare => minus
  | plus => plus
  | minus => bare

/- A number with a sign in front of it. -/
def apply : Sign → ℚ → ℚ
  | bare, x => x
  | plus, x => x
  | minus, x => -x

end Sign

/-
  The words that begin a translation or are swapped. Other
  text has none of them.
-/
def Plain
    (cs : List Char) : Prop :=
  ∀ w ∈ OffsetCall.functions ++ sides, ¬ w <:+: cs

instance
    (cs : List Char) :
    Decidable (Plain cs) :=
  inferInstanceAs (Decidable (∀ _ ∈ _, _))

/-
  A horizontal translation by a number, with the text up to
  the next one. A unit of the number is part of that text.
-/
structure Translation where
  function : List Char
  blanks : List Char
  sign : Sign
  number : Decimal
  behind : List Char
  isFunction : function ∈ OffsetCall.functions
  areBlank : ∀ c ∈ blanks, isBlank c = true
  ends : ¬ number.Continues behind
  plain : Plain behind

namespace Translation

/- The argument up to the end of its number. -/
def argument
    (t : Translation) : List Char :=
  t.blanks ++ t.sign.text ++ t.number.text

/- The translation itself, up to there. -/
def own
    (t : Translation) : List Char :=
  t.function ++ t.argument

/- The translation with the text behind it. -/
def text
    (t : Translation) : List Char :=
  t.own ++ t.behind

/- How far a translation goes to the right, in its unit. -/
def amount
    (t : Translation) : ℚ :=
  t.sign.apply t.number.value

/- A translation the other way, unless it is zero as a double. -/
def turned
    (t : Translation) : Translation :=
  if t.number.value ≤ Decimal.halfLeast then
    t
  else
    { t with sign := t.sign.turned }

end Translation

/- A value with translations and other text in front of them. -/
structure Transform where
  first : List Char
  translations : List Translation
  plain : Plain first

namespace Transform

/- The characters of a transform. -/
def text
    (v : Transform) : List Char :=
  v.first ++ v.translations.flatMap Translation.text

/- The transform with its translations the other way. -/
def turned
    (v : Transform) : Transform :=
  { v with translations := v.translations.map Translation.turned }

/- The texts in front of its translations. -/
def fronts
    (v : Transform) : List (List Char) :=
  (v.first :: v.translations.map Translation.behind).dropLast

end Transform

------------------------------------------------------------
-- Text between translations
------------------------------------------------------------

/- Text that ends or goes on with a translation. -/
def Opens
    (cs : List Char) : Prop :=
  cs = [] ∨ ∃ f ∈ OffsetCall.functions, f <+: cs

/- A text that ends in a side but for its last character. -/
def EndsInStem
    (cs : List Char) : Prop :=
  ∃ w ∈ sides, w.dropLast <:+ cs

instance
    (cs : List Char) :
    Decidable (EndsInStem cs) :=
  inferInstanceAs (Decidable (∃ _ ∈ _, _))

theorem opens_flatMap
    (ts : List Translation) :
    Opens (ts.flatMap Translation.text) := by
  cases ts with
  | nil => exact Or.inl rfl
  | cons t rest =>
      refine Or.inr ⟨t.function, t.isFunction, ?_⟩
      simp only [List.flatMap_cons, Translation.text, Translation.own,
        List.append_assoc]
      exact List.prefix_append _ _

/- A word that begins in plain text goes on behind it. -/
theorem Plain.exists_of_prefix
    {text : List Char}
    (hPlain : Plain text)
    {front : List Char}
    (hFront : front <:+ text)
    {w tail : List Char}
    (hWord : w ∈ OffsetCall.functions ++ sides)
    (hPrefix : w <+: front ++ tail) :
    ∃ rest, rest ≠ [] ∧ w = front ++ rest ∧ rest <+: tail := by
  rcases prefix_append_cases hPrefix with hInside | hBehind
  · exact absurd (hInside.isInfix.trans hFront.isInfix)
      (hPlain w hWord)
  · exact hBehind

/- No translation begins in plain text in front of another. -/
theorem Plain.otherWay_eq_none
    {text : List Char}
    (hPlain : Plain text)
    {tail : List Char}
    (hTail : Opens tail)
    {front : List Char}
    (hNe : front ≠ [])
    (hFront : front <:+ text) :
    otherWay (front ++ tail) = none := by
  have hClear :
      ∀ f ∈ OffsetCall.functions,
        Clear OffsetCall.functions f.tail := by
    decide
  rw [otherWay_eq_none_iff]
  apply Option.eq_none_iff_forall_not_mem.2
  intro call hScan
  rcases OffsetCall.scan?_eq_some_iff.1 hScan with ⟨hNamed, _, hText, _⟩
  rcases hNamed.lead_eq with ⟨f, hFunction, _, hLead, _⟩
  have hPrefix : f <+: front ++ tail := by
    rw [hText, hLead, List.append_assoc]
    exact List.prefix_append f _
  rcases hPlain.exists_of_prefix hFront
      (List.mem_append_left sides hFunction) hPrefix with
    ⟨rest, hRest, rfl, hBehind⟩
  rcases hTail with rfl | ⟨g, hOther, hOpens⟩
  · exact hRest (List.prefix_nil.1 hBehind)
  · have hSuffix : rest <:+ (front ++ rest).tail := by
      rw [List.tail_append_of_ne_nil hNe]
      exact List.suffix_append _ rest
    exact ((hClear _ hFunction).of_suffix hSuffix).not_prefix_word
      hRest hOther hOpens hBehind

/- Nor does a side, unless a translation makes it one. -/
theorem Plain.otherSide_eq_none
    {text : List Char}
    (hPlain : Plain text)
    {tail : List Char}
    (hTail : Opens tail)
    (hStem : tail = [] ∨ ¬ EndsInStem text)
    {front : List Char}
    (hNe : front ≠ [])
    (hFront : front <:+ text) :
    otherSide (front ++ tail) = none := by
  -- Of a side only the last character can begin a translation.
  have hLast :
      ∀ w ∈ sides, ∀ rest ∈ w.tail.tails, rest ≠ [] →
        ∀ f ∈ OffsetCall.functions,
          rest <+: f ∨ f <+: rest → rest.length = 1 := by
    decide
  rw [otherSide_eq_none_iff]
  intro w hSide hPrefix
  rcases hPlain.exists_of_prefix hFront
      (List.mem_append_right _ hSide) hPrefix with
    ⟨rest, hRest, rfl, hBehind⟩
  rcases hTail with rfl | ⟨f, hFunction, hOpens⟩
  · exact hRest (List.prefix_nil.1 hBehind)
  · have hSuffix : rest ∈ (front ++ rest).tail.tails := by
      rw [List.mem_tails, List.tail_append_of_ne_nil hNe]
      exact List.suffix_append _ rest
    have hOne :=
      hLast _ hSide rest hSuffix hRest f hFunction
        (List.prefix_or_prefix_of_prefix hBehind hOpens)
    rcases List.length_eq_one_iff.1 hOne with ⟨c, rfl⟩
    rcases hStem with rfl | hStem
    · exact hRest (List.prefix_nil.1 hBehind)
    · apply hStem
      refine ⟨front ++ [c], hSide, ?_⟩
      rw [List.dropLast_concat]
      exact hFront

theorem Opens.head_eq
    {cs : List Char}
    (hOpens : Opens cs)
    {c : Char}
    (hHead : c ∈ cs.head?) :
    c = 't' := by
  have hAll : ∀ f ∈ OffsetCall.functions, f.head? = some 't' := by
    decide
  rcases hOpens with rfl | ⟨f, hFunction, more, rfl⟩
  · cases hHead
  · rw [List.head?_append, hAll f hFunction] at hHead
    exact (Option.some.inj hHead).symm

/- No number goes on behind the text up to a translation. -/
theorem Decimal.continues_of_append
    {d : Decimal}
    {text tail : List Char}
    (hTail : Opens tail)
    (hMore : d.Continues (text ++ tail)) :
    d.Continues text := by
  have hNoDigit : ¬ tail.head?.any Char.isDigit = true := by
    intro hDigit
    cases hHead : tail.head? with
    | none =>
        rw [hHead] at hDigit
        cases hDigit
    | some c =>
        rw [hHead, Option.any_some, hTail.head_eq hHead] at hDigit
        exact absurd hDigit (by decide)
  rcases hMore with hDigit | ⟨hFraction, hPoint, hDigit⟩
  · cases text with
    | nil => exact absurd hDigit hNoDigit
    | cons a text => exact Or.inl hDigit
  · cases text with
    | nil => exact absurd (hTail.head_eq hPoint) (by decide)
    | cons a text =>
        cases text with
        | nil => exact absurd hDigit hNoDigit
        | cons b text => exact Or.inr ⟨hFraction, hPoint, hDigit⟩

------------------------------------------------------------
-- Searching through a transform
------------------------------------------------------------

namespace Translation

variable (t : Translation)

theorem own_eq_cons :
    ∃ more, t.own = 't' :: more := by
  have hAll : ∀ f ∈ OffsetCall.functions, f = 't' :: f.tail := by
    decide
  refine ⟨t.function.tail ++ t.argument, ?_⟩
  rw [own, hAll t.function t.isFunction]
  rfl

/- The call that a translation is, if it is not marked with a plus. -/
def call
    (t : Translation) : OffsetCall where
  head := t.function ++ t.blanks
  negative := decide (t.sign = .minus)
  number := t.number.text

@[simp]
theorem behind_turned :
    t.turned.behind = t.behind := by
  unfold turned
  split <;> rfl

theorem isArgument_number :
    ∀ c ∈ t.number.text, isArgument c = true :=
  isArgument_of_scanDecimal? (t.number.scanDecimal?_text t.ends)

/- An argument is clear of words that begin otherwise. -/
theorem clear_argument
    {words : List (List Char)}
    (hApart : Apart words)
    (hSign : Clear words t.sign.text) :
    Clear words t.argument := by
  have hBlanks : ∀ c ∈ t.blanks, isArgument c = true :=
    fun c hc => by simp [isArgument, t.areBlank c hc]
  exact ((hApart.clear hBlanks).append hSign).append
    (hApart.clear t.isArgument_number)

theorem turned_of_plus
    (hPlus : t.sign = .plus) :
    t.turned = t := by
  rcases t with ⟨function, blanks, sign, number, behind⟩
  cases hPlus
  unfold turned
  split <;> rfl

/- Behind a plus no number is read. -/
theorem scan?_of_plus
    (hPlus : t.sign = .plus)
    (rest : List Char) :
    OffsetCall.scan? (t.own ++ rest) = none := by
  have hText :
      t.own ++ rest =
        t.function ++ t.blanks ++ '+' :: (t.number.text ++ rest) := by
    simp [own, argument, hPlus, Sign.text]
  have hStop :
      ∀ c ∈ ('+' :: (t.number.text ++ rest)).head?,
        isBlank c = false :=
    fun c hc => Option.some.inj hc ▸ by decide
  rw [hText, OffsetCall.scan?_append t.isFunction t.areBlank hStop]
  rfl

/- A translation with a plus is passed over. -/
theorem substitute_own_of_plus
    (hPlus : t.sign = .plus)
    (rest : List Char) :
    substitute otherWay 0 (t.own ++ rest) =
      t.own ++ substitute otherWay 0 rest := by
  have hFunctions :
      ∀ f ∈ OffsetCall.functions, f ≠ [] ∧ Clear offsetWords f.tail := by
    decide
  rcases hFunctions t.function t.isFunction with ⟨hNe, hClear⟩
  rcases List.exists_cons_of_ne_nil hNe with ⟨c, function, hFunction⟩
  rw [hFunction, List.tail_cons] at hClear
  have hSign : Clear offsetWords t.sign.text := by
    rw [hPlus]
    decide
  have hText : t.own = c :: (function ++ t.argument) := by
    rw [own, hFunction, List.cons_append]
  have hNone :=
    otherWay_eq_none_iff.2 (t.scan?_of_plus hPlus rest)
  rw [hText, List.cons_append] at hNone ⊢
  rw [substitute_of_none hNone,
    substitute_append_of_clear opensWith_otherWay
      (hClear.append (t.clear_argument apart_offsetWords hSign)),
    List.cons_append]

/- Any other translation is a call with an offset. -/
theorem text_call
    (hSign : t.sign ≠ .plus) :
    t.call.text = t.own := by
  rw [OffsetCall.text, call, own, argument]
  cases h : t.sign with
  | bare => simp [Sign.text]
  | plus => exact absurd h hSign
  | minus => simp [Sign.text]

theorem negated_call
    (hSign : t.sign ≠ .plus) :
    t.call.negated = t.turned.call := by
  by_cases hTiny : t.number.value ≤ Decimal.halfLeast
  · have hZero : isZero t.call.number = true :=
      t.number.isZero_text.2 hTiny
    rw [OffsetCall.negated, if_pos hZero, turned, if_pos hTiny]
  · have hZero : ¬ isZero t.call.number = true :=
      fun h => hTiny (t.number.isZero_text.1 h)
    rw [OffsetCall.negated, if_neg hZero, turned, if_neg hTiny]
    rcases t with ⟨function, blanks, sign, number, behind⟩
    cases sign with
    | bare => rfl
    | plus => exact absurd rfl hSign
    | minus => rfl

theorem clear_own :
    Clear sides t.own := by
  have hFunctions : ∀ f ∈ OffsetCall.functions, Clear sides f := by
    decide
  have hSign : Clear sides t.sign.text := by
    cases t.sign <;> decide
  exact (hFunctions t.function t.isFunction).append
    (t.clear_argument apart_sides hSign)

theorem sign_turned
    (hSign : t.sign ≠ .plus) :
    t.turned.sign ≠ .plus := by
  unfold turned
  split
  · exact hSign
  · cases h : t.sign with
    | bare => simp [Sign.turned]
    | plus => exact absurd h hSign
    | minus => simp [Sign.turned]

theorem scan?_own
    (hSign : t.sign ≠ .plus)
    {rest : List Char}
    (hEnd : ¬ t.number.Continues rest) :
    OffsetCall.scan? (t.own ++ rest) = some t.call := by
  rw [OffsetCall.scan?_eq_some_iff]
  refine ⟨⟨t.function, t.isFunction, t.blanks, t.areBlank, rfl⟩,
    t.number.text ++ rest, ?_, t.number.scanDecimal?_text hEnd⟩
  rw [← t.text_call hSign, OffsetCall.text_eq, List.append_assoc]
  rfl

/- A translation in front is turned around. -/
theorem substitute_own
    {rest : List Char}
    (hEnd : ¬ t.number.Continues rest) :
    substitute otherWay 0 (t.own ++ rest) =
      t.turned.own ++ substitute otherWay 0 rest := by
  by_cases hSign : t.sign = .plus
  · rw [t.turned_of_plus hSign]
    exact t.substitute_own_of_plus hSign rest
  · have hScan := t.scan?_own hSign hEnd
    rw [← t.text_call hSign] at hScan ⊢
    rw [(substitute_of_scan? hScan).1, t.negated_call hSign,
      t.turned.text_call (t.sign_turned hSign)]

end Translation

/- Translations in a row are turned around one by one. -/
theorem substitute_otherWay_flatMap
    (ts : List Translation) :
    substitute otherWay 0 (ts.flatMap Translation.text) =
      (ts.map Translation.turned).flatMap Translation.text := by
  induction ts with
  | nil => rfl
  | cons t rest ih =>
      have hOpens := opens_flatMap rest
      have hEnd :
          ¬ t.number.Continues
            (t.behind ++ rest.flatMap Translation.text) :=
        fun h => t.ends (Decimal.continues_of_append hOpens h)
      have hBehind :=
        substitute_append_of_none
          (fun _ => t.plain.otherWay_eq_none hOpens)
      rw [List.flatMap_cons, Translation.text, List.append_assoc,
        t.substitute_own hEnd, hBehind, ih, List.map_cons,
        List.flatMap_cons, Translation.text, t.behind_turned,
        List.append_assoc]

namespace Transform

variable (v : Transform)

/- A search for calls turns the translations of a transform around. -/
theorem substitute_otherWay_text :
    substitute otherWay 0 v.text = v.turned.text := by
  have hFirst :=
    substitute_append_of_none
      (fun _ => v.plain.otherWay_eq_none (opens_flatMap v.translations))
  rw [text, hFirst, substitute_otherWay_flatMap]
  rfl

theorem negateOffsets_text :
    negateOffsets (String.ofList v.text) =
      String.ofList v.turned.text := by
  rw [negateOffsets, String.toList_ofList, v.substitute_otherWay_text]

@[simp]
theorem fronts_turned :
    v.turned.fronts = v.fronts := by
  have hBehind : Translation.behind ∘ Translation.turned =
      Translation.behind := by
    funext t
    exact t.behind_turned
  rw [fronts, fronts, turned, List.map_map, hBehind]

/- A search for sides leaves a transform as it is without stems. -/
theorem substitute_otherSide_text
    (hStems : ∀ front ∈ v.fronts, ¬ EndsInStem front) :
    substitute otherSide 0 v.text = v.text := by
  rcases v with ⟨first, ts, hPlain⟩
  induction ts generalizing first with
  | nil =>
      exact substitute_append_of_none (fun _ =>
        hPlain.otherSide_eq_none (Or.inl rfl) (Or.inl rfl))
  | cons t rest ih =>
      have hFronts :
          ∀ front ∈ first :: (Transform.mk t.behind rest t.plain).fronts,
            ¬ EndsInStem front := hStems
      rcases List.forall_mem_cons.1 hFronts with ⟨hFirst, hRest⟩
      have hPassed :=
        substitute_append_of_none (fun _ =>
          hPlain.otherSide_eq_none (opens_flatMap (t :: rest))
            (Or.inr hFirst))
      have hLater := ih t.behind t.plain hRest
      simp only [text, List.flatMap_cons, Translation.text,
        List.append_assoc] at hPassed hLater ⊢
      rw [hPassed,
        substitute_append_of_clear opensWith_otherSide t.clear_own,
        hLater]

/- Where a text ends in a stem, a translation makes it a side. -/
theorem exists_side_of_endsInStem
    {front : List Char}
    (hFront : front ∈ v.fronts)
    (hStem : EndsInStem front) :
    ∃ w ∈ sides, w <:+: v.text := by
  rcases v with ⟨first, ts, hPlain⟩
  induction ts generalizing first with
  | nil => cases hFront
  | cons t rest ih =>
      have hFronts :
          front ∈
            first :: (Transform.mk t.behind rest t.plain).fronts :=
        hFront
      simp only [text, List.flatMap_cons, Translation.text,
        List.append_assoc] at ih ⊢
      rcases List.mem_cons.1 hFronts with rfl | hLater
      · have hLast : ∀ w ∈ sides, w = w.dropLast ++ ['t'] := by
          decide
        rcases hStem with ⟨w, hSide, before, rfl⟩
        rcases t.own_eq_cons with ⟨more, hOwn⟩
        refine ⟨w, hSide, before,
          more ++ (t.behind ++ rest.flatMap Translation.text), ?_⟩
        rw [hOwn, hLast w hSide]
        simp
      · rcases ih t.behind t.plain hLater with ⟨w, hSide, hInside⟩
        refine ⟨w, hSide, hInside.trans ?_⟩
        exact ((List.suffix_append t.own _).trans
          (List.suffix_append first _)).isInfix

/- So that a transform stays means that no text ends in a stem. -/
theorem swapSides_text_eq_self_iff :
    swapSides (String.ofList v.text) = String.ofList v.text ↔
      ∀ front ∈ v.fronts, ¬ EndsInStem front := by
  constructor
  · intro hSame front hFront hStem
    rw [swapSides_eq_self_iff, String.toList_ofList] at hSame
    rcases v.exists_side_of_endsInStem hFront hStem with
      ⟨w, hSide, hInside⟩
    exact hSame w hSide hInside
  · intro hStems
    rw [swapSides, String.toList_ofList,
      v.substitute_otherSide_text hStems]

end Transform

namespace Translation

variable (t : Translation)

theorem abs_amount :
    |t.amount| = t.number.value := by
  rw [amount]
  cases t.sign with
  | bare => exact abs_of_nonneg t.number.value_nonneg
  | plus => exact abs_of_nonneg t.number.value_nonneg
  | minus => exact (abs_neg _).trans (abs_of_nonneg t.number.value_nonneg)

/- A translation changes unless it is marked or tiny. -/
theorem turned_ne_self_iff :
    t.turned ≠ t ↔
      t.sign ≠ .plus ∧ Decimal.halfLeast < |t.amount| := by
  rw [abs_amount]
  constructor
  · intro hTurned
    refine ⟨fun hPlus => hTurned (t.turned_of_plus hPlus), ?_⟩
    by_contra hTiny
    exact hTurned (if_pos (not_lt.1 hTiny))
  · rintro ⟨hSign, hLarge⟩ hSame
    have hSigns : t.sign.turned = t.sign := by
      rw [turned, if_neg (not_le.2 hLarge)] at hSame
      exact congrArg Translation.sign hSame
    revert hSign hSigns
    cases t.sign <;> decide

/- And a translation that changes goes as far the other way. -/
theorem amount_turned
    (hTurned : t.turned ≠ t) :
    t.turned.amount = -t.amount := by
  rcases t.turned_ne_self_iff.1 hTurned with ⟨hSign, hLarge⟩
  rw [abs_amount] at hLarge
  rw [turned, if_neg (not_le.2 hLarge), amount, amount]
  revert hSign
  cases t.sign with
  | bare => exact fun _ => rfl
  | plus => exact fun hSign => absurd rfl hSign
  | minus => exact fun _ => (neg_neg _).symm

end Translation

------------------------------------------------------------
-- Some translations
------------------------------------------------------------

/- A translation by two and a half rem to the left. -/
def Translation.leftwards : Translation where
  function := "translateX(".toList
  blanks := []
  sign := .minus
  number := ⟨[2], [5], by decide⟩
  behind := "rem) ".toList
  isFunction := by decide
  areBlank := List.all_eq_true.1 (by decide)
  ends := by decide
  plain := by decide

/- A translation by ten pixels to the right. -/
def Translation.rightwards
    (sign : Sign) : Translation where
  function := "translate(".toList
  blanks := []
  sign := sign
  number := ⟨[1, 0], [], by decide⟩
  behind := "px, 0)".toList
  isFunction := by decide
  areBlank := List.all_eq_true.1 (by decide)
  ends := by decide
  plain := by decide

/- Both translations behind a rotation. -/
def Transform.both : Transform where
  first := "rotate(3deg) ".toList
  translations := [.leftwards, .rightwards .bare]
  plain := by decide

end AtomicCss.RightToLeft

namespace AtomicCss.Properties

open RightToLeft

/-
  From right to left, a transform has its translations turned
  around, and its other text stays as it is unless some text
  in front of a translation ends in the stem of a side.

  A translation changes exactly if it is not marked with a
  plus and is not zero as a double, and then it goes as far
  the other way.
-/
theorem translations_are_turned_unless_plus_or_tiny
    {p : Properties}
    {v : Transform}
    (hValue : p.get? "transform" = some (String.ofList v.text)) :
    p.flip.get? "transform" =
        some (swapSides (String.ofList v.turned.text)) ∧
      (swapSides (String.ofList v.turned.text) =
          String.ofList v.turned.text ↔
        ∀ front ∈ v.fronts, ¬ EndsInStem front) ∧
      ∀ t ∈ v.translations,
        (t.turned ≠ t ↔
          t.sign ≠ .plus ∧ Decimal.halfLeast < |t.amount|) ∧
        (t.turned ≠ t → t.turned.amount = -t.amount) := by
  have hName : swapSides "transform" = "transform" := by decide
  have hFlipped :
      p.flip.get? "transform" =
        (p.get? "transform").map (flipValue "transform") := by
    have hRenamed :=
      p.get?_rename flipValue swapSides_injective "transform"
    rwa [hName, ← flip_eq_rename] at hRenamed
  refine ⟨?_, ?_, fun t _ => ⟨t.turned_ne_self_iff, t.amount_turned⟩⟩
  · rw [hFlipped, hValue, Option.map_some, flipValue, if_pos rfl,
      negateOffsets_swapSides, v.negateOffsets_text]
  · rw [v.turned.swapSides_text_eq_self_iff, v.fronts_turned]

theorem translations_are_turned_unless_plus_or_tiny_of_both :
    let p : Properties :=
      .ofList
        [("transform",
          "rotate(3deg) translateX(-2.5rem) translate(10px, 0)")]
    p.get? "transform" = some (String.ofList Transform.both.text) ∧
      p.flip.get? "transform" =
        some "rotate(3deg) translateX(2.5rem) translate(-10px, 0)" := by
  have hValue :
      (OrderedMap.ofList
        [("transform",
          "rotate(3deg) translateX(-2.5rem) translate(10px, 0)")]).get?
          "transform" =
        some (String.ofList Transform.both.text) := by
    decide
  rcases translations_are_turned_unless_plus_or_tiny hValue with
    ⟨hFlipped, hSame, _⟩
  refine ⟨hValue, hFlipped.trans ?_⟩
  have hStems : ∀ front ∈ Transform.both.fronts, ¬ EndsInStem front := by
    decide
  rw [hSame.2 hStems]
  decide +kernel

/- A number marked with a plus stays, though it is not zero. -/
theorem marked_translation_is_not_turned :
    let t := Translation.rightwards .plus
    let p : Properties :=
      .ofList [("transform", "translate(+10px, 0)")]
    t.text = "translate(+10px, 0)".toList ∧
      t.amount = 10 ∧
      (Translation.rightwards .minus).text =
        "translate(-10px, 0)".toList ∧
      (Translation.rightwards .minus).amount = -10 ∧
      p.flip.get? "transform" = some "translate(+10px, 0)" ∧
      p.flip.get? "transform" ≠ some "translate(-10px, 0)" := by
  decide +kernel

end AtomicCss.Properties
