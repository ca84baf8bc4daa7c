import AtomicCss.Proofs.Token.Reading
import AtomicCss.Selector.Build
import Mathlib.Data.List.Flatten
import Mathlib.Data.List.Infix

/-
  This file proves when the identifier of a token occurs in
  the text of the token, so that its selector matches the
  elements that carry it.

  The identifier is put together from the parts of the head
  that have characters. Parts without characters are dropped,
  and with each of them a colon. Where such a part stands
  between others, or in front of a value, the identifier is
  no longer a part of the text.

  Key definitions include:
    * `Token.Tight`
    * `Token.IsTight`
    * `Token.Layout`

  The main statements are:
    * `Text.eq_of_append_eq`
    * `Text.eq_nil_of_append_eq`
    * `Token.exists_layout`
    * `Token.Layout.identifier_sublist`
    * `Token.Layout.infix_of_tight`
    * `Token.Layout.tight_of_infix`
    * `Token.identifier_occurs_where_no_part_is_dropped`
-/

namespace AtomicCss

------------------------------------------------------------
-- Texts that occur in themselves
------------------------------------------------------------

/- A run at the front ends at the first character that is none. -/
theorem Text.takeWhile_append_of_exists
    {p : Char → Bool}
    {u : List Char}
    (hu : ∃ c ∈ u, p c = false)
    (v : List Char) :
    (u ++ v).takeWhile p = u.takeWhile p := by
  rw [List.takeWhile_append, if_neg]
  intro hLength
  have hSelf := (List.takeWhile_prefix p).eq_of_length hLength
  rcases hu with ⟨c, hc, hOther⟩
  have hMark := List.takeWhile_eq_self_iff.1 hSelf c hc
  rw [hOther] at hMark
  cases hMark

/- So a run at the front ends at the same place in two texts. -/
theorem Text.eq_of_append_eq
    {p : Char → Bool}
    {x y u v w : List Char}
    (hx : ∀ c ∈ x, p c = true)
    (hy : ∀ c ∈ y, p c = true)
    (hu : ∃ c ∈ u, p c = false)
    (hSame : x ++ (u ++ v) = y ++ (u ++ w)) :
    x = y := by
  have hRun := congrArg (List.takeWhile p) hSame
  rw [List.takeWhile_append_of_pos hx,
    List.takeWhile_append_of_pos hy, takeWhile_append_of_exists hu,
    takeWhile_append_of_exists hu] at hRun
  exact List.append_cancel_right hRun

/-
  A text with some marks behind it has no other place for the
  text itself than the front, unless the text is all marks.
-/
theorem Text.eq_nil_of_append_eq
    {p : Char → Bool}
    {x u v marks : List Char}
    (hMarks : ∀ c ∈ marks, p c = true)
    (hu : ∃ c ∈ u, p c = false)
    (hSame : x ++ (u ++ v) = u ++ marks) :
    x = [] := by
  have hCount := congrArg (List.countP (fun c => !p c)) hSame
  simp only [List.countP_append] at hCount
  have hNone : marks.countP (fun c => !p c) = 0 :=
    List.countP_eq_zero.2 (fun c hc => by simp [hMarks c hc])
  have hFront : x.countP (fun c => !p c) = 0 := by omega
  have hx : ∀ c ∈ x, p c = true := by
    intro c hc
    simpa using List.countP_eq_zero.1 hFront c hc
  exact eq_of_append_eq hx (fun _ hc => absurd hc List.not_mem_nil)
    hu hSame

namespace Token

------------------------------------------------------------
-- Parts without characters
------------------------------------------------------------

/-
  Whether parts without characters stand only in front of all
  others, or behind them if no value follows.
-/
def Tight
    (parts : List (List Char))
    (value : List Char) : Prop :=
  ∃ m n,
    parts =
      List.replicate m [] ++
        (parts.filter isWritten ++ List.replicate n []) ∧
    (value ≠ [] → n = 0)

theorem not_isWritten_nil :
    ¬ isWritten [] = true :=
  Bool.false_ne_true

theorem eq_replicate_of_filter_eq_nil
    {parts : List (List Char)}
    (hNone : parts.filter isWritten = []) :
    parts = List.replicate parts.length [] :=
  List.eq_replicate_of_mem (fun part hPart =>
    eq_nil_of_not_isWritten
      (List.filter_eq_nil_iff.1 hNone part hPart))

/- Some parts are led by a first one that has characters. -/
theorem exists_first_written
    {parts : List (List Char)}
    (hWritten : parts.filter isWritten ≠ []) :
    ∃ m first rest,
      parts = List.replicate m [] ++ first :: rest ∧
      isWritten first = true := by
  induction parts with
  | nil => exact absurd rfl hWritten
  | cons part rest ih =>
      by_cases hPart : isWritten part = true
      · exact ⟨0, part, rest, rfl, hPart⟩
      · rw [List.filter_cons_of_neg hPart] at hWritten
        rcases ih hWritten with ⟨m, first, rest, rfl, hFirst⟩
        have hNil := eq_nil_of_not_isWritten hPart
        exact ⟨m + 1, first, rest, by rw [hNil]; rfl, hFirst⟩

theorem filter_replicate_append
    (m : Nat)
    {first : List Char}
    (hFirst : isWritten first = true)
    (rest : List (List Char)) :
    (List.replicate m [] ++ first :: rest).filter isWritten =
      first :: rest.filter isWritten := by
  rw [List.filter_append, List.filter_replicate,
    if_neg not_isWritten_nil, List.nil_append,
    List.filter_cons_of_pos hFirst]

/- Joined, parts without characters are only their colons. -/
theorem intercalate_replicate_append
    (m : Nat)
    (first : List Char)
    (rest : List (List Char)) :
    [':'].intercalate (List.replicate m [] ++ first :: rest) =
      List.replicate m ':' ++ (first ++ led rest) := by
  induction m with
  | zero => exact intercalate_eq_append_led first rest
  | succ m ih =>
      rw [List.replicate_succ, List.cons_append,
        List.intercalate_cons_of_ne_nil (by simp), ih]
      rfl

theorem led_append
    (xs ys : List (List Char)) :
    led (xs ++ ys) = led xs ++ led ys :=
  List.flatMap_append

/- Without parts that have no characters only colons are lost. -/
theorem filter_led
    (parts : List (List Char)) :
    (led (parts.filter isWritten)).filter (· ≠ ':') =
      (led parts).filter (· ≠ ':') := by
  induction parts with
  | nil => rfl
  | cons part rest ih =>
      by_cases hPart : isWritten part = true
      · rw [List.filter_cons_of_pos hPart, led_cons, led_cons,
          ← List.cons_append, ← List.cons_append,
          List.filter_append, List.filter_append, ih]
      · have hNil := eq_nil_of_not_isWritten hPart
        rw [List.filter_cons_of_neg hPart, led_cons, hNil, ih]
        simp

/-
  Behind the colon of a part without characters no other part
  that has some and no value can be found where it would have
  to begin: there stands another colon.
-/
theorem nothing_written_behind
    {value behind : List Char}
    (hValue : value.head? ≠ some ':')
    {parts : List (List Char)}
    (hPlain : ∀ part ∈ parts, ':' ∉ part)
    (hPrefix :
      led (parts.filter isWritten) ++ value <+:
        ':' :: (led parts ++ behind)) :
    parts.filter isWritten = [] ∧ value = [] := by
  cases hWritten : parts.filter isWritten with
  | nil =>
      refine ⟨rfl, ?_⟩
      rw [hWritten] at hPrefix
      cases value with
      | nil => rfl
      | cons c value =>
          have hColon := (List.cons_prefix_cons.1 hPrefix).1
          exact absurd (congrArg some hColon) hValue
  | cons p later =>
      have hMem : p ∈ parts.filter isWritten := by
        rw [hWritten]
        exact List.mem_cons_self
      rcases List.mem_filter.1 hMem with ⟨hPart, hChars⟩
      rcases List.exists_cons_of_ne_nil
          ((isWritten_iff p).1 hChars) with ⟨c, cs, rfl⟩
      rcases List.exists_cons_of_ne_nil
          (List.ne_nil_of_mem hPart) with ⟨q, others, rfl⟩
      rw [hWritten, led_cons, led_cons] at hPrefix
      have hColon :=
        (List.cons_prefix_cons.1
          (List.cons_prefix_cons.1 hPrefix).2).1
      exact absurd (hColon ▸ List.mem_cons_self) (hPlain _ hPart)

/-
  If parts agree with what they are without those that have
  no characters as far as the value behind them, then such
  parts stand only at the end. By induction on the parts:
  nothing is written behind the first one of them.
-/
theorem tight_of_prefix
    {value behind : List Char}
    (hValue : value.head? ≠ some ':')
    {parts : List (List Char)}
    (hPlain : ∀ part ∈ parts, ':' ∉ part)
    (hPrefix :
      led (parts.filter isWritten) ++ value <+:
        led parts ++ (value ++ behind)) :
    ∃ n,
      parts = parts.filter isWritten ++ List.replicate n [] ∧
      (value ≠ [] → n = 0) := by
  induction parts with
  | nil => exact ⟨0, rfl, fun _ => rfl⟩
  | cons part rest ih =>
      rcases List.forall_mem_cons.1 hPlain with ⟨_, hRest⟩
      by_cases hPart : isWritten part = true
      · rw [List.filter_cons_of_pos hPart] at hPrefix ⊢
        rw [led_cons, led_cons, List.cons_append, List.cons_append,
          List.cons_prefix_cons, List.append_assoc,
          List.append_assoc, List.prefix_append_right_inj]
          at hPrefix
        rcases ih hRest hPrefix.2 with ⟨n, hParts, hEnd⟩
        refine ⟨n, ?_, hEnd⟩
        rw [List.cons_append, ← hParts]
      · rw [List.filter_cons_of_neg hPart, led_cons,
          eq_nil_of_not_isWritten hPart] at hPrefix
        rcases nothing_written_behind hValue hRest hPrefix with
          ⟨hLater, hNone⟩
        have hParts : (part :: rest).filter isWritten = [] := by
          rw [List.filter_cons_of_neg hPart, hLater]
        refine ⟨(part :: rest).length, ?_, absurd hNone⟩
        rw [hParts]
        exact eq_replicate_of_filter_eq_nil hParts

------------------------------------------------------------
-- Layouts
------------------------------------------------------------

/-
  How a token stands in its text: the parts of its head, its
  value with the separator in front of it, and the marks that
  are not part of its identifier. Only the first part, which
  may be a breakpoint, can have colons.
-/
structure Layout where
  parts : List (List Char)
  value : List Char
  marks : List Char
  written : parts.filter isWritten ≠ []
  solid : ∀ part ∈ parts, part ≠ [] → ∃ c ∈ part, c ≠ ':'
  plain : ∀ part ∈ parts.tail, ':' ∉ part
  value_head : value.head? ≠ some ':'
  marks_mem : ∀ c ∈ marks, c = '=' ∨ c = '!'

namespace Layout

/- The text of a token. -/
def text
    (l : Layout) : List Char :=
  [':'].intercalate l.parts ++ (l.value ++ l.marks)

/- The identifier of a token. -/
def identifier
    (l : Layout) : List Char :=
  [':'].intercalate (l.parts.filter isWritten) ++ l.value

/- Of a text its first part with characters begins the identifier. -/
theorem exists_first
    (l : Layout) :
    ∃ m first rest,
      l.parts = List.replicate m [] ++ first :: rest ∧
      l.parts.filter isWritten = first :: rest.filter isWritten ∧
      l.text =
        List.replicate m ':' ++
          (first ++ (led rest ++ (l.value ++ l.marks))) ∧
      l.identifier =
        first ++ (led (rest.filter isWritten) ++ l.value) ∧
      (∃ c ∈ first, c ≠ ':') ∧
      ∀ part ∈ rest, ':' ∉ part := by
  rcases exists_first_written l.written with
    ⟨m, first, rest, hParts, hFirst⟩
  have hWritten :
      l.parts.filter isWritten = first :: rest.filter isWritten := by
    rw [hParts, filter_replicate_append m hFirst]
  refine ⟨m, first, rest, hParts, hWritten, ?_, ?_, ?_, ?_⟩
  · rw [text, hParts, intercalate_replicate_append,
      List.append_assoc, List.append_assoc]
  · rw [identifier, hWritten, intercalate_eq_append_led,
      List.append_assoc]
  · refine l.solid first ?_ ((isWritten_iff first).1 hFirst)
    rw [hParts]
    exact List.mem_append_right _ List.mem_cons_self
  · intro part hPart
    apply l.plain
    rw [hParts]
    cases m with
    | zero => exact hPart
    | succ m =>
        exact List.mem_append_right _ (List.mem_cons_of_mem _ hPart)

/- An identifier is its text without some of the characters. -/
theorem identifier_sublist
    (l : Layout) :
    l.identifier.Sublist l.text := by
  rcases l.exists_first with
    ⟨m, first, rest, _, _, hText, hIdentifier, _⟩
  rw [hText, hIdentifier]
  apply List.Sublist.trans _ (List.sublist_append_right _ _)
  apply (List.Sublist.refl first).append
  apply List.Sublist.append _ (List.sublist_append_left _ _)
  exact List.filter_sublist.flatMap _

/- A tight text has its identifier in one piece. -/
theorem infix_of_tight
    {l : Layout}
    (hTight : Tight l.parts l.value) :
    l.identifier <:+: l.text := by
  rcases hTight with ⟨m, n, hParts, hEnd⟩
  rcases List.exists_cons_of_ne_nil l.written with
    ⟨first, rest, hWritten⟩
  have hText :
      l.text =
        List.replicate m ':' ++
          (first ++ (led rest ++ (led (List.replicate n []) ++
            (l.value ++ l.marks)))) := by
    rw [text, hParts, hWritten, List.cons_append,
      intercalate_replicate_append, led_append]
    simp only [List.append_assoc]
  have hIdentifier :
      l.identifier = first ++ (led rest ++ l.value) := by
    rw [identifier, hWritten, intercalate_eq_append_led,
      List.append_assoc]
  rw [hText, hIdentifier]
  by_cases hValue : l.value = []
  · rw [hValue, List.append_nil]
    refine ⟨List.replicate m ':',
      led (List.replicate n []) ++ ([] ++ l.marks), ?_⟩
    simp only [List.append_assoc]
  · rw [hEnd hValue]
    refine ⟨List.replicate m ':', l.marks, ?_⟩
    simp only [List.append_assoc]
    rfl

/-
  Apart from colons only marks are lost. So where the text has
  its identifier in one piece, only colons stand in front of
  it, unless it consists of separators and marks.
-/
theorem front_of_infix
    {l : Layout}
    (hOrdinary :
      ∃ c ∈ l.identifier, c ≠ ':' ∧ c ≠ '=' ∧ c ≠ '!')
    {front back : List Char}
    (hPlace : front ++ (l.identifier ++ back) = l.text) :
    ∀ c ∈ front, c = ':' := by
  have hLost :
      l.text.filter (· ≠ ':') =
        l.identifier.filter (· ≠ ':') ++
          l.marks.filter (· ≠ ':') := by
    rcases l.exists_first with
      ⟨m, first, rest, _, _, hText, hIdentifier, _⟩
    rw [hText, hIdentifier]
    simp only [List.filter_append, filter_led, List.append_assoc,
      List.filter_replicate]
    rfl
  have hLetters := congrArg (List.filter (· ≠ ':')) hPlace
  rw [hLost, List.filter_append, List.filter_append] at hLetters
  have hMarks :
      ∀ c ∈ l.marks.filter (· ≠ ':'),
        decide (c = '=' ∨ c = '!') = true := by
    intro c hc
    exact decide_eq_true (l.marks_mem c (List.mem_filter.1 hc).1)
  have hOther :
      ∃ c ∈ l.identifier.filter (· ≠ ':'),
        decide (c = '=' ∨ c = '!') = false := by
    rcases hOrdinary with ⟨c, hc, hColon, hMark⟩
    refine ⟨c, List.mem_filter.2 ⟨hc, decide_eq_true hColon⟩, ?_⟩
    exact decide_eq_false (not_or.2 hMark)
  have hNone := Text.eq_nil_of_append_eq hMarks hOther hLetters
  intro c hc
  simpa using List.filter_eq_nil_iff.1 hNone c hc

/-
  A text that has its identifier in one piece is tight, if the
  identifier does not consist of separators and marks: behind
  their first part the two agree.
-/
theorem tight_of_infix
    {l : Layout}
    (hOrdinary :
      ∃ c ∈ l.identifier, c ≠ ':' ∧ c ≠ '=' ∧ c ≠ '!')
    (hInfix : l.identifier <:+: l.text) :
    Tight l.parts l.value := by
  rcases hInfix with ⟨front, back, hPlace⟩
  rw [List.append_assoc] at hPlace
  have hFront := front_of_infix hOrdinary hPlace
  rcases l.exists_first with
    ⟨m, first, rest, hParts, hWritten, hText, hIdentifier, hFirst,
      hPlain⟩
  rw [hText, hIdentifier, List.append_assoc, List.append_assoc]
    at hPlace
  have hColons : front = List.replicate m ':' := by
    have hOther : ∃ c ∈ first, decide (c = ':') = false := by
      rcases hFirst with ⟨c, hc, hNe⟩
      exact ⟨c, hc, decide_eq_false hNe⟩
    refine Text.eq_of_append_eq ?_ ?_ hOther hPlace
    · exact fun c hc => decide_eq_true (hFront c hc)
    · exact fun c hc => decide_eq_true (List.eq_of_mem_replicate hc)
  rw [hColons] at hPlace
  have hBehind :=
    List.append_cancel_left (List.append_cancel_left hPlace)
  rw [← List.append_assoc] at hBehind
  rcases tight_of_prefix l.value_head hPlain ⟨back, hBehind⟩ with
    ⟨n, hRest, hEnd⟩
  refine ⟨m, n, ?_, hEnd⟩
  rw [hWritten, List.cons_append, ← hRest, hParts]

end Layout

------------------------------------------------------------
-- The layout of a token that was read
------------------------------------------------------------

/- A text is what it means, and perhaps a mark. -/
theorem exists_mark
    (text : String) :
    ∃ marks,
      text.toList = (cutImportant text).1.toList ++ marks ∧
      ∀ c ∈ marks, c = '!' := by
  unfold cutImportant
  split
  · rename_i hLast
    refine ⟨['!'], ?_, fun c hc => List.mem_singleton.1 hc⟩
    rw [String.toList_ofList, List.dropLast_append_getLast? _ hLast]
  · exact ⟨[], (List.append_nil _).symm,
      fun c hc => absurd hc List.not_mem_nil⟩

/- A text is its clause, and perhaps a separator without value. -/
theorem exists_separator
    (text : String) :
    ∃ marks,
      text.toList =
        (Clause.ofText text).head.toList ++
          ((valueText (Clause.ofText text).value).toList ++ marks) ∧
      ∀ c ∈ marks, c = '=' := by
  unfold Clause.ofText
  cases hCut : Clause.cut 0 text.toList with
  | none =>
      refine ⟨[], ?_, fun c hc => absurd hc List.not_mem_nil⟩
      simp [valueText]
  | some parts =>
      rcases parts with ⟨head, value⟩
      have hText := (Clause.cut_eq_some_iff.1 hCut).1
      cases value with
      | nil =>
          refine ⟨['='], ?_, fun c hc => List.mem_singleton.1 hc⟩
          simpa [valueText] using hText
      | cons c cs =>
          refine ⟨[], ?_, fun d hd => absurd hd List.not_mem_nil⟩
          simpa [valueText] using hText

namespace Head

variable {cascade : Cascade} {text : String}

/- Only the first part of a head may have colons. -/
theorem not_colon_mem_of_mem_tail
    (hSegments : (ofText cascade text).segments ≠ []) :
    ∀ part ∈ (parts cascade text).tail, ':' ∉ part := by
  intro part hPart
  rcases parts_cases hSegments with
    ⟨b, rest, _, _, hParts⟩ | ⟨_, hParts⟩
  · rw [hParts] at hPart
    exact Text.not_mem_of_mem_splitOn hPart
  · rw [hParts] at hPart
    exact Text.not_mem_of_mem_splitOn (List.mem_of_mem_tail hPart)

/- Even that one does not consist of colons. -/
theorem exists_ne_colon_of_mem_parts
    (hSegments : (ofText cascade text).segments ≠ []) :
    ∀ part ∈ parts cascade text, part ≠ [] →
      ∃ c ∈ part, c ≠ ':' := by
  have hPlain :
      ∀ cs part : List Char, part ∈ cs.splitOn ':' → part ≠ [] →
        ∃ c ∈ part, c ≠ ':' := by
    intro cs part hPart hNe
    rcases List.exists_mem_of_ne_nil part hNe with ⟨c, hc⟩
    refine ⟨c, hc, ?_⟩
    rintro rfl
    exact Text.not_mem_of_mem_splitOn hPart hc
  have hName :
      ∀ b : Breakpoint, ∃ c ∈ b.name.toList, c ≠ ':' := by
    intro b
    refine ⟨'-', ?_, by decide⟩
    rw [Variant.name, String.toList_append]
    cases b.direction <;>
      exact List.mem_append_right _ (by decide)
  intro part hPart
  rcases parts_cases hSegments with
    ⟨b, rest, _, _, hParts⟩ | ⟨_, hParts⟩
  · rw [hParts] at hPart
    rcases List.mem_cons.1 hPart with rfl | hRest
    · exact fun _ => hName b
    · exact hPlain rest part hRest
  · rw [hParts] at hPart
    exact hPlain text.toList part hPart

end Head

/-
  Whether the head of a text has no part without characters
  that is dropped between others, or in front of a value.
-/
def IsTight
    (cascade : Cascade)
    (text : String) : Prop :=
  let clause := Clause.ofText (cutImportant text).1
  Tight (Head.parts cascade clause.head)
    (valueText clause.value).toList

section Reading

variable {cascade : Cascade} {catalog : Catalog}
variable {text : String} {t : Token}

/- The identifier of a token is made of the head and the value. -/
theorem toList_identifier
    (hRead : read? cascade catalog false text = some t) :
    let clause :=
      Clause.ofText (cutImportant (Text.trimmed text)).1
    t.identifier.toList =
      [':'].intercalate
          ((Head.parts cascade clause.head).filter isWritten) ++
        (valueText clause.value).toList := by
  intro clause
  rcases of_read? hRead with ⟨hKey, hToken⟩
  have hSegments : (Head.ofText cascade clause.head).segments ≠ [] :=
    List.ne_nil_of_mem (List.mem_of_getLast? hKey)
  have hIdentifier :
      t.identifier =
        String.intercalate ":"
            ((Head.ofText cascade clause.head).written ++
              (Head.ofText cascade clause.head).segments) ++
          valueText clause.value := by
    have hExplicit := congrArg explicit hToken
    have hBreakpoint := congrArg breakpoint hToken
    have hChain := congrArg chain hToken
    have hValue := congrArg value hToken
    dsimp only at hExplicit hBreakpoint hChain hValue
    rw [← List.dropLast_append_getLast? _ hKey, identifier,
      Head.written, hExplicit, hBreakpoint, hChain, hValue,
      List.append_assoc]
    rfl
  rw [hIdentifier, Head.filter_parts hSegments, String.toList_append,
    String.toList_intercalate]
  rfl

theorem exists_layout
    (hRead : read? cascade catalog false text = some t) :
    ∃ l : Layout,
      l.text = t.raw.toList ∧
      l.identifier = t.identifier.toList ∧
      (IsTight cascade t.raw ↔ Tight l.parts l.value) := by
  have hIdentifier := toList_identifier hRead
  rcases of_read? hRead with ⟨hKey, _⟩
  rw [← raw_of_read? hRead] at hIdentifier hKey
  rcases exists_mark t.raw with ⟨mark, hMark, hIsMark⟩
  rcases exists_separator (cutImportant t.raw).1 with
    ⟨sign, hSign, hIsSign⟩
  generalize hClause :
    Clause.ofText (cutImportant t.raw).1 = clause at *
  have hSegments : (Head.ofText cascade clause.head).segments ≠ [] :=
    List.ne_nil_of_mem (List.mem_of_getLast? hKey)
  let l : Layout :=
    { parts := Head.parts cascade clause.head
      value := (valueText clause.value).toList
      marks := sign ++ mark
      written := by
        rw [Head.filter_parts hSegments]
        simp [hSegments]
      solid := Head.exists_ne_colon_of_mem_parts hSegments
      plain := Head.not_colon_mem_of_mem_tail hSegments
      value_head := by
        cases clause.value with
        | none => simp [valueText]
        | some v =>
            rw [valueText, String.toList_append]
            simp
      marks_mem := by
        intro c hc
        exact (List.mem_append.1 hc).imp (hIsSign c) (hIsMark c) }
  refine ⟨l, ?_, hIdentifier.symm, ?_⟩
  · change
      [':'].intercalate (Head.parts cascade clause.head) ++
        ((valueText clause.value).toList ++ (sign ++ mark)) = _
    rw [Head.intercalate_parts hSegments, hMark, hSign]
    simp only [List.append_assoc]
  · unfold IsTight
    rw [hClause]

/- An identifier has no characters but those of the text. -/
theorem solid_identifier
    (hSolid : Text.Solid text)
    (hRead : read? cascade catalog false text = some t) :
    Text.Solid t.identifier := by
  rcases exists_layout hRead with ⟨l, hText, hIdentifier, _⟩
  rw [raw_of_read? hRead, Text.trimmed_eq_self hSolid] at hText
  intro c hc
  rw [← hIdentifier] at hc
  apply hSolid c
  rw [← hText]
  exact l.identifier_sublist.subset hc

/-
  The selector of a token without a payload searches for the
  identifier, which has its characters in the order of the
  text. They stand there in one piece if no part without
  characters is dropped from between others or from in front
  of the value. Otherwise they do not, unless the identifier
  consists of separators and marks, which a text may repeat.
-/
theorem identifier_occurs_where_no_part_is_dropped
    (hSolid : Text.Solid text)
    (hRead : read? cascade catalog false text = some t)
    (hPlain : t.isParametric = false)
    {u : Utility}
    (hOwn : u.selector = none) :
    Selector.subjects t u =
      ["[class*=" ++ Selector.quote t.identifier ++ "]"] ∧
    t.identifier.toList.Sublist text.toList ∧
    (IsTight cascade text →
      t.identifier.toList <:+: text.toList) ∧
    ((∃ c ∈ t.identifier.toList, c ≠ ':' ∧ c ≠ '=' ∧ c ≠ '!') →
      t.identifier.toList <:+: text.toList →
        IsTight cascade text) := by
  rcases exists_layout hRead with ⟨l, hText, hIdentifier, hTight⟩
  rw [raw_of_read? hRead, Text.trimmed_eq_self hSolid]
    at hText hTight
  rw [← hText, ← hIdentifier, hTight]
  refine ⟨?_, l.identifier_sublist, Layout.infix_of_tight,
    Layout.tight_of_infix⟩
  simp [Selector.subjects, Selector.ofClass, hOwn, hPlain]

theorem identifier_occurs_where_no_part_is_dropped_of_hover :
    let cascade : Cascade :=
      ⟨[("sm", 576), ("md", 768)], by decide, by decide⟩
    let catalog : Catalog :=
      { utilities := .ofList [("color", {})] }
    let text := ":hover:color=red!"
    ∃ t,
      read? cascade catalog false text = some t ∧
      t.identifier = "hover:color=red" ∧
      IsTight cascade text ∧
      t.identifier.toList <:+: text.toList := by
  intro cascade catalog text
  let t : Token :=
    ⟨text, "sm-up", ["hover"], "color", some "red", true, false,
      false⟩
  have hRead : read? cascade catalog false text = some t := by
    decide
  have hTight : IsTight cascade text :=
    ⟨1, 0, by decide, fun _ => rfl⟩
  have h := identifier_occurs_where_no_part_is_dropped
    (by decide) hRead (by decide) (u := {}) rfl
  exact ⟨t, hRead, by decide, hTight, h.2.2.1 hTight⟩

/- A part that is dropped in the middle takes a colon with it. -/
theorem identifier_does_not_occur_of_two_colons :
    let cascade : Cascade :=
      ⟨[("sm", 576), ("md", 768)], by decide, by decide⟩
    let catalog : Catalog :=
      { utilities := .ofList [("color", {})] }
    let text := "hover::color=red"
    ∃ t u,
      Text.Solid text ∧
      read? cascade catalog false text = some t ∧
      t.isParametric = false ∧
      catalog.utility? t.key = some u ∧
      u.selector = none ∧
      Selector.subjects t u = ["[class*=\"hover:color=red\"]"] ∧
      t.identifier = "hover:color=red" ∧
      ¬ t.identifier.toList <:+: text.toList := by
  intro cascade catalog text
  let t : Token :=
    ⟨text, "sm-up", ["hover"], "color", some "red", false, false,
      false⟩
  refine ⟨t, {}, by decide, by decide, by decide, by decide, rfl,
    by decide, by decide, by decide⟩

end Reading

end Token

end AtomicCss
