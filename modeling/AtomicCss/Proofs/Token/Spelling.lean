import AtomicCss.Proofs.Cascade
import AtomicCss.Proofs.Clause
import AtomicCss.Proofs.Text.Trimming
import AtomicCss.Token.Reader
import Mathlib.Data.List.TakeWhile

/-
  This file proves that reading a token gives back what was
  written: its breakpoint, chain, key, value and mark.

  The four cuts of a text do not disturb each other, because
  names have no separators and a value has `=` only within
  its parentheses.

  Key definitions include:
    * `Token.Unmarked`
    * `Token.Spelling`
    * `Token.Spelling.text`
    * `Token.Spelling.Valid`
    * `Token.Spelling.token`

  The main statements are:
    * `Token.Head.ofText_explicit`
    * `Token.payloadOf?_eq_some_iff`
    * `Token.Spelling.text_injective`
    * `Token.Spelling.read?_text`
    * `Token.Spelling.reading_undoes_writing`
-/

namespace AtomicCss

------------------------------------------------------------
-- Texts
------------------------------------------------------------

/- Joined texts have the characters of the texts and colons. -/
theorem Text.mem_intercalate
    {c : Char}
    {parts : List String}
    (hMem : c ∈ (String.intercalate ":" parts).toList) :
    c = ':' ∨ ∃ s ∈ parts, c ∈ s.toList := by
  induction parts with
  | nil => simp at hMem
  | cons s rest ih =>
      by_cases hRest : rest = []
      · subst hRest
        rw [String.intercalate_singleton] at hMem
        exact Or.inr ⟨s, List.mem_cons_self, hMem⟩
      · rw [String.intercalate_cons_of_ne_nil hRest,
          String.toList_append, String.toList_append] at hMem
        rcases List.mem_append.1 hMem with hFront | hMem
        · rcases List.mem_append.1 hFront with hc | hColon
          · exact Or.inr ⟨s, List.mem_cons_self, hc⟩
          · exact Or.inl (List.mem_singleton.1 hColon)
        · rcases ih hMem with hColon | ⟨t, ht, hc⟩
          · exact Or.inl hColon
          · exact Or.inr ⟨t, List.mem_cons_of_mem s ht, hc⟩

/- A text without white space. -/
def Text.Solid
    (s : String) : Prop :=
  ∀ c ∈ s.toList, isBlank c = false

instance
    (s : String) :
    Decidable (Text.Solid s) :=
  List.decidableBAll (fun c => Text.isBlank c = false) s.toList

/- It has none at its ends. -/
theorem Text.trimmed_eq_self
    {s : String}
    (hSolid : Solid s) :
    trimmed s = s :=
  trimmed_of_bare
    ⟨fun c hc => hSolid c (List.mem_of_mem_head? hc),
      fun c hc => hSolid c (List.mem_of_getLast? hc)⟩

namespace Token

------------------------------------------------------------
-- Marks
------------------------------------------------------------

theorem cutImportant_mark
    (body : String) :
    cutImportant (body ++ "!") = (body, true) := by
  have hText : (body ++ "!").toList = body.toList ++ ['!'] := by
    rw [String.toList_append]
    rfl
  rw [cutImportant, hText, if_pos List.getLast?_concat,
    List.dropLast_concat, String.ofList_toList]

theorem cutImportant_of_not_mark
    {body : String}
    (hMark : body.toList.getLast? ≠ some '!') :
    cutImportant body = (body, false) :=
  if_neg hMark

------------------------------------------------------------
-- Payloads
------------------------------------------------------------

theorem toList_enclosed
    (payload : String) :
    ("(" ++ payload ++ ")").toList =
      '(' :: (payload.toList ++ [')']) := by
  rw [String.toList_append, String.toList_append]
  rfl

/- A payload is what one pair of parentheses encloses. -/
theorem payloadOf?_eq_some_iff
    {value payload : String} :
    payloadOf? value = some payload ↔
      value = "(" ++ payload ++ ")" ∧ '\n' ∉ payload.toList := by
  constructor
  · intro hSome
    unfold payloadOf? at hSome
    split at hSome
    · rename_i rest hValue
      split at hSome
      · rename_i hClosed
        rcases hClosed with ⟨hLast, hLine⟩
        cases hSome
        rw [String.toList_ofList]
        refine ⟨?_, hLine⟩
        apply String.toList_inj.1
        rw [toList_enclosed, String.toList_ofList, hValue,
          List.dropLast_append_getLast?]
        exact hLast
      · cases hSome
    · cases hSome
  · rintro ⟨rfl, hLine⟩
    rw [payloadOf?, toList_enclosed]
    simp only [List.getLast?_concat, List.dropLast_concat, hLine,
      not_false_eq_true, and_self, if_true, String.ofList_toList]

/- A value on one line has a payload if it is enclosed. -/
theorem isSome_payloadOf?_iff
    {value : String}
    (hLine : '\n' ∉ value.toList) :
    (payloadOf? value).isSome = true ↔
      value.toList.head? = some '(' ∧
      value.toList.getLast? = some ')' ∧
      2 ≤ value.length := by
  constructor
  · intro hSome
    rcases Option.isSome_iff_exists.1 hSome with ⟨p, hPayload⟩
    rcases payloadOf?_eq_some_iff.1 hPayload with ⟨rfl, _⟩
    rw [← String.length_toList, toList_enclosed]
    refine ⟨rfl, ?_, ?_⟩
    · rw [← List.cons_append, List.getLast?_concat]
    · rw [List.length_cons, List.length_append, List.length_singleton]
      omega
  · rintro ⟨hOpen, hClose, hLength⟩
    rw [← String.length_toList] at hLength
    cases hList : value.toList with
    | nil =>
        rw [hList] at hOpen
        cases hOpen
    | cons c rest =>
        rw [hList] at hOpen hClose hLength
        cases hOpen
        rcases List.eq_nil_or_concat' rest with rfl | ⟨p, d, rfl⟩
        · simp at hLength
        · rw [← List.cons_append, List.getLast?_concat] at hClose
          cases hClose
          have hValue : value = "(" ++ String.ofList p ++ ")" := by
            apply String.toList_inj.1
            rw [hList, toList_enclosed, String.toList_ofList]
          have hInner : '\n' ∉ (String.ofList p).toList := by
            intro hMem
            apply hLine
            rw [hValue, toList_enclosed]
            exact List.mem_cons_of_mem _
              (List.mem_append_left _ hMem)
          rw [payloadOf?_eq_some_iff.2 ⟨hValue, hInner⟩]
          rfl

------------------------------------------------------------
-- Heads
------------------------------------------------------------

namespace Head

variable {cascade : Cascade}

/- What stands between colons in a text, if it has characters. -/
def pieces
    (cs : List Char) : List String :=
  ((cs.splitOn ':').filter (fun s => !s.isEmpty)).map String.ofList

/- A colon in front adds only a part without characters. -/
theorem pieces_colon
    (cs : List Char) :
    pieces (':' :: cs) = pieces cs := by
  rw [pieces, List.splitOn_cons_eq_if_modifyHead,
    if_pos (by simp), List.filter_cons_of_neg (by simp)]
  rfl

/- Parts without colons that are joined by colons come back. -/
theorem pieces_intercalate
    {parts : List String}
    (hParts : ∀ s ∈ parts, s ≠ "" ∧ ':' ∉ s.toList) :
    pieces (String.intercalate ":" parts).toList = parts := by
  cases parts with
  | nil => rfl
  | cons first rest =>
      have hSplit :
          (String.intercalate ":" (first :: rest)).toList.splitOn ':' =
            (first :: rest).map String.toList := by
        rw [String.toList_intercalate]
        apply List.splitOn_intercalate
        · intro cs hCs
          rcases List.mem_map.1 hCs with ⟨s, hs, rfl⟩
          exact (hParts s hs).2
        · exact List.cons_ne_nil _ _
      have hKept :
          ((first :: rest).map String.toList).filter
            (fun cs => !cs.isEmpty) =
              (first :: rest).map String.toList := by
        apply List.filter_eq_self.2
        intro cs hCs
        rcases List.mem_map.1 hCs with ⟨s, hs, rfl⟩
        simpa using (hParts s hs).1
      rw [pieces, hSplit, hKept, List.map_map]
      conv_rhs => rw [← List.map_id (first :: rest)]
      apply List.map_congr_left
      intro s _
      exact String.ofList_toList

/- In front of the first colon stands the first part. -/
theorem takeWhile_intercalate
    {first : String}
    (hFirst : ':' ∉ first.toList)
    (rest : List String) :
    String.ofList
      ((String.intercalate ":" (first :: rest)).toList.takeWhile
        (· ≠ ':')) = first := by
  have hAll : ∀ d ∈ first.toList, decide (d ≠ ':') = true := by
    intro d hd
    exact decide_eq_true (fun h => hFirst (h ▸ hd))
  cases rest with
  | nil =>
      rw [String.intercalate_singleton,
        List.takeWhile_eq_self_iff.2 hAll, String.ofList_toList]
  | cons s rest =>
      rw [String.intercalate_cons_cons, String.toList_append,
        String.toList_append, List.append_assoc,
        List.takeWhile_append_of_pos hAll]
      change String.ofList (first.toList ++ []) = first
      rw [List.append_nil, String.ofList_toList]

/- Without colons in names, the first part may be a breakpoint. -/
variable
  (hColons : ∀ b ∈ cascade.breakpoints, ':' ∉ b.name.toList)

include hColons

theorem ofText_explicit
    {b : Breakpoint}
    (hb : b ∈ cascade.breakpoints)
    {parts : List String}
    (hNe : parts ≠ [])
    (hParts : ∀ s ∈ parts, s ≠ "" ∧ ':' ∉ s.toList) :
    ofText cascade (String.intercalate ":" (b.name :: parts)) =
      ⟨b, true, parts⟩ := by
  have hRest :
      (String.intercalate ":" (b.name :: parts)).toList =
        b.name.toList ++
          ':' :: (String.intercalate ":" parts).toList := by
    rw [String.intercalate_cons_of_ne_nil hNe, String.toList_append,
      String.toList_append, List.append_assoc]
    rfl
  have hOpening :
      cascade.longestOpening?
        (String.intercalate ":" (b.name :: parts)).toList = some b := by
    rw [Cascade.longestOpening?_eq_get? hColons,
      takeWhile_intercalate (hColons b hb), Cascade.get?_name hb]
  have hPieces := pieces_intercalate hParts
  rw [← pieces_colon] at hPieces
  rw [hRest] at hOpening
  simp only [ofText, hOpening, hRest, List.drop_left]
  exact congrArg (Head.mk b true) hPieces

theorem ofText_implicit
    {first : String}
    {rest : List String}
    (hFirst : cascade.get? first = none)
    (hParts : ∀ s ∈ first :: rest, s ≠ "" ∧ ':' ∉ s.toList) :
    ofText cascade (String.intercalate ":" (first :: rest)) =
      ⟨cascade.minimum, false, first :: rest⟩ := by
  have hOpening :
      cascade.longestOpening?
        (String.intercalate ":" (first :: rest)).toList = none := by
    rw [Cascade.longestOpening?_eq_get? hColons,
      takeWhile_intercalate (hParts first List.mem_cons_self).2,
      hFirst]
  simp only [ofText, hOpening]
  exact congrArg (Head.mk cascade.minimum false)
    (pieces_intercalate hParts)

end Head

------------------------------------------------------------
-- Spellings
------------------------------------------------------------

/- The characters between the parts of a token. -/
def separators : List Char :=
  [':', '=', '(', ')']

/- A text without separators and without white space. -/
def Unmarked
    (s : String) : Prop :=
  ∀ c ∈ s.toList, c ∉ separators ∧ Text.isBlank c = false

instance
    (s : String) :
    Decidable (Unmarked s) :=
  List.decidableBAll
    (fun c => c ∉ separators ∧ Text.isBlank c = false) s.toList

/-
  A token as it is written: perhaps with the name of a
  breakpoint, with qualifiers, a key, perhaps a value, and
  with or without the mark.
-/
@[ext]
structure Spelling where
  breakpoint : Option String
  chain : List String
  key : String
  value : Option String
  important : Bool
deriving DecidableEq

namespace Spelling

/- The chain and the key. -/
def segments
    (w : Spelling) : List String :=
  w.chain ++ [w.key]

/- The text in front of the value. -/
def head
    (w : Spelling) : String :=
  String.intercalate ":" (w.breakpoint.toList ++ w.segments)

/- The text in front of the mark. -/
def body
    (w : Spelling) : String :=
  w.head ++ valueText w.value

/- The text that is written. -/
def text
    (w : Spelling) : String :=
  if w.important then w.body ++ "!" else w.body

/-
  What can be written. Of values with `=` only those are
  meant that stand in one pair of parentheses as a whole.
-/
structure Valid
    (cascade : Cascade)
    (w : Spelling) : Prop where
  breakpoint :
    ∀ name ∈ w.breakpoint, cascade.contains name = true
  segments :
    ∀ s ∈ w.segments, s ≠ "" ∧ Unmarked s
  first :
    w.breakpoint = none →
      ∀ s ∈ w.segments.head?, cascade.contains s = false
  value :
    ∀ v ∈ w.value,
      v ≠ "" ∧
      Text.Solid v ∧
      ('=' ∉ v.toList ∨
        ∃ p, v = "(" ++ p ++ ")" ∧ Clause.Nested p.toList)
  mark :
    w.important = false → w.body.toList.getLast? ≠ some '!'

/- The chain that is read: a host without a chain is one itself. -/
def chainRead
    (hosted : Bool)
    (w : Spelling) : List String :=
  if hosted && w.chain.isEmpty then [":host"] else w.chain

/- The token that is written. -/
def token
    (cascade : Cascade)
    (hosted : Bool)
    (w : Spelling) : Token where
  raw := w.text
  breakpoint := w.breakpoint.getD cascade.minimum.name
  chain := w.chainRead hosted
  key := w.key
  value := w.value
  important := w.important
  hosted := hosted
  explicit := w.breakpoint.isSome

------------------------------------------------------------
-- The cuts of a spelling
------------------------------------------------------------

section Cuts

variable {cascade : Cascade} {w : Spelling}

/- All derived names are free of separators and white space. -/
variable (hNames : ∀ b ∈ cascade.breakpoints, Unmarked b.name)
variable (hValid : w.Valid cascade)

include hValid

/- The mark is cut off. -/
theorem cutImportant_text :
    cutImportant w.text = (w.body, w.important) := by
  unfold text
  cases hMark : w.important with
  | true => exact cutImportant_mark w.body
  | false => exact cutImportant_of_not_mark (hValid.mark hMark)

include hNames

/- The breakpoint and the segments are unmarked. -/
theorem unmarked_of_mem_parts
    {s : String}
    (hMem : s ∈ w.breakpoint.toList ++ w.segments) :
    Unmarked s := by
  rcases List.mem_append.1 hMem with hWritten | hSegment
  · have hContains := hValid.breakpoint s (by simpa using hWritten)
    rcases Option.isSome_iff_exists.1 hContains with ⟨b, hFound⟩
    rcases Cascade.of_get? hFound with ⟨hb, hName⟩
    exact hName ▸ hNames b hb
  · exact (hValid.segments s hSegment).2

/- A head consists of colons and unmarked characters. -/
theorem of_mem_head
    {c : Char}
    (hMem : c ∈ w.head.toList) :
    c = ':' ∨ c ∉ separators ∧ Text.isBlank c = false := by
  rcases Text.mem_intercalate hMem with hColon | ⟨s, hs, hc⟩
  · exact Or.inl hColon
  · exact Or.inr (unmarked_of_mem_parts hNames hValid hs c hc)

/- A spelling has no white space. -/
theorem solid_text :
    Text.Solid w.text := by
  have hHead : Text.Solid w.head := by
    intro c hc
    rcases of_mem_head hNames hValid hc with rfl | hPlain
    · decide
    · exact hPlain.2
  have hTail : Text.Solid (valueText w.value) := by
    intro c hc
    cases hValue : w.value with
    | none => simp [hValue, valueText] at hc
    | some v =>
        rw [hValue, valueText, String.toList_append] at hc
        rcases List.mem_append.1 hc with hSign | hc
        · rw [List.mem_singleton.1 hSign]
          decide
        · exact (hValid.value v hValue).2.1 c hc
  have hBody : Text.Solid w.body := by
    intro c hc
    rw [body, String.toList_append] at hc
    exact (List.mem_append.1 hc).elim (hHead c) (hTail c)
  unfold text
  split
  · intro c hc
    rw [String.toList_append] at hc
    rcases List.mem_append.1 hc with hc | hMark
    · exact hBody c hc
    · rw [List.mem_singleton.1 hMark]
      decide
  · exact hBody

/- The value is cut off in front of its separator. -/
theorem ofText_body :
    Clause.ofText w.body = ⟨w.head, w.value⟩ := by
  have hHead :
      ∀ c ∈ w.head.toList, c ≠ '=' ∧ c ≠ '(' ∧ c ≠ ')' := by
    intro c hc
    rcases of_mem_head hNames hValid hc with rfl | hPlain
    · decide
    · refine ⟨?_, ?_, ?_⟩ <;>
      · rintro rfl
        exact hPlain.1 (by decide)
  unfold body
  cases hValue : w.value with
  | none =>
      rw [valueText, String.append_empty]
      exact Clause.ofText_of_not_mem (fun h => (hHead _ h).1 rfl)
  | some v =>
      rcases hValid.value v hValue with ⟨hNe, _, hShape⟩
      have hInner : Clause.Enclosed v.toList := by
        rcases hShape with hPlain | ⟨p, rfl, hNested⟩
        · exact Clause.enclosed_of_not_mem hPlain
        · rw [toList_enclosed]
          exact Clause.enclosed_parenthesized hNested
      exact Clause.ofText_separator
        (fun c hc => (hHead c hc).2) hNe hInner

/- The head is cut into its breakpoint and its segments. -/
theorem ofText_head :
    ∃ b,
      b.name = w.breakpoint.getD cascade.minimum.name ∧
      Head.ofText cascade w.head =
        ⟨b, w.breakpoint.isSome, w.segments⟩ := by
  have hColon : ∀ s, Unmarked s → ':' ∉ s.toList :=
    fun s hPlain hMem => (hPlain ':' hMem).1 (by decide)
  have hColons : ∀ b ∈ cascade.breakpoints, ':' ∉ b.name.toList :=
    fun b hb => hColon b.name (hNames b hb)
  have hParts : ∀ s ∈ w.segments, s ≠ "" ∧ ':' ∉ s.toList :=
    fun s hs => ⟨(hValid.segments s hs).1,
      hColon s (hValid.segments s hs).2⟩
  have hNe : w.segments ≠ [] := by
    simp [segments]
  cases hWritten : w.breakpoint with
  | none =>
      rcases List.exists_cons_of_ne_nil hNe with ⟨s, rest, hList⟩
      have hFirst : cascade.get? s = none := by
        have hContains := hValid.first hWritten s (by simp [hList])
        simpa [Cascade.contains] using hContains
      refine ⟨cascade.minimum, rfl, ?_⟩
      rw [hList] at hParts
      rw [head, hWritten, hList]
      exact Head.ofText_implicit hColons hFirst hParts
  | some name =>
      have hContains := hValid.breakpoint name hWritten
      rcases Option.isSome_iff_exists.1 hContains with ⟨b, hFound⟩
      rcases Cascade.of_get? hFound with ⟨hb, hName⟩
      refine ⟨b, hName, ?_⟩
      rw [head, hWritten, ← hName]
      exact Head.ofText_explicit hColons hb hNe hParts

end Cuts

/- So different spellings have different texts. -/
theorem text_injective
    {cascade : Cascade}
    (hNames : ∀ b ∈ cascade.breakpoints, Unmarked b.name)
    {v w : Spelling}
    (hv : v.Valid cascade)
    (hw : w.Valid cascade)
    (hText : v.text = w.text) :
    v = w := by
  have hBodies := cutImportant_text hv
  rw [hText, cutImportant_text hw, Prod.mk.injEq] at hBodies
  rcases hBodies with ⟨hBody, hMark⟩
  have hClauses := ofText_body hNames hv
  rw [← hBody, ofText_body hNames hw, Clause.mk.injEq] at hClauses
  rcases hClauses with ⟨hHead, hValue⟩
  rcases ofText_head hNames hv with ⟨a, hNameV, hHeadV⟩
  rcases ofText_head hNames hw with ⟨b, hNameW, hHeadW⟩
  rw [← hHead, hHeadW, Head.mk.injEq] at hHeadV
  rcases hHeadV with ⟨rfl, hSome, hSegments⟩
  have hBreakpoint : v.breakpoint = w.breakpoint := by
    rw [hNameV] at hNameW
    cases hWrittenV : v.breakpoint <;>
      cases hWrittenW : w.breakpoint <;>
        simp_all
  rcases List.append_inj' hSegments rfl with ⟨hChain, hKey⟩
  exact Spelling.ext hBreakpoint hChain.symm
    (List.singleton_inj.1 hKey).symm hValue.symm hMark.symm

------------------------------------------------------------
-- Reading a spelling
------------------------------------------------------------

section Reading

variable {cascade : Cascade} {w : Spelling}

theorem read?_text
    (hNames : ∀ b ∈ cascade.breakpoints, Unmarked b.name)
    (hValid : w.Valid cascade)
    {catalog : Catalog}
    (hKey : catalog.contains w.key = true)
    (hosted : Bool) :
    read? cascade catalog hosted w.text =
      some (w.token cascade hosted) := by
  rcases ofText_head hNames hValid with ⟨b, hName, hHead⟩
  have hKeyLast : w.segments.getLast? = some w.key :=
    List.getLast?_concat
  have hChain : w.segments.dropLast = w.chain :=
    List.dropLast_concat
  unfold read?
  rw [Text.trimmed_eq_self (solid_text hNames hValid)]
  simp only [cutImportant_text hValid, ofText_body hNames hValid,
    hHead, hKeyLast, hChain, hKey, hName, if_true]
  rfl

/- Values are written on one line. -/
theorem newline_not_mem_value
    (hValid : w.Valid cascade)
    {v : String}
    (hValue : w.value = some v) :
    '\n' ∉ v.toList := by
  intro hMem
  have hBlank := (hValid.value v hValue).2.1 _ hMem
  exact absurd hBlank (by decide)

theorem isParametric_token
    (hValid : w.Valid cascade)
    (hosted : Bool) :
    (w.token cascade hosted).isParametric = true ↔
      ∃ v, w.value = some v ∧
        v.toList.head? = some '(' ∧
        v.toList.getLast? = some ')' ∧
        2 ≤ v.length := by
  change (w.value.bind payloadOf?).isSome = true ↔ _
  cases hValue : w.value with
  | none => simp
  | some v =>
      have hIff :=
        isSome_payloadOf?_iff (newline_not_mem_value hValid hValue)
      simpa using hIff

theorem payload?_token
    (hValid : w.Valid cascade)
    (hosted : Bool)
    (payload : String) :
    (w.token cascade hosted).payload? = some payload ↔
      w.value = some ("(" ++ payload ++ ")") := by
  change w.value.bind payloadOf? = some payload ↔ _
  cases hValue : w.value with
  | none => simp
  | some v =>
      rw [Option.bind_some, payloadOf?_eq_some_iff, Option.some_inj]
      constructor
      · exact fun h => h.1
      · rintro rfl
        refine ⟨rfl, fun hMem => ?_⟩
        apply newline_not_mem_value hValid hValue
        rw [toList_enclosed]
        exact List.mem_cons_of_mem _ (List.mem_append_left _ hMem)

/- The identifier is the body of the chain that was read. -/
theorem identifier_token
    (cascade : Cascade)
    (w : Spelling)
    (hosted : Bool) :
    (w.token cascade hosted).identifier =
      { w with chain := w.chainRead hosted }.body := by
  unfold identifier body head segments token
  cases w.breakpoint <;> simp

end Reading

/- Derived names add nothing to configured ones but their endings. -/
theorem unmarked_name
    {cascade : Cascade}
    (hStops : ∀ stop ∈ cascade.stops, Unmarked stop.1)
    {b : Breakpoint}
    (hb : b ∈ cascade.breakpoints) :
    Unmarked b.name := by
  intro c hc
  rw [Variant.name, String.toList_append] at hc
  rcases List.mem_append.1 hc with hBase | hEnding
  · rcases List.mem_map.1 (cascade.base_mem_stops hb) with
      ⟨stop, hStop, hName⟩
    rw [← hName] at hBase
    exact hStops stop hStop c hBase
  · have hEndings : ∀ d : Direction, Unmarked d.ending := by
      intro d
      cases d <;> decide
    exact hEndings b.direction c hEnding

/-
  Reading undoes writing. What is read has the breakpoint,
  the chain, the key, the value and the mark that were
  written; it has a payload exactly if its value stands in
  parentheses, and its identifier is what stands in front of
  the mark, with the host in place of a missing chain.
-/
theorem reading_undoes_writing
    {cascade : Cascade}
    (hStops : ∀ stop ∈ cascade.stops, Unmarked stop.1)
    {w : Spelling}
    (hValid : w.Valid cascade)
    {catalog : Catalog}
    (hKey : catalog.contains w.key = true)
    (hosted : Bool) :
    let t := w.token cascade hosted
    read? cascade catalog hosted w.text = some t ∧
    (t.isParametric = true ↔
      ∃ v, w.value = some v ∧
        v.toList.head? = some '(' ∧
        v.toList.getLast? = some ')' ∧
        2 ≤ v.length) ∧
    (∀ payload,
      t.payload? = some payload ↔
        w.value = some ("(" ++ payload ++ ")")) ∧
    t.identifier =
      { w with chain := w.chainRead hosted }.body := by
  have hNames : ∀ b ∈ cascade.breakpoints, Unmarked b.name :=
    fun b hb => unmarked_name hStops hb
  exact ⟨read?_text hNames hValid hKey hosted,
    isParametric_token hValid hosted,
    payload?_token hValid hosted,
    identifier_token cascade w hosted⟩

theorem reading_undoes_writing_of_content :
    let cascade : Cascade :=
      ⟨[("sm", 576), ("md", 768)], by decide, by decide⟩
    let catalog : Catalog :=
      { utilities := .ofList [("content", {})] }
    let w : Spelling :=
      ⟨some "md-up", ["hover"], "content", some "(a=b:(c))", true⟩
    w.text = "md-up:hover:content=(a=b:(c))!" ∧
    w.Valid cascade ∧
    catalog.contains w.key = true ∧
    read? cascade catalog true w.text = some
      ⟨w.text, "md-up", ["hover"], "content", some "(a=b:(c))",
        true, true, true⟩ ∧
    (w.token cascade true).payload? = some "a=b:(c)" := by
  intro cascade catalog w
  have hStops : ∀ stop ∈ cascade.stops, Unmarked stop.1 := by decide
  have hValid : w.Valid cascade := {
    breakpoint := by decide
    segments := by decide
    first := by decide
    value := by
      intro v hValue
      cases hValue
      exact ⟨by decide, by decide,
        Or.inr ⟨"a=b:(c)", by decide, by decide⟩⟩
    mark := by decide }
  have hKey : catalog.contains w.key = true := by decide
  have h := reading_undoes_writing hStops hValid hKey true
  exact ⟨by decide, hValid, hKey, h.1, (h.2.2.1 "a=b:(c)").2 rfl⟩

end Spelling

end Token

end AtomicCss
