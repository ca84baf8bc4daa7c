import AtomicCss.Proofs.RightToLeft.Decimal
import AtomicCss.Proofs.RightToLeft.Sides

/-
  This file proves that to turn horizontal offsets around
  twice changes nothing, and that it does not matter whether
  sides are swapped before or after.

  A call with an offset is its lead, up to the sign, and a
  text that begins with a decimal. The lead is clear of sides,
  and of further calls behind its first character. No search
  changes the decimal.

  Key definitions include:
    * `RightToLeft.OffsetCall.lead`
    * `RightToLeft.OffsetCall.Named`

  The main statements are:
    * `RightToLeft.OffsetCall.scan?_eq_some_iff`
    * `RightToLeft.negateOffsets_negateOffsets`
    * `RightToLeft.negateOffsets_swapSides`
-/

namespace AtomicCss.RightToLeft

open Text

------------------------------------------------------------
-- Arguments
------------------------------------------------------------

/- The characters in front of and in a number. -/
def isArgument
    (c : Char) : Bool :=
  c.isDigit || c = '.' || c = '-' || isBlank c

/- Words that begin with none of those. -/
def Apart
    (words : List (List Char)) : Prop :=
  ∀ w ∈ words, ∃ c ∈ w.head?, isArgument c = false

theorem apart_sides :
    Apart sides := by
  rw [Apart, sides, List.forall_mem_cons, List.forall_mem_singleton]
  exact ⟨⟨'l', rfl, by decide⟩, ⟨'r', rfl, by decide⟩⟩

/- An argument is clear of words that begin otherwise. -/
theorem Apart.clear
    {words : List (List Char)}
    (hApart : Apart words)
    {text : List Char}
    (hText : ∀ c ∈ text, isArgument c = true) :
    Clear words text := by
  have hNonempty : [] ∉ words := by
    intro hWord
    rcases hApart _ hWord with ⟨c, hHead, _⟩
    cases hHead
  apply clear_of_forall hNonempty
  intro c hc w hWord hHead
  rcases hApart w hWord with ⟨d, hd, hOther⟩
  rw [hHead, Option.mem_some_iff] at hd
  subst hd
  rw [hText c hc] at hOther
  cases hOther

/- The number of a call is an argument. -/
theorem isArgument_of_scanDecimal?
    {cs number : List Char}
    (hNumber : scanDecimal? cs = some number) :
    ∀ c ∈ number, isArgument c = true := by
  intro c hc
  rcases (scanDecimal?_spec hNumber).2.1 c hc with hDigit | rfl
  · simp [isArgument, hDigit]
  · decide

/- A search for words that begin otherwise keeps decimals. -/
theorem scanDecimal?_substitute
    {rule : Rule (List Char)}
    {words : List (List Char)}
    (hRule : rule.OpensWith words)
    (hApart : Apart words)
    (cs : List Char) :
    scanDecimal? (substitute rule 0 cs) = scanDecimal? cs := by
  have hDigits :
      ∀ w ∈ words, ∀ c, w.head? = some c → c.isDigit = false := by
    intro w hWord c hHead
    rcases hApart w hWord with ⟨d, hd, hOther⟩
    rw [hHead, Option.mem_some_iff] at hd
    subst hd
    simp only [isArgument, Bool.or_eq_false_iff] at hOther
    exact hOther.1.1.1
  have hPoint : Clear words ['.'] :=
    hApart.clear (List.forall_mem_singleton.2 (by decide))
  have hFraction :
      ∀ cs, pointDigits (substitute rule 0 cs) = pointDigits cs := by
    intro cs
    by_cases hCs : ∃ rest, cs = ['.'] ++ rest
    · rcases hCs with ⟨rest, rfl⟩
      rw [substitute_append_of_clear hRule hPoint]
      exact takeWhile_substitute hRule hDigits rest
    · have hSame :
          ¬ ∃ rest, substitute rule 0 cs = ['.'] ++ rest := by
        rintro ⟨rest, hText⟩
        rcases exists_of_substitute_eq_append hRule hPoint hText with
          ⟨tail, hTail, _⟩
        exact hCs ⟨tail, hTail⟩
      rw [pointDigits_eq_nil hSame, pointDigits_eq_nil hCs]
  rw [scanDecimal?_eq, scanDecimal?_eq,
    takeWhile_substitute hRule hDigits,
    dropWhile_substitute hRule hDigits, hFraction]

------------------------------------------------------------
-- Calls
------------------------------------------------------------

namespace OffsetCall

/- A call up to its number. -/
def lead
    (call : OffsetCall) : List Char :=
  call.head ++ if call.negative then ['-'] else []

/- The head is a function with white space behind it. -/
def Named
    (call : OffsetCall) : Prop :=
  ∃ function ∈ functions, ∃ blanks,
    (∀ c ∈ blanks, isBlank c = true) ∧
      call.head = function ++ blanks

theorem text_eq
    (call : OffsetCall) :
    call.text = call.lead ++ call.number :=
  rfl

/- No function is in front of another. -/
theorem find?_functions
    {function : List Char}
    (hFunction : function ∈ functions)
    (rest : List Char) :
    functions.find? (·.isPrefixOf (function ++ rest)) =
      some function := by
  simp only [functions, List.mem_cons, List.not_mem_nil,
    or_false] at hFunction
  rcases hFunction with rfl | rfl | rfl <;> rfl

/- A sign, if there is one, and a number behind a head. -/
def signed?
    (head rest : List Char) : Option OffsetCall :=
  match rest with
  | '-' :: rest => do return ⟨head, true, ← scanDecimal? rest⟩
  | rest => do return ⟨head, false, ← scanDecimal? rest⟩

theorem scan?_eq
    (cs : List Char) :
    scan? cs =
      (functions.find? (·.isPrefixOf cs)).bind (fun function =>
        let rest := cs.drop function.length
        signed? (function ++ rest.takeWhile isBlank)
          (rest.dropWhile isBlank)) :=
  rfl

/- Behind a function and its white space a number is read. -/
theorem scan?_append
    {function : List Char}
    (hFunction : function ∈ functions)
    {blanks : List Char}
    (hBlanks : ∀ c ∈ blanks, isBlank c = true)
    {rest : List Char}
    (hRest : ∀ c ∈ rest.head?, isBlank c = false) :
    scan? (function ++ blanks ++ rest) =
      signed? (function ++ blanks) rest := by
  rcases span_append hBlanks hRest with ⟨hRun, hBehind⟩
  rw [scan?_eq, List.append_assoc, find?_functions hFunction,
    Option.bind_some]
  dsimp only
  rw [List.drop_left, hRun, hBehind]

theorem signed?_eq_some_iff
    {head rest : List Char}
    {call : OffsetCall} :
    signed? head rest = some call ↔
      call.head = head ∧
        ∃ tail,
          rest = (if call.negative then ['-'] else []) ++ tail ∧
            scanDecimal? tail = some call.number := by
  constructor
  · intro hCall
    unfold signed? at hCall
    split at hCall
    · rename_i tail
      rcases Option.bind_eq_some_iff.1 hCall with
        ⟨number, hNumber, hCall⟩
      cases hCall
      exact ⟨rfl, tail, rfl, hNumber⟩
    · rcases Option.bind_eq_some_iff.1 hCall with
        ⟨number, hNumber, hCall⟩
      cases hCall
      exact ⟨rfl, rest, rfl, hNumber⟩
  · rcases call with ⟨callHead, negative, number⟩
    rintro ⟨rfl, tail, rfl, hNumber⟩
    cases negative with
    | true => exact Option.bind_eq_some_iff.2 ⟨number, hNumber, rfl⟩
    | false =>
        rcases scanDecimal?_front hNumber with
          ⟨c, rest, rfl, hSign, _⟩
        have hPlain :
            signed? callHead (c :: rest) =
              (scanDecimal? (c :: rest)).bind
                (fun number => some ⟨callHead, false, number⟩) := by
          unfold signed?
          split
          · rename_i hTail
            exact absurd (List.cons_eq_cons.1 hTail).1 hSign
          · rfl
        exact hPlain.trans
          (Option.bind_eq_some_iff.2 ⟨number, hNumber, rfl⟩)

/- What is found is a named call whose number follows its lead. -/
theorem scan?_eq_some_iff
    {cs : List Char}
    {call : OffsetCall} :
    scan? cs = some call ↔
      call.Named ∧
        ∃ tail, cs = call.lead ++ tail ∧
          scanDecimal? tail = some call.number := by
  rw [scan?_eq]
  constructor
  · intro hScan
    rcases Option.bind_eq_some_iff.1 hScan with
      ⟨function, hFind, hSigned⟩
    have hFunction := List.mem_of_find?_eq_some hFind
    have hPrefix := List.find?_some hFind
    rcases List.isPrefixOf_iff_prefix.1 hPrefix with ⟨rest, rfl⟩
    rw [List.drop_left] at hSigned
    rcases signed?_eq_some_iff.1 hSigned with
      ⟨hHead, tail, hRest, hNumber⟩
    refine ⟨⟨function, hFunction, _, ?_, hHead⟩, tail, ?_, hNumber⟩
    · exact fun c hc => List.mem_takeWhile_imp hc
    · rw [lead, hHead, List.append_assoc, List.append_assoc,
        ← hRest, List.takeWhile_append_dropWhile]
  · rintro ⟨⟨function, hFunction, blanks, hBlanks, hHead⟩,
      tail, rfl, hNumber⟩
    rcases scanDecimal?_front hNumber with
      ⟨c, rest, rfl, _, hBlank⟩
    -- Neither a sign nor a number begins with white space.
    have hStop :
        ∀ d ∈ ((if call.negative then ['-'] else []) ++
          c :: rest).head?, isBlank d = false := by
      intro d hd
      cases hSign : call.negative with
      | true =>
          rw [hSign] at hd
          exact Option.some.inj hd ▸ by decide
      | false =>
          rw [hSign] at hd
          exact Option.some.inj hd ▸ hBlank
    rw [← scan?_eq, lead, hHead, List.append_assoc,
      scan?_append hFunction hBlanks hStop, signed?_eq_some_iff]
    exact ⟨hHead, c :: rest, rfl, hNumber⟩

/- A lead is a function with the beginning of an argument. -/
theorem Named.lead_eq
    {call : OffsetCall}
    (hNamed : call.Named) :
    ∃ function ∈ functions, ∃ rest,
      call.lead = function ++ rest ∧
        ∀ c ∈ rest, isArgument c = true := by
  rcases hNamed with ⟨function, hFunction, blanks, hBlanks, hHead⟩
  refine ⟨function, hFunction,
    blanks ++ if call.negative then ['-'] else [], ?_, ?_⟩
  · rw [lead, hHead, List.append_assoc]
  · intro c hc
    rcases List.mem_append.1 hc with hc | hc
    · simp [isArgument, hBlanks c hc]
    · split at hc
      · cases List.mem_singleton.1 hc
        decide
      · cases hc

------------------------------------------------------------
-- Turning calls around
------------------------------------------------------------

@[simp]
theorem head_negated
    (call : OffsetCall) :
    call.negated.head = call.head := by
  unfold negated
  split <;> rfl

@[simp]
theorem number_negated
    (call : OffsetCall) :
    call.negated.number = call.number := by
  unfold negated
  split <;> rfl

@[simp]
theorem negated_negated
    (call : OffsetCall) :
    call.negated.negated = call := by
  rcases call with ⟨head, negative, number⟩
  unfold negated
  by_cases hZero : isZero number = true
  · simp [hZero]
  · simp [hZero]

theorem Named.negated
    {call : OffsetCall}
    (hNamed : call.Named) :
    call.negated.Named := by
  rw [Named, head_negated]
  exact hNamed

end OffsetCall

------------------------------------------------------------
-- Searching for calls
------------------------------------------------------------

/- The words that calls begin with. -/
def offsetWords : List (List Char) :=
  ["translate".toList]

theorem otherWay_eq_some_iff
    {cs found : List Char}
    {n : Nat} :
    otherWay cs = some (found, n) ↔
      ∃ call, OffsetCall.scan? cs = some call ∧
        call.negated.text = found ∧ call.text.length = n := by
  rw [otherWay, Option.map_eq_some_iff]
  simp only [Prod.mk.injEq]

theorem otherWay_eq_none_iff
    {cs : List Char} :
    otherWay cs = none ↔ OffsetCall.scan? cs = none :=
  Option.map_eq_none_iff

/- A named call begins with the word for calls. -/
theorem OffsetCall.Named.opens
    {call : OffsetCall}
    (hNamed : call.Named) :
    "translate".toList <+: call.text := by
  have hAll : ∀ f ∈ functions, "translate".toList <+: f := by
    decide
  rcases hNamed with ⟨function, hFunction, blanks, _, hHead⟩
  have hText : function <+: call.text := by
    rw [text_eq, lead, hHead, List.append_assoc, List.append_assoc]
    exact List.prefix_append _ _
  exact (hAll function hFunction).trans hText

/- A call that is found is in front. -/
theorem OffsetCall.prefix_of_scan?
    {cs : List Char}
    {call : OffsetCall}
    (hScan : scan? cs = some call) :
    call.text <+: cs := by
  rcases scan?_eq_some_iff.1 hScan with ⟨_, tail, rfl, hNumber⟩
  rw [text_eq, List.prefix_append_right_inj]
  exact (scanDecimal?_spec hNumber).2.2

theorem opensWith_otherWay :
    Rule.OpensWith otherWay offsetWords where
  nonempty := by decide
  length_pos := by
    intro cs found n hMatch
    rcases otherWay_eq_some_iff.1 hMatch with ⟨call, hScan, _, rfl⟩
    have hOpens := (OffsetCall.scan?_eq_some_iff.1 hScan).1.opens
    exact Nat.lt_of_lt_of_le (by decide) hOpens.length_le
  matched := by
    intro cs found n hMatch
    rcases otherWay_eq_some_iff.1 hMatch with ⟨call, hScan, _, _⟩
    have hOpens := (OffsetCall.scan?_eq_some_iff.1 hScan).1.opens
    exact ⟨_, List.mem_cons_self,
      hOpens.trans (OffsetCall.prefix_of_scan? hScan)⟩
  found := by
    intro cs found n hMatch
    rcases otherWay_eq_some_iff.1 hMatch with
      ⟨call, hScan, rfl, _⟩
    have hNamed := (OffsetCall.scan?_eq_some_iff.1 hScan).1
    exact ⟨_, List.mem_cons_self, hNamed.negated.opens⟩

theorem apart_offsetWords :
    Apart offsetWords := by
  rw [Apart, offsetWords, List.forall_mem_singleton]
  exact ⟨'t', rfl, by decide⟩

/- A search for calls keeps the decimals of a text. -/
theorem scanDecimal?_otherWay
    (cs : List Char) :
    scanDecimal? (substitute otherWay 0 cs) = scanDecimal? cs :=
  scanDecimal?_substitute opensWith_otherWay apart_offsetWords cs

/- Where no call was found, none comes about. -/
theorem otherWay_kept
    {c : Char}
    {rest : List Char}
    (hNone : otherWay (c :: rest) = none) :
    otherWay (c :: substitute otherWay 0 rest) = none := by
  rw [otherWay_eq_none_iff] at hNone ⊢
  apply Option.eq_none_iff_forall_not_mem.2
  intro call hScan
  rcases OffsetCall.scan?_eq_some_iff.1 hScan with
    ⟨hNamed, tail, hText, hNumber⟩
  rcases hNamed.lead_eq with ⟨function, hFunction, more, hLead, hMore⟩
  have hTail : ∀ f ∈ OffsetCall.functions,
      f ≠ [] ∧ Clear offsetWords f.tail := by
    decide
  have hArgument : Clear offsetWords more :=
    apart_offsetWords.clear hMore
  rcases hTail function hFunction with ⟨hNe, hClear⟩
  rcases List.exists_cons_of_ne_nil hNe with ⟨d, function, rfl⟩
  rw [hLead, List.cons_append, List.cons_append] at hText
  rcases List.cons_eq_cons.1 hText with ⟨rfl, hRest⟩
  rw [List.tail_cons] at hClear
  rcases exists_of_substitute_eq_append opensWith_otherWay
      (hClear.append hArgument) hRest with ⟨tail', rfl, rfl⟩
  rw [scanDecimal?_otherWay] at hNumber
  have hFound :
      OffsetCall.scan? (c :: (function ++ more ++ tail')) =
        some call :=
    OffsetCall.scan?_eq_some_iff.2
      ⟨hNamed, tail', by rw [hLead]; rfl, hNumber⟩
  rw [hNone] at hFound
  cases hFound

/- Where a call was turned around, it is found again. -/
theorem otherWay_back
    {cs found : List Char}
    {n : Nat}
    (hMatch : otherWay cs = some (found, n)) :
    otherWay (found ++ substitute otherWay 0 (cs.drop n)) =
      some (cs.take n, found.length) := by
  rcases otherWay_eq_some_iff.1 hMatch with ⟨call, hScan, rfl, rfl⟩
  rcases OffsetCall.prefix_of_scan? hScan with ⟨rest, rfl⟩
  rcases OffsetCall.scan?_eq_some_iff.1 hScan with
    ⟨hNamed, tail, hText, hNumber⟩
  rw [OffsetCall.text_eq, List.append_assoc,
    List.append_cancel_left_eq] at hText
  subst hText
  have hClear : Clear offsetWords call.number :=
    apart_offsetWords.clear (isArgument_of_scanDecimal? hNumber)
  rw [List.drop_left, List.take_left, otherWay_eq_some_iff]
  refine ⟨call.negated, ?_, by simp, rfl⟩
  rw [OffsetCall.scan?_eq_some_iff]
  refine ⟨hNamed.negated, substitute otherWay 0 (call.number ++ rest),
    ?_, ?_⟩
  · rw [substitute_append_of_clear opensWith_otherWay hClear,
      OffsetCall.text_eq, OffsetCall.number_negated,
      List.append_assoc]
  · rw [scanDecimal?_otherWay, OffsetCall.number_negated]
    exact hNumber

theorem substitute_otherWay_twice
    (cs : List Char) :
    substitute otherWay 0 (substitute otherWay 0 cs) = cs :=
  substitute_substitute opensWith_otherWay otherWay_back
    otherWay_kept cs

/- To turn horizontal offsets around twice changes nothing. -/
@[simp]
theorem negateOffsets_negateOffsets
    (s : String) :
    negateOffsets (negateOffsets s) = s := by
  rw [negateOffsets, negateOffsets, String.toList_ofList,
    substitute_otherWay_twice, String.ofList_toList]

------------------------------------------------------------
-- Sides and offsets
------------------------------------------------------------

/- What stands in front of the number of a call is clear of sides. -/
theorem OffsetCall.Named.clear_lead
    {call : OffsetCall}
    (hNamed : call.Named) :
    Clear sides call.lead := by
  have hFunctions : ∀ f ∈ functions, Clear sides f := by
    decide
  rcases hNamed.lead_eq with ⟨function, hFunction, more, hLead, hMore⟩
  rw [hLead]
  exact (hFunctions function hFunction).append
    (apart_sides.clear hMore)

/- So is the whole call. -/
theorem OffsetCall.Named.clear_text
    {call : OffsetCall}
    (hNamed : call.Named)
    (hNumber : ∀ c ∈ call.number, isArgument c = true) :
    Clear sides call.text :=
  hNamed.clear_lead.append (apart_sides.clear hNumber)

/- A call that is found is found as well once sides are swapped. -/
theorem scan?_otherSide_of_scan?
    {cs : List Char}
    {call : OffsetCall}
    (hScan : OffsetCall.scan? cs = some call) :
    OffsetCall.scan? (substitute otherSide 0 cs) = some call := by
  rcases OffsetCall.scan?_eq_some_iff.1 hScan with
    ⟨hNamed, tail, rfl, hNumber⟩
  rw [substitute_append_of_clear opensWith_otherSide
      hNamed.clear_lead,
    OffsetCall.scan?_eq_some_iff]
  refine ⟨hNamed, _, rfl, ?_⟩
  rw [scanDecimal?_substitute opensWith_otherSide apart_sides]
  exact hNumber

/- Hence swapped sides neither hide nor make calls. -/
theorem scan?_otherSide
    (cs : List Char) :
    OffsetCall.scan? (substitute otherSide 0 cs) =
      OffsetCall.scan? cs := by
  apply Option.ext
  intro call
  constructor
  · intro hScan
    have hTwice := scan?_otherSide_of_scan? hScan
    rwa [substitute_otherSide_twice] at hTwice
  · exact scan?_otherSide_of_scan?

/-
  Both sides end in a character that a call may begin with.
  The rest of a side is its stem.
-/
theorem otherSide_stems
    {cs found : List Char}
    {n : Nat}
    (hMatch : otherSide cs = some (found, n)) :
    ∃ stem stem' rest,
      cs = stem ++ 't' :: rest ∧ stem ≠ [] ∧
      Clear offsetWords stem ∧ Clear offsetWords stem' ∧
      ∀ tail,
        substitute otherSide 0 (stem ++ 't' :: tail) =
          stem' ++ substitute otherSide 0 ('t' :: tail) := by
  rcases otherSide_eq_some_iff.1 hMatch with
    ⟨rest, rfl, _, _⟩ | ⟨rest, rfl, _, _⟩
  · exact ⟨"lef".toList, "righ".toList, rest, rfl, by decide,
      by decide, by decide, fun tail => rfl⟩
  · exact ⟨"righ".toList, "lef".toList, rest, rfl, by decide,
      by decide, by decide, fun tail => rfl⟩

/- The first character stays where offsets are turned around. -/
theorem head?_otherWay
    (cs : List Char) :
    (substitute otherWay 0 cs).head? = cs.head? := by
  refine head?_substitute opensWith_otherWay (c := 't') ?_ cs
  decide

/- Where there is no side, none is there with offsets turned around. -/
theorem otherSide_otherWay
    {c : Char}
    {rest : List Char}
    (hNone : otherSide (c :: rest) = none) :
    otherSide (c :: substitute otherWay 0 rest) = none := by
  rw [otherSide_eq_none_iff] at hNone ⊢
  intro w hSide hPrefix
  have hStems :
      ∀ w ∈ sides, ∃ d stem, w = d :: (stem ++ ['t']) ∧
        Clear offsetWords stem := by
    intro w hSide
    simp only [sides, List.mem_cons, List.not_mem_nil,
      or_false] at hSide
    rcases hSide with rfl | rfl
    · exact ⟨'l', "ef".toList, rfl, by decide⟩
    · exact ⟨'r', "igh".toList, rfl, by decide⟩
  rcases hStems w hSide with ⟨d, stem, rfl, hClear⟩
  rcases List.cons_prefix_cons.1 hPrefix with ⟨rfl, more, hTail⟩
  rw [List.append_assoc] at hTail
  rcases exists_of_substitute_eq_append opensWith_otherWay
      hClear hTail.symm with ⟨tail, rfl, hMore⟩
  have hHead := head?_otherWay tail
  rw [hMore] at hHead
  cases tail with
  | nil => cases hHead
  | cons e tail =>
      cases hHead
      apply hNone _ hSide
      refine List.cons_prefix_cons.2 ⟨rfl, ?_⟩
      exact (List.prefix_append_right_inj stem).2
        (List.cons_prefix_cons.2 ⟨rfl, List.nil_prefix⟩)

/- A call is turned around in the same way with sides swapped. -/
theorem substitute_of_scan?
    {call : OffsetCall}
    {rest : List Char}
    (hScan : OffsetCall.scan? (call.text ++ rest) = some call) :
    substitute otherWay 0 (call.text ++ rest) =
        call.negated.text ++ substitute otherWay 0 rest ∧
      substitute otherSide 0 (call.text ++ rest) =
        call.text ++ substitute otherSide 0 rest ∧
      ∀ tail,
        substitute otherSide 0 (call.negated.text ++ tail) =
          call.negated.text ++ substitute otherSide 0 tail := by
  rcases OffsetCall.scan?_eq_some_iff.1 hScan with
    ⟨hNamed, _, _, hNumber⟩
  have hArgument := isArgument_of_scanDecimal? hNumber
  have hArgument' :
      ∀ c ∈ call.negated.number, isArgument c = true := by
    rw [OffsetCall.number_negated]
    exact hArgument
  have hMatch := otherWay_eq_some_iff.2 ⟨call, hScan, rfl, rfl⟩
  refine ⟨?_, ?_, ?_⟩
  · rw [substitute_of_match opensWith_otherWay hMatch,
      List.drop_left]
  · exact substitute_append_of_clear opensWith_otherSide
      (hNamed.clear_text hArgument) rest
  · intro tail
    rw [substitute_append_of_clear opensWith_otherSide
      (hNamed.negated.clear_text hArgument')]

/- The two searches may be made in either order. -/
theorem substitute_otherWay_otherSide
    (cs : List Char) :
    substitute otherWay 0 (substitute otherSide 0 cs) =
      substitute otherSide 0 (substitute otherWay 0 cs) := by
  induction hLength : cs.length using Nat.strong_induction_on
    generalizing cs with
  | _ length ih =>
      cases hSide : otherSide cs with
      | some finding =>
          -- The last character of a side may begin a call.
          rcases otherSide_stems (n := finding.2) hSide with
            ⟨stem, stem', rest, rfl, hNe, hStem, hStem', hSwap⟩
          have hShorter : ('t' :: rest).length < length := by
            have hPos := List.length_pos_iff.2 hNe
            rw [← hLength, List.length_append]
            omega
          have hHead := head?_otherWay ('t' :: rest)
          rcases List.head?_eq_some_iff.1 hHead with ⟨tail, hTail⟩
          rw [hSwap,
            substitute_append_of_clear opensWith_otherWay hStem',
            ih _ hShorter _ rfl,
            substitute_append_of_clear opensWith_otherWay hStem,
            hTail, hSwap]
      | none =>
          cases hScan : OffsetCall.scan? cs with
          | some call =>
              rcases OffsetCall.prefix_of_scan? hScan with ⟨rest, rfl⟩
              have hShorter : rest.length < length := by
                have hPos :=
                  opensWith_otherWay.length_pos
                    (otherWay_eq_some_iff.2 ⟨call, hScan, rfl, rfl⟩)
                rw [← hLength, List.length_append]
                omega
              rcases substitute_of_scan? hScan with
                ⟨hTurned, hSwapped, hBoth⟩
              have hScan' := scan?_otherSide_of_scan? hScan
              rw [hSwapped] at hScan'
              rw [hSwapped, (substitute_of_scan? hScan').1, hTurned,
                hBoth, ih _ hShorter _ rfl]
          | none =>
              cases cs with
              | nil => rfl
              | cons c rest =>
                  have hShorter : rest.length < length := by
                    rw [← hLength, List.length_cons]
                    exact Nat.lt_succ_self _
                  have hNone := otherWay_eq_none_iff.2 hScan
                  have hNone' :
                      otherWay (c :: substitute otherSide 0 rest) =
                        none := by
                    rw [otherWay_eq_none_iff,
                      ← substitute_of_none hSide, scan?_otherSide]
                    exact hScan
                  rw [substitute_of_none hSide,
                    substitute_of_none hNone', ih _ hShorter _ rfl,
                    substitute_of_none hNone,
                    substitute_of_none (otherSide_otherWay hSide)]

theorem negateOffsets_swapSides
    (s : String) :
    negateOffsets (swapSides s) = swapSides (negateOffsets s) := by
  rw [negateOffsets, swapSides, swapSides, negateOffsets,
    String.toList_ofList, String.toList_ofList,
    substitute_otherWay_otherSide]

end AtomicCss.RightToLeft
