import AtomicCss.Proofs.Token.Spelling

/-
  This file proves what a text looks like from which a token
  is read: its head is the parts of the token with colons in
  between, among which there may be parts without characters.

  Key definitions include:
    * `Token.Head.parts`
    * `Token.led`

  The main statements are:
    * `Token.of_read?`
    * `Token.raw_of_read?`
    * `Token.eq_of_raw_eq`
    * `Token.Head.intercalate_parts`
    * `Token.Head.filter_parts`
-/

namespace AtomicCss

------------------------------------------------------------
-- Parts between separators
------------------------------------------------------------

/- What stands between separators has none. -/
theorem Text.not_mem_of_mem_splitOn
    {mark : Char}
    {cs part : List Char}
    (hPart : part ∈ cs.splitOn mark) :
    mark ∉ part := by
  induction cs generalizing part with
  | nil =>
      rw [List.splitOn_nil, List.mem_singleton] at hPart
      rw [hPart]
      exact List.not_mem_nil
  | cons c rest ih =>
      rw [List.splitOn_cons_eq_if_modifyHead] at hPart
      split at hPart
      · rcases List.mem_cons.1 hPart with rfl | hRest
        · exact List.not_mem_nil
        · exact ih hRest
      · rename_i hMark
        rcases List.exists_cons_of_ne_nil
            (List.splitOn_ne_nil mark rest) with
          ⟨first, others, hSplit⟩
        rw [hSplit] at hPart ih
        rcases List.mem_cons.1 hPart with rfl | hOther
        · intro hMem
          rcases List.mem_cons.1 hMem with rfl | hFirst
          · exact hMark (beq_self_eq_true _)
          · exact ih List.mem_cons_self hFirst
        · exact ih (List.mem_cons_of_mem _ hOther)

namespace Token

/- Parts with a colon in front of each. -/
def led
    (parts : List (List Char)) : List Char :=
  parts.flatMap (fun part => ':' :: part)

theorem led_cons
    (part : List Char)
    (rest : List (List Char)) :
    led (part :: rest) = ':' :: (part ++ led rest) :=
  List.flatMap_cons

/- Parts that are joined are the first one and the others led. -/
theorem intercalate_eq_append_led
    (first : List Char)
    (rest : List (List Char)) :
    [':'].intercalate (first :: rest) = first ++ led rest := by
  induction rest generalizing first with
  | nil =>
      rw [List.intercalate_singleton]
      exact (List.append_nil first).symm
  | cons part rest ih =>
      rw [List.intercalate_cons_cons, ih, led_cons,
        List.append_assoc]
      rfl

/- Whether a part has characters. -/
def isWritten
    (part : List Char) : Bool :=
  !part.isEmpty

theorem isWritten_iff
    (part : List Char) :
    isWritten part = true ↔ part ≠ [] := by
  rw [isWritten, Bool.not_eq_true', List.isEmpty_eq_false_iff]

theorem eq_nil_of_not_isWritten
    {part : List Char}
    (hPart : ¬ isWritten part = true) :
    part = [] :=
  not_not.1 (mt (isWritten_iff part).2 hPart)

------------------------------------------------------------
-- Tokens that were read
------------------------------------------------------------

variable {cascade : Cascade} {catalog : Catalog} {hosted : Bool}

/- A token that was read is what the cuts of its text give. -/
theorem of_read?
    {text : String}
    {t : Token}
    (hRead : read? cascade catalog hosted text = some t) :
    let raw := Text.trimmed text
    let clause := Clause.ofText (cutImportant raw).1
    let head := Head.ofText cascade clause.head
    head.segments.getLast? = some t.key ∧
    t =
      { raw := raw
        breakpoint := head.breakpoint.name
        chain := chainOf hosted head.segments.dropLast
        key := t.key
        value := clause.value
        important := (cutImportant raw).2
        hosted := hosted
        explicit := head.explicit } := by
  unfold read? at hRead
  dsimp only at hRead ⊢
  split at hRead
  · cases hRead
  · rename_i key hKey
    split at hRead
    · cases hRead
      exact ⟨hKey, rfl⟩
    · cases hRead

theorem raw_of_read?
    {text : String}
    {t : Token}
    (hRead : read? cascade catalog hosted text = some t) :
    t.raw = Text.trimmed text :=
  congrArg raw (of_read? hRead).2

/- So a token that is read is determined by its text. -/
theorem eq_of_raw_eq
    {x y : String}
    {t v : Token}
    (hx : read? cascade catalog hosted x = some t)
    (hy : read? cascade catalog hosted y = some v)
    (hRaw : t.raw = v.raw) :
    t = v := by
  have hTrimmed : Text.trimmed x = Text.trimmed y := by
    rw [← raw_of_read? hx, ← raw_of_read? hy, hRaw]
  unfold read? at hx hy
  rw [hTrimmed, hy] at hx
  exact (Option.some.inj hx).symm

------------------------------------------------------------
-- The parts of a head
------------------------------------------------------------

namespace Head

/-
  The parts of a head, with those that have no characters:
  the breakpoint that opens it, if there is one, and what
  stands between the colons behind it.
-/
def parts
    (cascade : Cascade)
    (text : String) : List (List Char) :=
  match cascade.longestOpening? text.toList with
  | some b =>
      b.name.toList ::
        (text.toList.drop (b.name.toList.length + 1)).splitOn ':'
  | none => text.toList.splitOn ':'

/- The breakpoint of a head, if it was written. -/
def written
    (head : Head) : List String :=
  if head.explicit then [head.breakpoint.name] else []

theorem name_toList_ne_nil
    (b : Breakpoint) :
    b.name.toList ≠ [] := by
  rw [Variant.name, String.toList_append]
  cases b.direction <;>
    exact List.append_ne_nil_of_right_ne_nil _ (by decide)

theorem ofText_of_opening
    {text : String}
    {b : Breakpoint}
    (hOpening : cascade.longestOpening? text.toList = some b) :
    ofText cascade text =
      ⟨b, true, pieces (text.toList.drop b.name.toList.length)⟩ := by
  simp only [ofText, hOpening]
  rfl

theorem ofText_of_no_opening
    {text : String}
    (hOpening : cascade.longestOpening? text.toList = none) :
    ofText cascade text =
      ⟨cascade.minimum, false, pieces text.toList⟩ := by
  simp only [ofText, hOpening]
  rfl

/-
  A head that has segments begins with its breakpoint and a
  colon, or no breakpoint opens it.
-/
theorem parts_cases
    {text : String}
    (hSegments : (ofText cascade text).segments ≠ []) :
    (∃ b rest,
      ofText cascade text = ⟨b, true, pieces rest⟩ ∧
      text.toList = b.name.toList ++ ':' :: rest ∧
      parts cascade text = b.name.toList :: rest.splitOn ':') ∨
    (ofText cascade text =
        ⟨cascade.minimum, false, pieces text.toList⟩ ∧
      parts cascade text = text.toList.splitOn ':') := by
  cases hOpening : cascade.longestOpening? text.toList with
  | none =>
      refine Or.inr ⟨ofText_of_no_opening hOpening, ?_⟩
      rw [parts, hOpening]
  | some b =>
      have hHead := ofText_of_opening hOpening
      have hOpens := (Cascade.of_longestOpening? hOpening).2
      rw [Cascade.opens, Bool.and_eq_true,
        List.isPrefixOf_iff_prefix] at hOpens
      rcases hOpens with ⟨⟨behind, hText⟩, hEnd⟩
      rw [← hText, List.drop_left] at hHead hEnd
      -- Without a colon behind the name there is no segment.
      cases behind with
      | nil => exact absurd (congrArg segments hHead) hSegments
      | cons c rest =>
          have hColon : c = ':' := of_decide_eq_true hEnd
          rw [hColon, pieces_colon] at hHead
          rw [hColon] at hText
          refine Or.inl ⟨b, rest, hHead, hText.symm, ?_⟩
          simp only [parts, hOpening]
          rw [← hText, ← List.drop_drop, List.drop_left,
            List.drop_one, List.tail_cons]

/- Joined by colons, the parts of a head are its text. -/
theorem intercalate_parts
    {text : String}
    (hSegments : (ofText cascade text).segments ≠ []) :
    [':'].intercalate (parts cascade text) = text.toList := by
  rcases parts_cases hSegments with
    ⟨b, rest, _, hText, hParts⟩ | ⟨_, hParts⟩
  · rcases List.exists_cons_of_ne_nil
      (List.splitOn_ne_nil ':' rest) with ⟨first, others, hSplit⟩
    have hRest : [':'].intercalate (rest.splitOn ':') = rest :=
      List.intercalate_splitOn ':'
    rw [hSplit, intercalate_eq_append_led] at hRest
    rw [hParts, intercalate_eq_append_led, hSplit, led_cons, hRest,
      hText]
  · rw [hParts, List.intercalate_splitOn]

/- Without those that have no characters, they are what is read. -/
theorem filter_parts
    {text : String}
    (hSegments : (ofText cascade text).segments ≠ []) :
    (parts cascade text).filter isWritten =
      ((ofText cascade text).written ++
        (ofText cascade text).segments).map String.toList := by
  have hPieces :
      ∀ cs : List Char,
        (pieces cs).map String.toList =
          (cs.splitOn ':').filter isWritten := by
    intro cs
    rw [pieces, List.map_map]
    conv_rhs => rw [← List.map_id ((cs.splitOn ':').filter isWritten)]
    apply List.map_congr_left
    intro part _
    exact String.toList_ofList
  rcases parts_cases hSegments with
    ⟨b, rest, hHead, _, hParts⟩ | ⟨hHead, hParts⟩
  · have hName : isWritten b.name.toList = true :=
      (isWritten_iff _).2 (name_toList_ne_nil b)
    rw [hParts, hHead, List.filter_cons_of_pos hName, ← hPieces]
    rfl
  · rw [hParts, hHead, ← hPieces]
    rfl

end Head

end Token

end AtomicCss
