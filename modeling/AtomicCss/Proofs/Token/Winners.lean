import AtomicCss.Proofs.Batch.Competition
import AtomicCss.Token.Reader

/-
  This file proves which tokens are left when a list of them
  is settled: of each place the last one, where the first was
  written.

  A settled list is the map from places to their last tokens,
  written out. So it is settled itself, and lists in a row can
  be settled one by one before they are settled together.

  Tokens of one place differ in value and mark only, and are
  read to the same breakpoint, chain and key.

  Key definitions include:
    * `Token.EndsPlace`
    * `Token.address`
    * `Token.addressOf?`

  The main statements are:
    * `Token.placed_settle`
    * `Token.map_place_settle`
    * `Token.getLast?_rivals_of_mem_settle`
    * `Token.endsPlace_of_getLast?_rivals`
    * `Token.settle_settle`
    * `Token.settle_settle_append`
    * `Token.map_address_read?`
    * `Token.settling_keeps_the_last_of_each_place`
-/

namespace AtomicCss.Token

------------------------------------------------------------
-- Settled lists
------------------------------------------------------------

/- What the map of a list holds are tokens with their places. -/
theorem of_mem_entries
    {tokens : List String}
    {e : String × String}
    (hEntry : e ∈ (OrderedMap.ofList (placed tokens)).entries) :
    e.1 = place e.2 ∧ (rivals e.1 tokens).getLast? = some e.2 := by
  rcases List.mem_map.1 (OrderedMap.mem_entries_ofList hEntry) with
    ⟨t, _, rfl⟩
  refine ⟨rfl, ?_⟩
  rw [← last?_placed]
  exact OrderedMap.last?_of_mem_entries_ofList hEntry

/- A settled token is the last one of its place. -/
theorem getLast?_rivals_of_mem_settle
    {tokens : List String}
    {t : String}
    (hSettled : t ∈ settle tokens) :
    (rivals (place t) tokens).getLast? = some t := by
  rcases List.mem_map.1 hSettled with ⟨e, he, rfl⟩
  rcases of_mem_entries he with ⟨hPlace, hLast⟩
  rw [← hPlace]
  exact hLast

/- Settled tokens are as they are written. -/
theorem written_settle
    (tokens : List String) :
    written (settle tokens) = settle tokens := by
  have hOwn :
      ∀ t ∈ settle tokens, Text.trimmed t = t ∧ t ≠ "" := by
    intro t ht
    have hLast := getLast?_rivals_of_mem_settle ht
    rcases trimmed_of_mem_rivals (List.mem_of_getLast? hLast) with
      ⟨hTrimmed, hNe, _⟩
    exact ⟨hTrimmed, hNe⟩
  have hTrimmed :
      (settle tokens).map Text.trimmed = settle tokens := by
    conv_rhs => rw [← List.map_id (settle tokens)]
    exact List.map_congr_left (fun t ht => (hOwn t ht).1)
  rw [written, hTrimmed]
  exact List.filter_eq_self.2
    (fun t ht => decide_eq_true (hOwn t ht).2)

/- With their places they are what the map of the list holds. -/
theorem placed_settle
    (tokens : List String) :
    placed (settle tokens) =
      (OrderedMap.ofList (placed tokens)).entries := by
  rw [placed, written_settle, settle_eq, OrderedMap.values,
    List.map_map]
  conv_rhs => rw [← List.map_id (OrderedMap.ofList _).entries]
  apply List.map_congr_left
  intro e he
  exact Prod.ext (of_mem_entries he).1.symm rfl

/- The places stand in the order in which they first occur. -/
theorem map_place_settle
    (tokens : List String) :
    (settle tokens).map place =
      ((written tokens).map place).eraseDups := by
  have hKeys : ∀ xs, (placed xs).map Prod.fst = (written xs).map place :=
    fun xs => List.map_map
  rw [← hKeys, ← OrderedMap.keys_ofList, OrderedMap.keys,
    ← placed_settle, hKeys, written_settle]

/- A list that is settled is settled to itself. -/
theorem settle_settle
    (tokens : List String) :
    settle (settle tokens) = settle tokens := by
  rw [settle_eq, placed_settle, OrderedMap.ofList_entries, settle_eq]

/- Lists in a row can be settled one by one first. -/
theorem settle_settle_append
    (xs ys : List String) :
    settle (settle xs ++ settle ys) = settle (xs ++ ys) := by
  simp only [settle_eq (_ ++ _), placed_append,
    OrderedMap.ofList_append, placed_settle,
    OrderedMap.ofList_entries]

------------------------------------------------------------
-- Last tokens of a place
------------------------------------------------------------

/- Whether a text is that of the last token with its place. -/
def EndsPlace
    (tokens : List String)
    (t : String) : Prop :=
  ∃ front text back,
    tokens = front ++ text :: back ∧
    Text.trimmed text = t ∧
    ∀ later ∈ written back, place later ≠ place t

theorem endsPlace_of_getLast?_rivals
    {tokens : List String}
    {t : String}
    (hLast : (rivals (place t) tokens).getLast? = some t) :
    EndsPlace tokens t := by
  induction tokens using List.reverseRecOn with
  | nil => cases hLast
  | append_singleton rest text ih =>
      rw [rivals_append, List.getLast?_append] at hLast
      by_cases hRival :
          Text.trimmed text ≠ "" ∧ place (Text.trimmed text) = place t
      · rw [rivals_cons hRival.1 hRival.2] at hLast
        refine ⟨rest, text, [], rfl, Option.some.inj hLast, ?_⟩
        exact fun later hLater => absurd hLater List.not_mem_nil
      · have hOther : rivals (place t) [text] = [] := by
          simpa [rivals, written, not_imp_not] using hRival
        rw [hOther] at hLast
        rcases ih hLast with ⟨front, first, back, rfl, hFirst, hBack⟩
        refine ⟨front, first, back ++ [text], by simp, hFirst, ?_⟩
        intro later hLater
        rw [written, List.map_append, List.filter_append] at hLater
        rcases List.mem_append.1 hLater with hOld | hNew
        · exact hBack later hOld
        · rcases List.mem_filter.1 hNew with ⟨hText, hNe⟩
          rw [List.mem_singleton.1 hText] at hNe ⊢
          exact fun hPlace =>
            hRival ⟨of_decide_eq_true hNe, hPlace⟩

------------------------------------------------------------
-- Tokens of one place
------------------------------------------------------------

/- What a token addresses: its breakpoint, chain and key. -/
def address
    (t : Token) : String × List String × String :=
  (t.breakpoint, t.chain, t.key)

/- What the token of a place addresses, if the place has one. -/
def addressOf?
    (cascade : Cascade)
    (catalog : Catalog)
    (hosted : Bool)
    (text : String) : Option (String × List String × String) :=
  let head := Head.ofText cascade text
  (head.segments.getLast?.filter catalog.contains).map (fun key =>
    (head.breakpoint.name, chainOf hosted head.segments.dropLast, key))

/- Reading a token, its place alone decides what it addresses. -/
theorem map_address_read?
    (cascade : Cascade)
    (catalog : Catalog)
    (hosted : Bool)
    (text : String) :
    (read? cascade catalog hosted text).map address =
      addressOf? cascade catalog hosted
        (place (Text.trimmed text)) := by
  unfold read? addressOf? place
  dsimp only
  split
  · rename_i hNone
    rw [hNone]
    rfl
  · rename_i key hKey
    rw [hKey]
    cases hKnown : catalog.contains key with
    | true =>
        rw [Option.filter_some_pos hKnown]
        rfl
    | false =>
        rw [Option.filter_some_neg hKnown]
        rfl

/-
  Settling keeps the last token of each place, where the
  first one was written. So it changes no settled list, and
  lists can be settled before they are put in a row. Tokens
  of one place are read to the same breakpoint, chain and
  key, or none of them is read.
-/
theorem settling_keeps_the_last_of_each_place
    (xs ys : List String) :
    (settle xs).map place = ((written xs).map place).eraseDups ∧
    (∀ t ∈ settle xs, EndsPlace xs t) ∧
    settle (settle xs) = settle xs ∧
    settle (xs ++ ys) = settle (settle xs ++ settle ys) ∧
    ∀ cascade catalog hosted x y,
      place (Text.trimmed x) = place (Text.trimmed y) →
        (read? cascade catalog hosted x).map address =
          (read? cascade catalog hosted y).map address := by
  refine ⟨map_place_settle xs, ?_, settle_settle xs,
    (settle_settle_append xs ys).symm, ?_⟩
  · intro t ht
    exact endsPlace_of_getLast?_rivals
      (getLast?_rivals_of_mem_settle ht)
  · intro cascade catalog hosted x y hPlace
    rw [map_address_read?, hPlace, map_address_read?]

theorem settling_keeps_the_last_of_each_place_of_sizes :
    let xs := ["hover:w=1", " h=2", "", "hover:w=(a=b)!"]
    let ys := ["h!", "hover:w="]
    let cascade : Cascade :=
      ⟨[("sm", 576), ("md", 768)], by decide, by decide⟩
    let catalog : Catalog :=
      { utilities := .ofList [("h", {}), ("w", {})] }
    settle xs = ["hover:w=(a=b)!", "h=2"] ∧
    EndsPlace xs "hover:w=(a=b)!" ∧
    settle (settle xs) = settle xs ∧
    settle (settle xs ++ settle ys) = ["hover:w=", "h!"] ∧
    place (Text.trimmed "hover:w=(a=b)!") =
      place (Text.trimmed "hover:w=") ∧
    (read? cascade catalog false "hover:w=(a=b)!").map address =
      (read? cascade catalog false "hover:w=").map address := by
  intro xs ys cascade catalog
  rcases settling_keeps_the_last_of_each_place xs ys with
    ⟨_, hLast, hIdempotent, hRow, hAddress⟩
  have hPlace :
      place (Text.trimmed "hover:w=(a=b)!") =
        place (Text.trimmed "hover:w=") := by
    decide
  exact ⟨by decide, hLast _ (by decide), hIdempotent,
    hRow.symm.trans (by decide), hPlace,
    hAddress cascade catalog false _ _ hPlace⟩

end AtomicCss.Token
