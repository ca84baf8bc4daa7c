import AtomicCss.Proofs.OrderedMap
import AtomicCss.Proofs.Text.Spots
import AtomicCss.Proofs.Text.Trimming
import AtomicCss.Proofs.Token.Reading
import AtomicCss.Selector.Build
import AtomicCss.Token.Reader
import Mathlib.Data.Set.Finite.Basic

/-
  This file proves what the entries of a literal selector
  become in the selector of a token.

  A list is cut at all of its commas, also at those within
  parentheses, brackets and strings. Each piece is put into
  its context on its own. So an entry stays whole, whatever
  the chain of the token is, exactly if it has no comma.

  Key definitions include:
    * `Selector.enter`
    * `Selector.IsEntry`
    * `Selector.transformed`

  The main statements are:
    * `Text.splitOn_intercalate_eq_flatMap`
    * `Selector.entries_intercalate`
    * `Selector.build_of_list`
    * `Selector.entries_stay_whole_unless_they_hold_commas`
-/

namespace AtomicCss

------------------------------------------------------------
-- Lists in a text
------------------------------------------------------------

namespace Text

/- Joined parts are cut as each of them is. -/
theorem splitOn_intercalate_eq_flatMap
    (mark : Char)
    {parts : List (List Char)}
    (hNe : parts ≠ []) :
    ([mark].intercalate parts).splitOn mark =
      parts.flatMap (List.splitOn mark) := by
  induction parts with
  | nil => exact absurd rfl hNe
  | cons part rest ih =>
      cases rest with
      | nil => simp
      | cons next rest =>
          have hCut :=
            List.splitOnP_append_cons (p := (· == mark)) part
              ([mark].intercalate (next :: rest))
              (beq_self_eq_true mark)
          simp only [← List.splitOn_eq_splitOnP] at hCut
          rw [List.flatMap_cons, ← ih (List.cons_ne_nil _ _), ← hCut,
            List.intercalate_cons_cons, List.append_assoc,
            List.singleton_append]

/-
  A measure of texts that adds up, such as their length or
  how often a character occurs, adds up over joined parts.
-/
theorem measure_intercalate
    {f : List Char → Nat}
    (hNil : f [] = 0)
    (hAppend : ∀ xs ys, f (xs ++ ys) = f xs + f ys)
    (mark : List Char)
    (parts : List (List Char)) :
    f (mark.intercalate parts) =
      f parts.flatten + (parts.length - 1) * f mark := by
  induction parts with
  | nil => simp [hNil]
  | cons part rest ih =>
      cases rest with
      | nil => simp
      | cons next rest =>
          rw [List.flatten_cons, List.intercalate_cons_cons, hAppend,
            hAppend, hAppend, ih]
          simp only [List.length_cons, Nat.add_sub_cancel,
            Nat.add_mul, Nat.one_mul]
          omega

/-
  Lists that are joined to one text, with another text behind
  each of their parts as well as without, are equally long.
-/
theorem length_eq_of_intercalate_eq
    {mark : Char}
    {xs ys : List (List Char)}
    {behind : List Char}
    (hBehind : behind ≠ [])
    (hPlain : [mark].intercalate xs = [mark].intercalate ys)
    (hMarked :
      [mark].intercalate (xs.map (· ++ behind)) =
        [mark].intercalate (ys.map (· ++ behind))) :
    xs.length = ys.length := by
  have hMeasure :=
    measure_intercalate (f := List.length) rfl
      (fun _ _ => List.length_append) [mark]
  have hSum :
      ∀ ps : List (List Char),
        (ps.map (· ++ behind)).flatten.length =
          ps.flatten.length + ps.length * behind.length := by
    intro ps
    induction ps with
    | nil => simp
    | cons p rest ih =>
        simp only [List.map_cons, List.flatten_cons,
          List.length_append, List.length_cons, ih, Nat.add_mul,
          Nat.one_mul]
        omega
  have hShort := congrArg List.length hPlain
  have hLong := congrArg List.length hMarked
  rw [hMeasure, hMeasure] at hShort
  rw [hMeasure, hMeasure, hSum, hSum, List.length_map,
    List.length_map] at hLong
  have hProducts :
      xs.length * behind.length = ys.length * behind.length := by
    omega
  exact Nat.eq_of_mul_eq_mul_right (List.length_pos_iff.2 hBehind)
    hProducts

/-
  If as many parts are joined to one text, and the mark is in
  none of the ones, then it is in none of the others.
-/
theorem not_mem_of_intercalate_eq
    {mark : Char}
    {xs ys : List (List Char)}
    (hLength : xs.length = ys.length)
    (hJoined : [mark].intercalate xs = [mark].intercalate ys)
    (hNone : ∀ x ∈ xs, mark ∉ x) :
    ∀ y ∈ ys, mark ∉ y := by
  have hMeasure :=
    measure_intercalate (f := List.count mark) List.count_nil
      (fun _ _ => List.count_append) [mark]
  have hCount := congrArg (List.count mark) hJoined
  have hZero : xs.flatten.count mark = 0 := by
    rw [List.count_eq_zero, List.mem_flatten]
    rintro ⟨x, hx, hMark⟩
    exact hNone x hx hMark
  rw [hMeasure, hMeasure, hZero, hLength] at hCount
  have hAbsent : mark ∉ ys.flatten :=
    List.count_eq_zero.1 (by omega)
  intro y hy hMark
  exact hAbsent (List.mem_flatten.2 ⟨y, hy, hMark⟩)

/- What is no blank is not trimmed away. -/
theorem mem_trim_iff
    {c : Char}
    (hBlank : isBlank c = false)
    (cs : List Char) :
    c ∈ trim cs ↔ c ∈ cs := by
  have hDrop :
      ∀ xs : List Char, c ∈ xs.dropWhile isBlank ↔ c ∈ xs := by
    intro xs
    induction xs with
    | nil => rfl
    | cons d rest ih =>
        by_cases hFirst : isBlank d = true
        · have hNe : c ≠ d := by
            rintro rfl
            rw [hBlank] at hFirst
            cases hFirst
          rw [List.dropWhile_cons_of_pos hFirst, ih, List.mem_cons,
            or_iff_right hNe]
        · rw [List.dropWhile_cons_of_neg hFirst]
  rw [trim, trimEnd, List.mem_reverse, hDrop, List.mem_reverse,
    trimStart, hDrop]

end Text

namespace Selector

------------------------------------------------------------
-- Selector lists
------------------------------------------------------------

/-
  The spot behind one more character of a selector, and which
  closing brackets are awaited there, unless a bracket is
  closed that is not open.
-/
def enter
    (state : Text.Spot × List Char)
    (c : Char) : Option (Text.Spot × List Char) :=
  let spot := state.1.next c
  if state.1.isOpen = false then
    some (spot, state.2)
  else if c = '(' then
    some (spot, ')' :: state.2)
  else if c = '[' then
    some (spot, ']' :: state.2)
  else if c = ')' ∨ c = ']' then
    if state.2.head? = some c then some (spot, state.2.tail) else none
  else
    some (spot, state.2)

/-
  Whether the end of a text stands outside parentheses,
  brackets, strings and comments, all of which are closed.
-/
def endsAtTop
    (cs : List Char) : Bool :=
  match cs.foldlM enter (.plain, []) with
  | some (spot, []) => spot.isOpen
  | _ => false

/-
  Whether a text is one entry of a selector list: it is not
  blank, its brackets and strings are balanced, and none of
  its commas stands outside of them.
-/
def IsEntry
    (cs : List Char) : Prop :=
  Text.trim cs ≠ [] ∧
  endsAtTop cs = true ∧
  ∀ i < cs.length, cs[i]? = some ',' → endsAtTop (cs.take i) = false

instance
    (cs : List Char) :
    Decidable (IsEntry cs) :=
  inferInstanceAs (Decidable (_ ∧ _ ∧ ∀ i < _, _ → _))

------------------------------------------------------------
-- Pieces
------------------------------------------------------------

/- The pieces of a list are those of its entries. -/
theorem entries_intercalate
    {ss : List String}
    (hNe : ss ≠ []) :
    entries (String.intercalate "," ss) = ss.flatMap entries := by
  have hCut :
      Text.splitAt ',' (String.intercalate "," ss) =
        ss.flatMap (Text.splitAt ',') := by
    have hParts : ss.map String.toList ≠ [] :=
      mt List.map_eq_nil_iff.1 hNe
    have hJoined :
        (String.intercalate "," ss).toList =
          [','].intercalate (ss.map String.toList) :=
      String.toList_intercalate
    rw [Text.splitAt, hJoined,
      Text.splitOn_intercalate_eq_flatMap ',' hParts,
      List.flatMap_map, List.map_flatMap]
    rfl
  rw [entries, hCut, List.map_flatMap, List.filter_flatMap]
  rfl

/- A piece is trimmed and has no comma. -/
theorem of_mem_entries
    {list e : String}
    (hEntry : e ∈ entries list) :
    Text.trimmed e = e ∧ ',' ∉ e.toList := by
  rcases List.mem_map.1 (List.mem_filter.1 hEntry).1 with
    ⟨piece, hPiece, rfl⟩
  rcases List.mem_map.1 hPiece with ⟨part, hPart, rfl⟩
  refine ⟨Text.trimmed_trimmed _, ?_⟩
  rw [Text.trimmed, String.toList_ofList, String.toList_ofList,
    Text.mem_trim_iff (by decide)]
  exact Text.not_mem_of_mem_splitOn hPart

/- An entry without a comma is one piece. -/
theorem entries_of_not_mem
    {s : String}
    (hWritten : Text.trimmed s ≠ "")
    (hComma : ',' ∉ s.toList) :
    entries s = [Text.trimmed s] := by
  have hWhole : s.toList.splitOn ',' = [s.toList] := by
    rw [List.splitOn_eq_splitOnP]
    apply List.splitOnP_eq_singleton
    intro c hc
    rw [beq_eq_false_iff_ne]
    rintro rfl
    exact hComma hc
  rw [entries, Text.splitAt, hWhole, List.map_singleton,
    List.map_singleton, String.ofList_toList,
    List.filter_cons_of_pos (by simpa using hWritten),
    List.filter_nil]

------------------------------------------------------------
-- Contexts
------------------------------------------------------------

/- A parent that is given has characters. -/
theorem ne_empty_of_parent
    {catalog : Catalog}
    {name p : String}
    (hParent : (Qualifier.ofName catalog name).parent = some p) :
    p ≠ "" := by
  have hLocal :
      ∀ parent cs, (Qualifier.ofLocal parent cs).parent = parent := by
    intro parent cs
    unfold Qualifier.ofLocal
    split <;> rfl
  unfold Qualifier.ofName at hParent
  split at hParent
  · unfold Qualifier.ofText at hParent
    split at hParent
    · rw [hLocal, Qualifier.parentOf] at hParent
      split at hParent
      · cases hParent
      · rename_i hWritten
        cases hParent
        simpa using hWritten
    · rw [hLocal] at hParent
      cases hParent
  · cases hParent

/- So the joined parents are empty only if there are none. -/
theorem parents_eq_empty_iff
    (catalog : Catalog)
    (chain : List String) :
    Qualifier.parents (qualifiersOf catalog chain) = "" ↔
      (qualifiersOf catalog chain).filterMap (·.parent) = [] := by
  rw [Qualifier.parents]
  constructor
  · intro hEmpty
    cases hParents :
        (qualifiersOf catalog chain).filterMap (·.parent) with
    | nil => rfl
    | cons p rest =>
        have hMem :
            p ∈ (qualifiersOf catalog chain).filterMap (·.parent) := by
          rw [hParents]
          exact List.mem_cons_self
        rcases List.mem_filterMap.1 hMem with ⟨q, hq, hParent⟩
        rcases List.mem_map.1 hq with ⟨name, _, rfl⟩
        rw [hParents] at hEmpty
        have hFirst : p = "" := by
          cases rest with
          | nil => rwa [String.intercalate_singleton] at hEmpty
          | cons next rest =>
              rw [String.intercalate_cons_cons,
                String.append_eq_empty_iff] at hEmpty
              simp at hEmpty
        exact absurd hFirst (ne_empty_of_parent hParent)
  · intro hNone
    rw [hNone]
    rfl

/-
  What the chain of a token makes of an entry as a whole. The
  parents stand in front of it and the attachments behind it;
  in a shadow tree the parents are the context of the host,
  and the host itself takes states as its arguments.
-/
def transformed
    (catalog : Catalog)
    (t : Token)
    (entry : String) : String :=
  let qualifiers :=
    qualifiersOf catalog
      (if t.hosted then t.chain.filter (· ≠ Token.host) else t.chain)
  let parents := qualifiers.filterMap (·.parent)
  let behind := String.join (qualifiers.map Qualifier.attachment)
  if t.hosted = true ∧ Text.trimmed entry = Token.host then
    inShadow qualifiers Token.host
  else if parents = [] then
    Text.trimmed entry ++ behind
  else if t.hosted then
    ":host-context(" ++ String.intercalate " " parents ++ ") " ++
      Text.trimmed entry ++ behind
  else
    String.intercalate " " parents ++ " " ++ Text.trimmed entry ++
      behind

theorem transformed_trimmed
    (catalog : Catalog)
    (t : Token)
    (s : String) :
    transformed catalog t (Text.trimmed s) =
      transformed catalog t s := by
  unfold transformed
  rw [Text.trimmed_trimmed]

theorem inDocument_eq_transformed
    {t : Token}
    (hDocument : t.hosted = false)
    (catalog : Catalog)
    (s : String) :
    inDocument (qualifiersOf catalog t.chain) (Text.trimmed s) =
      transformed catalog t s := by
  have hParents := parents_eq_empty_iff catalog t.chain
  simp only [inDocument, leading, hParents, transformed, hDocument,
    Bool.false_eq_true, false_and, if_false]
  split
  · rw [String.empty_append]
  · rfl

theorem inShadow_eq_transformed
    {t : Token}
    (hHosted : t.hosted = true)
    (catalog : Catalog)
    (s : String) :
    inShadow
        (qualifiersOf catalog (t.chain.filter (· ≠ Token.host)))
        (Text.trimmed s) =
      transformed catalog t s := by
  have hParents :=
    parents_eq_empty_iff catalog (t.chain.filter (· ≠ Token.host))
  unfold transformed
  simp only [hHosted, if_true, true_and]
  by_cases hHost : Text.trimmed s = Token.host
  · rw [if_pos hHost, hHost]
  · rw [if_neg hHost, inShadow, if_neg hHost]
    simp only [hParents]
    split
    · rw [String.empty_append]
    · rfl

/- Each piece of a literal list is put into its context. -/
theorem build_of_list
    {u : Utility}
    {list : String}
    (hList : u.selector = some list)
    (catalog : Catalog)
    (t : Token) :
    build catalog t u =
      String.intercalate ","
        ((entries list).map (transformed catalog t)) := by
  cases hHosted : t.hosted with
  | true =>
      simp only [build, hHosted, hList, if_true]
      refine congrArg (String.intercalate ",") ?_
      apply List.map_congr_left
      intro e he
      rw [← inShadow_eq_transformed hHosted, (of_mem_entries he).1]
  | false =>
      simp only [build, hHosted, hList, subjects, Bool.false_eq_true,
        if_false]
      refine congrArg (String.intercalate ",") ?_
      apply List.map_congr_left
      intro e he
      rw [← inDocument_eq_transformed hHosted, (of_mem_entries he).1]

------------------------------------------------------------
-- Whole entries
------------------------------------------------------------

/- A token of a document with a given chain. -/
def ofChain
    (chain : List String) : Token :=
  ⟨"", "", chain, "", none, false, false, false⟩

/- Names without a selector are put behind as pseudo-classes. -/
theorem transformed_ofChain
    {catalog : Catalog}
    {chain : List String}
    (hNew : ∀ name ∈ chain, catalog.selectors.get? name = none)
    (s : String) :
    transformed catalog (ofChain chain) s =
      Text.trimmed s ++ String.join (chain.map (":" ++ ·)) := by
  have hQualifiers :
      qualifiersOf catalog chain =
        chain.map (fun name => ⟨none, ":" ++ name, true⟩) := by
    apply List.map_congr_left
    intro name hName
    rw [Qualifier.ofName, hNew name hName]
  have hAttached :
      ∀ name : String,
        Qualifier.attachment ⟨none, ":" ++ name, true⟩ =
          ":" ++ name := by
    intro name
    have hNe : ":" ++ name ≠ "" := by
      simp
    rw [Qualifier.attachment, if_neg hNe, if_pos rfl]
  simp only [transformed, ofChain, Bool.false_eq_true, false_and,
    if_false, hQualifiers, List.map_map, Function.comp_def, hAttached]
  rw [if_pos (by simp [List.filterMap_map])]

theorem toList_intercalate_transformed
    {catalog : Catalog}
    {t : Token}
    {behind : String}
    (hBehind :
      ∀ s, transformed catalog t s = Text.trimmed s ++ behind)
    (ss : List String) :
    (String.intercalate ","
        (ss.map (transformed catalog t))).toList =
      [','].intercalate
        ((ss.map (fun s => (Text.trimmed s).toList)).map
          (· ++ behind.toList)) := by
  have hParts :
      (ss.map (transformed catalog t)).map String.toList =
        (ss.map (fun s => (Text.trimmed s).toList)).map
          (· ++ behind.toList) := by
    rw [List.map_map, List.map_map]
    apply List.map_congr_left
    intro s _
    simp only [Function.comp_apply, hBehind, String.toList_append]
  rw [String.toList_intercalate, hParts]
  rfl

/- There are names that a catalog has no selector for. -/
theorem exists_get?_eq_none
    (m : OrderedMap String String) :
    ∃ name, m.get? name = none := by
  have hMany : Infinite String :=
    Infinite.of_injective String.ofList (fun _ _ h => String.ofList_inj.1 h)
  rcases Infinite.exists_notMem_finset m.keys.toFinset with
    ⟨name, hName⟩
  refine ⟨name, ?_⟩
  rw [List.mem_toFinset, m.mem_keys_iff_get?_ne_none, not_not] at hName
  exact hName

/-
  What looks the same in the context of every token has commas
  only if both have: cut at commas, there would be more pieces
  and so more copies of what the chain puts behind each.
-/
theorem comma_not_mem_of_transformed_eq
    {catalog : Catalog}
    {xs ys : List String}
    (hSame :
      ∀ t,
        String.intercalate "," (xs.map (transformed catalog t)) =
          String.intercalate "," (ys.map (transformed catalog t)))
    (hNone : ∀ x ∈ xs, ',' ∉ (Text.trimmed x).toList) :
    ∀ y ∈ ys, ',' ∉ (Text.trimmed y).toList := by
  rcases exists_get?_eq_none catalog.selectors with ⟨name, hNew⟩
  have hChain :
      ∀ chain : List String,
        (∀ n ∈ chain, catalog.selectors.get? n = none) →
        [','].intercalate
            ((xs.map (fun s => (Text.trimmed s).toList)).map
              (· ++ (String.join (chain.map (":" ++ ·))).toList)) =
          [','].intercalate
            ((ys.map (fun s => (Text.trimmed s).toList)).map
              (· ++ (String.join (chain.map (":" ++ ·))).toList)) := by
    intro chain hUnknown
    have hBehind := transformed_ofChain hUnknown
    rw [← toList_intercalate_transformed hBehind,
      ← toList_intercalate_transformed hBehind, hSame]
  have hPlain := hChain [] (by simp)
  have hMarked := hChain [name] (by simpa using hNew)
  simp only [List.map_nil, String.join_nil, String.toList_empty,
    List.append_nil, List.map_id_fun', id] at hPlain
  have hLength :=
    Text.length_eq_of_intercalate_eq (by simp) hPlain hMarked
  intro y hy
  refine Text.not_mem_of_intercalate_eq hLength hPlain ?_ _
    (List.mem_map_of_mem hy)
  intro x hx
  rcases List.mem_map.1 hx with ⟨s, hs, rfl⟩
  exact hNone s hs

/-
  The pieces of a list are put into the context of a token,
  whatever its entries are. This leaves the entries whole for
  every token exactly if none of them has a comma.
-/
theorem entries_stay_whole_unless_they_hold_commas
    {ss : List String}
    (hNe : ss ≠ [])
    (hWritten : ∀ s ∈ ss, Text.trimmed s ≠ "")
    {u : Utility}
    (hList : u.selector = some (String.intercalate "," ss))
    (catalog : Catalog) :
    (∀ t,
      build catalog t u =
        String.intercalate ","
          ((ss.flatMap entries).map (transformed catalog t))) ∧
    ((∀ t,
      build catalog t u =
        String.intercalate "," (ss.map (transformed catalog t))) ↔
      ∀ s ∈ ss, ',' ∉ s.toList) := by
  have hBuild :
      ∀ t,
        build catalog t u =
          String.intercalate ","
            ((ss.flatMap entries).map (transformed catalog t)) := by
    intro t
    rw [build_of_list hList, entries_intercalate hNe]
  refine ⟨hBuild, ?_, ?_⟩
  · intro hWhole s hs
    have hPieces :
        ∀ e ∈ ss.flatMap entries, ',' ∉ (Text.trimmed e).toList := by
      intro e he
      rcases List.mem_flatMap.1 he with ⟨list, _, hEntry⟩
      rw [(of_mem_entries hEntry).1]
      exact (of_mem_entries hEntry).2
    have hNone :=
      comma_not_mem_of_transformed_eq
        (fun t => (hBuild t).symm.trans (hWhole t)) hPieces s hs
    rwa [Text.trimmed, String.toList_ofList,
      Text.mem_trim_iff (by decide)] at hNone
  · intro hCommas t
    have hPieces : ss.flatMap entries = ss.map Text.trimmed := by
      rw [List.map_eq_flatMap]
      apply List.flatMap_congr
      intro s hs
      exact entries_of_not_mem (hWritten s hs) (hCommas s hs)
    have hTransformed :
        (ss.map Text.trimmed).map (transformed catalog t) =
          ss.map (transformed catalog t) := by
      rw [List.map_map]
      exact List.map_congr_left
        (fun s _ => transformed_trimmed catalog t s)
    rw [hBuild, hPieces, hTransformed]

theorem entries_stay_whole_unless_they_hold_commas_of_headings :
    let ss := [":is(h1)", " [title=\"a)\"]"]
    let u : Utility := { selector := some ":is(h1), [title=\"a)\"]" }
    let catalog : Catalog :=
      { selectors := .ofList [("dark", ".dark >>"), ("hover", "&:hover")] }
    let t := ofChain ["dark", "hover"]
    ss ≠ [] ∧
    (∀ s ∈ ss, Text.trimmed s ≠ "") ∧
    (∀ s ∈ ss, IsEntry s.toList) ∧
    u.selector = some (String.intercalate "," ss) ∧
    (∀ s ∈ ss, ',' ∉ s.toList) ∧
    build catalog t u =
      String.intercalate "," (ss.map (transformed catalog t)) ∧
    build catalog t u =
      ".dark :is(h1):hover,.dark [title=\"a)\"]:hover" := by
  intro ss u catalog t
  have hNe : ss ≠ [] := List.cons_ne_nil _ _
  have hWritten : ∀ s ∈ ss, Text.trimmed s ≠ "" := by
    decide
  have hList : u.selector = some (String.intercalate "," ss) := by
    decide
  have hCommas : ∀ s ∈ ss, ',' ∉ s.toList := by
    decide
  have hWhole :=
    (entries_stay_whole_unless_they_hold_commas hNe hWritten hList
      catalog).2.2 hCommas t
  exact ⟨hNe, hWritten, by decide, hList, hCommas, hWhole,
    hWhole.trans (by decide)⟩

/- An argument list is cut, and only its last piece is closed. -/
theorem commas_of_arguments_are_cut :
    let cascade : Cascade :=
      ⟨[("sm", 576), ("md", 768)], by decide, by decide⟩
    let list := ":is(h1,h2)"
    let u : Utility :=
      { selector := some list
        values := .ofList [("0", .ofList [("margin", "0")])] }
    let catalog : Catalog := { utilities := .ofList [("reset", u)] }
    ∃ t,
      IsEntry list.toList ∧
      u.selector = some (String.intercalate "," [list]) ∧
      Token.read? cascade catalog false "hover:reset=0" = some t ∧
      catalog.utility? t.key = some u ∧
      transformed catalog t list = ":is(h1,h2):hover" ∧
      build catalog t u = ":is(h1:hover,h2):hover" := by
  intro cascade list u catalog
  let t : Token :=
    ⟨"hover:reset=0", "sm-up", ["hover"], "reset", some "0", false,
      false, false⟩
  exact ⟨t, by decide, by decide, by decide, rfl, by decide, by decide⟩

end Selector

end AtomicCss
