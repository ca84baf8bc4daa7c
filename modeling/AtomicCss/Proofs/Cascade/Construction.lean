import AtomicCss.Batch.Render
import AtomicCss.Proofs.Cascade
import Mathlib.Data.List.Sort

/-
  This file proves what the cascade of a configuration looks
  like, and for which configurations there is one.

  Configured names are sorted by threshold, and those with one
  threshold keep their order. The sort is Mathlib's insertion
  sort, which gives all three laws.

  Key definitions include:
    * `Stop.SortOf`
    * `Cascade.Opens`
    * `Cascade.WellFormed`

  The main statements are:
    * `Stop.sortOf_sort`
    * `Cascade.names_eq`
    * `Cascade.longestOpening?_eq_some_iff`
    * `Cascade.built_cascades_are_well_formed`
-/

namespace AtomicCss

------------------------------------------------------------
-- Sorted stops
------------------------------------------------------------

namespace Stop

/- Whether a stop may stand in front of another. -/
def Before
    (s t : Stop) : Prop :=
  Number.orderKey s.2 ≤ Number.orderKey t.2

instance : DecidableRel Before :=
  fun s t =>
    inferInstanceAs
      (Decidable (Number.orderKey s.2 ≤ Number.orderKey t.2))

instance : Std.Total Before :=
  ⟨fun s t => Int.le_total (Number.orderKey s.2) (Number.orderKey t.2)⟩

instance : IsTrans Stop Before :=
  ⟨fun _ _ _ => Int.le_trans⟩

/-
  A list holds the stops of another with thresholds rising,
  and stops with one threshold in the order of the other.
-/
structure SortOf
    (stops sorted : List Stop) : Prop where
  perm : sorted.Perm stops
  rising : sorted.Pairwise Before
  ties :
    ∀ key,
      sorted.filter (fun s => Number.orderKey s.2 = key) =
        stops.filter (fun s => Number.orderKey s.2 = key)

/- The name of the first stop whose threshold is not finite. -/
def FirstInfinite
    (name : String)
    (stops : List Stop) : Prop :=
  ∃ before threshold behind,
    stops = before ++ (name, threshold) :: behind ∧
      threshold.isFinite = false ∧
        ∀ s ∈ before, s.2.isFinite = true

theorem firstInfinite_iff
    {name : String}
    {stops : List Stop} :
    FirstInfinite name stops ↔
      ∃ threshold,
        stops.find? (fun s => !s.2.isFinite) =
          some (name, threshold) := by
  simp only [List.find?_eq_some_iff_append, Bool.not_not,
    Bool.not_eq_true']
  constructor
  · rintro ⟨before, threshold, behind, hStops, hInfinite, hBefore⟩
    exact ⟨threshold, hInfinite, before, behind, hStops, hBefore⟩
  · rintro ⟨threshold, hInfinite, before, behind, hStops, hBefore⟩
    exact ⟨before, threshold, behind, hStops, hInfinite, hBefore⟩

theorem FirstInfinite.unique
    {name name' : String}
    {stops : List Stop}
    (hFirst : FirstInfinite name stops)
    (hFirst' : FirstInfinite name' stops) :
    name = name' := by
  rcases firstInfinite_iff.1 hFirst with ⟨threshold, hFound⟩
  rcases firstInfinite_iff.1 hFirst' with ⟨threshold', hFound'⟩
  rw [hFound] at hFound'
  cases hFound'
  rfl

/- Where there is a first such stop, not all are finite. -/
theorem FirstInfinite.not_forall
    {name : String}
    {stops : List Stop}
    (hFirst : FirstInfinite name stops) :
    ¬ ∀ s ∈ stops, s.2.isFinite = true := by
  rcases hFirst with ⟨before, threshold, behind, rfl, hInfinite, _⟩
  intro hFinite
  have hThreshold := hFinite (name, threshold) (by simp)
  rw [hInfinite] at hThreshold
  cases hThreshold

theorem FirstInfinite.ne_nil
    {name : String}
    {stops : List Stop}
    (hFirst : FirstInfinite name stops) :
    stops ≠ [] := by
  rcases hFirst with ⟨before, threshold, behind, rfl, _⟩
  simp

theorem insert_eq_orderedInsert
    (s : Stop)
    (stops : List Stop) :
    insert s stops = stops.orderedInsert Before s := by
  induction stops with
  | nil => rfl
  | cons t rest ih =>
      rw [insert, List.orderedInsert, ih]
      rfl

theorem sort_eq_insertionSort
    (stops : List Stop) :
    sort stops = stops.insertionSort Before := by
  induction stops with
  | nil => rfl
  | cons s rest ih =>
      rw [sort, ih, insert_eq_orderedInsert, List.insertionSort_cons]

/- Stops with one threshold are sorted as they stand. -/
theorem sortOf_sort
    (stops : List Stop) :
    SortOf stops (sort stops) where
  perm := sort_perm stops
  rising := by
    rw [sort_eq_insertionSort]
    exact List.pairwise_insertionSort Before stops
  ties := by
    intro key
    have hTied :
        (stops.filter
          (fun s => Number.orderKey s.2 = key)).Pairwise Before := by
      apply List.pairwise_of_forall_mem_list
      intro s hs t ht
      have hsKey := of_decide_eq_true (List.mem_filter.1 hs).2
      have htKey := of_decide_eq_true (List.mem_filter.1 ht).2
      exact (hsKey.trans htKey.symm).le
    have hSublist :=
      List.sublist_insertionSort hTied List.filter_sublist
    rw [← sort_eq_insertionSort] at hSublist
    have hKept := hSublist.filter (fun s => Number.orderKey s.2 = key)
    rw [List.filter_filter] at hKept
    simp only [Bool.and_self] at hKept
    refine (hKept.eq_of_length ?_).symm
    exact (((sort_perm stops).filter _).length_eq).symm

end Stop

------------------------------------------------------------
-- Derived breakpoints
------------------------------------------------------------

namespace Cascade

variable (c : Cascade)

private theorem fst_zip_tail
    {α : Type}
    (xs : List α) :
    (xs.zip xs.tail).map Prod.fst = xs.dropLast := by
  induction xs with
  | nil => rfl
  | cons x rest ih =>
      cases rest with
      | nil => rfl
      | cons y rest => exact congrArg (x :: ·) ih

private theorem snd_zip_tail
    {α : Type}
    (xs : List α) :
    (xs.zip xs.tail).map Prod.snd = xs.tail := by
  apply List.map_snd_zip
  rw [List.length_tail]
  exact Nat.sub_le _ _

/- A part of all breakpoints is read off their variants. -/
theorem map_breakpoints
    {α : Type}
    (part : Variant → α) :
    c.breakpoints.map (fun b => part b.toVariant) =
      c.ups.map part ++ c.downs.map part := by
  rw [← List.map_append, ← variants, ← toVariant_breakpoints,
    List.map_map]
  rfl

/-
  Upward names stand in the order of the stops and downward
  ones in the reverse order, where the last stop has none.
-/
theorem names_eq :
    c.breakpoints.map (fun b => b.name) =
      c.stops.map (fun s => s.1 ++ "-up") ++
        (c.stops.dropLast.map (fun s => s.1 ++ "-down")).reverse := by
  rw [c.map_breakpoints Variant.name, ups, downs, List.map_map,
    List.map_reverse, List.map_map, ← fst_zip_tail, List.map_map]
  rfl

theorem directions_eq :
    c.breakpoints.map (fun b => b.direction) =
      List.replicate c.stops.length .up ++
        List.replicate (c.stops.length - 1) .down := by
  rw [c.map_breakpoints Variant.direction, ups, downs, List.map_map,
    List.map_reverse, List.map_map]
  have hUps :
      c.stops.map (Variant.direction ∘ fun s => ⟨s.1, .up, s.2⟩) =
        List.replicate c.stops.length .up :=
    List.map_const' ..
  have hDowns :
      (c.stops.zip c.stops.tail).map
          (Variant.direction ∘ fun p =>
            ⟨p.1.1, .down, Number.roundCents (p.2.2 - gap)⟩) =
        List.replicate (c.stops.length - 1) .down := by
    refine (List.map_const' ..).trans ?_
    rw [List.length_zip, List.length_tail,
      Nat.min_eq_right (Nat.sub_le _ _)]
  rw [hUps, hDowns, List.reverse_replicate]

/-
  An upward breakpoint begins at its own threshold, and a
  downward one ends below the threshold of the next stop.
-/
theorem thresholds_eq :
    c.breakpoints.map (fun b => b.threshold) =
      c.stops.map Prod.snd ++
        (c.stops.tail.map
          (fun s => Number.roundCents (s.2 - gap))).reverse := by
  rw [c.map_breakpoints Variant.threshold, ups, downs, List.map_map,
    List.map_reverse, List.map_map]
  conv_rhs => arg 2; rw [← snd_zip_tail, List.map_map]
  rfl

------------------------------------------------------------
-- The first and the last upward breakpoint
------------------------------------------------------------

theorem head?_breakpoints :
    c.breakpoints.head? = some c.minimum :=
  List.head?_eq_some_head c.breakpoints_ne_nil

/- Upward breakpoints fill the places in front. -/
theorem getElem?_maximum :
    c.breakpoints[c.stops.length - 1]? = some c.maximum := by
  let up : List Breakpoint := c.ups.mapIdx (fun i v => ⟨v, i⟩)
  let down : List Breakpoint :=
    c.downs.mapIdx (fun i v => ⟨v, i + c.ups.length⟩)
  have hParts : c.breakpoints = up ++ down := List.mapIdx_append
  have hUp : ∀ b ∈ up, decide (b.direction = .up) = true := by
    intro b hb
    rcases List.mem_mapIdx.1 hb with ⟨i, hi, rfl⟩
    simp [ups]
  have hDown : ∀ b ∈ down, ¬ decide (b.direction = .up) = true := by
    intro b hb
    rcases List.mem_mapIdx.1 hb with ⟨i, hi, rfl⟩
    simp [downs]
  have hLength : up.length = c.stops.length := by
    simp [up, ups]
  have hPos : 0 < c.stops.length :=
    List.length_pos_iff.2 c.stops_ne_nil
  have hNe : up ≠ [] := by
    rw [← List.length_pos_iff, hLength]
    exact hPos
  have hFilter :
      c.breakpoints.filter (fun b => b.direction = .up) = up := by
    rw [hParts, List.filter_append, List.filter_eq_self.2 hUp,
      List.filter_eq_nil_iff.2 hDown, List.append_nil]
  rw [maximum, hFilter, List.getLast?_eq_some_getLast hNe,
    Option.getD_some, ← List.getLast?_eq_some_getLast hNe, hParts,
    List.getElem?_append_left (by omega), List.getLast?_eq_getElem?,
    hLength]

variable {c}

/- Only the minimum stands without a condition. -/
theorem wrap_eq_self_iff
    {b : Breakpoint}
    (hb : b ∈ c.breakpoints)
    (body : String) :
    Render.wrap b body = body ↔ b = c.minimum := by
  rw [← isMinimum_iff hb, Render.wrap]
  split
  · rename_i hMinimum
    exact iff_of_true rfl hMinimum
  · rename_i hMinimum
    refine iff_of_false ?_ hMinimum
    intro hSame
    have hLength := congrArg String.length hSame
    simp only [String.length_append] at hLength
    have hMark : "@media ".length = 7 := rfl
    omega

------------------------------------------------------------
-- The longest name at the front of a text
------------------------------------------------------------

/- A name stands at the front of a text, up to a colon or the end. -/
def Opens
    (b : Breakpoint)
    (text : List Char) : Prop :=
  ∃ rest, text = b.name.toList ++ rest ∧
    (rest = [] ∨ rest.head? = some ':')

theorem opens_eq_true_iff
    {b : Breakpoint}
    {text : List Char} :
    opens b.name.toList text = true ↔ Opens b text := by
  rw [opens, Bool.and_eq_true, List.isPrefixOf_iff_prefix]
  constructor
  · rintro ⟨⟨rest, rfl⟩, hEnd⟩
    rw [List.drop_left] at hEnd
    refine ⟨rest, rfl, ?_⟩
    cases rest with
    | nil => exact Or.inl rfl
    | cons d rest =>
        exact Or.inr (congrArg some (of_decide_eq_true hEnd))
  · rintro ⟨rest, rfl, hEnd⟩
    rw [List.drop_left]
    refine ⟨List.prefix_append _ _, ?_⟩
    rcases hEnd with rfl | hColon
    · rfl
    · rcases List.head?_eq_some_iff.1 hColon with ⟨more, rfl⟩
      rfl

/- Names that open one text are told apart by their length. -/
theorem Opens.eq_of_length_eq
    {a b : Breakpoint}
    (ha : a ∈ c.breakpoints)
    (hb : b ∈ c.breakpoints)
    {text : List Char}
    (hOpensA : Opens a text)
    (hOpensB : Opens b text)
    (hLength : a.name.length = b.name.length) :
    a = b := by
  rcases hOpensA with ⟨restA, rfl, _⟩
  rcases hOpensB with ⟨restB, hText, _⟩
  have hName : a.name.toList = b.name.toList :=
    (List.append_inj hText
      (by rw [String.length_toList, String.length_toList, hLength])).1
  exact eq_of_name_eq ha hb (String.toList_inj.1 hName)

theorem longestOpening?_eq_none_iff
    {text : List Char} :
    c.longestOpening? text = none ↔
      ∀ b ∈ c.breakpoints, ¬ Opens b text := by
  have hFilter :
      c.breakpoints.filter (fun b => opens b.name.toList text) = [] ↔
        ∀ b ∈ c.breakpoints, ¬ Opens b text := by
    simp only [List.filter_eq_nil_iff, opens_eq_true_iff]
  rw [← hFilter, longestOpening?]
  cases c.breakpoints.filter (fun b => opens b.name.toList text) with
  | nil => exact iff_of_true rfl rfl
  | cons a bs =>
      rcases foldl_longer a bs with ⟨b, _, hFold, _⟩
      refine iff_of_false ?_ (List.cons_ne_nil a bs)
      rw [List.foldl_cons, longer, hFold]
      exact Option.some_ne_none b

/- What is found at the front of a text is longer than the rest. -/
theorem longer_of_longestOpening?
    {text : List Char}
    {b : Breakpoint}
    (hFound : c.longestOpening? text = some b) :
    b ∈ c.breakpoints ∧ Opens b text ∧
      ∀ a ∈ c.breakpoints, Opens a text → a ≠ b →
        a.name.length < b.name.length := by
  rcases longest_of_longestOpening? hFound with ⟨hb, hOpens, hLongest⟩
  rw [opens_eq_true_iff] at hOpens
  refine ⟨hb, hOpens, ?_⟩
  intro a ha hOpensA hNe
  refine Nat.lt_of_le_of_ne
    (hLongest a ha (opens_eq_true_iff.2 hOpensA)) ?_
  exact fun hSame =>
    hNe (Opens.eq_of_length_eq ha hb hOpensA hOpens hSame)

/- Of the names that open a text the longest is found. -/
theorem longestOpening?_eq_some_iff
    {text : List Char}
    {b : Breakpoint} :
    c.longestOpening? text = some b ↔
      b ∈ c.breakpoints ∧ Opens b text ∧
        ∀ a ∈ c.breakpoints, Opens a text → a ≠ b →
          a.name.length < b.name.length := by
  refine ⟨longer_of_longestOpening?, ?_⟩
  rintro ⟨hb, hOpens, hLongest⟩
  cases hFound : c.longestOpening? text with
  | none =>
      exact absurd hOpens (longestOpening?_eq_none_iff.1 hFound b hb)
  | some b' =>
      rcases longer_of_longestOpening? hFound with
        ⟨hb', hOpens', hLongest'⟩
      by_cases hSame : b' = b
      · rw [hSame]
      · have hShorter := hLongest b' hb' hOpens' hSame
        have hLonger := hLongest' b hb hOpens (Ne.symm hSame)
        exact absurd hShorter (Nat.lt_asymm hLonger)

------------------------------------------------------------
-- The cascade of a configuration
------------------------------------------------------------

/-
  What the cascade of a configuration looks like: its names in
  order with their directions, thresholds and ranks, and what
  is found in it.
-/
structure WellFormed
    (config : OrderedMap String Float)
    (c : Cascade) : Prop where
  stops : Stop.SortOf config.entries c.stops
  length : c.breakpoints.length = 2 * config.size - 1
  names :
    c.breakpoints.map (fun b => b.name) =
      c.stops.map (fun s => s.1 ++ "-up") ++
        (c.stops.dropLast.map (fun s => s.1 ++ "-down")).reverse
  directions :
    c.breakpoints.map (fun b => b.direction) =
      List.replicate config.size .up ++
        List.replicate (config.size - 1) .down
  thresholds :
    c.breakpoints.map (fun b => b.threshold) =
      c.stops.map Prod.snd ++
        (c.stops.tail.map
          (fun s => Number.roundCents (s.2 - gap))).reverse
  ranks :
    c.breakpoints.map (fun b => b.rank) =
      List.range (2 * config.size - 1)
  distinct : (c.breakpoints.map (fun b => b.name)).Nodup
  found : ∀ b ∈ c.breakpoints, c.get? b.name = some b
  minimum : c.breakpoints.head? = some c.minimum
  unconditional :
    ∀ b ∈ c.breakpoints, ∀ body,
      Render.wrap b body = body ↔ b = c.minimum
  maximum : c.breakpoints[config.size - 1]? = some c.maximum
  opening :
    ∀ text b,
      c.longestOpening? text = some b ↔
        b ∈ c.breakpoints ∧ Opens b text ∧
          ∀ a ∈ c.breakpoints, Opens a text → a ≠ b →
            a.name.length < b.name.length
  notOpening :
    ∀ text,
      c.longestOpening? text = none ↔
        ∀ b ∈ c.breakpoints, ¬ Opens b text

/- Every cascade is derived from its stops in this way. -/
theorem wellFormed_of_sortOf
    {config : OrderedMap String Float}
    (hStops : Stop.SortOf config.entries c.stops) :
    WellFormed config c := by
  have hSize : config.size = c.stops.length := hStops.perm.length_eq.symm
  have hLength : c.breakpoints.length = 2 * config.size - 1 := by
    rw [hSize, c.length_breakpoints]
  exact {
    stops := hStops
    length := hLength
    names := c.names_eq
    directions := by
      rw [hSize]
      exact c.directions_eq
    thresholds := c.thresholds_eq
    ranks := by
      rw [← hLength]
      exact c.ranks_breakpoints
    distinct := c.nodup_names_breakpoints
    found := fun _ => get?_name
    minimum := c.head?_breakpoints
    unconditional := fun _ => wrap_eq_self_iff
    maximum := by
      rw [hSize]
      exact c.getElem?_maximum
    opening := fun _ _ => longestOpening?_eq_some_iff
    notOpening := fun _ => longestOpening?_eq_none_iff }

variable {config : OrderedMap String Float}

/-
  A configuration is empty, or has a threshold that is not
  finite, or has a cascade whose stops are its sorted ones.
-/
theorem build?_cases
    (config : OrderedMap String Float) :
    (config.entries = [] ∧ build? config = .error .noBreakpoints) ∨
      (∃ name,
        Stop.FirstInfinite name config.entries ∧
          build? config = .error (.invalidBreakpoint name)) ∨
      (config.entries ≠ [] ∧
        (∀ s ∈ config.entries, s.2.isFinite = true) ∧
          ∃ c, c.stops = Stop.sort config.entries ∧
            build? config = .ok c) := by
  unfold build?
  split
  · rename_i hEmpty
    exact Or.inl ⟨hEmpty, rfl⟩
  · rename_i hNe
    refine Or.inr ?_
    split
    · rename_i name threshold hFound
      exact Or.inl
        ⟨name, Stop.firstInfinite_iff.2 ⟨threshold, hFound⟩, rfl⟩
    · rename_i hNone
      exact Or.inr ⟨hNe, by simpa using hNone, _, rfl, rfl⟩

/-
  A configuration without names is refused, and else one with
  a threshold that is not finite, for the first such name. All
  others have a cascade, and it is well formed.
-/
theorem built_cascades_are_well_formed
    (config : OrderedMap String Float) :
    (build? config = .error .noBreakpoints ↔ config.entries = []) ∧
    (∀ name,
      build? config = .error (.invalidBreakpoint name) ↔
        Stop.FirstInfinite name config.entries) ∧
    (config.entries ≠ [] →
      (∀ s ∈ config.entries, s.2.isFinite = true) →
        ∃ c, build? config = .ok c ∧ WellFormed config c) := by
  rcases build?_cases config with
    ⟨hEmpty, hBuilt⟩ | ⟨name, hFirst, hBuilt⟩ |
      ⟨hNe, hFinite, c, hStops, hBuilt⟩
  · rw [hBuilt]
    refine ⟨iff_of_true rfl hEmpty, ?_, fun hNe => absurd hEmpty hNe⟩
    intro name
    exact iff_of_false (by simp) (fun hFirst => hFirst.ne_nil hEmpty)
  · rw [hBuilt]
    refine ⟨iff_of_false (by simp) hFirst.ne_nil, ?_,
      fun _ hFinite => absurd hFinite hFirst.not_forall⟩
    intro name'
    constructor
    · intro hSame
      cases hSame
      exact hFirst
    · intro hFirst'
      rw [hFirst.unique hFirst']
  · rw [hBuilt]
    refine ⟨iff_of_false (by simp) hNe, ?_, ?_⟩
    · intro name
      exact iff_of_false (by simp)
        (fun hFirst => hFirst.not_forall hFinite)
    · intro _ _
      refine ⟨c, rfl, wellFormed_of_sortOf ?_⟩
      rw [hStops]
      exact Stop.sortOf_sort config.entries

theorem built_cascades_are_well_formed_of_ties :
    let config : OrderedMap String Float :=
      .ofList [("md", 768), ("sm-up", 768), ("sm", 576)]
    config.entries ≠ [] ∧
    (∀ s ∈ config.entries, s.2.isFinite = true) ∧
    ∃ c,
      build? config = .ok c ∧ WellFormed config c ∧
      c.breakpoints.map (fun b => b.name) =
        ["sm-up", "md-up", "sm-up-up", "md-down", "sm-down"] ∧
      c.breakpoints.map (fun b => b.threshold) =
        [576, 768, 768, 767.98, 767.98] ∧
      (c.longestOpening? "sm-up-up:color".toList).map
          (fun b => b.name) = some "sm-up-up" := by
  intro config
  have hNe : config.entries ≠ [] := by decide
  have hFinite : ∀ s ∈ config.entries, s.2.isFinite = true := by
    decide
  rcases (built_cascades_are_well_formed config).2.2 hNe hFinite with
    ⟨c, hBuilt, hWell⟩
  refine ⟨hNe, hFinite, c, hBuilt, hWell, ?_⟩
  cases hBuilt
  exact ⟨by decide, by decide +kernel, by decide⟩

end Cascade

end AtomicCss
