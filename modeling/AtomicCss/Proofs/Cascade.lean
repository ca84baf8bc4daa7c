import AtomicCss.Cascade
import Mathlib.Data.List.Nodup

/-
  This file proves that the breakpoints of a cascade are told
  apart both by their names and by their ranks, whatever the
  configured names are.

  The main statements are:
    * `Cascade.nodup_names_breakpoints`
    * `Cascade.ranks_breakpoints`
    * `Cascade.get?_name`
    * `Cascade.filter_name`
    * `Cascade.isMinimum_iff`
    * `Cascade.longestOpening?_eq_get?`
    * `Cascade.longest_of_longestOpening?`
-/

namespace AtomicCss

------------------------------------------------------------
-- Derived names
------------------------------------------------------------

/- The two endings differ in their last character. -/
theorem Direction.getLast?_ending
    (d : Direction)
    (cs : List Char) :
    (cs ++ d.ending.toList).getLast? =
      some (match d with | .up => 'p' | .down => 'n') := by
  cases d <;> simp [Direction.ending]

/- A derived name determines the configured one and the direction. -/
theorem Variant.eq_of_name_eq
    {v w : Variant}
    (h : v.name = w.name) :
    v.base = w.base ∧ v.direction = w.direction := by
  have hList :
      v.base.toList ++ v.direction.ending.toList =
        w.base.toList ++ w.direction.ending.toList := by
    simpa [Variant.name] using congrArg String.toList h
  have hDirection : v.direction = w.direction := by
    have hLast := congrArg List.getLast? hList
    rw [Direction.getLast?_ending, Direction.getLast?_ending]
      at hLast
    cases hv : v.direction <;> cases hw : w.direction <;>
      simp_all
  refine ⟨?_, hDirection⟩
  rw [hDirection] at hList
  exact String.toList_inj.1 (List.append_cancel_right hList)

namespace Cascade

private theorem fst_zip_sublist
    {α β : Type}
    (xs : List α)
    (ys : List β) :
    ((xs.zip ys).map Prod.fst).Sublist xs := by
  induction xs generalizing ys with
  | nil => simp
  | cons x rest ih =>
      cases ys with
      | nil => simp
      | cons y ys => exact (ih ys).cons_cons x

variable (c : Cascade)

theorem bases_ups :
    c.ups.map Variant.base = c.stops.map Prod.fst := by
  simp [ups, Function.comp_def]

/- The names with a downward variant are among the configured ones. -/
theorem bases_downs_sublist :
    (c.downs.reverse.map Variant.base).Sublist
      (c.stops.map Prod.fst) := by
  have hBases :
      c.downs.reverse.map Variant.base =
        ((c.stops.zip c.stops.tail).map Prod.fst).map Prod.fst := by
    simp [downs, Function.comp_def]
  rw [hBases]
  exact (fst_zip_sublist _ _).map Prod.fst

/- All derived names are distinct. -/
theorem nodup_names_variants :
    (c.variants.map Variant.name).Nodup := by
  have hOfBases :
      ∀ vs : List Variant,
        (vs.map Variant.base).Nodup →
          (vs.map Variant.name).Nodup := by
    intro vs hNodup
    rw [List.Nodup, List.pairwise_map] at hNodup ⊢
    exact hNodup.imp (fun hNe hName =>
      hNe (Variant.eq_of_name_eq hName).1)
  have hUps : (c.ups.map Variant.name).Nodup :=
    hOfBases _ (c.bases_ups ▸ c.nodup_names)
  have hDowns : (c.downs.map Variant.name).Nodup := by
    have hReverse :=
      hOfBases _ (c.nodup_names.sublist c.bases_downs_sublist)
    rw [List.map_reverse] at hReverse
    exact List.nodup_reverse.1 hReverse
  rw [variants, List.map_append]
  refine List.nodup_append.2 ⟨hUps, hDowns, ?_⟩
  intro a ha b hb hab
  rcases List.mem_map.1 ha with ⟨v, hv, rfl⟩
  rcases List.mem_map.1 hb with ⟨w, hw, rfl⟩
  have hDirection := (Variant.eq_of_name_eq hab).2
  simp only [ups, List.mem_map] at hv
  simp only [downs, List.mem_reverse, List.mem_map] at hw
  rcases hv with ⟨_, _, rfl⟩
  rcases hw with ⟨_, _, rfl⟩
  cases hDirection

------------------------------------------------------------
-- Ranks and names of breakpoints
------------------------------------------------------------

theorem toVariant_breakpoints :
    c.breakpoints.map Breakpoint.toVariant = c.variants := by
  refine List.ext_getElem (by simp [breakpoints]) ?_
  intro i hi _
  simp [breakpoints]

/- Each breakpoint comes from a configured name. -/
theorem base_mem_stops
    {b : Breakpoint}
    (hb : b ∈ c.breakpoints) :
    b.base ∈ c.stops.map Prod.fst := by
  have hVariant : b.toVariant ∈ c.variants := by
    rw [← toVariant_breakpoints]
    exact List.mem_map_of_mem hb
  rcases List.mem_append.1 hVariant with hUp | hDown
  · rw [← bases_ups]
    exact List.mem_map_of_mem hUp
  · apply c.bases_downs_sublist.mem
    exact List.mem_map_of_mem (List.mem_reverse.2 hDown)

/- The rank of a breakpoint is its place. -/
theorem ranks_breakpoints :
    c.breakpoints.map Breakpoint.rank =
      List.range c.breakpoints.length := by
  refine List.ext_getElem (by simp) ?_
  intro i hi _
  simp [breakpoints]

/- Breakpoints stand in strictly increasing rank. -/
theorem pairwise_rank_breakpoints :
    c.breakpoints.Pairwise (fun a b => a.rank < b.rank) := by
  have hRanks :
      (c.breakpoints.map Breakpoint.rank).Pairwise (· < ·) := by
    rw [ranks_breakpoints]
    exact List.pairwise_lt_range
  exact List.pairwise_map.1 hRanks

/- No two breakpoints have one name. -/
theorem nodup_names_breakpoints :
    (c.breakpoints.map (fun b => b.name)).Nodup := by
  have hNames :
      c.breakpoints.map (fun b => b.name) =
        c.variants.map Variant.name := by
    rw [← toVariant_breakpoints, List.map_map]
    rfl
  rw [hNames]
  exact c.nodup_names_variants

variable {c}

theorem eq_of_name_eq
    {a b : Breakpoint}
    (ha : a ∈ c.breakpoints)
    (hb : b ∈ c.breakpoints)
    (h : a.name = b.name) :
    a = b :=
  List.inj_on_of_nodup_map c.nodup_names_breakpoints ha hb h

theorem eq_of_rank_eq
    {a b : Breakpoint}
    (ha : a ∈ c.breakpoints)
    (hb : b ∈ c.breakpoints)
    (h : a.rank = b.rank) :
    a = b := by
  refine List.inj_on_of_nodup_map ?_ ha hb h
  rw [ranks_breakpoints]
  exact List.nodup_range

/- What is found under a name is a breakpoint of that name. -/
theorem of_get?
    {name : String}
    {b : Breakpoint}
    (hFound : c.get? name = some b) :
    b ∈ c.breakpoints ∧ b.name = name := by
  refine ⟨List.mem_of_find?_eq_some hFound, ?_⟩
  simpa using List.find?_some hFound

/- A breakpoint is found under its own name. -/
theorem get?_name
    {b : Breakpoint}
    (hb : b ∈ c.breakpoints) :
    c.get? b.name = some b := by
  cases hFound : c.get? b.name with
  | none =>
      have hNone := List.find?_eq_none.1 hFound b hb
      simp at hNone
  | some a =>
      rcases of_get? hFound with ⟨ha, hName⟩
      rw [eq_of_name_eq ha hb hName]

/- There is one breakpoint of each name. -/
theorem filter_name
    {b : Breakpoint}
    (hb : b ∈ c.breakpoints) :
    c.breakpoints.filter (fun a => a.name = b.name) = [b] := by
  have hSame :
      c.breakpoints.filter (fun a => a.name = b.name) =
        c.breakpoints.filter (fun a => a = b) := by
    apply List.filter_congr
    intro a ha
    exact decide_eq_decide.2
      ⟨eq_of_name_eq ha hb, fun h => h ▸ rfl⟩
  rw [hSame, List.filter_eq,
    List.count_eq_one_of_mem
      (c.nodup_names_breakpoints.of_map _) hb]
  rfl

/- The first breakpoint is the only one without a condition. -/
theorem isMinimum_iff
    {b : Breakpoint}
    (hb : b ∈ c.breakpoints) :
    b.isMinimum = true ↔ b = c.minimum := by
  have hMinimum : c.minimum ∈ c.breakpoints :=
    List.head_mem c.breakpoints_ne_nil
  constructor
  · intro h
    refine eq_of_rank_eq hb hMinimum ?_
    rw [minimum_rank]
    simpa [Breakpoint.isMinimum] using h
  · intro h
    simp [Breakpoint.isMinimum, h, minimum_rank]

------------------------------------------------------------
-- Breakpoints at the front of a text
------------------------------------------------------------

/-
  A name without colons opens exactly the texts whose part in
  front of the first colon it is.
-/
theorem opens_iff
    {name text : List Char}
    (hName : ':' ∉ name) :
    opens name text = true ↔ text.takeWhile (· ≠ ':') = name := by
  have hAll : ∀ d ∈ name, decide (d ≠ ':') = true := by
    intro d hd
    exact decide_eq_true (fun h => hName (h ▸ hd))
  constructor
  · intro hOpens
    rw [opens, Bool.and_eq_true, List.isPrefixOf_iff_prefix]
      at hOpens
    rcases hOpens with ⟨⟨rest, rfl⟩, hEnd⟩
    rw [List.drop_left] at hEnd
    rw [List.takeWhile_append_of_pos hAll]
    cases rest with
    | nil => exact List.append_nil name
    | cons d rest =>
        have hColon : d = ':' := of_decide_eq_true hEnd
        rw [List.takeWhile_cons_of_neg (by simp [hColon]),
          List.append_nil]
  · rintro rfl
    have hSplit :=
      List.takeWhile_append_dropWhile
        (p := fun d => decide (d ≠ ':')) (l := text)
    have hDrop :
        text.drop (text.takeWhile (· ≠ ':')).length =
          text.dropWhile (· ≠ ':') := by
      conv_lhs => arg 2; rw [← hSplit]
      exact List.drop_left
    have hColon :=
      List.head?_dropWhile_not (fun d => decide (d ≠ ':')) text
    rw [opens, Bool.and_eq_true, List.isPrefixOf_iff_prefix, hDrop]
    refine ⟨List.takeWhile_prefix _, ?_⟩
    cases hBack : text.dropWhile (· ≠ ':') with
    | nil => rfl
    | cons d rest =>
        rw [hBack] at hColon
        simpa using hColon

/-
  Where no name has a colon, the breakpoint that opens a text
  is the one of the part in front of the first colon.
-/
theorem longestOpening?_eq_get?
    (hNames : ∀ b ∈ c.breakpoints, ':' ∉ b.name.toList)
    (text : List Char) :
    c.longestOpening? text =
      c.get? (String.ofList (text.takeWhile (· ≠ ':'))) := by
  have hFilter :
      c.breakpoints.filter (fun b => opens b.name.toList text) =
        c.breakpoints.filter (fun b =>
          b.name = String.ofList (text.takeWhile (· ≠ ':'))) := by
    apply List.filter_congr
    intro b hb
    rw [Bool.eq_iff_iff, opens_iff (hNames b hb), decide_eq_true_iff]
    constructor
    · intro h
      rw [h, String.ofList_toList]
    · intro h
      rw [h, String.toList_ofList]
  rw [longestOpening?, hFilter]
  cases hFound : c.get? (String.ofList (text.takeWhile (· ≠ ':'))) with
  | none =>
      have hNil :
          c.breakpoints.filter (fun b =>
            b.name = String.ofList (text.takeWhile (· ≠ ':'))) =
              [] := by
        apply List.filter_eq_nil_iff.2
        exact List.find?_eq_none.1 hFound
      rw [hNil]
      rfl
  | some b =>
      rcases of_get? hFound with ⟨hb, hName⟩
      rw [← hName, filter_name hb]
      rfl

/- The longest of several breakpoints, starting with one of them. -/
theorem foldl_longer
    (a : Breakpoint)
    (bs : List Breakpoint) :
    ∃ b ∈ a :: bs, bs.foldl longer (some a) = some b ∧
      ∀ x ∈ a :: bs, x.name.length ≤ b.name.length := by
  induction bs generalizing a with
  | nil =>
      exact ⟨a, List.mem_cons_self, rfl,
        List.forall_mem_singleton.2 (Nat.le_refl _)⟩
  | cons y rest ih =>
      rw [List.foldl_cons, longer]
      split
      · rename_i hShort
        rw [String.length_toList, String.length_toList] at hShort
        rcases ih y with ⟨b, hb, hFold, hLongest⟩
        refine ⟨b, List.mem_cons_of_mem a hb, hFold, ?_⟩
        refine List.forall_mem_cons.2 ⟨?_, hLongest⟩
        exact Nat.le_trans hShort (hLongest y List.mem_cons_self)
      · rename_i hLong
        rw [String.length_toList, String.length_toList] at hLong
        rcases ih a with ⟨b, hb, hFold, hLongest⟩
        rcases List.forall_mem_cons.1 hLongest with ⟨hFirst, hRest⟩
        refine ⟨b, ?_, hFold, ?_⟩
        · rcases List.mem_cons.1 hb with rfl | hb
          · exact List.mem_cons_self
          · exact List.mem_cons_of_mem _ (List.mem_cons_of_mem y hb)
        · refine List.forall_mem_cons.2 ⟨hFirst, ?_⟩
          refine List.forall_mem_cons.2 ⟨?_, hRest⟩
          exact Nat.le_trans (Nat.le_of_not_le hLong) hFirst

/-
  The breakpoint found at the front of a text opens it, and
  no other that opens it has a longer name.
-/
theorem longest_of_longestOpening?
    {text : List Char}
    {b : Breakpoint}
    (h : c.longestOpening? text = some b) :
    b ∈ c.breakpoints ∧ opens b.name.toList text = true ∧
      ∀ a ∈ c.breakpoints, opens a.name.toList text = true →
        a.name.length ≤ b.name.length := by
  rw [longestOpening?] at h
  cases hFilter :
      c.breakpoints.filter (fun b => opens b.name.toList text) with
  | nil =>
      rw [hFilter] at h
      cases h
  | cons first bs =>
      rcases foldl_longer first bs with ⟨b', hb', hFold, hLongest⟩
      rw [hFilter] at h
      cases hFold.symm.trans h
      rw [← hFilter] at hb' hLongest
      rcases List.mem_filter.1 hb' with ⟨hb, hOpens⟩
      exact ⟨hb, hOpens, fun a ha hOpensA =>
        hLongest a (List.mem_filter.2 ⟨ha, hOpensA⟩)⟩

theorem of_longestOpening?
    {text : List Char}
    {b : Breakpoint}
    (h : c.longestOpening? text = some b) :
    b ∈ c.breakpoints ∧ opens b.name.toList text = true := by
  rcases longest_of_longestOpening? h with ⟨hb, hOpens, _⟩
  exact ⟨hb, hOpens⟩

end Cascade

end AtomicCss
