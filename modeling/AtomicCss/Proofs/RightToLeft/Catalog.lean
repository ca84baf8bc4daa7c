import AtomicCss.Proofs.Merging
import AtomicCss.Proofs.Renaming
import AtomicCss.Proofs.RightToLeft.Offsets
import AtomicCss.RightToLeft.Catalog

/-
  This file proves that a catalog that is turned around twice
  is the catalog with its patches laid over it: nothing is
  lost or merged on the way, and all orders are kept.

  Key definitions include:
    * `Properties.flipValue`

  The main statements are:
    * `Properties.entries_flip`
    * `Properties.flip_flip`
    * `Utility.patched_eq`
    * `Utility.flip_flip`
    * `Catalog.flip_twice`
-/

namespace AtomicCss

open RightToLeft

------------------------------------------------------------
-- Properties
------------------------------------------------------------

namespace Properties

/- What becomes of the value of a property. -/
def flipValue
    (name value : String) : String :=
  if name = "transform" then
    negateOffsets (swapSides value)
  else
    swapSides value

/- The name that decides about offsets has no sides. -/
theorem swapSides_eq_transform_iff
    {name : String} :
    swapSides name = "transform" ↔ name = "transform" := by
  have hSame : swapSides "transform" = "transform" := by decide
  constructor
  · intro h
    exact swapSides_injective (h.trans hSame.symm)
  · rintro rfl
    exact hSame

theorem flipEntry_eq :
    flipEntry = Entries.renamed swapSides flipValue := by
  funext e
  unfold flipEntry Entries.renamed flipValue
  by_cases hName : e.1 = "transform"
  · rw [if_pos (swapSides_eq_transform_iff.2 hName), if_pos hName]
  · rw [if_neg (fun h => hName (swapSides_eq_transform_iff.1 h)),
      if_neg hName]

/- Properties are turned around by renaming them. -/
theorem flip_eq_rename
    (p : Properties) :
    p.flip = p.rename swapSides flipValue := by
  rw [flip, flipEntry_eq]
  rfl

theorem entries_flip
    (p : Properties) :
    p.flip.entries = p.entries.map flipEntry := by
  rw [flip_eq_rename, flipEntry_eq]
  exact OrderedMap.entries_rename flipValue swapSides_injective p

/- Values turned around twice are the values. -/
theorem flipValue_flipValue
    (name value : String) :
    flipValue (swapSides name) (flipValue name value) = value := by
  unfold flipValue
  by_cases hName : name = "transform"
  · rw [if_pos (swapSides_eq_transform_iff.2 hName), if_pos hName,
      ← negateOffsets_swapSides, negateOffsets_negateOffsets,
      swapSides_swapSides]
  · rw [if_neg (fun h => hName (swapSides_eq_transform_iff.1 h)),
      if_neg hName, swapSides_swapSides]

@[simp]
theorem flipEntry_flipEntry
    (e : String × String) :
    flipEntry (flipEntry e) = e := by
  rw [flipEntry_eq]
  exact Prod.ext (swapSides_swapSides e.1)
    (flipValue_flipValue e.1 e.2)

@[simp]
theorem flip_flip
    (p : Properties) :
    p.flip.flip = p := by
  have hTwice : flipEntry ∘ flipEntry = id := by
    funext e
    rw [Function.comp_apply, flipEntry_flipEntry, id]
  apply OrderedMap.ext
  rw [entries_flip, entries_flip, List.map_map, hTwice, List.map_id]

end Properties

------------------------------------------------------------
-- Utilities
------------------------------------------------------------

/-
  What an overlay has for a value: the properties of both
  tables, of which those of the second are laid over the
  others.
-/
theorem ValueTable.eq_extend_of_overlay
    {a b : ValueTable}
    {name : String}
    {p : Properties}
    (hFound : (a.overlay b).get? name = some p) :
    p = ((a.get? name).getD ∅).extend ((b.get? name).getD ∅) := by
  have hMerged :=
    OrderedMap.get?_mergeWith
      (fun (old : Option Properties) new => (old.getD ∅).extend new)
      a b name
  rw [overlay, hMerged] at hFound
  cases hAbove : b.get? name with
  | none =>
      rw [hAbove, Option.map_none, Option.none_or] at hFound
      rw [hFound]
      rfl
  | some above =>
      rw [hAbove] at hFound
      exact (Option.some.inj hFound).symm

namespace Utility

/- A utility without a patch is patched by an empty one. -/
theorem patched_eq
    (u : Utility) :
    let patch := u.rtl.getD {}
    u.patched =
      { u with
        values := u.values.overlay patch.values
        common := u.common.extend patch.common
        template := patch.template.or u.template
        rtl := none } := by
  rcases u with ⟨values, common, defaults, selector, template, rtl⟩
  cases rtl with
  | none => rfl
  | some patch =>
      rcases patch with ⟨_, _, _ | _⟩ <;> rfl

@[simp]
theorem rtl_patched
    (u : Utility) :
    u.patched.rtl = none := by
  rw [patched_eq]

/- Only the patch of a utility is laid over it. -/
theorem patched_eq_self_iff
    (u : Utility) :
    u.patched = u ↔ u.rtl = none := by
  constructor
  · intro h
    exact h ▸ u.rtl_patched
  · intro hPatch
    rw [patched, hPatch]

@[simp]
theorem rtl_flip
    (u : Utility) :
    u.flip.rtl = none :=
  u.rtl_patched

@[simp]
theorem flipSides_flipSides
    (u : Utility) :
    u.flipSides.flipSides = u := by
  have hValues :
      (u.values.mapValues Properties.flip).mapValues Properties.flip =
        u.values := by
    rw [OrderedMap.mapValues_mapValues]
    exact OrderedMap.mapValues_eq_self (fun p _ => p.flip_flip)
  have hTemplate :
      (u.template.map Properties.flip).map Properties.flip =
        u.template := by
    cases u.template with
    | none => rfl
    | some template => exact congrArg some template.flip_flip
  unfold flipSides
  rw [hValues, hTemplate, Properties.flip_flip]

/- Twice turned around, a utility is left with its patch applied. -/
theorem flip_flip
    (u : Utility) :
    u.flip.flip = u.patched := by
  have hFlip : u.flip.patched = u.flip :=
    (patched_eq_self_iff _).2 u.rtl_flip
  rw [flip, hFlip, flip, flipSides_flipSides]

end Utility

------------------------------------------------------------
-- Catalogs
------------------------------------------------------------

namespace Catalog

/- No utility of a patched catalog has a patch left. -/
theorem rtl_of_mem_patched
    {c : Catalog}
    {u : Utility}
    (hMem : u ∈ c.patched.utilities.values) :
    u.rtl = none := by
  unfold patched at hMem
  rw [OrderedMap.values_mapValues] at hMem
  rcases List.mem_map.1 hMem with ⟨v, _, rfl⟩
  exact v.rtl_patched

/- A catalog without patches is left as it is, and no other one. -/
theorem patched_eq_self_iff
    (c : Catalog) :
    c.patched = c ↔ ∀ u ∈ c.utilities.values, u.rtl = none := by
  constructor
  · intro h u hMem
    rw [← h] at hMem
    exact rtl_of_mem_patched hMem
  · intro hNone
    rw [patched,
      OrderedMap.mapValues_eq_self (fun u hMem =>
        u.patched_eq_self_iff.2 (hNone u hMem))]

theorem flip_flip_eq_patched
    (c : Catalog) :
    c.flip.flip = c.patched := by
  have hUtilities :
      (c.utilities.mapValues Utility.flip).mapValues Utility.flip =
        c.utilities.mapValues Utility.patched := by
    rw [OrderedMap.mapValues_mapValues]
    exact congrArg (OrderedMap.mapValues · c.utilities)
      (funext Utility.flip_flip)
  have hOverrides :
      (c.overrides.mapValues Properties.flip).mapValues
        Properties.flip = c.overrides := by
    rw [OrderedMap.mapValues_mapValues]
    exact OrderedMap.mapValues_eq_self (fun p _ => p.flip_flip)
  rw [flip, flip, hUtilities, hOverrides]
  rfl

/-
  A catalog that is turned around twice is the catalog with
  its patches laid over it, which are then gone. Keys,
  defaults, selectors and overrides are the same, in the same
  order.

  What a utility declares it still has, in the same order,
  except where its patch has the property under the same name.
  What only the patch has stands behind that. A template of
  the patch replaces that of the utility. So the catalog is
  unchanged exactly if it had no patches.
-/
theorem flip_twice
    (c : Catalog) :
    let twice := c.flip.flip
    twice = c.patched ∧
    twice.overrides = c.overrides ∧
    twice.selectors = c.selectors ∧
    twice.utilities.keys = c.utilities.keys ∧
    (∀ key u, c.utilities.get? key = some u →
      let patch := u.rtl.getD {}
      ∃ v, twice.utilities.get? key = some v ∧
        v.defaults = u.defaults ∧
        v.selector = u.selector ∧
        v.rtl = none ∧
        v.values.keys =
          u.values.keys ++
            patch.values.keys.filter (fun n => n ∉ u.values.keys) ∧
        (∀ name p, v.values.get? name = some p →
          let below := (u.values.get? name).getD ∅
          let above := (patch.values.get? name).getD ∅
          p.keys =
            below.keys ++
              above.keys.filter (fun k => k ∉ below.keys) ∧
          ∀ property,
            p.get? property =
              (above.get? property).or (below.get? property)) ∧
        v.common.keys =
          u.common.keys ++
            patch.common.keys.filter (fun k => k ∉ u.common.keys) ∧
        (∀ property,
          v.common.get? property =
            (patch.common.get? property).or
              (u.common.get? property)) ∧
        v.template = patch.template.or u.template) ∧
    (twice = c ↔ ∀ u ∈ c.utilities.values, u.rtl = none) := by
  intro twice
  have hTwice : twice = c.patched := c.flip_flip_eq_patched
  rw [hTwice]
  refine ⟨rfl, rfl, rfl, OrderedMap.keys_mapValues _ _, ?_,
    c.patched_eq_self_iff⟩
  intro key u hUtility patch
  refine ⟨u.patched, ?_, ?_⟩
  · have hFound :=
      OrderedMap.get?_mapValues Utility.patched c.utilities key
    rwa [hUtility] at hFound
  · rw [u.patched_eq]
    refine ⟨rfl, rfl, rfl, OrderedMap.keys_mergeWith _ _ _, ?_,
      OrderedMap.keys_extend _ _, OrderedMap.get?_extend _ _, rfl⟩
    intro name p hFound
    rw [ValueTable.eq_extend_of_overlay hFound]
    exact ⟨OrderedMap.keys_extend _ _, OrderedMap.get?_extend _ _⟩

/-
  A utility with several offsets, and a patch that has one of
  its values, another one, and a template of its own.
-/
theorem flip_twice_of_offsets :
    let patch : Patch :=
      { values := .ofList
          [ ("far", .ofList
              [("float", "left"), ("margin-right", "2px")]),
            ("off", .ofList [("left", "auto")]) ]
        template := some (.ofList [("margin-right", "*")]) }
    let u : Utility :=
      { values := .ofList
          [ ("near", .ofList
              [ ("transform",
                  "translate(1px, 2px) translateX(-3px)") ]),
            ("far", .ofList
              [("margin-right", "1px"), ("left", "0")]) ]
        common := .ofList [("text-align", "left")]
        defaults := .ofList [("*", "near")]
        selector := some ".left"
        rtl := some patch }
    let c : Catalog :=
      { utilities := .ofList [("pull", u)]
        overrides := .ofList
          [(⟨.any, .exactly "pull", .any⟩,
            .ofList [("border-left", "none")])] }
    c.utilities.get? "pull" = some u ∧
    ((c.flip.utilities.get? "pull").bind
      (fun v => v.values.get? "near")).map OrderedMap.entries =
        some
          [ ("transform",
              "translate(-1px, 2px) translateX(3px)") ] ∧
    c.flip.overrides.values.map OrderedMap.entries =
      [[("border-right", "none")]] ∧
    c.flip.flip.overrides = c.overrides ∧
    (∃ v, c.flip.flip.utilities.get? "pull" = some v ∧
      v.selector = some ".left" ∧
      v.rtl = none ∧
      v.values.keys = ["near", "far", "off"] ∧
      (∀ p, v.values.get? "far" = some p →
        p.keys = ["margin-right", "left", "float"] ∧
        p.get? "margin-right" = some "2px") ∧
      v.common.get? "text-align" = some "left" ∧
      v.template = some (.ofList [("margin-right", "*")])) ∧
    c.flip.flip ≠ c := by
  intro patch u c
  have hUtility : c.utilities.get? "pull" = some u := rfl
  rcases c.flip_twice with
    ⟨_, hOverrides, _, _, hUtilities, hSame⟩
  rcases hUtilities "pull" u hUtility with
    ⟨v, hFound, _, hSelector, hPatch, hNames, hValues, _,
      hCommon, hTemplate⟩
  have hChanged : c.flip.flip ≠ c := by
    intro h
    have hNone : u.rtl = none :=
      hSame.1 h u List.mem_cons_self
    cases hNone
  refine ⟨hUtility, by decide +kernel, by decide, hOverrides,
    ⟨v, hFound, hSelector, hPatch, hNames.trans (by decide), ?_,
      (hCommon "text-align").trans (by decide), hTemplate⟩, hChanged⟩
  intro p hp
  rcases hValues "far" p hp with ⟨hKeys, hProperties⟩
  exact ⟨hKeys.trans (by decide),
    (hProperties "margin-right").trans (by decide)⟩

end Catalog

end AtomicCss
