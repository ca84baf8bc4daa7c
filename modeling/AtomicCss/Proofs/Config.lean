import AtomicCss.Config.Basic
import AtomicCss.Proofs.Merging

/-
  This file proves that configurations may be laid over each
  other in any grouping: only their order counts, and a
  configuration that sets nothing changes nothing.

  Each part of a configuration is overlaid in its own way. All
  of these ways have the two laws, and from the parts they
  carry over to what is made of them.

  The main statements are:
    * `replaceIfSet_assoc`
    * `ValueTable.overlay_assoc`
    * `Utility.overlay_assoc`
    * `Config.overlays_form_a_monoid`
-/

namespace AtomicCss

------------------------------------------------------------
-- Values that are replaced
------------------------------------------------------------

theorem replaceIfSet_assoc
    {α : Type}
    (a b c : Option α) :
    replaceIfSet (replaceIfSet a b) c =
      replaceIfSet a (replaceIfSet b c) := by
  cases c <;> rfl

@[simp]
theorem none_replaceIfSet
    {α : Type}
    (a : Option α) :
    replaceIfSet none a = a := by
  cases a <;> rfl

------------------------------------------------------------
-- Maps of maps
------------------------------------------------------------

namespace OrderedMap

variable {κ κ' ν : Type} [DecidableEq κ] [DecidableEq κ']

/- A map that extends what is there, if anything. -/
private def extendOn
    (old : Option (OrderedMap κ' ν))
    (new : OrderedMap κ' ν) : OrderedMap κ' ν :=
  (old.getD ∅).extend new

private theorem mergeWith_extendOn_assoc
    (a b c : OrderedMap κ (OrderedMap κ' ν)) :
    (a.mergeWith extendOn b).mergeWith extendOn c =
      a.mergeWith extendOn (b.mergeWith extendOn c) :=
  mergeWith_assoc empty_extend extend_assoc a b c

private theorem empty_mergeWith_extendOn
    (m : OrderedMap κ (OrderedMap κ' ν)) :
    (∅ : OrderedMap κ (OrderedMap κ' ν)).mergeWith extendOn m = m :=
  empty_mergeWith empty_extend m

end OrderedMap

namespace ValueTable

theorem overlay_assoc
    (a b c : ValueTable) :
    (a.overlay b).overlay c = a.overlay (b.overlay c) :=
  OrderedMap.mergeWith_extendOn_assoc a b c

end ValueTable

------------------------------------------------------------
-- Utilities
------------------------------------------------------------

namespace Utility

/- Utilities are overlaid part by part. -/
theorem overlay_assoc
    (a b c : Utility) :
    (a.overlay b).overlay c = a.overlay (b.overlay c) := by
  simp only [overlay, ValueTable.overlay_assoc,
    OrderedMap.extend_assoc, replaceIfSet_assoc]

/- Where keys meet, so do the laws of their utilities. -/
theorem mergeWith_overlayOn_assoc
    (a b c : OrderedMap String Utility) :
    (a.mergeWith overlayOn b).mergeWith overlayOn c =
      a.mergeWith overlayOn (b.mergeWith overlayOn c) :=
  OrderedMap.mergeWith_assoc (fun _ => rfl) overlay_assoc a b c

theorem empty_mergeWith_overlayOn
    (m : OrderedMap String Utility) :
    (∅ : OrderedMap String Utility).mergeWith overlayOn m = m :=
  OrderedMap.empty_mergeWith (fun _ => rfl) m

end Utility

------------------------------------------------------------
-- Configurations
------------------------------------------------------------

namespace Config

variable (a b c : Config)

/- Of breakpoint tables the last one with entries stays. -/
theorem breakpoints_overlay :
    (a.overlay b).breakpoints =
      if b.breakpoints.isEmpty then a.breakpoints
      else b.breakpoints :=
  rfl

private theorem breakpoints_overlay_assoc :
    ((a.overlay b).overlay c).breakpoints =
      (a.overlay (b.overlay c)).breakpoints := by
  simp only [breakpoints_overlay]
  by_cases hEmpty : c.breakpoints.isEmpty = true
  · simp only [hEmpty, if_true]
  · simp only [hEmpty, if_false, Bool.false_eq_true]

private theorem breakpoints_empty_overlay :
    (empty.overlay a).breakpoints = a.breakpoints := by
  rw [breakpoints_overlay]
  split
  · rename_i hEmpty
    exact OrderedMap.ext (List.isEmpty_iff.1 hEmpty).symm
  · rfl

theorem overlay_assoc :
    (a.overlay b).overlay c = a.overlay (b.overlay c) := by
  have hScales :=
    OrderedMap.mergeWith_extendOn_assoc a.scales b.scales c.scales
  have hUtilities :=
    Utility.mergeWith_overlayOn_assoc
      a.utilities b.utilities c.utilities
  apply (mk.injEq ..).mpr
  exact ⟨breakpoints_overlay_assoc a b c,
    OrderedMap.extend_assoc _ _ _,
    hScales,
    hUtilities,
    OrderedMap.extend_assoc _ _ _,
    List.append_assoc _ _ _⟩

theorem empty_overlay :
    empty.overlay a = a := by
  apply (mk.injEq ..).mpr
  exact ⟨breakpoints_empty_overlay a,
    OrderedMap.empty_extend _,
    OrderedMap.empty_mergeWith_extendOn _,
    Utility.empty_mergeWith_overlayOn _,
    OrderedMap.empty_extend _,
    List.nil_append _⟩

theorem overlay_empty :
    a.overlay empty = a := by
  apply (mk.injEq ..).mpr
  exact ⟨rfl, rfl, rfl, rfl, rfl, List.append_nil _⟩

/-
  Configurations may be laid over each other in any grouping,
  and the empty one has no effect, whether it is above or
  below. The results are the same in all six parts, and the
  entries of all maps and lists stand in the same order.
-/
theorem overlays_form_a_monoid :
    (a.overlay b).overlay c = a.overlay (b.overlay c) ∧
      empty.overlay a = a ∧
      a.overlay empty = a :=
  ⟨a.overlay_assoc b c, a.empty_overlay, a.overlay_empty⟩

/-
  Three configurations that share their sections: what is laid
  over others takes effect, at the place of what was there.
-/
theorem overlays_form_a_monoid_of_boxes :
    let box (common red : Properties) (template : Properties) :
        Utility :=
      { values := .ofList [("red", red)]
        common := common
        template := some template }
    let a : Config :=
      { breakpoints := .ofList [("sm", 576), ("md", 768)]
        selectors := .ofList [("dark", ".dark"), ("print", ".print")]
        scales := .ofList
          [("size", .ofList [("s", "1px"), ("m", "2px")])]
        utilities := .ofList
          [("box",
            box (.ofList [("outline", "none")])
              (.ofList [("color", "red"), ("margin", "0")])
              (.ofList [("color", "*")]))]
        overrides := .ofList [("box=red", .ofList [("color", "tan")])]
        families := [{ stem := "p" }] }
    let b : Config :=
      { selectors := .ofList [("dark", ".night")]
        scales := .ofList
          [("size", .ofList [("m", "4px"), ("l", "8px")])]
        utilities := .ofList
          [("box",
            box (.ofList [("outline", "solid")])
              (.ofList [("padding", "0"), ("color", "crimson")])
              (.ofList [("margin", "*")]))]
        overrides := .ofList [("box=red", .ofList [("margin", "1px")])]
        families := [{ stem := "m" }] }
    let c : Config := { breakpoints := .ofList [("lg", 992)] }
    let d := (a.overlay b).overlay c
    d = a.overlay (b.overlay c) ∧
    empty.overlay d = d ∧
    d.overlay empty = d ∧
    d.breakpoints.keys = ["lg"] ∧
    d.selectors.entries = [("dark", ".night"), ("print", ".print")] ∧
    (d.scales.get? "size").map OrderedMap.entries =
      some [("s", "1px"), ("m", "4px"), ("l", "8px")] ∧
    d.utilities.get? "box" =
      some (box (.ofList [("outline", "solid")])
        (.ofList
          [("color", "crimson"), ("margin", "0"), ("padding", "0")])
        (.ofList [("margin", "*")])) ∧
    (d.overrides.get? "box=red").map OrderedMap.entries =
      some [("margin", "1px")] ∧
    d.families.map Family.stem = ["p", "m"] := by
  intro box a b c d
  rcases overlays_form_a_monoid d d d with ⟨_, hBelow, hAbove⟩
  exact ⟨(overlays_form_a_monoid a b c).1, hBelow, hAbove, by decide,
    by decide, by decide, by decide, by decide, by decide⟩

end Config

end AtomicCss
