import AtomicCss.Declarations.Layers
import AtomicCss.Proofs.OrderedMap

/-
  This file proves what is gathered of a property when layers
  are added one after another.

  A property is pinned once a concrete layer has it. So in
  whatever order concrete layers and fallbacks are added, the
  last concrete layer with a property decides about it, and
  where there is none the last fallback with it does.

  Key definitions include:
    * `Properties.lastValue`
    * `Layer.concrete?`
    * `Layer.fallback?`

  The main statements are:
    * `Layered.mem_pinned_add_iff`
    * `Layered.get?_add_base`
    * `Layered.get?_add_concrete`
    * `Layered.get?_add_fallback`
    * `Layered.mem_pinned_foldl_add_iff`
    * `Layered.get?_foldl_add`
-/

namespace AtomicCss

------------------------------------------------------------
-- Properties in a row
------------------------------------------------------------

/- The value that the last of several properties give a name. -/
def Properties.lastValue
    (property : String)
    (ps : List Properties) : Option String :=
  ps.reverse.findSome? (fun p => p.get? property)

theorem Properties.lastValue_append
    (property : String)
    (ps qs : List Properties) :
    lastValue property (ps ++ qs) =
      (lastValue property qs).or (lastValue property ps) := by
  rw [lastValue, List.reverse_append, List.findSome?_append]
  rfl

theorem Properties.lastValue_singleton
    (property : String)
    (p : Properties) :
    lastValue property [p] = p.get? property := by
  simp [lastValue]

theorem Properties.lastValue_toList
    (property : String)
    (p : Option Properties) :
    lastValue property p.toList =
      p.bind (fun p => p.get? property) := by
  cases p with
  | none => rfl
  | some p => exact lastValue_singleton property p

/- Of properties that are looked up the last ones found decide. -/
theorem Properties.lastValue_filterMap
    {α : Type}
    (property : String)
    (f : α → Option Properties)
    (xs : List α) :
    lastValue property (xs.filterMap f) =
      xs.reverse.findSome?
        (fun x => (f x).bind (fun p => p.get? property)) := by
  induction xs with
  | nil => rfl
  | cons x rest ih =>
      have hCons :
          (x :: rest).filterMap f =
            (f x).toList ++ rest.filterMap f := by
        rw [List.filterMap_cons]
        cases f x <;> rfl
      rw [hCons, lastValue_append, ih, lastValue_toList,
        List.reverse_cons, List.findSome?_append]
      simp

theorem Properties.lastValue_eq_none_iff
    (property : String)
    (ps : List Properties) :
    lastValue property ps = none ↔
      ¬ ∃ p ∈ ps, property ∈ p.keys := by
  simp [lastValue, OrderedMap.mem_keys_iff_get?_ne_none]

------------------------------------------------------------
-- One layer
------------------------------------------------------------

/- The properties that a layer pins. -/
def Layer.concrete? : Layer → Option Properties
  | .concrete p => some p
  | _ => none

/- The properties that a layer writes only where none is pinned. -/
def Layer.fallback? : Layer → Option Properties
  | .fallback p => some p
  | _ => none

namespace Layered

/- Where each entry is put into the map, all of them extend it. -/
theorem properties_foldl
    (step : Layered → String × String → Layered)
    (hStep :
      ∀ l e, (step l e).properties = l.properties.insert e.1 e.2)
    (entries : List (String × String))
    (l : Layered) :
    (entries.foldl step l).properties =
      entries.foldl (fun m e => m.insert e.1 e.2) l.properties :=
  (List.foldl_hom properties (fun l e => (hStep l e).symm)).symm

/- Where no entry pins its property, all of them pin none. -/
theorem pinned_foldl
    (step : Layered → String × String → Layered)
    (hStep : ∀ l e, (step l e).pinned = l.pinned)
    (entries : List (String × String))
    (l : Layered) :
    (entries.foldl step l).pinned = l.pinned := by
  induction entries generalizing l with
  | nil => rfl
  | cons e rest ih => exact (ih _).trans (hStep l e)

theorem mem_pinned_foldl_pin_iff
    (entries : List (String × String))
    (l : Layered)
    (property : String) :
    property ∈ (entries.foldl pin l).pinned ↔
      property ∈ entries.map Prod.fst ∨ property ∈ l.pinned := by
  induction entries generalizing l with
  | nil => simp
  | cons e rest ih =>
      rw [List.foldl_cons, ih, pin, List.map_cons, List.mem_cons,
        List.mem_cons]
      exact or_left_comm.trans or_assoc.symm

theorem pinned_suggest
    (l : Layered)
    (e : String × String) :
    (l.suggest e).pinned = l.pinned := by
  unfold suggest
  split <;> rfl

/- A suggestion reaches a property if it names it and may. -/
theorem get?_suggest
    (l : Layered)
    (e : String × String)
    (property : String) :
    (l.suggest e).properties.get? property =
      if property = e.1 ∧ property ∉ l.pinned then
        some e.2
      else
        l.properties.get? property := by
  unfold suggest
  by_cases hPinned : e.1 ∈ l.pinned
  · rw [if_pos hPinned, if_neg]
    rintro ⟨rfl, hFree⟩
    exact hFree hPinned
  · rw [if_neg hPinned, write, OrderedMap.get?_insert]
    by_cases hName : property = e.1
    · rw [if_pos hName, if_pos ⟨hName, hName ▸ hPinned⟩]
    · rw [if_neg hName, if_neg (fun h => hName h.1)]

theorem get?_foldl_suggest_of_pinned
    {l : Layered}
    {property : String}
    (hPinned : property ∈ l.pinned)
    (entries : List (String × String)) :
    (entries.foldl suggest l).properties.get? property =
      l.properties.get? property := by
  induction entries generalizing l with
  | nil => rfl
  | cons e rest ih =>
      have hKept : property ∈ (l.suggest e).pinned :=
        (l.pinned_suggest e).symm ▸ hPinned
      rw [List.foldl_cons, ih hKept, get?_suggest,
        if_neg (fun h => h.2 hPinned)]

/-
  A property that is not pinned takes suggestions as a map
  takes entries. The induction keeps that the map agrees on
  the property, though not on those that are pinned.
-/
theorem get?_foldl_suggest_of_not_pinned
    {l : Layered}
    {property : String}
    (hFree : property ∉ l.pinned)
    {m : Properties}
    (hSame : l.properties.get? property = m.get? property)
    (entries : List (String × String)) :
    (entries.foldl suggest l).properties.get? property =
      (entries.foldl (fun m e => m.insert e.1 e.2) m).get?
        property := by
  induction entries generalizing l m with
  | nil => exact hSame
  | cons e rest ih =>
      have hKept : property ∉ (l.suggest e).pinned :=
        (l.pinned_suggest e).symm ▸ hFree
      refine ih hKept ?_
      rw [get?_suggest, OrderedMap.get?_insert, hSame]
      exact if_congr (and_iff_left hFree) rfl rfl

variable (l : Layered) (property : String)

theorem get?_add_base
    (p : Properties) :
    (l.add (.base p)).properties.get? property =
      (p.get? property).or (l.properties.get? property) := by
  rw [add, properties_foldl write (fun _ _ => rfl)]
  exact OrderedMap.get?_extend l.properties p property

theorem get?_add_concrete
    (p : Properties) :
    (l.add (.concrete p)).properties.get? property =
      (p.get? property).or (l.properties.get? property) := by
  rw [add, properties_foldl pin (fun _ _ => rfl)]
  exact OrderedMap.get?_extend l.properties p property

theorem get?_add_fallback
    (p : Properties) :
    (l.add (.fallback p)).properties.get? property =
      if property ∈ l.pinned then
        l.properties.get? property
      else
        (p.get? property).or (l.properties.get? property) := by
  split
  · rename_i hPinned
    exact get?_foldl_suggest_of_pinned hPinned p.entries
  · rename_i hFree
    rw [add, get?_foldl_suggest_of_not_pinned hFree rfl]
    exact OrderedMap.get?_extend l.properties p property

/- Only concrete layers pin, and they pin all that they have. -/
theorem mem_pinned_add_iff
    (layer : Layer) :
    property ∈ (l.add layer).pinned ↔
      (∃ p ∈ layer.concrete?, property ∈ p.keys) ∨
        property ∈ l.pinned := by
  cases layer with
  | base p =>
      rw [add, pinned_foldl write (fun _ _ => rfl)]
      simp [Layer.concrete?]
  | concrete p =>
      rw [add, mem_pinned_foldl_pin_iff]
      simp [Layer.concrete?, OrderedMap.keys]
  | fallback p =>
      rw [add, pinned_foldl suggest pinned_suggest]
      simp [Layer.concrete?]

------------------------------------------------------------
-- Layers in a row
------------------------------------------------------------

theorem mem_pinned_foldl_add_iff
    (layers : List Layer) :
    property ∈ (layers.foldl add l).pinned ↔
      (∃ p ∈ layers.filterMap Layer.concrete?,
        property ∈ p.keys) ∨
          property ∈ l.pinned := by
  induction layers generalizing l with
  | nil => simp
  | cons layer rest ih =>
      rw [List.foldl_cons, ih, mem_pinned_add_iff,
        List.filterMap_cons]
      cases layer.concrete? with
      | none => simp
      | some p =>
          simp only [Option.mem_some_iff, exists_eq_left',
            List.mem_cons, exists_eq_or_imp]
          exact or_left_comm.trans or_assoc.symm

/-
  Concrete layers have precedence over fallbacks, and of each
  kind the last layer decides. By induction on the last layer:
  a fallback there is held off exactly where an earlier layer
  is concrete and has the property.
-/
theorem get?_foldl_add
    {layers : List Layer}
    (hAbove : ∀ p, Layer.base p ∉ layers)
    {l : Layered}
    {property : String}
    (hFree : property ∉ l.pinned) :
    (layers.foldl add l).properties.get? property =
      (Properties.lastValue property
        (layers.filterMap Layer.concrete?)).or
          ((Properties.lastValue property
            (layers.filterMap Layer.fallback?)).or
              (l.properties.get? property)) := by
  induction layers using List.reverseRecOn with
  | nil => rfl
  | append_singleton layers layer ih =>
      have hBelow : ∀ p, Layer.base p ∉ layers :=
        fun p hp => hAbove p (List.mem_append_left _ hp)
      rw [List.foldl_append, List.foldl_cons, List.foldl_nil,
        List.filterMap_append, List.filterMap_append,
        Properties.lastValue_append, Properties.lastValue_append]
      cases layer with
      | base p => exact absurd (by simp) (hAbove p)
      | concrete p =>
          rw [get?_add_concrete, ih hBelow]
          simp [List.filterMap_cons, Layer.concrete?,
            Layer.fallback?, Properties.lastValue, Option.or_assoc]
      | fallback p =>
          have hPinned :
              property ∈ (layers.foldl add l).pinned ↔
                Properties.lastValue property
                  (layers.filterMap Layer.concrete?) ≠ none := by
            rw [mem_pinned_foldl_add_iff, or_iff_left hFree, ne_eq,
              Properties.lastValue_eq_none_iff, not_not]
          rw [get?_add_fallback, ih hBelow]
          cases hConcrete :
              Properties.lastValue property
                (layers.filterMap Layer.concrete?) with
          | none =>
              rw [if_neg (fun h => hPinned.1 h hConcrete)]
              simp [List.filterMap_cons, Layer.concrete?,
                Layer.fallback?, Properties.lastValue,
                Option.or_assoc]
          | some v =>
              rw [if_pos (hPinned.2 (by simp [hConcrete]))]
              simp [List.filterMap_cons, Layer.concrete?,
                Properties.lastValue]

end Layered

end AtomicCss
