import AtomicCss.Catalog
import AtomicCss.Proofs.Config

/-
  This file proves what utilities come to that are laid over
  each other: each part is that of the last utility in which
  it is set. It describes the utilities of a family by what
  they give to a single property.

  Key definitions include:
    * `Utility.property?`
    * `Utility.stacked`
    * `Utility.Generated`
    * `Family.css?`
    * `Family.listed?`
    * `Family.property?`
    * `Family.template?`

  The main statements are:
    * `Utility.bind_stacked`
    * `Utility.property?_overlay`
    * `Family.get?_fullScale`
    * `Family.scale?_of_known`
    * `Family.named_utilities`
    * `Family.property?_utility`
-/

namespace AtomicCss

------------------------------------------------------------
-- Utilities laid over each other
------------------------------------------------------------

namespace Utility

/- What a utility gives to a property under a value name. -/
def property?
    (u : Utility)
    (value property : String) : Option String :=
  (u.values.get? value).bind (fun p => p.get? property)

/- Utilities laid over each other in order, if there are any. -/
def stacked
    (us : List Utility) : Option Utility :=
  us.foldl (fun old u => some (overlayOn old u)) none

/- The upper utility decides about the properties that it gives. -/
theorem property?_overlay
    (a b : Utility)
    (value property : String) :
    (a.overlay b).property? value property =
      (b.property? value property).or
        (a.property? value property) := by
  simp only [property?, overlay, ValueTable.overlay,
    OrderedMap.get?_mergeWith]
  cases hUpper : b.values.get? value with
  | none => rfl
  | some upper =>
      cases hLower : a.values.get? value with
      | none => simp
      | some lower => simp [OrderedMap.get?_extend]

theorem template_overlay
    (a b : Utility) :
    (a.overlay b).template = b.template.or a.template := by
  unfold overlay replaceIfSet
  cases b.template <;> rfl

theorem stacked_append_singleton
    (us : List Utility)
    (u : Utility) :
    stacked (us ++ [u]) = some (overlayOn (stacked us) u) := by
  simp [stacked]

/-
  A part that an overlay takes from above where it is set
  there is that of the last utility in which it is set.
-/
theorem bind_stacked
    {α : Type}
    {part : Utility → Option α}
    (hPart : ∀ a b, part (a.overlay b) = (part b).or (part a))
    (us : List Utility) :
    (stacked us).bind part = us.reverse.findSome? part := by
  induction us using List.reverseRecOn with
  | nil => rfl
  | append_singleton us u ih =>
      rw [stacked_append_singleton, List.reverse_append,
        List.findSome?_append, ← ih]
      cases hBelow : stacked us with
      | none => simp [overlayOn]
      | some below => simp [overlayOn, hPart]

/-
  Whether a utility has no parts but values and a template,
  which are all that a family gives.
-/
structure Generated (u : Utility) : Prop where
  common : u.common = ∅
  defaults : u.defaults = ∅
  selector : u.selector = none
  rtl : u.rtl = none

/- Generated utilities come to a generated utility. -/
theorem Generated.overlay
    {a b : Utility}
    (ha : a.Generated)
    (hb : b.Generated) :
    (a.overlay b).Generated where
  common := by simp [Utility.overlay, ha.common, hb.common]
  defaults := by simp [Utility.overlay, ha.defaults, hb.defaults]
  selector := by simp [Utility.overlay, ha.selector, hb.selector]
  rtl := by simp [Utility.overlay, ha.rtl, hb.rtl]

theorem Generated.stacked
    {us : List Utility}
    (hAll : ∀ u ∈ us, u.Generated) :
    ∀ u ∈ Utility.stacked us, u.Generated := by
  induction us using List.reverseRecOn with
  | nil => exact fun u hu => absurd hu (by simp [Utility.stacked])
  | append_singleton us u ih =>
      rcases List.forall_mem_append.1 hAll with ⟨hBelow, hLast⟩
      have hu : u.Generated := hLast u (by simp)
      intro w hw
      rw [stacked_append_singleton, Option.mem_some_iff] at hw
      subst hw
      cases hStacked : Utility.stacked us with
      | none => exact hu
      | some below => exact (ih hBelow below hStacked).overlay hu

/- Over a generated utility the other parts stay as they are. -/
theorem Generated.overlayOn
    {below : Option Utility}
    (hBelow : ∀ a ∈ below, a.Generated)
    (u : Utility) :
    let all := Utility.overlayOn below u
    all.common = u.common ∧ all.defaults = u.defaults ∧
      all.selector = u.selector ∧ all.rtl = u.rtl := by
  cases below with
  | none => exact ⟨rfl, rfl, rfl, rfl⟩
  | some a =>
      have ha := hBelow a rfl
      simp [Utility.overlayOn, Utility.overlay, ha.common,
        ha.defaults, ha.selector, ha.rtl]

end Utility

------------------------------------------------------------
-- Scales of families
------------------------------------------------------------

namespace Family

/- Whether the scale that a family names, if any, is defined. -/
def Known
    (f : Family)
    (scales : Scales) : Prop :=
  ∀ name, f.scale = some name → name ∈ scales.keys

/- The own values of a family over the scale that it names. -/
def fullScale
    (f : Family)
    (scales : Scales) : OrderedMap String String :=
  ((f.scale.bind scales.get?).getD ∅).extend f.values

/- The CSS value of a value name: its own, or that of the scale. -/
def css?
    (f : Family)
    (scales : Scales)
    (value : String) : Option String :=
  (f.values.get? value).or
    ((f.scale.bind scales.get?).bind (fun scale => scale.get? value))

theorem get?_fullScale
    (f : Family)
    (scales : Scales)
    (value : String) :
    (f.fullScale scales).get? value = f.css? scales value := by
  rw [fullScale, OrderedMap.get?_extend, css?]
  cases f.scale.bind scales.get? <;> rfl

/- Of a family only the scale can be unknown. -/
theorem scale?_of_known
    {f : Family}
    {scales : Scales}
    (hKnown : f.Known scales) :
    f.scale? scales = .ok (f.fullScale scales) := by
  unfold scale? fullScale
  cases hScale : f.scale with
  | none => rfl
  | some name =>
      cases hFound : scales.get? name with
      | none =>
          exact absurd hFound
            ((scales.mem_keys_iff_get?_ne_none name).1
              (hKnown name hScale))
      | some scale => simp [hFound]

theorem scale?_of_not_known
    {f : Family}
    {scales : Scales}
    (hUnknown : ¬ f.Known scales) :
    ∃ e, f.scale? scales = .error e := by
  unfold Known at hUnknown
  push Not at hUnknown
  rcases hUnknown with ⟨name, hScale, hMissing⟩
  have hFound : scales.get? name = none := by
    by_contra hSome
    exact hMissing
      ((scales.mem_keys_iff_get?_ne_none name).2 hSome)
  refine ⟨.unknownScale f.stem name, ?_⟩
  simp only [scale?, hScale, hFound]

------------------------------------------------------------
-- What a family gives
------------------------------------------------------------

/- The properties that the member of a family with a key lists. -/
def listed?
    (f : Family)
    (key : String) : Option (List String) :=
  (f.members.entries.find? (fun m => f.stem ++ m.1 = key)).map
    Prod.snd

/- What a family gives to a property, for a key and a value name. -/
def property?
    (f : Family)
    (scales : Scales)
    (key value property : String) : Option String :=
  match f.listed? key with
  | some properties =>
      if property ∈ properties then f.css? scales value else none
  | none => none

/- The template of a family for a key: a slot for each property. -/
def template?
    (f : Family)
    (key : String) : Option Properties :=
  (f.listed? key).map (fun properties =>
    .ofList (properties.map (fun p => (p, "*"))))

/- At most one member of a family has a given key. -/
theorem filter_members
    (f : Family)
    (key : String) :
    (f.members.entries.filter (fun m => f.stem ++ m.1 = key)).map
        Prod.snd =
      (f.listed? key).toList := by
  have hName :
      Function.Injective (fun ending => f.stem ++ ending) :=
    fun _ _ => (String.append_right_inj f.stem).1
  have hFilter :=
    OrderedMap.filter_entries_of_injective hName f.members key
  rw [hFilter, listed?, Option.toList_map]

/- So a family has at most one utility for a key. -/
theorem named_utilities
    (f : Family)
    (scale : OrderedMap String String)
    (key : String) :
    ((f.utilities scale).filter (fun m => m.1 = key)).map Prod.snd =
      (f.listed? key).toList.map (utility scale) := by
  rw [← filter_members, utilities, List.filter_map, List.map_map,
    List.map_map]
  rfl

theorem keys_utilities
    (f : Family)
    (scale : OrderedMap String String) :
    (f.utilities scale).map Prod.fst =
      f.members.keys.map (fun ending => f.stem ++ ending) := by
  simp only [utilities, OrderedMap.keys, List.map_map]
  rfl

theorem generated_utility
    (scale : OrderedMap String String)
    (properties : List String) :
    (utility scale properties).Generated :=
  ⟨rfl, rfl, rfl, rfl⟩

/- Each of several properties has the one value. -/
theorem get?_uniform
    (properties : List String)
    (value property : String) :
    (uniform properties value).get? property =
      if property ∈ properties then some value else none := by
  induction properties using List.reverseRecOn with
  | nil => rfl
  | append_singleton rest p ih =>
      have hWrite :
          uniform (rest ++ [p]) value =
            (uniform rest value).insert p value := by
        rw [uniform, List.map_append]
        apply OrderedMap.ofList_append_singleton
      rw [hWrite, OrderedMap.get?_insert, ih]
      by_cases hLast : property = p <;> simp [hLast]

/- A utility over a scale gives its values to the properties. -/
theorem property?_utility
    (scale : OrderedMap String String)
    (properties : List String)
    (value property : String) :
    (utility scale properties).property? value property =
      if property ∈ properties then scale.get? value else none := by
  simp only [Utility.property?, utility, OrderedMap.get?_mapValues]
  cases scale.get? value with
  | none => simp
  | some css => exact get?_uniform properties css property

end Family

end AtomicCss
