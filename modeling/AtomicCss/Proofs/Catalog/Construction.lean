import AtomicCss.Proofs.Catalog.Stacking

/-
  This file proves what the catalog of a configuration holds,
  and when there is one.

  Utilities are added one after another, first those of the
  families and then the explicit ones. So what the catalog has
  under a key are those of them with that key, laid over each
  other.

  Key definitions include:
    * `Catalog.addAll`
    * `Catalog.extendInPlace`
    * `Config.generated`
    * `Config.added`

  The main statements are:
    * `foldlM_ok_iff`
    * `Catalog.ofConfig_ok_iff`
    * `Catalog.utility?_ofConfig`
    * `Catalog.extendInPlace_eq`
    * `Catalog.built_by_precedence`
-/

namespace AtomicCss

------------------------------------------------------------
-- Steps that may fail
------------------------------------------------------------

theorem bind_ok_iff
    {α β ε : Type}
    {x : Except ε α}
    {f : α → Except ε β}
    {b : β} :
    x >>= f = .ok b ↔ ∃ a, x = .ok a ∧ f a = .ok b := by
  cases x with
  | error e =>
      constructor
      · intro h
        cases h
      · rintro ⟨a, h, _⟩
        cases h
  | ok a =>
      constructor
      · exact fun h => ⟨a, rfl, h⟩
      · rintro ⟨a', h, hf⟩
        cases h
        exact hf

/- The first result in lists that follow each other. -/
theorem findSome?_flatMap
    {α β γ : Type}
    (f : α → List β)
    (g : β → Option γ)
    (xs : List α) :
    (xs.flatMap f).findSome? g =
      xs.findSome? (fun x => (f x).findSome? g) := by
  induction xs with
  | nil => rfl
  | cons x rest ih =>
      rw [List.flatMap_cons, List.findSome?_append, ih,
        List.findSome?_cons]
      cases (f x).findSome? g <;> rfl

section

variable {σ α ε : Type} {step : σ → α → Except ε σ}

/-
  Steps in a row succeed if each of them does, provided that
  the states do not matter for that.
-/
theorem foldlM_ok_iff
    {Good : α → Prop}
    (hStep : ∀ s x, (∃ t, step s x = .ok t) ↔ Good x)
    (xs : List α)
    (s : σ) :
    (∃ t, xs.foldlM step s = .ok t) ↔ ∀ x ∈ xs, Good x := by
  induction xs generalizing s with
  | nil => simp [pure, Except.pure]
  | cons x rest ih =>
      rw [List.forall_mem_cons, ← hStep s x]
      constructor
      · rintro ⟨t, hAll⟩
        rw [List.foldlM_cons] at hAll
        rcases bind_ok_iff.1 hAll with ⟨u, hFirst, hRest⟩
        exact ⟨⟨u, hFirst⟩, (ih u).1 ⟨t, hRest⟩⟩
      · rintro ⟨⟨u, hFirst⟩, hRest⟩
        rcases (ih u).2 hRest with ⟨t, ht⟩
        refine ⟨t, ?_⟩
        rw [List.foldlM_cons]
        exact bind_ok_iff.2 ⟨u, hFirst, ht⟩

/- What each step keeps, all of them keep. -/
theorem foldlM_keeps
    {β : Type}
    {part : σ → β}
    (hStep : ∀ s x t, step s x = .ok t → part t = part s)
    {xs : List α}
    {s t : σ}
    (hAll : xs.foldlM step s = .ok t) :
    part t = part s := by
  induction xs generalizing s with
  | nil =>
      cases hAll
      rfl
  | cons x rest ih =>
      rw [List.foldlM_cons] at hAll
      rcases bind_ok_iff.1 hAll with ⟨u, hFirst, hRest⟩
      exact (ih hRest).trans (hStep s x u hFirst)

end

------------------------------------------------------------
-- Adding utilities
------------------------------------------------------------

namespace Catalog

/- Add utilities with their keys, in order. -/
def addAll
    (c : Catalog)
    (us : List (String × Utility)) : Catalog :=
  us.foldl (fun c m => c.addUtility m.1 m.2) c

theorem addAll_append
    (c : Catalog)
    (us vs : List (String × Utility)) :
    c.addAll (us ++ vs) = (c.addAll us).addAll vs :=
  List.foldl_append

theorem utilities_addAll
    (c : Catalog)
    (us : List (String × Utility)) :
    (c.addAll us).utilities =
      us.foldl
        (fun m e => m.upsert e.1 (Utility.overlayOn · e.2))
        c.utilities := by
  induction us generalizing c with
  | nil => rfl
  | cons e rest ih => exact ih _

/- The utilities with one key are laid over each other. -/
theorem utility?_addAll
    {c : Catalog}
    (hNone : c.utilities = ∅)
    (us : List (String × Utility))
    (key : String) :
    (c.addAll us).utility? key =
      Utility.stacked
        ((us.filter (fun m => m.1 = key)).map Prod.snd) := by
  rw [utility?, utilities_addAll, hNone, Utility.stacked,
    List.foldl_map]
  exact OrderedMap.get?_foldl_upsert Prod.fst
    (fun old (e : String × Utility) =>
      Utility.overlayOn old e.2) us ∅ key

/- Keys stand in the order in which they were first added. -/
theorem keys_addAll
    {c : Catalog}
    (hNone : c.utilities = ∅)
    (us : List (String × Utility)) :
    (c.addAll us).utilities.keys =
      (us.map Prod.fst).eraseDups := by
  rw [utilities_addAll, hNone]
  exact OrderedMap.keys_foldl_upsert Prod.fst
    (fun old (e : String × Utility) =>
      Utility.overlayOn old e.2) us

------------------------------------------------------------
-- Adding families
------------------------------------------------------------

theorem addFamily_of_known
    {scales : Scales}
    {f : Family}
    (hKnown : f.Known scales)
    (c : Catalog) :
    c.addFamily scales f =
      .ok (c.addAll (f.utilities (f.fullScale scales))) := by
  rw [addFamily, Family.scale?_of_known hKnown]
  rfl

theorem addFamily_ok_iff
    (scales : Scales)
    (c : Catalog)
    (f : Family) :
    (∃ d, c.addFamily scales f = .ok d) ↔ f.Known scales := by
  constructor
  · rintro ⟨d, hAdded⟩
    by_contra hUnknown
    rcases Family.scale?_of_not_known hUnknown with ⟨e, he⟩
    rw [addFamily, he] at hAdded
    cases hAdded
  · intro hKnown
    exact ⟨_, addFamily_of_known hKnown c⟩

theorem foldlM_addFamily
    {scales : Scales}
    {families : List Family}
    (hKnown : ∀ f ∈ families, f.Known scales)
    (c : Catalog) :
    families.foldlM (fun c f => c.addFamily scales f) c =
      .ok (c.addAll (families.flatMap
        (fun f => f.utilities (f.fullScale scales)))) := by
  induction families generalizing c with
  | nil => rfl
  | cons f rest ih =>
      rcases List.forall_mem_cons.1 hKnown with ⟨hFirst, hRest⟩
      rw [List.foldlM_cons, addFamily_of_known hFirst,
        List.flatMap_cons, addAll_append]
      exact ih hRest _

/-
  Add the utilities of a family one by one to a catalog that
  is changed in place, and so is changed even if this fails.
-/
def extendInPlace
    (scales : Scales)
    (f : Family) : ExceptT Error (StateM Catalog) Unit := do
  let scale ← MonadExcept.ofExcept (f.scale? scales)
  f.members.entries.forM (fun m =>
    modify (fun c =>
      c.addUtility (f.stem ++ m.1) (Family.utility scale m.2)))

private theorem run_forM_addUtility
    (f : Family)
    (scale : OrderedMap String String)
    (members : List (String × List String))
    (c : Catalog) :
    (members.forM (fun m =>
      (modify (fun c =>
        c.addUtility (f.stem ++ m.1) (Family.utility scale m.2)) :
          ExceptT Error (StateM Catalog) Unit))) c =
      (.ok (), c.addAll (members.map (fun m =>
        (f.stem ++ m.1, Family.utility scale m.2)))) := by
  induction members generalizing c with
  | nil => rfl
  | cons m rest ih => exact ih _

/- In place, either the family is added or nothing happens. -/
theorem extendInPlace_eq
    (scales : Scales)
    (f : Family)
    (c : Catalog) :
    extendInPlace scales f c =
      match c.addFamily scales f with
      | .ok d => (.ok (), d)
      | .error e => (.error e, c) := by
  unfold extendInPlace addFamily
  cases f.scale? scales with
  | error e => rfl
  | ok scale =>
      exact run_forM_addUtility f scale f.members.entries c

------------------------------------------------------------
-- Adding overrides
------------------------------------------------------------

theorem addOverride_ok_iff
    (c : Catalog)
    (e : String × Properties) :
    (∃ d, c.addOverride e.1 e.2 = .ok d) ↔
      ∃ pattern, Pattern.read? e.1 = .ok pattern := by
  constructor
  · rintro ⟨d, hAdded⟩
    rcases bind_ok_iff.1 hAdded with ⟨pattern, hRead, _⟩
    exact ⟨pattern, hRead⟩
  · rintro ⟨pattern, hRead⟩
    exact ⟨_, bind_ok_iff.2 ⟨pattern, hRead, rfl⟩⟩

theorem utilities_addOverride
    {c d : Catalog}
    {e : String × Properties}
    (hAdded : c.addOverride e.1 e.2 = .ok d) :
    d.utilities = c.utilities := by
  rcases bind_ok_iff.1 hAdded with ⟨pattern, _, hWritten⟩
  cases hWritten
  rfl

end Catalog

------------------------------------------------------------
-- Building
------------------------------------------------------------

namespace Config

/- The utilities that the families of a configuration give. -/
def generated
    (config : Config) : List (String × Utility) :=
  config.families.flatMap
    (fun f => f.utilities (f.fullScale config.scales))

/- All utilities that a configuration adds, in order. -/
def added
    (config : Config) : List (String × Utility) :=
  config.generated ++ config.utilities.entries

/- The utilities that families give to one key, in order. -/
theorem named_generated
    (config : Config)
    (key : String) :
    (config.generated.filter (fun m => m.1 = key)).map Prod.snd =
      config.families.flatMap (fun f =>
        (f.listed? key).toList.map
          (Family.utility (f.fullScale config.scales))) := by
  simp only [generated, List.filter_flatMap, List.map_flatMap,
    Family.named_utilities]

theorem named_added
    (config : Config)
    (key : String) :
    (config.added.filter (fun m => m.1 = key)).map Prod.snd =
      (config.generated.filter (fun m => m.1 = key)).map Prod.snd ++
        (config.utilities.get? key).toList := by
  rw [added, List.filter_append, List.map_append,
    OrderedMap.filter_entries, List.map_map]
  exact congrArg _ (List.map_id _)

/- The catalog before anything is added. -/
def blank
    (config : Config) : Catalog where
  selectors := config.selectors

/- The explicit utility of a key, without parts if there is none. -/
def explicit
    (config : Config)
    (key : String) : Utility :=
  (config.utilities.get? key).getD {}

theorem mem_keys_added_iff
    (config : Config)
    (key : String) :
    key ∈ config.added.map Prod.fst ↔
      (∃ f ∈ config.families, ∃ ending ∈ f.members.keys,
        f.stem ++ ending = key) ∨
      key ∈ config.utilities.keys := by
  rw [added, List.map_append, List.mem_append]
  apply or_congr_left
  simp only [generated, List.map_flatMap, List.mem_flatMap,
    Family.keys_utilities, List.mem_map]

/- Two families and an explicit utility that share a key. -/
def margins : Config where
  scales := .ofList
    [("spacing", .ofList [("1", "4px"), ("2", "8px")])]
  families :=
    [{ stem := "m"
       scale := some "spacing"
       members := .ofList
         [("x", ["margin-left", "margin-right"])] },
      { stem := "mx"
        values := .ofList [("1", "5px")]
        members := .ofList [("", ["margin-left"])] }]
  utilities := .ofList
    [("mx", {
      values := .ofList [("1", .ofList [("margin-right", "6px")])]
      defaults := .ofList [("*", "1")] })]
  overrides := .ofList [("*:mx=1", .ofList [("color", "red")])]

end Config

namespace Catalog

variable {config : Config} {c : Catalog}

/- A catalog is built of its families, utilities and overrides. -/
theorem ofConfig_eq_ok_iff :
    ofConfig config = .ok c ↔
      (∀ f ∈ config.families, f.Known config.scales) ∧
      config.overrides.entries.foldlM
        (fun c e => c.addOverride e.1 e.2)
        (config.blank.addAll config.added) = .ok c := by
  have hFamilies :=
    foldlM_ok_iff (addFamily_ok_iff config.scales) config.families
      config.blank
  have hAdded :
      ∀ d : Catalog,
        config.families.foldlM
            (fun (c : Catalog) f => c.addFamily config.scales f)
            config.blank = .ok d →
          d.addAll config.utilities.entries =
            config.blank.addAll config.added := by
    intro d hd
    rw [foldlM_addFamily (hFamilies.1 ⟨d, hd⟩)] at hd
    cases hd
    exact (addAll_append _ _ _).symm
  constructor
  · intro hBuilt
    rcases bind_ok_iff.1 hBuilt with ⟨d, hd, hRest⟩
    refine ⟨hFamilies.1 ⟨d, hd⟩, ?_⟩
    rw [← hAdded d hd]
    exact hRest
  · rintro ⟨hKnown, hRest⟩
    rcases hFamilies.2 hKnown with ⟨d, hd⟩
    rw [← hAdded d hd] at hRest
    exact bind_ok_iff.2 ⟨d, hd, hRest⟩

/- It is known scales and readable patterns that it takes. -/
theorem ofConfig_ok_iff :
    (∃ c, ofConfig config = .ok c) ↔
      (∀ f ∈ config.families, f.Known config.scales) ∧
      ∀ text ∈ config.overrides.keys,
        ∃ pattern, Pattern.read? text = .ok pattern := by
  have hOverrides :=
    foldlM_ok_iff addOverride_ok_iff config.overrides.entries
      (config.blank.addAll config.added)
  simp only [ofConfig_eq_ok_iff, exists_and_left, hOverrides,
    OrderedMap.keys, List.forall_mem_map]

/- Overrides leave the utilities that were added. -/
theorem utilities_ofConfig
    (hBuilt : ofConfig config = .ok c) :
    c.utilities =
      (config.blank.addAll config.added).utilities :=
  foldlM_keeps (fun _ _ _ => utilities_addOverride)
    (ofConfig_eq_ok_iff.1 hBuilt).2

theorem keys_ofConfig
    (hBuilt : ofConfig config = .ok c) :
    c.utilities.keys = (config.added.map Prod.fst).eraseDups := by
  rw [utilities_ofConfig hBuilt, keys_addAll rfl]

/-
  Under a key the explicit utility lies over those of the
  families, which lie over each other in their order.
-/
theorem utility?_ofConfig
    (hBuilt : ofConfig config = .ok c)
    (key : String) :
    c.utility? key =
      Utility.stacked
        (config.families.flatMap (fun f =>
          (f.listed? key).toList.map
            (Family.utility (f.fullScale config.scales))) ++
          (config.utilities.get? key).toList) := by
  rw [utility?, utilities_ofConfig hBuilt]
  refine (utility?_addAll rfl config.added key).trans ?_
  rw [config.named_added, config.named_generated]

/-
  A part that an overlay takes from above is that of the
  explicit utility, or else of the last family that has it.
-/
theorem part_ofConfig
    {α : Type}
    {part : Utility → Option α}
    (hPart : ∀ a b, part (a.overlay b) = (part b).or (part a))
    (hEmpty : part {} = none)
    (hBuilt : ofConfig config = .ok c)
    (key : String) :
    (c.utility? key).bind part =
      (part (config.explicit key)).or
        (config.families.reverse.findSome? (fun f =>
          (f.listed? key).bind (fun properties =>
            part (Family.utility (f.fullScale config.scales)
              properties)))) := by
  have hExplicit :
      part (config.explicit key) =
        (config.utilities.get? key).toList.reverse.findSome?
          part := by
    unfold Config.explicit
    cases config.utilities.get? key with
    | none => exact hEmpty
    | some u => simp
  have hFamily :
      ∀ f : Family,
        ((f.listed? key).toList.map
          (Family.utility (f.fullScale config.scales))).reverse.findSome?
            part =
          (f.listed? key).bind (fun properties =>
            part (Family.utility (f.fullScale config.scales)
              properties)) := by
    intro f
    cases f.listed? key with
    | none => rfl
    | some properties => simp
  rw [utility?_ofConfig hBuilt, Utility.bind_stacked hPart,
    List.reverse_append, List.findSome?_append, ← hExplicit,
    List.reverse_flatMap, findSome?_flatMap]
  simp only [Function.comp_apply, hFamily]

theorem property?_ofConfig
    (hBuilt : ofConfig config = .ok c)
    (key value property : String) :
    (c.utility? key).bind (·.property? value property) =
      ((config.explicit key).property? value property).or
        (config.families.reverse.findSome? (fun f =>
          f.property? config.scales key value property)) := by
  have hFamily :
      ∀ f : Family,
        (f.listed? key).bind (fun properties =>
          (Family.utility (f.fullScale config.scales)
            properties).property? value property) =
          f.property? config.scales key value property := by
    intro f
    unfold Family.property?
    cases f.listed? key with
    | none => rfl
    | some properties =>
        simp [Family.property?_utility, Family.get?_fullScale]
  let part : Utility → Option String :=
    fun u => u.property? value property
  have hOverlay :
      ∀ a b, part (a.overlay b) = (part b).or (part a) :=
    fun a b => Utility.property?_overlay a b value property
  have hPart := part_ofConfig hOverlay rfl hBuilt key
  simpa only [part, hFamily] using hPart

theorem template_ofConfig
    (hBuilt : ofConfig config = .ok c)
    (key : String) :
    (c.utility? key).bind Utility.template =
      (config.explicit key).template.or
        (config.families.reverse.findSome?
          (fun f => f.template? key)) := by
  have hFamily :
      ∀ f : Family,
        (f.listed? key).bind (fun properties =>
          (Family.utility (f.fullScale config.scales)
            properties).template) =
          f.template? key := by
    intro f
    unfold Family.template?
    cases f.listed? key <;> rfl
  have hPart :=
    part_ofConfig Utility.template_overlay rfl hBuilt key
  simpa only [hFamily] using hPart

/- The parts that families do not give are the explicit ones. -/
theorem explicit_parts_ofConfig
    (hBuilt : ofConfig config = .ok c)
    {key : String}
    {u : Utility}
    (hFound : c.utility? key = some u) :
    u.common = (config.explicit key).common ∧
      u.defaults = (config.explicit key).defaults ∧
      u.selector = (config.explicit key).selector ∧
      u.rtl = (config.explicit key).rtl := by
  let us :=
    config.families.flatMap (fun f =>
      (f.listed? key).toList.map
        (Family.utility (f.fullScale config.scales)))
  have hGenerated : ∀ w ∈ us, w.Generated := by
    intro w hw
    rcases List.mem_flatMap.1 hw with ⟨f, _, hw⟩
    rcases List.mem_map.1 hw with ⟨properties, _, rfl⟩
    exact Family.generated_utility _ properties
  have hBelow := Utility.Generated.stacked hGenerated
  rw [utility?_ofConfig hBuilt] at hFound
  unfold Config.explicit
  cases hExplicit : config.utilities.get? key with
  | none =>
      rw [hExplicit, Option.toList_none, List.append_nil] at hFound
      have hu := hBelow u hFound
      exact ⟨hu.common, hu.defaults, hu.selector, hu.rtl⟩
  | some own =>
      rw [hExplicit, Option.toList_some,
        Utility.stacked_append_singleton, Option.some.injEq] at hFound
      subst hFound
      exact Utility.Generated.overlayOn hBelow own

/-
  A catalog is built exactly if each scale that a family names
  is defined and each override can be read. It has the keys of
  the family members and of the explicit utilities. What a
  utility gives to a property is what the explicit one does;
  otherwise it is the value of the last family that lists the
  property for the key and has the value name. The template is
  the explicit one, or else that of the last family with the
  key. All other parts are explicit.

  A family whose scale is unknown leaves the catalog that it
  was to be added to as it was.
-/
theorem built_by_precedence
    (config : Config) :
    ((∃ c, ofConfig config = .ok c) ↔
      (∀ f ∈ config.families, ∀ name, f.scale = some name →
        name ∈ config.scales.keys) ∧
      ∀ text ∈ config.overrides.keys,
        ∃ pattern, Pattern.read? text = .ok pattern) ∧
    (∀ c, ofConfig config = .ok c →
      (∀ key, key ∈ c.utilities.keys ↔
        (∃ f ∈ config.families, ∃ ending ∈ f.members.keys,
          f.stem ++ ending = key) ∨
        key ∈ config.utilities.keys) ∧
      ∀ key u, c.utility? key = some u →
        let explicit := config.explicit key
        (∀ value property,
          u.property? value property =
            (explicit.property? value property).or
              (config.families.reverse.findSome? (fun f =>
                f.property? config.scales key value property))) ∧
        u.template =
          explicit.template.or
            (config.families.reverse.findSome?
              (fun f => f.template? key)) ∧
        u.common = explicit.common ∧
        u.defaults = explicit.defaults ∧
        u.selector = explicit.selector ∧
        u.rtl = explicit.rtl) ∧
    ∀ scales f c,
      let r := extendInPlace scales f c
      c.addFamily scales f = r.1.map (fun _ => r.2) ∧
      ∀ e, r.1 = .error e → r.2 = c := by
  refine ⟨ofConfig_ok_iff, ?_, ?_⟩
  · intro c hBuilt
    refine ⟨?_, ?_⟩
    · intro key
      rw [keys_ofConfig hBuilt, List.mem_eraseDups]
      exact config.mem_keys_added_iff key
    · intro key u hFound
      have hProperty := property?_ofConfig hBuilt key
      have hTemplate := template_ofConfig hBuilt key
      simp only [hFound, Option.bind_some] at hProperty hTemplate
      exact ⟨hProperty, hTemplate,
        explicit_parts_ofConfig hBuilt hFound⟩
  · intro scales f c
    dsimp only
    rw [extendInPlace_eq]
    cases c.addFamily scales f with
    | error e => exact ⟨rfl, fun _ _ => rfl⟩
    | ok d => exact ⟨rfl, fun _ h => nomatch h⟩

/- The later family and the explicit utility win; then a failure. -/
theorem built_by_precedence_of_margins :
    (∃ c u,
      ofConfig .margins = .ok c ∧
      c.utility? "mx" = some u ∧
      u.property? "1" "margin-left" = some "5px" ∧
      u.property? "1" "margin-right" = some "6px" ∧
      u.property? "2" "margin-left" = some "8px" ∧
      u.property? "3" "margin-left" = none ∧
      u.template = some (.ofList [("margin-left", "*")]) ∧
      u.defaults = .ofList [("*", "1")]) ∧
    let r := extendInPlace ∅ { stem := "m", scale := some "s" } empty
    r.1 = .error (.unknownScale "m" "s") ∧ r.2 = empty := by
  have hBuilt : ∃ c, ofConfig .margins = .ok c := ⟨_, rfl⟩
  rcases hBuilt with ⟨c, hBuilt⟩
  rcases built_by_precedence .margins with ⟨_, hAll, hInPlace⟩
  rcases hAll c hBuilt with ⟨hKeys, hParts⟩
  have hKey : "mx" ∈ c.utilities.keys :=
    (hKeys "mx").2 (Or.inr (by decide))
  rcases Option.ne_none_iff_exists'.1
      ((c.utilities.mem_keys_iff_get?_ne_none "mx").1 hKey) with
    ⟨u, hFound⟩
  rcases hParts "mx" u hFound with
    ⟨hProperty, hTemplate, _, hDefaults, _⟩
  refine ⟨⟨c, u, hBuilt, hFound, ?_, ?_, ?_, ?_, ?_, ?_⟩, rfl,
    (hInPlace ∅ _ empty).2 _ rfl⟩
  · exact (hProperty "1" "margin-left").trans (by decide)
  · exact (hProperty "1" "margin-right").trans (by decide)
  · exact (hProperty "2" "margin-left").trans (by decide)
  · exact (hProperty "3" "margin-left").trans (by decide)
  · exact hTemplate.trans (by decide)
  · exact hDefaults.trans (by decide)

end Catalog

end AtomicCss
