import AtomicCss.Batch.Run
import AtomicCss.Proofs.RightToLeft.Catalog

/-
  This file proves that tokens are compiled alike in both
  directions of layout: a catalog that is turned around reads
  the same tokens, builds the same selectors, and gives every
  token without a payload the declarations of the patched
  catalog, turned around.

  Key definitions include:
    * `Declarations.flip`
    * `Rule.flip`

  The main statements are:
    * `Layered.add_flip`
    * `Token.layers_flip`
    * `Token.declarations_flip`
    * `Catalog.flip_commutes_with_compilation`
    * `Environment.rule?_flip`
-/

namespace AtomicCss

open RightToLeft

------------------------------------------------------------
-- Declarations
------------------------------------------------------------

namespace Properties

/- All properties keep their places under their new names. -/
theorem keys_flip
    (p : Properties) :
    p.flip.keys = p.keys.map swapSides := by
  rw [flip_eq_rename]
  exact OrderedMap.keys_rename flipValue swapSides_injective p

theorem flip_insert
    (p : Properties)
    (name value : String) :
    flip (p.insert name value) =
      p.flip.insert (flipEntry (name, value)).1
        (flipEntry (name, value)).2 := by
  rw [flip_eq_rename, flip_eq_rename, flipEntry_eq]
  exact OrderedMap.rename_insert flipValue swapSides_injective
    p name value

theorem isEmpty_flip
    (p : Properties) :
    p.flip.isEmpty = p.isEmpty := by
  rw [OrderedMap.isEmpty, entries_flip, List.isEmpty_map]
  rfl

end Properties

namespace Declarations

/-
  Declarations turned around. A property stays important
  under its new name.
-/
def flip
    (d : Declarations) : Declarations where
  properties := d.properties.flip
  important := d.important.rename swapSides (fun _ u => u)

@[simp]
theorem isImportant_flip
    (d : Declarations)
    (property : String) :
    d.flip.isImportant (swapSides property) =
      d.isImportant property :=
  OrderedMap.contains_rename _ swapSides_injective
    d.important property

theorem isEmpty_flip
    (d : Declarations) :
    d.flip.isEmpty = d.isEmpty :=
  d.properties.isEmpty_flip

/- The mark of a token keeps its meaning. -/
theorem uniform_flip
    (p : Properties)
    (important : Bool) :
    uniform p.flip important = (uniform p important).flip := by
  cases important with
  | false => rfl
  | true =>
      have hMarks :
          p.flip.mapValues (fun _ => ()) =
            (p.mapValues (fun _ => ())).rename swapSides
              (fun _ u => u) := by
        apply OrderedMap.ext
        rw [OrderedMap.entries_rename _ swapSides_injective]
        simp only [OrderedMap.mapValues, Properties.entries_flip,
          List.map_map, Properties.flipEntry_eq]
        rfl
      exact congrArg (Declarations.mk p.flip) hMarks

end Declarations

------------------------------------------------------------
-- Layers
------------------------------------------------------------

/- A layer with its properties turned around. -/
def Layer.flip : Layer → Layer
  | .base p => .base p.flip
  | .concrete p => .concrete p.flip
  | .fallback p => .fallback p.flip

namespace Layered

/- Gathered properties turned around. Pinned ones stay pinned. -/
def flip
    (l : Layered) : Layered where
  properties := l.properties.flip
  pinned := l.pinned.map swapSides

theorem write_flip
    (l : Layered)
    (e : String × String) :
    l.flip.write (Properties.flipEntry e) = (l.write e).flip :=
  congrArg (Layered.mk · _) (l.properties.flip_insert e.1 e.2).symm

theorem pin_flip
    (l : Layered)
    (e : String × String) :
    l.flip.pin (Properties.flipEntry e) = (l.pin e).flip := by
  have hName : (Properties.flipEntry e).1 = swapSides e.1 := by
    rw [Properties.flipEntry_eq]
    rfl
  rw [pin, pin, flip, flip, List.map_cons,
    Properties.flip_insert, hName]

/- Different properties have different names, pinned or not. -/
theorem suggest_flip
    (l : Layered)
    (e : String × String) :
    l.flip.suggest (Properties.flipEntry e) = (l.suggest e).flip := by
  have hPinned :
      (Properties.flipEntry e).1 ∈ l.flip.pinned ↔
        e.1 ∈ l.pinned := by
    rw [Properties.flipEntry_eq]
    exact List.mem_map_of_injective swapSides_injective
  unfold suggest
  by_cases h : e.1 ∈ l.pinned
  · rw [if_pos (hPinned.2 h), if_pos h]
  · rw [if_neg (fun h' => h (hPinned.1 h')), if_neg h, write_flip]

/-
  If a way to put properties can change places with turning
  around, then so can putting them one after another.
-/
theorem foldl_flip
    {put : Layered → String × String → Layered}
    (hPut :
      ∀ l e, put (flip l) (Properties.flipEntry e) = flip (put l e))
    (p : Properties)
    (l : Layered) :
    p.flip.entries.foldl put l.flip =
      (p.entries.foldl put l).flip := by
  rw [Properties.entries_flip, List.foldl_map]
  exact List.foldl_hom flip hPut

/- To add a layer and to turn around can change places. -/
theorem add_flip
    (l : Layered)
    (layer : Layer) :
    l.flip.add layer.flip = (l.add layer).flip := by
  cases layer with
  | base p => exact foldl_flip write_flip p l
  | concrete p => exact foldl_flip pin_flip p l
  | fallback p => exact foldl_flip suggest_flip p l

end Layered

------------------------------------------------------------
-- Tokens
------------------------------------------------------------

namespace Catalog

theorem utility?_flip
    (c : Catalog)
    (key : String) :
    c.flip.utility? key = (c.utility? key).map Utility.flip :=
  OrderedMap.get?_mapValues _ _ _

theorem utility?_patched
    (c : Catalog)
    (key : String) :
    c.patched.utility? key = (c.utility? key).map Utility.patched :=
  OrderedMap.get?_mapValues _ _ _

theorem contains_flip
    (c : Catalog)
    (key : String) :
    c.flip.contains key = c.contains key :=
  OrderedMap.contains_mapValues _ _ _

theorem contains_patched
    (c : Catalog)
    (key : String) :
    c.patched.contains key = c.contains key :=
  OrderedMap.contains_mapValues _ _ _

theorem override?_flip
    (c : Catalog)
    (pattern : Pattern) :
    c.flip.override? pattern =
      (c.override? pattern).map Properties.flip :=
  OrderedMap.get?_mapValues _ _ _

end Catalog

/- A patch has no selector. -/
theorem Utility.selector_patched
    (u : Utility) :
    u.patched.selector = u.selector := by
  unfold patched
  cases u.rtl <;> rfl

namespace Token

/- A token without a payload fills no template. -/
theorem filledTemplate?_of_not_isParametric
    {t : Token}
    (hPlain : t.isParametric = false)
    (u : Utility) :
    t.filledTemplate? u = none := by
  have hNone : t.payload? = none :=
    Option.isSome_eq_false_iff.1 hPlain |> Option.isNone_iff_eq_none.1
  rw [filledTemplate?, hNone]

/- An optional layer is turned around with its properties. -/
private theorem concrete_flip
    (p : Option Properties) :
    (p.map Properties.flip).toList.map Layer.concrete =
      (p.toList.map Layer.concrete).map Layer.flip := by
  cases p <;> rfl

/- The layers of a token are turned around one by one. -/
theorem layers_flip
    (c : Catalog)
    {t : Token}
    (hPlain : t.isParametric = false)
    (u : Utility) :
    t.layers c.flip u.flipSides = (t.layers c u).map Layer.flip := by
  have hValue : t.effectiveValue? u.flipSides = t.effectiveValue? u :=
    rfl
  have hFound :
      (t.effectiveValue? u).bind u.flipSides.values.get? =
        ((t.effectiveValue? u).bind u.values.get?).map
          Properties.flip := by
    cases t.effectiveValue? u with
    | none => rfl
    | some v => exact OrderedMap.get?_mapValues _ _ v
  have hOpen :
      ∀ patterns : List Pattern,
        (patterns.filterMap c.flip.override?).map Layer.fallback =
          ((patterns.filterMap c.override?).map Layer.fallback).map
            Layer.flip := by
    intro patterns
    have hOverride :
        c.flip.override? =
          fun p => (c.override? p).map Properties.flip :=
      funext c.override?_flip
    rw [hOverride, ← List.map_filterMap, List.map_map, List.map_map]
    rfl
  have hExact := c.override?_flip (t.exactPattern (t.effectiveValue? u))
  unfold layers
  simp only [hValue, hFound, hOpen, hExact, concrete_flip,
    filledTemplate?_of_not_isParametric hPlain, List.map_append]
  rfl

theorem resolve_flip
    (c : Catalog)
    {t : Token}
    (hPlain : t.isParametric = false)
    (u : Utility) :
    t.resolve c.flip u.flipSides = (t.resolve c u).flip := by
  rw [resolve, resolve, layers_flip c hPlain, List.foldl_map]
  change List.foldl _ (Layered.flip {}) _ = _
  exact List.foldl_hom Layered.flip Layered.add_flip

/- So the declarations are turned around as they are. -/
theorem declarations_flip
    (c : Catalog)
    {t : Token}
    (hPlain : t.isParametric = false)
    (u : Utility) :
    t.declarations c.flip u.flip =
      (t.declarations c.patched u.patched).flip := by
  have hResolve := resolve_flip c hPlain u.patched
  rw [declarations, declarations, Utility.flip, hResolve,
    ← Declarations.uniform_flip]
  rfl

/- Reading depends on the keys of a catalog only. -/
theorem read?_flip
    (cascade : Cascade)
    (c : Catalog)
    (hosted : Bool)
    (text : String) :
    read? cascade c.flip hosted text = read? cascade c hosted text := by
  unfold read?
  simp only [c.contains_flip]

theorem read?_patched
    (cascade : Cascade)
    (c : Catalog)
    (hosted : Bool)
    (text : String) :
    read? cascade c.patched hosted text =
      read? cascade c hosted text := by
  unfold read?
  simp only [c.contains_patched]

end Token

/- Selectors have no sides. -/
theorem Selector.build_flip
    (c : Catalog)
    (t : Token)
    (u : Utility) :
    build c.flip t u.flip = build c t u := by
  have hSelector : u.flip.selector = u.selector := u.selector_patched
  have hQualifiers : qualifiersOf c.flip = qualifiersOf c := rfl
  simp only [build, subjects, hSelector, hQualifiers]

theorem Selector.build_patched
    (c : Catalog)
    (t : Token)
    (u : Utility) :
    build c.patched t u.patched = build c t u := by
  have hQualifiers : qualifiersOf c.patched = qualifiersOf c := rfl
  simp only [build, subjects, u.selector_patched, hQualifiers]

------------------------------------------------------------
-- Compilation
------------------------------------------------------------

/-
  To turn a catalog around and to compile with it can change
  places. Tokens and selectors stay the same; a token without
  a payload gets the declarations of the patched catalog,
  turned around. These are the same entries in the same order
  under new names, and no two names become one.
-/
theorem Catalog.flip_commutes_with_compilation
    (cascade : Cascade)
    (c : Catalog)
    (hosted : Bool)
    (text : String) :
    Token.read? cascade c.flip hosted text =
      Token.read? cascade c hosted text ∧
    (∀ key,
      c.flip.utility? key = (c.utility? key).map Utility.flip ∧
      c.patched.utility? key =
        (c.utility? key).map Utility.patched) ∧
    (∀ t u, Selector.build c.flip t u.flip = Selector.build c t u) ∧
    (∀ t : Token, t.isParametric = false → ∀ u : Utility,
      t.declarations c.flip u.flip =
        (t.declarations c.patched u.patched).flip) ∧
    (∀ d : Declarations,
      d.flip.properties.entries =
        d.properties.entries.map Properties.flipEntry ∧
      d.flip.properties.keys = d.properties.keys.map swapSides ∧
      ∀ property,
        d.flip.isImportant (swapSides property) =
          d.isImportant property) ∧
    Function.Injective swapSides :=
  ⟨Token.read?_flip cascade c hosted text,
    fun key => ⟨c.utility?_flip key, c.utility?_patched key⟩,
    Selector.build_flip c,
    fun _ hPlain u => Token.declarations_flip c hPlain u,
    fun d => ⟨d.properties.entries_flip, d.properties.keys_flip,
      d.isImportant_flip⟩,
    swapSides_injective⟩

/- A utility whose patch changes a margin. -/
def Utility.edge : Utility where
  common := .ofList [("left", "0")]
  values := .ofList [("x", .ofList [("margin-right", "1px")])]
  rtl := some {
    common := .ofList [("top", "0")]
    values := .ofList [("x", .ofList [("margin-right", "9px")])] }

/- A catalog of this utility, with an override for its value. -/
def Catalog.edges : Catalog where
  utilities := .ofList [("edge", .edge)]
  overrides := .ofList
    [(⟨.any, .exactly "edge", .any⟩,
      .ofList [("border-left", "1px solid")])]

theorem Catalog.flip_commutes_with_compilation_of_edges :
    let cascade : Cascade := ⟨[("sm", 576)], by decide, by decide⟩
    let t : Token :=
      ⟨"edge=x!", "sm-up", [], "edge", some "x", true, false, false⟩
    t.isParametric = false ∧
    Token.read? cascade edges.flip false "edge=x!" = some t ∧
    t.declarations edges.flip Utility.edge.flip =
      (t.declarations edges.patched Utility.edge.patched).flip ∧
    (t.declarations edges.flip Utility.edge.flip).text =
      "right:0!important;top:0!important;" ++
        "margin-left:9px!important;border-right:1px solid!important;" := by
  intro cascade t
  have hPlain : t.isParametric = false := by decide
  have h :=
    flip_commutes_with_compilation cascade edges false "edge=x!"
  have hRead : Token.read? cascade edges false "edge=x!" = some t := by
    decide
  exact ⟨hPlain, h.1.trans hRead,
    h.2.2.2.1 t hPlain Utility.edge, by decide⟩

------------------------------------------------------------
-- Rules
------------------------------------------------------------

/- A rule with its declarations turned around. -/
def Rule.flip
    (r : Rule) : Rule :=
  { r with declarations := r.declarations.flip }

/-
  Hence the rule of a text is turned around with its catalog,
  unless the text has a payload.
-/
theorem Environment.rule?_flip
    (cascade : Cascade)
    (c : Catalog)
    (extensions : Extensions)
    (hosted : Bool)
    {text : String}
    (hPlain :
      ∀ t, Token.read? cascade c hosted text = some t →
        t.isParametric = false) :
    Environment.rule? ⟨cascade, c.flip, extensions⟩ hosted text =
      (Environment.rule? ⟨cascade, c.patched, extensions⟩
        hosted text).map Rule.flip := by
  unfold rule?
  rw [Token.read?_flip, Token.read?_patched]
  cases hRead : Token.read? cascade c hosted text with
  | none => rfl
  | some t =>
      have hSame := Token.declarations_flip c (hPlain t hRead)
      simp only [Option.bind_eq_bind, Option.bind_some,
        c.utility?_flip, c.utility?_patched]
      cases c.utility? t.key with
      | none => rfl
      | some u =>
          simp only [Option.map_some, Option.bind_some, hSame,
            Declarations.isEmpty_flip, Selector.build_flip,
            Selector.build_patched]
          split <;> rfl

end AtomicCss
