import AtomicCss.Declarations.Basic
import AtomicCss.Proofs.OrderedMap

/-
  This file proves what declarations hold that were laid over
  others: of several that declare a property, the last decides.

  Key definitions include:
    * `Declarations.lastValue`
    * `Declarations.declared?`
    * `Declarations.lastDeclared`

  The main statements are:
    * `Declarations.get?_overlay`
    * `Declarations.get?_foldl_overlay`
    * `Declarations.declared?_overlay`
    * `Declarations.declared?_foldl_overlay`
-/

namespace AtomicCss

namespace Declarations

/- The properties of an overlay extend those below it. -/
theorem properties_overlay
    (a b : Declarations) :
    (a.overlay b).properties = a.properties.extend b.properties := by
  have hFold :
      ∀ (entries : List (String × String)) (d : Declarations),
        (entries.foldl
          (fun d e => d.write e.1 e.2 (b.isImportant e.1))
          d).properties =
            entries.foldl (fun m e => m.insert e.1 e.2)
              d.properties := by
    intro entries
    induction entries with
    | nil => exact fun d => rfl
    | cons e rest ih => exact fun d => ih _
  exact hFold b.properties.entries a

/- What is laid over other declarations wins over them. -/
theorem get?_overlay
    (a b : Declarations)
    (property : String) :
    (a.overlay b).properties.get? property =
      (b.properties.get? property).or
        (a.properties.get? property) := by
  rw [properties_overlay, OrderedMap.get?_extend]

theorem isEmpty_eq_false_iff
    (d : Declarations) :
    d.isEmpty = false ↔ ∃ p, d.properties.get? p ≠ none :=
  d.properties.isEmpty_eq_false_iff

/- The value that the last declarations of a property give it. -/
def lastValue
    (property : String)
    (ds : List Declarations) : Option String :=
  ds.reverse.findSome? (fun d => d.properties.get? property)

theorem lastValue_append
    (property : String)
    (xs ys : List Declarations) :
    lastValue property (xs ++ ys) =
      (lastValue property ys).or (lastValue property xs) := by
  rw [lastValue, List.reverse_append, List.findSome?_append]
  rfl

/- No value is left only where none of the declarations has one. -/
theorem lastValue_eq_none_iff
    (property : String)
    (ds : List Declarations) :
    lastValue property ds = none ↔
      ∀ d ∈ ds, d.properties.get? property = none := by
  simp [lastValue]

/- The last to give something is one with no later one. -/
theorem exists_of_findSome?_reverse
    {α : Type}
    {f : Declarations → Option α}
    {ds : List Declarations}
    {found : α}
    (hFound : ds.reverse.findSome? f = some found) :
    ∃ before d later,
      ds = before ++ d :: later ∧
      f d = some found ∧
      ∀ x ∈ later, f x = none := by
  rcases List.findSome?_eq_some_iff.1 hFound with
    ⟨later, d, before, hSplit, hd, hNone⟩
  refine ⟨before.reverse, d, later.reverse, ?_, hd, ?_⟩
  · have hReverse := congrArg List.reverse hSplit
    simpa using hReverse
  · intro x hx
    exact hNone x (List.mem_reverse.1 hx)

/- A last value is given by declarations with no later ones. -/
theorem exists_of_lastValue_eq_some
    {property : String}
    {ds : List Declarations}
    {v : String}
    (hValue : lastValue property ds = some v) :
    ∃ before d later,
      ds = before ++ d :: later ∧
      d.properties.get? property = some v ∧
      lastValue property later = none := by
  rcases exists_of_findSome?_reverse hValue with
    ⟨before, d, later, hSplit, hd, hNone⟩
  exact ⟨before, d, later, hSplit, hd,
    (lastValue_eq_none_iff property later).2 hNone⟩

/- Laid over each other in order, the last declarations decide. -/
theorem get?_foldl_overlay
    (property : String)
    (ds : List Declarations)
    (d : Declarations) :
    (ds.foldl overlay d).properties.get? property =
      (lastValue property ds).or (d.properties.get? property) := by
  induction ds generalizing d with
  | nil => rfl
  | cons a rest ih =>
      have hCons := lastValue_append property [a] rest
      rw [List.singleton_append] at hCons
      rw [List.foldl_cons, ih, get?_overlay, hCons,
        Option.or_assoc]
      congr 1
      simp [lastValue]

------------------------------------------------------------
-- Importance
------------------------------------------------------------

/- The value of a property, and whether it is important. -/
def declared?
    (d : Declarations)
    (property : String) : Option (String × Bool) :=
  (d.properties.get? property).map
    (fun v => (v, d.isImportant property))

/- The entry that the last declarations of a property give it. -/
def lastDeclared
    (property : String)
    (ds : List Declarations) : Option (String × Bool) :=
  ds.reverse.findSome? (fun d => d.declared? property)

theorem lastDeclared_append
    (property : String)
    (xs ys : List Declarations) :
    lastDeclared property (xs ++ ys) =
      (lastDeclared property ys).or (lastDeclared property xs) := by
  rw [lastDeclared, List.reverse_append, List.findSome?_append]
  rfl

theorem lastDeclared_singleton
    (property : String)
    (d : Declarations) :
    lastDeclared property [d] = d.declared? property := by
  simp [lastDeclared]

/- A write decides about the importance of its own property. -/
theorem isImportant_write
    (d : Declarations)
    (name value : String)
    (important : Bool)
    (property : String) :
    (d.write name value important).isImportant property =
      if property = name then important
      else d.isImportant property := by
  unfold isImportant write
  cases important with
  | true =>
      rw [if_pos rfl, OrderedMap.contains_insert]
      by_cases h : property = name <;> simp [h]
  | false =>
      rw [if_neg Bool.false_ne_true, OrderedMap.contains,
        OrderedMap.get?_erase]
      by_cases h : property = name <;> simp [h, OrderedMap.contains]

/- Importance comes from above for what is declared there. -/
theorem isImportant_overlay
    (a b : Declarations)
    (property : String) :
    (a.overlay b).isImportant property =
      if property ∈ b.properties.keys then b.isImportant property
      else a.isImportant property := by
  have hFold :
      ∀ (entries : List (String × String)) (d : Declarations),
        (entries.foldl
          (fun d e => d.write e.1 e.2 (b.isImportant e.1))
          d).isImportant property =
            if property ∈ entries.map Prod.fst then
              b.isImportant property
            else
              d.isImportant property := by
    intro entries
    induction entries with
    | nil => exact fun d => rfl
    | cons e rest ih =>
        intro d
        rw [List.foldl_cons, ih, isImportant_write, List.map_cons]
        by_cases hRest : property ∈ rest.map Prod.fst
        · rw [if_pos hRest, if_pos (List.mem_cons_of_mem _ hRest)]
        · by_cases hHead : property = e.1
          · rw [if_neg hRest, if_pos hHead, hHead,
              if_pos List.mem_cons_self]
          · rw [if_neg hRest, if_neg hHead,
              if_neg (fun h =>
                (List.mem_cons.1 h).elim hHead hRest)]
  exact hFold b.properties.entries a

/- An entry that is laid over another replaces it as a whole. -/
theorem declared?_overlay
    (a b : Declarations)
    (property : String) :
    (a.overlay b).declared? property =
      (b.declared? property).or (a.declared? property) := by
  have hKeys := b.properties.mem_keys_iff_get?_ne_none property
  rw [declared?, get?_overlay, isImportant_overlay, declared?, declared?]
  cases hValue : b.properties.get? property with
  | none =>
      rw [if_neg (fun h => hKeys.1 h hValue)]
      rfl
  | some v =>
      rw [if_pos (hKeys.2 (by simp [hValue]))]
      rfl

/- Laid over each other in order, the last entry stays. -/
theorem declared?_foldl_overlay
    (property : String)
    (ds : List Declarations)
    (d : Declarations) :
    (ds.foldl overlay d).declared? property =
      (lastDeclared property ds).or (d.declared? property) := by
  induction ds generalizing d with
  | nil => rfl
  | cons a rest ih =>
      have hCons := lastDeclared_append property [a] rest
      rw [List.singleton_append, lastDeclared_singleton] at hCons
      rw [List.foldl_cons, ih, declared?_overlay, hCons,
        Option.or_assoc]

end Declarations

end AtomicCss
