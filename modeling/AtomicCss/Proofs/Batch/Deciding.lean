import AtomicCss.Proofs.Batch.Gathered
import Mathlib.Data.List.Basic

/-
  This file proves which rule decides the value of a property:
  the blocks that passes append one after another give the
  value that the last of the stored rules writes.

  Key definitions include:
    * `Rule.placed`
    * `Rule.lastValue`
    * `Rule.lastDeclared`
    * `Rule.decided`

  The main statements are:
    * `Rule.decided_blocksAt`
    * `Rule.decided_flatMap_blocksAt`
    * `Rule.lastValue_split`
    * `Rule.exists_block_iff`
-/

namespace AtomicCss

namespace Rule

------------------------------------------------------------
-- Rules that compete
------------------------------------------------------------

/- The rules at a breakpoint that have a selector. -/
def placed
    (rules : List Rule)
    (name selector : String) : List Rule :=
  withSelector (atBreakpoint rules name) selector

/- The value that the last rule of a property gives it. -/
def lastValue
    (property : String)
    (rules : List Rule) : Option String :=
  Declarations.lastValue property (rules.map declarations)

/- The value that a rule gives to a property. -/
def value?
    (r : Rule)
    (property : String) : Option String :=
  r.declarations.properties.get? property

theorem placed_append
    (xs ys : List Rule)
    (name selector : String) :
    placed (xs ++ ys) name selector =
      placed xs name selector ++ placed ys name selector := by
  rw [placed, atBreakpoint, withSelector, List.filter_append,
    List.filter_append]
  rfl

theorem placed_filter
    (keep : Rule → Bool)
    (rules : List Rule)
    (name selector : String) :
    placed (rules.filter keep) name selector =
      (placed rules name selector).filter keep := by
  have hAt :
      atBreakpoint (rules.filter keep) name =
        (atBreakpoint rules name).filter keep :=
    List.filter_comm _ _ _
  rw [placed, hAt]
  exact List.filter_comm _ _ _

theorem mem_placed_iff
    {rules : List Rule}
    {name selector : String}
    {r : Rule} :
    r ∈ placed rules name selector ↔
      r ∈ rules ∧ r.breakpoint = name ∧ r.selector = selector := by
  rw [placed, mem_withSelector_iff, mem_atBreakpoint_iff,
    and_assoc]

theorem lastValue_append
    (property : String)
    (xs ys : List Rule) :
    lastValue property (xs ++ ys) =
      (lastValue property ys).or (lastValue property xs) := by
  rw [lastValue, List.map_append, Declarations.lastValue_append]
  rfl

/- A rule among others decides, unless a later one does. -/
theorem lastValue_split
    (property : String)
    (before later : List Rule)
    (r : Rule) :
    lastValue property (before ++ r :: later) =
      ((lastValue property later).or (r.value? property)).or
        (lastValue property before) := by
  have hSingle : lastValue property [r] = r.value? property := by
    simp [lastValue, Declarations.lastValue, value?]
  rw [lastValue_append, ← List.singleton_append, lastValue_append,
    hSingle]

theorem exists_of_lastValue_eq_some
    {property : String}
    {rules : List Rule}
    {v : String}
    (hValue : lastValue property rules = some v) :
    ∃ before r later,
      rules = before ++ r :: later ∧
      r.value? property = some v ∧
      lastValue property later = none := by
  rcases Declarations.exists_of_lastValue_eq_some hValue with
    ⟨ds, d, es, hSplit, hd, hNone⟩
  rcases List.map_eq_append_iff.1 hSplit with
    ⟨before, tail, rfl, rfl, hTail⟩
  rcases List.map_eq_cons_iff.1 hTail with
    ⟨r, later, rfl, rfl, rfl⟩
  exact ⟨before, r, later, rfl, hd, hNone⟩

/- Rules that say nothing of a property may be left out. -/
theorem lastValue_eq_none_of_sublist
    {property : String}
    {xs ys : List Rule}
    (hSublist : xs.Sublist ys)
    (hNone : lastValue property ys = none) :
    lastValue property xs = none := by
  apply (Declarations.lastValue_eq_none_iff _ _).2
  intro d hd
  exact (Declarations.lastValue_eq_none_iff _ _).1 hNone d
    ((hSublist.map declarations).subset hd)

------------------------------------------------------------
-- Blocks that decide
------------------------------------------------------------

/-
  The value of a property for a selector, read off blocks: the
  last block of the selector that writes the property decides.
-/
def decided
    (blocks : List (String × Declarations))
    (selector property : String) : Option String :=
  blocks.reverse.findSome? (fun block =>
    if block.1 = selector then
      block.2.properties.get? property
    else
      none)

theorem decided_append
    (xs ys : List (String × Declarations))
    (selector property : String) :
    decided (xs ++ ys) selector property =
      (decided ys selector property).or
        (decided xs selector property) := by
  rw [decided, List.reverse_append, List.findSome?_append]
  rfl

/- Of blocks with one selector each, its own block decides. -/
theorem decided_map
    (f : String → Declarations)
    (selectors : List String)
    (selector property : String) :
    decided (selectors.map (fun s => (s, f s)))
        selector property =
      if selector ∈ selectors then
        (f selector).properties.get? property
      else
        none := by
  induction selectors with
  | nil => rfl
  | cons s rest ih =>
      rw [List.map_cons, ← List.singleton_append, decided_append,
        ih]
      by_cases hHead : s = selector
      · subst hHead
        have hSingle :
            decided [(s, f s)] s property =
              (f s).properties.get? property := by
          simp [decided]
        rw [hSingle, if_pos List.mem_cons_self]
        split
        · exact Option.or_self
        · rfl
      · have hSingle :
            decided [(s, f s)] selector property = none := by
          simp [decided, hHead]
        have hMem : selector ∈ s :: rest ↔ selector ∈ rest := by
          rw [List.mem_cons]
          exact or_iff_right (fun h => hHead h.symm)
        rw [hSingle, Option.or_none]
        simp only [hMem]

/- The blocks of a pass decide as its rules do. -/
theorem decided_blocksAt
    (rules : List Rule)
    (name selector property : String) :
    decided (blocksAt rules name) selector property =
      lastValue property (placed rules name selector) := by
  rw [blocksAt, decided_map, get?_merged]
  split
  · rfl
  · rename_i hNone
    have hPlaced : placed rules name selector = [] := by
      apply List.eq_nil_iff_forall_not_mem.2
      intro r hr
      rcases mem_withSelector_iff.1 hr with ⟨hRule, hSelector⟩
      exact hNone (mem_selectors_iff.2 ⟨r, hRule, hSelector⟩)
    rw [hPlaced]
    rfl

/-
  The blocks of passes, appended one after another, decide as
  all of their rules do.
-/
theorem decided_flatMap_blocksAt
    (passes : List (List Rule))
    (name selector property : String) :
    decided (passes.flatMap (fun new => blocksAt new name))
        selector property =
      lastValue property
        (placed passes.flatten name selector) := by
  induction passes with
  | nil => rfl
  | cons new rest ih =>
      rw [List.flatMap_cons, decided_append, ih, decided_blocksAt,
        List.flatten_cons, placed_append, lastValue_append]

------------------------------------------------------------
-- Blocks that declare
------------------------------------------------------------

/- The value that a rule gives to a property, with its importance. -/
def declared?
    (r : Rule)
    (property : String) : Option (String × Bool) :=
  r.declarations.declared? property

/- The entry that the last rule of a property gives it. -/
def lastDeclared
    (property : String)
    (rules : List Rule) : Option (String × Bool) :=
  Declarations.lastDeclared property (rules.map declarations)

/- A rule among others gives the entry, unless a later one does. -/
theorem lastDeclared_split
    (property : String)
    (before later : List Rule)
    (r : Rule) :
    lastDeclared property (before ++ r :: later) =
      ((lastDeclared property later).or (r.declared? property)).or
        (lastDeclared property before) := by
  rw [lastDeclared, List.map_append, Declarations.lastDeclared_append,
    List.map_cons, ← List.singleton_append,
    Declarations.lastDeclared_append, Declarations.lastDeclared_singleton]
  rfl

/- What rules come to is what the last of each property says. -/
theorem declared?_merged
    (rules : List Rule)
    (property : String) :
    (merged rules).declared? property = lastDeclared property rules := by
  rw [merged, Declarations.declared?_foldl_overlay]
  exact Option.or_none

/- The block of a selector holds all rules that are placed there. -/
theorem mem_blocksAt_iff
    {rules : List Rule}
    {name selector : String}
    {d : Declarations} :
    (selector, d) ∈ blocksAt rules name ↔
      placed rules name selector ≠ [] ∧
      d = merged (placed rules name selector) := by
  have hSelectors :
      selector ∈ selectors (atBreakpoint rules name) ↔
        placed rules name selector ≠ [] := by
    rw [mem_selectors_iff]
    constructor
    · rintro ⟨r, hr, hSelector⟩
      exact List.ne_nil_of_mem
        (mem_withSelector_iff.2 ⟨hr, hSelector⟩)
    · intro hPlaced
      rcases List.exists_mem_of_ne_nil _ hPlaced with ⟨r, hr⟩
      exact ⟨r, mem_withSelector_iff.1 hr⟩
  rw [blocksAt, List.mem_map, ← hSelectors]
  constructor
  · rintro ⟨s, hs, hBlock⟩
    cases hBlock
    exact ⟨hs, rfl⟩
  · rintro ⟨hs, rfl⟩
    exact ⟨selector, hs, rfl⟩

/-
  An entry stands in a block of a selector exactly if the last
  rule that is placed there and has the property gives it.
-/
theorem exists_block_iff
    {rules : List Rule}
    {name selector property : String}
    {e : String × Bool} :
    (∃ d, (selector, d) ∈ blocksAt rules name ∧
      d.declared? property = some e) ↔
        lastDeclared property (placed rules name selector) =
          some e := by
  constructor
  · rintro ⟨d, hBlock, hEntry⟩
    rw [(mem_blocksAt_iff.1 hBlock).2, declared?_merged] at hEntry
    exact hEntry
  · intro hEntry
    have hPlaced : placed rules name selector ≠ [] := by
      intro hNil
      rw [hNil] at hEntry
      cases hEntry
    refine ⟨_, mem_blocksAt_iff.2 ⟨hPlaced, rfl⟩, ?_⟩
    rw [declared?_merged, hEntry]

end Rule

end AtomicCss
