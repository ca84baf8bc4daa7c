import AtomicCss.Proofs.Declarations
import AtomicCss.Proofs.RuleStore

/-
  This file describes what is gathered of a list of rules
  without a map: at each breakpoint the selectors in order of
  first occurrence, and with each selector the declarations of
  its own rules, laid over each other in order.

  Key definitions include:
    * `Rule.atBreakpoint`
    * `Rule.merged`
    * `Rule.blocksAt`
    * `Rule.gathered`

  The main statements are:
    * `Rule.entries_gathered`
    * `Rule.rules_gathered`
-/

namespace AtomicCss

namespace Rule

------------------------------------------------------------
-- Blocks
------------------------------------------------------------

/- The rules at the breakpoint of a name. -/
def atBreakpoint
    (rules : List Rule)
    (name : String) : List Rule :=
  rules.filter (fun r => r.breakpoint = name)

/- The rules with a selector. -/
def withSelector
    (rules : List Rule)
    (selector : String) : List Rule :=
  rules.filter (fun r => r.selector = selector)

/- The declarations of rules, laid over each other in order. -/
def merged
    (rules : List Rule) : Declarations :=
  (rules.map Rule.declarations).foldl Declarations.overlay .empty

/- The selectors of rules in order of first occurrence. -/
def selectors
    (rules : List Rule) : List String :=
  (rules.map Rule.selector).eraseDups

/- The selectors at a breakpoint, each with its merged rules. -/
def blocksAt
    (rules : List Rule)
    (name : String) : List (String × Declarations) :=
  let here := atBreakpoint rules name
  (selectors here).map (fun s => (s, merged (withSelector here s)))

theorem mem_atBreakpoint_iff
    {rules : List Rule}
    {name : String}
    {r : Rule} :
    r ∈ atBreakpoint rules name ↔
      r ∈ rules ∧ r.breakpoint = name := by
  simp [atBreakpoint]

theorem mem_withSelector_iff
    {rules : List Rule}
    {selector : String}
    {r : Rule} :
    r ∈ withSelector rules selector ↔
      r ∈ rules ∧ r.selector = selector := by
  simp [withSelector]

theorem mem_selectors_iff
    {rules : List Rule}
    {selector : String} :
    selector ∈ selectors rules ↔
      ∃ r ∈ rules, r.selector = selector := by
  rw [selectors, List.mem_eraseDups, List.mem_map]

/- There are blocks exactly where there are rules. -/
theorem blocksAt_eq_nil_iff
    (rules : List Rule)
    (name : String) :
    blocksAt rules name = [] ↔ name ∉ rules.map breakpoint := by
  rw [blocksAt, List.map_eq_nil_iff]
  constructor
  · intro hNil hName
    rcases List.mem_map.1 hName with ⟨r, hr, hAt⟩
    have hMem : r.selector ∈ selectors (atBreakpoint rules name) :=
      mem_selectors_iff.2
        ⟨r, mem_atBreakpoint_iff.2 ⟨hr, hAt⟩, rfl⟩
    rw [hNil] at hMem
    exact absurd hMem List.not_mem_nil
  · intro hName
    apply List.eq_nil_iff_forall_not_mem.2
    intro selector hSelector
    rcases mem_selectors_iff.1 hSelector with ⟨r, hr, _⟩
    rcases mem_atBreakpoint_iff.1 hr with ⟨hRule, hAt⟩
    exact hName (List.mem_map.2 ⟨r, hRule, hAt⟩)

/- Of the rules that are merged, the last one decides. -/
theorem get?_merged
    (rules : List Rule)
    (property : String) :
    (merged rules).properties.get? property =
      Declarations.lastValue property
        (rules.map Rule.declarations) := by
  rw [merged, Declarations.get?_foldl_overlay]
  exact Option.or_none

/- What rules with declarations come to is not empty. -/
theorem merged_isEmpty
    {rules : List Rule}
    {r : Rule}
    (hRule : r ∈ rules)
    (hDeclares : r.Declares) :
    (merged rules).isEmpty = false := by
  rcases (Declarations.isEmpty_eq_false_iff _).1 hDeclares with
    ⟨p, hp⟩
  refine (Declarations.isEmpty_eq_false_iff _).2 ⟨p, ?_⟩
  intro hNone
  rw [get?_merged, Declarations.lastValue_eq_none_iff] at hNone
  exact hp (hNone _ (List.mem_map_of_mem hRule))

theorem isEmpty_of_mem_blocksAt
    {rules : List Rule}
    (hDeclares : ∀ r ∈ rules, r.Declares)
    {name : String}
    {block : String × Declarations}
    (hBlock : block ∈ blocksAt rules name) :
    block.2.isEmpty = false := by
  rcases List.mem_map.1 hBlock with ⟨selector, hSelector, rfl⟩
  rcases mem_selectors_iff.1 hSelector with ⟨r, hr, hEq⟩
  refine merged_isEmpty (mem_withSelector_iff.2 ⟨hr, hEq⟩) ?_
  exact hDeclares r (mem_atBreakpoint_iff.1 hr).1

------------------------------------------------------------
-- Gathering
------------------------------------------------------------

/- What a store gathers of rules that are all new. -/
def gathered
    (rules : List Rule) : Working :=
  rules.foldl
    (fun w r =>
      RuleStore.gather w r.breakpoint r.selector r.declarations)
    ∅

private theorem get?_gathered
    (rules : List Rule)
    (name : String) :
    (gathered rules).get? name =
      if name ∈ rules.map breakpoint then
        some (OrderedMap.grouped selector
          (fun d r => d.overlay r.declarations) .empty
          (atBreakpoint rules name))
      else
        none :=
  OrderedMap.get?_grouped breakpoint
    (fun (m : OrderedMap String Declarations) r =>
      m.upsert r.selector (fun old =>
        (old.getD .empty).overlay r.declarations))
    ∅ rules name

/- The rules gathered at a breakpoint are its blocks. -/
theorem entries_gathered
    (rules : List Rule)
    (name : String) :
    (((gathered rules).get? name).getD ∅).entries =
      blocksAt rules name := by
  rw [get?_gathered]
  by_cases h : name ∈ rules.map breakpoint
  · rw [if_pos h, Option.getD_some, OrderedMap.entries_grouped]
    simp only [blocksAt, selectors, merged, withSelector,
      List.foldl_map]
  · rw [if_neg h, (blocksAt_eq_nil_iff rules name).2 h]
    rfl

/- None of the gathered rules is left out when rendering. -/
theorem rules_gathered
    {rules : List Rule}
    (hDeclares : ∀ r ∈ rules, r.Declares)
    (b : Breakpoint) :
    Render.rules (gathered rules) b = blocksAt rules b.name := by
  rw [Render.rules, entries_gathered]
  apply List.filter_eq_self.2
  intro block hBlock
  rw [isEmpty_of_mem_blocksAt hDeclares hBlock]
  rfl

end Rule

end AtomicCss
