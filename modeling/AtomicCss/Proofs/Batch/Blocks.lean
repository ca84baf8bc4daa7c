import AtomicCss.Proofs.Batch.Gathered
import AtomicCss.Proofs.Batch.Importance
import AtomicCss.Proofs.Declarations.LastWriter

/-
  This file proves what the block of a selector is written
  from: a line for each property of its rules, in order of
  first occurrence, as the last rule that has the property
  declares it.

  Key definitions include:
    * `Rule.LastDeclares`
    * `Rule.lines`

  The main statements are:
    * `Render.declaration_eq`
    * `Rule.fst_lines`
    * `Rule.lastDeclares_of_mem_entries`
-/

namespace AtomicCss

/- The text of an entry, which an extension may write. -/
theorem Render.declaration_eq
    (extensions : Extensions)
    (d : Declarations)
    (e : String × String) :
    declaration extensions d e =
      let shown :=
        if d.isImportant e.1 = true ∧
            ¬ "!important".toList <:+: e.2.toList then
          e.2 ++ " !important"
        else
          e.2
      match extensions.get? e.1 with
      | some extension => extension e.1 shown
      | none => e.1 ++ ":" ++ shown ++ ";" := by
  unfold declaration
  rw [value_eq]
  rfl

namespace Rule

/-
  Whether the last of some rules that has a property gives it
  a value and makes it important or not.
-/
def LastDeclares
    (rules : List Rule)
    (property value : String)
    (important : Bool) : Prop :=
  ∃ before last later,
    rules = before ++ last :: later ∧
    last.declarations.properties.get? property = some value ∧
    last.declarations.isImportant property = important ∧
    ∀ r ∈ later, property ∉ r.declarations.properties.keys

/- Merged rules have the properties of all of them. -/
theorem keys_merged
    (rules : List Rule) :
    (merged rules).properties.keys =
      (rules.flatMap (·.declarations.properties.keys)).eraseDups := by
  rw [merged, Declarations.keys_foldl_overlay, List.flatMap_map]

/- What they have was declared by the last rule that has it. -/
theorem lastDeclares_of_mem_entries
    {rules : List Rule}
    {e : String × String}
    (hEntry : e ∈ (merged rules).properties.entries) :
    LastDeclares rules e.1 e.2 ((merged rules).isImportant e.1) := by
  have hValue : (merged rules).properties.get? e.1 = some e.2 :=
    OrderedMap.get?_of_mem_entries hEntry
  have hKey : e.1 ∈ (merged rules).properties.keys :=
    List.mem_map_of_mem hEntry
  rcases Declarations.exists_last_writer hKey with
    ⟨front, d, back, hSplit, _, hBack, hLast, hMark⟩
  rcases List.map_eq_append_iff.1 hSplit with
    ⟨before, rest, rfl, rfl, hRest⟩
  rcases List.map_eq_cons_iff.1 hRest with ⟨last, later, rfl, rfl, rfl⟩
  refine ⟨before, last, later, rfl, hLast.symm.trans hValue,
    hMark.symm, ?_⟩
  intro r hr
  exact hBack _ (List.mem_map_of_mem hr)

/- The lines of rules with one selector, each with its property. -/
def lines
    (extensions : Extensions)
    (rules : List Rule) : List (String × String) :=
  (merged rules).properties.entries.map
    (fun e => (e.1, Render.declaration extensions (merged rules) e))

theorem fst_lines
    (extensions : Extensions)
    (rules : List Rule) :
    (lines extensions rules).map Prod.fst =
      (rules.flatMap (·.declarations.properties.keys)).eraseDups := by
  rw [← keys_merged, lines, List.map_map]
  rfl

/- The lines are all that is declared. -/
theorem join_snd_lines
    (extensions : Extensions)
    (rules : List Rule) :
    String.join ((lines extensions rules).map Prod.snd) =
      Render.declarations extensions (merged rules) := by
  rw [lines, List.map_map]
  rfl

end Rule

end AtomicCss
