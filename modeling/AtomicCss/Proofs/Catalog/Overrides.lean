import AtomicCss.Proofs.Catalog.Construction
import AtomicCss.Proofs.OrderedMap.Listing
import Mathlib.Data.List.Basic

/-
  This file proves which overrides the catalog of a
  configuration has.

  Different texts can write one pattern, such as `a=b` and
  `*:a=b`. The catalog has the properties of the text that is
  configured last.

  Key definitions include:
    * `Pattern.lastText?`
    * `Config.patterns`

  The main statements are:
    * `Config.last?_patterns`
    * `Catalog.overrides_ofConfig`
    * `Catalog.override?_ofConfig`
    * `Catalog.override?_of_only`
-/

namespace AtomicCss

------------------------------------------------------------
-- Last texts
------------------------------------------------------------

namespace Pattern

/- The last of some texts that write a pattern. -/
def lastText?
    (p : Pattern)
    (texts : List String) : Option String :=
  (texts.filter (fun text => read? text = .ok p)).getLast?

variable {p : Pattern}

theorem lastText?_append
    (xs ys : List String) :
    p.lastText? (xs ++ ys) = (p.lastText? ys).or (p.lastText? xs) := by
  rw [lastText?, List.filter_append, List.getLast?_append]
  rfl

theorem lastText?_eq_none_iff
    {texts : List String} :
    p.lastText? texts = none ↔
      ∀ text ∈ texts, read? text ≠ .ok p := by
  simp [lastText?]

theorem of_lastText?
    {texts : List String}
    {text : String}
    (hLast : p.lastText? texts = some text) :
    text ∈ texts ∧ read? text = .ok p := by
  rcases List.mem_filter.1 (List.mem_of_getLast? hLast) with
    ⟨hMem, hRead⟩
  exact ⟨hMem, of_decide_eq_true hRead⟩

/- The last text stays the last one if others are left out. -/
theorem lastText?_filter
    {texts : List String}
    {text : String}
    (hLast : p.lastText? texts = some text)
    {keep : String → Bool}
    (hKeep : keep text = true) :
    p.lastText? (texts.filter keep) = some text := by
  rcases List.getLast?_eq_some_iff.1 hLast with ⟨others, hTexts⟩
  rw [lastText?, List.filter_filter]
  simp only [Bool.and_comm]
  rw [← List.filter_filter, hTexts, List.filter_append,
    List.getLast?_append]
  simp [hKeep]

end Pattern

------------------------------------------------------------
-- Patterns of a configuration
------------------------------------------------------------

/- The properties that overrides have, by the patterns written. -/
def Pattern.readAll
    (entries : List (String × Properties)) :
    List (Pattern × Properties) :=
  entries.filterMap (fun e =>
    (Pattern.read? e.1).toOption.map (fun p => (p, e.2)))

/- The patterns of a configuration with their properties. -/
def Config.patterns
    (config : Config) : List (Pattern × Properties) :=
  Pattern.readAll config.overrides.entries

theorem Pattern.filter_readAll
    (p : Pattern)
    (entries : List (String × Properties)) :
    (readAll entries).filter (fun e => e.1 = p) =
      (entries.filter (fun e => read? e.1 = .ok p)).map
        (fun e => (p, e.2)) := by
  induction entries with
  | nil => rfl
  | cons e rest ih =>
      cases hRead : read? e.1 with
      | error _ => simpa [readAll, hRead, Except.toOption] using ih
      | ok q =>
          by_cases hSame : q = p
          · simpa [readAll, hRead, hSame, Except.toOption] using ih
          · simpa [readAll, hRead, hSame, Except.toOption] using ih

/- The last entry of a pattern is that of its last text. -/
theorem Config.last?_patterns
    (config : Config)
    (p : Pattern) :
    Entries.last? p config.patterns =
      (p.lastText? config.overrides.keys).bind
        config.overrides.get? := by
  have hTexts :
      config.overrides.keys.filter (fun t => Pattern.read? t = .ok p) =
        (config.overrides.entries.filter
          (fun e => Pattern.read? e.1 = .ok p)).map Prod.fst :=
    List.filter_map
  rw [Entries.last?, patterns, p.filter_readAll, Pattern.lastText?,
    hTexts, List.getLast?_map, List.getLast?_map]
  cases hLast :
      (config.overrides.entries.filter
        (fun e => Pattern.read? e.1 = .ok p)).getLast? with
  | none => rfl
  | some e =>
      have hEntry := List.mem_filter.1 (List.mem_of_getLast? hLast)
      exact (OrderedMap.get?_of_mem_entries hEntry.1).symm

------------------------------------------------------------
-- Overrides of a catalog
------------------------------------------------------------

namespace Catalog

theorem overrides_addAll
    (c : Catalog)
    (us : List (String × Utility)) :
    (c.addAll us).overrides = c.overrides := by
  induction us generalizing c with
  | nil => rfl
  | cons e rest ih => exact ih _

/- Every override is written over those of its pattern. -/
theorem overrides_foldlM_addOverride
    {entries : List (String × Properties)}
    {c d : Catalog}
    (hAdded :
      entries.foldlM
        (fun (c : Catalog) e => c.addOverride e.1 e.2) c = .ok d) :
    d.overrides =
      OrderedMap.upsertAll (fun _ properties => properties)
        c.overrides (Pattern.readAll entries) := by
  induction entries generalizing c with
  | nil =>
      cases hAdded
      rfl
  | cons e rest ih =>
      rw [List.foldlM_cons] at hAdded
      rcases bind_ok_iff.1 hAdded with ⟨c', hFirst, hRest⟩
      rcases bind_ok_iff.1 hFirst with ⟨pattern, hRead, hWritten⟩
      have hPatterns :
          Pattern.readAll (e :: rest) =
            (pattern, e.2) :: Pattern.readAll rest := by
        simp [Pattern.readAll, hRead, Except.toOption]
      cases hWritten
      rw [ih hRest, hPatterns]
      rfl

variable {config : Config} {c : Catalog}

theorem overrides_ofConfig
    (hBuilt : ofConfig config = .ok c) :
    c.overrides = .ofList config.patterns := by
  have hAdded := (ofConfig_eq_ok_iff.1 hBuilt).2
  rw [overrides_foldlM_addOverride hAdded, overrides_addAll]
  rfl

/- The last text that writes a pattern has its properties. -/
theorem override?_ofConfig
    (hBuilt : ofConfig config = .ok c)
    (p : Pattern) :
    c.override? p =
      (p.lastText? config.overrides.keys).bind
        config.overrides.get? := by
  rw [override?, overrides_ofConfig hBuilt, OrderedMap.get?_ofList,
    config.last?_patterns]

/- A pattern that one text writes has the properties of the text. -/
theorem override?_of_only
    (hBuilt : ofConfig config = .ok c)
    {text : String}
    {properties : Properties}
    (hText : config.overrides.get? text = some properties)
    {p : Pattern}
    (hRead : Pattern.read? text = .ok p)
    (hOnly :
      ∀ other ∈ config.overrides.keys,
        Pattern.read? other = .ok p → other = text) :
    c.override? p = some properties := by
  have hKey : text ∈ config.overrides.keys :=
    (OrderedMap.mem_keys_iff_exists _ _).2 ⟨_, hText⟩
  cases hLast : p.lastText? config.overrides.keys with
  | none =>
      exact absurd hRead
        (Pattern.lastText?_eq_none_iff.1 hLast text hKey)
  | some last =>
      rcases Pattern.of_lastText? hLast with ⟨hMem, hLastRead⟩
      rw [override?_ofConfig hBuilt, hLast,
        hOnly last hMem hLastRead, Option.bind_some, hText]

end Catalog

end AtomicCss
