import AtomicCss.OrderedMap
import Mathlib.Data.List.Induction

/-
  This file proves what ordered maps hold after a list was
  written to them: the keys in order of first occurrence, and
  under each key what its own elements come to.

  Key definitions include:
    * `OrderedMap.grouped`

  The main statements are:
    * `OrderedMap.entries_eq_map_keys`
    * `OrderedMap.get?_extend`
    * `OrderedMap.entries_grouped`
    * `OrderedSet.contains_foldl_insert`
-/

namespace AtomicCss

------------------------------------------------------------
-- Entries and lookups
------------------------------------------------------------

namespace OrderedMap

variable {α κ ν : Type} [DecidableEq κ]

/- The entries list what a lookup finds under each key. -/
theorem entries_eq_map_keys
    (m : OrderedMap κ ν)
    (value : κ → ν)
    (hValue : ∀ k ∈ m.keys, m.get? k = some (value k)) :
    m.entries = m.keys.map (fun k => (k, value k)) := by
  rcases m with ⟨entries, hNodup⟩
  simp only [keys, get?] at hValue ⊢
  induction entries with
  | nil => rfl
  | cons e rest ih =>
      rcases e with ⟨a, v⟩
      have hKeys := List.nodup_cons.1 hNodup
      have hHead : v = value a := by
        simpa [Entries.get?] using hValue a (by simp)
      have hRest :
          ∀ k ∈ rest.map Prod.fst,
            Entries.get? k rest = some (value k) := by
        intro k hk
        have hNe : ¬ a = k := fun h => hKeys.1 (h ▸ hk)
        simpa [Entries.get?, hNe] using
          hValue k (List.mem_cons_of_mem a hk)
      rw [List.map_cons, List.map_cons, ← ih hKeys.2 hRest,
        ← hHead]

theorem get?_mapValues
    {μ : Type}
    (f : ν → μ)
    (m : OrderedMap κ ν)
    (k : κ) :
    (m.mapValues f).get? k = (m.get? k).map f := by
  rcases m with ⟨entries, hNodup⟩
  simp only [get?, mapValues]
  clear hNodup
  induction entries with
  | nil => rfl
  | cons e rest ih =>
      rw [List.map_cons, Entries.get?, Entries.get?, ih]
      split <;> rfl

theorem contains_mapValues
    {μ : Type}
    (f : ν → μ)
    (m : OrderedMap κ ν)
    (k : κ) :
    (m.mapValues f).contains k = m.contains k := by
  rw [contains, get?_mapValues, Option.isSome_map]
  rfl

theorem mem_keys_iff_get?_ne_none
    (m : OrderedMap κ ν)
    (k : κ) :
    k ∈ m.keys ↔ m.get? k ≠ none := by
  rw [← contains_iff_mem_keys, contains,
    Option.isSome_iff_ne_none]

/- A key is one that has a value. -/
theorem mem_keys_iff_exists
    (m : OrderedMap κ ν)
    (k : κ) :
    k ∈ m.keys ↔ ∃ v, m.get? k = some v := by
  rw [mem_keys_iff_get?_ne_none, Option.ne_none_iff_exists']

omit [DecidableEq κ] in
@[simp]
theorem keys_mapValues
    {μ : Type}
    (f : ν → μ)
    (m : OrderedMap κ ν) :
    (m.mapValues f).keys = m.keys :=
  List.map_map

omit [DecidableEq κ] in
@[simp]
theorem values_mapValues
    {μ : Type}
    (f : ν → μ)
    (m : OrderedMap κ ν) :
    (m.mapValues f).values = m.values.map f := by
  rw [values, values, mapValues, List.map_map, List.map_map]
  rfl

omit [DecidableEq κ] in
theorem mapValues_mapValues
    {μ ρ : Type}
    (f : ν → μ)
    (g : μ → ρ)
    (m : OrderedMap κ ν) :
    (m.mapValues f).mapValues g = m.mapValues (fun v => g (f v)) := by
  apply ext
  exact List.map_map

omit [DecidableEq κ] in
/- A map is unchanged if each of its values is. -/
theorem mapValues_eq_self
    {f : ν → ν}
    {m : OrderedMap κ ν}
    (hSame : ∀ v ∈ m.values, f v = v) :
    m.mapValues f = m := by
  apply ext
  change m.entries.map _ = m.entries
  conv_rhs => rw [← List.map_id m.entries]
  apply List.map_congr_left
  intro e he
  exact Prod.ext rfl (hSame e.2 (List.mem_map_of_mem he))

theorem keys_erase
    (m : OrderedMap κ ν)
    (k : κ) :
    (m.erase k).keys = m.keys.filter (fun k' => k' ≠ k) := by
  rw [keys, keys, List.filter_map]
  rfl

/- A new key is written at the end. -/
theorem entries_insert_of_not_mem
    {m : OrderedMap κ ν}
    {k : κ}
    (hNew : k ∉ m.keys)
    (v : ν) :
    (m.insert k v).entries = m.entries ++ [(k, v)] := by
  rcases m with ⟨entries, hNodup⟩
  simp only [keys, insert, upsert] at hNew ⊢
  clear hNodup
  induction entries with
  | nil => rfl
  | cons e rest ih =>
      rcases not_or.1 (List.mem_cons.not.1 hNew) with
        ⟨hHead, hRest⟩
      rw [Entries.upsert, if_neg (Ne.symm hHead), ih hRest,
        List.cons_append]

/- So to write and to remove a new key changes nothing. -/
theorem erase_insert_of_not_mem
    {m : OrderedMap κ ν}
    {k : κ}
    (hNew : k ∉ m.keys)
    (v : ν) :
    (m.insert k v).erase k = m := by
  apply ext
  change (m.insert k v).entries.filter _ = m.entries
  rw [entries_insert_of_not_mem hNew, List.filter_append,
    List.filter_cons_of_neg (by simp), List.filter_nil,
    List.append_nil]
  apply List.filter_eq_self.2
  intro e he
  refine decide_eq_true (fun h => hNew ?_)
  exact h ▸ List.mem_map_of_mem he

/- A write adds its key and no other. -/
theorem contains_insert
    (m : OrderedMap κ ν)
    (k k' : κ)
    (v : ν) :
    (m.insert k v).contains k' =
      (decide (k' = k) || m.contains k') := by
  unfold contains
  rw [get?_insert]
  by_cases h : k' = k <;> simp [h]

/- A map with entries has a key that is found. -/
theorem isEmpty_eq_false_iff
    (m : OrderedMap κ ν) :
    m.isEmpty = false ↔ ∃ k, m.get? k ≠ none := by
  have hKeys : (∃ k, k ∈ m.keys) ↔ ∃ k, m.get? k ≠ none :=
    exists_congr (fun k => m.mem_keys_iff_get?_ne_none k)
  rw [← hKeys, isEmpty, keys, List.isEmpty_eq_false_iff_exists_mem]
  constructor
  · rintro ⟨e, he⟩
    exact ⟨e.1, List.mem_map_of_mem he⟩
  · rintro ⟨k, hk⟩
    rcases List.mem_map.1 hk with ⟨e, he, _⟩
    exact ⟨e, he⟩

------------------------------------------------------------
-- Writing a map
------------------------------------------------------------

private theorem get?_foldl_insert
    {entries : List (κ × ν)}
    (hNodup : (entries.map Prod.fst).Nodup)
    (m : OrderedMap κ ν)
    (k : κ) :
    (entries.foldl (fun m e => m.insert e.1 e.2) m).get? k =
      (Entries.get? k entries).or (m.get? k) := by
  induction entries generalizing m with
  | nil => rfl
  | cons e rest ih =>
      rcases e with ⟨a, v⟩
      have hKeys := List.nodup_cons.1 hNodup
      rw [List.foldl_cons, ih hKeys.2, get?_insert, Entries.get?]
      by_cases h : k = a
      · subst h
        have hRest : Entries.get? k rest = none := by
          rw [← Option.not_isSome_iff_eq_none,
            Entries.get?_isSome_iff]
          exact hKeys.1
        simp [hRest]
      · have h' : ¬ a = k := fun e => h e.symm
        simp [h, h']

/- In an extended map the values of the extension come first. -/
theorem get?_extend
    (m other : OrderedMap κ ν)
    (k : κ) :
    (m.extend other).get? k = (other.get? k).or (m.get? k) :=
  get?_foldl_insert other.nodup_keys m k

------------------------------------------------------------
-- Writing a list
------------------------------------------------------------

/- Only the elements of a key take part in what it holds. -/
theorem get?_foldl_upsert
    (key : α → κ)
    (f : Option ν → α → ν)
    (xs : List α)
    (m : OrderedMap κ ν)
    (k : κ) :
    (xs.foldl (fun m x => m.upsert (key x) (f · x)) m).get? k =
      (xs.filter (fun x => key x = k)).foldl
        (fun old x => some (f old x)) (m.get? k) := by
  induction xs generalizing m with
  | nil => rfl
  | cons x rest ih =>
      rw [List.foldl_cons, ih, get?_upsert]
      by_cases h : key x = k
      · simp [h]
      · have h' : ¬ k = key x := fun e => h e.symm
        simp [h, h']

/- Keys stand in the order in which they first occur. -/
theorem keys_foldl_upsert
    (key : α → κ)
    (f : Option ν → α → ν)
    (xs : List α) :
    (xs.foldl (fun m x => m.upsert (key x) (f · x))
      (∅ : OrderedMap κ ν)).keys =
        (xs.map key).eraseDups := by
  induction xs using List.reverseRecOn with
  | nil => rfl
  | append_singleton xs x ih =>
      rw [List.foldl_append, List.foldl_cons, List.foldl_nil,
        keys_upsert, ih, List.map_append, List.map_singleton,
        List.eraseDups_append]
      by_cases h : key x ∈ xs.map key
      · have hOld : [key x].removeAll (xs.map key) = [] := by
          simpa [List.removeAll, List.filter_cons] using h
        rw [if_pos (List.mem_eraseDups.2 h), hOld,
          List.eraseDups_nil, List.append_nil]
      · have hNew : [key x].removeAll (xs.map key) = [key x] := by
          simpa [List.removeAll, List.filter_cons] using h
        rw [if_neg (fun h' => h (List.mem_eraseDups.1 h')), hNew]
        rfl

theorem ofList_append_singleton
    (entries : List (κ × ν))
    (e : κ × ν) :
    ofList (entries ++ [e]) = (ofList entries).insert e.1 e.2 := by
  simp [ofList, upsertAll, insert]

/- The map of a list has the keys of the list. -/
theorem keys_ofList
    (entries : List (κ × ν)) :
    (ofList entries).keys = (entries.map Prod.fst).eraseDups :=
  keys_foldl_upsert Prod.fst (fun _ e => e.2) entries

/- A list without repeated keys is what its map lists. -/
theorem entries_ofList
    {entries : List (κ × ν)}
    (hNodup : (entries.map Prod.fst).Nodup) :
    (ofList entries).entries = entries := by
  induction entries using List.reverseRecOn with
  | nil => rfl
  | append_singleton rest e ih =>
      rw [List.map_append, List.nodup_append] at hNodup
      rcases hNodup with ⟨hRest, _, hApart⟩
      have hNew : e.1 ∉ (ofList rest).keys := by
        rw [keys, ih hRest]
        intro hOld
        exact hApart e.1 hOld e.1 (by simp) rfl
      rw [ofList_append_singleton, entries_insert_of_not_mem hNew,
        ih hRest]

/-
  The map that gathers a list: under each key the fold of the
  elements with that key, from a common beginning.
-/
def grouped
    (key : α → κ)
    (g : ν → α → ν)
    (init : ν)
    (xs : List α) : OrderedMap κ ν :=
  xs.foldl
    (fun m x => m.upsert (key x) (fun old => g (old.getD init) x)) ∅

private theorem foldl_some_getD
    (g : ν → α → ν)
    (init : ν)
    (xs : List α)
    (old : Option ν)
    (hNe : xs ≠ []) :
    xs.foldl (fun o x => some (g (o.getD init) x)) old =
      some (xs.foldl g (old.getD init)) := by
  induction xs generalizing old with
  | nil => exact absurd rfl hNe
  | cons x rest ih =>
      rw [List.foldl_cons, List.foldl_cons]
      cases rest with
      | nil => rfl
      | cons y rest => exact ih _ (by simp)

theorem keys_grouped
    (key : α → κ)
    (g : ν → α → ν)
    (init : ν)
    (xs : List α) :
    (grouped key g init xs).keys = (xs.map key).eraseDups :=
  keys_foldl_upsert key (fun old x => g (old.getD init) x) xs

theorem get?_grouped
    (key : α → κ)
    (g : ν → α → ν)
    (init : ν)
    (xs : List α)
    (k : κ) :
    (grouped key g init xs).get? k =
      if k ∈ xs.map key then
        some ((xs.filter (fun x => key x = k)).foldl g init)
      else
        none := by
  rw [grouped,
    get?_foldl_upsert key (fun old x => g (old.getD init) x)]
  by_cases h : k ∈ xs.map key
  · rcases List.mem_map.1 h with ⟨x, hx, hk⟩
    have hNe : xs.filter (fun x => key x = k) ≠ [] :=
      List.ne_nil_of_mem (List.mem_filter.2 ⟨hx, by simp [hk]⟩)
    rw [if_pos h]
    exact foldl_some_getD g init _ _ hNe
  · have hNil : xs.filter (fun x => key x = k) = [] := by
      apply List.filter_eq_nil_iff.2
      intro x hx hk
      exact h (List.mem_map.2 ⟨x, hx, by simpa using hk⟩)
    rw [if_neg h, hNil]
    rfl

/- The entries of a gathered list. -/
theorem entries_grouped
    (key : α → κ)
    (g : ν → α → ν)
    (init : ν)
    (xs : List α) :
    (grouped key g init xs).entries =
      (xs.map key).eraseDups.map (fun k =>
        (k, (xs.filter (fun x => key x = k)).foldl g init)) := by
  rw [← keys_grouped key g init xs]
  refine entries_eq_map_keys _ _ ?_
  intro k hk
  rw [keys_grouped, List.mem_eraseDups] at hk
  rw [get?_grouped, if_pos hk]

end OrderedMap

------------------------------------------------------------
-- Sets
------------------------------------------------------------

namespace OrderedSet

variable {α κ : Type} [DecidableEq κ]

/- A set holds what it held and what was put in. -/
theorem contains_foldl_insert
    (key : α → κ)
    (xs : List α)
    (s : OrderedSet κ)
    (k : κ) :
    (xs.foldl (fun s x => s.insert (key x) ()) s).contains k =
      (decide (k ∈ xs.map key) || s.contains k) := by
  induction xs generalizing s with
  | nil => simp
  | cons x rest ih =>
      rw [List.foldl_cons, ih, OrderedMap.contains_insert]
      by_cases h : k = key x <;> simp [h]

end OrderedSet

end AtomicCss
