import AtomicCss.Proofs.Merging
import Mathlib.Data.List.Basic

/-
  This file proves what a list can be replaced by without
  changing the map that it is written to.

  A map only knows in which order the keys of a list begin,
  and which value stands last under each key. So an entry that
  is neither the first nor the last of its key can be left
  out, and the last entry of a key can stand for all others
  that are behind the first.

  Key definitions include:
    * `Entries.last?`

  The main statements are:
    * `OrderedMap.get?_ofList`
    * `OrderedMap.mem_entries_ofList`
    * `OrderedMap.ofList_congr`
    * `OrderedMap.erase_ofList`
    * `OrderedMap.filterMap_values_erase`
    * `OrderedMap.ofList_of_surrounded`
    * `OrderedMap.ofList_of_followed`
-/

namespace AtomicCss

variable {κ ν : Type} [DecidableEq κ]

------------------------------------------------------------
-- Last values
------------------------------------------------------------

namespace Entries

/- The value of the last entry with a key, if there is one. -/
def last?
    (k : κ)
    (entries : List (κ × ν)) : Option ν :=
  ((entries.filter (fun e => e.1 = k)).getLast?).map Prod.snd

theorem last?_append
    (k : κ)
    (xs ys : List (κ × ν)) :
    last? k (xs ++ ys) = (last? k ys).or (last? k xs) := by
  rw [last?, List.filter_append, List.getLast?_append, Option.map_or]
  rfl

theorem last?_cons
    (k : κ)
    (e : κ × ν)
    (entries : List (κ × ν)) :
    last? k (e :: entries) =
      (last? k entries).or (if e.1 = k then some e.2 else none) := by
  have hSingle :
      last? k [e] = if e.1 = k then some e.2 else none := by
    by_cases hKey : e.1 = k <;> simp [last?, hKey]
  rw [← hSingle, ← last?_append, List.singleton_append]

/- Without the entries of one key the others end as before. -/
theorem last?_erase
    (k k' : κ)
    (entries : List (κ × ν)) :
    last? k' (erase k entries) =
      if k' = k then none else last? k' entries := by
  induction entries with
  | nil => simp [last?, erase]
  | cons e rest ih =>
      have hRest :
          erase k (e :: rest) =
            if e.1 = k then erase k rest else e :: erase k rest := by
        by_cases hKey : e.1 = k <;> simp [erase, hKey]
      rw [hRest]
      by_cases hKey : e.1 = k
      · rw [if_pos hKey, ih, last?_cons]
        by_cases hSame : k' = k
        · simp [hSame]
        · simp [hSame, hKey, Ne.symm hSame]
      · rw [if_neg hKey, last?_cons, ih, last?_cons]
        by_cases hSame : k' = k
        · simp [hSame, hKey]
        · simp [hSame]

theorem keys_erase
    (k : κ)
    (entries : List (κ × ν)) :
    (erase k entries).map Prod.fst =
      (entries.map Prod.fst).filter (fun k' => k' ≠ k) := by
  rw [List.filter_map]
  rfl

end Entries

------------------------------------------------------------
-- Orders of first occurrence
------------------------------------------------------------

private theorem eraseDups_filter
    (p : κ → Bool)
    (keys : List κ) :
    (keys.filter p).eraseDups = keys.eraseDups.filter p := by
  induction keys using List.reverseRecOn with
  | nil => rfl
  | append_singleton rest k ih =>
      rw [List.filter_append, List.eraseDups_append, ih,
        List.eraseDups_append, List.filter_append]
      congr 1
      by_cases hKey : p k = true <;>
        by_cases hOld : k ∈ rest <;>
          simp [List.removeAll, List.eraseDups_cons, hKey, hOld]

private theorem eraseDups_append_cons
    (front behind : List κ)
    (k : κ) :
    (front ++ k :: behind.filter (fun k' => k' ≠ k)).eraseDups =
      (front ++ k :: behind).eraseDups := by
  have hBehind :
      (behind.filter (fun k' => k' ≠ k)).removeAll (front ++ [k]) =
        behind.removeAll (front ++ [k]) := by
    rw [List.removeAll, List.removeAll, List.filter_filter]
    apply List.filter_congr
    intro k' _
    by_cases hKey : k' = k <;> simp [hKey]
  rw [List.append_cons, List.eraseDups_append, hBehind,
    ← List.eraseDups_append, ← List.append_cons]

private theorem eraseDups_append_of_mem
    {front : List κ}
    {k : κ}
    (hOld : k ∈ front)
    (behind : List κ) :
    (front ++ k :: behind).eraseDups =
      (front ++ behind).eraseDups := by
  rw [List.eraseDups_append, List.eraseDups_append]
  simp [List.removeAll, hOld]

namespace OrderedMap

------------------------------------------------------------
-- Maps of lists
------------------------------------------------------------

theorem get?_ofList
    (entries : List (κ × ν))
    (k : κ) :
    (ofList entries).get? k = Entries.last? k entries := by
  induction entries using List.reverseRecOn with
  | nil => rfl
  | append_singleton rest e ih =>
      rw [ofList_append_singleton, get?_insert, ih,
        Entries.last?_append]
      by_cases hKey : k = e.1
      · simp [Entries.last?, hKey]
      · simp [Entries.last?, hKey, Ne.symm hKey]

/- An entry of the map of a list ends its key in the list. -/
theorem last?_of_mem_entries_ofList
    {entries : List (κ × ν)}
    {e : κ × ν}
    (hEntry : e ∈ (ofList entries).entries) :
    Entries.last? e.1 entries = some e.2 := by
  rw [← get?_ofList]
  exact get?_of_mem_entries hEntry

theorem mem_entries_ofList
    {entries : List (κ × ν)}
    {e : κ × ν}
    (hEntry : e ∈ (ofList entries).entries) :
    e ∈ entries := by
  rcases Option.map_eq_some_iff.1
      (last?_of_mem_entries_ofList hEntry) with ⟨x, hx, hValue⟩
  rcases List.mem_filter.1 (List.mem_of_getLast? hx) with ⟨hMem, hKey⟩
  rwa [← Prod.ext (of_decide_eq_true hKey) hValue]

/-
  Lists are written to one map if their keys begin in the same
  order and end with the same values.
-/
theorem ofList_congr
    {xs ys : List (κ × ν)}
    (hKeys :
      (xs.map Prod.fst).eraseDups = (ys.map Prod.fst).eraseDups)
    (hLast : ∀ k, Entries.last? k xs = Entries.last? k ys) :
    ofList xs = ofList ys := by
  apply eq_of_keys_of_get?
  · rw [keys_ofList, keys_ofList, hKeys]
  · intro k
    rw [get?_ofList, get?_ofList, hLast]

/- To remove a key, its entries can be left out of the list. -/
theorem erase_ofList
    (k : κ)
    (entries : List (κ × ν)) :
    (ofList entries).erase k = ofList (Entries.erase k entries) := by
  apply eq_of_keys_of_get?
  · rw [keys_erase, keys_ofList, keys_ofList, Entries.keys_erase,
      eraseDups_filter]
  · intro k'
    rw [get?_erase, get?_ofList, get?_ofList, Entries.last?_erase]

/- A key whose value comes to nothing can be removed. -/
theorem filterMap_values_erase
    {μ : Type}
    {m : OrderedMap κ ν}
    {k : κ}
    {f : ν → Option μ}
    (hNone : ∀ v ∈ m.get? k, f v = none) :
    (m.erase k).values.filterMap f = m.values.filterMap f := by
  change ((m.entries.filter (fun e => decide (e.1 ≠ k))).map
    Prod.snd).filterMap f = (m.entries.map Prod.snd).filterMap f
  rw [List.filterMap_map, List.filterMap_map, List.filterMap_filter]
  apply List.filterMap_congr
  intro e he
  by_cases hKey : e.1 = k
  · have hFound : e ∈ m.entries.filter (fun e => e.1 = k) :=
      List.mem_filter.2 ⟨he, decide_eq_true hKey⟩
    rw [m.filter_entries] at hFound
    rcases List.mem_map.1 hFound with ⟨v, hv, rfl⟩
    simpa using (hNone v (Option.mem_toList.1 hv)).symm
  · simp [hKey]

/- An entry between others of its key has no effect. -/
theorem ofList_of_surrounded
    {front behind : List (κ × ν)}
    {k : κ}
    (hBefore : k ∈ front.map Prod.fst)
    (hAfter : Entries.last? k behind ≠ none)
    (v : ν) :
    ofList (front ++ (k, v) :: behind) = ofList (front ++ behind) := by
  apply ofList_congr
  · rw [List.map_append, List.map_cons, List.map_append]
    exact eraseDups_append_of_mem hBefore _
  · intro k'
    rw [Entries.last?_append, Entries.last?_cons,
      Entries.last?_append]
    by_cases hKey : k = k'
    · subst hKey
      rcases Option.ne_none_iff_exists'.1 hAfter with ⟨w, hw⟩
      rw [hw]
      rfl
    · simp [hKey]

/-
  Behind an entry, the last one of its key can take its place
  and the others can be left out.
-/
theorem ofList_of_followed
    {front behind : List (κ × ν)}
    {k : κ}
    {w : ν}
    (hLast : Entries.last? k behind = some w)
    (v : ν) :
    ofList (front ++ (k, v) :: behind) =
      ofList (front ++ (k, w) :: Entries.erase k behind) := by
  apply ofList_congr
  · simp only [List.map_append, List.map_cons, Entries.keys_erase]
    exact (eraseDups_append_cons _ _ _).symm
  · intro k'
    rw [Entries.last?_append, Entries.last?_append,
      Entries.last?_cons, Entries.last?_cons, Entries.last?_erase]
    by_cases hKey : k = k'
    · subst hKey
      simp [hLast]
    · simp [hKey, Ne.symm hKey]

end OrderedMap

end AtomicCss
