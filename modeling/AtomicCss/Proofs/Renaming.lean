import AtomicCss.Proofs.OrderedMap
import Mathlib.Data.List.Nodup

/-
  This file defines the renaming of the keys of an ordered
  map, and proves that it keeps all entries and their order
  if no two keys get one name.

  Key definitions include:
    * `OrderedMap.rename`

  The main statements are:
    * `OrderedMap.entries_rename`
    * `OrderedMap.get?_rename`
    * `OrderedMap.rename_insert`
-/

namespace AtomicCss

variable {κ ν κ' ν' : Type} [DecidableEq κ] [DecidableEq κ']

------------------------------------------------------------
-- Renamed entries
------------------------------------------------------------

namespace Entries

/-
  An entry with its key renamed. What becomes of the value
  may depend on the key.
-/
def renamed
    (name : κ → κ')
    (change : κ → ν → ν')
    (e : κ × ν) : κ' × ν' :=
  (name e.1, change e.1 e.2)

variable {name : κ → κ'}
variable (change : κ → ν → ν')
variable (hInjective : Function.Injective name)

include hInjective

theorem map_renamed_upsert
    (k : κ)
    (v : ν)
    (entries : List (κ × ν)) :
    (upsert k (fun _ => v) entries).map (renamed name change) =
      upsert (name k) (fun _ => change k v)
        (entries.map (renamed name change)) := by
  induction entries with
  | nil => rfl
  | cons e rest ih =>
      rcases e with ⟨a, w⟩
      rw [List.map_cons, upsert, renamed, upsert]
      by_cases hKey : a = k
      · rw [if_pos hKey, if_pos (congrArg name hKey), hKey]
        rfl
      · have hName : name a ≠ name k := hInjective.ne hKey
        rw [if_neg hKey, if_neg hName, List.map_cons, ih]
        rfl

theorem get?_map_renamed
    (k : κ)
    (entries : List (κ × ν)) :
    get? (name k) (entries.map (renamed name change)) =
      (get? k entries).map (change k) := by
  induction entries with
  | nil => rfl
  | cons e rest ih =>
      rcases e with ⟨a, w⟩
      rw [List.map_cons, get?, renamed, get?, ih]
      by_cases hKey : a = k
      · rw [if_pos hKey, if_pos (congrArg name hKey), hKey]
        rfl
      · have hName : name a ≠ name k := hInjective.ne hKey
        rw [if_neg hKey, if_neg hName]

end Entries

------------------------------------------------------------
-- Renamed maps
------------------------------------------------------------

namespace OrderedMap

/- A map with its keys renamed, and its values changed by key. -/
def rename
    (name : κ → κ')
    (change : κ → ν → ν')
    (m : OrderedMap κ ν) : OrderedMap κ' ν' :=
  ofList (m.entries.map (Entries.renamed name change))

variable {name : κ → κ'}
variable (change : κ → ν → ν')
variable (hInjective : Function.Injective name)

include hInjective

omit [DecidableEq κ] in
/- No entry is lost, and all keep their places. -/
theorem entries_rename
    (m : OrderedMap κ ν) :
    (m.rename name change).entries =
      m.entries.map (Entries.renamed name change) := by
  apply entries_ofList
  have hNodup := List.Nodup.map hInjective m.nodup_keys
  rw [List.map_map] at hNodup ⊢
  exact hNodup

omit [DecidableEq κ] in
theorem keys_rename
    (m : OrderedMap κ ν) :
    (m.rename name change).keys = m.keys.map name := by
  rw [keys, entries_rename change hInjective, keys, List.map_map,
    List.map_map]
  rfl

/- Under a new name stands what stood under the old one. -/
theorem get?_rename
    (m : OrderedMap κ ν)
    (k : κ) :
    (m.rename name change).get? (name k) =
      (m.get? k).map (change k) := by
  rw [get?, entries_rename change hInjective]
  exact Entries.get?_map_renamed change hInjective k m.entries

theorem contains_rename
    (m : OrderedMap κ ν)
    (k : κ) :
    (m.rename name change).contains (name k) = m.contains k := by
  rw [contains, get?_rename change hInjective, Option.isSome_map]
  rfl

/- To rename after a write is to write the renamed entry. -/
theorem rename_insert
    (m : OrderedMap κ ν)
    (k : κ)
    (v : ν) :
    (m.insert k v).rename name change =
      (m.rename name change).insert (name k) (change k v) := by
  apply ext
  rw [entries_rename change hInjective]
  exact (Entries.map_renamed_upsert change hInjective k v _).trans
    (congrArg _ (entries_rename change hInjective m).symm)

end OrderedMap

end AtomicCss
