/-
  This file defines maps that remember insertion order.

  Keys are pairwise distinct. Writing to a present key keeps
  its place; writing to an absent key appends it.

  Key definitions include:
    * `OrderedMap`
    * `OrderedMap.get?`
    * `OrderedMap.upsert`
    * `OrderedMap.insert`
    * `OrderedMap.erase`
    * `OrderedMap.mergeWith`
    * `OrderedMap.extend`
    * `OrderedMap.mapValues`
    * `OrderedMap.ofList`
    * `OrderedSet`

  The order and lookup laws are stated by:
    * `OrderedMap.keys_upsert`
    * `OrderedMap.get?_upsert`
    * `OrderedMap.get?_erase`
-/

namespace AtomicCss

------------------------------------------------------------
-- Entry lists
------------------------------------------------------------

namespace Entries

variable {κ ν μ : Type} [DecidableEq κ]

/- The value stored under a key, if any. -/
def get?
    (k : κ) : List (κ × ν) → Option ν
  | [] => none
  | (k', v) :: rest => if k' = k then some v else get? k rest

/-
  Change the value under a key in place, or append the key
  when it is absent.
-/
def upsert
    (k : κ)
    (f : Option ν → ν) : List (κ × ν) → List (κ × ν)
  | [] => [(k, f none)]
  | (k', v) :: rest =>
      if k' = k then
        (k', f (some v)) :: rest
      else
        (k', v) :: upsert k f rest

/- Remove a key and its value. -/
def erase
    (k : κ)
    (entries : List (κ × ν)) : List (κ × ν) :=
  entries.filter (fun e => decide (e.1 ≠ k))

theorem keys_upsert
    (k : κ)
    (f : Option ν → ν)
    (entries : List (κ × ν)) :
    (upsert k f entries).map Prod.fst =
      if k ∈ entries.map Prod.fst then
        entries.map Prod.fst
      else
        entries.map Prod.fst ++ [k] := by
  induction entries with
  | nil => rfl
  | cons e rest ih =>
      obtain ⟨k', v⟩ := e
      by_cases hk : k' = k
      · subst hk
        simp [upsert]
      · have hk' : ¬ k = k' := fun h => hk h.symm
        simp only [upsert, hk, if_false, List.map_cons, ih,
          List.mem_cons, hk', false_or]
        split <;> simp

theorem nodup_upsert
    (k : κ)
    (f : Option ν → ν)
    {entries : List (κ × ν)}
    (h : (entries.map Prod.fst).Nodup) :
    ((upsert k f entries).map Prod.fst).Nodup := by
  rw [keys_upsert]
  split
  · exact h
  · rename_i hk
    exact List.nodup_append.2
      ⟨h, by simp, by
        intro a ha b hb hab
        rw [List.mem_singleton] at hb
        exact hk (hb ▸ hab ▸ ha)⟩

theorem nodup_erase
    (k : κ)
    {entries : List (κ × ν)}
    (h : (entries.map Prod.fst).Nodup) :
    ((erase k entries).map Prod.fst).Nodup :=
  List.Nodup.sublist
    ((List.filter_sublist).map Prod.fst) h

theorem get?_upsert
    (k k' : κ)
    (f : Option ν → ν)
    (entries : List (κ × ν)) :
    get? k' (upsert k f entries) =
      if k' = k then some (f (get? k entries)) else get? k' entries := by
  induction entries with
  | nil =>
      by_cases h : k' = k
      · simp [upsert, get?, h]
      · have h' : ¬ k = k' := fun e => h e.symm
        simp [upsert, get?, h, h']
  | cons e rest ih =>
      obtain ⟨a, v⟩ := e
      by_cases ha : a = k
      · subst ha
        by_cases h : k' = a
        · simp [upsert, get?, h]
        · have h' : ¬ a = k' := fun e => h e.symm
          simp [upsert, get?, h, h']
      · by_cases h : k' = k
        · subst h
          simp [upsert, get?, ha, ih]
        · by_cases hb : a = k'
          · simp [upsert, get?, hb, h]
          · simp [upsert, get?, ha, hb, h, ih]

theorem get?_erase
    (k k' : κ)
    (entries : List (κ × ν)) :
    get? k' (erase k entries) =
      if k' = k then none else get? k' entries := by
  induction entries with
  | nil => simp [erase, get?]
  | cons e rest ih =>
      obtain ⟨a, v⟩ := e
      unfold erase at ih ⊢
      by_cases ha : a = k
      · subst ha
        by_cases h : k' = a
        · subst h
          simpa using ih
        · have h' : ¬ a = k' := fun e => h e.symm
          simpa [h, h', get?] using ih
      · by_cases hb : a = k'
        · subst hb
          simp [get?, ha]
        · simpa [get?, ha, hb] using ih

theorem get?_isSome_iff
    (k : κ)
    (entries : List (κ × ν)) :
    (get? k entries).isSome = true ↔ k ∈ entries.map Prod.fst := by
  induction entries with
  | nil => simp [get?]
  | cons e rest ih =>
      obtain ⟨a, v⟩ := e
      by_cases ha : a = k
      · simp [get?, ha]
      · have ha' : ¬ k = a := fun e => ha e.symm
        simp only [get?, ha, if_false, ih, List.map_cons,
          List.mem_cons, ha', false_or]

end Entries

------------------------------------------------------------
-- Maps
------------------------------------------------------------

/- Distinct keys with their values, in order of first insertion. -/
structure OrderedMap (κ ν : Type) where
  entries : List (κ × ν)
  nodup_keys : (entries.map Prod.fst).Nodup
deriving DecidableEq

namespace OrderedMap

variable {κ ν μ : Type}

/- Two maps agree when they list the same entries. -/
@[ext]
theorem ext
    {a b : OrderedMap κ ν}
    (h : a.entries = b.entries) :
    a = b := by
  cases a
  cases b
  cases h
  rfl

/- The map without entries. -/
def empty : OrderedMap κ ν :=
  ⟨[], List.nodup_nil⟩

instance : EmptyCollection (OrderedMap κ ν) := ⟨empty⟩

instance : Inhabited (OrderedMap κ ν) := ⟨empty⟩

/- The keys in order. -/
def keys
    (m : OrderedMap κ ν) : List κ :=
  m.entries.map Prod.fst

/- The values in the order of their keys. -/
def values
    (m : OrderedMap κ ν) : List ν :=
  m.entries.map Prod.snd

/- The number of keys. -/
def size
    (m : OrderedMap κ ν) : Nat :=
  m.entries.length

/- Whether the map has no entries. -/
def isEmpty
    (m : OrderedMap κ ν) : Bool :=
  m.entries.isEmpty

/- Apply a function to every value. -/
def mapValues
    (f : ν → μ)
    (m : OrderedMap κ ν) : OrderedMap κ μ where
  entries := m.entries.map (fun e => (e.1, f e.2))
  nodup_keys := by
    simpa [Function.comp_def] using m.nodup_keys

variable [DecidableEq κ]

/- The value stored under a key, if any. -/
def get?
    (m : OrderedMap κ ν)
    (k : κ) : Option ν :=
  Entries.get? k m.entries

/- Whether a key is present. -/
def contains
    (m : OrderedMap κ ν)
    (k : κ) : Bool :=
  (m.get? k).isSome

/-
  Change the value under a key, given what is stored there. A
  present key keeps its place; an absent one is appended.
-/
def upsert
    (m : OrderedMap κ ν)
    (k : κ)
    (f : Option ν → ν) : OrderedMap κ ν where
  entries := Entries.upsert k f m.entries
  nodup_keys := Entries.nodup_upsert k f m.nodup_keys

/- Store a value under a key. -/
def insert
    (m : OrderedMap κ ν)
    (k : κ)
    (v : ν) : OrderedMap κ ν :=
  m.upsert k (fun _ => v)

/- Remove a key. -/
def erase
    (m : OrderedMap κ ν)
    (k : κ) : OrderedMap κ ν where
  entries := Entries.erase k m.entries
  nodup_keys := Entries.nodup_erase k m.nodup_keys

/-
  Overlay a list of entries, combining each with what is
  stored under its key at that moment.
-/
def upsertAll
    (f : Option ν → μ → ν)
    (m : OrderedMap κ ν)
    (entries : List (κ × μ)) : OrderedMap κ ν :=
  entries.foldl (fun acc e => acc.upsert e.1 (fun old => f old e.2)) m

/- Overlay another map, combining value by value. -/
def mergeWith
    (f : Option ν → μ → ν)
    (m : OrderedMap κ ν)
    (other : OrderedMap κ μ) : OrderedMap κ ν :=
  upsertAll f m other.entries

/- Overlay another map, whose values replace present ones. -/
def extend
    (m other : OrderedMap κ ν) : OrderedMap κ ν :=
  m.mergeWith (fun _ v => v) other

/-
  The map of a list of entries. Of several entries with one
  key the last gives the value and the first the place.
-/
def ofList
    (entries : List (κ × ν)) : OrderedMap κ ν :=
  upsertAll (fun _ v => v) empty entries

------------------------------------------------------------
-- Laws
------------------------------------------------------------

@[simp]
theorem get?_empty
    (k : κ) :
    (empty : OrderedMap κ ν).get? k = none :=
  rfl

/- A write keeps the order of present keys. -/
theorem keys_upsert
    (m : OrderedMap κ ν)
    (k : κ)
    (f : Option ν → ν) :
    (m.upsert k f).keys =
      if k ∈ m.keys then m.keys else m.keys ++ [k] :=
  Entries.keys_upsert k f m.entries

/- A write changes the value under its own key only. -/
theorem get?_upsert
    (m : OrderedMap κ ν)
    (k k' : κ)
    (f : Option ν → ν) :
    (m.upsert k f).get? k' =
      if k' = k then some (f (m.get? k)) else m.get? k' :=
  Entries.get?_upsert k k' f m.entries

theorem get?_insert
    (m : OrderedMap κ ν)
    (k k' : κ)
    (v : ν) :
    (m.insert k v).get? k' =
      if k' = k then some v else m.get? k' :=
  get?_upsert m k k' _

theorem get?_erase
    (m : OrderedMap κ ν)
    (k k' : κ) :
    (m.erase k).get? k' = if k' = k then none else m.get? k' :=
  Entries.get?_erase k k' m.entries

theorem contains_iff_mem_keys
    (m : OrderedMap κ ν)
    (k : κ) :
    m.contains k = true ↔ k ∈ m.keys :=
  Entries.get?_isSome_iff k m.entries

end OrderedMap

------------------------------------------------------------
-- Sets
------------------------------------------------------------

/- Distinct elements in order of first insertion. -/
abbrev OrderedSet (κ : Type) :=
  OrderedMap κ Unit

namespace OrderedSet

variable {κ : Type} [DecidableEq κ]

/- The set of a list's elements, first occurrences in order. -/
def ofList
    (xs : List κ) : OrderedSet κ :=
  OrderedMap.ofList (xs.map (fun x => (x, ())))

end OrderedSet

end AtomicCss
