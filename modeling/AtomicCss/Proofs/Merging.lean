import AtomicCss.Proofs.OrderedMap

/-
  This file proves what ordered maps come to when one is
  merged into another: the keys of the first keep their
  places, and the new keys of the second follow in order.

  Merging in a row is merging together, whenever that holds
  of the single values. So it holds of maps of maps too.

  The main statements are:
    * `OrderedMap.eq_of_keys_of_get?`
    * `OrderedMap.insert_of_get?`
    * `OrderedMap.filter_entries`
    * `OrderedMap.keys_mergeWith`
    * `OrderedMap.get?_mergeWith`
    * `OrderedMap.mergeWith_assoc`
    * `OrderedMap.extend_assoc`
    * `OrderedMap.ofList_append`
    * `OrderedMap.entries_ofList_append`
-/

namespace AtomicCss

namespace OrderedMap

variable {κ ν μ : Type} [DecidableEq κ]

------------------------------------------------------------
-- Maps as what is found in them
------------------------------------------------------------

/- Maps agree that have one order and find the same values. -/
theorem eq_of_keys_of_get?
    {a b : OrderedMap κ ν}
    (hKeys : a.keys = b.keys)
    (hFound : ∀ k, a.get? k = b.get? k) :
    a = b := by
  cases hEntries : a.entries with
  | nil =>
      have hNone : b.keys = [] := by
        rw [← hKeys, keys, hEntries]
        rfl
      apply ext
      rw [hEntries, List.map_eq_nil_iff.1 hNone]
  | cons e rest =>
      -- Some value has to stand for the keys that are missing.
      let value : κ → ν := fun k => (a.get? k).getD e.2
      have hOwn : ∀ k ∈ a.keys, a.get? k = some (value k) := by
        intro k hk
        rcases (a.mem_keys_iff_exists k).1 hk with ⟨v, hv⟩
        simp [value, hv]
      have hOther : ∀ k ∈ b.keys, b.get? k = some (value k) := by
        intro k hk
        rw [← hFound]
        exact hOwn k (hKeys ▸ hk)
      apply ext
      rw [a.entries_eq_map_keys value hOwn,
        b.entries_eq_map_keys value hOther, hKeys]

/- To write what is there already changes nothing. -/
theorem insert_of_get?
    {m : OrderedMap κ ν}
    {k : κ}
    {v : ν}
    (hFound : m.get? k = some v) :
    m.insert k v = m := by
  have hKey : k ∈ m.keys :=
    (m.mem_keys_iff_exists k).2 ⟨v, hFound⟩
  apply eq_of_keys_of_get?
  · rw [insert, keys_upsert, if_pos hKey]
  · intro k'
    rw [get?_insert]
    by_cases hSame : k' = k <;> simp [hSame, hFound]

omit [DecidableEq κ] in
/- At most one of the keys has a given name. -/
theorem filter_entries_of_injective
    {κ' : Type}
    [DecidableEq κ']
    {name : κ → κ'}
    (hName : Function.Injective name)
    (m : OrderedMap κ ν)
    (k : κ') :
    m.entries.filter (fun e => name e.1 = k) =
      (m.entries.find? (fun e => name e.1 = k)).toList := by
  rcases m with ⟨entries, hNodup⟩
  dsimp only
  induction entries with
  | nil => rfl
  | cons e rest ih =>
      rcases List.nodup_cons.1 hNodup with ⟨hNew, hRest⟩
      by_cases hKey : name e.1 = k
      · have hOthers :
            rest.filter (fun e' => name e'.1 = k) = [] := by
          apply List.filter_eq_nil_iff.2
          intro e' he' hSame
          have hSameKey : e'.1 = e.1 :=
            hName ((of_decide_eq_true hSame).trans hKey.symm)
          exact hNew (List.mem_map.2 ⟨e', he', hSameKey⟩)
        simp [hKey, hOthers]
      · simpa [hKey] using ih hRest

/- What a map finds is in its first entry with the key. -/
theorem find?_entries
    (m : OrderedMap κ ν)
    (k : κ) :
    m.entries.find? (fun e => e.1 = k) =
      (m.get? k).map (fun v => (k, v)) := by
  unfold get?
  induction m.entries with
  | nil => rfl
  | cons e rest ih =>
      by_cases hKey : e.1 = k
      · subst hKey
        simp [Entries.get?]
      · simpa [Entries.get?, hKey] using ih

/- So of the entries at most one has a given key. -/
theorem filter_entries
    (m : OrderedMap κ ν)
    (k : κ) :
    m.entries.filter (fun e => e.1 = k) =
      (m.get? k).toList.map (fun v => (k, v)) := by
  have hFilter :=
    filter_entries_of_injective Function.injective_id m k
  refine hFilter.trans ?_
  simp only [id, find?_entries, Option.toList_map]

/- An entry is what is found under its key. -/
theorem get?_of_mem_entries
    {m : OrderedMap κ ν}
    {e : κ × ν}
    (hEntry : e ∈ m.entries) :
    m.get? e.1 = some e.2 := by
  have hOwn : e ∈ m.entries.filter (fun x => x.1 = e.1) :=
    List.mem_filter.2 ⟨hEntry, decide_eq_true rfl⟩
  rw [filter_entries] at hOwn
  rcases List.mem_map.1 hOwn with ⟨v, hv, hSame⟩
  rw [← congrArg Prod.snd hSame]
  exact Option.mem_toList.1 hv

------------------------------------------------------------
-- Merging
------------------------------------------------------------

private theorem keys_upsertAll
    (f : Option ν → μ → ν)
    {entries : List (κ × μ)}
    (hNodup : (entries.map Prod.fst).Nodup)
    (m : OrderedMap κ ν) :
    (upsertAll f m entries).keys =
      m.keys ++
        (entries.map Prod.fst).filter (fun k => k ∉ m.keys) := by
  induction entries generalizing m with
  | nil => simp [upsertAll]
  | cons e rest ih =>
      rcases e with ⟨k, v⟩
      rcases List.nodup_cons.1 hNodup with ⟨hNew, hRest⟩
      have hStep := ih hRest (m.upsert k (fun old => f old v))
      rw [keys_upsert] at hStep
      refine hStep.trans ?_
      by_cases hKey : k ∈ m.keys
      · simp [hKey]
      · -- The new key is written once only.
        have hLater :
            (rest.map Prod.fst).filter (fun k' => k' ∉ m.keys ++ [k]) =
              (rest.map Prod.fst).filter (fun k' => k' ∉ m.keys) := by
          apply List.filter_congr
          intro k' hk'
          have hNe : k' ≠ k := fun h => hNew (h ▸ hk')
          simp [hNe]
        rw [if_neg hKey, hLater, List.map_cons,
          List.filter_cons_of_pos (by simpa using hKey),
          List.append_assoc]
        rfl

/- New keys follow the present ones. -/
theorem keys_mergeWith
    (f : Option ν → μ → ν)
    (m : OrderedMap κ ν)
    (other : OrderedMap κ μ) :
    (m.mergeWith f other).keys =
      m.keys ++ other.keys.filter (fun k => k ∉ m.keys) :=
  keys_upsertAll f other.nodup_keys m

/- Under each key the two values are combined. -/
theorem get?_mergeWith
    (f : Option ν → μ → ν)
    (m : OrderedMap κ ν)
    (other : OrderedMap κ μ)
    (k : κ) :
    (m.mergeWith f other).get? k =
      ((other.get? k).map (f (m.get? k))).or (m.get? k) := by
  have hFold :=
    get?_foldl_upsert Prod.fst (fun old (e : κ × μ) => f old e.2)
      other.entries m k
  rw [filter_entries] at hFold
  refine hFold.trans ?_
  cases other.get? k <;> rfl

section

/-
  How single values are combined: a value on its own stays,
  and combining in a row is combining together.
-/
variable {f : Option ν → ν → ν}
variable (hAlone : ∀ x, f none x = x)
variable
  (hRow : ∀ x y z,
    f (some (f (some x) y)) z = f (some x) (f (some y) z))

include hAlone

/- A map is merged into the empty one as it is. -/
theorem empty_mergeWith
    (m : OrderedMap κ ν) :
    (∅ : OrderedMap κ ν).mergeWith f m = m := by
  apply eq_of_keys_of_get?
  · apply (keys_mergeWith f ∅ m).trans
    exact List.filter_eq_self.2
      (fun _ _ => decide_eq_true List.not_mem_nil)
  · intro k
    have hNone : (∅ : OrderedMap κ ν).get? k = none := rfl
    rw [get?_mergeWith, hNone]
    cases m.get? k <;> simp [hAlone]

include hRow

/- Then merging in a row is merging together, order included. -/
theorem mergeWith_assoc
    (a b c : OrderedMap κ ν) :
    (a.mergeWith f b).mergeWith f c =
      a.mergeWith f (b.mergeWith f c) := by
  apply eq_of_keys_of_get?
  · simp only [keys_mergeWith, List.append_assoc, List.filter_append,
      List.filter_filter]
    congr 2
    apply List.filter_congr
    intro k _
    by_cases hA : k ∈ a.keys <;> by_cases hB : k ∈ b.keys <;>
      simp [hA, hB]
  · intro k
    simp only [get?_mergeWith]
    cases a.get? k <;> cases b.get? k <;> cases c.get? k <;>
      simp [hAlone, hRow]

end

------------------------------------------------------------
-- Extending
------------------------------------------------------------

theorem keys_extend
    (m other : OrderedMap κ ν) :
    (m.extend other).keys =
      m.keys ++ other.keys.filter (fun k => k ∉ m.keys) :=
  keys_mergeWith _ m other

theorem extend_assoc
    (a b c : OrderedMap κ ν) :
    (a.extend b).extend c = a.extend (b.extend c) :=
  mergeWith_assoc (fun _ => rfl) (fun _ _ _ => rfl) a b c

@[simp]
theorem empty_extend
    (m : OrderedMap κ ν) :
    (∅ : OrderedMap κ ν).extend m = m :=
  empty_mergeWith (fun _ => rfl) m

------------------------------------------------------------
-- Lists in a row
------------------------------------------------------------

/- To write one value is to extend by a map with one entry. -/
theorem insert_eq_extend
    (m : OrderedMap κ ν)
    (k : κ)
    (v : ν) :
    m.insert k v = m.extend ((∅ : OrderedMap κ ν).insert k v) :=
  rfl

/- The map of two lists in a row is that of the one and the other. -/
theorem ofList_append
    (xs ys : List (κ × ν)) :
    ofList (xs ++ ys) = (ofList xs).extend (ofList ys) := by
  induction ys using List.reverseRecOn with
  | nil =>
      rw [List.append_nil]
      rfl
  | append_singleton ys y ih =>
      rw [← List.append_assoc, ofList_append_singleton,
        ofList_append_singleton, ih, insert_eq_extend, extend_assoc,
        ← insert_eq_extend]

/- A map is that of its own entries. -/
theorem ofList_entries
    (m : OrderedMap κ ν) :
    ofList m.entries = m :=
  ext (entries_ofList m.nodup_keys)

private theorem upsert_append_of_not_mem
    {k : κ}
    {xs : List (κ × ν)}
    (hApart : ∀ e ∈ xs, e.1 ≠ k)
    (f : Option ν → ν)
    (ys : List (κ × ν)) :
    Entries.upsert k f (xs ++ ys) = xs ++ Entries.upsert k f ys := by
  induction xs with
  | nil => rfl
  | cons e rest ih =>
      rcases List.forall_mem_cons.1 hApart with ⟨hFirst, hRest⟩
      simp only [List.cons_append, Entries.upsert, if_neg hFirst,
        ih hRest]

/- Of lists without a common key each has its own entries. -/
theorem entries_ofList_append
    {xs ys : List (κ × ν)}
    (hApart : ∀ x ∈ xs, ∀ y ∈ ys, x.1 ≠ y.1) :
    (ofList (xs ++ ys)).entries =
      (ofList xs).entries ++ (ofList ys).entries := by
  induction ys using List.reverseRecOn with
  | nil => simp [ofList, upsertAll]; rfl
  | append_singleton ys y ih =>
      have hBefore : ∀ x ∈ xs, ∀ y' ∈ ys, x.1 ≠ y'.1 :=
        fun x hx y' hy' =>
          hApart x hx y' (List.mem_append_left _ hy')
      have hLast : ∀ e ∈ (ofList xs).entries, e.1 ≠ y.1 := by
        intro e he
        have hKey : e.1 ∈ (ofList xs).keys := List.mem_map_of_mem he
        rw [keys_ofList, List.mem_eraseDups] at hKey
        rcases List.mem_map.1 hKey with ⟨x, hx, hSame⟩
        rw [← hSame]
        exact hApart x hx y (by simp)
      rw [← List.append_assoc, ofList_append_singleton,
        ofList_append_singleton]
      change Entries.upsert y.1 _ (ofList (xs ++ ys)).entries = _
      rw [ih hBefore, upsert_append_of_not_mem hLast]
      rfl

end OrderedMap

end AtomicCss
