import AtomicCss.Proofs.Merging
import AtomicCss.Token.Basic

/-
  This file proves how competing tokens are settled when two
  lists of them are put in a row, and that tokens which do not
  compete are left as they are.

  Key definitions include:
    * `Token.written`
    * `Token.Apart`

  The main statements are:
    * `Token.settle_append`
    * `Token.settle_of_nodup`
-/

namespace AtomicCss.Token

/- The tokens of a list as they are written, without blank ones. -/
def written
    (tokens : List String) : List String :=
  (tokens.map Text.trimmed).filter (· ≠ "")

/- Whether no token of a list competes with one of another list. -/
def Apart
    (xs ys : List String) : Prop :=
  ∀ x ∈ written xs, ∀ y ∈ written ys, place x ≠ place y

instance
    (xs ys : List String) :
    Decidable (Apart xs ys) :=
  inferInstanceAs (Decidable (∀ x ∈ _, ∀ y ∈ _, _))

/- The written tokens with what they compete for. -/
def placed
    (tokens : List String) : List (String × String) :=
  (written tokens).map (fun t => (place t, t))

theorem placed_append
    (xs ys : List String) :
    placed (xs ++ ys) = placed xs ++ placed ys := by
  simp [placed, written]

theorem settle_eq
    (tokens : List String) :
    settle tokens = (OrderedMap.ofList (placed tokens)).values :=
  rfl

/- Lists whose tokens do not compete are settled on their own. -/
theorem settle_append
    {xs ys : List String}
    (hApart : Apart xs ys) :
    settle (xs ++ ys) = settle xs ++ settle ys := by
  have hPlaces :
      ∀ x ∈ placed xs, ∀ y ∈ placed ys, x.1 ≠ y.1 := by
    intro x hx y hy
    rcases List.mem_map.1 hx with ⟨x', hx', rfl⟩
    rcases List.mem_map.1 hy with ⟨y', hy', rfl⟩
    exact hApart x' hx' y' hy'
  rw [settle_eq, placed_append, OrderedMap.values,
    OrderedMap.entries_ofList_append hPlaces, List.map_append]
  rfl

/- Tokens of which no two compete stay as they are written. -/
theorem settle_of_nodup
    {tokens : List String}
    (hApart : ((written tokens).map place).Nodup) :
    settle tokens = written tokens := by
  have hKeys : ((placed tokens).map Prod.fst).Nodup := by
    rw [placed, List.map_map]
    exact hApart
  rw [settle_eq, OrderedMap.values, OrderedMap.entries_ofList hKeys,
    placed, List.map_map]
  exact List.map_id _

theorem written_perm
    {xs ys : List String}
    (hPerm : xs.Perm ys) :
    (written xs).Perm (written ys) :=
  (hPerm.map Text.trimmed).filter _

end AtomicCss.Token
