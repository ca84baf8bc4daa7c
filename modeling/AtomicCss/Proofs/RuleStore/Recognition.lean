import AtomicCss.Proofs.RuleStore.Log

/-
  This file proves when a rule that a store refuses is one
  that the store was given before.

  Rules are recognized by their text, in which a colon ends a
  name and a semicolon ends an entry. Declarations can be read
  back from it if no name has a colon and no value has a
  semicolon or ends in the mark of importance. Such
  declarations are recognized for what they are. Others may
  have the text of declarations that they do not agree with.

  Key definitions include:
    * `Declarations.Agrees`
    * `Declarations.IsLegible`

  The main statements are:
    * `Declarations.marked_inj`
    * `Declarations.text_eq_iff_agrees`
    * `RuleStore.refused_rules_were_new_before`
-/

namespace AtomicCss

------------------------------------------------------------
-- Texts with separators
------------------------------------------------------------

/- A text is cut in only one way at its first separator. -/
theorem Text.eq_of_append_cons_eq
    {separator : Char}
    {x y u v : List Char}
    (hx : separator ∉ x)
    (hy : separator ∉ y)
    (hSame : x ++ separator :: u = y ++ separator :: v) :
    x = y ∧ u = v := by
  induction x generalizing y with
  | nil =>
      cases y with
      | nil => exact ⟨rfl, (List.cons.inj hSame).2⟩
      | cons b y =>
          have hHead : separator = b := (List.cons.inj hSame).1
          exact absurd (hHead ▸ List.mem_cons_self) hy
  | cons a x ih =>
      cases y with
      | nil =>
          have hHead : a = separator := (List.cons.inj hSame).1
          exact absurd (hHead ▸ List.mem_cons_self) hx
      | cons b y =>
          rcases List.cons.inj hSame with ⟨hHead, hTail⟩
          have hRest :=
            ih (fun h => hx (List.mem_cons_of_mem a h))
              (fun h => hy (List.mem_cons_of_mem b h)) hTail
          exact ⟨congrArg₂ _ hHead hRest.1, hRest.2⟩

------------------------------------------------------------
-- Texts of declarations
------------------------------------------------------------

namespace Declarations

/-
  Whether declarations have the same properties with the same
  values in the same order, and the same important ones.
-/
def Agrees
    (a b : Declarations) : Prop :=
  a.properties = b.properties ∧
    ∀ property ∈ a.properties.keys,
      a.isImportant property = b.isImportant property

instance
    (a b : Declarations) :
    Decidable (a.Agrees b) :=
  inferInstanceAs (Decidable (_ ∧ _))

/- The mark of importance. -/
def mark : List Char :=
  "!important".toList

/- Whether an entry can be told from its text. -/
def LegibleEntry
    (e : String × String) : Prop :=
  ':' ∉ e.1.toList ∧ ';' ∉ e.2.toList ∧ ¬ mark <:+ e.2.toList

instance
    (e : String × String) :
    Decidable (LegibleEntry e) :=
  inferInstanceAs (Decidable (_ ∧ _ ∧ _))

/- Whether all entries can be told from their texts. -/
def IsLegible
    (d : Declarations) : Prop :=
  ∀ e ∈ d.properties.entries, LegibleEntry e

instance
    (d : Declarations) :
    Decidable d.IsLegible :=
  inferInstanceAs (Decidable (∀ e ∈ d.properties.entries, _))

/- What stands between the colon and the semicolon of an entry. -/
def marked
    (value : String)
    (important : Bool) : List Char :=
  value.toList ++ (if important then mark else [])

/- Unless values end in the mark, it shows which are important. -/
theorem marked_inj
    {v w : String}
    (hv : ¬ mark <:+ v.toList)
    (hw : ¬ mark <:+ w.toList)
    {i j : Bool}
    (hSame : marked v i = marked w j) :
    v = w ∧ i = j := by
  unfold marked at hSame
  cases i with
  | false =>
      rw [if_neg Bool.false_ne_true, List.append_nil] at hSame
      cases j with
      | false =>
          rw [if_neg Bool.false_ne_true, List.append_nil] at hSame
          exact ⟨String.toList_injective hSame, rfl⟩
      | true => exact absurd ⟨_, hSame.symm⟩ hv
  | true =>
      rw [if_pos rfl] at hSame
      cases j with
      | false =>
          rw [if_neg Bool.false_ne_true, List.append_nil] at hSame
          exact absurd ⟨_, hSame⟩ hw
      | true =>
          rw [if_pos rfl] at hSame
          exact ⟨String.toList_injective
            (List.append_cancel_right hSame), rfl⟩

theorem semicolon_not_mem_marked
    {v : String}
    (hv : ';' ∉ v.toList)
    (important : Bool) :
    ';' ∉ marked v important := by
  have hMark : ';' ∉ mark := by decide
  cases important <;> simp [marked, hv, hMark]

theorem toList_entryText
    (d : Declarations)
    (e : String × String) :
    (d.entryText e).toList =
      e.1.toList ++ ':' ::
        (marked e.2 (d.isImportant e.1) ++ [';']) := by
  unfold entryText marked
  simp only [String.toList_append, List.append_assoc]
  change e.1.toList ++ ([':'] ++ (e.2.toList ++ (_ ++ [';']))) = _
  split <;> rfl

/-
  Entries that can be told from their texts are told from the
  text of all of them. By induction on both lists: the first
  colon ends the first name and the next semicolon its entry.
-/
theorem entries_of_text_eq
    (a b : Declarations)
    {xs ys : List (String × String)}
    (hx : ∀ e ∈ xs, LegibleEntry e)
    (hy : ∀ e ∈ ys, LegibleEntry e)
    (hSame :
      xs.flatMap (fun e => (a.entryText e).toList) =
        ys.flatMap (fun e => (b.entryText e).toList)) :
    xs = ys ∧ ∀ e ∈ xs, a.isImportant e.1 = b.isImportant e.1 := by
  induction xs generalizing ys with
  | nil =>
      cases ys with
      | nil => exact ⟨rfl, fun _ he => nomatch he⟩
      | cons f ys =>
          simp [toList_entryText] at hSame
  | cons e xs ih =>
      cases ys with
      | nil => simp [toList_entryText] at hSame
      | cons f ys =>
          rcases List.forall_mem_cons.1 hx with
            ⟨⟨hColon, hSemicolon, hMark⟩, hxRest⟩
          rcases List.forall_mem_cons.1 hy with
            ⟨⟨hColon', hSemicolon', hMark'⟩, hyRest⟩
          rw [List.flatMap_cons, List.flatMap_cons,
            toList_entryText, toList_entryText] at hSame
          simp only [List.append_assoc, List.cons_append,
            List.nil_append] at hSame
          rcases Text.eq_of_append_cons_eq hColon hColon' hSame with
            ⟨hName, hBehind⟩
          rcases Text.eq_of_append_cons_eq
              (semicolon_not_mem_marked hSemicolon _)
              (semicolon_not_mem_marked hSemicolon' _) hBehind with
            ⟨hMarked, hLater⟩
          rcases marked_inj hMark hMark' hMarked with
            ⟨hValue, hImportant⟩
          rcases ih hxRest hyRest hLater with ⟨hRest, hAlike⟩
          have hEntry : e = f :=
            Prod.ext (String.toList_injective hName) hValue
          subst hEntry
          exact ⟨congrArg _ hRest,
            List.forall_mem_cons.2 ⟨hImportant, hAlike⟩⟩

/- Legible declarations have one text exactly if they agree. -/
theorem text_eq_iff_agrees
    {a b : Declarations}
    (ha : a.IsLegible)
    (hb : b.IsLegible) :
    a.text = b.text ↔ a.Agrees b := by
  constructor
  · intro hText
    have hSame := congrArg String.toList hText
    simp only [text, String.toList_join, List.flatMap_map] at hSame
    rcases entries_of_text_eq a b ha hb hSame with
      ⟨hEntries, hImportant⟩
    refine ⟨OrderedMap.ext hEntries, ?_⟩
    intro property hKey
    rcases List.mem_map.1 hKey with ⟨e, he, rfl⟩
    exact hImportant e he
  · rintro ⟨hProperties, hImportant⟩
    unfold text
    rw [← hProperties]
    apply congrArg
    apply List.map_congr_left
    intro e he
    have hSame := hImportant e.1 (List.mem_map_of_mem he)
    rw [entryText, entryText, hSame]

end Declarations

------------------------------------------------------------
-- Refused rules
------------------------------------------------------------

namespace RuleStore

/- Only a rule that was seen is refused. -/
theorem knows_of_insert_eq_false
    {s after : RuleStore}
    {r : Rule}
    (hRefused :
      s.insert r.breakpoint r.selector r.declarations =
        .ok (false, after)) :
    s.Knows r := by
  rw [insert_eq_insertInPlace] at hRefused
  rcases insertInPlace_cases s r with
    ⟨hFailed, _⟩ | ⟨_, _, hKnown⟩ | ⟨hPut, _⟩
  · rw [hFailed] at hRefused
    cases hRefused
  · exact hKnown
  · rw [hPut] at hRefused
    cases hRefused

/-
  After any requests to an empty store, a rule is refused only
  if one with its breakpoint, selector and text was new since
  the store was last cleared. If both are legible, then their
  declarations agree: they have the same properties with the
  same values in the same order, of which the same are
  important.
-/
theorem refused_rules_were_new_before
    (requests : List Request)
    {r : Rule}
    {after : RuleStore}
    (hRefused :
      (history requests).2.insert
        r.breakpoint r.selector r.declarations =
          .ok (false, after)) :
    ∃ w ∈ known (history requests).1,
      w.breakpoint = r.breakpoint ∧
      w.selector = r.selector ∧
      w.declarations.text = r.declarations.text ∧
      (w.declarations.IsLegible → r.declarations.IsLegible →
        w.declarations.Agrees r.declarations) := by
  have hRecords := records_history requests
  rcases (hRecords.knows_iff r).1
      (knows_of_insert_eq_false hRefused) with
    ⟨w, hw, hBreakpoint, hSelector, hText⟩
  refine ⟨w, hw, hBreakpoint, hSelector, hText, ?_⟩
  intro hwLegible hrLegible
  exact (Declarations.text_eq_iff_agrees hwLegible hrLegible).1 hText

end RuleStore

/- A rule with two properties. -/
def Rule.spaced : Rule where
  breakpoint := "sm-up"
  selector := ".box"
  declarations :=
    { properties := .ofList [("color", "red"), ("margin", "0")] }

/- A rule whose only value has the text of a second entry. -/
def Rule.crammed : Rule where
  breakpoint := "sm-up"
  selector := ".box"
  declarations :=
    { properties := .ofList [("color", "red;margin:0")] }

namespace RuleStore

/- A legible rule that is refused in the next pass. -/
theorem refused_rules_were_new_before_of_spaced :
    let requests : List Request := [.insert .spaced, .beginPass]
    let r := Rule.spaced
    ∃ after,
      (history requests).2.insert
        r.breakpoint r.selector r.declarations =
          .ok (false, after) ∧
      r.declarations.IsLegible ∧
      ∃ w ∈ known (history requests).1,
        w.declarations.IsLegible ∧
        w.declarations.Agrees r.declarations := by
  intro requests r
  have hRefused :
      (history requests).2.insert
        r.breakpoint r.selector r.declarations =
          .ok (false, (history requests).2) := by decide
  have hLegible : r.declarations.IsLegible := by decide
  rcases refused_rules_were_new_before requests hRefused with
    ⟨w, hw, _, _, _, hAgrees⟩
  have hNew : ∀ w ∈ known (history requests).1,
      w.declarations.IsLegible := by decide
  exact ⟨_, hRefused, hLegible, w, hw, hNew w hw,
    hAgrees (hNew w hw) hLegible⟩

/-
  A rule that was never inserted is refused, because another
  one has its text.
-/
theorem rule_is_refused_for_the_text_of_another :
    let requests : List Request := [.insert .crammed, .beginPass]
    let r := Rule.spaced
    r.Declares ∧
    (∃ after,
      (history requests).2.insert
        r.breakpoint r.selector r.declarations =
          .ok (false, after)) ∧
    ∀ w, .insert w ∈ requests →
      ¬ w.declarations.Agrees r.declarations := by
  intro requests r
  refine ⟨rfl, ⟨(history requests).2, by decide⟩, ?_⟩
  intro w hw
  rcases List.mem_cons.1 hw with hFirst | hOther
  · cases hFirst
    decide
  · cases List.mem_singleton.1 hOther

end RuleStore

end AtomicCss
