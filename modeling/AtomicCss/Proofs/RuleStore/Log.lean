import AtomicCss.Proofs.Batch.Gathered
import AtomicCss.Proofs.Merging
import Mathlib.Data.List.DropRight

/-
  This file proves that a store is determined by the log of
  what was asked of it and what it answered.

  What it has seen are the rules that were new since it was
  last cleared, and what it has gathered are those that were
  new since the last pass began.

  Key definitions include:
    * `Rule.SameAs`
    * `RuleStore.Request`
    * `RuleStore.Entry`
    * `RuleStore.insertInPlace`
    * `RuleStore.perform`
    * `RuleStore.history`
    * `RuleStore.newSince`
    * `RuleStore.Records`

  The main statements are:
    * `Declarations.text_eq_empty_iff`
    * `Rule.entries_gathered_map`
    * `RuleStore.insertInPlace_cases`
    * `RuleStore.insert_eq_insertInPlace`
    * `RuleStore.Records.perform`
    * `RuleStore.records_history`
    * `RuleStore.store_behaves_as_its_log`
-/

namespace AtomicCss

------------------------------------------------------------
-- Texts of declarations
------------------------------------------------------------

/- Only where nothing is declared is there no text. -/
theorem Declarations.text_eq_empty_iff
    (d : Declarations) :
    d.text = "" ↔ d.isEmpty = true := by
  unfold text isEmpty OrderedMap.isEmpty
  cases d.properties.entries with
  | nil => exact iff_of_true rfl rfl
  | cons e rest =>
      refine iff_of_false ?_ Bool.false_ne_true
      intro hEmpty
      rw [List.map_cons, String.join_cons,
        String.append_eq_empty_iff] at hEmpty
      have hEntry := hEmpty.1
      simp [entryText, String.append_eq_empty_iff] at hEntry

------------------------------------------------------------
-- Rules that are told apart
------------------------------------------------------------

/- Whether rules have one breakpoint, selector and text. -/
def Rule.SameAs
    (w r : Rule) : Prop :=
  w.breakpoint = r.breakpoint ∧
    w.selector = r.selector ∧
    w.declarations.text = r.declarations.text

theorem Rule.fingerprint_eq_iff
    (w r : Rule) :
    w.fingerprint = r.fingerprint ↔ w.SameAs r := by
  simp [fingerprint, RuleStore.fingerprint, SameAs]

------------------------------------------------------------
-- Gathered rules as lists
------------------------------------------------------------

/-
  Gathered rules stand by breakpoint and by selector, both in
  order of first occurrence, each selector with its own rules
  laid over each other.
-/
theorem Rule.entries_gathered_map
    (rules : List Rule) :
    (gathered rules).entries.map (fun e => (e.1, e.2.entries)) =
      (rules.map breakpoint).eraseDups.map
        (fun name => (name, blocksAt rules name)) := by
  let value (name : String) := ((gathered rules).get? name).getD ∅
  have hKeys :
      (gathered rules).keys = (rules.map breakpoint).eraseDups :=
    OrderedMap.keys_foldl_upsert breakpoint _ rules
  have hValue :
      ∀ name ∈ (gathered rules).keys,
        (gathered rules).get? name = some (value name) := by
    intro name hName
    rcases (OrderedMap.mem_keys_iff_exists _ _).1 hName with
      ⟨selected, hFound⟩
    simp [value, hFound]
  rw [OrderedMap.entries_eq_map_keys _ value hValue, hKeys,
    List.map_map]
  apply List.map_congr_left
  intro name _
  exact Prod.ext rfl (entries_gathered rules name)

theorem Rule.gathered_append_singleton
    (rules : List Rule)
    (r : Rule) :
    gathered (rules ++ [r]) =
      RuleStore.gather (gathered rules)
        r.breakpoint r.selector r.declarations := by
  simp [gathered]

namespace RuleStore

------------------------------------------------------------
-- Logs
------------------------------------------------------------

/- What can be asked of a store. -/
inductive Request where
  | insert (r : Rule)
  | beginPass
  | clear
deriving DecidableEq

/- What was asked of a store, with what it answered. -/
inductive Entry where
  | inserted (r : Rule) (answer : Except Error Bool)
  | passBegun
  | cleared

/-
  Insert a rule into a store that is changed in place, and so
  keeps whatever was written to it before an error or a
  refusal. A rule is marked as seen in the same step that
  tells whether it was.
-/
def insertInPlace
    (r : Rule) : ExceptT Error (StateM RuleStore) Bool := do
  if r.declarations.isEmpty then
    throw (.emptyDeclarations r.breakpoint r.selector)
  else
    let known ← modifyGet (fun s =>
      (s.seen.contains r.fingerprint,
        { s with seen := s.seen.insert r.fingerprint () }))
    if known then
      return false
    else
      modify (fun s =>
        { s with
          working :=
            gather s.working r.breakpoint r.selector r.declarations })
      return true

/- Do what is asked for, and log it. -/
def perform
    (s : RuleStore) : Request → Entry × RuleStore
  | .insert r =>
      let (answer, t) := insertInPlace r s
      (.inserted r answer, t)
  | .beginPass => (.passBegun, s.beginPass)
  | .clear => (.cleared, s.clear)

/- The log of requests to an empty store, and the store after them. -/
def history
    (requests : List Request) : List Entry × RuleStore :=
  requests.foldl
    (fun h request =>
      let (entry, s) := h.2.perform request
      (h.1 ++ [entry], s))
    ([], .empty)

theorem history_append_singleton
    (requests : List Request)
    (request : Request) :
    history (requests ++ [request]) =
      ((history requests).1 ++
          [((history requests).2.perform request).1],
        ((history requests).2.perform request).2) := by
  simp [history]

namespace Entry

/- The rule that an entry tells to be new, if it does. -/
def new? : Entry → Option Rule
  | .inserted r (.ok true) => some r
  | _ => none

/- Whether a store has forgotten all it had seen. -/
def isCleared : Entry → Bool
  | .cleared => true
  | _ => false

/- Whether a store has forgotten all it had gathered. -/
def startsPass : Entry → Bool
  | .passBegun => true
  | .cleared => true
  | .inserted _ _ => false

end Entry

/- The rules that were new after the last entry of a kind. -/
def newSince
    (last : Entry → Bool)
    (log : List Entry) : List Rule :=
  (log.rtakeWhile (fun entry => !last entry)).filterMap Entry.new?

theorem newSince_append_singleton
    (last : Entry → Bool)
    (log : List Entry)
    (entry : Entry) :
    newSince last (log ++ [entry]) =
      if last entry then []
      else newSince last log ++ entry.new?.toList := by
  unfold newSince
  rw [List.rtakeWhile_concat]
  cases last entry with
  | true => rfl
  | false =>
      cases hNew : entry.new? <;> simp [hNew]

/- The rules that were new since the store was cleared. -/
def known
    (log : List Entry) : List Rule :=
  newSince Entry.isCleared log

/- The rules that were new since the pass began. -/
def current
    (log : List Entry) : List Rule :=
  newSince Entry.startsPass log

------------------------------------------------------------
-- What an insert does
------------------------------------------------------------

/- To mark a rule again that was seen changes nothing. -/
theorem insert_seen_of_knows
    {s : RuleStore}
    {r : Rule}
    (hKnown : s.Knows r) :
    s.seen.insert r.fingerprint () = s.seen := by
  rcases Option.isSome_iff_exists.1 hKnown with ⟨v, hFound⟩
  exact OrderedMap.insert_of_get? hFound

/- A rule with declarations is marked, and put if it is new. -/
theorem insertInPlace_of_declares
    (s : RuleStore)
    {r : Rule}
    (hDeclares : r.Declares) :
    insertInPlace r s =
      if s.Knows r then
        (.ok false,
          { s with seen := s.seen.insert r.fingerprint () })
      else
        (.ok true, s.put r) := by
  unfold insertInPlace
  rw [if_neg (Bool.eq_false_iff.1 hDeclares)]
  -- What is answered was read off the store before the mark.
  change
    (if s.Knows r then _ else _ :
        ExceptT Error (StateM RuleStore) Bool)
      { s with seen := s.seen.insert r.fingerprint () } = _
  by_cases hKnown : s.Knows r
  · rw [if_pos hKnown, if_pos hKnown]
    rfl
  · rw [if_neg hKnown, if_neg hKnown]
    rfl

/-
  An insert fails without declarations, it is refused if the
  rule was seen, and otherwise it puts the rule.
-/
theorem insertInPlace_cases
    (s : RuleStore)
    (r : Rule) :
    (insertInPlace r s =
        (.error (.emptyDeclarations r.breakpoint r.selector), s) ∧
      ¬ r.Declares) ∨
    (insertInPlace r s = (.ok false, s) ∧
      r.Declares ∧ s.Knows r) ∨
    (insertInPlace r s = (.ok true, s.put r) ∧
      r.Declares ∧ ¬ s.Knows r) := by
  by_cases hDeclares : r.Declares
  · have hRun := s.insertInPlace_of_declares hDeclares
    by_cases hKnown : s.Knows r
    · rw [if_pos hKnown, insert_seen_of_knows hKnown] at hRun
      exact Or.inr (Or.inl ⟨hRun, hDeclares, hKnown⟩)
    · rw [if_neg hKnown] at hRun
      exact Or.inr (Or.inr ⟨hRun, hDeclares, hKnown⟩)
  · refine Or.inl ⟨?_, hDeclares⟩
    unfold insertInPlace
    rw [if_pos (r.not_declares_iff.1 hDeclares)]
    rfl

/- In place, an insert does what it does to a copy. -/
theorem insert_eq_insertInPlace
    (s : RuleStore)
    (r : Rule) :
    s.insert r.breakpoint r.selector r.declarations =
      (insertInPlace r s).1.map
        (fun new => (new, (insertInPlace r s).2)) := by
  unfold insert
  rcases insertInPlace_cases s r with
    ⟨hFailed, hEmpty⟩ | ⟨hRefused, hDeclares, hKnown⟩ |
      ⟨hPut, hDeclares, hNew⟩
  · rw [hFailed, if_pos (r.not_declares_iff.1 hEmpty)]
    rfl
  · rw [hRefused, if_neg (Bool.eq_false_iff.1 hDeclares)]
    exact if_pos hKnown
  · rw [hPut, if_neg (Bool.eq_false_iff.1 hDeclares)]
    exact if_neg hNew

------------------------------------------------------------
-- Stores and their logs
------------------------------------------------------------

/- Whether a store holds just what a log tells. -/
structure Records
    (s : RuleStore)
    (log : List Entry) : Prop where
  seen : s.seen.keys = (known log).map Rule.fingerprint
  working : s.working = Rule.gathered (current log)
  declares : ∀ r ∈ known log, r.Declares

theorem records_empty :
    empty.Records [] where
  seen := rfl
  working := rfl
  declares := fun _ hr => nomatch hr

namespace Records

variable {s : RuleStore} {log : List Entry}

/- A store knows the rules that its log has a copy of. -/
theorem knows_iff
    (h : s.Records log)
    (r : Rule) :
    s.Knows r ↔ ∃ w ∈ known log, w.SameAs r := by
  rw [Knows, OrderedMap.contains_iff_mem_keys, h.seen,
    List.mem_map]
  simp only [Rule.fingerprint_eq_iff]

/- A rule without declarations is the same as none that was new. -/
theorem declares_of_same
    (h : s.Records log)
    {r : Rule}
    (hSame : ∃ w ∈ known log, w.SameAs r) :
    r.Declares := by
  rcases hSame with ⟨w, hw, _, _, hText⟩
  have hDeclares := h.declares w hw
  unfold Rule.Declares at hDeclares ⊢
  rw [Bool.eq_false_iff, ne_eq,
    ← Declarations.text_eq_empty_iff] at hDeclares ⊢
  rwa [← hText]

/- An entry that tells of no new rule leaves a store recorded. -/
theorem append_idle
    (h : s.Records log)
    {entry : Entry}
    (hNew : entry.new? = none)
    (hPass : entry.startsPass = false)
    (hCleared : entry.isCleared = false) :
    s.Records (log ++ [entry]) := by
  have hKnown : known (log ++ [entry]) = known log := by
    simp [known, newSince_append_singleton, hCleared, hNew]
  have hCurrent : current (log ++ [entry]) = current log := by
    simp [current, newSince_append_singleton, hPass, hNew]
  constructor
  · rw [hKnown]
    exact h.seen
  · rw [hCurrent]
    exact h.working
  · rw [hKnown]
    exact h.declares

/- A rule that is put is recorded as new. -/
theorem append_new
    (h : s.Records log)
    {r : Rule}
    (hDeclares : r.Declares)
    (hNew : ¬ s.Knows r) :
    (s.put r).Records (log ++ [.inserted r (.ok true)]) := by
  have hKnown :
      known (log ++ [.inserted r (.ok true)]) = known log ++ [r] := by
    apply newSince_append_singleton
  have hCurrent :
      current (log ++ [.inserted r (.ok true)]) =
        current log ++ [r] := by
    apply newSince_append_singleton
  have hFresh : r.fingerprint ∉ s.seen.keys :=
    mt (OrderedMap.contains_iff_mem_keys _ _).2 hNew
  constructor
  · rw [hKnown, List.map_append, ← h.seen]
    simp [put, OrderedMap.keys,
      OrderedMap.entries_insert_of_not_mem hFresh]
  · rw [hCurrent, Rule.gathered_append_singleton, ← h.working]
    rfl
  · intro w hw
    rw [hKnown] at hw
    rcases List.mem_append.1 hw with hOld | hLast
    · exact h.declares w hOld
    · rw [List.mem_singleton.1 hLast]
      exact hDeclares

/- Whatever is asked for, the store agrees with the longer log. -/
theorem perform
    (h : s.Records log)
    (request : Request) :
    (s.perform request).2.Records
      (log ++ [(s.perform request).1]) := by
  cases request with
  | insert r =>
      rcases insertInPlace_cases s r with
        ⟨hFailed, _⟩ | ⟨hRefused, _⟩ | ⟨hPut, hDeclares, hNew⟩
      · rw [RuleStore.perform, hFailed]
        exact h.append_idle rfl rfl rfl
      · rw [RuleStore.perform, hRefused]
        exact h.append_idle rfl rfl rfl
      · rw [RuleStore.perform, hPut]
        exact h.append_new hDeclares hNew
  | beginPass =>
      have hKnown : known (log ++ [.passBegun]) = known log := by
        simp [known, newSince_append_singleton, Entry.isCleared,
          Entry.new?]
      have hCurrent : current (log ++ [.passBegun]) = [] := by
        apply newSince_append_singleton
      constructor
      · exact h.seen.trans (congrArg _ hKnown.symm)
      · rw [RuleStore.perform, hCurrent]
        rfl
      · rw [RuleStore.perform, hKnown]
        exact h.declares
  | clear =>
      have hKnown : known (log ++ [.cleared]) = [] := by
        apply newSince_append_singleton
      have hCurrent : current (log ++ [.cleared]) = [] := by
        apply newSince_append_singleton
      constructor
      · rw [RuleStore.perform, hKnown]
        rfl
      · rw [RuleStore.perform, hCurrent]
        rfl
      · rw [RuleStore.perform, hKnown]
        exact fun _ hr => nomatch hr

end Records

/- So after any requests the store is what their log tells. -/
theorem records_history
    (requests : List Request) :
    (history requests).2.Records (history requests).1 := by
  induction requests using List.reverseRecOn with
  | nil => exact records_empty
  | append_singleton requests request ih =>
      rw [history_append_singleton]
      exact ih.perform request

/-
  After any requests to an empty store, it has seen as many
  rules as were new since it was last cleared. It has gathered
  those that were new since the last pass began or the store
  was cleared: by breakpoint and by selector in order of first
  occurrence, the rules of one selector laid over each other.

  An insert then fails exactly if nothing is declared. It is
  refused exactly if, since the store was last cleared, a rule
  was new that had the same breakpoint, selector and text. And
  it leaves the store as it was unless the rule is new.
-/
theorem store_behaves_as_its_log
    (requests : List Request) :
    let log := (history requests).1
    let s := (history requests).2
    s.seen.size = (known log).length ∧
    s.working.entries.map (fun e => (e.1, e.2.entries)) =
      ((current log).map Rule.breakpoint).eraseDups.map
        (fun name => (name, Rule.blocksAt (current log) name)) ∧
    ∀ r,
      let answer := (insertInPlace r s).1
      let after := (insertInPlace r s).2
      s.insert r.breakpoint r.selector r.declarations =
        answer.map (fun new => (new, after)) ∧
      ((∃ e, answer = .error e) ↔
        r.declarations.isEmpty = true) ∧
      (answer = .ok false ↔ ∃ w ∈ known log, w.SameAs r) ∧
      (answer = .ok true ∨ after = s) := by
  intro log s
  have hRecords : s.Records log := records_history requests
  refine ⟨?_, ?_, ?_⟩
  · have hLength := congrArg List.length hRecords.seen
    rw [OrderedMap.keys, List.length_map, List.length_map] at hLength
    exact hLength
  · rw [hRecords.working]
    exact Rule.entries_gathered_map _
  · intro r
    dsimp only
    refine ⟨insert_eq_insertInPlace s r, ?_⟩
    have hKnows := hRecords.knows_iff r
    rcases insertInPlace_cases s r with
      ⟨hFailed, hEmpty⟩ | ⟨hRefused, hDeclares, hKnown⟩ |
        ⟨hPut, hDeclares, hNew⟩
    · rw [hFailed]
      refine
        ⟨iff_of_true ⟨_, rfl⟩ (r.not_declares_iff.1 hEmpty),
          iff_of_false (by simp) ?_, Or.inr rfl⟩
      exact fun hSame => hEmpty (hRecords.declares_of_same hSame)
    · rw [hRefused]
      refine ⟨iff_of_false (by simp) ?_,
        iff_of_true rfl (hKnows.1 hKnown), Or.inr rfl⟩
      exact Bool.eq_false_iff.1 hDeclares
    · rw [hPut]
      refine ⟨iff_of_false (by simp) ?_,
        iff_of_false (by simp) (mt hKnows.2 hNew), Or.inl rfl⟩
      exact Bool.eq_false_iff.1 hDeclares

/- A rule is refused until the store is cleared. -/
example :
    let d : Declarations :=
      { properties := .ofList [("color", "red")] }
    let insert : Request := .insert ⟨"sm-up", ":host", d⟩
    (current (history [insert, .beginPass, insert]).1).length = 0 ∧
    (current (history [insert, .clear, insert]).1).length = 1 := by
  decide

end RuleStore

end AtomicCss
