import AtomicCss.Breakpoint
import AtomicCss.Error
import AtomicCss.OrderedMap

/-
  This file defines the cascade: all breakpoints derived from
  a configuration, in the order in which their rules apply.

  Upward variants come first, with rising thresholds. The
  downward ones follow with falling thresholds. A downward
  variant ends just below the next configured threshold, so
  the largest name has none.

  Key definitions include:
    * `Cascade`
    * `Cascade.build?`
    * `Cascade.variants`
    * `Cascade.breakpoints`
    * `Cascade.minimum`
    * `Cascade.maximum`
    * `Cascade.get?`
    * `Cascade.nearest`
    * `Cascade.longestOpening?`

  The shape of the cascade rests on:
    * `Stop.sort_perm`
    * `Cascade.length_breakpoints`
    * `Cascade.minimum_rank`
-/

namespace AtomicCss

------------------------------------------------------------
-- Configured thresholds
------------------------------------------------------------

/- A configured name with its threshold. -/
abbrev Stop :=
  String × Float

namespace Stop

/- Place a stop in a sorted list, in front of equal ones. -/
def insert
    (s : Stop) : List Stop → List Stop
  | [] => [s]
  | t :: rest =>
      if Number.orderKey s.2 ≤ Number.orderKey t.2 then
        s :: t :: rest
      else
        t :: insert s rest

/- Sort stops by threshold; equal ones keep their order. -/
def sort : List Stop → List Stop
  | [] => []
  | s :: rest => insert s (sort rest)

theorem insert_perm
    (s : Stop)
    (stops : List Stop) :
    (insert s stops).Perm (s :: stops) := by
  induction stops with
  | nil => exact List.Perm.refl _
  | cons t rest ih =>
      unfold insert
      split
      · exact List.Perm.refl _
      · exact (ih.cons t).trans (List.Perm.swap s t rest)

/- Sorting loses and adds nothing. -/
theorem sort_perm
    (stops : List Stop) :
    (sort stops).Perm stops := by
  induction stops with
  | nil => exact List.Perm.refl _
  | cons s rest ih =>
      exact (insert_perm s (sort rest)).trans (ih.cons s)

end Stop

------------------------------------------------------------
-- The cascade
------------------------------------------------------------

/- The configured stops, sorted; at least one, names distinct. -/
structure Cascade where
  stops : List Stop
  stops_ne_nil : stops ≠ []
  nodup_names : (stops.map Prod.fst).Nodup
deriving DecidableEq

namespace Cascade

/-
  The cascade of a configuration, which has to name at least
  one breakpoint and only finite thresholds.
-/
def build?
    (config : OrderedMap String Float) : Except Error Cascade :=
  if h : config.entries = [] then
    .error .noBreakpoints
  else
    match config.entries.find? (fun e => !e.2.isFinite) with
    | some (name, _) => .error (.invalidBreakpoint name)
    | none =>
        .ok
          { stops := Stop.sort config.entries
            stops_ne_nil := fun h' =>
              h ((h' ▸ Stop.sort_perm config.entries).nil_eq.symm)
            nodup_names :=
              ((Stop.sort_perm config.entries).map
                Prod.fst).nodup_iff.2 config.nodup_keys }

/- How far below the next threshold a downward variant ends. -/
def gap : Float :=
  0.02

/- The upward variants, thresholds rising. -/
def ups
    (c : Cascade) : List Variant :=
  c.stops.map (fun s => ⟨s.1, .up, s.2⟩)

/- The downward variants, thresholds falling. -/
def downs
    (c : Cascade) : List Variant :=
  ((c.stops.zip c.stops.tail).map (fun p =>
    ⟨p.1.1, .down, Number.roundCents (p.2.2 - gap)⟩)).reverse

/- All variants in cascade order. -/
def variants
    (c : Cascade) : List Variant :=
  c.ups ++ c.downs

/- All breakpoints in cascade order, ranked by place. -/
def breakpoints
    (c : Cascade) : List Breakpoint :=
  c.variants.mapIdx (fun i v => ⟨v, i⟩)

/- A name has two variants, but the largest has one. -/
theorem length_breakpoints
    (c : Cascade) :
    c.breakpoints.length = 2 * c.stops.length - 1 := by
  have h : c.stops.length ≠ 0 := fun h =>
    c.stops_ne_nil (List.length_eq_zero_iff.1 h)
  simp only [breakpoints, variants, ups, downs,
    List.length_mapIdx, List.length_append, List.length_map,
    List.length_reverse, List.length_zip, List.length_tail]
  omega

theorem breakpoints_ne_nil
    (c : Cascade) :
    c.breakpoints ≠ [] := by
  have h : c.stops.length ≠ 0 := fun h =>
    c.stops_ne_nil (List.length_eq_zero_iff.1 h)
  intro h'
  have := c.length_breakpoints
  rw [h', List.length_nil] at this
  omega

------------------------------------------------------------
-- Looking up
------------------------------------------------------------

/- The first breakpoint, active at every width. -/
def minimum
    (c : Cascade) : Breakpoint :=
  c.breakpoints.head c.breakpoints_ne_nil

/- The first breakpoint has the first rank. -/
theorem minimum_rank
    (c : Cascade) :
    c.minimum.rank = 0 := by
  have hpos : 0 < c.breakpoints.length :=
    List.length_pos_iff.2 c.breakpoints_ne_nil
  have h : c.minimum = c.breakpoints[0] :=
    List.head_eq_getElem c.breakpoints_ne_nil
  rw [h]
  exact congrArg Breakpoint.rank List.getElem_mapIdx

/- The last upward breakpoint. -/
def maximum
    (c : Cascade) : Breakpoint :=
  ((c.breakpoints.filter (fun b => b.direction = .up)).getLast?).getD
    c.minimum

/- The breakpoint of a derived name. -/
def get?
    (c : Cascade)
    (name : String) : Option Breakpoint :=
  c.breakpoints.find? (fun b => b.name = name)

/- Whether a derived name belongs to the cascade. -/
def contains
    (c : Cascade)
    (name : String) : Bool :=
  (c.get? name).isSome

/- The media condition of a derived name. -/
def mediaQuery?
    (c : Cascade)
    (name : String) : Option String :=
  (c.get? name).map (fun b => b.mediaQuery)

/-
  The breakpoint of a derived name, or the upward one of a
  configured name, or the minimum.
-/
def nearest
    (c : Cascade)
    (name : String) : Breakpoint :=
  match c.get? name with
  | some b => b
  | none =>
      (c.breakpoints.find?
        (fun b => b.direction = .up && b.base = name)).getD c.minimum

/- Whether the thresholds of two derived names are in a relation. -/
def compare
    (c : Cascade)
    (current : String)
    (relation : Comparison)
    (target : String) : Bool :=
  match c.get? current, c.get? target with
  | some a, some b => relation.holds a.threshold b.threshold
  | _, _ => false

/- The last upward breakpoint that is active at a width. -/
def forWidth
    (c : Cascade)
    (width : Float) : Breakpoint :=
  ((c.breakpoints.filter
    (fun b => b.direction = .up && b.threshold ≤ width)).getLast?).getD
    c.minimum

------------------------------------------------------------
-- Names at the front of a text
------------------------------------------------------------

/- Whether a name stands at the front, up to a colon or the end. -/
def opens
    (name text : List Char) : Bool :=
  name.isPrefixOf text &&
    match text.drop name.length with
    | [] => true
    | c :: _ => c = ':'

/- The longer of two breakpoints by name, the second if even. -/
def longer
    (best : Option Breakpoint)
    (b : Breakpoint) : Option Breakpoint :=
  match best with
  | none => some b
  | some a =>
      if a.name.toList.length ≤ b.name.toList.length then
        some b
      else
        some a

/- The breakpoint with the longest name that opens a text. -/
def longestOpening?
    (c : Cascade)
    (text : List Char) : Option Breakpoint :=
  (c.breakpoints.filter
    (fun b => opens b.name.toList text)).foldl longer none

end Cascade

end AtomicCss
