/-
  This file defines cutting, searching and replacing in text.

  A search runs from left to right. At each place a rule may
  take some of the text; what it took is passed over, so that
  matches never overlap.

  Key definitions include:
    * `Text.cutAt`
    * `Text.cutAtLast`
    * `Text.occurs`
    * `Text.substitute`
    * `Text.collect`
    * `Text.replaceAll`
    * `Text.fillSlots`

  Occurrence is characterized by:
    * `Text.isSome_cutAt_iff`
-/

namespace AtomicCss.Text

------------------------------------------------------------
-- Cutting
------------------------------------------------------------

/- The parts before and after the first place of a marker. -/
def cutAt
    (marker : List Char) :
    List Char → Option (List Char × List Char)
  | [] => if marker.isEmpty then some ([], []) else none
  | c :: rest =>
      if marker.isPrefixOf (c :: rest) then
        some ([], (c :: rest).drop marker.length)
      else
        (cutAt marker rest).map (fun p => (c :: p.1, p.2))

/- Whether a text occurs inside another. -/
def occurs
    (needle hay : String) : Bool :=
  (cutAt needle.toList hay.toList).isSome

/- A text can be cut at its sublists and at nothing else. -/
theorem isSome_cutAt_iff
    (marker cs : List Char) :
    (cutAt marker cs).isSome = true ↔ marker <:+: cs := by
  induction cs with
  | nil =>
      cases marker <;> simp [cutAt]
  | cons c rest ih =>
      unfold cutAt
      split
      · rename_i h
        simpa using (List.isPrefixOf_iff_prefix.1 h).isInfix
      · rename_i h
        have h' : ¬ marker <+: c :: rest :=
          fun p => h (List.isPrefixOf_iff_prefix.2 p)
        rw [Option.isSome_map, ih, List.infix_cons_iff]
        simp [h']

/- The parts before and after the last place of a character. -/
def cutAtLast
    (mark : Char) :
    List Char → Option (List Char × List Char)
  | [] => none
  | c :: rest =>
      match cutAtLast mark rest with
      | some (before, after) => some (c :: before, after)
      | none => if c = mark then some ([], rest) else none

/- The parts of a text between occurrences of a character. -/
def splitAt
    (mark : Char)
    (s : String) : List String :=
  (s.toList.splitOn mark).map String.ofList

------------------------------------------------------------
-- Rules
------------------------------------------------------------

/-
  What a rule makes of the front of a text: its finding, and
  how many characters it takes.
-/
abbrev Rule (α : Type) :=
  List Char → Option (α × Nat)

/-
  Replace every match of a rule. The counter holds how much
  of the last match is still to be passed over.
-/
def substitute
    (rule : Rule (List Char)) : Nat → List Char → List Char
  | _, [] => []
  | n + 1, _ :: rest => substitute rule n rest
  | 0, c :: rest =>
      match rule (c :: rest) with
      | some (found, length) =>
          found ++ substitute rule (length - 1) rest
      | none => c :: substitute rule 0 rest

/- The findings of a rule, counting as `substitute` does. -/
def collect
    {α : Type}
    (rule : Rule α) : Nat → List Char → List α
  | _, [] => []
  | n + 1, _ :: rest => collect rule n rest
  | 0, c :: rest =>
      match rule (c :: rest) with
      | some (found, length) =>
          found :: collect rule (length - 1) rest
      | none => collect rule 0 rest

------------------------------------------------------------
-- Replacing
------------------------------------------------------------

/- The rule that finds a fixed text and puts another in its place. -/
def literal
    (needle fill : List Char) : Rule (List Char) :=
  fun cs =>
    if needle.isPrefixOf cs then some (fill, needle.length) else none

/- Write a text in place of every occurrence of another. -/
def replaceAll
    (needle fill text : String) : String :=
  String.ofList
    (substitute (literal needle.toList fill.toList) 0 text.toList)

/- Write a text in place of every occurrence of a character. -/
def fillSlots
    (slot : Char)
    (fill : List Char)
    (cs : List Char) : List Char :=
  cs.flatMap (fun c => if c = slot then fill else [c])

/- `fillSlots` on strings. -/
def fillText
    (slot : Char)
    (fill text : String) : String :=
  String.ofList (fillSlots slot fill.toList text.toList)

end AtomicCss.Text
