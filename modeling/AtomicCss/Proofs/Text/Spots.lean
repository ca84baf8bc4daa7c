import AtomicCss.Text.Search

/-
  This file defines where the end of a CSS text stands: in the
  open, behind a backslash, in a string or in a comment.

  A string ends at its own quote or at the end of its line. A
  backslash marks the character behind it, which then is no
  quote, in a string as well as outside.

  Key definitions include:
    * `Text.Spot`
    * `Text.Spot.next`
    * `Text.Spot.isOpen`
    * `Text.Spot.isEnclosed`
    * `Text.spotAfter`
-/

namespace AtomicCss.Text

/-
  Where a text ends. A slash may begin a comment and a star
  may end one. Strings have double or single quotes.
-/
inductive Spot where
  | plain
  | marked
  | slash
  | comment
  | star
  | quoted (double : Bool)
  | quotedMarked (double : Bool)
deriving DecidableEq

namespace Spot

/- The two quotes. -/
def quoteChar
    (double : Bool) : Char :=
  if double then '"' else '\x27'

/- Whether a character ends its line. -/
def endsLine
    (c : Char) : Bool :=
  c = '\n' || c = '\r' || c = '\x0c'

/- The spot behind a character outside strings and comments. -/
def behind
    (c : Char) : Spot :=
  if c = '\\' then
    .marked
  else if c = '/' then
    .slash
  else if c = quoteChar true then
    .quoted true
  else if c = quoteChar false then
    .quoted false
  else
    .plain

/- The spot behind one more character. -/
def next : Spot → Char → Spot
  | .plain, c => behind c
  | .marked, _ => .plain
  | .slash, c => if c = '*' then .comment else behind c
  | .comment, c => if c = '*' then .star else .comment
  | .star, c =>
      if c = '/' then .plain
      else if c = '*' then .star
      else .comment
  | .quoted double, c =>
      if c = '\\' then .quotedMarked double
      else if c = quoteChar double || endsLine c then .plain
      else .quoted double
  | .quotedMarked double, _ => .quoted double

/- Whether what follows stands for itself, outside all of these. -/
def isOpen : Spot → Bool
  | .plain | .slash => true
  | _ => false

/- Whether a string or a comment has not ended. -/
def isEnclosed : Spot → Bool
  | .comment | .star | .quoted _ | .quotedMarked _ => true
  | _ => false

/- A blank leaves a backslash behind, but no string or comment. -/
theorem isOpen_next_blank
    (spot : Spot) :
    (spot.next ' ').isOpen = !spot.isEnclosed := by
  cases spot with
  | quoted double => cases double <;> rfl
  | _ => rfl

end Spot

/- Where a text ends that begins in the open. -/
def spotAfter
    (cs : List Char) : Spot :=
  cs.foldl Spot.next .plain

theorem spotAfter_concat
    (cs : List Char)
    (c : Char) :
    spotAfter (cs ++ [c]) = (spotAfter cs).next c :=
  List.foldl_append

end AtomicCss.Text
