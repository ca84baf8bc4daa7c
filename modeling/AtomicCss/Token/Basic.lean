import AtomicCss.Clause
import AtomicCss.OrderedMap
import AtomicCss.Text.Blank

/-
  This file defines tokens, the names that markup gives to
  declarations.

  In `md-up:hover:color=red!` the breakpoint is `md-up`, the
  chain of qualifiers is `hover`, the key is `color`, the
  value is `red`, and the mark at the end makes the
  declarations important.

  Key definitions include:
    * `Token`
    * `Token.cutImportant`
    * `Token.payloadOf?`
    * `Token.payload?`
    * `Token.identifier`
    * `Token.place`
    * `Token.settle`
-/

namespace AtomicCss

------------------------------------------------------------
-- Tokens
------------------------------------------------------------

/-
  A token taken apart. `raw` is its text, `breakpoint` a
  derived name, and `explicit` tells whether that name was
  written. A hosted token belongs to a shadow host.
-/
structure Token where
  raw : String
  breakpoint : String
  chain : List String
  key : String
  value : Option String
  important : Bool
  hosted : Bool
  explicit : Bool
deriving DecidableEq

namespace Token

/- The selector of a shadow host, and its place in a chain. -/
def host : String :=
  ":host"

/- A text without the mark at its end, and whether it had one. -/
def cutImportant
    (text : String) : String × Bool :=
  if text.toList.getLast? = some '!' then
    (String.ofList text.toList.dropLast, true)
  else
    (text, false)

/- What a value in parentheses encloses, on one line. -/
def payloadOf?
    (value : String) : Option String :=
  match value.toList with
  | '(' :: rest =>
      if rest.getLast? = some ')' ∧ '\n' ∉ rest.dropLast then
        some (String.ofList rest.dropLast)
      else
        none
  | _ => none

/- The payload of a token whose value is in parentheses. -/
def payload?
    (t : Token) : Option String :=
  t.value.bind payloadOf?

/- Whether a token has a payload. -/
def isParametric
    (t : Token) : Bool :=
  t.payload?.isSome

/- The part of a written value behind its separator. -/
def valueText : Option String → String
  | none => ""
  | some value => "=" ++ value

/-
  The text that an element's class list is searched for: the
  written breakpoint, the chain, the key and the value.
-/
def identifier
    (t : Token) : String :=
  let written := if t.explicit then [t.breakpoint] else []
  String.intercalate ":" (written ++ t.chain ++ [t.key]) ++
    valueText t.value

------------------------------------------------------------
-- Competing tokens
------------------------------------------------------------

/- What a token competes for: its text in front of the value. -/
def place
    (text : String) : String :=
  (Clause.ofText (cutImportant text).1).head

/-
  Settle tokens that compete. Of those with one place the
  last stays, where the first was written. Blank tokens are
  dropped.
-/
def settle
    (tokens : List String) : List String :=
  let written := (tokens.map Text.trimmed).filter (· ≠ "")
  (OrderedMap.ofList (written.map (fun t => (place t, t)))).values

end Token

end AtomicCss
