import AtomicCss.Selector.Escape
import AtomicCss.Selector.Qualifier
import AtomicCss.Token.Basic

/-
  This file defines the selectors of tokens.

  In a document the subject is the utility's own selector
  list, or the elements whose class list has the token. In a
  shadow tree it is that list or the host, whose states and
  contexts are written as its arguments.

  Key definitions include:
    * `Selector.entries`
    * `Selector.subjects`
    * `Selector.inDocument`
    * `Selector.splitState`
    * `Selector.inShadow`
    * `Selector.build`
-/

namespace AtomicCss.Selector

------------------------------------------------------------
-- Subjects
------------------------------------------------------------

/- The entries of a selector list. -/
def entries
    (list : String) : List String :=
  ((Text.splitAt ',' list).map Text.trimmed).filter (· ≠ "")

/-
  What matches the elements that carry a token: its class
  name if it has a payload, and otherwise its identifier
  within the class list.
-/
def ofClass
    (t : Token) : String :=
  if t.isParametric then
    "." ++ String.ofList (escape t.raw.toList)
  else
    "[class*=" ++ quote t.identifier ++ "]"

/- The subjects of a token in a document. -/
def subjects
    (t : Token)
    (u : Utility) : List String :=
  match u.selector with
  | some list => entries list
  | none => [ofClass t]

------------------------------------------------------------
-- Documents
------------------------------------------------------------

/- Parents in front of a selector. -/
def leading
    (parents : String) : String :=
  if parents = "" then "" else parents ++ " "

/- The selector of one subject in a document. -/
def inDocument
    (qualifiers : List Qualifier)
    (subject : String) : String :=
  leading (Qualifier.parents qualifiers) ++ subject ++
    String.join (qualifiers.map Qualifier.attachment)

------------------------------------------------------------
-- Shadow trees
------------------------------------------------------------

/-
  The states of a host and what follows it. Directly attached
  qualifiers are states until something follows the host.
-/
def splitState
    (qualifiers : List Qualifier) : String × String :=
  qualifiers.foldl
    (fun acc q =>
      if q.adjacent ∧ acc.2 = "" then
        (acc.1 ++ q.text, acc.2)
      else
        (acc.1, acc.2 ++ q.attachment))
    ("", "")

/- A host with states, in a context. -/
def hostHead
    (context state : String) : String :=
  if context ≠ "" then
    ":host-context(" ++ context ++ ")" ++ state
  else if state ≠ "" then
    ":host(" ++ state ++ ")"
  else
    Token.host

/- The selector of one subject in a shadow tree. -/
def inShadow
    (qualifiers : List Qualifier)
    (subject : String) : String :=
  let context := Qualifier.parents qualifiers
  if subject = Token.host then
    let (state, rest) := splitState qualifiers
    hostHead context state ++ rest
  else
    let head :=
      if context = "" then "" else ":host-context(" ++ context ++ ") "
    head ++ subject ++
      String.join (qualifiers.map Qualifier.attachment)

------------------------------------------------------------
-- Tokens
------------------------------------------------------------

/- The qualifiers of a chain. -/
def qualifiersOf
    (catalog : Catalog)
    (chain : List String) : List Qualifier :=
  chain.map (Qualifier.ofName catalog)

/- The selector of a token whose key has a given utility. -/
def build
    (catalog : Catalog)
    (t : Token)
    (u : Utility) : String :=
  if t.hosted then
    let chain := t.chain.filter (· ≠ Token.host)
    let subjects :=
      match u.selector with
      | some list => entries list
      | none => [Token.host]
    String.intercalate ","
      (subjects.map (inShadow (qualifiersOf catalog chain)))
  else
    String.intercalate ","
      ((subjects t u).map (inDocument (qualifiersOf catalog t.chain)))

end AtomicCss.Selector
