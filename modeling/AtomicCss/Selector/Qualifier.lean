import AtomicCss.Catalog
import AtomicCss.Text.Blank

/-
  This file defines qualifiers, the parts that a token's
  chain adds to a selector.

  A qualifier is written `parent >> local`. The parent stands
  in front of the whole selector. The local part follows it
  after a space, or directly if it begins with `&`.

  Key definitions include:
    * `Qualifier`
    * `Qualifier.ofText`
    * `Qualifier.ofName`
    * `Qualifier.attachment`
    * `Qualifier.parents`
-/

namespace AtomicCss

/- What one segment of a chain adds to a selector. -/
structure Qualifier where
  parent : Option String
  text : String
  adjacent : Bool
deriving DecidableEq

namespace Qualifier

/- The part in front of `>>`, if it has characters. -/
def parentOf
    (cs : List Char) : Option String :=
  let trimmed := Text.trim cs
  if trimmed.isEmpty then none else some (String.ofList trimmed)

/- A qualifier with a given parent and local part. -/
def ofLocal
    (parent : Option String)
    (cs : List Char) : Qualifier :=
  match Text.trimStart cs with
  | '&' :: rest => ⟨parent, String.ofList (Text.trimEnd rest), true⟩
  | rest => ⟨parent, String.ofList (Text.trimEnd rest), false⟩

/- The qualifier that a text writes. -/
def ofText
    (s : String) : Qualifier :=
  match Text.cutAt ['>', '>'] s.toList with
  | some (parent, rest) => ofLocal (parentOf parent) rest
  | none => ofLocal none s.toList

/-
  The qualifier of a name. A name that is not configured is
  the pseudo-class of that name.
-/
def ofName
    (catalog : Catalog)
    (name : String) : Qualifier :=
  match catalog.selectors.get? name with
  | some text => ofText text
  | none => ⟨none, ":" ++ name, true⟩

/- What a qualifier adds behind a selector. -/
def attachment
    (q : Qualifier) : String :=
  if q.text = "" then
    ""
  else if q.adjacent then
    q.text
  else
    " " ++ q.text

/- The parents of qualifiers, with spaces between them. -/
def parents
    (qualifiers : List Qualifier) : String :=
  String.intercalate " " (qualifiers.filterMap (·.parent))

end Qualifier

end AtomicCss
