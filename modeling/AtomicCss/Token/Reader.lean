import AtomicCss.Cascade
import AtomicCss.Catalog
import AtomicCss.Token.Basic

/-
  This file defines reading tokens.

  A token is `breakpoint:qualifier:…:key=value!`, where all
  parts but the key may be left out. Text that names no
  utility is no token.

  Key definitions include:
    * `Token.Head`
    * `Token.Head.ofText`
    * `Token.read?`
-/

namespace AtomicCss.Token

------------------------------------------------------------
-- Heads
------------------------------------------------------------

/- The part of a token in front of its value. -/
structure Head where
  breakpoint : Breakpoint
  explicit : Bool
  segments : List String

/-
  The head that a text writes: the longest derived name that
  opens it, or the minimum, and the segments between colons.
-/
def Head.ofText
    (cascade : Cascade)
    (text : String) : Head :=
  let cs := text.toList
  let segments (cs : List Char) : List String :=
    ((cs.splitOn ':').filter (fun s => !s.isEmpty)).map String.ofList
  match cascade.longestOpening? cs with
  | some b =>
      { breakpoint := b
        explicit := true
        segments := segments (cs.drop b.name.toList.length) }
  | none =>
      { breakpoint := cascade.minimum
        explicit := false
        segments := segments cs }

------------------------------------------------------------
-- Tokens
------------------------------------------------------------

/-
  The chain of a token. A hosted token without qualifiers
  addresses the host.
-/
def chainOf
    (hosted : Bool)
    (qualifiers : List String) : List String :=
  if hosted && qualifiers.isEmpty then [host] else qualifiers

/- The token that a text writes, if it names a utility. -/
def read?
    (cascade : Cascade)
    (catalog : Catalog)
    (hosted : Bool)
    (text : String) : Option Token :=
  let raw := Text.trimmed text
  let (body, important) := cutImportant raw
  let clause := Clause.ofText body
  let head := Head.ofText cascade clause.head
  match head.segments.getLast? with
  | none => none
  | some key =>
      if catalog.contains key then
        some
          { raw := raw
            breakpoint := head.breakpoint.name
            chain := chainOf hosted head.segments.dropLast
            key := key
            value := clause.value
            important := important
            hosted := hosted
            explicit := head.explicit }
      else
        none

end AtomicCss.Token
