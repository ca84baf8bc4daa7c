/-
  This file defines clauses, the notation `head=value` that
  tokens and override patterns share.

  The value follows the last `=` outside parentheses. A value
  without characters counts as no value.

  Key definitions include:
    * `Clause`
    * `Clause.depthAfter`
    * `Clause.cut`
    * `Clause.ofText`
-/

namespace AtomicCss

/- A head with an optional value. -/
structure Clause where
  head : String
  value : Option String
deriving DecidableEq

namespace Clause

/-
  The number of open parentheses after one more character. A
  stray closing one changes nothing.
-/
def depthAfter
    (depth : Nat)
    (c : Char) : Nat :=
  if c = '(' then
    depth + 1
  else if c = ')' then
    depth - 1
  else
    depth

/-
  The parts before and after the last `=` outside parentheses,
  given how many are open in front of the text.
-/
def cut
    (depth : Nat) :
    List Char → Option (List Char × List Char)
  | [] => none
  | c :: rest =>
      match cut (depthAfter depth c) rest with
      | some (head, value) => some (c :: head, value)
      | none =>
          if c = '=' ∧ depth = 0 then some ([], rest) else none

/- The clause that a text writes. -/
def ofText
    (text : String) : Clause :=
  match cut 0 text.toList with
  | none => ⟨text, none⟩
  | some (head, value) =>
      { head := String.ofList head
        value :=
          if value.isEmpty then none else some (String.ofList value) }

end Clause

end AtomicCss
