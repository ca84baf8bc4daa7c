import AtomicCss.Clause
import AtomicCss.Error
import AtomicCss.Text.Search

/-
  This file defines the patterns under which properties are
  configured for tokens of several keys, values or
  breakpoints.

  A pattern is written `breakpoint:key=value`, where `*`
  stands for anything. Without a breakpoint it holds at all
  of them; without a value it holds for tokens without one.

  Key definitions include:
    * `Criterion`
    * `Pattern`
    * `Pattern.read?`
-/

namespace AtomicCss

/- What a pattern asks of one part of a token. -/
inductive Criterion where
  /- Anything that is present. -/
  | any
  /- A certain text. -/
  | exactly (text : String)
  /- No value. -/
  | absent
deriving DecidableEq

/- The criterion that a text writes. -/
def Criterion.ofText
    (text : String) : Criterion :=
  if text = "*" then .any else .exactly text

/- The criterion that an optional text meets and no other does. -/
def Criterion.ofOption : Option String → Criterion
  | none => .absent
  | some text => .exactly text

/- The criteria for the parts of a token. -/
structure Pattern where
  breakpoint : Criterion
  key : Criterion
  value : Criterion
deriving DecidableEq

namespace Pattern

/- The breakpoint and the key in the head of a pattern. -/
def cutHead
    (head : String) : Criterion × String :=
  match Text.cutAtLast ':' head.toList with
  | none => (.any, head)
  | some (breakpoint, key) =>
      (.ofText (String.ofList breakpoint), String.ofList key)

/-
  The pattern that a text writes. Its key, and its breakpoint
  where a colon follows it, have to have characters.
-/
def read?
    (text : String) : Except Error Pattern :=
  let clause := Clause.ofText text
  let (breakpoint, key) := cutHead clause.head
  if key = "" ∨ breakpoint = .exactly "" then
    .error (.invalidOverride text)
  else
    .ok
      { breakpoint := breakpoint
        key := .ofText key
        value :=
          match clause.value with
          | none => .absent
          | some value => .ofText value }

end Pattern

end AtomicCss
