import AtomicCss.OrderedMap
import AtomicCss.Text.Blank
import AtomicCss.Text.Search

/-
  This file defines finding tokens in markup: the words of
  all class attributes, each word once.

  A class attribute is the name `class` after white space or
  at the start, an equals sign and a quoted body. White space
  may surround the sign.

  Key definitions include:
    * `Markup.attribute?`
    * `Markup.bodies`
    * `Markup.tokens`
-/

namespace AtomicCss.Markup

------------------------------------------------------------
-- Attributes
------------------------------------------------------------

/- The body after an opening quote, if a closing one follows. -/
def quoted?
    (quote : Char)
    (cs : List Char) : Option (List Char) :=
  match cs.dropWhile (· ≠ quote) with
  | [] => none
  | _ :: _ => some (cs.takeWhile (· ≠ quote))

/- The quoted body at the front of a text. -/
def body? : List Char → Option (List Char)
  | c :: rest => if c = '"' ∨ c = '\'' then quoted? c rest else none
  | [] => none

/- The body of the class attribute at the front, and its length. -/
def attribute? : Text.Rule (List Char) :=
  fun cs =>
    match cs with
    | 'c' :: 'l' :: 'a' :: 's' :: 's' :: rest =>
        let before := rest.takeWhile Text.isBlank
        match rest.dropWhile Text.isBlank with
        | '=' :: rest =>
            let after := rest.takeWhile Text.isBlank
            (body? (rest.dropWhile Text.isBlank)).map (fun body =>
              (body, before.length + after.length + body.length + 8))
        | _ => none
    | _ => none

/- A class attribute after a white space character. -/
def spacedAttribute? : Text.Rule (List Char) :=
  fun cs =>
    match cs with
    | c :: rest =>
        if Text.isBlank c then
          (attribute? rest).map (fun found => (found.1, found.2 + 1))
        else
          none
    | [] => none

/- The bodies of all class attributes, in order. -/
def bodies
    (cs : List Char) : List (List Char) :=
  match attribute? cs with
  | some (body, length) =>
      body :: Text.collect spacedAttribute? length cs
  | none => Text.collect spacedAttribute? 0 cs

------------------------------------------------------------
-- Tokens
------------------------------------------------------------

/- The tokens of markup in order of first occurrence. -/
def tokens
    (markup : String) : List String :=
  let words := (bodies markup.toList).flatMap Text.words
  (OrderedSet.ofList (words.map String.ofList)).keys

end AtomicCss.Markup
