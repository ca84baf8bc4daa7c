import AtomicCss.Config.Basic

/-
  This file defines the declarations of a rule: properties
  with values, some of which are important.

  Key definitions include:
    * `Declarations`
    * `Declarations.uniform`
    * `Declarations.write`
    * `Declarations.overlay`
    * `Declarations.text`
-/

namespace AtomicCss

/-
  Properties with the names of the important ones. Names of
  other properties among those have no effect.
-/
structure Declarations where
  properties : Properties := ∅
  important : OrderedSet String := ∅
deriving DecidableEq

namespace Declarations

/- No declarations. -/
def empty : Declarations :=
  {}

/- Declarations that are all important, or none of them. -/
def uniform
    (properties : Properties)
    (important : Bool) : Declarations where
  properties := properties
  important :=
    if important then properties.mapValues (fun _ => ()) else ∅

/- Whether nothing is declared. -/
def isEmpty
    (d : Declarations) : Bool :=
  d.properties.isEmpty

/- Whether a property is important. -/
def isImportant
    (d : Declarations)
    (property : String) : Bool :=
  d.important.contains property

/- Declare a property, with its importance. -/
def write
    (d : Declarations)
    (property value : String)
    (important : Bool) : Declarations where
  properties := d.properties.insert property value
  important :=
    if important then
      d.important.insert property ()
    else
      d.important.erase property

/- Lay declarations over others; importance comes with the value. -/
def overlay
    (a b : Declarations) : Declarations :=
  b.properties.entries.foldl
    (fun d e => d.write e.1 e.2 (b.isImportant e.1)) a

/- One declaration as text. -/
def entryText
    (d : Declarations)
    (e : String × String) : String :=
  e.1 ++ ":" ++ e.2 ++
    (if d.isImportant e.1 then "!important" else "") ++ ";"

/- The text by which declarations are told apart. -/
def text
    (d : Declarations) : String :=
  String.join (d.properties.entries.map d.entryText)

end Declarations

end AtomicCss
