import AtomicCss.Catalog
import AtomicCss.Declarations.Basic
import AtomicCss.Declarations.Payload
import AtomicCss.Token.Basic

/-
  This file defines the declarations of a token, which are
  gathered in layers.

  The layers are, in order: the common properties of the
  utility, the properties of the value, the template with the
  payload, the overrides with an open part from the broadest
  on, and the override of exactly this token.

  The properties of a value, of a template and of the exact
  override are pinned: no open override changes them.

  Key definitions include:
    * `Layer`
    * `Layered`
    * `Layered.add`
    * `Token.effectiveValue?`
    * `Token.openPatterns`
    * `Token.exactPattern`
    * `Token.layers`
    * `Token.declarations`
-/

namespace AtomicCss

------------------------------------------------------------
-- Layers
------------------------------------------------------------

/- Properties with the way in which they are added to others. -/
inductive Layer where
  /- They are written. -/
  | base (properties : Properties)
  /- They are written and pinned. -/
  | concrete (properties : Properties)
  /- They are written unless they are pinned. -/
  | fallback (properties : Properties)

/- The properties gathered so far, some of them pinned. -/
structure Layered where
  properties : Properties := ∅
  pinned : List String := []

namespace Layered

/- Write one property. -/
def write
    (l : Layered)
    (e : String × String) : Layered :=
  { l with properties := l.properties.insert e.1 e.2 }

/- Write one property and pin it. -/
def pin
    (l : Layered)
    (e : String × String) : Layered :=
  { properties := l.properties.insert e.1 e.2
    pinned := e.1 :: l.pinned }

/- Write one property unless it is pinned. -/
def suggest
    (l : Layered)
    (e : String × String) : Layered :=
  if e.1 ∈ l.pinned then l else l.write e

/- Add a layer. -/
def add
    (l : Layered) : Layer → Layered
  | .base p => p.entries.foldl write l
  | .concrete p => p.entries.foldl pin l
  | .fallback p => p.entries.foldl suggest l

end Layered

------------------------------------------------------------
-- The layers of a token
------------------------------------------------------------

namespace Token

/- The value of a token, or the default of its utility. -/
def effectiveValue?
    (t : Token)
    (u : Utility) : Option String :=
  match t.value with
  | some value => some value
  | none => u.defaultFor? t.breakpoint

/- The overrides that a token shares with others, broadest first. -/
def openPatterns
    (t : Token)
    (value : Option String) : List Pattern :=
  let breakpoint := Criterion.exactly t.breakpoint
  let key := Criterion.exactly t.key
  let v := Criterion.ofOption value
  [⟨.any, .any, v⟩, ⟨breakpoint, .any, v⟩] ++
    (if value.isSome then
      [⟨.any, key, .any⟩, ⟨breakpoint, key, .any⟩]
    else
      []) ++
    [⟨.any, key, v⟩]

/- The override of exactly this token. -/
def exactPattern
    (t : Token)
    (value : Option String) : Pattern :=
  ⟨.exactly t.breakpoint, .exactly t.key, .ofOption value⟩

/- The template of a utility with the payload of a token. -/
def filledTemplate?
    (t : Token)
    (u : Utility) : Option Properties :=
  match t.payload?, u.template with
  | some payload, some template =>
      some (Payload.fill template t.key payload)
  | _, _ => none

/- The layers of a token whose key has a given utility. -/
def layers
    (catalog : Catalog)
    (t : Token)
    (u : Utility) : List Layer :=
  let value := t.effectiveValue? u
  [.base u.common] ++
    ((value.bind u.values.get?).toList.map .concrete) ++
    ((t.filledTemplate? u).toList.map .concrete) ++
    (((t.openPatterns value).filterMap catalog.override?).map
      .fallback) ++
    ((catalog.override? (t.exactPattern value)).toList.map .concrete)

/- The properties of a token whose key has a given utility. -/
def resolve
    (catalog : Catalog)
    (t : Token)
    (u : Utility) : Layered :=
  (t.layers catalog u).foldl Layered.add {}

/-
  The declarations of a token whose key has a given utility.
  The mark of the token makes all of them important.
-/
def declarations
    (catalog : Catalog)
    (t : Token)
    (u : Utility) : Declarations :=
  .uniform (t.resolve catalog u).properties t.important

end Token

end AtomicCss
