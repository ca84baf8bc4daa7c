import AtomicCss.Config.Basic
import AtomicCss.Override

/-
  This file defines the catalog that tokens are looked up in,
  and how it is built from a configuration.

  Families are expanded first, and explicit utilities are
  laid over the result.

  Key definitions include:
    * `Catalog`
    * `Catalog.addUtility`
    * `Family.scale?`
    * `Family.utilities`
    * `Catalog.addFamily`
    * `Catalog.ofConfig`
-/

namespace AtomicCss

------------------------------------------------------------
-- Expanding families
------------------------------------------------------------

namespace Family

/- The slot of a template that receives the payload of a value. -/
def slot : String :=
  "*"

/- Several properties with one value. -/
def uniform
    (properties : List String)
    (value : String) : Properties :=
  .ofList (properties.map (fun p => (p, value)))

/- The scale of a family with its own values laid over it. -/
def scale?
    (f : Family)
    (scales : Scales) : Except Error (OrderedMap String String) :=
  match f.scale with
  | none => .ok ((∅ : OrderedMap String String).extend f.values)
  | some name =>
      match scales.get? name with
      | none => .error (.unknownScale f.stem name)
      | some scale => .ok (scale.extend f.values)

/- The utility that gives certain properties the values of a scale. -/
def utility
    (scale : OrderedMap String String)
    (properties : List String) : Utility where
  values := scale.mapValues (uniform properties)
  template := some (uniform properties slot)

/- The utilities of a family over a scale, by key. -/
def utilities
    (f : Family)
    (scale : OrderedMap String String) : List (String × Utility) :=
  f.members.entries.map
    (fun m => (f.stem ++ m.1, utility scale m.2))

end Family

------------------------------------------------------------
-- Catalogs
------------------------------------------------------------

/- Utilities by key, overrides by pattern, selectors by name. -/
structure Catalog where
  utilities : OrderedMap String Utility := ∅
  overrides : OrderedMap Pattern Properties := ∅
  selectors : OrderedMap String String := ∅
deriving DecidableEq

namespace Catalog

/- The catalog without entries. -/
def empty : Catalog :=
  {}

/- Lay a utility over what the catalog has under its key. -/
def addUtility
    (c : Catalog)
    (key : String)
    (u : Utility) : Catalog :=
  { c with
    utilities := c.utilities.upsert key (Utility.overlayOn · u) }

/- Add the utilities of a family, whose scale has to be known. -/
def addFamily
    (c : Catalog)
    (scales : Scales)
    (f : Family) : Except Error Catalog := do
  let scale ← f.scale? scales
  return (f.utilities scale).foldl
    (fun c m => c.addUtility m.1 m.2) c

/- Set the properties of the override that a text writes. -/
def addOverride
    (c : Catalog)
    (text : String)
    (properties : Properties) : Except Error Catalog := do
  let pattern ← Pattern.read? text
  return { c with overrides := c.overrides.insert pattern properties }

/- The catalog of a configuration. -/
def ofConfig
    (config : Config) : Except Error Catalog := do
  let start : Catalog := { selectors := config.selectors }
  let withFamilies ←
    config.families.foldlM (fun c f => c.addFamily config.scales f)
      start
  let withUtilities :=
    config.utilities.entries.foldl
      (fun c e => c.addUtility e.1 e.2) withFamilies
  config.overrides.entries.foldlM
    (fun c e => c.addOverride e.1 e.2) withUtilities

/- The utility of a key, if there is one. -/
def utility?
    (c : Catalog)
    (key : String) : Option Utility :=
  c.utilities.get? key

/- Whether a key has a utility. -/
def contains
    (c : Catalog)
    (key : String) : Bool :=
  c.utilities.contains key

/- The properties of a pattern, if it has any. -/
def override?
    (c : Catalog)
    (pattern : Pattern) : Option Properties :=
  c.overrides.get? pattern

/- The number of utilities. -/
def size
    (c : Catalog) : Nat :=
  c.utilities.size

/- Whether there are no utilities. -/
def isEmpty
    (c : Catalog) : Bool :=
  c.utilities.isEmpty

end Catalog

end AtomicCss
