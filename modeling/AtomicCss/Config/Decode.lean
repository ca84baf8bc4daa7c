import AtomicCss.Config.Basic
import AtomicCss.Error
import AtomicCss.Json.Reader

/-
  This file defines how configurations are written in JSON.

  Every field may be left out. A structure is an object,
  where unknown fields are ignored and known ones may not
  repeat, or an array of its fields in order, which may be
  shorter. A map is an object, where the last of several
  values of a key counts.

  Key definitions include:
    * `Decode.fields?`
    * `Decode.field`
    * `Decode.map`
    * `Utility.decode`
    * `Family.decode`
    * `Config.decode`
    * `Config.read?`
-/

namespace AtomicCss

namespace Decode

------------------------------------------------------------
-- General shapes
------------------------------------------------------------

/- What a JSON value means, if it has the right shape. -/
abbrev Decoder (α : Type) :=
  Json.Value → Option α

/- A string. -/
def text : Decoder String :=
  Json.Value.text?

/- A number. -/
def double : Decoder Float
  | .number n => n.toFloat?
  | _ => none

/- A value that `null` leaves out. -/
def optional
    {α : Type}
    (decode : Decoder α) : Decoder (Option α)
  | .null => some none
  | v => (decode v).map some

/- An array of values of one shape. -/
def list
    {α : Type}
    (decode : Decoder α) : Decoder (List α) :=
  fun v => do
    let items ← v.items?
    items.mapM decode

/- An object with values of one shape, as an ordered map. -/
def map
    {α : Type}
    (decode : Decoder α) : Decoder (OrderedMap String α) :=
  fun v => do
    let members ← v.members?
    let entries ← members.mapM
      (fun m => (decode m.2).map (fun x => (m.1, x)))
    return OrderedMap.ofList entries

------------------------------------------------------------
-- Structures
------------------------------------------------------------

/- The fields of a structure that are present, by name. -/
def fields?
    (names : List String) : Decoder (List (String × Json.Value))
  | .array items =>
      if items.length ≤ names.length then
        some (names.zip items)
      else
        none
  | v => do
      let members ← v.members?
      let known := members.filter (fun m => names.contains m.1)
      if (known.map Prod.fst).Nodup then some known else none

/- A field of a structure, or its default when it is left out. -/
def field
    {α : Type}
    (present : List (String × Json.Value))
    (name : String)
    (decode : Decoder α)
    (default : α) : Option α :=
  match present.lookup name with
  | none => some default
  | some v => decode v

end Decode

------------------------------------------------------------
-- Configurations
------------------------------------------------------------

/- Properties are a map of strings. -/
def Properties.decode : Decode.Decoder Properties :=
  Decode.map Decode.text

/- A right-to-left patch. -/
def Patch.decode : Decode.Decoder Patch :=
  fun v => do
    let fs ← Decode.fields? ["values", "common", "wildcard"] v
    return {
      values :=
        ← Decode.field fs "values" (Decode.map Properties.decode) ∅
      common := ← Decode.field fs "common" Properties.decode ∅
      template :=
        ← Decode.field fs "wildcard"
            (Decode.optional Properties.decode) none }

/- A utility. -/
def Utility.decode : Decode.Decoder Utility :=
  fun v => do
    let fs ← Decode.fields?
      ["values", "common", "defaults", "selector", "wildcard", "rtl"] v
    return {
      values :=
        ← Decode.field fs "values" (Decode.map Properties.decode) ∅
      common := ← Decode.field fs "common" Properties.decode ∅
      defaults :=
        ← Decode.field fs "defaults" (Decode.map Decode.text) ∅
      selector :=
        ← Decode.field fs "selector" (Decode.optional Decode.text) none
      template :=
        ← Decode.field fs "wildcard"
            (Decode.optional Properties.decode) none
      rtl :=
        ← Decode.field fs "rtl" (Decode.optional Patch.decode) none }

/- A family of utilities. -/
def Family.decode : Decode.Decoder Family :=
  fun v => do
    let fs ← Decode.fields? ["prefix", "scale", "values", "properties"] v
    return {
      stem := ← Decode.field fs "prefix" Decode.text ""
      scale :=
        ← Decode.field fs "scale" (Decode.optional Decode.text) none
      values := ← Decode.field fs "values" (Decode.map Decode.text) ∅
      members :=
        ← Decode.field fs "properties"
            (Decode.map (Decode.list Decode.text)) ∅ }

namespace Config

/- A configuration. -/
def decode : Decode.Decoder Config :=
  fun v => do
    let fs ← Decode.fields?
      ["breakpoints", "selectors", "variables", "utilities",
        "overrides", "prefixes"] v
    return {
      breakpoints :=
        ← Decode.field fs "breakpoints" (Decode.map Decode.double) ∅
      selectors :=
        ← Decode.field fs "selectors" (Decode.map Decode.text) ∅
      scales :=
        ← Decode.field fs "variables"
            (Decode.map (Decode.map Decode.text)) ∅
      utilities :=
        ← Decode.field fs "utilities" (Decode.map Utility.decode) ∅
      overrides :=
        ← Decode.field fs "overrides" (Decode.map Properties.decode) ∅
      families :=
        ← Decode.field fs "prefixes" (Decode.list Family.decode) [] }

/- The configuration that a value denotes. -/
def ofJson?
    (v : Json.Value) : Except Error Config :=
  match decode v with
  | some config => .ok config
  | none => .error .invalidConfig

/- The configuration that a text denotes. -/
def read?
    (text : String) : Except Error Config :=
  match Json.read? text with
  | some v => ofJson? v
  | none => .error .invalidConfig

end Config

end AtomicCss
