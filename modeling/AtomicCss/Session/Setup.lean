import AtomicCss.Batch.Run
import AtomicCss.Config.Builtin
import AtomicCss.RightToLeft.Catalog
import AtomicCss.Sheet

/-
  This file defines what a session is started with.

  Key definitions include:
    * `Setup`
    * `Setup.merged`
    * `Setup.environment?`
-/

namespace AtomicCss

/-
  The options of a start. `config` is laid over the built-in
  configuration, if that is wanted; `utilities` and `families`
  are laid over both. Tokens of the whitelist are compiled
  before any other.
-/
structure Setup where
  target : Sheet := ∅
  enabled : Bool := true
  builtin : Bool := true
  config : Option Config := none
  utilities : OrderedMap String Utility := ∅
  families : List Family := []
  whitelist : List String := []
  rtl : Bool := false
  extensions : Extensions := ∅

namespace Setup

/- The configuration that all options come to. -/
def merged
    (o : Setup) : Config :=
  let base := if o.builtin then Config.builtin else Config.empty
  let configured :=
    match o.config with
    | none => base
    | some config => base.overlay config
  configured.overlay { utilities := o.utilities, families := o.families }

/- What tokens are compiled against after the start. -/
def environment?
    (o : Setup) : Except Error Environment := do
  let cascade ← Cascade.build? o.merged.breakpoints
  let catalog ← Catalog.ofConfig o.merged
  return {
    cascade := cascade
    catalog := if o.rtl then catalog.flip else catalog
    extensions := o.extensions }

end Setup

end AtomicCss
