import AtomicCss.Breakpoint
import AtomicCss.RuleStore
import AtomicCss.Text.Search

/-
  This file defines the CSS text of the rules of a pass.

  An important declaration ends in `!important`, unless its
  value already has that mark. An extension writes the
  declarations of its property itself.

  Key definitions include:
    * `Extension`
    * `Extension.ofTemplate`
    * `Render.value`
    * `Render.declaration`
    * `Render.block`
    * `Render.wrap`
    * `Render.rules`
    * `Render.breakpoint`
-/

namespace AtomicCss

------------------------------------------------------------
-- Extensions
------------------------------------------------------------

/- The text for a property, given its name and its value. -/
abbrev Extension :=
  String → String → String

/- Extensions by the name of their property. -/
abbrev Extensions :=
  OrderedMap String Extension

/- The extension that fills in a template. -/
def Extension.ofTemplate
    (template : String) : Extension :=
  fun property value =>
    Text.replaceAll "\x7bvalue\x7d" value
      (Text.replaceAll "\x7bprop\x7d" property template)

namespace Render

------------------------------------------------------------
-- Declarations
------------------------------------------------------------

/- A value with the mark of importance where it needs one. -/
def value
    (important : Bool)
    (v : String) : String :=
  if important && !Text.occurs "!important" v then
    v ++ " !important"
  else
    v

/- One declaration. -/
def declaration
    (extensions : Extensions)
    (d : Declarations)
    (e : String × String) : String :=
  let v := value (d.isImportant e.1) e.2
  match extensions.get? e.1 with
  | some extension => extension e.1 v
  | none => e.1 ++ ":" ++ v ++ ";"

/- All declarations of a rule. -/
def declarations
    (extensions : Extensions)
    (d : Declarations) : String :=
  String.join (d.properties.entries.map (declaration extensions d))

------------------------------------------------------------
-- Rules
------------------------------------------------------------

/- One rule. -/
def block
    (extensions : Extensions)
    (rule : String × Declarations) : String :=
  rule.1 ++ "\x7b" ++ declarations extensions rule.2 ++ "\x7d"

/- Rules under the condition of their breakpoint. -/
def wrap
    (b : Breakpoint)
    (body : String) : String :=
  if b.isMinimum then
    body
  else
    "@media " ++ b.mediaQuery ++ " \x7b" ++ body ++ "\x7d"

/- The rules of a breakpoint that declare something. -/
def rules
    (working : Working)
    (b : Breakpoint) : List (String × Declarations) :=
  ((working.get? b.name).getD ∅).entries.filter
    (fun rule => !rule.2.isEmpty)

/- The text of a breakpoint. Without rules there is none. -/
def breakpoint
    (extensions : Extensions)
    (working : Working)
    (b : Breakpoint) : String :=
  let shown := rules working b
  if shown.isEmpty then
    ""
  else
    wrap b (String.join (shown.map (block extensions)))

end Render

end AtomicCss
