import AtomicCss.Catalog
import AtomicCss.RightToLeft.Text

/-
  This file defines the catalog of a right-to-left layout.

  Right-to-left patches are laid over their utilities first.
  Then every property changes sides in its name and value,
  and `transform` values change the sign of their horizontal
  offsets. Keys, value names and selectors stay.

  Key definitions include:
    * `Properties.flip`
    * `Utility.patched`
    * `Utility.flip`
    * `Catalog.patched`
    * `Catalog.flip`
-/

namespace AtomicCss

------------------------------------------------------------
-- Properties
------------------------------------------------------------

namespace Properties

/- A declaration with its sides changed. -/
def flipEntry
    (e : String × String) : String × String :=
  let name := RightToLeft.swapSides e.1
  let value := RightToLeft.swapSides e.2
  if name = "transform" then
    (name, RightToLeft.negateOffsets value)
  else
    (name, value)

/- Properties with their sides changed, in the same order. -/
def flip
    (p : Properties) : Properties :=
  .ofList (p.entries.map flipEntry)

end Properties

------------------------------------------------------------
-- Utilities
------------------------------------------------------------

namespace Utility

/- A utility with its right-to-left patch laid over it. -/
def patched
    (u : Utility) : Utility :=
  match u.rtl with
  | none => u
  | some patch =>
      { u with
        values := u.values.overlay patch.values
        common := u.common.extend patch.common
        template := replaceIfSet u.template patch.template
        rtl := none }

/- A utility with the sides of all its properties changed. -/
def flipSides
    (u : Utility) : Utility :=
  { u with
    values := u.values.mapValues Properties.flip
    common := u.common.flip
    template := u.template.map Properties.flip }

/- A utility in a right-to-left layout. -/
def flip
    (u : Utility) : Utility :=
  u.patched.flipSides

end Utility

------------------------------------------------------------
-- Catalogs
------------------------------------------------------------

namespace Catalog

/- A catalog with all right-to-left patches laid over it. -/
def patched
    (c : Catalog) : Catalog :=
  { c with utilities := c.utilities.mapValues Utility.patched }

/- A catalog in a right-to-left layout. -/
def flip
    (c : Catalog) : Catalog :=
  { c with
    utilities := c.utilities.mapValues Utility.flip
    overrides := c.overrides.mapValues Properties.flip }

end Catalog

end AtomicCss
