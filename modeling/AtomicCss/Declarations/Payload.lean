import AtomicCss.Config.Basic
import AtomicCss.Text.Search

/-
  This file defines how the payload of a parenthesized value
  fills the template of a utility.

  Bars in a payload stand for spaces. In the keys of grid
  areas they separate rows, whose cells are separated by
  underscores. The payload of `content` is taken as it is.

  Key definitions include:
    * `Payload.expand`
    * `Payload.fill`
-/

namespace AtomicCss.Payload

/- A row of grid areas, quoted. -/
def gridRow
    (row : String) : String :=
  "\"" ++ Text.fillText '_' " " row ++ "\""

/- The keys whose payload names grid areas. -/
def gridKeys : List String :=
  ["grid-template-areas", "grid-areas"]

/- The text that a payload stands for under a key. -/
def expand
    (key payload : String) : String :=
  if key = "content" then
    payload
  else if key ∈ gridKeys then
    String.intercalate " " ((Text.splitAt '|' payload).map gridRow)
  else
    Text.fillText '|' " " payload

/- A template with the payload of a key in its slots. -/
def fill
    (template : Properties)
    (key payload : String) : Properties :=
  template.mapValues (Text.fillText '*' (expand key payload))

end AtomicCss.Payload
