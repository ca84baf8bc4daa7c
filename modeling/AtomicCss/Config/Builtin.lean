import AtomicCss.Config.Basic

/-
  This file defines the built-in configuration: a breakpoint
  scale, selector keys, design scales and a starter set of
  utilities.

  Key definitions include:
    * `Builtin.breakpoints`
    * `Builtin.selectors`
    * `Builtin.scales`
    * `Builtin.families`
    * `Builtin.utilities`
    * `Builtin.overrides`
    * `Config.builtin`
-/

namespace AtomicCss

namespace Builtin

------------------------------------------------------------
-- Breakpoints, selectors and scales
------------------------------------------------------------

/- Pixel thresholds by breakpoint name. -/
def breakpoints : OrderedMap String Float :=
  .ofList
    [ ("xs", 0),
      ("sm", 576),
      ("md", 768),
      ("lg", 992),
      ("xl", 1200) ]

/- Selector fragments by key. -/
def selectors : OrderedMap String String :=
  .ofList
    [ ("hover", "&:hover"),
      ("focus", "&:focus"),
      ("focus-within", "&:focus-within"),
      ("active", "&:active"),
      ("disabled", "&:disabled"),
      ("first", "&:first-child"),
      ("last", "&:last-child"),
      ("odd", "&:nth-child(odd)"),
      ("even", "&:nth-child(even)"),
      ("before", "&::before"),
      ("after", "&::after"),
      ("placeholder", "&::placeholder"),
      ("children", "> *"),
      ("dark", ".dark>>"),
      ("group-hover", ".group:hover>>") ]

/- Distances. -/
def spacing : OrderedMap String String :=
  .ofList
    [ ("0", "0"),
      ("1", "4px"),
      ("2", "8px"),
      ("3", "12px"),
      ("4", "16px"),
      ("5", "24px"),
      ("6", "32px"),
      ("auto", "auto") ]

/- Colours. -/
def colors : OrderedMap String String :=
  .ofList
    [ ("white", "#fff"),
      ("black", "#000"),
      ("primary", "#0d6efd"),
      ("success", "#198754"),
      ("danger", "#dc3545"),
      ("warning", "#ffc107"),
      ("muted", "#6c757d"),
      ("transparent", "transparent") ]

/- Text sizes. -/
def fontSizes : OrderedMap String String :=
  .ofList
    [ ("xs", "12px"),
      ("sm", "14px"),
      ("md", "16px"),
      ("lg", "20px"),
      ("xl", "24px") ]

/- Corner radii. -/
def radii : OrderedMap String String :=
  .ofList
    [ ("none", "0"),
      ("sm", "2px"),
      ("md", "4px"),
      ("lg", "8px"),
      ("full", "9999px") ]

/- The scales by name. -/
def scales : Scales :=
  .ofList
    [ ("spacing", spacing),
      ("colors", colors),
      ("font-sizes", fontSizes),
      ("radii", radii) ]

------------------------------------------------------------
-- Families
------------------------------------------------------------

/- A family over a scale, by the endings of its members. -/
def family
    (stem scale : String)
    (members : List (String × List String)) : Family where
  stem := stem
  scale := some scale
  members := .ofList members

/- Utilities that take their values from a scale. -/
def families : List Family :=
  [ family "m" "spacing"
      [ ("", ["margin"]),
        ("t", ["margin-top"]),
        ("b", ["margin-bottom"]),
        ("l", ["margin-left"]),
        ("r", ["margin-right"]),
        ("x", ["margin-left", "margin-right"]),
        ("y", ["margin-top", "margin-bottom"]) ],
    family "p" "spacing"
      [ ("", ["padding"]),
        ("t", ["padding-top"]),
        ("b", ["padding-bottom"]),
        ("l", ["padding-left"]),
        ("r", ["padding-right"]),
        ("x", ["padding-left", "padding-right"]),
        ("y", ["padding-top", "padding-bottom"]) ],
    family "gap" "spacing" [("", ["gap"])],
    family "color" "colors" [("", ["color"])],
    family "bg" "colors" [("", ["background-color"])],
    family "text" "font-sizes" [("", ["font-size"])],
    family "rounded" "radii" [("", ["border-radius"])] ]

------------------------------------------------------------
-- Utilities
------------------------------------------------------------

/- The table of the values of a utility. -/
def table
    (values : List (String × List (String × String))) : ValueTable :=
  .ofList (values.map (fun v => (v.1, .ofList v.2)))

/- The template that passes the payload to one property. -/
def slot
    (property : String) : Option Properties :=
  some (.ofList [(property, "*")])

/- Values that each set the same one property. -/
def choices
    (property : String)
    (values : List (String × String)) : ValueTable :=
  table (values.map (fun v => (v.1, [(property, v.2)])))

/- Utilities with values of their own. -/
def utilities : OrderedMap String Utility :=
  .ofList
    [ ("display",
        { values := choices "display"
              [ ("none", "none"),
                ("block", "block"),
                ("inline", "inline"),
                ("inline-block", "inline-block"),
                ("flex", "flex"),
                ("inline-flex", "inline-flex"),
                ("grid", "grid") ]
          template := slot "display" }),
      ("hidden",
        { values := choices "display"
              [ ("true", "none") ]
          defaults := .ofList [("*", "true")] }),
      ("row",
        { common := .ofList
              [ ("display", "flex"),
                ("flex-wrap", "wrap") ]
          values := table
              [ ("reverse", [("flex-direction", "row-reverse")]),
                ("nowrap", [("flex-wrap", "nowrap")]) ] }),
      ("align",
        { values := choices "align-items"
              [ ("start", "flex-start"),
                ("center", "center"),
                ("end", "flex-end"),
                ("stretch", "stretch") ] }),
      ("justify",
        { values := choices "justify-content"
              [ ("start", "flex-start"),
                ("center", "center"),
                ("end", "flex-end"),
                ("between", "space-between") ] }),
      ("width",
        { values := choices "width"
              [ ("full", "100%"),
                ("half", "50%"),
                ("auto", "auto") ]
          template := slot "width" }),
      ("height",
        { values := choices "height"
              [ ("full", "100%"),
                ("screen", "100vh"),
                ("auto", "auto") ]
          template := slot "height" }),
      ("position",
        { values := choices "position"
              [ ("static", "static"),
                ("relative", "relative"),
                ("absolute", "absolute"),
                ("fixed", "fixed"),
                ("sticky", "sticky") ] }),
      ("inset",
        { values := table
              [ ("left", [("left", "0")]),
                ("right", [("right", "0")]),
                ("top", [("top", "0")]),
                ("bottom", [("bottom", "0")]) ] }),
      ("float",
        { values := choices "float"
              [ ("left", "left"),
                ("right", "right"),
                ("none", "none") ] }),
      ("text-align",
        { values := choices "text-align"
              [ ("left", "left"),
                ("center", "center"),
                ("right", "right") ] }),
      ("weight",
        { values := choices "font-weight"
              [ ("400", "400"),
                ("500", "500"),
                ("700", "700") ] }),
      ("truncate",
        { common := .ofList
              [ ("overflow", "hidden"),
                ("text-overflow", "ellipsis"),
                ("white-space", "nowrap") ] }),
      ("content",
        { template := slot "content" }),
      ("grid-template-areas",
        { common := .ofList
              [ ("display", "grid") ]
          template := slot "grid-template-areas" }),
      ("grid-area",
        { template := slot "grid-area" }),
      ("transform",
        { values := choices "transform"
              [ ("none", "none"),
                ("flip", "scaleX(-1)"),
                ("nudge", "translateX(8px)") ]
          template := slot "transform" }),
      ("root-font",
        { values := choices "font-size"
              [ ("sm", "14px"),
                ("md", "16px") ]
          selector := some ":root"
          template := slot "font-size" }) ]

/- Properties added to single values. -/
def overrides : OrderedMap String Properties :=
  .ofList
    [ ("*:display=flex", .ofList [("min-width", "0")]) ]

end Builtin

/- The built-in configuration. -/
def Config.builtin : Config where
  breakpoints := Builtin.breakpoints
  selectors := Builtin.selectors
  scales := Builtin.scales
  utilities := Builtin.utilities
  overrides := Builtin.overrides
  families := Builtin.families

end AtomicCss
