/-
  This file defines what can go wrong. Tokens never fail;
  configurations can, and a rule without declarations cannot
  be stored.

  Key definitions include:
    * `Error`
    * `Error.message`
-/

namespace AtomicCss

/- The causes of failure. -/
inductive Error where
  /- The text is not JSON, or JSON of another shape. -/
  | invalidConfig
  /- No breakpoints are configured. -/
  | noBreakpoints
  /- The threshold of a breakpoint is not finite. -/
  | invalidBreakpoint (name : String)
  /- A family of utilities names a scale that is not defined. -/
  | unknownScale (stem scale : String)
  /- The text is not an override pattern. -/
  | invalidOverride (text : String)
  /- A rule has no declarations. -/
  | emptyDeclarations (breakpoint selector : String)
deriving DecidableEq

/- The text that reports an error. -/
def Error.message : Error → String
  | invalidConfig =>
      "invalid configuration: not JSON of the expected shape"
  | noBreakpoints =>
      "configuration defines no breakpoints"
  | invalidBreakpoint name =>
      "breakpoint `" ++ name ++ "` has a non-finite threshold"
  | unknownScale stem scale =>
      "prefix `" ++ stem ++ "` refers to unknown scale `" ++
        scale ++ "`"
  | invalidOverride text =>
      "invalid override pattern `" ++ text ++ "`"
  | emptyDeclarations breakpoint selector =>
      "cannot cache `" ++ selector ++ "` at `" ++ breakpoint ++
        "` without declarations"

end AtomicCss
