import AtomicCss.Batch.Run
import AtomicCss.Sheet
import AtomicCss.Text.Blank

/-
  This file defines what the command line prints about a run.

  Key definitions include:
    * `CommandLine.Palette`
    * `CommandLine.Report`
    * `CommandLine.Report.text`
-/

namespace AtomicCss.CommandLine

------------------------------------------------------------
-- Colours
------------------------------------------------------------

/- The terminal codes of colours and weights. -/
inductive Style where
  | bold
  | dim
  | green
  | yellow
  | blue
  | magenta
  | cyan
  | gray

/- The code that turns a style on. -/
def Style.code : Style → String
  | bold => "\x1b[1m"
  | dim => "\x1b[2m"
  | green => "\x1b[32m"
  | yellow => "\x1b[33m"
  | blue => "\x1b[34m"
  | magenta => "\x1b[35m"
  | cyan => "\x1b[36m"
  | gray => "\x1b[90m"

/- Whether styles are shown. -/
structure Palette where
  enabled : Bool

/- A text in a style. -/
def Palette.paint
    (p : Palette)
    (style : Style)
    (text : String) : String :=
  if p.enabled then style.code ++ text ++ "\x1b[0m" else text

------------------------------------------------------------
-- Reports
------------------------------------------------------------

/- A finished run. -/
structure Report where
  input : String
  tokens : List String
  outcome : Outcome
  sheet : Sheet
  rtl : Bool
  color : Bool

namespace Report

/- The heading of a part. -/
def heading
    (p : Palette)
    (title : String) : List String :=
  ["", p.paint .gray ("━━━ " ++ title ++ " ━━━")]

/- The line that names the input. -/
def opening
    (p : Palette)
    (r : Report) : List String :=
  let direction := if r.rtl then " (rtl)" else ""
  ["",
    p.paint .bold (p.paint .cyan
      ("⚙  Compiling: \"" ++ Text.trimmed r.input ++ "\"" ++
        direction))]

/- The tokens, numbered. -/
def tokenLines
    (p : Palette)
    (r : Report) : List String :=
  r.tokens.mapIdx (fun i token =>
    "  " ++ p.paint .gray ("[" ++ Nat.repr i ++ "]") ++ " " ++
      p.paint .blue token)

/- The text of one breakpoint. -/
def chunkLines
    (p : Palette)
    (c : Chunk) : List String :=
  ["  " ++ p.paint .bold (p.paint .magenta c.breakpoint.name),
    "    " ++ p.paint .green c.css]

/- What is said when there is no text. -/
def nothingLines
    (p : Palette) : List String :=
  [p.paint .dim "  No CSS produced",
    "",
    p.paint .yellow "Possible reasons:",
    "  • Utility keys are not registered (check the configuration)",
    "  • Values have no entry and the utility has no wildcard template",
    "",
    p.paint .dim "  Tip: Set UTILCSS_DEBUG=trace to see skipped tokens"]

/- The new text, breakpoint by breakpoint. -/
def emittedLines
    (p : Palette)
    (r : Report) : List String :=
  if r.outcome.emitted.isEmpty then
    nothingLines p
  else
    r.outcome.emitted.flatMap (chunkLines p)

/- The tally, with the time that the run took. -/
def tallyLine
    (p : Palette)
    (r : Report)
    (elapsed : String) : String :=
  let t := r.outcome.tally
  String.intercalate "  │  "
    [ "  Total: " ++ p.paint .green elapsed,
      "Tokens: " ++ p.paint .blue (Nat.repr t.tokens),
      "Cached: " ++ p.paint .cyan (Nat.repr t.cached),
      "Skipped: " ++ p.paint .dim (Nat.repr t.skipped),
      "Deduplicated: " ++ p.paint .dim (Nat.repr t.deduplicated),
      "Breakpoints: " ++ p.paint .yellow (Nat.repr t.rendered) ]

/- The lines of a report. -/
def lines
    (r : Report)
    (elapsed : String) : List String :=
  let p : Palette := ⟨r.color⟩
  r.opening p ++
    heading p "Tokens" ++ r.tokenLines p ++
    heading p "Emitted" ++ r.emittedLines p ++
    heading p "Metrics" ++ [r.tallyLine p elapsed] ++
    heading p "Stylesheet" ++ [r.sheet.css] ++
    [""]

/- The text of a report. -/
def text
    (r : Report)
    (elapsed : String) : String :=
  String.join ((r.lines elapsed).map (· ++ "\n"))

end Report

end AtomicCss.CommandLine
