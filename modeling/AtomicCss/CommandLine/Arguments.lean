import AtomicCss.Text.Blank
import AtomicCss.Text.Search

/-
  This file defines the command line: its options and how
  arguments are read.

  Options are read up to the first argument that is none, or
  up to `--`. From there on all arguments are input.

  Key definitions include:
    * `CommandLine.Options`
    * `CommandLine.Request`
    * `CommandLine.parse`
    * `CommandLine.helpText`
-/

namespace AtomicCss.CommandLine

------------------------------------------------------------
-- Requests
------------------------------------------------------------

/- What the options of a run choose. -/
structure Options where
  config : Option String := none
  rtl : Bool := false
  html : Bool := false
  color : Bool := false
deriving DecidableEq

/- What the arguments ask for. -/
inductive Request where
  /- The help text. -/
  | help
  /- The version. -/
  | version
  /- Nothing; the arguments are wrong. -/
  | refused (message : String)
  /- A run, on given input or on standard input. -/
  | run (options : Options) (input : Option String)
deriving DecidableEq

------------------------------------------------------------
-- Reading arguments
------------------------------------------------------------

/-
  A text without the repetitions of a lead in front of it, of
  which there are at most as many as the number given.
-/
def dropLeads
    (lead : List Char) : Nat → List Char → List Char
  | 0, cs => cs
  | n + 1, cs =>
      if lead.isPrefixOf cs then
        dropLeads lead n (cs.drop lead.length)
      else
        cs

/- The option that a configuration file follows in one argument. -/
def configLead : List Char :=
  "--config=".toList

/- The file in an argument that begins with `--config=`. -/
def configFile
    (argument : String) : String :=
  let cs := argument.toList
  String.ofList (dropLeads configLead cs.length cs)

/- Arguments as one input. -/
def joined
    (arguments : List String) : String :=
  String.intercalate " " arguments

/- What arguments ask for, beyond options read before. -/
def parse
    (o : Options) : List String → Request
  | [] => .run o none
  | "-h" :: _ => .help
  | "--help" :: _ => .help
  | "-V" :: _ => .version
  | "--version" :: _ => .version
  | "--color" :: rest => parse { o with color := true } rest
  | "--no-color" :: rest => parse { o with color := false } rest
  | "--rtl" :: rest => parse { o with rtl := true } rest
  | "--html" :: rest => parse { o with html := true } rest
  | ["--config"] => .refused "error: --config expects a file path"
  | ["-c"] => .refused "error: --config expects a file path"
  | "--config" :: file :: rest => parse { o with config := some file } rest
  | "-c" :: file :: rest => parse { o with config := some file } rest
  | "--" :: rest =>
      let input := joined rest
      .run o (if Text.isBlankText input then none else some input)
  | argument :: rest =>
      if configLead.isPrefixOf argument.toList then
        parse { o with config := some (configFile argument) } rest
      else if ['-'].isPrefixOf argument.toList then
        .refused ("error: unknown option '" ++ argument ++ "'")
      else
        .run o (some (joined (argument :: rest)))

------------------------------------------------------------
-- Texts
------------------------------------------------------------

/- The name of the program with its version. -/
def versionText : String :=
  "utilcss 0.1.0"

/- How the program is used. -/
def helpText : String :=
  String.intercalate "\n"
    [ versionText,
      "",
      "Utility-token to CSS compiler CLI.",
      "",
      "Usage:",
      "  utilcss [OPTIONS] [--] <tokens...>",
      "  echo '<div class=\"md-up:p=2\">' | utilcss --html",
      "",
      "Options:",
      "  -c, --config <file>   JSON configuration overlaid on the built-in one.",
      "  --rtl                 Mirror the registry for right-to-left output.",
      "  --html                Treat input as markup and compile its class attributes.",
      "  --color               Force ANSI color output.",
      "  --no-color            Disable ANSI color output.",
      "  -h, --help            Show this help message.",
      "  -V, --version         Print version information.",
      "",
      "Environment:",
      "  UTILCSS_DEBUG=1         Log compile passes to stderr (UTILCSS_DEBUG=trace for per-token detail).",
      "",
      "Exit codes:",
      "  0  Success.",
      "  1  Configuration or internal error.",
      "  2  Invalid arguments or missing input.",
      "" ]

end AtomicCss.CommandLine
