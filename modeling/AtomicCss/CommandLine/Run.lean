import AtomicCss.CommandLine.Arguments
import AtomicCss.CommandLine.Report
import AtomicCss.Config.Decode
import AtomicCss.Session.Run

/-
  This file defines what a run of the command line does, given
  its surroundings.

  Key definitions include:
    * `CommandLine.World`
    * `CommandLine.Answer`
    * `CommandLine.compile`
    * `CommandLine.run`
    * `CommandLine.Answer.output`
-/

namespace AtomicCss.CommandLine

------------------------------------------------------------
-- Surroundings and answers
------------------------------------------------------------

/-
  What a run sees: standard input, whether it writes to a
  terminal, and files, which have a text or a reason why they
  cannot be read.
-/
structure World where
  stdin : String
  terminal : Bool
  read : String → Except String String

/- What a run comes to. -/
inductive Answer where
  /- A text. -/
  | text (s : String)
  /- A failure with its exit code. -/
  | failure (code : Nat) (message : String)
  /- A report. -/
  | report (r : Report)

/- What a run writes, and its exit code. -/
structure Output where
  code : Nat
  stdout : String
  stderr : String
deriving DecidableEq

/- The output of an answer that took a certain time. -/
def Answer.output
    (elapsed : String) : Answer → Output
  | text s => ⟨0, s, ""⟩
  | failure code message => ⟨code, "", message ++ "\n"⟩
  | report r => ⟨0, r.text elapsed, ""⟩

------------------------------------------------------------
-- Runs
------------------------------------------------------------

/- The configuration file of a run, if it names one. -/
def readConfig
    (w : World)
    (o : Options) : Except String (Option Config) :=
  match o.config with
  | none => .ok none
  | some path =>
      match w.read path with
      | .error reason =>
          .error ("failed to read " ++ path ++ ": " ++ reason)
      | .ok text =>
          match Config.read? text with
          | .error e => .error e.message
          | .ok config => .ok (some config)

/- The tokens in an input. -/
def tokensOf
    (o : Options)
    (input : String) : List String :=
  if o.html then Markup.tokens input else Text.wordsOf input

/- Compile an input with a new session. -/
def compile
    (w : World)
    (o : Options)
    (input : String) : Except String Report := do
  let config ← readConfig w o
  let started := Session.new.start { config := config, rtl := o.rtl }
  let _ ← started.result.mapError Error.message
  let tokens := tokensOf o input
  let compiled := started.session.compile tokens none
  let outcome ← compiled.result.mapError Error.message
  return {
    input := input
    tokens := Token.settle tokens
    outcome := outcome
    sheet := (compiled.session.sheet? none).getD ∅
    rtl := o.rtl
    color := o.color }

/- Compile an input, which must not be blank. -/
def answerInput
    (w : World)
    (o : Options)
    (input : String) : Answer :=
  if Text.isBlankText input then
    .failure 2 ("error: no input provided\n\n" ++ helpText)
  else
    match compile w o input with
    | .ok report => .report report
    | .error reason => .failure 1 ("error: " ++ reason)

/- Run the program with arguments. -/
def run
    (w : World)
    (arguments : List String) : Answer :=
  match parse { color := w.terminal } arguments with
  | .help => .text (helpText ++ "\n")
  | .version => .text (versionText ++ "\n")
  | .refused message => .failure 2 message
  | .run o input => answerInput w o (input.getD w.stdin)

end AtomicCss.CommandLine
