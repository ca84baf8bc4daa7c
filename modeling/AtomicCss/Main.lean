import AtomicCss.CommandLine.Run

/-
  This file defines the program: it looks at what a run needs,
  fetches that, and writes what the run comes to.

  Key definitions include:
    * `CommandLine.fetch`
    * `CommandLine.elapsedText`
    * `CommandLine.execute`
    * `main`
-/

namespace AtomicCss.CommandLine

/- Why a file cannot be read, in the system's words. -/
def reasonText : IO.Error → String
  | .noFileOrDirectory .. => "No such file or directory (os error 2)"
  | .permissionDenied .. => "Permission denied (os error 13)"
  | .inappropriateType .. => "Is a directory (os error 21)"
  | e => toString e

/- The text of a file, or why it cannot be read. -/
def fetchFile
    (path : String) : IO (Except String String) := do
  try
    let text ← IO.FS.readFile path
    return .ok text
  catch e =>
    return .error (reasonText e)

/- The surroundings that a request needs. -/
def fetch
    (request : Request)
    (terminal : Bool) : IO World := do
  match request with
  | .run o input =>
      let stdin ←
        match input with
        | some _ => pure ""
        | none => do (← IO.getStdin).readToEnd
      let file ←
        match o.config with
        | some path => fetchFile path
        | none => pure (.ok "")
      return { stdin := stdin, terminal := terminal, read := fun _ => file }
  | _ =>
      return { stdin := "", terminal := terminal, read := fun _ => .ok "" }

/- A number of nanoseconds, in microseconds. -/
def elapsedText
    (nanoseconds : Nat) : String :=
  let places := toString (1000 + nanoseconds % 1000)
  toString (nanoseconds / 1000) ++ "." ++ (places.drop 1).toString ++ "µs"

/- Run the program with arguments, and give its exit code. -/
def execute
    (arguments : List String) : IO UInt32 := do
  let stdout ← IO.getStdout
  let terminal ← stdout.isTty
  let request := parse { color := terminal } arguments
  let world ← fetch request terminal
  let start ← IO.monoNanosNow
  let answer ← IO.lazyPure (fun _ => run world arguments)
  let stop ← IO.monoNanosNow
  let output := answer.output (elapsedText (stop - start))
  stdout.putStr output.stdout
  (← IO.getStderr).putStr output.stderr
  return output.code.toUInt32

end AtomicCss.CommandLine

/- The command line program. -/
def main
    (arguments : List String) : IO UInt32 :=
  AtomicCss.CommandLine.execute arguments
