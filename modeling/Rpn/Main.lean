import Rpn.Console.Transcript

/-!
# The command line

Reads the arguments, and answers standard input line by line. All that is
decided here is where text goes: answers to standard output, reports and
mistakes to standard error.
-/

namespace Rpn

/-- Prints lines of text. -/
def printLines (lines : List String) : IO Unit := do
  let out ← IO.getStdout
  for line in lines do
    out.putStrLn line
  out.flush

/-- Reports an evaluation. -/
def report (session : Session) : IO Unit :=
  IO.eprintln (session.engine.describe ++ " " ++ session.display.text)

/-- **Answers every line of standard input**, from a session onwards. -/
partial def answerInput (verbose : Bool) (session : Session) : IO Unit := do
  let line ← (← IO.getStdin).getLine
  unless line.isEmpty do
    let next := session.executeLine line
    if verbose then report next
    printLines next.answer
    answerInput verbose next

/-- **Runs the program** and returns its exit code. -/
def runConsole (arguments : List String) : IO UInt32 := do
  match Options.read arguments with
  | .ok given =>
    answerInput given.verbose given.session
    return 0
  | .error detour =>
    if let .misuse error := detour then
      IO.eprintln ("error: " ++ error.message)
    printLines detour.finish.printed
    return UInt32.ofNat detour.finish.code

end Rpn

/-- The program. -/
def main (arguments : List String) : IO UInt32 := Rpn.runConsole arguments
