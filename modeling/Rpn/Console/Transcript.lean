import Rpn.Console.Arguments
import Rpn.Session.Basic

/-!
# Transcripts

What a console prints is determined by its arguments and its input. Each
line of input is executed, and answered by the description of the stack, if
there is anything to describe, and by the display. `Session.answer` is what
is printed after one line, and `Session.transcript` after all of them; a
program that reads its input line by line prints the same as one that is
given all of it at once.

An input ends with its last line whether or not that is closed by a line
break, and an empty input has no lines.
-/

namespace Rpn

/-- **The lines of an input.** A carriage return before a line break is
left on the line, where it is a blank like any other. -/
def inputLines (input : String) : List String :=
  let pieces := input.toList.splitOn '\n'
  let closed := if pieces.getLast? = some [] then pieces.dropLast else pieces
  closed.map String.ofList

namespace Session

/-- **What is printed after a line** was executed, as lines. -/
def answer (session : Session) : List String :=
  let history := session.history
  if history = "" then [session.display.text] else [history, session.display.text]

/-- **Everything printed in the course of some lines.** -/
def transcript (session : Session) : List String → List String
  | [] => []
  | line :: lines =>
    let next := session.executeLine line
    next.answer ++ next.transcript lines

end Session

/-- **How a run of the program ends**: its exit code, and what it printed. -/
structure Finish where
  /-- The exit code. -/
  code : Nat
  /-- The lines that were printed. -/
  printed : List String
deriving DecidableEq, Repr

namespace Finish

/-- The text that was printed. -/
def output (finish : Finish) : String := String.join (finish.printed.map (· ++ "\n"))

end Finish

/-- The name and version of the program. -/
def versionLine : String := "stack-calculator 0.1.0"

/-- What the program says of itself when help is asked for. The list of
options that goes with it has no part in a transcript. -/
def helpLines : List String :=
  ["An RPN calculator. Type numbers, operators (√ sin cos ± × + ÷ − or",
   "sqrt * / - neg) and π, separated by spaces. `→M` stores the displayed",
   "value into memory, `M` recalls it, `undo` and `C` do what they say."]

/-- **How a run ends that does not come to a session.** What is wrong with
the arguments is no part of the output; it is reported beside it. -/
def Detour.finish : Detour → Finish
  | version => ⟨0, [versionLine]⟩
  | help => ⟨0, helpLines⟩
  | misuse _ => ⟨2, []⟩

/-- What is wrong with the arguments, in words. -/
def Misuse.message : Misuse → String
  | unknownOption argument => "unexpected argument '" ++ argument ++ "'"
  | repeated option => "the option '" ++ option ++ "' cannot be used more than once"
  | unwantedValue option => "the option '" ++ option ++ "' takes no value"
  | missingValue option => "the option '" ++ option ++ "' needs a value"
  | unexpected argument => "unexpected argument '" ++ argument ++ "'"

/-- The session that a run starts with. -/
def Options.session (given : Options) : Session := .start .empty given.memory

/-- **A whole run of the program.** -/
def run (arguments : List String) (input : String) : Finish :=
  match Options.read arguments with
  | .ok given => ⟨0, given.session.transcript (inputLines input)⟩
  | .error detour => detour.finish

end Rpn
