import Rpn.Session.Command
import Rpn.Stack.Builtin
import Rpn.Text.Words

/-!
# Highlighting

Each word of a line is coloured by what it will do when the line is run:
whether it enters a number, an operator or a constant, reads or writes the
memory, or is a command. A word that would be ignored stands out. The gaps
between the words stay as they are, so that the highlighted line is the
line itself with control sequences put around its words.
-/

namespace Rpn

/-- **What a word is highlighted as.** -/
inductive Style where
  /-- A number. -/
  | number
  /-- The memory, read or written. -/
  | memory
  /-- A command about what was entered. -/
  | control
  /-- A built-in constant. -/
  | constant
  /-- A built-in operator. -/
  | operator
  /-- A word that means nothing. -/
  | unknown
deriving DecidableEq, Repr

namespace Style

/-- The control sequence that ends a style. -/
def reset : String := "\x1b[0m"

/-- **The control sequence that starts a style.** A number is shown in the
terminal's own colour. -/
def start : Style → String
  | number => reset
  | memory => "\x1b[38;5;13m"
  | control => "\x1b[38;5;6m"
  | constant => "\x1b[38;5;13;1m"
  | operator => "\x1b[38;5;248m"
  | unknown => "\x1b[38;5;1m"

/-- The style of an operation, or of a symbol that stands for none. -/
def ofOperation? : Option Operation → Style
  | some (.constant ..) => constant
  | some _ => operator
  | none => unknown

/-- **The style of a command.** -/
def ofCommand : Command → Style
  | .operand _ => number
  | .recallMemory | .storeMemory => memory
  | .undo | .clear => control
  | .symbol symbol => ofOperation? (builtin? symbol)

/-- **The style of a word**, for a memory variable of a given name. -/
def ofWord (memory word : String) : Style := ofCommand (Command.ofWord memory word)

end Style

/-- A run of a line, highlighted if it is a word. -/
def highlightRun (memory : String) (run : List Char) : String :=
  let text := String.ofList run
  if run.all isBlank then text
  else (Style.ofWord memory text).start ++ text ++ Style.reset

/-- **Highlights a line**, if colours are wanted. -/
def highlight (colors : Bool) (memory line : String) : String :=
  if colors then String.join ((runs line).map (highlightRun memory)) else line

/-- The gaps stay as they are. -/
example : highlight true "M" "3  tan" = "\x1b[0m3\x1b[0m  \x1b[38;5;1mtan\x1b[0m" := by
  decide +kernel

end Rpn
