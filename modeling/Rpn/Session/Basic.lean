import Rpn.Session.Command
import Rpn.Stack.Engine
import Rpn.Text.Words

/-!
# Sessions

A **session** is a calculator as it is used: an engine, the name of its
memory variable, and a display. The display shows the outcome of the last
command. It is what gets stored into the memory, so it is part of the state
and not only of the output.

Entering something shows the outcome of the stack. Storing and undoing show
it again, since either may change it: the stack may refer to the memory,
and undoing takes an operation off. On an empty stack there is nothing to
evaluate, and the display then keeps the number it shows, or goes back to
zero if it shows an error.
-/

namespace Rpn

/-- **A calculator in use.** -/
structure Session where
  /-- The stack and the variables. -/
  engine : Engine
  /-- The name of the memory variable. -/
  memory : String
  /-- What is on the display. -/
  display : Outcome

namespace Session

/-- **What the display shows at the start** and after clearing: zero. -/
def startupDisplay : Outcome := .ok 0

/-- **A session on an engine**, whatever that holds. -/
def start (engine : Engine) (memory : String) : Session := ⟨engine, memory, startupDisplay⟩

/-- **The outcome to show again**: that of the stack, unless it is empty. -/
def refreshed (engine : Engine) (display : Outcome) : Outcome :=
  match engine.stack, display with
  | _ :: _, _ => engine.evaluate
  | [], .ok value => .ok value
  | [], .error _ => startupDisplay

/-- The session after something was entered. -/
def entered (session : Session) (engine : Engine) : Session :=
  { session with engine, display := engine.evaluate }

/-- The session after its engine changed in any other way. -/
def refresh (session : Session) (engine : Engine) : Session :=
  { session with engine, display := refreshed engine session.display }

/-- **The engine after the display was stored into the memory.** An error
is not stored. -/
def stored (session : Session) : Engine :=
  match session.display with
  | .ok value => session.engine.setVariable session.memory value
  | .error _ => session.engine

/-- **Executes one command.** -/
def execute (session : Session) : Command → Session
  | .operand value => session.entered (session.engine.push (.operand value))
  | .recallMemory => session.entered (session.engine.push (.var session.memory))
  | .symbol symbol => session.entered (session.engine.pushSymbol symbol)
  | .storeMemory => session.refresh session.stored
  | .undo => session.refresh session.engine.pop
  | .clear =>
    { session with engine := session.engine.clear.clearVariables, display := startupDisplay }

/-- **Executes one word.** -/
def executeWord (session : Session) (word : String) : Session :=
  session.execute (Command.ofWord session.memory word)

/-- **Executes a line**, word by word. -/
def executeLine (session : Session) (line : String) : Session :=
  (words line).foldl executeWord session

/-- **The line above the result.** -/
def history (session : Session) : String := historyLine session.engine.describe

/-- The value of the memory, if it is set. -/
def memoryValue? (session : Session) : Option Float := session.engine.valueOf? session.memory

@[simp] theorem memory_execute (session : Session) (command : Command) :
    (session.execute command).memory = session.memory := by
  cases command <;> rfl

@[simp] theorem memory_executeWord (session : Session) (word : String) :
    (session.executeWord word).memory = session.memory :=
  memory_execute session _

end Session

end Rpn
