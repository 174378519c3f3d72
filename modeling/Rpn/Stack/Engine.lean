import Rpn.Stack.Builtin
import Rpn.Stack.Description
import Rpn.Stack.Evaluation

/-!
# The engine

An **engine** is a stack of operations together with the values of the
variables. Entering something never fails: an operation that cannot be
evaluated stays on the stack like any other, and what the stack is worth is
a question of its own, `Engine.evaluate`.

The stack is kept newest operation first, which is the end it grows at and
the end evaluation starts from. `Engine.operations` is the stack in the
order in which it was entered.
-/

namespace Rpn

/-- **A calculator without a display**: a stack, and variables. -/
structure Engine where
  /-- The stack, newest operation first. -/
  stack : List Operation
  /-- The values of the variables. -/
  bindings : Bindings

namespace Engine

/-- Nothing on the stack, and no variable set. -/
def empty : Engine := ⟨[], .empty⟩

/-- **The operations on the stack**, oldest first. -/
def operations (engine : Engine) : List Operation := engine.stack.reverse

/-- The number of operations on the stack. -/
def depth (engine : Engine) : Nat := engine.stack.length

/-- The newest operation, if there is one. -/
def newest? (engine : Engine) : Option Operation := engine.stack.head?

/-! ## The stack -/

/-- **Enters an operation.** -/
def push (engine : Engine) (operation : Operation) : Engine :=
  { engine with stack := operation :: engine.stack }

/-- **Enters the operation a symbol stands for.** A symbol that stands for
none changes nothing. -/
def pushSymbol (engine : Engine) (symbol : String) : Engine :=
  match builtin? symbol with
  | some operation => engine.push operation
  | none => engine

/-- **Removes the newest operation**, if there is one. -/
def pop (engine : Engine) : Engine := { engine with stack := engine.stack.tail }

/-- **Removes every operation**, and keeps the variables. -/
def clear (engine : Engine) : Engine := { engine with stack := [] }

/-! ## The variables -/

/-- **Sets a variable**, and keeps the stack. -/
def setVariable (engine : Engine) (name : String) (value : Float) : Engine :=
  { engine with bindings := engine.bindings.set name value }

/-- The value of a variable, if it is set. -/
def valueOf? (engine : Engine) (name : String) : Option Float := engine.bindings.get? name

/-- **Unsets every variable**, and keeps the stack. -/
def clearVariables (engine : Engine) : Engine := { engine with bindings := .empty }

/-! ## What an engine shows -/

/-- **The outcome of the stack.** -/
def evaluate (engine : Engine) : Outcome := outcome engine.bindings engine.stack

/-- **The description of the stack.** -/
def describe (engine : Engine) : String := description engine.operations

@[simp] theorem operations_empty : empty.operations = [] := rfl

@[simp] theorem operations_push (engine : Engine) (operation : Operation) :
    (engine.push operation).operations = engine.operations ++ [operation] := by
  simp [operations, push]

@[simp] theorem operations_pop (engine : Engine) :
    engine.pop.operations = engine.operations.dropLast := by
  simp [operations, pop]

@[simp] theorem operations_clear (engine : Engine) : engine.clear.operations = [] := rfl

end Engine

end Rpn
