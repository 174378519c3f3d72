import Rpn.Stack.Bindings
import Rpn.Stack.Operation

/-!
# Evaluating a stack

The value of a stack is the value of its newest complete expression.
Evaluation starts at the newest operation and takes from the stack what
that operation needs: nothing for a value, one expression for an operator
of one operand, and two for an operator of two – the newer operand lies on
top and is taken first, though it is the one on the right. Whatever lies
below the expression is not looked at.

`takeValue` is that recursion, on a stack whose newest operation comes
first. It returns the value together with the operations it left, and the
type of what it returns says that these are fewer than it was given, which
is why taking a second operand from what the first one left comes to an
end. `evaluateTop` is the same without the count, and has one equation per
operation. `outcome` is the outcome of a stack as the calculator reports
it: a value that is infinite or not a number is an error there, and only
there. Inside an expression such values are calculated with like any
others, since a later operation may lead back to a finite one.

## Which error is reported

An operator finds either an expression or an empty stack where its operand
should be. In the second case it is the operator that lacks an operand, and
`EvalError.asOperandOf` puts its name to the error; any other error comes
from inside the operand and is passed on as it is. As operands are taken
newest first, the error that surfaces is the first one met from the top.
-/

namespace Rpn

/-- **Why a stack has no value to show.** -/
inductive EvalError where
  /-- A variable has no value. -/
  | unboundVariable (name : String)
  /-- The stack ends where an operator's operand should be. -/
  | missingOperand (symbol : String)
  /-- The value is an infinity. -/
  | infiniteResult
  /-- The value is not a number. -/
  | notANumber
  /-- The stack is empty. -/
  | nothingToEvaluate
deriving DecidableEq, Repr

namespace EvalError

/-- The wording of an error. -/
def message : EvalError → String
  | unboundVariable name => "Variable '" ++ name ++ "' is not set"
  | missingOperand symbol => "Not enough operands for '" ++ symbol ++ "'"
  | infiniteResult => "Result is infinite"
  | notANumber => "Result is not a number"
  | nothingToEvaluate => "Nothing to evaluate"

/-- **The error of an operator whose operand could not be evaluated**: an
operand that is not there is the operator's own error. -/
def asOperandOf (symbol : String) : EvalError → EvalError
  | nothingToEvaluate => missingOperand symbol
  | error => error

end EvalError

/-- **The outcome of an evaluation**: a number, or why there is none. -/
abbrev Outcome := Except EvalError Float

/-- **How an outcome is shown.** -/
def Outcome.text : Outcome → String
  | .ok value => "= " ++ numberText value
  | .error error => "Error: " ++ error.message

/-- **The value of an expression and the operations below it.** -/
abbrev Evaluated := Float × List Operation

/-- What is left of a stack after something was taken from it. -/
abbrev Remainder (stack : List Operation) :=
  { below : List Operation // below.length < stack.length }

/-- **Evaluates the newest expression of a stack**, which comes with its
newest operation first, and returns it with what lies below the
expression. -/
def takeValue (bindings : Bindings) :
    (stack : List Operation) → Except EvalError (Float × Remainder stack)
  | [] => .error .nothingToEvaluate
  | .operand value :: below => .ok (value, ⟨below, Nat.lt_succ_self _⟩)
  | .constant _ value :: below => .ok (value, ⟨below, Nat.lt_succ_self _⟩)
  | .var name :: below =>
    match bindings.get? name with
    | some value => .ok (value, ⟨below, Nat.lt_succ_self _⟩)
    | none => .error (.unboundVariable name)
  | .unary op :: below =>
    match takeValue bindings below with
    | .error error => .error (error.asOperandOf op.symbol)
    | .ok (x, ⟨rest, shorter⟩) =>
      .ok (op.apply x, ⟨rest, Nat.lt_succ_of_lt shorter⟩)
  | .binary op :: below =>
    match takeValue bindings below with
    | .error error => .error (error.asOperandOf op.symbol)
    | .ok (newer, ⟨rest, shorter⟩) =>
      match takeValue bindings rest with
      | .error error => .error (error.asOperandOf op.symbol)
      | .ok (older, ⟨last, shorter'⟩) =>
        .ok (op.apply older newer, ⟨last, Nat.lt_succ_of_lt (Nat.lt_trans shorter' shorter)⟩)
termination_by stack => stack.length
decreasing_by
  · exact Nat.lt_succ_self _
  · exact Nat.lt_succ_self _
  · exact Nat.lt_succ_of_lt shorter

/-- **Evaluates the newest expression of a stack**, newest operation first:
its value, and the operations below it. -/
def evaluateTop (bindings : Bindings) (stack : List Operation) : Except EvalError Evaluated :=
  (takeValue bindings stack).map fun taken => (taken.1, taken.2.val)

/-- **Takes an operand for an operator** from the top of a stack. -/
def operandFor (symbol : String) (bindings : Bindings) (stack : List Operation) :
    Except EvalError Evaluated :=
  (evaluateTop bindings stack).mapError (EvalError.asOperandOf symbol)

/-! ## One equation per operation -/

section

variable (bindings : Bindings) (below : List Operation)

@[simp] theorem evaluateTop_nil : evaluateTop bindings [] = .error .nothingToEvaluate := by
  simp [evaluateTop, takeValue, Except.map]

@[simp] theorem evaluateTop_operand (value : Float) :
    evaluateTop bindings (.operand value :: below) = .ok (value, below) := by
  simp [evaluateTop, takeValue, Except.map]

@[simp] theorem evaluateTop_constant (symbol : String) (value : Float) :
    evaluateTop bindings (.constant symbol value :: below) = .ok (value, below) := by
  simp [evaluateTop, takeValue, Except.map]

theorem evaluateTop_var (name : String) :
    evaluateTop bindings (.var name :: below)
      = match bindings.get? name with
        | some value => .ok (value, below)
        | none => .error (.unboundVariable name) := by
  simp only [evaluateTop, takeValue]
  cases bindings.get? name <;> rfl

/-- An operator of one operand is applied to the expression below it. -/
theorem evaluateTop_unary (op : UnaryOp) :
    evaluateTop bindings (.unary op :: below) = (do
      let (x, rest) ← operandFor op.symbol bindings below
      .ok (op.apply x, rest)) := by
  simp only [operandFor, evaluateTop, takeValue]
  cases takeValue bindings below <;> rfl

/-- An operator of two operands takes the newer one first and applies
itself with the older one on the left. -/
theorem evaluateTop_binary (op : BinaryOp) :
    evaluateTop bindings (.binary op :: below) = (do
      let (newer, rest) ← operandFor op.symbol bindings below
      let (older, rest) ← operandFor op.symbol bindings rest
      .ok (op.apply older newer, rest)) := by
  simp only [operandFor, evaluateTop, takeValue]
  cases takeValue bindings below with
  | error error => rfl
  | ok taken =>
    obtain ⟨newer, rest, shorter⟩ := taken
    dsimp only
    show _ = (((takeValue bindings rest).map fun taken => (taken.1, taken.2.val)).mapError
      (EvalError.asOperandOf op.symbol)).bind fun taken => .ok (op.apply taken.1 newer, taken.2)
    cases takeValue bindings rest <;> rfl

end

/-! ## The outcome of a stack -/

/-- **Whether a value can be shown**: an infinity and what is not a number
are errors. -/
def Outcome.ofValue (value : Float) : Outcome :=
  match Binary64.ofFloat value with
  | .finite .. => .ok value
  | .infinite _ => .error .infiniteResult
  | .nan => .error .notANumber

/-- **The outcome of a stack**, newest operation first. -/
def outcome (bindings : Bindings) (stack : List Operation) : Outcome := do
  let (value, _) ← evaluateTop bindings stack
  Outcome.ofValue value

end Rpn
