import Rpn.Number.Text

/-!
# Operations

A calculator stack holds **operations** in the order in which they were
entered: values – an operand, a named variable, a constant – and the
operators that come after what they apply to. An operator is not carried
out when it is entered. It stays on the stack as a token of its own, so
that the whole stack can be described, evaluated again when a variable
changes, and undone one token at a time.
-/

namespace Rpn

/-! ## Operators -/

/-- **The operators of one operand.** -/
inductive UnaryOp where
  | sqrt
  | sin
  | cos
  | negate
deriving DecidableEq, Repr

/-- **The operators of two operands.** -/
inductive BinaryOp where
  | multiply
  | add
  | divide
  | subtract
deriving DecidableEq, Repr

/-- The symbol an operator is entered and shown as. -/
def UnaryOp.symbol : UnaryOp → String
  | sqrt => "√"
  | sin => "sin"
  | cos => "cos"
  | negate => "±"

/-- **The value of an operator at its operand.** -/
def UnaryOp.apply : UnaryOp → Float → Float
  | sqrt, x => x.sqrt
  | sin, x => x.sin
  | cos, x => x.cos
  | negate, x => -x

/-- The symbol an operator is entered and shown as. Subtraction is the
minus sign, not the hyphen. -/
def BinaryOp.symbol : BinaryOp → String
  | multiply => "×"
  | add => "+"
  | divide => "÷"
  | subtract => "−"

/-- **The value of an operator at its operands**, the one entered first on
the left. -/
def BinaryOp.apply (op : BinaryOp) (older newer : Float) : Float :=
  match op with
  | multiply => older * newer
  | add => older + newer
  | divide => older / newer
  | subtract => older - newer

/-! ## Tokens of the stack -/

/-- **One token of a calculator stack.**

Equality of operations, `==`, compares their numbers as numbers: the two
zeros are equal, and an operand that is not a number is equal to none. -/
inductive Operation where
  /-- A number that was typed. -/
  | operand (value : Float)
  /-- A variable, looked up when the stack is evaluated. -/
  | var (name : String)
  /-- A number with a symbol of its own. -/
  | constant (symbol : String) (value : Float)
  /-- An operator of one operand. -/
  | unary (op : UnaryOp)
  /-- An operator of two operands. -/
  | binary (op : BinaryOp)
deriving BEq, Repr

/-- **How tightly an operation holds together** where it is an operand of
another: a combination of two may need parentheses, anything else never
does. All operators of two operands are on the same tier. -/
inductive Precedence where
  | binary
  | atomic
deriving DecidableEq, Repr

namespace Operation

/-- **What an operation is shown as**: the text of its number, its name, or
its symbol. -/
def text : Operation → String
  | operand value => numberText value
  | var name => name
  | constant symbol _ => symbol
  | unary op => op.symbol
  | binary op => op.symbol

/-- The tier of an operation. -/
def precedence : Operation → Precedence
  | binary _ => .binary
  | _ => .atomic

/-- Whether an operation combines two operands. -/
def isBinary (operation : Operation) : Bool := operation.precedence = .binary

end Operation

end Rpn
