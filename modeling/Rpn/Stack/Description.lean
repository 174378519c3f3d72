import Rpn.Stack.Operation

/-!
# Describing a stack

A stack is described in the usual notation, with operators between their
operands: one piece of text for each expression on it, oldest first. The
description is total – it is shown while an expression is still being
entered – so an operand that is missing is shown as a question mark, and
whatever is not yet consumed by an operator is a piece of its own.

A piece is kept as a `Fragment`, a tree that says what was written where,
and becomes text at the end. `describeFrom` reads the operations oldest
first and keeps the fragments so far, newest first, the way an evaluator
would keep values: an operator takes its operands from them and puts the
combination back.

## Parentheses

Parentheses are not decided by how operators bind. A combination is put in
parentheses when it is made, by a glance at the one operation that follows:
it stays bare if nothing follows, or if the same operator does and so
continues the chain. A combination with a missing operand never gets
parentheses; only the oldest fragment can be one.

An operator of one operand always writes its operand in parentheses of its
own, as a function would. With nothing to apply to it ends the description,
and whatever comes after it is not described. This can only happen before
there is any fragment, since no operation leaves fewer than one.
-/

namespace Rpn

/-- **A piece of a description.** -/
inductive Fragment where
  /-- An operand that is missing. -/
  | hole
  /-- A value, by its text. -/
  | leaf (text : String)
  /-- An operator in front of its operand. -/
  | apply (op : UnaryOp) (argument : Fragment)
  /-- An operator between its operands. -/
  | combine (op : BinaryOp) (lhs rhs : Fragment)
  /-- A fragment in parentheses. -/
  | group (inner : Fragment)
deriving DecidableEq, Repr

namespace Fragment

/-- **The text of a fragment.** -/
def text : Fragment → String
  | hole => "?"
  | leaf text => text
  | apply op argument => op.symbol ++ "(" ++ argument.text ++ ")"
  | combine op lhs rhs => lhs.text ++ op.symbol ++ rhs.text
  | group inner => "(" ++ inner.text ++ ")"

end Fragment

/-- **Whether a combination needs parentheses**, given the operations that
follow it: the next one decides. -/
def needsGroup (op : BinaryOp) : (following : List Operation) → Bool
  | [] => false
  | .binary next :: _ => next ≠ op
  | _ :: _ => true

/-- **A combination of two fragments**, in parentheses if it needs them. -/
def combination (op : BinaryOp) (lhs rhs : Fragment) (following : List Operation) : Fragment :=
  if needsGroup op following then .group (.combine op lhs rhs) else .combine op lhs rhs

/-- **Describes operations**, oldest first, after the fragments that
describe what came before them, newest first. The result is oldest
first. -/
def describeFrom (fragments : List Fragment) : List Operation → List Fragment
  | [] => fragments.reverse
  | .unary op :: following =>
    match fragments with
    | [] => []
    | argument :: older => describeFrom (.apply op argument :: older) following
  | .binary op :: following =>
    match fragments with
    | [] => describeFrom [.combine op .hole .hole] following
    | [rhs] => describeFrom [.combine op .hole rhs] following
    | rhs :: lhs :: older => describeFrom (combination op lhs rhs following :: older) following
  | operation :: following => describeFrom (.leaf operation.text :: fragments) following

/-- **The fragments of a stack**, both oldest first. -/
def fragments (operations : List Operation) : List Fragment := describeFrom [] operations

/-- **The texts of the fragments of a stack**, one for each expression on
it. -/
def texts (operations : List Operation) : List String :=
  (fragments operations).map Fragment.text

/-- **The description of a stack**, oldest operation first: the texts of
its fragments, separated by commas. -/
def description (operations : List Operation) : String := ", ".intercalate (texts operations)

/-- **The line above a result**: the description and an equals sign, or
nothing if there is nothing to describe. -/
def historyLine (description : String) : String :=
  if description = "" then "" else description ++ " ="

/-- A chain of one operator stays bare, a change of operator closes what
came before it. -/
example : description [.var "a", .var "b", .var "c", .binary .add, .binary .add,
    .var "d", .binary .multiply] = "(a+b+c)×d" := by decide +kernel

/-- What is missing is shown, and what is left over stands on its own. -/
example : description [.var "a", .binary .add, .var "b", .var "c"] = "?+a, b, c" := by
  decide +kernel

end Rpn
