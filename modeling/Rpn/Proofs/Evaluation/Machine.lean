import Rpn.Proofs.Evaluation.Expression

/-!
# Evaluating in one pass

A stack can be evaluated in the order in which it was entered, by a machine
that keeps one **entry** for each expression it has read: the value of the
expression, or the error that it has. Every operation is looked at once,
and an operator that lacks an operand leaves an entry too, so the machine
never stops early.

This is not the way of `evaluateTop`, which starts at the newest operation
and may leave most of the stack unread. The entries relate the two. An
expression adds one entry, its own outcome, on top of those there are
(`runFrom_listing`); a stack that falls short of an expression is a single
entry, an error (`Unfinished.run_reverse`), because an operator lacks an
operand only at the bottom of the stack and whatever is entered later is an
operand of an expression that contains it. So the newest entry is the
outcome of the stack, and the entries below it are those of the operations
that evaluation leaves (`evaluateTop_eq_newest_entry`).
-/

namespace Rpn

/-- **What the machine keeps of an expression**: its value or its error. -/
abbrev Entry := Except EvalError Float

namespace Machine

/-- The entry of a variable. -/
def entryOfVar (bindings : Bindings) (name : String) : Entry :=
  match bindings.get? name with
  | some value => .ok value
  | none => .error (.unboundVariable name)

/-- **The entry of two entries and an operator.** An error of the newer one
goes before an error of the older one. -/
def combined (op : BinaryOp) (older newer : Entry) : Entry :=
  match newer, older with
  | .error error, _ => .error error
  | .ok _, .error error => .error error
  | .ok y, .ok x => .ok (op.apply x y)

/-- The entry of an operator of two operands that finds only one. -/
def halfCombined (op : BinaryOp) : (newer : Entry) → Entry
  | .error error => .error error
  | .ok _ => .error (.missingOperand op.symbol)

/-- **Reads one operation**, after the entries there are, newest first. -/
def step (bindings : Bindings) (entries : List Entry) : Operation → List Entry
  | .operand value => .ok value :: entries
  | .constant _ value => .ok value :: entries
  | .var name => entryOfVar bindings name :: entries
  | .unary op =>
    match entries with
    | [] => [.error (.missingOperand op.symbol)]
    | entry :: older => entry.map op.apply :: older
  | .binary op =>
    match entries with
    | [] => [.error (.missingOperand op.symbol)]
    | [newer] => [halfCombined op newer]
    | newer :: older :: rest => combined op older newer :: rest

/-- **Reads operations**, oldest first. -/
def runFrom (bindings : Bindings) (entries : List Entry) (operations : List Operation) :
    List Entry :=
  operations.foldl (step bindings) entries

/-- **The entries of operations**, newest entry first, for operations that
come oldest first. -/
def run (bindings : Bindings) (operations : List Operation) : List Entry :=
  runFrom bindings [] operations

variable {bindings : Bindings}

theorem runFrom_append (entries : List Entry) (a b : List Operation) :
    runFrom bindings entries (a ++ b) = runFrom bindings (runFrom bindings entries a) b :=
  List.foldl_append

theorem run_append (a b : List Operation) :
    run bindings (a ++ b) = runFrom bindings (run bindings a) b :=
  runFrom_append [] a b

/-- **An expression is one entry**, the outcome of the expression. The
entries below are not touched. -/
theorem runFrom_listing (t : Expression) (entries : List Entry) :
    runFrom bindings entries t.listing = t.evaluate bindings :: entries := by
  induction t generalizing entries with
  | operand value => rfl
  | var name =>
    show entryOfVar bindings name :: entries = _
    unfold Expression.evaluate entryOfVar
    cases bindings.get? name <;> rfl
  | constant symbol value => rfl
  | unary op argument ih =>
    rw [Expression.listing, runFrom_append, ih, Expression.evaluate]
    rfl
  | binary op older newer ihOlder ihNewer =>
    rw [Expression.listing, runFrom_append, runFrom_append, ihOlder, ihNewer,
      Expression.evaluate]
    show combined op (older.evaluate bindings) (newer.evaluate bindings) :: entries = _
    cases newer.evaluate bindings with
    | error error => rfl
    | ok y => cases older.evaluate bindings <;> rfl

/-- A stack with an expression on top has the outcome of that expression as
its newest entry. -/
theorem run_reverse_stacked (t : Expression) (below : List Operation) :
    run bindings (t.stacked ++ below).reverse
      = t.evaluate bindings :: run bindings below.reverse := by
  rw [t.reverse_stacked_append, run_append, runFrom_listing]

end Machine

open Machine in
/-- **A stack that falls short of an expression is a single entry**, the
error of its evaluation, or none if it is empty. -/
theorem Unfinished.run_reverse {stack : List Operation} (short : Unfinished stack)
    (bindings : Bindings) :
    stack = [] ∨ ∃ error, error ≠ .nothingToEvaluate
      ∧ evaluateTop bindings stack = .error error
      ∧ run bindings stack.reverse = [.error error] := by
  induction short with
  | nil => exact .inl rfl
  | @unary op below _ ih =>
    refine .inr ?_
    obtain rfl | ⟨error, named, herror, hrun⟩ := ih
    · exact ⟨.missingOperand op.symbol, nofun,
        evaluateTop_unary_of_error op (evaluateTop_nil bindings), rfl⟩
    · refine ⟨error, named, ?_, ?_⟩
      · rw [evaluateTop_unary_of_error op herror, EvalError.asOperandOf_of_ne named]
      · rw [List.reverse_cons, run_append, hrun]
        rfl
  | @newer op below _ ih =>
    refine .inr ?_
    obtain rfl | ⟨error, named, herror, hrun⟩ := ih
    · exact ⟨.missingOperand op.symbol, nofun,
        evaluateTop_binary_of_error op (evaluateTop_nil bindings), rfl⟩
    · refine ⟨error, named, ?_, ?_⟩
      · rw [evaluateTop_binary_of_error op herror, EvalError.asOperandOf_of_ne named]
      · rw [List.reverse_cons, run_append, hrun]
        rfl
  | @older op newer below _ ih =>
    refine .inr ?_
    have htop := newer.evaluateTop_stacked bindings below
    rw [List.reverse_cons, run_append, run_reverse_stacked]
    cases hy : newer.evaluate bindings with
    | error inner =>
      have named := Expression.ne_nothingToEvaluate_of_evaluate_eq_error hy
      rw [hy] at htop
      refine ⟨inner, named, ?_, ?_⟩
      · rw [evaluateTop_binary_of_error op htop, EvalError.asOperandOf_of_ne named]
      · obtain rfl | ⟨error, -, -, hrun⟩ := ih
        · rfl
        · rw [hrun]
          rfl
    | ok y =>
      rw [hy] at htop
      rw [evaluateTop_binary_of_ok op htop]
      obtain rfl | ⟨error, named, herror, hrun⟩ := ih
      · refine ⟨.missingOperand op.symbol, nofun, ?_, rfl⟩
        rw [evaluateTop_nil]
        rfl
      · refine ⟨error, named, ?_, ?_⟩
        · rw [herror]
          exact congrArg Except.error (EvalError.asOperandOf_of_ne named op.symbol)
        · rw [hrun]
          rfl

namespace Machine

/-- **What evaluation from the top says, and the entries that say the
same.** -/
inductive Shown (bindings : Bindings) : Except EvalError Evaluated → List Entry → Prop where
  | nothing : Shown bindings (.error .nothingToEvaluate) []
  | error {error : EvalError} {older : List Entry} :
      error ≠ .nothingToEvaluate → Shown bindings (.error error) (.error error :: older)
  | value (value : Float) (left : List Operation) :
      Shown bindings (.ok (value, left)) (.ok value :: run bindings left.reverse)

/-- **The entries of a stack show its evaluation.** -/
theorem shown_run (bindings : Bindings) (stack : List Operation) :
    Shown bindings (evaluateTop bindings stack) (run bindings stack.reverse) := by
  obtain ⟨t, below, rfl⟩ | short := exists_stacked_or_unfinished stack
  · rw [t.evaluateTop_stacked, run_reverse_stacked]
    cases ht : t.evaluate bindings with
    | error error => exact .error (Expression.ne_nothingToEvaluate_of_evaluate_eq_error ht)
    | ok value => exact .value value below
  · obtain rfl | ⟨error, named, herror, hrun⟩ := short.run_reverse bindings
    · rw [evaluateTop_nil]
      exact .nothing
    · rw [herror, hrun]
      exact .error named

/-- **Evaluating from the top gives the newest entry of one pass from the
bottom.** There is nothing to evaluate exactly if there is no entry; any
other error is that of the newest entry, and so is a value; and the entries
below a value are those of the operations that evaluation leaves. -/
theorem evaluateTop_eq_newest_entry (bindings : Bindings) (operations : List Operation) :
    (evaluateTop bindings operations.reverse = .error .nothingToEvaluate
      ↔ run bindings operations = [])
    ∧ (∀ error, evaluateTop bindings operations.reverse = .error error
        ∧ error ≠ .nothingToEvaluate
      ↔ (run bindings operations).head? = some (.error error))
    ∧ (∀ value, (∃ left, evaluateTop bindings operations.reverse = .ok (value, left))
      ↔ (run bindings operations).head? = some (.ok value))
    ∧ ∀ value left, evaluateTop bindings operations.reverse = .ok (value, left) →
      run bindings operations = .ok value :: run bindings left.reverse := by
  have shown := shown_run bindings operations.reverse
  rw [List.reverse_reverse] at shown
  generalize evaluateTop bindings operations.reverse = outcome at shown ⊢
  generalize run bindings operations = entries at shown ⊢
  cases shown with
  | nothing => simp
  | error named => simpa using named
  | value value left => simp

end Machine

end Rpn
