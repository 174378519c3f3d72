import Rpn.Stack.Evaluation

/-!
# Expressions on a stack

A stack is a list of tokens. What it stands for are trees: an
**expression** is a value, or an operator applied to one or two
expressions. `Expression.listing` writes an expression down the way it is
entered, every operator after its operands, and `Expression.stacked` is the
same list as a stack holds it, newest operation first.

A listing needs no parentheses since it can be read in one way only. On a
stack it is delimited by itself: what lies below a listing is determined by
the stack (`stacked_append_inj`), so at most one suffix of a list of
operations is the listing of an expression.

Not every stack has such an expression on top. One that has none is
`Unfinished`: reading it from the newest operation downwards, it ends
before the expression does. `exists_stacked_or_unfinished` says that these
are the two possibilities, and everything that is proved about evaluation
goes by them – by recursion on the tree in the one case, and by recursion
on the way the stack falls short in the other.
-/

namespace Rpn

/-- **An expression**, with the operands of an operator in the order in
which they were entered. -/
inductive Expression where
  /-- A number that was typed. -/
  | operand (value : Float)
  /-- A variable. -/
  | var (name : String)
  /-- A number with a symbol of its own. -/
  | constant (symbol : String) (value : Float)
  /-- An operator applied to one operand. -/
  | unary (op : UnaryOp) (argument : Expression)
  /-- An operator applied to two operands. -/
  | binary (op : BinaryOp) (older newer : Expression)

namespace Expression

/-- **The operations of an expression**, oldest first: every operator
comes after its operands, and of those the older one comes first. -/
def listing : Expression → List Operation
  | operand value => [.operand value]
  | var name => [.var name]
  | constant symbol value => [.constant symbol value]
  | unary op argument => argument.listing ++ [.unary op]
  | binary op older newer => older.listing ++ newer.listing ++ [.binary op]

/-- An expression has operations. -/
theorem listing_ne_nil (t : Expression) : t.listing ≠ [] := by
  cases t with
  | unary op argument => exact List.append_ne_nil_of_right_ne_nil _ (List.cons_ne_nil _ _)
  | binary op older newer => exact List.append_ne_nil_of_right_ne_nil _ (List.cons_ne_nil _ _)
  | _ => exact List.cons_ne_nil _ _

/-- The operations of an expression as a stack holds them, newest first. -/
def stacked (t : Expression) : List Operation := t.listing.reverse

@[simp] theorem stacked_operand (value : Float) :
    (operand value).stacked = [.operand value] := rfl

@[simp] theorem stacked_var (name : String) : (var name).stacked = [.var name] := rfl

@[simp] theorem stacked_constant (symbol : String) (value : Float) :
    (constant symbol value).stacked = [.constant symbol value] := rfl

@[simp] theorem stacked_unary (op : UnaryOp) (argument : Expression) :
    (unary op argument).stacked = .unary op :: argument.stacked := by
  rw [stacked, listing, List.reverse_append]
  rfl

@[simp] theorem stacked_binary (op : BinaryOp) (older newer : Expression) :
    (binary op older newer).stacked = .binary op :: (newer.stacked ++ older.stacked) := by
  rw [stacked, listing, List.reverse_append, List.reverse_append]
  rfl

@[simp] theorem reverse_stacked (t : Expression) : t.stacked.reverse = t.listing :=
  List.reverse_reverse _

/-- What lies below an expression on a stack was entered before it. -/
theorem reverse_stacked_append (t : Expression) (below : List Operation) :
    (t.stacked ++ below).reverse = below.reverse ++ t.listing := by
  rw [List.reverse_append, reverse_stacked]

/-- A stack with an expression on top ends in the listing of it. -/
theorem eq_append_listing_of_reverse {operations below : List Operation} {t : Expression}
    (h : operations.reverse = t.stacked ++ below) : operations = below.reverse ++ t.listing := by
  rw [← reverse_stacked_append, ← h, List.reverse_reverse]

/-- **A listing is delimited by itself.** The expression on top of a stack
is determined by the stack, and so is what lies below it. -/
theorem stacked_append_inj {t t' : Expression} {below below' : List Operation}
    (h : t.stacked ++ below = t'.stacked ++ below') : t = t' ∧ below = below' := by
  induction t generalizing t' below below' with
  | operand value => cases t' <;> simp_all
  | var name => cases t' <;> simp_all
  | constant symbol value => cases t' <;> simp_all
  | unary op argument ih =>
    cases t' with
    | unary op' argument' =>
      rw [stacked_unary, stacked_unary, List.cons_append, List.cons_append,
        List.cons.injEq] at h
      obtain ⟨hop, h⟩ := h
      obtain ⟨rfl, rfl⟩ := ih h
      cases hop
      exact ⟨rfl, rfl⟩
    | _ => simp at h
  | binary op older newer ihOlder ihNewer =>
    cases t' with
    | binary op' older' newer' =>
      rw [stacked_binary, stacked_binary, List.cons_append, List.cons_append,
        List.cons.injEq, List.append_assoc, List.append_assoc] at h
      obtain ⟨hop, h⟩ := h
      -- the newer operand lies on top, and is split off first
      obtain ⟨rfl, hrest⟩ := ihNewer h
      obtain ⟨rfl, rfl⟩ := ihOlder hrest
      cases hop
      exact ⟨rfl, rfl⟩
    | _ => simp at h

end Expression

/-! ## Stacks that fall short -/

/-- **A stack that ends before its newest expression does**, newest
operation first. An operator falls short of its operand, or of the newer of
its two, or has the newer one and falls short of the older. -/
inductive Unfinished : List Operation → Prop where
  | nil : Unfinished []
  | unary (op : UnaryOp) {below : List Operation} :
      Unfinished below → Unfinished (.unary op :: below)
  | newer (op : BinaryOp) {below : List Operation} :
      Unfinished below → Unfinished (.binary op :: below)
  | older (op : BinaryOp) (newer : Expression) {below : List Operation} :
      Unfinished below → Unfinished (.binary op :: (newer.stacked ++ below))

/-- **A stack has an expression on top, or falls short of one.** -/
theorem exists_stacked_or_unfinished (stack : List Operation) :
    (∃ t below, stack = Expression.stacked t ++ below) ∨ Unfinished stack := by
  match stack with
  | [] => exact .inr .nil
  | .operand value :: below => exact .inl ⟨.operand value, below, rfl⟩
  | .var name :: below => exact .inl ⟨.var name, below, rfl⟩
  | .constant symbol value :: below => exact .inl ⟨.constant symbol value, below, rfl⟩
  | .unary op :: below =>
    obtain ⟨t, rest, rfl⟩ | short := exists_stacked_or_unfinished below
    · exact .inl ⟨.unary op t, rest, by simp⟩
    · exact .inr (.unary op short)
  | .binary op :: below =>
    obtain ⟨newer, rest, rfl⟩ | short := exists_stacked_or_unfinished below
    · obtain ⟨older, last, rfl⟩ | short := exists_stacked_or_unfinished rest
      · exact .inl ⟨.binary op older newer, last, by simp⟩
      · exact .inr (.older op newer short)
    · exact .inr (.newer op short)
termination_by stack.length
decreasing_by
  all_goals
    subst_vars
    simp only [List.length_cons, List.length_append]
    omega

/-! ## Evaluating what lies on top -/

namespace Expression

/-- **Evaluates an expression**, the newer operand of an operator first. -/
def evaluate (bindings : Bindings) : Expression → Except EvalError Float
  | operand value => .ok value
  | var name =>
    match bindings.get? name with
    | some value => .ok value
    | none => .error (.unboundVariable name)
  | constant _ value => .ok value
  | unary op argument => (argument.evaluate bindings).map op.apply
  | binary op older newer => do
    let y ← newer.evaluate bindings
    let x ← older.evaluate bindings
    .ok (op.apply x y)

/-- **An expression fails only by a variable that has no value.** -/
theorem exists_name_of_evaluate_eq_error {bindings : Bindings} {t : Expression}
    {error : EvalError} (h : t.evaluate bindings = .error error) :
    ∃ name, error = .unboundVariable name := by
  induction t generalizing error with
  | operand value => cases h
  | var name =>
    rw [evaluate] at h
    split at h
    · cases h
    · exact ⟨name, (Except.error.inj h).symm⟩
  | constant symbol value => cases h
  | unary op argument ih =>
    rw [evaluate] at h
    cases harg : argument.evaluate bindings with
    | error inner =>
      rw [harg] at h
      exact ih (harg.trans h)
    | ok x => rw [harg] at h; cases h
  | binary op older newer ihOlder ihNewer =>
    rw [evaluate] at h
    cases hnewer : newer.evaluate bindings with
    | error inner =>
      rw [hnewer] at h
      exact ihNewer (hnewer.trans h)
    | ok y =>
      rw [hnewer] at h
      cases holder : older.evaluate bindings with
      | error inner =>
        rw [holder] at h
        exact ihOlder (holder.trans h)
      | ok x => rw [holder] at h; cases h

/-- An expression is never nothing to evaluate. -/
theorem ne_nothingToEvaluate_of_evaluate_eq_error {bindings : Bindings} {t : Expression}
    {error : EvalError} (h : t.evaluate bindings = .error error) :
    error ≠ .nothingToEvaluate := by
  obtain ⟨name, rfl⟩ := exists_name_of_evaluate_eq_error h
  exact nofun

/-- An expression is never short of an operand. -/
theorem evaluate_ne_missingOperand (t : Expression) (bindings : Bindings) (symbol : String) :
    t.evaluate bindings ≠ .error (.missingOperand symbol) := by
  intro h
  obtain ⟨name, hname⟩ := exists_name_of_evaluate_eq_error h
  cases hname

end Expression

/-- **An operator passes an error of its operand on as it is**, unless the
error is that there is no operand. -/
theorem EvalError.asOperandOf_of_ne {error : EvalError} (h : error ≠ .nothingToEvaluate)
    (symbol : String) : error.asOperandOf symbol = error := by
  cases error with
  | nothingToEvaluate => exact absurd rfl h
  | _ => rfl

section

variable {bindings : Bindings} {below : List Operation} {error : EvalError}

/-- An operator of one operand fails where its operand does. -/
theorem evaluateTop_unary_of_error (op : UnaryOp)
    (h : evaluateTop bindings below = .error error) :
    evaluateTop bindings (.unary op :: below) = .error (error.asOperandOf op.symbol) := by
  rw [evaluateTop_unary, operandFor, h]
  rfl

/-- An operator of two operands fails where the newer one does. -/
theorem evaluateTop_binary_of_error (op : BinaryOp)
    (h : evaluateTop bindings below = .error error) :
    evaluateTop bindings (.binary op :: below) = .error (error.asOperandOf op.symbol) := by
  rw [evaluateTop_binary, operandFor, h]
  rfl

/-- With a value for the newer operand, an operator takes the older one
from what is left. -/
theorem evaluateTop_binary_of_ok (op : BinaryOp) {rest : List Operation} {y : Float}
    (h : evaluateTop bindings below = .ok (y, rest)) :
    evaluateTop bindings (.binary op :: below)
      = ((evaluateTop bindings rest).mapError (EvalError.asOperandOf op.symbol)).map
          fun taken => (op.apply taken.1 y, taken.2) := by
  rw [evaluateTop_binary, operandFor, h]
  rfl

end

namespace Expression

/-- **The value of a stack is that of the expression on top of it**, and
what lies below that expression is left. -/
theorem evaluateTop_stacked (bindings : Bindings) (t : Expression)
    (below : List Operation) :
    evaluateTop bindings (t.stacked ++ below)
      = (t.evaluate bindings).map fun value => (value, below) := by
  induction t generalizing below with
  | operand value => exact evaluateTop_operand bindings below value
  | var name =>
    rw [stacked_var, List.singleton_append, evaluateTop_var, evaluate]
    cases bindings.get? name <;> rfl
  | constant symbol value => exact evaluateTop_constant bindings below symbol value
  | unary op argument ih =>
    rw [stacked_unary, List.cons_append, evaluate]
    cases hx : argument.evaluate bindings with
    | ok x =>
      rw [evaluateTop_unary, operandFor, ih, hx]
      rfl
    | error error =>
      rw [evaluateTop_unary_of_error op (by rw [ih, hx]; rfl),
        EvalError.asOperandOf_of_ne (ne_nothingToEvaluate_of_evaluate_eq_error hx)]
      rfl
  | binary op older newer ihOlder ihNewer =>
    rw [stacked_binary, List.cons_append, List.append_assoc, evaluate]
    cases hy : newer.evaluate bindings with
    | error error =>
      rw [evaluateTop_binary_of_error op (by rw [ihNewer, hy]; rfl),
        EvalError.asOperandOf_of_ne (ne_nothingToEvaluate_of_evaluate_eq_error hy)]
      rfl
    | ok y =>
      rw [evaluateTop_binary_of_ok op (by rw [ihNewer, hy]; rfl), ihOlder]
      cases hx : older.evaluate bindings with
      | ok x => rfl
      | error error =>
        show Except.error (error.asOperandOf op.symbol) = _
        rw [EvalError.asOperandOf_of_ne (ne_nothingToEvaluate_of_evaluate_eq_error hx)]
        rfl

end Expression

/-- **A stack that falls short of its newest expression has no value.** -/
theorem Unfinished.exists_evaluateTop_eq_error {stack : List Operation}
    (short : Unfinished stack) (bindings : Bindings) :
    ∃ error, evaluateTop bindings stack = .error error := by
  induction short with
  | nil => exact ⟨_, evaluateTop_nil bindings⟩
  | unary op _ ih =>
    obtain ⟨error, h⟩ := ih
    exact ⟨_, evaluateTop_unary_of_error op h⟩
  | newer op _ ih =>
    obtain ⟨error, h⟩ := ih
    exact ⟨_, evaluateTop_binary_of_error op h⟩
  | @older op newer below _ ih =>
    obtain ⟨error, h⟩ := ih
    have htop := newer.evaluateTop_stacked bindings below
    cases hy : newer.evaluate bindings with
    | error inner =>
      rw [hy] at htop
      exact ⟨_, evaluateTop_binary_of_error op htop⟩
    | ok y =>
      rw [hy] at htop
      rw [evaluateTop_binary_of_ok op htop, h]
      exact ⟨_, rfl⟩

/-- **A stack whose evaluation succeeds has an expression on top**, with
the operations that are left below it. -/
theorem exists_stacked_of_evaluateTop_eq_ok {bindings : Bindings}
    {stack below : List Operation} {value : Float}
    (h : evaluateTop bindings stack = .ok (value, below)) :
    ∃ t : Expression, stack = t.stacked ++ below := by
  obtain ⟨t, rest, rfl⟩ | short := exists_stacked_or_unfinished stack
  · rw [t.evaluateTop_stacked] at h
    cases hv : t.evaluate bindings with
    | error error => rw [hv] at h; cases h
    | ok v =>
      rw [hv] at h
      cases h
      exact ⟨t, rfl⟩
  · obtain ⟨error, herror⟩ := short.exists_evaluateTop_eq_error bindings
    rw [herror] at h
    cases h

end Rpn
