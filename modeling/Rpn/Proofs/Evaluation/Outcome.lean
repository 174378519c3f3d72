import Rpn.Proofs.Evaluation.Expression
import Rpn.Proofs.Number.Status
import Rpn.Stack.Engine

/-!
# The outcome of a stack

An evaluator that takes operands from the top of a stack, and the operands
of those from what is left, says little about what its outcome is. This
module says it in terms of the tree on top of the stack and of one scan
over the operations from the oldest on.

If the operations end in an expression, then in only one way, and the
outcome is the value of that expression – or the error of its newest
variable without a value. Whatever is below takes no part.

If they end in none, the evaluator runs down to the bottom of the stack. On
its way it meets every variable, newest first, and the first without a
value is the error. If all have one it is the bottom that stops it, and
then some operator lacks an operand. Several may, and the one that is named
is the oldest (`lacking?`): the others stand above it, and were waiting for
an operand that contains it.

`Engine.evaluate_newest_expression` is the three statements together.
-/

namespace Rpn

/-! ## Variables without a value -/

/-- **The variables without a value**, in the order in which the operations
name them. -/
def unbound (bindings : Bindings) (operations : List Operation) : List String :=
  operations.filterMap fun
    | .var name => if (bindings.get? name).isSome then none else some name
    | _ => none

/-- **The newest variable without a value**, in operations that come oldest
first. -/
def newestUnbound? (bindings : Bindings) (operations : List Operation) : Option String :=
  (unbound bindings operations).getLast?

section

variable (bindings : Bindings)

/-- What comes last is looked at first. -/
theorem newestUnbound?_append (a b : List Operation) :
    newestUnbound? bindings (a ++ b)
      = (newestUnbound? bindings b).or (newestUnbound? bindings a) := by
  rw [newestUnbound?, unbound, List.filterMap_append, List.getLast?_append]
  rfl

/-- An operator names no variable. -/
@[simp] theorem newestUnbound?_append_unary (operations : List Operation) (op : UnaryOp) :
    newestUnbound? bindings (operations ++ [.unary op])
      = newestUnbound? bindings operations := by
  rw [newestUnbound?_append]
  rfl

@[simp] theorem newestUnbound?_append_binary (operations : List Operation) (op : BinaryOp) :
    newestUnbound? bindings (operations ++ [.binary op])
      = newestUnbound? bindings operations := by
  rw [newestUnbound?_append]
  rfl

end

/-! ## The value of an expression -/

namespace Expression

/-- **The value of an expression**, if all its variables have one. -/
def value? (bindings : Bindings) : Expression → Option Float
  | operand value => some value
  | var name => bindings.get? name
  | constant _ value => some value
  | unary op argument => (argument.value? bindings).map op.apply
  | binary op older newer =>
    (older.value? bindings).bind fun x => (newer.value? bindings).map fun y => op.apply x y

variable {bindings : Bindings} {t : Expression}

/-- **An expression whose variables have values has one.** -/
theorem exists_value_of_newestUnbound?_eq_none
    (h : newestUnbound? bindings t.listing = none) :
    ∃ value, t.value? bindings = some value ∧ t.evaluate bindings = .ok value := by
  induction t with
  | operand value => exact ⟨value, rfl, rfl⟩
  | var name =>
    rw [newestUnbound?, unbound, listing] at h
    rw [value?, evaluate]
    cases hb : bindings.get? name with
    | some value => exact ⟨value, rfl, rfl⟩
    | none => simp [hb] at h
  | constant symbol value => exact ⟨value, rfl, rfl⟩
  | unary op argument ih =>
    rw [listing, newestUnbound?_append_unary] at h
    obtain ⟨x, hx, ex⟩ := ih h
    refine ⟨op.apply x, ?_, ?_⟩
    · rw [value?, hx]
      rfl
    · rw [evaluate, ex]
      rfl
  | binary op older newer ihOlder ihNewer =>
    rw [listing, newestUnbound?_append_binary, newestUnbound?_append, Option.or_eq_none_iff]
      at h
    obtain ⟨y, hy, ey⟩ := ihNewer h.1
    obtain ⟨x, hx, ex⟩ := ihOlder h.2
    refine ⟨op.apply x y, ?_, ?_⟩
    · rw [value?, hx, hy]
      rfl
    · rw [evaluate, ey, ex]
      rfl

/-- **The error of an expression is that of its newest variable without a
value**, since newer operands are evaluated first. -/
theorem evaluate_of_newestUnbound?_eq_some {name : String}
    (h : newestUnbound? bindings t.listing = some name) :
    t.evaluate bindings = .error (.unboundVariable name) := by
  induction t with
  | operand value => cases h
  | var other =>
    rw [newestUnbound?, unbound, listing] at h
    rw [evaluate]
    cases hb : bindings.get? other with
    | some value => simp [hb] at h
    | none => simpa [hb] using h
  | constant symbol value => cases h
  | unary op argument ih =>
    rw [listing, newestUnbound?_append_unary] at h
    rw [evaluate, ih h]
    rfl
  | binary op older newer ihOlder ihNewer =>
    rw [listing, newestUnbound?_append_binary, newestUnbound?_append] at h
    rw [evaluate]
    cases hn : newestUnbound? bindings newer.listing with
    | some other =>
      rw [hn] at h
      cases h
      rw [ihNewer hn]
      rfl
    | none =>
      rw [hn] at h
      obtain ⟨y, -, ey⟩ := exists_value_of_newestUnbound?_eq_none hn
      rw [ey]
      show older.evaluate bindings >>= _ = _
      rw [ihOlder h]
      rfl

end Expression

/-! ## Operators without an operand -/

/-- **The oldest operator that lacks an operand**, among operations that
come oldest first, after `depth` expressions. A value adds an expression,
and an operator turns its operands into one. -/
def lackingFrom : (depth : Nat) → List Operation → Option Operation
  | _, [] => none
  | depth, .unary op :: following =>
    if depth = 0 then some (.unary op) else lackingFrom depth following
  | depth, .binary op :: following =>
    if depth < 2 then some (.binary op) else lackingFrom (depth - 1) following
  | depth, _ :: following => lackingFrom (depth + 1) following

/-- **The oldest operator that lacks an operand**, if there is one. -/
def lacking? (operations : List Operation) : Option Operation := lackingFrom 0 operations

/-- An expression lacks nothing, and counts as one. -/
theorem lackingFrom_listing (t : Expression) (depth : Nat) (following : List Operation) :
    lackingFrom depth (t.listing ++ following) = lackingFrom (depth + 1) following := by
  induction t generalizing depth following with
  | operand value => rfl
  | var name => rfl
  | constant symbol value => rfl
  | unary op argument ih =>
    rw [Expression.listing, List.append_assoc, ih]
    exact if_neg (Nat.succ_ne_zero depth)
  | binary op older newer ihOlder ihNewer =>
    rw [Expression.listing, List.append_assoc, List.append_assoc, ihOlder, ihNewer]
    exact if_neg (by omega)

/-- What follows the oldest operator that lacks an operand is no matter. -/
theorem lackingFrom_append {depth : Nat} {operations : List Operation} {op : Operation}
    (h : lackingFrom depth operations = some op) (following : List Operation) :
    lackingFrom depth (operations ++ following) = some op := by
  induction operations generalizing depth with
  | nil => cases h
  | cons operation operations ih =>
    cases operation with
    | unary first =>
      rw [List.cons_append, lackingFrom]
      rw [lackingFrom] at h
      split at h
      · rwa [if_pos ‹_›]
      · rw [if_neg ‹_›]
        exact ih h
    | binary first =>
      rw [List.cons_append, lackingFrom]
      rw [lackingFrom] at h
      split at h
      · rwa [if_pos ‹_›]
      · rw [if_neg ‹_›]
        exact ih h
    | _ => exact ih h

/-! ## The error of a stack that falls short -/

/-- **The error of operations that end in no expression**, of which `op` is
the oldest that lacks an operand. -/
def shortfall (bindings : Bindings) (operations : List Operation) (op : Operation) :
    EvalError :=
  match newestUnbound? bindings operations with
  | some name => .unboundVariable name
  | none => .missingOperand op.text

theorem shortfall_ne_nothingToEvaluate (bindings : Bindings) (operations : List Operation)
    (op : Operation) : shortfall bindings operations op ≠ .nothingToEvaluate := by
  unfold shortfall
  split <;> exact nofun

/-- An operator passes the error of what is on the stack below it on. -/
theorem asOperandOf_shortfall (bindings : Bindings) (operations : List Operation)
    (op : Operation) (symbol : String) :
    (shortfall bindings operations op).asOperandOf symbol
      = shortfall bindings operations op :=
  EvalError.asOperandOf_of_ne (shortfall_ne_nothingToEvaluate bindings operations op) symbol

/-- **A stack that falls short is empty, or some operator on it lacks an
operand** and its evaluation says so, unless a variable has no value. -/
theorem Unfinished.exists_lacking {stack : List Operation} (short : Unfinished stack)
    (bindings : Bindings) :
    stack = [] ∨ ∃ op, lacking? stack.reverse = some op
      ∧ evaluateTop bindings stack = .error (shortfall bindings stack.reverse op) := by
  induction short with
  | nil => exact .inl rfl
  | @unary op below _ ih =>
    refine .inr ?_
    obtain rfl | ⟨oldest, hlacking, herror⟩ := ih
    · exact ⟨.unary op, rfl, evaluateTop_unary_of_error op (evaluateTop_nil bindings)⟩
    · refine ⟨oldest, ?_, ?_⟩
      · rw [List.reverse_cons]
        exact lackingFrom_append hlacking _
      · rw [evaluateTop_unary_of_error op herror, asOperandOf_shortfall, List.reverse_cons,
          shortfall, shortfall, newestUnbound?_append_unary]
  | @newer op below _ ih =>
    refine .inr ?_
    obtain rfl | ⟨oldest, hlacking, herror⟩ := ih
    · exact ⟨.binary op, rfl, evaluateTop_binary_of_error op (evaluateTop_nil bindings)⟩
    · refine ⟨oldest, ?_, ?_⟩
      · rw [List.reverse_cons]
        exact lackingFrom_append hlacking _
      · rw [evaluateTop_binary_of_error op herror, asOperandOf_shortfall, List.reverse_cons,
          shortfall, shortfall, newestUnbound?_append_binary]
  | @older op newer below _ ih =>
    refine .inr ?_
    have hops : (Operation.binary op :: (newer.stacked ++ below)).reverse
        = below.reverse ++ newer.listing ++ [.binary op] := by
      rw [List.reverse_cons, newer.reverse_stacked_append]
    have hunbound : newestUnbound? bindings (below.reverse ++ newer.listing ++ [.binary op])
        = (newestUnbound? bindings newer.listing).or
            (newestUnbound? bindings below.reverse) := by
      rw [newestUnbound?_append_binary, newestUnbound?_append]
    have htop := newer.evaluateTop_stacked bindings below
    rw [hops]
    unfold shortfall
    rw [hunbound]
    -- the newer operand is there, so its variables come first
    cases hn : newestUnbound? bindings newer.listing with
    | some name =>
      rw [Expression.evaluate_of_newestUnbound?_eq_some hn] at htop
      have herror : evaluateTop bindings (.binary op :: (newer.stacked ++ below))
          = .error (.unboundVariable name) := evaluateTop_binary_of_error op htop
      obtain rfl | ⟨oldest, hlacking, -⟩ := ih
      · exact ⟨.binary op, lackingFrom_listing newer 0 [.binary op], herror⟩
      · rw [List.append_assoc]
        exact ⟨oldest, lackingFrom_append hlacking _, herror⟩
    | none =>
      obtain ⟨y, -, ey⟩ := Expression.exists_value_of_newestUnbound?_eq_none hn
      rw [ey] at htop
      rw [evaluateTop_binary_of_ok op htop]
      obtain rfl | ⟨oldest, hlacking, herror⟩ := ih
      · refine ⟨.binary op, lackingFrom_listing newer 0 [.binary op], ?_⟩
        rw [evaluateTop_nil]
        rfl
      · rw [List.append_assoc]
        refine ⟨oldest, lackingFrom_append hlacking _, ?_⟩
        rw [herror]
        exact congrArg Except.error (asOperandOf_shortfall bindings below.reverse oldest _)

/-! ## The outcome -/

/-- **How a value is reported**: it has to be a number, and finite. -/
def reported (value : Float) : Outcome :=
  if value.isNaN then .error .notANumber
  else if value.isInf then .error .infiniteResult
  else .ok value

/-- The view of a double decides how it is reported as the double would. -/
theorem Outcome.ofValue_eq_reported (value : Float) : Outcome.ofValue value = reported value := by
  unfold Outcome.ofValue reported
  cases hv : Binary64.ofFloat value with
  | finite negative rank h =>
    have finite : value.isFinite = true := Binary64.isFinite_iff.mpr ⟨_, _, h, hv⟩
    have number : ¬value.isNaN = true := fun no => ((Binary64.isNaN_iff_not value).mp no).1 finite
    have bounded : ¬value.isInf = true := by
      rw [Binary64.isInf_iff, hv]
      rintro ⟨_, no⟩
      cases no
    rw [if_neg number, if_neg bounded]
  | infinite negative =>
    have number : ¬value.isNaN = true := by
      rw [Binary64.isNaN_iff, hv]
      exact nofun
    rw [if_neg number, if_pos (Binary64.isInf_iff.mpr ⟨_, hv⟩)]
  | nan => rw [if_pos (Binary64.isNaN_iff.mpr hv)]

/-- **The outcome of a stack is that of its newest expression**, in full.

The operations of a stack end in the listing of an expression in at most
one way. If they do, the newest variable of that expression without a value
is the error; if every variable has one, what is before the expression is
left over and the value of the expression is reported. If they do not, the
stack is empty, or the newest variable without a value is the error, or
else the oldest operator that lacks an operand. -/
theorem Engine.evaluate_newest_expression (engine : Engine) :
    (∀ (below below' : List Operation) (t t' : Expression),
      engine.operations = below ++ t.listing → engine.operations = below' ++ t'.listing →
        below = below' ∧ t = t')
    ∧ (∀ (below : List Operation) (t : Expression),
      engine.operations = below ++ t.listing →
        match newestUnbound? engine.bindings t.listing with
        | some name => engine.evaluate = .error (.unboundVariable name)
        | none => ∃ value, t.value? engine.bindings = some value
            ∧ evaluateTop engine.bindings engine.stack = .ok (value, below.reverse)
            ∧ engine.evaluate = reported value)
    ∧ ((¬∃ (below : List Operation) (t : Expression),
        engine.operations = below ++ t.listing) →
      (engine.evaluate = .error .nothingToEvaluate ↔ engine.operations = [])
      ∧ (engine.operations ≠ [] → ∃ op, lacking? engine.operations = some op
        ∧ engine.evaluate = .error
          (match newestUnbound? engine.bindings engine.operations with
          | some name => .unboundVariable name
          | none => .missingOperand op.text))) := by
  have stack_eq (below : List Operation) (t : Expression)
      (h : engine.operations = below ++ t.listing) :
      engine.stack = t.stacked ++ below.reverse := by
    rw [← List.reverse_reverse engine.stack]
    exact (congrArg List.reverse h).trans List.reverse_append
  refine ⟨?unique, ?complete, ?incomplete⟩
  case unique =>
    intro below below' t t' h h'
    have same := (stack_eq below t h).symm.trans (stack_eq below' t' h')
    obtain ⟨rfl, hrev⟩ := Expression.stacked_append_inj same
    exact ⟨List.reverse_inj.mp hrev, rfl⟩
  case complete =>
    intro below t h
    have htop := t.evaluateTop_stacked engine.bindings below.reverse
    rw [← stack_eq below t h] at htop
    cases hn : newestUnbound? engine.bindings t.listing with
    | some name =>
      rw [Expression.evaluate_of_newestUnbound?_eq_some hn] at htop
      show outcome engine.bindings engine.stack = _
      rw [outcome, htop]
      rfl
    | none =>
      obtain ⟨value, hvalue, hev⟩ := Expression.exists_value_of_newestUnbound?_eq_none hn
      rw [hev] at htop
      refine ⟨value, hvalue, htop, ?_⟩
      show outcome engine.bindings engine.stack = _
      rw [outcome, htop]
      exact Outcome.ofValue_eq_reported value
  case incomplete =>
    intro none_ends
    have short : Unfinished engine.stack := by
      refine (exists_stacked_or_unfinished engine.stack).resolve_left ?_
      rintro ⟨t, below, h⟩
      refine none_ends ⟨below.reverse, t, ?_⟩
      rw [operations, h, t.reverse_stacked_append]
    have empty_iff : engine.operations = [] ↔ engine.stack = [] := List.reverse_eq_nil_iff
    obtain hempty | ⟨op, hlacking, herror⟩ := short.exists_lacking engine.bindings
    · refine ⟨iff_of_true ?_ (empty_iff.mpr hempty), fun ne => absurd (empty_iff.mpr hempty) ne⟩
      show outcome engine.bindings engine.stack = _
      rw [outcome, hempty, evaluateTop_nil]
      rfl
    · have hout : engine.evaluate
          = .error (shortfall engine.bindings engine.operations op) := by
        show outcome engine.bindings engine.stack = _
        rw [outcome, herror]
        rfl
      refine ⟨iff_of_false ?_ ?_, fun _ => ⟨op, hlacking, hout⟩⟩
      · rw [hout]
        intro same
        exact shortfall_ne_nothingToEvaluate _ _ _ (Except.error.inj same)
      · intro hnil
        rw [empty_iff.mp hnil] at hlacking
        cases hlacking

end Rpn
