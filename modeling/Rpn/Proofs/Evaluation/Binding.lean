import Rpn.Proofs.Evaluation.Machine
import Rpn.Stack.Engine

/-!
# Variables are looked up late

A variable stays on the stack as a name, and has its value looked up each
time the stack is evaluated. Setting a variable is therefore nothing but
writing the number in its place, wherever it stands
(`outcome_set_eq_outcome_substitute`): the stack with the number in it has
the same outcome, and whether the variable still has a value makes no
difference to it. That goes for errors too. A variable that was the error of
a stack may give way to an operator without an operand, or to another
variable, and so does the number in its place.

It is easiest to see from the bottom of the stack, where every operation is
read once and the machine reads a variable as it reads its value
(`Machine.step_set`). From the top one sees something else, which is how
little is looked up at all. Evaluation comes down the stack until it has one
whole expression, meets a variable without a value, or runs out of
operations. What it has come past by then are the operations it has
**consumed**, and no other variable matters (`outcome_congr_of_consumed`).
-/

namespace Rpn

/-! ## Writing a number in the place of a variable -/

/-- **Writes a number in the place of a variable.** Any other operation stays
as it is. -/
def Operation.substitute (name : String) (value : Float) : Operation → Operation
  | .var other => if other = name then .operand value else .var other
  | operation => operation

namespace Machine

/-- **The outcome that a list of entries shows**, newest entry first. -/
def shownOutcome : List Entry → Outcome
  | [] => .error .nothingToEvaluate
  | .error error :: _ => .error error
  | .ok value :: _ => Outcome.ofValue value

/-- **The outcome of a stack is that of its newest entry.** -/
theorem outcome_eq_shownOutcome_run (bindings : Bindings) (stack : List Operation) :
    outcome bindings stack = shownOutcome (run bindings stack.reverse) := by
  have shown := shown_run bindings stack
  rw [outcome]
  generalize evaluateTop bindings stack = evaluated at shown ⊢
  generalize run bindings stack.reverse = entries at shown ⊢
  cases shown <;> rfl

section

variable {bindings bindings' : Bindings} {name : String}
  (agree : ∀ other, other ≠ name → bindings'.get? other = bindings.get? other) (value : Float)

include agree

/-- **A variable is read as the number that is its value.** -/
theorem step_set (entries : List Entry) (operation : Operation) :
    step (bindings.set name value) entries operation
      = step bindings' entries (operation.substitute name value) := by
  cases operation with
  | var other =>
    show entryOfVar (bindings.set name value) other :: entries = _
    rw [Operation.substitute, entryOfVar]
    by_cases same : other = name
    · rw [if_pos same, same, Bindings.get?_set_self]
      rfl
    · rw [if_neg same, Bindings.get?_set_of_ne bindings value same, ← agree other same]
      rfl
  | _ => rfl

/-- **So is it wherever it stands**, among any operations. -/
theorem runFrom_set (entries : List Entry) (operations : List Operation) :
    runFrom (bindings.set name value) entries operations
      = runFrom bindings' entries (operations.map (Operation.substitute name value)) := by
  induction operations generalizing entries with
  | nil => rfl
  | cons operation operations ih =>
    show runFrom _ (step (bindings.set name value) entries operation) operations
      = runFrom _ (step bindings' entries (operation.substitute name value)) _
    rw [step_set agree, ih]

end

end Machine

/-- **Setting a variable is writing its value in its place.** -/
theorem outcome_set_eq_outcome_substitute {bindings bindings' : Bindings} {name : String}
    (agree : ∀ other, other ≠ name → bindings'.get? other = bindings.get? other) (value : Float)
    (stack : List Operation) :
    outcome (bindings.set name value) stack
      = outcome bindings' (stack.map (Operation.substitute name value)) := by
  rw [Machine.outcome_eq_shownOutcome_run, Machine.outcome_eq_shownOutcome_run, ← List.map_reverse,
    Machine.run, Machine.runFrom_set agree]
  rfl

/-! ## What evaluation looks at -/

/-- **The operations that evaluation consumes** from the top of a stack, which
comes with its newest operation first, while `wanted` expressions are still
to be found. A value is the end of one. An operator of two operands wants one
expression more than it is. A variable without a value is the end of it
all. -/
def consumedFrom (bindings : Bindings) : (wanted : Nat) → List Operation → List Operation
  | 0, _ => []
  | _ + 1, [] => []
  | wanted + 1, .unary op :: below => .unary op :: consumedFrom bindings (wanted + 1) below
  | wanted + 1, .binary op :: below => .binary op :: consumedFrom bindings (wanted + 2) below
  | wanted + 1, .var name :: below =>
    .var name :: if (bindings.get? name).isSome then consumedFrom bindings wanted below else []
  | wanted + 1, operation :: below => operation :: consumedFrom bindings wanted below

/-- **The operations that evaluation consumes**, newest first: those of the
newest expression, or down to the first variable without a value, or down to
the bottom of the stack. -/
def Engine.consumed (engine : Engine) : List Operation :=
  consumedFrom engine.bindings 1 engine.stack

section

variable {bindings bindings' : Bindings}

/-- **An expression with a value is consumed whole.** -/
theorem consumedFrom_stacked {t : Expression} {value : Float}
    (h : t.evaluate bindings = .ok value) (wanted : Nat) (below : List Operation) :
    consumedFrom bindings (wanted + 1) (t.stacked ++ below)
      = t.stacked ++ consumedFrom bindings wanted below := by
  induction t generalizing value wanted below with
  | operand number => rfl
  | var name =>
    rw [Expression.evaluate] at h
    cases hbound : bindings.get? name with
    | none => rw [hbound] at h; cases h
    | some bound =>
      rw [Expression.stacked_var, List.singleton_append, consumedFrom, hbound]
      rfl
  | constant symbol number => rfl
  | unary op argument ih =>
    rw [Expression.evaluate] at h
    cases hx : argument.evaluate bindings with
    | error error => rw [hx] at h; cases h
    | ok x =>
      rw [Expression.stacked_unary, List.cons_append, consumedFrom, ih hx]
      rfl
  | binary op older newer ihOlder ihNewer =>
    rw [Expression.evaluate] at h
    cases hy : newer.evaluate bindings with
    | error error => rw [hy] at h; cases h
    | ok y =>
      rw [hy] at h
      cases hx : older.evaluate bindings with
      | error error => rw [hx] at h; cases h
      | ok x =>
        rw [Expression.stacked_binary, List.cons_append, consumedFrom, List.append_assoc,
          ihNewer hy, ihOlder hx, List.cons_append, List.append_assoc]

/-- **An expression depends on the variables that are consumed**, and on no
other. -/
theorem Expression.evaluate_congr_of_consumedFrom {t : Expression} (wanted : Nat)
    (below : List Operation)
    (agree : ∀ name, .var name ∈ consumedFrom bindings (wanted + 1) (t.stacked ++ below) →
      bindings'.get? name = bindings.get? name) :
    t.evaluate bindings' = t.evaluate bindings := by
  induction t generalizing wanted below with
  | operand value => rfl
  | var name =>
    rw [evaluate, evaluate, agree name List.mem_cons_self]
  | constant symbol value => rfl
  | unary op argument ih =>
    rw [stacked_unary, List.cons_append, consumedFrom] at agree
    rw [evaluate, evaluate, ih wanted below fun name h => agree name (List.mem_cons_of_mem _ h)]
  | binary op older newer ihOlder ihNewer =>
    rw [stacked_binary, List.cons_append, consumedFrom, List.append_assoc] at agree
    have hnewer : newer.evaluate bindings' = newer.evaluate bindings :=
      ihNewer (wanted + 1) (older.stacked ++ below) fun name h =>
        agree name (List.mem_cons_of_mem _ h)
    rw [evaluate, evaluate, hnewer]
    cases hy : newer.evaluate bindings with
    | error error => rfl
    | ok y =>
      -- only now is the older operand looked at
      rw [consumedFrom_stacked hy] at agree
      rw [ihOlder wanted below fun name h =>
        agree name (List.mem_cons_of_mem _ (List.mem_append_right _ h))]

/-- **So does a stack that falls short of an expression.** -/
theorem Unfinished.evaluateTop_congr_of_consumedFrom {stack : List Operation}
    (short : Unfinished stack) (wanted : Nat)
    (agree : ∀ name, .var name ∈ consumedFrom bindings (wanted + 1) stack →
      bindings'.get? name = bindings.get? name) :
    evaluateTop bindings' stack = evaluateTop bindings stack := by
  induction short generalizing wanted with
  | nil => rw [evaluateTop_nil, evaluateTop_nil]
  | unary op _ ih =>
    rw [consumedFrom] at agree
    rw [evaluateTop_unary, evaluateTop_unary, operandFor, operandFor,
      ih wanted fun name h => agree name (List.mem_cons_of_mem _ h)]
  | newer op short ih =>
    rw [consumedFrom] at agree
    obtain ⟨error, herror⟩ := short.exists_evaluateTop_eq_error bindings
    have hsame := ih (wanted + 1) fun name h => agree name (List.mem_cons_of_mem _ h)
    rw [evaluateTop_binary_of_error op herror,
      evaluateTop_binary_of_error op (hsame.trans herror)]
  | @older op newer below _ ih =>
    rw [consumedFrom] at agree
    have hnewer : newer.evaluate bindings' = newer.evaluate bindings :=
      newer.evaluate_congr_of_consumedFrom (wanted + 1) below fun name h =>
        agree name (List.mem_cons_of_mem _ h)
    have htop := newer.evaluateTop_stacked bindings below
    have htop' := newer.evaluateTop_stacked bindings' below
    rw [hnewer] at htop'
    cases hy : newer.evaluate bindings with
    | error error =>
      rw [hy] at htop htop'
      rw [evaluateTop_binary_of_error op htop, evaluateTop_binary_of_error op htop']
    | ok y =>
      rw [hy] at htop htop'
      rw [consumedFrom_stacked hy] at agree
      rw [evaluateTop_binary_of_ok op htop, evaluateTop_binary_of_ok op htop',
        ih wanted fun name h =>
          agree name (List.mem_cons_of_mem _ (List.mem_append_right _ h))]

/-- **The outcome of a stack depends on the variables that are consumed**, and
on no other. -/
theorem outcome_congr_of_consumed {stack : List Operation}
    (agree : ∀ name, .var name ∈ consumedFrom bindings 1 stack →
      bindings'.get? name = bindings.get? name) :
    outcome bindings' stack = outcome bindings stack := by
  have hsame : evaluateTop bindings' stack = evaluateTop bindings stack := by
    obtain ⟨t, below, rfl⟩ | short := exists_stacked_or_unfinished stack
    · rw [t.evaluateTop_stacked, t.evaluateTop_stacked,
        t.evaluate_congr_of_consumedFrom 0 below agree]
    · exact short.evaluateTop_congr_of_consumedFrom 0 agree
  rw [outcome, outcome, hsame]

/-- **What a successful evaluation consumes is what it does not leave.** -/
theorem eq_consumedFrom_append {stack left : List Operation} {value : Float}
    (h : evaluateTop bindings stack = .ok (value, left)) :
    stack = consumedFrom bindings 1 stack ++ left := by
  obtain ⟨t, rfl⟩ := exists_stacked_of_evaluateTop_eq_ok h
  rw [t.evaluateTop_stacked] at h
  cases hv : t.evaluate bindings with
  | error error => rw [hv] at h; cases h
  | ok v => rw [consumedFrom_stacked hv, consumedFrom, List.append_nil]

end

/-! ## Late binding -/

/-- **Looking a variable up late is writing its value in its place.**

After a variable was set, the outcome is that of the stack with the number
in the place of the variable, errors included, under any bindings that agree
about the other variables, whether or not they have a value for this one.
And it is the outcome under any bindings that agree about the variables
among the operations that evaluation consumes; if it succeeds these are the
operations that it does not leave. -/
theorem Engine.late_binding_is_substitution (engine : Engine) (name : String) (value : Float) :
    (∀ bindings : Bindings,
      (∀ other, other ≠ name → bindings.get? other = engine.bindings.get? other) →
      (engine.setVariable name value).evaluate
        = Engine.evaluate ⟨engine.stack.map (Operation.substitute name value), bindings⟩)
    ∧ (∀ bindings : Bindings,
      (∀ other, .var other ∈ engine.consumed →
        bindings.get? other = engine.bindings.get? other) →
      Engine.evaluate ⟨engine.stack, bindings⟩ = engine.evaluate)
    ∧ ∀ result left, evaluateTop engine.bindings engine.stack = .ok (result, left) →
      engine.stack = engine.consumed ++ left :=
  ⟨fun _ agree => outcome_set_eq_outcome_substitute agree value engine.stack,
    fun _ agree => outcome_congr_of_consumed agree,
    fun _ _ succeeds => eq_consumedFrom_append succeeds⟩

/-- A variable below one without a value is not looked at. -/
example : Engine.consumed ⟨[.binary .add, .var "N", .var "M"], .empty⟩
    = [.binary .add, .var "N"] := by rfl

end Rpn
