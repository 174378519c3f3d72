import Rpn.Proofs.Evaluation.Expression
import Rpn.Stack.Description

/-!
# Describing a stack step by step

`describeFrom` returns its fragments at the end, and so says nothing about
a list of operations that is followed by another. Here it is a run of
steps: `describeStep` is what one operation does to the fragments so far,
and `describeRun` does so for a list of operations, with the operations
that come after the list as an argument of its own. They are needed for the
one glance ahead by which a combination decides about its parentheses, and
for nothing else: the number of fragments does not depend on them.

The two agree but for an operator of one operand that finds no fragment. It
ends a description, while the run goes on. Since a run never empties its
fragments again, this concerns only lists that start with such an operator.

What the run does with the listing of an expression is known without the
run: it puts one fragment on top, `Expression.render`, and does not look at
what is below. That fragment is a function of the tree in which each
operator sees only the operator above it.
-/

namespace Rpn

/-- **What one operation does to the fragments so far**, newest first,
given the operations that follow it. -/
def describeStep (older : List Fragment) (operation : Operation)
    (following : List Operation) : List Fragment :=
  match operation, older with
  | .unary _, [] => []
  | .unary op, argument :: older => .apply op argument :: older
  | .binary op, [] => [.combine op .hole .hole]
  | .binary op, [rhs] => [.combine op .hole rhs]
  | .binary op, rhs :: lhs :: older => combination op lhs rhs following :: older
  | operation, older => .leaf operation.text :: older

/-- **What operations do to the fragments so far**, newest first, given the
operations that follow them. -/
def describeRun (older : List Fragment) : List Operation → List Operation → List Fragment
  | [], _ => older
  | operation :: rest, following =>
    describeRun (describeStep older operation (rest ++ following)) rest following

/-! ## The run and the description -/

section

variable (older : List Fragment) (operation : Operation)
variable (operations operations' following : List Operation)

@[simp] theorem describeRun_singleton :
    describeRun older [operation] following
      = describeStep older operation following := rfl

/-- A run over two lists is a run over the one and then over the other. -/
theorem describeRun_append :
    describeRun older (operations ++ operations') following
      = describeRun (describeRun older operations (operations' ++ following))
          operations' following := by
  induction operations generalizing older with
  | nil => rfl
  | cons operation rest ih =>
    show describeRun (describeStep older operation (rest ++ operations' ++ following))
      (rest ++ operations') following = _
    rw [ih, List.append_assoc]
    rfl

end

/-- Every step but one leaves a fragment. -/
theorem describeStep_ne_nil {older : List Fragment} {operation : Operation}
    (h : older ≠ [] ∨ ∀ op, operation ≠ .unary op) (following : List Operation) :
    describeStep older operation following ≠ [] := by
  unfold describeStep
  split
  · exact absurd h (by simp)
  all_goals exact List.cons_ne_nil _ _

/-- **A run never empties its fragments.** -/
theorem describeRun_ne_nil {older : List Fragment} (h : older ≠ [])
    (operations following : List Operation) : describeRun older operations following ≠ [] := by
  induction operations generalizing older with
  | nil => exact h
  | cons operation rest ih => exact ih (describeStep_ne_nil (.inl h) _)

/-- **The oldest operation leaves a fragment**, if it is no operator of one
operand, and from then on there is one. -/
theorem describeRun_nil_ne_nil {operations : List Operation} (hne : operations ≠ [])
    (h : ∀ op, operations.head? ≠ some (.unary op)) (following : List Operation) :
    describeRun [] operations following ≠ [] := by
  obtain ⟨oldest, newer, rfl⟩ := List.exists_cons_of_ne_nil hne
  have holdest : ∀ op, oldest ≠ .unary op := fun op hop => h op (congrArg some hop)
  exact describeRun_ne_nil (describeStep_ne_nil (.inr holdest) _) newer following

/-- **A description takes a step for each operation**, unless an operator of
one operand has nothing to apply to. -/
theorem describeFrom_cons {older : List Fragment} {operation : Operation}
    (h : older ≠ [] ∨ ∀ op, operation ≠ .unary op) (following : List Operation) :
    describeFrom older (operation :: following)
      = describeFrom (describeStep older operation following) following := by
  cases operation with
  | unary op =>
    cases older with
    | nil => exact absurd h (by simp)
    | cons argument older => rfl
  | binary op =>
    match older with
    | [] => rfl
    | [_] => rfl
    | _ :: _ :: _ => rfl
  | _ => rfl

/-- **A description is a run of steps**, unless an operator of one operand
has nothing to apply to. -/
theorem describeFrom_eq_describeRun {older : List Fragment} {operations : List Operation}
    (h : older ≠ [] ∨ ∀ op, operations.head? ≠ some (.unary op)) :
    describeFrom older operations = (describeRun older operations []).reverse := by
  induction operations generalizing older with
  | nil => exact describeFrom.eq_1 older
  | cons operation rest ih =>
    have hstep : older ≠ [] ∨ ∀ op, operation ≠ .unary op := by simpa using h
    show _ = (describeRun (describeStep older operation (rest ++ [])) rest []).reverse
    rw [← ih (.inl (describeStep_ne_nil hstep _)), List.append_nil, describeFrom_cons hstep]

/-- **A stack is described by a run of steps** if its oldest operation is
no operator of one operand. -/
theorem fragments_eq_describeRun {operations : List Operation}
    (h : ∀ op, operations.head? ≠ some (.unary op)) :
    fragments operations = (describeRun [] operations []).reverse :=
  describeFrom_eq_describeRun (.inr h)

/-- What comes first in a list comes first in a longer one. -/
theorem head?_ne_of_append {operations operations' : List Operation}
    (h : ∀ op, (operations ++ operations').head? ≠ some (.unary op)) :
    ∀ op, operations.head? ≠ some (.unary op) := by
  intro op hop
  refine h op ?_
  rw [List.head?_append, hop]
  rfl

/-! ## What follows -/

/-- Parentheses depend on the next operation alone. -/
theorem needsGroup_congr (op : BinaryOp) {following following' : List Operation}
    (h : following.head? = following'.head?) :
    needsGroup op following = needsGroup op following' := by
  cases following with
  | nil => rw [List.head?_eq_none_iff.mp h.symm]
  | cons next rest =>
    cases following' with
    | nil => cases h
    | cons next' rest' =>
      cases h
      cases next <;> rfl

/-- A step depends on the next operation alone. -/
theorem describeStep_congr (older : List Fragment) (operation : Operation)
    {following following' : List Operation} (h : following.head? = following'.head?) :
    describeStep older operation following = describeStep older operation following' := by
  unfold describeStep
  split <;> simp only [combination, needsGroup_congr _ h]

/-- **A run depends on the next operation alone.** -/
theorem describeRun_congr (older : List Fragment) (operations : List Operation)
    {following following' : List Operation} (h : following.head? = following'.head?) :
    describeRun older operations following = describeRun older operations following' := by
  induction operations generalizing older with
  | nil => rfl
  | cons operation rest ih =>
    show describeRun (describeStep older operation (rest ++ following)) rest following = _
    rw [ih, describeStep_congr older operation
      (show (rest ++ following).head? = (rest ++ following').head? by
        rw [List.head?_append, List.head?_append, h])]
    rfl

/-- The number of fragments after a step depends on their number before. -/
theorem length_describeStep {older older' : List Fragment} (operation : Operation)
    (following following' : List Operation) (h : older.length = older'.length) :
    (describeStep older operation following).length
      = (describeStep older' operation following').length := by
  match older, older' with
  | [], [] => cases operation <;> rfl
  | [_], [_] => cases operation <;> rfl
  | _ :: _ :: _, _ :: _ :: _ =>
    cases operation <;> simp_all [describeStep]

/-- **How many fragments a run leaves does not depend on what follows.** -/
theorem length_describeRun {older older' : List Fragment} (operations : List Operation)
    (following following' : List Operation) (h : older.length = older'.length) :
    (describeRun older operations following).length
      = (describeRun older' operations following').length := by
  induction operations generalizing older older' with
  | nil => exact h
  | cons operation rest ih => exact ih (length_describeStep operation _ _ h)

/-! ## The fragment of an expression -/

namespace Expression

/-- **The fragment of an expression**, which is put in parentheses if it
combines two and `closing` holds of its operator. An operand is closed
unless it is the newer one and continues the chain of the operator above
it. -/
def render (closing : BinaryOp → Bool) : Expression → Fragment
  | operand value => .leaf (Operation.operand value).text
  | var name => .leaf (Operation.var name).text
  | constant symbol value => .leaf (Operation.constant symbol value).text
  | unary op argument => .apply op (argument.render fun _ => true)
  | binary op older newer =>
    let combined := .combine op (older.render fun _ => true)
      (newer.render fun inner => op ≠ inner)
    if closing op then .group combined else combined

/-- The oldest operation of an expression is a value. -/
theorem needsGroup_listing_append (t : Expression) (op : BinaryOp)
    (following : List Operation) : needsGroup op (t.listing ++ following) = true := by
  induction t generalizing following with
  | operand value => rfl
  | var name => rfl
  | constant symbol value => rfl
  | unary op' argument ih =>
    rw [listing, List.append_assoc]
    exact ih _
  | binary op' older newer ihOlder _ =>
    rw [listing, List.append_assoc, List.append_assoc]
    exact ihOlder _

/-- **The run over an expression puts its fragment on top**, and leaves
what is below it alone. -/
theorem describeRun_listing (t : Expression) (older : List Fragment)
    (following : List Operation) :
    describeRun older t.listing following
      = t.render (fun op => needsGroup op following) :: older := by
  induction t generalizing older following with
  | operand value => rfl
  | var name => rfl
  | constant symbol value => rfl
  | unary op argument ih =>
    rw [listing, describeRun_append, ih]
    rfl
  | binary op lhs rhs ihOlder ihNewer =>
    rw [listing, describeRun_append, describeRun_append, ihOlder, ihNewer,
      describeRun_singleton]
    -- the older operand is followed by a value, the newer one by the operator
    have hlhs : (fun inner => needsGroup inner (rhs.listing ++ ([.binary op] ++ following)))
        = fun _ => true := funext fun inner => needsGroup_listing_append rhs inner _
    rw [hlhs]
    rfl

/-- No expression has an operator for its oldest operation. -/
theorem head?_listing_append_ne (t : Expression) (op : UnaryOp) (following : List Operation) :
    (t.listing ++ following).head? ≠ some (.unary op) := by
  induction t generalizing following with
  | operand value => exact nofun
  | var name => exact nofun
  | constant symbol value => exact nofun
  | unary op' argument ih =>
    rw [listing, List.append_assoc]
    exact ih _
  | binary op' older newer ihOlder _ =>
    rw [listing, List.append_assoc, List.append_assoc]
    exact ihOlder _

/-- **An expression is described by one fragment**, which is not in
parentheses. -/
theorem fragments_listing (t : Expression) :
    fragments t.listing = [t.render fun _ => false] := by
  have h := @fragments_eq_describeRun t.listing
    fun op => List.append_nil t.listing ▸ t.head?_listing_append_ne op []
  rw [h, t.describeRun_listing]
  rfl

end Expression

end Rpn
