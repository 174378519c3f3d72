import Rpn.Proofs.Description.Conservation
import Rpn.Proofs.Description.Cut
import Rpn.Proofs.Evaluation.Outcome
import Rpn.Stack.Engine

/-!
# Question marks

A description marks an operand that is missing with a question mark and
goes on, while evaluation gives up and reports the operator. They go about
it from opposite ends, and may not even mean the same operand, but they
agree on whether there is anything to report, if one looks at the last
fragment: it shows a question mark if and only if evaluation finds an
operand missing.

That is because a stack has an expression on top or falls short of one. In
the first case the last fragment is the expression's, which lacks nothing
(`Expression.hasHole_render`), and evaluation gets by without what is below.
In the second there is one fragment for the whole stack, and an operand is
missing in it (`Unfinished.exists_describeRun_eq`).

So the fragments before the last one are of no consequence, and neither are
the question marks in them. The statement needs two things of a stack: a
question mark in a name would be mistaken for one, and a variable without a
value may be reported before the operand that is missing.
-/

namespace Rpn

namespace Fragment

/-- A hole is shown where an operand is missing. -/
theorem hole_mem_tokens_iff (f : Fragment) : .hole ∈ f.tokens ↔ f.hasHole = true := by
  induction f with
  | hole => exact iff_of_true List.mem_cons_self rfl
  | leaf text => exact iff_of_false (by simp [tokens]) Bool.false_ne_true
  | apply op argument ih => simpa [tokens, hasHole] using ih
  | combine op lhs rhs ihLhs ihRhs => simp [tokens, hasHole, ihLhs, ihRhs]
  | group inner ih => simpa [tokens, hasHole] using ih

/-- **A question mark is shown where an operand is missing**, and nowhere
else if no value has one in it. -/
theorem questionMark_mem_text_iff {f : Fragment}
    (hvalues : ∀ text, .value text ∈ f.tokens → '?' ∉ text.toList) :
    '?' ∈ f.text.toList ↔ f.hasHole = true := by
  rw [← List.count_pos_iff, toList_text, Token.count_questionMark hvalues, List.count_pos_iff,
    hole_mem_tokens_iff]

end Fragment

/-- **An expression lacks no operand.** -/
theorem Expression.hasHole_render (t : Expression) (closing : BinaryOp → Bool) :
    (t.render closing).hasHole = false := by
  induction t generalizing closing with
  | operand value => rfl
  | var name => rfl
  | constant symbol value => rfl
  | unary op argument ih => exact ih _
  | binary op older newer ihOlder ihNewer =>
    have hcombined : (Fragment.combine op (older.render fun _ => true)
        (newer.render fun inner => op ≠ inner)).hasHole = false := by
      rw [Fragment.hasHole, ihOlder, ihNewer]
      rfl
    rw [render]
    split
    · exact hcombined
    · exact hcombined

/-- Putting the last fragment in parentheses adds no question mark. -/
theorem exists_questionMark_mem_closed_iff (operations : List Operation) :
    (∃ f ∈ closed operations, '?' ∈ f.text.toList)
      ↔ ∃ f ∈ fragments operations, '?' ∈ f.text.toList := by
  have hgroup (f : Fragment) : '?' ∈ (Fragment.group f).text.toList ↔ '?' ∈ f.text.toList := by
    simp [Fragment.text]
  have hmodify : (∃ f ∈ (fragments operations).modifyLast .group, '?' ∈ f.text.toList)
      ↔ ∃ f ∈ fragments operations, '?' ∈ f.text.toList := by
    obtain hnil | ⟨earlier, last, hlast⟩ := List.eq_nil_or_concat (fragments operations)
    · rw [hnil]
      rfl
    · rw [hlast, List.concat_eq_append, List.modifyLast_concat]
      simp [or_and_right, exists_or, hgroup]
  unfold closed
  split
  · exact hmodify
  · rfl

/-! ## What evaluation reports -/

/-- **What is below an expression does not matter to the outcome.** -/
theorem Expression.outcome_stacked_append (t : Expression) (bindings : Bindings)
    (below : List Operation) :
    outcome bindings (t.stacked ++ below) = (t.evaluate bindings).bind Outcome.ofValue := by
  rw [outcome, t.evaluateTop_stacked]
  cases t.evaluate bindings <;> rfl

/-- **An expression on top of a stack has all its operands.** -/
theorem Expression.outcome_stacked_append_ne (t : Expression) (bindings : Bindings)
    (below : List Operation) (symbol : String) :
    outcome bindings (t.stacked ++ below) ≠ .error (.missingOperand symbol) := by
  rw [t.outcome_stacked_append]
  cases hv : t.evaluate bindings with
  | error error =>
    intro h
    cases h
    exact t.evaluate_ne_missingOperand bindings symbol hv
  | ok value =>
    show Outcome.ofValue value ≠ _
    unfold Outcome.ofValue
    split <;> exact nofun

/-- A variable with a value is not reported. -/
theorem newestUnbound?_eq_none {bindings : Bindings} {operations : List Operation}
    (h : ∀ name, .var name ∈ operations → (bindings.get? name).isSome = true) :
    newestUnbound? bindings operations = none := by
  rw [newestUnbound?, List.getLast?_eq_none_iff, unbound, List.filterMap_eq_nil_iff]
  intro operation hmem
  cases operation with
  | var name => exact if_pos (h name hmem)
  | _ => rfl

/-- **Where a stack falls short, an operand is reported missing**, if all
variables have a value. -/
theorem Unfinished.exists_outcome_eq {stack : List Operation} (short : Unfinished stack)
    (hne : stack ≠ []) {bindings : Bindings}
    (hbound : newestUnbound? bindings stack.reverse = none) :
    ∃ symbol, outcome bindings stack = .error (.missingOperand symbol) := by
  obtain ⟨op, -, herror⟩ := (short.exists_lacking bindings).resolve_left hne
  refine ⟨op.text, ?_⟩
  rw [outcome, herror, shortfall, hbound]
  rfl

/-! ## The last fragment -/

/-- **A fragment of a stack shows a question mark where an operand is
missing**, if no name has one in it. -/
theorem questionMark_mem_text_fragment_iff {operations : List Operation}
    (hbottom : ∀ op, operations.head? ≠ some (.unary op))
    (hnames : ∀ operation ∈ operations, ∀ name ∈ operation.name?, '?' ∉ name.toList)
    {f : Fragment} (hf : f ∈ fragments operations) :
    '?' ∈ f.text.toList ↔ f.hasHole = true := by
  refine Fragment.questionMark_mem_text_iff fun text hvalue hmark => ?_
  obtain ⟨operation, hmem, htoken⟩ := exists_operation_of_value_mem_tokens hbottom hf hvalue
  obtain hplain | hname := operation.isValueChar_or_name?_eq_some htoken
  · exact (ne_of_isValueChar (hplain '?' hmark)).2.2.1 rfl
  · exact hnames operation hmem text hname hmark

/-- **The last fragment shows a question mark if and only if an operand is
missing**, for a stack whose variables all have a value. If it shows one, it
is the only fragment. If it shows none, it describes the newest operations
of the stack by themselves: whatever they are entered after, they are
described by it and have the same outcome, even if there are question marks
in the fragments before. -/
theorem questionMark_iff_operand_missing {engine : Engine} (hne : engine.operations ≠ [])
    (hbottom : ∀ op, engine.operations.head? ≠ some (.unary op))
    (hnames : ∀ operation ∈ engine.operations, ∀ name ∈ operation.name?, '?' ∉ name.toList)
    (hbound : ∀ name, .var name ∈ engine.operations → (engine.valueOf? name).isSome = true) :
    ∃ earlier last, fragments engine.operations = earlier ++ [last]
      ∧ ('?' ∈ last.text.toList ↔ ∃ symbol, engine.evaluate = .error (.missingOperand symbol))
      ∧ ('?' ∈ last.text.toList → earlier = [])
      ∧ ('?' ∉ last.text.toList → ∃ below newest, engine.operations = below ++ newest
        ∧ ∀ others : List Operation, (∀ op, others.head? ≠ some (.unary op)) →
          ∃ before, fragments (others ++ newest) = before ++ [last]
            ∧ ((∃ f ∈ before, '?' ∈ f.text.toList)
              ↔ ∃ f ∈ fragments others, '?' ∈ f.text.toList)
            ∧ outcome engine.bindings (others ++ newest).reverse = engine.evaluate) := by
  obtain ⟨t, below, hstack⟩ | short := exists_stacked_or_unfinished engine.stack
  case inl =>
    have hops : engine.operations = below.reverse ++ t.listing :=
      (congrArg List.reverse hstack).trans (t.reverse_stacked_append below)
    have hlast (others : List Operation) (h : ∀ op, others.head? ≠ some (.unary op)) :
        fragments (others ++ t.listing) = closed others ++ [t.render fun _ => false] := by
      rw [fragments_append_listing t h, t.fragments_listing]
    have hfragments : fragments engine.operations
        = closed below.reverse ++ [t.render fun _ => false] := by
      rw [hops] at hbottom ⊢
      exact hlast below.reverse (head?_ne_of_append hbottom)
    have hmark : '?' ∉ (t.render fun _ => false).text.toList := by
      rw [questionMark_mem_text_fragment_iff hbottom hnames
        (hfragments ▸ List.mem_append_right _ List.mem_cons_self), t.hasHole_render]
      exact Bool.false_ne_true
    have hevaluate : engine.evaluate = outcome engine.bindings (t.stacked ++ below) :=
      congrArg (outcome engine.bindings) hstack
    refine ⟨_, _, hfragments, iff_of_false hmark ?_, fun hyes => absurd hyes hmark,
      fun _ => ⟨_, _, hops, ?_⟩⟩
    · rintro ⟨symbol, hmissing⟩
      exact t.outcome_stacked_append_ne engine.bindings below symbol (hevaluate ▸ hmissing)
    · intro others hothers
      refine ⟨_, hlast others hothers, exists_questionMark_mem_closed_iff others, ?_⟩
      rw [List.reverse_append, hevaluate, t.outcome_stacked_append]
      exact t.outcome_stacked_append engine.bindings others.reverse
  case inr =>
    have hstack : engine.stack ≠ [] := mt List.reverse_eq_nil_iff.mpr hne
    obtain ⟨f, hrun, hhole⟩ := (short.exists_describeRun_eq hbottom []).resolve_left hstack
    have hfragments : fragments engine.operations = [f] :=
      (fragments_eq_describeRun hbottom).trans (congrArg List.reverse hrun)
    have hmark : '?' ∈ f.text.toList :=
      (questionMark_mem_text_fragment_iff hbottom hnames
        (hfragments ▸ List.mem_cons_self)).mpr hhole
    exact ⟨[], f, hfragments,
      iff_of_true hmark (short.exists_outcome_eq hstack (newestUnbound?_eq_none hbound)),
      fun _ => rfl, fun hno => absurd hmark hno⟩

/-- A square above a sum that has no operands. -/
theorem questionMark_iff_operand_missing_below_square :
    fragments [.binary .add, .var "a", .var "a", .binary .multiply]
      = [.combine .add .hole .hole, .combine .multiply (.leaf "a") (.leaf "a")]
    ∧ '?' ∈ (Fragment.combine .add .hole .hole).text.toList
    ∧ ¬∃ symbol, Engine.evaluate
        ⟨[.binary .multiply, .var "a", .var "a", .binary .add], Bindings.empty.set "a" 3⟩
        = .error (.missingOperand symbol) := by
  have hbottom : ∀ op : UnaryOp, some (Operation.binary .add) ≠ some (.unary op) := by
    intro op h
    cases h
  have hnames : ∀ operation ∈ [Operation.binary .add, .var "a", .var "a", .binary .multiply],
      ∀ name ∈ operation.name?, '?' ∉ name.toList := by
    intro operation hmem name hname
    simp only [List.mem_cons, List.not_mem_nil, or_false] at hmem
    obtain rfl | rfl | rfl | rfl := hmem <;> cases hname <;> decide
  have hbound : ∀ name,
      .var name ∈ [Operation.binary .add, .var "a", .var "a", .binary .multiply] →
        ((Bindings.empty.set "a" 3).get? name).isSome = true := by
    intro name hmem
    obtain rfl : name = "a" := by simpa using hmem
    rw [Bindings.get?_set_self]
    rfl
  obtain ⟨earlier, last, hfragments, hiff, -⟩ := @questionMark_iff_operand_missing
    ⟨[.binary .multiply, .var "a", .var "a", .binary .add], Bindings.empty.set "a" 3⟩
    (List.cons_ne_nil _ _) hbottom hnames hbound
  have hlast : some (Fragment.combine .multiply (.leaf "a") (.leaf "a")) = some last :=
    (congrArg List.getLast? hfragments).trans List.getLast?_concat
  cases hlast
  exact ⟨rfl, by decide, mt hiff.mpr (by decide)⟩

end Rpn
