import Mathlib.Data.List.ModifyLast
import Rpn.Proofs.Description.Run

/-!
# Describing one more operation

A description is made with a glance at what follows, so it would seem to
have to be made anew when an operation is entered. It does not. The glance
is needed for one thing, the parentheses of a combination, and only the
newest operation can be one that is still to be decided about: every
combination before it is followed by an operation already.

So a description can be kept up with little more than its own texts. What
is needed besides is whether the newest operation combined two of them, and
by which operator (`combining?`). When the next operation is entered, the
last text is put in parentheses if it combines two and the operation does
not continue the chain (`textsBefore`); then the operation takes its
operands from the texts as they are. No other text changes
(`description_grows`).

This is proved of fragments, where what a combination is made of can still
be told apart (`closed`, `fragmentsBefore`), and then of their texts.
-/

namespace Rpn

/-- **Whether an operation continues a chain of an operator**: it is that
operator again. -/
def Operation.continues (op : BinaryOp) : Operation → Bool
  | .binary next => next = op
  | _ => false

/-- A combination is put in parentheses by what does not continue it. -/
theorem needsGroup_cons (op : BinaryOp) (next : Operation) (following : List Operation) :
    needsGroup op (next :: following) = !next.continues op := by
  cases next with
  | binary other =>
    show decide (other ≠ op) = !decide (other = op)
    rw [decide_not]
  | _ => rfl

/-- **The operator that combines two fragments in the last one**, if the
newest operation is one and found two. -/
def combining? (operations : List Operation) : Option BinaryOp :=
  match operations.getLast? with
  | some (.binary op) =>
    if 2 ≤ (fragments operations.dropLast).length then some op else none
  | _ => none

/-- Whether the newest operation combines two fragments is known from their
number before. -/
theorem combining?_concat (operations : List Operation) (next : Operation) :
    combining? (operations ++ [next])
      = match next with
        | .binary op => if 2 ≤ (fragments operations).length then some op else none
        | _ => none := by
  rw [combining?, List.getLast?_concat, List.dropLast_concat]
  cases next <;> rfl

/-- **The fragments of a stack, closed.** The last one is put in parentheses
if it combines two. -/
def closed (operations : List Operation) : List Fragment :=
  if (combining? operations).isSome then (fragments operations).modifyLast .group
  else fragments operations

/-- **The fragments of a stack that an operation is entered after.** They
are closed if the operation does not continue the chain. -/
def fragmentsBefore (operations : List Operation) (next : Operation) : List Fragment :=
  if (combining? operations).any fun op => next.continues op then fragments operations
  else closed operations

/-- **What follows a stack changes its last fragment at most**, and is known
from the first operation of it. -/
theorem reverse_describeRun_cons {operations : List Operation}
    (hbottom : ∀ op, operations.head? ≠ some (.unary op)) (next : Operation)
    (following : List Operation) :
    (describeRun [] operations (next :: following)).reverse
      = fragmentsBefore operations next := by
  obtain rfl | ⟨earlier, newest, rfl⟩ := List.eq_nil_or_concat operations
  · rfl
  · rw [List.concat_eq_append] at hbottom ⊢
    have hlen : (fragments earlier).length = (describeRun [] earlier [newest]).length := by
      rw [fragments_eq_describeRun (head?_ne_of_append hbottom), List.length_reverse]
      exact length_describeRun earlier [] [newest] rfl
    rw [fragmentsBefore, closed, combining?_concat, hlen, fragments_eq_describeRun hbottom,
      describeRun_append, describeRun_append,
      describeRun_congr [] earlier
        (show ([newest] ++ next :: following).head? = ([newest] ++ []).head? from rfl),
      List.append_nil, describeRun_singleton, describeRun_singleton]
    -- only a combination of two fragments looks at what follows
    cases newest with
    | binary op =>
      match hfs : describeRun [] earlier [.binary op] with
      | [] => rfl
      | [rhs] => rfl
      | rhs :: lhs :: older =>
        show (combination op lhs rhs (next :: following) :: older).reverse
          = if next.continues op then (Fragment.combine op lhs rhs :: older).reverse
            else (Fragment.combine op lhs rhs :: older).reverse.modifyLast .group
        rw [combination, needsGroup_cons]
        cases hnext : next.continues op with
        | true => rfl
        | false =>
          rw [if_neg Bool.false_ne_true, List.reverse_cons, List.reverse_cons,
            List.modifyLast_concat]
          rfl
    | unary op => cases describeRun [] earlier [.unary op] <;> rfl
    | _ => rfl

section

variable {operations : List Operation} (hbottom : ∀ op, operations.head? ≠ some (.unary op))

include hbottom

/-- **An operation that is entered takes one step from the fragments before
it**, with nothing to look ahead at. -/
theorem fragments_concat (hne : operations ≠ []) (next : Operation) :
    fragments (operations ++ [next])
      = (describeStep (fragmentsBefore operations next).reverse next []).reverse := by
  have hhead : ∀ op, (operations ++ [next]).head? ≠ some (.unary op) := by
    obtain ⟨oldest, rest, rfl⟩ := List.exists_cons_of_ne_nil hne
    exact hbottom
  rw [fragments_eq_describeRun hhead, describeRun_append, describeRun_singleton,
    ← reverse_describeRun_cons hbottom next [], List.reverse_reverse]
  rfl

/-- There is a fragment before an operation that is entered after another. -/
theorem fragmentsBefore_ne_nil (hne : operations ≠ []) (next : Operation) :
    fragmentsBefore operations next ≠ [] := by
  rw [← reverse_describeRun_cons hbottom next []]
  exact mt List.reverse_eq_nil_iff.mp (describeRun_nil_ne_nil hne hbottom [next])

/-- Putting a fragment in parentheses leaves their number. -/
theorem length_fragmentsBefore (next : Operation) :
    (fragmentsBefore operations next).length = (fragments operations).length := by
  rw [← reverse_describeRun_cons hbottom next [], fragments_eq_describeRun hbottom,
    List.length_reverse, List.length_reverse]
  exact length_describeRun operations [next] [] rfl

/-- **An operation takes its operands from the fragments before it**, and
leaves the others alone. -/
theorem fragments_concat_cases (hne : operations ≠ []) (next : Operation) :
    let before := fragmentsBefore operations next
    let after := fragments (operations ++ [next])
    match next with
    | .unary op =>
      ∃ older argument, before = older ++ [argument] ∧ after = older ++ [.apply op argument]
    | .binary op =>
      (∃ older lhs rhs, before = older ++ [lhs, rhs] ∧ after = older ++ [.combine op lhs rhs])
        ∨ ∃ rhs, before = [rhs] ∧ after = [.combine op .hole rhs]
    | value => after = before ++ [.leaf value.text] := by
  intro before after
  have hafter : after = (describeStep before.reverse next []).reverse :=
    fragments_concat hbottom hne next
  obtain ⟨older, newest, hbefore⟩ := List.eq_nil_or_concat before |>.resolve_left
    (fragmentsBefore_ne_nil hbottom hne next)
  rw [List.concat_eq_append] at hbefore
  rw [hbefore, List.reverse_append] at hafter
  have hleaf (value : Operation) :
      (Fragment.leaf value.text :: ([newest].reverse ++ older.reverse)).reverse
        = before ++ [.leaf value.text] := by
    rw [hbefore, List.reverse_cons, List.reverse_append, List.reverse_reverse,
      List.reverse_reverse]
  cases next with
  | unary op =>
    refine ⟨older, newest, hbefore, hafter.trans ?_⟩
    show (Fragment.apply op newest :: older.reverse).reverse = _
    rw [List.reverse_cons, List.reverse_reverse]
  | binary op =>
    -- the operator takes two fragments if there is a second one
    obtain rfl | ⟨oldest, lhs, rfl⟩ := List.eq_nil_or_concat older
    · exact .inr ⟨newest, hbefore, hafter⟩
    · rw [List.concat_eq_append] at hbefore hafter
      refine .inl ⟨oldest, lhs, newest, hbefore.trans (List.append_assoc ..), hafter.trans ?_⟩
      rw [List.reverse_append]
      show (Fragment.combine op lhs newest :: oldest.reverse).reverse = _
      rw [List.reverse_cons, List.reverse_reverse]
  | operand value => exact hafter.trans (hleaf _)
  | var name => exact hafter.trans (hleaf _)
  | constant symbol value => exact hafter.trans (hleaf _)

end

/-! ## Texts -/

/-- **The texts of a stack, closed.** The last one is put in parentheses if
it combines two. -/
def closedTexts (operations : List Operation) : List String :=
  if (combining? operations).isSome then
    (texts operations).modifyLast fun text => "(" ++ text ++ ")"
  else
    texts operations

/-- **The texts that an operation is entered after.** They are closed if the
operation does not continue the chain. -/
def textsBefore (operations : List Operation) (next : Operation) : List String :=
  if (combining? operations).any fun op => next.continues op then texts operations
  else closedTexts operations

/-- A last fragment in parentheses is a last text in parentheses. -/
theorem map_text_modifyLast_group (fs : List Fragment) :
    (fs.modifyLast .group).map Fragment.text
      = (fs.map Fragment.text).modifyLast fun text => "(" ++ text ++ ")" := by
  obtain rfl | ⟨earlier, last, rfl⟩ := List.eq_nil_or_concat fs
  · rfl
  · rw [List.concat_eq_append, List.modifyLast_concat, List.map_append, List.map_append,
      List.map_singleton, List.map_singleton, List.modifyLast_concat]
    rfl

theorem map_text_closed (operations : List Operation) :
    (closed operations).map Fragment.text = closedTexts operations := by
  unfold closed closedTexts
  split
  · exact map_text_modifyLast_group (fragments operations)
  · rfl

theorem map_text_fragmentsBefore (operations : List Operation) (next : Operation) :
    (fragmentsBefore operations next).map Fragment.text = textsBefore operations next := by
  unfold fragmentsBefore textsBefore
  split
  · rfl
  · exact map_text_closed operations

/-- **A description grows by one operation at a time.** The texts of the
stack before, of which the last one is put in parentheses if it combines two
and the operation does not continue the chain, are left alone but for those
that the operation takes: none if it is a value, whose text is one more; the
last one if it has one operand; and the last two, or the only one, if it has
two. Whether the last text combines two is then known for the next
operation. -/
theorem description_grows {operations : List Operation}
    (hbottom : ∀ op, operations.head? ≠ some (.unary op)) (hne : operations ≠ [])
    (next : Operation) :
    let before := textsBefore operations next
    let after := texts (operations ++ [next])
    (match next with
      | .unary op =>
        ∃ older argument, before = older ++ [argument]
          ∧ after = older ++ [op.symbol ++ "(" ++ argument ++ ")"]
      | .binary op =>
        (∃ older lhs rhs, before = older ++ [lhs, rhs]
          ∧ after = older ++ [lhs ++ op.symbol ++ rhs])
          ∨ ∃ rhs, before = [rhs] ∧ after = ["?" ++ op.symbol ++ rhs]
      | value => after = before ++ [value.text])
    ∧ combining? (operations ++ [next])
      = match next with
        | .binary op => if 2 ≤ before.length then some op else none
        | _ => none := by
  intro before after
  have htexts : (fragmentsBefore operations next).map Fragment.text = before :=
    map_text_fragmentsBefore operations next
  have hcount : before.length = (fragments operations).length := by
    rw [← htexts, List.length_map, length_fragmentsBefore hbottom next]
  refine ⟨?_, hcount ▸ combining?_concat operations next⟩
  have hbefore {older taken : List Fragment}
      (h : fragmentsBefore operations next = older ++ taken) :
      before = older.map Fragment.text ++ taken.map Fragment.text := by
    rw [← htexts, h, List.map_append]
  have hafter {older : List Fragment} {newest : Fragment}
      (h : fragments (operations ++ [next]) = older ++ [newest]) :
      after = older.map Fragment.text ++ [newest.text] :=
    (congrArg (List.map Fragment.text) h).trans List.map_append
  have hcases := fragments_concat_cases hbottom hne next
  cases next with
  | unary op =>
    obtain ⟨older, argument, htaken, hput⟩ := hcases
    exact ⟨older.map Fragment.text, argument.text, hbefore htaken, hafter hput⟩
  | binary op =>
    obtain ⟨older, lhs, rhs, htaken, hput⟩ | ⟨rhs, htaken, hput⟩ := hcases
    · exact .inl ⟨older.map Fragment.text, lhs.text, rhs.text, hbefore htaken, hafter hput⟩
    · exact .inr ⟨rhs.text, @hbefore [] [rhs] htaken, @hafter [] _ hput⟩
  | operand value => exact htexts ▸ hafter hcases
  | var name => exact htexts ▸ hafter hcases
  | constant symbol value => exact htexts ▸ hafter hcases

/-- A change of operator closes a combination that stood bare, beside one
that a value has closed. -/
theorem description_grows_by_operator :
    [Operation.var "a", .var "b", .binary .add, .var "c", .var "d", .binary .add] ≠ []
    ∧ textsBefore [.var "a", .var "b", .binary .add, .var "c", .var "d", .binary .add]
        (.binary .multiply) = ["(a+b)", "(c+d)"]
    ∧ texts [.var "a", .var "b", .binary .add, .var "c", .var "d", .binary .add,
        .binary .multiply] = ["(a+b)×(c+d)"] := by
  have hbottom : ∀ op : UnaryOp, some (Operation.var "a") ≠ some (.unary op) := by
    intro op h
    cases h
  have hbefore : textsBefore [.var "a", .var "b", .binary .add, .var "c", .var "d",
      .binary .add] (.binary .multiply) = ["(a+b)", "(c+d)"] := by
    decide +kernel
  refine ⟨List.cons_ne_nil _ _, hbefore, ?_⟩
  obtain ⟨⟨older, lhs, rhs, htaken, hput⟩ | ⟨rhs, htaken, -⟩, -⟩ := @description_grows
    [.var "a", .var "b", .binary .add, .var "c", .var "d", .binary .add] hbottom
    (List.cons_ne_nil _ _) (.binary .multiply)
  · obtain ⟨rfl, htwo⟩ : older = [] ∧ [lhs, rhs] = ["(a+b)", "(c+d)"] :=
      List.append_inj' (htaken.symm.trans hbefore) rfl
    cases htwo
    exact hput.trans (by decide)
  · cases hbefore.symm.trans htaken

end Rpn
