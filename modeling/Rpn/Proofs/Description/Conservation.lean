import Mathlib.Data.List.Basic
import Rpn.Proofs.Description.Tokens

/-!
# A description keeps everything

Every operation is written once. A description reorders them, since an
operator is entered after its operands and written between them or in front
of them, but it leaves none out and shows none twice; and values do not even
change their order.

What one operation does to the fragments is to put its own token somewhere
among those that are there, and parentheses and question marks around it
(`exists_insert_describeStep`). A value is put at the end. So over a whole
run, the tokens that stand for an operation are a permutation of the
operations, and among them the values come in the order in which they were
entered. The number of question marks then follows from the shape of a
fragment alone: it has one operand more than operators between operands, and
any that no value is there for is a question mark.
-/

namespace Rpn

/-- **The token an operation is written as.** -/
def Operation.token : Operation → Token
  | unary op => .unary op
  | binary op => .binary op
  | operation => .value operation.text

/-- The token of an operator between operands is one. -/
theorem Operation.isBinary_token (operation : Operation) :
    operation.token.isBinary = operation.isBinary := by
  cases operation <;> rfl

/-- **The name or symbol of a value** that is no number that was typed. -/
def Operation.name? : Operation → Option String
  | var name => some name
  | constant symbol _ => some symbol
  | _ => none

/-- A value is a number, which can stand in any description, or has a name
or a symbol. -/
theorem Operation.isValueChar_or_name?_eq_some {operation : Operation} {text : String}
    (h : operation.token = .value text) :
    (∀ c ∈ text.toList, isValueChar c = true) ∨ operation.name? = some text := by
  cases operation with
  | operand value =>
    cases h
    exact .inl fun _ => isValueChar_of_mem_numberText
  | var name =>
    cases h
    exact .inr rfl
  | constant symbol value =>
    cases h
    exact .inr rfl
  | unary op => cases h
  | binary op => cases h

/-! ## Fragments and operations -/

namespace Fragment

/-- **The tokens of a fragment that stand for an operation**, from the
left. -/
def operationTokens (f : Fragment) : List Token := f.tokens.filter Token.isOperation

theorem operationTokens_apply (op : UnaryOp) (argument : Fragment) :
    (apply op argument).operationTokens = .unary op :: argument.operationTokens := by
  simp [operationTokens, tokens, List.filter_cons, Token.isOperation]

theorem operationTokens_combine (op : BinaryOp) (lhs rhs : Fragment) :
    (combine op lhs rhs).operationTokens
      = lhs.operationTokens ++ .binary op :: rhs.operationTokens := by
  simp [operationTokens, tokens, List.filter_cons, Token.isOperation]

theorem operationTokens_group (inner : Fragment) :
    (group inner).operationTokens = inner.operationTokens := by
  simp [operationTokens, tokens, Token.isOperation]

/-- Whether a combination is in parentheses is no matter of its
operations. -/
theorem operationTokens_combination (op : BinaryOp) (lhs rhs : Fragment)
    (following : List Operation) :
    (combination op lhs rhs following).operationTokens
      = lhs.operationTokens ++ .binary op :: rhs.operationTokens := by
  rw [combination, ← operationTokens_combine]
  split
  · exact operationTokens_group _
  · rfl

end Fragment

/-- The tokens that stand for an operation in fragments that come newest
first, from the left. -/
def operationTokens (older : List Fragment) : List Token :=
  older.reverse.flatMap Fragment.operationTokens

theorem operationTokens_cons (f : Fragment) (older : List Fragment) :
    operationTokens (f :: older) = operationTokens older ++ f.operationTokens := by
  rw [operationTokens, List.reverse_cons, List.flatMap_append, List.flatMap_singleton]
  rfl

/-- **A step puts the token of its operation among those there are**, and at
the end if it is a value. -/
theorem exists_insert_describeStep {older : List Fragment} {operation : Operation}
    (h : older ≠ [] ∨ ∀ op, operation ≠ .unary op) (following : List Operation) :
    ∃ before behind, operationTokens older = before ++ behind
      ∧ operationTokens (describeStep older operation following)
        = before ++ operation.token :: behind
      ∧ (operation.token.isValue = true → behind = []) := by
  have hvalue (text : String) :
      operationTokens (.leaf text :: older) = operationTokens older ++ [.value text] :=
    operationTokens_cons _ _
  cases operation with
  | operand value => exact ⟨_, [], (List.append_nil _).symm, hvalue _, fun _ => rfl⟩
  | var name => exact ⟨_, [], (List.append_nil _).symm, hvalue _, fun _ => rfl⟩
  | constant symbol value => exact ⟨_, [], (List.append_nil _).symm, hvalue _, fun _ => rfl⟩
  | unary op =>
    obtain ⟨argument, older, rfl⟩ :=
      List.exists_cons_of_ne_nil (h.resolve_right fun hne => hne op rfl)
    refine ⟨operationTokens older, argument.operationTokens, operationTokens_cons _ _, ?_, nofun⟩
    show operationTokens (.apply op argument :: older) = _
    rw [operationTokens_cons, Fragment.operationTokens_apply]
    rfl
  | binary op =>
    match older with
    | [] => exact ⟨[], [], rfl, rfl, nofun⟩
    | [rhs] =>
      refine ⟨[], rhs.operationTokens, operationTokens_cons _ _, ?_, nofun⟩
      show operationTokens [.combine op .hole rhs] = _
      rw [operationTokens_cons, Fragment.operationTokens_combine]
      rfl
    | rhs :: lhs :: older =>
      refine ⟨operationTokens (lhs :: older), rhs.operationTokens, operationTokens_cons _ _, ?_,
        nofun⟩
      show operationTokens (combination op lhs rhs following :: older) = _
      rw [operationTokens_cons, operationTokens_cons, Fragment.operationTokens_combination,
        List.append_assoc]
      rfl

/-- **A run shows every operation once**, and values in their order. -/
theorem operationTokens_describeRun {older : List Fragment} {operations : List Operation}
    (h : older ≠ [] ∨ ∀ op, operations.head? ≠ some (.unary op)) (following : List Operation) :
    (operationTokens (describeRun older operations following)).Perm
        (operationTokens older ++ operations.map Operation.token)
      ∧ (operationTokens (describeRun older operations following)).filter Token.isValue
        = (operationTokens older ++ operations.map Operation.token).filter Token.isValue := by
  induction operations generalizing older with
  | nil =>
    rw [List.map_nil, List.append_nil]
    exact ⟨.refl _, rfl⟩
  | cons operation rest ih =>
    have hstep : older ≠ [] ∨ ∀ op, operation ≠ .unary op := by simpa using h
    obtain ⟨hperm, hvalues⟩ := ih (.inl (describeStep_ne_nil hstep (rest ++ following)))
    obtain ⟨before, behind, hbefore, hafter, hend⟩ :=
      exists_insert_describeStep hstep (rest ++ following)
    rw [hafter] at hperm hvalues
    rw [hbefore, List.map_cons]
    refine ⟨hperm.trans ?_, hvalues.trans ?_⟩
    · rw [List.append_assoc, List.append_assoc]
      exact List.Perm.append_left before List.perm_middle.symm
    · cases hvalue : operation.token.isValue with
      | true => rw [hend hvalue, List.append_nil, List.append_assoc]; rfl
      | false =>
        have hskipped : ¬operation.token.isValue = true := by
          rw [hvalue]
          exact Bool.false_ne_true
        rw [List.filter_append, List.filter_append, List.filter_append, List.filter_append,
          List.filter_cons_of_neg hskipped, List.filter_cons_of_neg hskipped]

/-! ## The description of a stack -/

section

variable {operations : List Operation} (hbottom : ∀ op, operations.head? ≠ some (.unary op))

include hbottom

/-- **The tokens of a description** that stand for an operation are those of
the operations of the stack, and the values are in their order. -/
theorem filter_tokens_fragments :
    (((fragments operations).flatMap Fragment.tokens).filter Token.isOperation).Perm
        (operations.map Operation.token)
      ∧ ((fragments operations).flatMap Fragment.tokens).filter Token.isValue
        = (operations.map Operation.token).filter Token.isValue := by
  have hfilter : ((fragments operations).flatMap Fragment.tokens).filter Token.isOperation
      = operationTokens (describeRun [] operations []) := by
    rw [fragments_eq_describeRun hbottom, List.filter_flatMap]
    rfl
  obtain ⟨hperm, hvalues⟩ := operationTokens_describeRun (.inr hbottom) []
  rw [← hfilter] at hperm hvalues
  rw [Token.filter_isValue_filter_isOperation] at hvalues
  exact ⟨hperm, hvalues⟩

/-- A value that is shown is on the stack. -/
theorem exists_operation_of_value_mem_tokens {f : Fragment} (hf : f ∈ fragments operations)
    {text : String} (h : .value text ∈ f.tokens) :
    ∃ operation ∈ operations, operation.token = .value text := by
  have hmem : .value text
      ∈ ((fragments operations).flatMap Fragment.tokens).filter Token.isOperation :=
    List.mem_filter.mpr ⟨List.mem_flatMap.mpr ⟨f, hf, h⟩, rfl⟩
  exact List.mem_map.mp ((filter_tokens_fragments hbottom).1.mem_iff.mp hmem)

/-- **The fragments of a stack can be taken apart** if its names and symbols
can stand in a description. -/
theorem plain_of_mem_fragments
    (hnames : ∀ operation ∈ operations, ∀ name ∈ operation.name?,
      ∀ c ∈ name.toList, isValueChar c = true)
    {f : Fragment} (hf : f ∈ fragments operations) : f.Plain := by
  intro text hmem
  obtain ⟨operation, hoperation, htoken⟩ := exists_operation_of_value_mem_tokens hbottom hf hmem
  obtain hplain | hname := operation.isValueChar_or_name?_eq_some htoken
  · exact hplain
  · exact hnames operation hoperation text hname

end

/-- In fragments there are as many operands as operators between operands
and fragments, if the missing operands are counted in. -/
theorem countP_isValue_add_count_hole_flatMap (fs : List Fragment) :
    (fs.flatMap Fragment.tokens).countP Token.isValue
        + (fs.flatMap Fragment.tokens).count .hole
      = (fs.flatMap Fragment.tokens).countP Token.isBinary + fs.length := by
  induction fs with
  | nil => rfl
  | cons f rest ih =>
    have hone := f.countP_isValue_add_count_hole
    rw [List.flatMap_cons, List.countP_append, List.countP_append, List.count_append,
      List.length_cons]
    omega

/-- **A description loses nothing and shows nothing twice.** Its texts are
taken apart into tokens. The values among them are those of the stack, in
their order; the tokens that stand for an operation are those of the
operations, each as often as it is on the stack; the parentheses of every
text are balanced; and there are as many values and question marks as
operators between operands and fragments. -/
theorem description_keeps_operations {operations : List Operation}
    (hbottom : ∀ op, operations.head? ≠ some (.unary op))
    (hnames : ∀ operation ∈ operations, ∀ name ∈ operation.name?,
      ∀ c ∈ name.toList, isValueChar c = true) :
    let texts := (fragments operations).map Fragment.text
    let tokens := texts.flatMap Token.ofText
    tokens.filter Token.isValue = (operations.map Operation.token).filter Token.isValue
    ∧ (tokens.filter Token.isOperation).Perm (operations.map Operation.token)
    ∧ (∀ text ∈ texts, Balanced text)
    ∧ (tokens.filter Token.isValue).length + (texts.flatMap String.toList).count '?'
      = operations.countP Operation.isBinary + texts.length := by
  intro texts tokens
  have hplain : ∀ f ∈ fragments operations, f.Plain :=
    fun _ => plain_of_mem_fragments hbottom hnames
  have htokens : tokens = (fragments operations).flatMap Fragment.tokens := by
    show ((fragments operations).map Fragment.text).flatMap Token.ofText = _
    rw [List.flatMap_map]
    exact List.flatMap_congr fun f hf => Token.ofText_text (hplain f hf)
  obtain ⟨hperm, hvalues⟩ := filter_tokens_fragments hbottom
  rw [← htokens] at hperm hvalues
  refine ⟨hvalues, hperm, ?balanced, ?count⟩
  case balanced =>
    intro text hmem
    obtain ⟨f, hf, rfl⟩ := List.mem_map.mp hmem
    exact balanced_text (hplain f hf)
  case count =>
    have hmarks : (texts.flatMap String.toList).count '?' = tokens.count .hole := by
      have htexts : texts.flatMap String.toList
          = tokens.flatMap fun token => token.text.toList := by
        rw [htokens, List.flatMap_assoc, List.flatMap_map]
        exact List.flatMap_congr fun f _ => f.toList_text
      rw [htexts]
      refine Token.count_questionMark fun text hmem hmark => ?_
      rw [htokens] at hmem
      obtain ⟨f, hf, hvalue⟩ := List.mem_flatMap.mp hmem
      exact (ne_of_isValueChar (hplain f hf text hvalue '?' hmark)).2.2.1 rfl
    have hbinary : tokens.countP Token.isBinary = operations.countP Operation.isBinary := by
      rw [← Token.countP_isBinary_filter_isOperation, hperm.countP_eq, List.countP_map]
      exact List.countP_congr fun operation _ => by
        rw [Function.comp_apply, operation.isBinary_token]
    have hcount := countP_isValue_add_count_hole_flatMap (fragments operations)
    rw [← htokens, hbinary] at hcount
    rw [hmarks, ← List.countP_eq_length_filter, hcount, List.length_map]

/-- An operator that lacks an operand, below another that was applied to the
product of the constant and a variable with no name. -/
theorem description_keeps_operations_missing_operand :
    (∀ operation ∈ [Operation.var "a", .binary .add, .constant "π" pi, .var "",
        .binary .multiply, .unary .sin], ∀ name ∈ operation.name?,
      ∀ c ∈ name.toList, isValueChar c = true)
    ∧ ((["?+a", "sin((π×))"].flatMap Token.ofText).filter Token.isOperation).Perm
      [.value "a", .binary .add, .value "π", .value "", .binary .multiply, .unary .sin]
    ∧ Balanced "sin((π×))" := by
  have hbottom : ∀ op, [Operation.var "a", .binary .add, .constant "π" pi, .var "",
      .binary .multiply, .unary .sin].head? ≠ some (.unary op) := by
    intro op h
    cases h
  have hnames : ∀ operation ∈ [Operation.var "a", .binary .add, .constant "π" pi, .var "",
      .binary .multiply, .unary .sin], ∀ name ∈ operation.name?,
      ∀ c ∈ name.toList, isValueChar c = true := by
    intro operation hmem name hname
    simp only [List.mem_cons, List.not_mem_nil, or_false] at hmem
    obtain rfl | rfl | rfl | rfl | rfl | rfl := hmem <;> cases hname <;>
      exact List.all_eq_true.mp rfl
  obtain ⟨-, hperm, hbalanced, -⟩ := description_keeps_operations hbottom hnames
  exact ⟨hnames, hperm, hbalanced "sin((π×))" (List.mem_cons_of_mem _ List.mem_cons_self)⟩

end Rpn
