import Mathlib.Data.List.Induction
import Rpn.Proofs.Description.Cut
import Rpn.Proofs.Description.Reader
import Rpn.Proofs.Evaluation.Outcome

/-!
# Descriptions are unambiguous

A stack on which no operator lacks an operand is a list of expressions, one
after the other, and its description is the list of their fragments
(`fragments_flatMap_listing`): each is closed, since a value follows it,
except for the last. The reader takes them back one by one.

What it recovers is the stack that was described. So two stacks with the
same description are the same stack (`description_unambiguous`), as far as
the equality of operations goes: a zero is shown without its sign, and the
two zeros are equal.
-/

namespace Rpn

/-! ## Stacks that lack nothing -/

/-- **Operations that lack nothing are those of expressions**, one after the
other. -/
theorem exists_listings_of_lacking?_eq_none {operations : List Operation}
    (h : lacking? operations = none) :
    ∃ ts : List Expression, operations = ts.flatMap Expression.listing := by
  obtain ⟨t, below, hstack⟩ | short := exists_stacked_or_unfinished operations.reverse
  · have hops := Expression.eq_append_listing_of_reverse hstack
    have hbelow : lacking? below.reverse = none := by
      cases hlacking : lacking? below.reverse with
      | none => rfl
      | some op =>
        rw [hops, lacking?, lackingFrom_append hlacking] at h
        cases h
    obtain ⟨ts, hts⟩ := exists_listings_of_lacking?_eq_none hbelow
    refine ⟨ts ++ [t], ?_⟩
    rw [hops, hts, List.flatMap_append, List.flatMap_singleton]
  · obtain hnil | ⟨op, hlacking, -⟩ := short.exists_lacking .empty
    · exact ⟨[], List.reverse_eq_nil_iff.mp hnil⟩
    · rw [List.reverse_reverse, h] at hlacking
      cases hlacking
termination_by operations.length
decreasing_by
  rw [hops, List.length_append]
  exact Nat.lt_add_of_pos_right (List.length_pos_iff.mpr t.listing_ne_nil)

/-- No list of expressions starts with an operator. -/
theorem head?_flatMap_listing_ne (ts : List Expression) (op : UnaryOp) :
    (ts.flatMap Expression.listing).head? ≠ some (.unary op) := by
  cases ts with
  | nil => exact nofun
  | cons t ts => exact t.head?_listing_append_ne op _

/-- **Expressions with a value after them are closed.** -/
theorem closed_flatMap_listing (ts : List Expression) :
    closed (ts.flatMap Expression.listing) = ts.map (Expression.render fun _ => true) := by
  induction ts using List.reverseRecOn with
  | nil => rfl
  | append_singleton ts t ih =>
    rw [List.flatMap_append, List.flatMap_singleton,
      closed_append_listing t (head?_flatMap_listing_ne ts), ih, List.map_append]
    rfl

/-- **Expressions are described one by one**, and all but the last are
closed. -/
theorem fragments_flatMap_listing (ts : List Expression) (t : Expression) :
    fragments ((ts ++ [t]).flatMap Expression.listing)
      = ts.map (Expression.render fun _ => true) ++ [t.render fun _ => false] := by
  rw [List.flatMap_append, List.flatMap_singleton,
    fragments_append_listing t (head?_flatMap_listing_ne ts), closed_flatMap_listing,
    t.fragments_listing]

/-! ## Reading the description of a stack -/

namespace Reader

section

variable {t : Expression} (h : t.ReadsAsExpression) (closing : BinaryOp → Bool) (count : Nat)

include h

/-- The last expression is read to the end. -/
theorem readExpressions_last :
    readExpressions (count + 1) (t.render closing).text.toList = some [t.withoutZeroSigns] := by
  have hread := h closing (t.render closing).text.toList.length [] endsExpression_nil
    (by rw [List.append_nil])
  rw [List.append_nil] at hread
  rw [readExpressions, hread]

/-- An expression is read up to the comma behind it. -/
theorem readExpressions_comma (rest : List Char) :
    readExpressions (count + 1) ((t.render closing).text.toList ++ ',' :: ' ' :: rest)
      = (readExpressions count rest).map (t.withoutZeroSigns :: ·) := by
  have hread := h closing _ (',' :: ' ' :: rest) (endsExpression_comma _) (Nat.le_refl _)
  rw [readExpressions, hread]
  rfl

end

/-- **Expressions with commas between them are read**, whichever of them are
closed. -/
theorem readExpressions_intercalate {parts : List (Expression × (BinaryOp → Bool))}
    (hne : parts ≠ []) (hreads : ∀ part ∈ parts, part.1.ReadsAsExpression) {count : Nat}
    (hcount : (", ".intercalate (parts.map fun part => (part.1.render part.2).text)).length
      < count) :
    readExpressions count
        (", ".intercalate (parts.map fun part => (part.1.render part.2).text)).toList
      = some (parts.map fun part => part.1.withoutZeroSigns) := by
  induction parts generalizing count with
  | nil => exact absurd rfl hne
  | cons part rest ih =>
    have hpart := hreads part List.mem_cons_self
    obtain ⟨count, rfl⟩ := Nat.exists_eq_add_of_le'
      (Nat.succ_le_of_lt (Nat.zero_lt_of_lt hcount))
    cases rest with
    | nil =>
      rw [List.map_singleton, String.intercalate_singleton]
      exact readExpressions_last hpart part.2 count
    | cons next rest =>
      have hparts : ", ".intercalate
            ((part :: next :: rest).map fun part => (part.1.render part.2).text)
          = (part.1.render part.2).text ++ ", "
            ++ ", ".intercalate ((next :: rest).map fun part => (part.1.render part.2).text) :=
        String.intercalate_cons_cons
      have hrest := @ih (List.cons_ne_nil _ _)
        (fun part hmem => hreads part (List.mem_cons_of_mem _ hmem)) count (by
          rw [hparts, String.length_append, String.length_append,
            show (", " : String).length = 2 from rfl] at hcount
          omega)
      have hcomma (text : List Char) : ", ".toList ++ text = ',' :: ' ' :: text := rfl
      rw [hparts, String.toList_append, String.toList_append, List.append_assoc, hcomma,
        readExpressions_comma hpart, hrest]
      rfl

/-- The expressions of a description, each with what closes it. -/
def parts (earlier : List Expression) (last : Expression) :
    List (Expression × (BinaryOp → Bool)) :=
  earlier.map (fun t => (t, fun _ => true)) ++ [(last, fun _ => false)]

theorem map_fst_parts (earlier : List Expression) (last : Expression) :
    (parts earlier last).map Prod.fst = earlier ++ [last] := by
  rw [parts, List.map_append, List.map_map]
  exact congrArg (· ++ [last]) (List.map_id earlier)

/-- A description has the texts of its parts, with commas between them. -/
theorem description_flatMap_listing (earlier : List Expression) (last : Expression) :
    description ((earlier ++ [last]).flatMap Expression.listing)
      = ", ".intercalate
          ((parts earlier last).map fun part => (part.1.render part.2).text) := by
  rw [description, texts, fragments_flatMap_listing, parts, List.map_append, List.map_append,
    List.map_map, List.map_map]
  rfl

/-- The signs of zeros are no matter of where one expression ends and the
next begins. -/
theorem flatMap_listing_withoutZeroSigns (ts : List Expression) :
    (ts.map Expression.withoutZeroSigns).flatMap Expression.listing
      = (ts.flatMap Expression.listing).map Operation.withoutZeroSign := by
  rw [List.flatMap_map, List.map_flatMap]
  exact congrArg (ts.flatMap ·) (funext Expression.listing_withoutZeroSigns)

/-- **Expressions one after the other are read from their description.** -/
theorem readDescription_flatMap_listing {ts : List Expression}
    (hplain : ∀ operation ∈ ts.flatMap Expression.listing, operation.Plain) :
    readDescription (description (ts.flatMap Expression.listing))
      = some ((ts.flatMap Expression.listing).map Operation.withoutZeroSign) := by
  obtain rfl | ⟨earlier, last, rfl⟩ := List.eq_nil_or_concat ts
  · rfl
  · rw [List.concat_eq_append] at hplain ⊢
    have hreads : ∀ part ∈ parts earlier last, part.1.ReadsAsExpression := by
      intro part hpart
      have hmem : part.1 ∈ earlier ++ [last] := by
        rw [← map_fst_parts]
        exact List.mem_map_of_mem hpart
      exact (part.1.reads_render fun operation hop =>
        hplain operation (List.mem_flatMap_of_mem hmem hop)).2
    have hparts : parts earlier last ≠ [] :=
      List.append_ne_nil_of_right_ne_nil _ (List.cons_ne_nil _ _)
    have hread := readExpressions_intercalate hparts hreads (Nat.lt_succ_self _)
    rw [← description_flatMap_listing] at hread
    have hne : description ((earlier ++ [last]).flatMap Expression.listing) ≠ "" := by
      intro hempty
      rw [hempty] at hread
      cases hread
    have hfst : (parts earlier last).map (fun part => part.1.withoutZeroSigns)
        = (earlier ++ [last]).map Expression.withoutZeroSigns := by
      rw [← map_fst_parts, List.map_map]
      rfl
    rw [readDescription, if_neg hne, hread, hfst, ← flatMap_listing_withoutZeroSigns]
    rfl

end Reader

/-! ## Stacks and their descriptions -/

/-- **A stack whose description says everything**: no operator on it lacks
an operand, and every operation is read as it was shown. -/
structure Describable (operations : List Operation) : Prop where
  /-- Every operator finds its operands. -/
  complete : lacking? operations = none
  /-- Every operation is read as it was shown. -/
  plain : ∀ operation ∈ operations, operation.Plain

/-- Operations that differ in the sign of a zero at most are equal. -/
theorem Operation.beq_of_withoutZeroSign_eq {operation operation' : Operation}
    (hfinite : operation.FiniteNumber)
    (h : operation.withoutZeroSign = operation'.withoutZeroSign) :
    (operation == operation') = true := by
  cases operation with
  | operand value =>
    cases operation' with
    | operand value' =>
      exact Binary64.beq_of_withoutZeroSign_eq hfinite (Operation.operand.inj h)
    | _ => cases h
  | var name =>
    cases operation' with
    | var name' =>
      cases h
      exact beq_self_eq_true name
    | _ => cases h
  | constant symbol value =>
    cases operation' with
    | constant symbol' value' =>
      cases h
      exact Bool.and_eq_true_iff.mpr
        ⟨beq_self_eq_true symbol, Binary64.beq_self_of_isFinite hfinite⟩
    | _ => cases h
  | unary op =>
    cases operation' with
    | unary op' =>
      cases h
      exact beq_self_eq_true op
    | _ => cases h
  | binary op =>
    cases operation' with
    | binary op' =>
      cases h
      exact beq_self_eq_true op
    | _ => cases h

/-- **Lists of operations that differ in the signs of zeros at most are
equal.** -/
theorem beq_of_withoutZeroSigns_eq {operations operations' : List Operation}
    (hfinite : ∀ operation ∈ operations, operation.FiniteNumber)
    (h : operations.map Operation.withoutZeroSign
      = operations'.map Operation.withoutZeroSign) :
    (operations == operations') = true := by
  induction operations generalizing operations' with
  | nil =>
    cases operations' with
    | nil => rfl
    | cons operation' rest' => cases h
  | cons operation rest ih =>
    cases operations' with
    | nil => cases h
    | cons operation' rest' =>
      obtain ⟨hhead, htail⟩ := List.cons.inj h
      rw [List.cons_beq_cons, Bool.and_eq_true]
      exact ⟨Operation.beq_of_withoutZeroSign_eq (hfinite _ List.mem_cons_self) hhead,
        ih (fun o ho => hfinite o (List.mem_cons_of_mem _ ho)) htail⟩

/-- Lists of plain operations that differ in the signs of zeros at most are
equal. -/
theorem beq_of_map_withoutZeroSign_eq {operations operations' : List Operation}
    (hplain : ∀ operation ∈ operations, operation.Plain)
    (h : operations.map Operation.withoutZeroSign
      = operations'.map Operation.withoutZeroSign) :
    (operations == operations') = true :=
  beq_of_withoutZeroSigns_eq (fun operation hmem => (hplain operation hmem).finiteNumber) h

/-- Whether parentheses are needed is no matter of the signs of zeros. -/
theorem needsGroup_map_withoutZeroSign (op : BinaryOp) (following : List Operation) :
    needsGroup op (following.map Operation.withoutZeroSign) = needsGroup op following := by
  cases following with
  | nil => rfl
  | cons next following => cases next <;> rfl

/-- **The signs of zeros are not described.** -/
theorem description_map_withoutZeroSign (operations : List Operation) :
    description (operations.map Operation.withoutZeroSign) = description operations := by
  have hfrom (above : List Fragment) :
      describeFrom above (operations.map Operation.withoutZeroSign)
        = describeFrom above operations := by
    induction operations generalizing above with
    | nil => rfl
    | cons operation following ih =>
      rw [List.map_cons]
      cases operation with
      | operand value =>
        show describeFrom (.leaf (numberText (Binary64.withoutZeroSign value)) :: above) _ = _
        rw [numberText_withoutZeroSign, ih]
        rfl
      | var name => exact ih _
      | constant symbol value => exact ih _
      | unary op =>
        cases above with
        | nil => rfl
        | cons argument older => exact ih _
      | binary op =>
        cases above with
        | nil => exact ih _
        | cons rhs older =>
          cases older with
          | nil => exact ih _
          | cons lhs older =>
            show describeFrom (combination op lhs rhs (following.map _) :: older) _ = _
            rw [combination, needsGroup_map_withoutZeroSign, ih]
            rfl
  rw [description, description, texts, texts, fragments, fragments, hfrom]

/-- **The description of a stack is unambiguous.** A describable stack is
read from its description, up to the signs of its zeros, and is equal to any
other with the same description. -/
theorem description_unambiguous {operations operations' : List Operation}
    (h : Describable operations) (h' : Describable operations') :
    Reader.readDescription (description operations)
        = some (operations.map Operation.withoutZeroSign)
      ∧ (description operations = description operations' →
        (operations == operations') = true) := by
  have hread : ∀ {operations}, Describable operations →
      Reader.readDescription (description operations)
        = some (operations.map Operation.withoutZeroSign) := by
    intro operations h
    obtain ⟨ts, rfl⟩ := exists_listings_of_lacking?_eq_none h.complete
    exact Reader.readDescription_flatMap_listing h.plain
  refine ⟨hread h, fun hsame => ?_⟩
  have hrecovered := hread h
  rw [hsame, hread h'] at hrecovered
  exact beq_of_map_withoutZeroSign_eq h.plain (Option.some.inj hrecovered).symm

/-- A zero with a sign, and the stack that is read instead. -/
theorem description_unambiguous_negative_zero :
    Reader.readDescription (description [.var "a", .operand (-0.0), .binary .add, .unary .sqrt])
        = some [.var "a", .operand 0, .binary .add, .unary .sqrt]
      ∧ ([Operation.var "a", .operand (-0.0), .binary .add, .unary .sqrt]
        == [.var "a", .operand 0, .binary .add, .unary .sqrt]) = true := by
  have hname : PlainName "a" := ⟨by decide, List.all_eq_true.mp rfl, by decide, rfl⟩
  have hdescribable : ∀ x : Float, x.isFinite = true →
      Describable [.var "a", .operand x, .binary .add, .unary .sqrt] := by
    intro x hx
    refine ⟨rfl, fun operation hmem => ?_⟩
    simp only [List.mem_cons, List.not_mem_nil, or_false] at hmem
    obtain rfl | rfl | rfl | rfl := hmem
    · exact hname
    · exact hx
    · trivial
    · trivial
  obtain ⟨hread, hequal⟩ := description_unambiguous
    (hdescribable (-0.0) (by decide +kernel)) (hdescribable 0 (by decide +kernel))
  exact ⟨hread, hequal (by decide +kernel)⟩

/-- What is not closed is nested to the right. -/
example : (Reader.readDescription "(a×b)+√(c+d+e), 1.5"
    == some [.var "a", .var "b", .binary .multiply, .var "c", .var "d", .var "e", .binary .add,
      .binary .add, .unary .sqrt, .binary .add, .operand 1.5]) = true := by decide +kernel

end Rpn
