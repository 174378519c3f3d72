import Rpn.Proofs.Description.Growth

/-!
# Where a stack is cut

Evaluation takes an expression from the top of a stack and leaves the rest.
It may then be asked for the value of what it left, and so cuts a stack
into pieces from its newest end. A description is made from the oldest end,
without knowing where an expression will turn out to be complete. Both cut
at the same places: the last text is that of the piece evaluation takes,
and the texts before it are those of what it leaves.

The second half needs one correction. What is left was followed by the
piece, and a combination that nothing follows is bare while one that a value
follows is in parentheses. So the texts are those of the stack that is left
after its last one has been put in parentheses, if that combines two
(`closedTexts`). Nothing else can change, for the glance ahead is of a
single operation.

A stack may end up with operators that found nothing to apply to. Those
evaluation cannot cut any further, and there the description shows one
text, in which the missing operands are marked.

As before, fragments come first (`Cuts.closed_eq`), and their texts after
them (`texts_of_evaluateTop_eq_ok`).
-/

namespace Rpn

/-- What continues no chain closes the combination before it. -/
theorem fragmentsBefore_eq_closed (operations : List Operation) {next : Operation}
    (hnext : ∀ op, next.continues op = false) :
    fragmentsBefore operations next = closed operations := by
  refine if_neg ?_
  rw [Option.any_eq_true]
  rintro ⟨op, -, hcontinues⟩
  rw [hnext op] at hcontinues
  cases hcontinues

/-- A value starts no chain, so the combination before it is closed. -/
theorem reverse_describeRun_eq_closed {operations following : List Operation}
    (hbottom : ∀ op, operations.head? ≠ some (.unary op))
    (hfollowing : ∀ op, needsGroup op following = true) :
    (describeRun [] operations following).reverse = closed operations := by
  cases following with
  | nil => cases hfollowing .add
  | cons next following =>
    have hnext : ∀ op, next.continues op = false := by
      intro op
      have hneeds := hfollowing op
      rwa [needsGroup_cons, Bool.not_eq_true'] at hneeds
    rw [reverse_describeRun_cons hbottom, fragmentsBefore_eq_closed operations hnext]

section

variable {below : List Operation} (t : Expression)
variable (hbottom : ∀ op, below.head? ≠ some (.unary op))

include hbottom

/-- An expression entered after a stack leaves the oldest operation as it
is, if there is one. -/
theorem head?_append_listing_ne :
    ∀ op, (below ++ t.listing).head? ≠ some (.unary op) := by
  intro op
  cases below with
  | nil => exact List.append_nil t.listing ▸ t.head?_listing_append_ne op []
  | cons oldest rest => exact hbottom op

/-- **An expression is described after what is below it**, which it
closes. -/
theorem reverse_describeRun_append_listing (following : List Operation) :
    (describeRun [] (below ++ t.listing) following).reverse
      = closed below ++ [t.render fun op => needsGroup op following] := by
  rw [describeRun_append, t.describeRun_listing, List.reverse_cons,
    reverse_describeRun_eq_closed hbottom fun op => t.needsGroup_listing_append op following]

/-- **The last fragment is that of the expression on top**, and the ones
before it are those of what is below, closed. -/
theorem fragments_append_listing :
    fragments (below ++ t.listing) = closed below ++ fragments t.listing := by
  rw [fragments_eq_describeRun (head?_append_listing_ne t hbottom),
    reverse_describeRun_append_listing t hbottom, t.fragments_listing]
  rfl

/-- With a value entered after it, the expression on top is closed too. -/
theorem closed_append_listing :
    closed (below ++ t.listing) = closed below ++ [t.render fun _ => true] := by
  have hvalue : ∀ op, needsGroup op [.var ""] = true := fun _ => rfl
  rw [← reverse_describeRun_eq_closed (head?_append_listing_ne t hbottom) hvalue,
    reverse_describeRun_append_listing t hbottom]
  rfl

end

/-- An expression that a value is entered after is one closed fragment. -/
theorem Expression.closed_listing (t : Expression) :
    closed t.listing = [t.render fun _ => true] :=
  @closed_append_listing [] t nofun

/-! ## Operators that found nothing to apply to -/

/-- **Whether an operand is missing** somewhere in a fragment. -/
def Fragment.hasHole : Fragment → Bool
  | hole => true
  | leaf _ => false
  | apply _ argument => argument.hasHole
  | combine _ lhs rhs => lhs.hasHole || rhs.hasHole
  | group inner => inner.hasHole

/-- Parentheses hide nothing that is missing. -/
theorem Fragment.hasHole_combination (op : BinaryOp) (lhs rhs : Fragment)
    (following : List Operation) :
    (combination op lhs rhs following).hasHole = (lhs.hasHole || rhs.hasHole) := by
  unfold combination
  split <;> rfl

/-- **A stack that falls short of its newest expression is one fragment in
which an operand is missing**, unless it is empty. -/
theorem Unfinished.exists_describeRun_eq {stack : List Operation} (short : Unfinished stack)
    (hbottom : ∀ op, stack.reverse.head? ≠ some (.unary op)) (following : List Operation) :
    stack = []
      ∨ ∃ f, describeRun [] stack.reverse following = [f] ∧ f.hasHole = true := by
  induction short generalizing following with
  | nil => exact .inl rfl
  | @unary op below short ih =>
    rw [List.reverse_cons] at hbottom ⊢
    refine .inr ?_
    obtain rfl | ⟨f, hrun, hhole⟩ := ih (head?_ne_of_append hbottom) ([.unary op] ++ following)
    · exact absurd rfl (hbottom op)
    · refine ⟨.apply op f, ?_, hhole⟩
      rw [describeRun_append, hrun]
      rfl
  | @newer op below short ih =>
    rw [List.reverse_cons] at hbottom ⊢
    refine .inr ?_
    obtain rfl | ⟨f, hrun, hhole⟩ := ih (head?_ne_of_append hbottom) ([.binary op] ++ following)
    · exact ⟨.combine op .hole .hole, rfl, rfl⟩
    · refine ⟨.combine op .hole f, ?_, rfl⟩
      rw [describeRun_append, hrun]
      rfl
  | @older op newer below short ih =>
    rw [List.reverse_cons, newer.reverse_stacked_append, List.append_assoc] at hbottom ⊢
    refine .inr ?_
    rw [describeRun_append, describeRun_append, newer.describeRun_listing]
    obtain rfl | ⟨f, hrun, hhole⟩ := ih (head?_ne_of_append hbottom)
      (newer.listing ++ [.binary op] ++ following)
    · exact ⟨.combine op .hole (newer.render fun inner => op ≠ inner), rfl, rfl⟩
    · refine ⟨combination op f (newer.render fun inner => op ≠ inner) following, ?_, ?_⟩
      · rw [hrun]
        rfl
      · rw [Fragment.hasHole_combination, hhole]
        rfl

/-- With a value entered after it, such a stack is one fragment too. -/
theorem Unfinished.length_closed {operations : List Operation}
    (short : Unfinished operations.reverse) (hne : operations ≠ [])
    (hbottom : ∀ op, operations.head? ≠ some (.unary op)) :
    (closed operations).length = 1 := by
  have hvalue : ∀ op, needsGroup op [.var ""] = true := fun _ => rfl
  rw [← reverse_describeRun_eq_closed hbottom hvalue, List.length_reverse]
  have hrun := short.exists_describeRun_eq (by rwa [List.reverse_reverse]) [.var ""]
  rw [List.reverse_reverse] at hrun
  obtain hempty | ⟨f, hrun, -⟩ := hrun
  · exact absurd (List.reverse_eq_nil_iff.mp hempty) hne
  · rw [hrun]
    rfl

/-! ## Cutting with evaluation -/

/-- **Evaluation taken again and again**, each time from what the last one
left: the operations, the pieces cut off, and what is left, all oldest
first. Each piece was evaluated under variables of its own. -/
inductive Cuts : List Operation → List (List Operation) → List Operation → Prop where
  | refl (operations : List Operation) : Cuts operations [] operations
  | cut {bindings : Bindings} {value : Float} {below piece rest : List Operation}
      {pieces : List (List Operation)} :
      evaluateTop bindings (below ++ piece).reverse = .ok (value, below.reverse) →
      Cuts below pieces rest → Cuts (below ++ piece) (pieces ++ [piece]) rest

/-- What evaluation takes from a stack is the listing of an expression. -/
theorem exists_eq_append_listing {bindings : Bindings} {operations below : List Operation}
    {value : Float}
    (h : evaluateTop bindings operations.reverse = .ok (value, below.reverse)) :
    ∃ t : Expression, operations = below ++ t.listing := by
  obtain ⟨t, ht⟩ := exists_stacked_of_evaluateTop_eq_ok h
  refine ⟨t, ?_⟩
  rw [Expression.eq_append_listing_of_reverse ht, List.reverse_reverse]

/-- **Each piece that is cut off has one fragment, in its place.** -/
theorem Cuts.closed_eq {operations rest : List Operation} {pieces : List (List Operation)}
    (h : Cuts operations pieces rest) (hbottom : ∀ op, operations.head? ≠ some (.unary op)) :
    closed operations = closed rest ++ pieces.flatMap closed
      ∧ (∀ piece ∈ pieces, (closed piece).length = 1)
      ∧ ∀ op, rest.head? ≠ some (.unary op) := by
  induction h with
  | refl operations =>
    exact ⟨(List.append_nil _).symm, fun _ h => absurd h List.not_mem_nil, hbottom⟩
  | @cut bindings value below piece rest pieces htop _ ih =>
    obtain ⟨t, ht⟩ := exists_eq_append_listing htop
    obtain rfl : piece = t.listing := List.append_cancel_left ht
    have hbelow := head?_ne_of_append hbottom
    obtain ⟨hclosed, hone, hrest⟩ := ih hbelow
    refine ⟨?_, ?_, hrest⟩
    · rw [closed_append_listing t hbelow, hclosed, List.flatMap_append, List.flatMap_singleton,
        t.closed_listing, List.append_assoc]
    · intro piece hmem
      obtain hmem | hmem := List.mem_append.mp hmem
      · exact hone piece hmem
      · rw [List.mem_singleton.mp hmem, t.closed_listing]
        rfl

/-- The same in texts. -/
theorem Cuts.closedTexts_eq {operations rest : List Operation} {pieces : List (List Operation)}
    (h : Cuts operations pieces rest) (hbottom : ∀ op, operations.head? ≠ some (.unary op)) :
    closedTexts operations = closedTexts rest ++ pieces.flatMap closedTexts
      ∧ ∀ piece ∈ pieces, (closedTexts piece).length = 1 := by
  obtain ⟨hclosed, hone, -⟩ := h.closed_eq hbottom
  constructor
  · rw [← map_text_closed, hclosed, List.map_append, map_text_closed, List.map_flatMap]
    simp only [map_text_closed]
  · intro piece hmem
    rw [← map_text_closed, List.length_map]
    exact hone piece hmem

/-- **What is left when an operator lacks an operand is one text.** -/
theorem length_closedTexts_of_missingOperand {bindings : Bindings}
    {operations : List Operation} {symbol : String}
    (hbottom : ∀ op, operations.head? ≠ some (.unary op))
    (h : evaluateTop bindings operations.reverse = .error (.missingOperand symbol)) :
    (closedTexts operations).length = 1 := by
  have hne : operations ≠ [] := by
    rintro rfl
    cases h.symm.trans (evaluateTop_nil bindings)
  rw [← map_text_closed, List.length_map]
  refine Unfinished.length_closed ?_ hne hbottom
  -- with an expression on top, only a variable could be missing
  refine (exists_stacked_or_unfinished operations.reverse).resolve_left ?_
  rintro ⟨t, below, hstack⟩
  rw [hstack, t.evaluateTop_stacked] at h
  cases hv : t.evaluate bindings with
  | ok v => rw [hv] at h; cases h
  | error error =>
    rw [hv] at h
    cases h
    exact t.evaluate_ne_missingOperand bindings symbol hv

/-- **Descriptions are cut where evaluation cuts the stack.** If evaluation
takes a piece from the top of a stack, then the piece has one text, the last
one, and the texts before it are those of what is below, closed. Cutting on
below, each further piece has one of these, in the order of the pieces, and
what is left when an operator lacks an operand has one. -/
theorem texts_of_evaluateTop_eq_ok {bindings : Bindings}
    {operations below : List Operation} {value : Float}
    (hbottom : ∀ op, operations.head? ≠ some (.unary op))
    (h : evaluateTop bindings operations.reverse = .ok (value, below.reverse)) :
    ∃ piece, operations = below ++ piece
      ∧ (texts piece).length = 1
      ∧ texts operations = closedTexts below ++ texts piece
      ∧ ∀ pieces rest, Cuts below pieces rest →
          closedTexts below = closedTexts rest ++ pieces.flatMap closedTexts
          ∧ (∀ piece ∈ pieces, (closedTexts piece).length = 1)
          ∧ ∀ bindings' symbol,
              evaluateTop bindings' rest.reverse = .error (.missingOperand symbol) →
              (closedTexts rest).length = 1 := by
  obtain ⟨t, rfl⟩ := exists_eq_append_listing h
  have hbelow := head?_ne_of_append hbottom
  refine ⟨t.listing, rfl, ?_, ?_, fun pieces rest hcuts => ?_⟩
  · rw [texts, t.fragments_listing]
    rfl
  · rw [texts, texts, fragments_append_listing t hbelow, List.map_append, map_text_closed]
  · obtain ⟨-, -, hrest⟩ := hcuts.closed_eq hbelow
    obtain ⟨hclosed, hone⟩ := hcuts.closedTexts_eq hbelow
    exact ⟨hclosed, hone, fun _ _ => length_closedTexts_of_missingOperand hrest⟩

/-- A negated operand, above a sum and another sum that lacks its older
operand. -/
theorem texts_of_negated_operand :
    ∃ piece, [Operation.var "a", .binary .add, .var "a", .var "a", .binary .add, .var "a",
          .unary .negate]
        = [.var "a", .binary .add, .var "a", .var "a", .binary .add] ++ piece
      ∧ (texts piece).length = 1
      ∧ texts [.var "a", .binary .add, .var "a", .var "a", .binary .add, .var "a",
          .unary .negate]
        = ["?+a", "(a+a)"] ++ texts piece
      ∧ ["?+a", "(a+a)"] = closedTexts [.var "a", .binary .add]
        ++ closedTexts [.var "a", .var "a", .binary .add]
      ∧ (closedTexts [.var "a", .binary .add]).length = 1 := by
  have hbottom : ∀ op : UnaryOp, some (Operation.var "a") ≠ some (.unary op) := by
    intro op h
    cases h
  have hvar (below : List Operation) :
      evaluateTop (Bindings.empty.set "a" 3) (.var "a" :: below) = .ok (3, below) := by
    rw [evaluateTop_var, Bindings.get?_set_self]
  have htop : evaluateTop (Bindings.empty.set "a" 3)
      [.unary .negate, .var "a", .binary .add, .var "a", .var "a", .binary .add, .var "a"]
      = .ok (UnaryOp.negate.apply 3,
        [.binary .add, .var "a", .var "a", .binary .add, .var "a"]) := by
    rw [evaluateTop_unary, operandFor, hvar]
    rfl
  have hsum : evaluateTop (Bindings.empty.set "a" 3)
      [.binary .add, .var "a", .var "a", .binary .add, .var "a"]
      = .ok (BinaryOp.add.apply 3 3, [.binary .add, .var "a"]) := by
    rw [evaluateTop_binary_of_ok .add (hvar _), hvar]
    rfl
  have hrest : evaluateTop (Bindings.empty.set "a" 3) [.binary .add, .var "a"]
      = .error (.missingOperand "+") := by
    rw [evaluateTop_binary_of_ok .add (hvar _), evaluateTop_nil]
    rfl
  have hbelow : closedTexts [.var "a", .binary .add, .var "a", .var "a", .binary .add]
      = ["?+a", "(a+a)"] := by
    decide +kernel
  obtain ⟨piece, hpiece, hone, htexts, hcut⟩ := @texts_of_evaluateTop_eq_ok
    (Bindings.empty.set "a" 3)
    [.var "a", .binary .add, .var "a", .var "a", .binary .add, .var "a", .unary .negate]
    [.var "a", .binary .add, .var "a", .var "a", .binary .add] _ hbottom htop
  obtain ⟨hclosed, -, hlast⟩ := hcut [[.var "a", .var "a", .binary .add]] _
    (@Cuts.cut _ _ [.var "a", .binary .add] [.var "a", .var "a", .binary .add] _ [] hsum
      (.refl _))
  rw [hbelow] at htexts hclosed
  exact ⟨piece, hpiece, hone, htexts, hclosed, hlast _ _ hrest⟩

end Rpn
