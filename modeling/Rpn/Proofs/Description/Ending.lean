import Mathlib.Tactic.ByContra
import Rpn.Proofs.Description.Run

/-!
# Where a description ends

A description ends with the newest operation, or before that at an operator
of one operand that has nothing to apply to. The second reads as if it could
happen anywhere on a stack, but it cannot. A value leaves a fragment, and an
operator leaves one for those it takes, or makes one up. So there is always
something to apply to once the oldest operation has been described, and that
operation is the only one that can end a description early.

A stack is therefore described as a whole or not at all (`describes_iff`).
`Describes` says which: it follows the description operation by operation,
and keeps what was not described when it came to its end. There are no
fragments only if the stack is empty or starts with an operator of one
operand (`fragments_eq_nil_iff`).

That there are no fragments is not quite the same as that no text is shown.
The one exception is a stack of a single value that is shown as nothing,
such as a variable without a name (`description_eq_empty_iff`).
-/

namespace Rpn

variable {operations : List Operation}

/-! ## Operation by operation -/

/-- **Describing operations one at a time**, after the fragments that
describe what came before them, newest first: which operations are left when
the description ends, and what it is, oldest first. -/
inductive Describes : (older : List Fragment) → (operations left : List Operation) →
    (result : List Fragment) → Prop where
  /-- The newest operation has been described. -/
  | done (older : List Fragment) : Describes older [] [] older.reverse
  /-- An operator of one operand has nothing to apply to. -/
  | cut (op : UnaryOp) (following : List Operation) :
    Describes [] (.unary op :: following) (.unary op :: following) []
  /-- Any other operation takes its step. -/
  | step {older result : List Fragment} {operation : Operation}
      {following left : List Operation} (h : older ≠ [] ∨ ∀ op, operation ≠ .unary op)
      (others : Describes (describeStep older operation following) following left result) :
    Describes older (operation :: following) left result

section

variable {older result : List Fragment} {left : List Operation}

/-- **Every operation is described** if there is a fragment already, or the
oldest operation is no operator of one operand. -/
theorem describes_iff_of_ne (h : older ≠ [] ∨ ∀ op, operations.head? ≠ some (.unary op)) :
    Describes older operations left result
      ↔ left = [] ∧ result = describeFrom older operations := by
  constructor
  · intro described
    induction described with
    | done older => exact ⟨rfl, (describeFrom.eq_1 older).symm⟩
    | cut op following => exact absurd h (by simp)
    | step hstep _ ih =>
      -- whatever the next operation is, there is a fragment for it by now
      obtain ⟨rfl, rfl⟩ := ih (.inl (describeStep_ne_nil hstep _))
      exact ⟨rfl, (describeFrom_cons hstep _).symm⟩
  · rintro ⟨rfl, rfl⟩
    induction operations generalizing older with
    | nil =>
      rw [describeFrom.eq_1]
      exact .done older
    | cons operation following ih =>
      have hstep : older ≠ [] ∨ ∀ op, operation ≠ .unary op := by simpa using h
      rw [describeFrom_cons hstep]
      exact .step hstep (ih (.inl (describeStep_ne_nil hstep _)))

/-- An operator of one operand that has nothing to apply to is left, with
all that follows it. -/
theorem describes_unary_iff {op : UnaryOp} {following : List Operation} :
    Describes [] (.unary op :: following) left result
      ↔ left = .unary op :: following ∧ result = [] := by
  constructor
  · intro described
    cases described with
    | cut => exact ⟨rfl, rfl⟩
    | step hstep _ => exact absurd hstep (by simp)
  · rintro ⟨rfl, rfl⟩
    exact .cut op following

/-- **There are no fragments** only of an empty stack, and of one whose
oldest operation is an operator of one operand. -/
theorem fragments_eq_nil_iff :
    fragments operations = [] ↔ operations = [] ∨ ∃ op, operations.head? = some (.unary op) := by
  constructor
  · intro hnil
    by_contra! hneither
    obtain ⟨hne, hbottom⟩ := hneither
    rw [fragments_eq_describeRun hbottom, List.reverse_eq_nil_iff] at hnil
    exact describeRun_nil_ne_nil hne hbottom [] hnil
  · rintro (rfl | ⟨op, hop⟩)
    · rfl
    · obtain ⟨following, rfl⟩ := List.head?_eq_some_iff.mp hop
      rfl

/-- **A stack is described as a whole or not at all.** If there are fragments,
no operation is left, and if there are none, every operation is. -/
theorem describes_iff :
    Describes [] operations left result
      ↔ result = fragments operations
        ∧ (result ≠ [] → left = []) ∧ (result = [] → left = operations) := by
  by_cases hnil : fragments operations = []
  · have hcut : Describes [] operations left result ↔ left = operations ∧ result = [] := by
      obtain rfl | ⟨op, hop⟩ := fragments_eq_nil_iff.mp hnil
      · exact describes_iff_of_ne (.inr fun op hop => by cases hop)
      · obtain ⟨following, rfl⟩ := List.head?_eq_some_iff.mp hop
        exact describes_unary_iff
    rw [hcut, hnil]
    constructor
    · rintro ⟨rfl, rfl⟩
      exact ⟨rfl, fun h => absurd rfl h, fun _ => rfl⟩
    · rintro ⟨rfl, -, hleft⟩
      exact ⟨hleft rfl, rfl⟩
  · have hbottom := (not_or.mp (mt fragments_eq_nil_iff.mpr hnil)).2
    rw [describes_iff_of_ne (.inr (not_exists.mp hbottom))]
    constructor
    · rintro ⟨rfl, rfl⟩
      exact ⟨rfl, fun _ => rfl, fun h => absurd h hnil⟩
    · rintro ⟨rfl, hleft, -⟩
      exact ⟨hleft hnil, rfl⟩

end

/-! ## Texts -/

/-- The symbol of an operator is not empty. -/
theorem UnaryOp.symbol_ne_empty (op : UnaryOp) : op.symbol ≠ "" := by
  cases op <;> decide

theorem BinaryOp.symbol_ne_empty (op : BinaryOp) : op.symbol ≠ "" := by
  cases op <;> decide

/-- **A fragment without a text** is a value that is shown as nothing. -/
theorem Fragment.text_eq_empty_iff {f : Fragment} : f.text = "" ↔ f = .leaf "" := by
  cases f <;> simp [text, BinaryOp.symbol_ne_empty]

/-- Only a value puts a leaf on top of the fragments there were. -/
theorem eq_of_describeStep_eq_leaf {older others : List Fragment} {operation : Operation}
    {following : List Operation} {text : String}
    (h : describeStep older operation following = .leaf text :: others) :
    older = others ∧ operation.text = text := by
  cases operation with
  | unary op => cases older <;> cases h
  | binary op =>
    match older with
    | [] => cases h
    | [_] => cases h
    | rhs :: lhs :: older =>
      have hcombination : combination op lhs rhs following = .leaf text := (List.cons.inj h).1
      unfold combination at hcombination
      split at hcombination <;> cases hcombination
  | _ =>
    obtain ⟨hleaf, holder⟩ := List.cons.inj h
    exact ⟨holder, Fragment.leaf.inj hleaf⟩

/-- **A stack with a leaf for its only fragment** is a single value. -/
theorem exists_eq_singleton_of_fragments_eq {text : String}
    (h : fragments operations = [.leaf text]) :
    ∃ value, operations = [value] ∧ value.text = text := by
  have hbottom : ∀ op, operations.head? ≠ some (.unary op) := by
    intro op hop
    cases (fragments_eq_nil_iff.mpr (.inr ⟨op, hop⟩)).symm.trans h
  obtain rfl | ⟨earlier, newest, rfl⟩ := List.eq_nil_or_concat operations
  · cases h
  · rw [List.concat_eq_append] at hbottom h ⊢
    rw [fragments_eq_describeRun hbottom, describeRun_append, describeRun_singleton,
      List.reverse_eq_iff] at h
    obtain ⟨hnone, htext⟩ := eq_of_describeStep_eq_leaf h
    -- an operation before the newest one would have left a fragment below the leaf
    obtain rfl : earlier = [] := by
      by_contra hne
      exact describeRun_nil_ne_nil hne (head?_ne_of_append hbottom) _ hnone
    exact ⟨newest, rfl, htext⟩

/-- Texts with commas between them are empty if there is none, or a single
one without a character. -/
theorem intercalate_eq_empty_iff {texts : List String} :
    ", ".intercalate texts = "" ↔ texts = [] ∨ texts = [""] := by
  match texts with
  | [] => simp
  | [text] => simp
  | text :: next :: others => simp [String.intercalate_cons_cons]

/-- **A description has no text** only if nothing is described, or the stack
is a single value that is shown as nothing. -/
theorem description_eq_empty_iff :
    description operations = ""
      ↔ operations = [] ∨ (∃ op, operations.head? = some (.unary op))
        ∨ ∃ value, operations = [value] ∧ value.text = "" := by
  rw [← or_assoc, ← fragments_eq_nil_iff, description, texts, intercalate_eq_empty_iff,
    List.map_eq_nil_iff]
  refine or_congr_right ⟨fun h => ?_, ?_⟩
  · obtain ⟨f, hfragments, htext⟩ := List.map_eq_singleton_iff.mp h
    rw [Fragment.text_eq_empty_iff.mp htext] at hfragments
    exact exists_eq_singleton_of_fragments_eq hfragments
  · rintro ⟨value, rfl, htext⟩
    cases value with
    | unary op => exact absurd htext op.symbol_ne_empty
    | binary op => exact absurd htext op.symbol_ne_empty
    | _ => exact congrArg ([·]) htext

end Rpn
