import Rpn.Proofs.Description.Run
import Rpn.Proofs.Number.Text
import Rpn.Stack.Builtin

/-!
# Reading a description

A reader for descriptions, to show that there is nothing to guess in them.
It takes a description from the left. A **term** is a word, an expression in
parentheses, or both, in which case the word is the operator that is applied
to what is in the parentheses. An **expression** is a term, or a term, an
operator and an expression: so what stands to the right of an operator
reaches as far as it can, and a chain `a+b+c` is read as `a+(b+c)`. A
description is a list of expressions with commas between them.

A word on its own is the constant if it is its symbol, a number if it is a
numeral, and a variable otherwise.

The reader knows nothing about which operator binds tighter, and does not
have to. Wherever the grouping is not the one it takes, the description has
parentheses (`Expression.reads_render`): the older operand of an operator is
closed, and the newer one if it does not continue the chain.
-/

namespace Rpn

/-! ## The reader -/

namespace Reader

/-- The operators of one operand. -/
def unaryOps : List UnaryOp := [.sqrt, .sin, .cos, .negate]

/-- The operators of two operands. -/
def binaryOps : List BinaryOp := [.multiply, .add, .divide, .subtract]

/-- The operator of one operand that a word is the symbol of. -/
def unaryOp? (word : List Char) : Option UnaryOp :=
  unaryOps.find? fun op => op.symbol.toList == word

/-- The operator of two operands that a character is the symbol of. -/
def binaryOp? (c : Char) : Option BinaryOp :=
  binaryOps.find? fun op => op.symbol.toList == [c]

/-- **Whether a character can stand in a word**: it is none of those by
which a description is put together. -/
def isWordChar (c : Char) : Bool :=
  c ≠ '(' && c ≠ ')' && c ≠ ',' && (binaryOp? c).isNone

/-- **The value a word stands for.** -/
def leaf (word : String) : Expression :=
  if word = "π" then .constant "π" pi
  else
    match Numeral.floatOf? word with
    | some value => .operand value
    | none => .var word

/-- **Reads a term**, with a reader for what stands in parentheses, and
returns it with the text behind it. -/
def readTerm (read : List Char → Option (Expression × List Char)) (text : List Char) :
    Option (Expression × List Char) :=
  let word := text.takeWhile isWordChar
  match text.dropWhile isWordChar with
  | '(' :: inside =>
    match read inside with
    | some (inner, ')' :: rest) =>
      if word = [] then some (inner, rest)
      else (unaryOp? word).map fun op => (.unary op inner, rest)
    | _ => none
  | rest => if word = [] then none else some (leaf (String.ofList word), rest)

/-- **Reads an expression**, and returns it with the text behind it. The
number bounds the depth of the recursion. -/
def readExpression : Nat → List Char → Option (Expression × List Char)
  | 0, _ => none
  | depth + 1, text =>
    match readTerm (readExpression depth) text with
    | none => none
    | some (older, []) => some (older, [])
    | some (older, c :: rest) =>
      match binaryOp? c with
      | none => some (older, c :: rest)
      | some op =>
        (readExpression depth rest).map fun (newer, rest) => (.binary op older newer, rest)

/-- **Reads expressions with commas between them**, and nothing behind
them. -/
def readExpressions : Nat → List Char → Option (List Expression)
  | 0, _ => none
  | count + 1, text =>
    match readExpression (text.length + 1) text with
    | some (t, []) => some [t]
    | some (t, ',' :: ' ' :: rest) => (readExpressions count rest).map (t :: ·)
    | _ => none

/-- **Reads a description** as the operations of a stack, oldest first. -/
def readDescription (text : String) : Option (List Operation) :=
  if text = "" then some []
  else (readExpressions (text.length + 1) text.toList).map (·.flatMap Expression.listing)

end Reader

/-! ## Operations that are shown as words -/

open Reader

/-- **A name that is read as a variable**: it is a word, and neither the
symbol of the constant nor a number. -/
structure PlainName (name : String) : Prop where
  /-- The name is not empty. -/
  ne_empty : name ≠ ""
  /-- No character of it is one by which a description is put together. -/
  word : ∀ c ∈ name.toList, isWordChar c = true
  /-- It is not the symbol of the constant. -/
  ne_constant : name ≠ "π"
  /-- It is not a numeral. -/
  not_numeral : Numeral.floatOf? name = none

/-- **An operation that is read as it was shown**: a finite number, a
variable with a plain name, the built-in constant, or an operator. -/
def Operation.Plain : Operation → Prop
  | operand value => value.isFinite = true
  | var name => PlainName name
  | constant symbol value => symbol = "π" ∧ value = pi
  | unary _ => True
  | binary _ => True

/-- **An operation whose number is finite**, if it has one. Every such
operation is equal to itself. -/
def Operation.FiniteNumber : Operation → Prop
  | operand value => value.isFinite = true
  | constant _ value => value.isFinite = true
  | _ => True

/-- The number of a plain operation is finite. -/
theorem Operation.Plain.finiteNumber {operation : Operation} (h : operation.Plain) :
    operation.FiniteNumber := by
  cases operation with
  | operand value => exact h
  | constant symbol value =>
    obtain ⟨-, rfl⟩ := h
    show pi.isFinite = true
    decide +kernel
  | _ => trivial

/-- An operation without the sign of a zero, which is not shown. -/
def Operation.withoutZeroSign : Operation → Operation
  | operand value => .operand (Binary64.withoutZeroSign value)
  | operation => operation

/-- The sign of a zero is taken away once. -/
theorem Operation.withoutZeroSign_withoutZeroSign (operation : Operation) :
    operation.withoutZeroSign.withoutZeroSign = operation.withoutZeroSign := by
  cases operation with
  | operand value => exact congrArg operand (Binary64.withoutZeroSign_withoutZeroSign value)
  | _ => rfl

/-- An expression without the signs of its zeros. -/
def Expression.withoutZeroSigns : Expression → Expression
  | operand value => .operand (Binary64.withoutZeroSign value)
  | var name => .var name
  | constant symbol value => .constant symbol value
  | unary op argument => .unary op argument.withoutZeroSigns
  | binary op older newer => .binary op older.withoutZeroSigns newer.withoutZeroSigns

/-- The signs of zeros are no matter of the shape of an expression. -/
theorem Expression.listing_withoutZeroSigns (t : Expression) :
    t.withoutZeroSigns.listing = t.listing.map Operation.withoutZeroSign := by
  induction t with
  | operand value => rfl
  | var name => rfl
  | constant symbol value => rfl
  | unary op argument ih =>
    rw [withoutZeroSigns, listing, listing, ih, List.map_append]
    rfl
  | binary op older newer ihOlder ihNewer =>
    rw [withoutZeroSigns, listing, listing, ihOlder, ihNewer, List.map_append, List.map_append]
    rfl

/-! ## Symbols and words -/

namespace Reader

/-- The character an operator of two operands is shown as. -/
theorem exists_symbol_eq (op : BinaryOp) :
    ∃ c, op.symbol.toList = [c] ∧ binaryOp? c = some op := by
  cases op
  · exact ⟨'×', rfl, by decide⟩
  · exact ⟨'+', rfl, by decide⟩
  · exact ⟨'÷', rfl, by decide⟩
  · exact ⟨'−', rfl, by decide⟩

/-- The symbol of an operator of one operand is a word. -/
theorem unaryOp?_symbol (op : UnaryOp) :
    unaryOp? op.symbol.toList = some op ∧ op.symbol.toList ≠ []
      ∧ ∀ c ∈ op.symbol.toList, isWordChar c = true := by
  cases op <;> exact ⟨by decide, by decide, List.all_eq_true.mp rfl⟩

/-- A digit is no symbol. -/
theorem isWordChar_of_isDigit {c : Char} (h : c.isDigit = true) : isWordChar c = true := by
  have hne : ∀ d : Char, d.isDigit = false → c ≠ d := by
    rintro d hd rfl
    cases hd.symm.trans h
  have hnone : binaryOp? c = none := by
    refine List.find?_eq_none.mpr fun op _ hop => ?_
    have hsymbol : op.symbol.toList = [c] := eq_of_beq hop
    cases op
    · exact hne '×' rfl (List.singleton_inj.mp hsymbol).symm
    · exact hne '+' rfl (List.singleton_inj.mp hsymbol).symm
    · exact hne '÷' rfl (List.singleton_inj.mp hsymbol).symm
    · exact hne '−' rfl (List.singleton_inj.mp hsymbol).symm
  simp [isWordChar, hnone, hne '(' rfl, hne ')' rfl, hne ',' rfl]

/-- **A number is a word.** -/
theorem isWordChar_of_mem_numberText {x : Float} (h : x.isFinite = true) {c : Char}
    (hc : c ∈ (numberText x).toList) : isWordChar c = true := by
  obtain (hdigit | rfl) | rfl := mem_numberText h hc
  · exact isWordChar_of_isDigit hdigit
  · decide
  · decide

/-! ## What ends a term, and what ends an expression -/

/-- **Whether a text cannot continue a term**: it starts with no character
of a word and with no opening parenthesis. -/
def EndsTerm (text : List Char) : Prop :=
  ∀ c ∈ text.head?, isWordChar c = false ∧ c ≠ '('

/-- **Whether a text cannot continue an expression**: it starts with no
operator either. -/
def EndsExpression (text : List Char) : Prop :=
  EndsTerm text ∧ ∀ c ∈ text.head?, binaryOp? c = none

theorem endsExpression_nil : EndsExpression [] := ⟨nofun, nofun⟩

/-- A closing parenthesis ends an expression. -/
theorem endsExpression_parenthesis (rest : List Char) : EndsExpression (')' :: rest) := by
  refine ⟨?_, ?_⟩
  all_goals
    rintro c ⟨⟩
    decide

/-- A comma ends an expression. -/
theorem endsExpression_comma (rest : List Char) : EndsExpression (',' :: rest) := by
  refine ⟨?_, ?_⟩
  all_goals
    rintro c ⟨⟩
    decide

/-- An operator of two operands ends a term. -/
theorem endsTerm_symbol (op : BinaryOp) (rest : List Char) :
    EndsTerm (op.symbol.toList ++ rest) := by
  cases op
  all_goals
    rintro c ⟨⟩
    decide

/-! ## Reading what a text starts with -/

section

variable {word tail : List Char} {read : List Char → Option (Expression × List Char)}

/-- A word is taken up to where it ends. -/
theorem takeWhile_word_append (hword : ∀ c ∈ word, isWordChar c = true)
    (htail : ∀ c ∈ tail.head?, isWordChar c = false) :
    (word ++ tail).takeWhile isWordChar = word
      ∧ (word ++ tail).dropWhile isWordChar = tail := by
  rw [List.takeWhile_append_of_pos hword, List.dropWhile_append_of_pos hword]
  cases tail with
  | nil => exact ⟨List.append_nil word, rfl⟩
  | cons c rest =>
    have hc : ¬ isWordChar c = true := by
      rw [htail c rfl]
      exact Bool.false_ne_true
    rw [List.takeWhile_cons_of_neg hc, List.dropWhile_cons_of_neg hc]
    exact ⟨List.append_nil word, rfl⟩

/-- **A word on its own is a value.** -/
theorem readTerm_word (hne : word ≠ []) (hword : ∀ c ∈ word, isWordChar c = true)
    (htail : EndsTerm tail) :
    readTerm read (word ++ tail) = some (leaf (String.ofList word), tail) := by
  obtain ⟨htake, hdrop⟩ := takeWhile_word_append hword fun c hc => (htail c hc).1
  rw [readTerm, htake, hdrop]
  split
  · exact absurd rfl (htail '(' rfl).2
  · rw [if_neg hne]

/-- **Parentheses hold an expression.** -/
theorem readTerm_group {inside : List Char} {t : Expression}
    (h : read inside = some (t, ')' :: tail)) :
    readTerm read ('(' :: inside) = some (t, tail) := by
  have htake : ('(' :: inside).takeWhile isWordChar = [] :=
    List.takeWhile_cons_of_neg (by decide)
  have hdrop : ('(' :: inside).dropWhile isWordChar = '(' :: inside :=
    List.dropWhile_cons_of_neg (by decide)
  rw [readTerm, htake, hdrop]
  simp only [h]
  exact if_pos trivial

/-- **A word in front of parentheses is an operator.** -/
theorem readTerm_application {inside : List Char} {t : Expression} (op : UnaryOp)
    (h : read inside = some (t, ')' :: tail)) :
    readTerm read (op.symbol.toList ++ '(' :: inside) = some (.unary op t, tail) := by
  obtain ⟨hop, hne, hword⟩ := unaryOp?_symbol op
  have hparenthesis : ∀ c ∈ ('(' :: inside).head?, isWordChar c = false := by
    rintro c ⟨⟩
    decide
  obtain ⟨htake, hdrop⟩ := takeWhile_word_append hword hparenthesis
  rw [readTerm, htake, hdrop]
  simp only [h]
  rw [if_neg hne, hop]
  rfl

end

section

variable {depth : Nat} {text tail : List Char}

/-- An expression may be a single term. -/
theorem readExpression_of_readTerm {t : Expression} (htail : EndsExpression tail)
    (h : readTerm (readExpression depth) text = some (t, tail)) :
    readExpression (depth + 1) text = some (t, tail) := by
  rw [readExpression, h]
  cases tail with
  | nil => rfl
  | cons c rest =>
    show (match binaryOp? c with | none => _ | some op => _) = _
    rw [htail.2 c rfl]

/-- **An operator takes the expression behind it.** -/
theorem readExpression_of_symbol {older newer : Expression} (op : BinaryOp)
    {rest : List Char}
    (holder : readTerm (readExpression depth) text = some (older, op.symbol.toList ++ rest))
    (hnewer : readExpression depth rest = some (newer, tail)) :
    readExpression (depth + 1) text = some (.binary op older newer, tail) := by
  obtain ⟨c, hsymbol, hop⟩ := exists_symbol_eq op
  rw [hsymbol, List.singleton_append] at holder
  rw [readExpression, holder]
  show (match binaryOp? c with | none => _ | some op => _) = _
  rw [hop, hnewer]
  rfl

end

/-! ## Reading a value -/

section

variable {word : String} {tail : List Char}
variable {read : List Char → Option (Expression × List Char)}

/-- A word that is the text of a value. -/
theorem readTerm_text (hne : word ≠ "") (hword : ∀ c ∈ word.toList, isWordChar c = true)
    (htail : EndsTerm tail) : readTerm read (word.toList ++ tail) = some (leaf word, tail) := by
  have h := @readTerm_word _ _ read (fun h => hne (String.toList_eq_nil_iff.mp h)) hword htail
  rwa [String.ofList_toList] at h

/-- **A number is read.** -/
theorem readTerm_numberText {x : Float} (hfinite : x.isFinite = true) (htail : EndsTerm tail) :
    readTerm read ((numberText x).toList ++ tail)
      = some (.operand (Binary64.withoutZeroSign x), tail) := by
  have hfloat := floatOf?_numberText hfinite
  have hne : ∀ word, Numeral.floatOf? word = none → numberText x ≠ word := by
    rintro word hnone rfl
    cases hnone.symm.trans hfloat
  rw [readTerm_text (hne "" rfl) (fun _ => isWordChar_of_mem_numberText hfinite) htail, leaf,
    if_neg (hne "π" (by decide +kernel)), hfloat]

/-- **A variable with a plain name is read.** -/
theorem readTerm_name (hname : PlainName word) (htail : EndsTerm tail) :
    readTerm read (word.toList ++ tail) = some (.var word, tail) := by
  rw [readTerm_text hname.ne_empty hname.word htail, leaf, if_neg hname.ne_constant,
    hname.not_numeral]

/-- **The constant is read.** -/
theorem readTerm_constant (htail : EndsTerm tail) :
    readTerm read ("π".toList ++ tail) = some (.constant "π" pi, tail) := by
  rw [readTerm_text (by decide) (List.all_eq_true.mp rfl) htail, leaf, if_pos rfl]

end

end Reader

/-! ## Reading an expression -/

namespace Fragment

variable (op : BinaryOp) (lhs rhs inner : Fragment)

theorem toList_text_group (tail : List Char) :
    (group inner).text.toList ++ tail = '(' :: (inner.text.toList ++ ')' :: tail) := by
  simp [text]

theorem toList_text_apply (op : UnaryOp) (tail : List Char) :
    (apply op inner).text.toList ++ tail
      = op.symbol.toList ++ '(' :: (inner.text.toList ++ ')' :: tail) := by
  simp [text]

theorem toList_text_combine (tail : List Char) :
    (combine op lhs rhs).text.toList ++ tail
      = lhs.text.toList ++ (op.symbol.toList ++ (rhs.text.toList ++ tail)) := by
  simp [text]

end Fragment

namespace Expression

open Reader

/-- A closed expression is read as a term. -/
def ReadsAsTerm (t : Expression) : Prop :=
  ∀ depth tail, EndsTerm tail → ((t.render fun _ => true).text.toList ++ tail).length ≤ depth →
    readTerm (readExpression depth) ((t.render fun _ => true).text.toList ++ tail)
      = some (t.withoutZeroSigns, tail)

/-- An expression, closed or not, is read as one. -/
def ReadsAsExpression (t : Expression) : Prop :=
  ∀ closing depth tail, EndsExpression tail →
    ((t.render closing).text.toList ++ tail).length ≤ depth →
      readExpression (depth + 1) ((t.render closing).text.toList ++ tail)
        = some (t.withoutZeroSigns, tail)

/-- Without an operator of two operands on top, there is nothing to close. -/
theorem ReadsAsTerm.readsAsExpression {t : Expression} (h : t.ReadsAsTerm)
    (hrender : ∀ closing, t.render closing = t.render fun _ => true) : t.ReadsAsExpression := by
  intro closing depth tail htail hdepth
  rw [hrender closing] at hdepth ⊢
  exact readExpression_of_readTerm htail (h depth tail htail.1 hdepth)

/-- **An operator in front of an expression in parentheses is read.** -/
theorem ReadsAsExpression.unary {argument : Expression} (h : argument.ReadsAsExpression)
    (op : UnaryOp) : (unary op argument).ReadsAsTerm := by
  intro depth tail htail hdepth
  rw [render, Fragment.toList_text_apply] at hdepth ⊢
  rw [List.length_append, List.length_cons] at hdepth
  -- one level of the recursion is spent on the parentheses
  obtain ⟨depth, rfl⟩ := Nat.exists_eq_add_of_le' (show 1 ≤ depth by omega)
  exact readTerm_application op
    (h _ depth (')' :: tail) (endsExpression_parenthesis tail) (by omega))

/-- A combination of two expressions that is not closed. -/
def combined (op : BinaryOp) (older newer : Expression) : Fragment :=
  .combine op (older.render fun _ => true) (newer.render fun inner => op ≠ inner)

theorem render_binary (op : BinaryOp) (older newer : Expression)
    (closing : BinaryOp → Bool) :
    (binary op older newer).render closing
      = if closing op then .group (combined op older newer) else combined op older newer := rfl

/-- A combination without parentheses is read as an expression. -/
def ReadsBare (op : BinaryOp) (older newer : Expression) : Prop :=
  ∀ depth tail, EndsExpression tail →
    ((combined op older newer).text.toList ++ tail).length ≤ depth →
      readExpression (depth + 1) ((combined op older newer).text.toList ++ tail)
        = some (.binary op older.withoutZeroSigns newer.withoutZeroSigns, tail)

section

variable {op : BinaryOp} {older newer : Expression}

/-- **A combination is read** if its older operand is, as a term: it ends at
the operator. -/
theorem ReadsAsTerm.readsBare (holder : older.ReadsAsTerm) (hnewer : newer.ReadsAsExpression)
    (op : BinaryOp) : ReadsBare op older newer := by
  intro depth tail htail hdepth
  obtain ⟨c, hsymbol, -⟩ := exists_symbol_eq op
  have hone : op.symbol.toList.length = 1 := by
    rw [hsymbol]
    rfl
  rw [combined, Fragment.toList_text_combine] at hdepth ⊢
  have hdepth' := hdepth
  rw [List.length_append, List.length_append, hone] at hdepth'
  obtain ⟨depth, rfl⟩ := Nat.exists_eq_add_of_le' (show 1 ≤ depth by omega)
  exact readExpression_of_symbol op
    (holder (depth + 1) _ (endsTerm_symbol op _) hdepth)
    (hnewer _ depth tail htail (by omega))

/-- **A combination in parentheses is read as a term.** -/
theorem ReadsBare.readsAsTerm (h : ReadsBare op older newer) :
    (binary op older newer).ReadsAsTerm := by
  intro depth tail htail hdepth
  rw [render_binary, if_pos rfl, Fragment.toList_text_group] at hdepth ⊢
  rw [List.length_cons] at hdepth
  obtain ⟨depth, rfl⟩ := Nat.exists_eq_add_of_le' (show 1 ≤ depth by omega)
  exact readTerm_group (h depth (')' :: tail) (endsExpression_parenthesis tail) (by omega))

/-- A combination is read as an expression with and without parentheses. -/
theorem ReadsBare.readsAsExpression (h : ReadsBare op older newer) :
    (binary op older newer).ReadsAsExpression := by
  intro closing depth tail htail hdepth
  by_cases hclosing : closing op = true
  · have hrender : (binary op older newer).render closing
        = (binary op older newer).render fun _ => true := by
      rw [render_binary, render_binary, if_pos hclosing, if_pos rfl]
    rw [hrender] at hdepth ⊢
    exact readExpression_of_readTerm htail (h.readsAsTerm depth tail htail.1 hdepth)
  · rw [render_binary, if_neg hclosing] at hdepth ⊢
    exact h depth tail htail hdepth

end

/-- **Expressions are read from their fragments.** -/
theorem reads_render (t : Expression) (hplain : ∀ operation ∈ t.listing, operation.Plain) :
    t.ReadsAsTerm ∧ t.ReadsAsExpression := by
  induction t with
  | operand value =>
    have hterm : ReadsAsTerm (operand value) := fun _ _ htail _ =>
      readTerm_numberText (hplain _ List.mem_cons_self) htail
    exact ⟨hterm, hterm.readsAsExpression fun _ => rfl⟩
  | var name =>
    have hterm : ReadsAsTerm (var name) := fun _ _ htail _ =>
      readTerm_name (hplain _ List.mem_cons_self) htail
    exact ⟨hterm, hterm.readsAsExpression fun _ => rfl⟩
  | constant symbol value =>
    obtain ⟨rfl, rfl⟩ : symbol = "π" ∧ value = pi := hplain _ List.mem_cons_self
    have hterm : ReadsAsTerm (constant "π" pi) := fun _ _ htail _ => readTerm_constant htail
    exact ⟨hterm, hterm.readsAsExpression fun _ => rfl⟩
  | unary op argument ih =>
    have hterm := (ih fun o ho => hplain o (List.mem_append_left _ ho)).2.unary op
    exact ⟨hterm, hterm.readsAsExpression fun _ => rfl⟩
  | binary op older newer ihOlder ihNewer =>
    have holder := (ihOlder fun o ho =>
      hplain o (List.mem_append_left _ (List.mem_append_left _ ho))).1
    have hnewer := (ihNewer fun o ho =>
      hplain o (List.mem_append_left _ (List.mem_append_right _ ho))).2
    have hbare := holder.readsBare hnewer op
    exact ⟨hbare.readsAsTerm, hbare.readsAsExpression⟩

end Expression

end Rpn
