import Rpn.Proofs.Description.Reader

/-!
# The tokens of a description

A fragment is written as a row of **tokens**: values, operators, question
marks and parentheses, in the order of the text. This module takes a text
apart into them again, without a look at the fragment it is the text of, so
that what a description shows can be said of the text alone.

It is less than reading. `Reader` finds the expression that a text stands
for, and there is none as long as operands are missing. The scanner here
goes through the characters once and knows only whether an operand is
expected next. Where one is, a word is a value, and it may be empty, as a
variable without a name is; in front of a parenthesis it is the operator
that is applied.

For the scanner to find the tokens, no value may contain one of the
characters that the rest is made of (`isValueChar`). A number never does,
whether it is finite or not.
-/

namespace Rpn

open Reader

/-- **A piece of the text of a fragment.** -/
inductive Token where
  /-- A value, by its text. -/
  | value (text : String)
  /-- The question mark for an operand that is missing. -/
  | hole
  /-- The symbol of an operator in front of its operand. -/
  | unary (op : UnaryOp)
  /-- The symbol of an operator between its operands. -/
  | binary (op : BinaryOp)
  /-- An opening parenthesis. -/
  | opening
  /-- A closing parenthesis. -/
  | closing
deriving DecidableEq, Repr

namespace Token

/-- What a token is written as. -/
def text : Token → String
  | value text => text
  | hole => "?"
  | unary op => op.symbol
  | binary op => op.symbol
  | opening => "("
  | closing => ")"

/-- Whether a token is a value. -/
def isValue : Token → Bool
  | value _ => true
  | _ => false

/-- Whether a token is an operator between operands. -/
def isBinary : Token → Bool
  | binary _ => true
  | _ => false

/-- **Whether a token stands for an operation**: a question mark stands for
none, and neither does a parenthesis. -/
def isOperation : Token → Bool
  | value _ => true
  | unary _ => true
  | binary _ => true
  | _ => false

/-- A value stands for an operation. -/
theorem filter_isValue_filter_isOperation (tokens : List Token) :
    (tokens.filter isOperation).filter isValue = tokens.filter isValue := by
  rw [List.filter_filter]
  refine congrArg (tokens.filter ·) (funext fun token => ?_)
  cases token <;> rfl

/-- An operator between operands stands for an operation. -/
theorem countP_isBinary_filter_isOperation (tokens : List Token) :
    (tokens.filter isOperation).countP isBinary = tokens.countP isBinary := by
  rw [List.countP_filter]
  refine congrArg (tokens.countP ·) (funext fun token => ?_)
  cases token <;> rfl

/-- **Question marks are written for missing operands**, unless a value has
one in it. -/
theorem count_questionMark {tokens : List Token}
    (h : ∀ text, .value text ∈ tokens → '?' ∉ text.toList) :
    (tokens.flatMap fun token => token.text.toList).count '?' = tokens.count .hole := by
  induction tokens with
  | nil => rfl
  | cons token rest ih =>
    have hrest := ih fun text hmem => h text (List.mem_cons_of_mem _ hmem)
    have htoken : token.text.toList.count '?' = [token].count .hole := by
      cases token with
      | value text => exact List.count_eq_zero.mpr (h text List.mem_cons_self)
      | unary op => cases op <;> rfl
      | binary op => cases op <;> rfl
      | _ => rfl
    rw [List.flatMap_cons, List.count_append, htoken, hrest, ← List.count_append]
    rfl

end Token

namespace Fragment

/-- **The tokens of a fragment**, from the left. -/
def tokens : Fragment → List Token
  | hole => [.hole]
  | leaf text => [.value text]
  | apply op argument => .unary op :: .opening :: (argument.tokens ++ [.closing])
  | combine op lhs rhs => lhs.tokens ++ .binary op :: rhs.tokens
  | group inner => .opening :: (inner.tokens ++ [.closing])

/-- **A fragment is written token by token.** -/
theorem toList_text (f : Fragment) :
    f.text.toList = f.tokens.flatMap fun token => token.text.toList := by
  induction f with
  | hole => rfl
  | leaf text => exact (List.flatMap_singleton ..).symm
  | apply op argument ih => simp [text, tokens, Token.text, ih]
  | combine op lhs rhs ihLhs ihRhs => simp [text, tokens, Token.text, ihLhs, ihRhs]
  | group inner ih => simp [text, tokens, Token.text, ih]

/-- **A fragment has one operand more than operators between operands**, a
missing one included. -/
theorem countP_isValue_add_count_hole (f : Fragment) :
    f.tokens.countP Token.isValue + f.tokens.count .hole
      = f.tokens.countP Token.isBinary + 1 := by
  induction f with
  | hole => rfl
  | leaf text => rfl
  | apply op argument ih =>
    simpa [tokens, Token.isValue, Token.isBinary, List.countP_append, List.count_append] using ih
  | combine op lhs rhs ihLhs ihRhs =>
    have hvalue : (combine op lhs rhs).tokens.countP Token.isValue
        = lhs.tokens.countP Token.isValue + rhs.tokens.countP Token.isValue := by
      simp [tokens, Token.isValue]
    have hhole : (combine op lhs rhs).tokens.count .hole
        = lhs.tokens.count .hole + rhs.tokens.count .hole := by
      simp [tokens]
    have hbinary : (combine op lhs rhs).tokens.countP Token.isBinary
        = lhs.tokens.countP Token.isBinary + (rhs.tokens.countP Token.isBinary + 1) := by
      rw [tokens, List.countP_append, List.countP_cons_of_pos rfl]
    omega
  | group inner ih =>
    simpa [tokens, Token.isValue, Token.isBinary, List.countP_append, List.count_append] using ih

end Fragment

/-! ## Taking a text apart -/

namespace Token

/-- The tokens of a word where an operand ends: the word is a value, if an
operand was expected. -/
def ofWord : Option (List Char) → List Token
  | some word => [.value (String.ofList word)]
  | none => []

/-- The tokens of a word where an operand starts: the word is what is
applied to it, if there is one. -/
def ofWordBefore : Option (List Char) → List Token
  | none => []
  | some [] => []
  | some word =>
    match unaryOp? word with
    | some op => [.unary op]
    | none => [.value (String.ofList word)]

/-- **Takes a text apart**, after a word that was begun where an operand is
expected, or after an operand. -/
def scan : (word : Option (List Char)) → List Char → List Token
  | word, [] => ofWord word
  | word, c :: rest =>
    if c = '(' then ofWordBefore word ++ .opening :: scan (some []) rest
    else if c = ')' then ofWord word ++ .closing :: scan none rest
    else if c = '?' then ofWordBefore word ++ .hole :: scan none rest
    else
      match binaryOp? c with
      | some op => ofWord word ++ .binary op :: scan (some []) rest
      | none => scan (some (word.getD [] ++ [c])) rest

/-- **The tokens of a text.** -/
def ofText (text : String) : List Token := scan (some []) text.toList

end Token

/-- **Whether a character can stand in a value** without being taken for
anything else. -/
def isValueChar (c : Char) : Bool := isWordChar c && c ≠ '?'

/-- None of the characters by which a description is put together can stand
in a value. -/
theorem ne_of_isValueChar {c : Char} (h : isValueChar c = true) :
    c ≠ '(' ∧ c ≠ ')' ∧ c ≠ '?' ∧ binaryOp? c = none := by
  simp only [isValueChar, isWordChar, Bool.and_eq_true, decide_eq_true_eq, ne_eq,
    Option.isNone_iff_eq_none] at h
  obtain ⟨⟨⟨⟨hopening, hclosing⟩, -⟩, hbinary⟩, hhole⟩ := h
  exact ⟨hopening, hclosing, hhole, hbinary⟩

/-- **The text of a number can stand in a description**, whatever the number
is. -/
theorem isValueChar_of_mem_numberText {x : Float} {c : Char} (hc : c ∈ (numberText x).toList) :
    isValueChar c = true := by
  cases hview : Binary64.ofFloat x with
  | finite negative rank hrank =>
    have hfinite := Binary64.isFinite_iff.mpr ⟨negative, rank, hrank, hview⟩
    refine Bool.and_eq_true_iff.mpr ⟨isWordChar_of_mem_numberText hfinite hc, ?_⟩
    refine decide_eq_true fun hmark => ?_
    obtain (hdigit | rfl) | rfl := mem_numberText hfinite hc
    · rw [hmark] at hdigit
      cases hdigit
    · cases hmark
    · cases hmark
  | infinite negative =>
    rw [numberText, hview] at hc
    cases negative <;> exact List.all_eq_true.mp rfl c hc
  | nan =>
    rw [numberText, hview] at hc
    exact List.all_eq_true.mp rfl c hc

/-- **Whether the values of a fragment can stand in a description.** -/
def Fragment.Plain (f : Fragment) : Prop :=
  ∀ text, .value text ∈ f.tokens → ∀ c ∈ text.toList, isValueChar c = true

namespace Fragment.Plain

variable {f g : Fragment}

theorem argument {op : UnaryOp} (h : (Fragment.apply op f).Plain) : f.Plain :=
  fun text hmem => h text
    (List.mem_cons_of_mem _ (List.mem_cons_of_mem _ (List.mem_append_left _ hmem)))

theorem lhs {op : BinaryOp} (h : (Fragment.combine op f g).Plain) : f.Plain :=
  fun text hmem => h text (List.mem_append_left _ hmem)

theorem rhs {op : BinaryOp} (h : (Fragment.combine op f g).Plain) : g.Plain :=
  fun text hmem => h text (List.mem_append_right _ (List.mem_cons_of_mem _ hmem))

theorem inner (h : (Fragment.group f).Plain) : f.Plain :=
  fun text hmem => h text (List.mem_cons_of_mem _ (List.mem_append_left _ hmem))

end Fragment.Plain

namespace Token

/-! ## Finding the tokens of a fragment -/

/-- Whether an operand ends before a text. -/
def EndsOperand (text : List Char) : Prop :=
  ∀ c ∈ text.head?, c = ')' ∨ (binaryOp? c).isSome = true

/-- A word is taken up to where it ends. -/
theorem scan_append_of_isValueChar {word : List Char} (hword : ∀ c ∈ word, isValueChar c = true)
    (begun tail : List Char) :
    scan (some begun) (word ++ tail) = scan (some (begun ++ word)) tail := by
  induction word generalizing begun with
  | nil => rw [List.append_nil, List.nil_append]
  | cons c word ih =>
    obtain ⟨hopening, hclosing, hhole, hbinary⟩ :=
      ne_of_isValueChar (hword c List.mem_cons_self)
    rw [List.cons_append, scan, if_neg hopening, if_neg hclosing, if_neg hhole, hbinary]
    show scan (some (begun ++ [c])) (word ++ tail) = _
    rw [ih fun d hd => hword d (List.mem_cons_of_mem c hd), List.append_assoc]
    rfl

/-- A word is a value where an operand ends. -/
theorem scan_word {tail : List Char} (htail : EndsOperand tail) (word : List Char) :
    scan (some word) tail = .value (String.ofList word) :: scan none tail := by
  cases tail with
  | nil => rfl
  | cons c rest =>
    have hopening : c ≠ '(' := by
      rintro rfl
      obtain h | h := htail '(' rfl <;> cases h
    have hhole : c ≠ '?' := by
      rintro rfl
      obtain h | h := htail '?' rfl <;> cases h
    rw [scan, scan, if_neg hopening, if_neg hopening]
    obtain rfl | hbinary := htail c rfl
    · rfl
    · obtain ⟨op, hop⟩ := Option.isSome_iff_exists.mp hbinary
      have hclosing : c ≠ ')' := by
        rintro rfl
        cases hop
      rw [if_neg hclosing, if_neg hclosing, if_neg hhole, if_neg hhole, hop]
      rfl

theorem endsOperand_parenthesis (rest : List Char) : EndsOperand (')' :: rest) := by
  rintro c ⟨⟩
  exact .inl rfl

theorem endsOperand_symbol (op : BinaryOp) (rest : List Char) :
    EndsOperand (op.symbol.toList ++ rest) := by
  obtain ⟨c, hsymbol, hop⟩ := exists_symbol_eq op
  rw [hsymbol]
  rintro d ⟨⟩
  exact .inr (hop ▸ rfl)

/-- After an operand, an operator is read and another operand expected. -/
theorem scan_symbol (op : BinaryOp) (rest : List Char) :
    scan none (op.symbol.toList ++ rest) = .binary op :: scan (some []) rest := by
  cases op <;> rfl

/-- In front of a parenthesis, the symbol of an operator is one. -/
theorem scan_symbol_parenthesis (op : UnaryOp) (rest : List Char) :
    scan (some []) (op.symbol.toList ++ '(' :: rest)
      = .unary op :: .opening :: scan (some []) rest := by
  cases op <;> rfl

/-- **The tokens of a fragment are found in its text**, if its values can
stand there, and as long as an operand ends behind it. -/
theorem scan_text {f : Fragment} (hplain : f.Plain) {tail : List Char}
    (htail : EndsOperand tail) :
    scan (some []) (f.text.toList ++ tail) = f.tokens ++ scan none tail := by
  induction f generalizing tail with
  | hole => rfl
  | leaf text =>
    have hword := hplain text List.mem_cons_self
    show scan (some []) (text.toList ++ tail) = .value text :: scan none tail
    rw [scan_append_of_isValueChar hword, List.nil_append, scan_word htail, String.ofList_toList]
  | apply op argument ih =>
    rw [Fragment.toList_text_apply, scan_symbol_parenthesis,
      ih hplain.argument (endsOperand_parenthesis tail), Fragment.tokens]
    show _ = .unary op :: .opening :: (argument.tokens ++ [.closing] ++ scan none tail)
    rw [List.append_assoc]
    rfl
  | combine op lhs rhs ihLhs ihRhs =>
    rw [Fragment.toList_text_combine, ihLhs hplain.lhs (endsOperand_symbol op _), scan_symbol,
      ihRhs hplain.rhs htail, Fragment.tokens, List.append_assoc]
    rfl
  | group inner ih =>
    rw [Fragment.toList_text_group, Fragment.tokens]
    show .opening :: scan (some []) _ = .opening :: (inner.tokens ++ [.closing] ++ scan none tail)
    rw [ih hplain.inner (endsOperand_parenthesis tail), List.append_assoc]
    rfl

/-- **The tokens of the text of a fragment are those of the fragment**, if
its values can stand in a description. -/
theorem ofText_text {f : Fragment} (hplain : f.Plain) : ofText f.text = f.tokens := by
  have hscan := @scan_text f hplain [] nofun
  rw [List.append_nil] at hscan
  exact hscan.trans (List.append_nil _)

end Token

/-! ## Parentheses -/

/-- **How deep a text is in parentheses at its end**, if it starts at a
depth and never closes one that is not open. -/
def nesting : (depth : Nat) → List Char → Option Nat
  | depth, [] => some depth
  | depth, c :: rest =>
    if c = '(' then nesting (depth + 1) rest
    else if c = ')' then if depth = 0 then none else nesting (depth - 1) rest
    else nesting depth rest

/-- **Whether the parentheses of a text are balanced.** -/
def Balanced (text : String) : Prop := nesting 0 text.toList = some 0

/-- A text without parentheses leaves the depth as it is. -/
theorem nesting_append {word : List Char} (hword : ∀ c ∈ word, c ≠ '(' ∧ c ≠ ')')
    (depth : Nat) (tail : List Char) : nesting depth (word ++ tail) = nesting depth tail := by
  induction word with
  | nil => rfl
  | cons c word ih =>
    obtain ⟨hopening, hclosing⟩ := hword c List.mem_cons_self
    rw [List.cons_append, nesting, if_neg hopening, if_neg hclosing]
    exact ih fun d hd => hword d (List.mem_cons_of_mem c hd)

/-- **A fragment leaves the depth as it is.** -/
theorem nesting_text_append {f : Fragment} (hplain : f.Plain) (depth : Nat)
    (tail : List Char) : nesting depth (f.text.toList ++ tail) = nesting depth tail := by
  induction f generalizing depth tail with
  | hole => rfl
  | leaf text =>
    refine nesting_append (fun c hc => ?_) depth tail
    obtain ⟨hopening, hclosing, -, -⟩ := ne_of_isValueChar (hplain text List.mem_cons_self c hc)
    exact ⟨hopening, hclosing⟩
  | apply op argument ih =>
    have hsymbol : ∀ rest, nesting depth (op.symbol.toList ++ rest) = nesting depth rest := by
      intro rest
      cases op <;> rfl
    rw [Fragment.toList_text_apply, hsymbol]
    show nesting (depth + 1) _ = _
    rw [ih hplain.argument]
    rfl
  | combine op lhs rhs ihLhs ihRhs =>
    have hsymbol : ∀ rest, nesting depth (op.symbol.toList ++ rest) = nesting depth rest := by
      intro rest
      cases op <;> rfl
    rw [Fragment.toList_text_combine, ihLhs hplain.lhs, hsymbol, ihRhs hplain.rhs]
  | group inner ih =>
    rw [Fragment.toList_text_group]
    show nesting (depth + 1) _ = _
    rw [ih hplain.inner]
    rfl

/-- **The parentheses of a fragment are balanced.** -/
theorem balanced_text {f : Fragment} (hplain : f.Plain) : Balanced f.text := by
  have hnesting := nesting_text_append hplain 0 []
  rw [List.append_nil] at hnesting
  exact hnesting

end Rpn
