import Rpn.Proofs.Description.Reader
import Rpn.Proofs.Number.Text
import Rpn.Proofs.Session.Run
import Rpn.Proofs.Text.Words

/-!
# What words enter

Not every operation can be entered with a word. A word enters a number, and
then a finite one; or the memory, and then its name is that word, so it has
no blank and is not a numeral; or a built-in operation (`typed_of_entered?`).

What can be entered is entered by the text it is shown as
(`Typed.entered?_text`), and that text is a word (`Typed.isWord_text`). This
takes a memory that is not named like one of the nine symbols: the symbol
would then enter the memory. Nothing else can go wrong with the name. A
memory called `undo`, or `→x`, is recalled by that word, because the memory
is tried before anything else but a numeral, and none of the nine symbols is
an arrow with a name behind it.
-/

namespace Rpn

/-! ## The command a word is -/

namespace Command

variable {memory word : String}

theorem ofWord_of_floatOf?_eq_some {value : Float} (h : Numeral.floatOf? word = some value) :
    ofWord memory word = .operand value := by
  rw [ofWord, h]

theorem ofWord_of_floatOf?_eq_none (h : Numeral.floatOf? word = none) :
    ofWord memory word = ofName memory word := by
  rw [ofWord, h]

/-- **The operation that a word enters by its name** is the memory, if that is
called so, or built in. -/
theorem eq_var_or_mem_of_entered?_ofName {operation : Operation}
    (h : (ofName memory word).entered? memory = some operation) :
    word = memory ∧ operation = .var memory ∨ operation ∈ builtins := by
  unfold ofName at h
  split at h
  · exact .inl ⟨‹_›, (Option.some.inj h).symm⟩
  · split at h
    · cases h
    · split at h
      · cases h
      · split at h
        · cases h
        · exact .inr (mem_builtins_of_builtin? h)

/-- A symbol that is not the name of the memory is the command to enter
it. -/
theorem ofWord_of_mem_builtinSymbols (h : word ∈ builtinSymbols) (hne : word ≠ memory) :
    ofWord memory word = .symbol word := by
  -- no rule that comes before that for symbols has one of the nine as an instance
  have hfixed : ∀ other ∈ builtinSymbols, Numeral.floatOf? other = none
      ∧ other.toList.head? ≠ some '→' ∧ other.toList.head? ≠ some '>'
      ∧ other ≠ "undo" ∧ ¬(other = "C" ∨ other = "clear")
      ∧ symbolOfSpelling other = other := by
    decide +kernel
  obtain ⟨hnumeral, harrow, hangle, hundo, hclear, hspelling⟩ := hfixed word h
  have hstore : word ∉ storeWords memory := by
    intro hmem
    obtain rfl | hmem := List.mem_cons.mp hmem
    · exact harrow (by rw [String.toList_append]; rfl)
    · rw [List.mem_singleton.mp hmem] at hangle
      exact hangle (by rw [String.toList_append]; rfl)
  rw [ofWord_of_floatOf?_eq_none hnumeral, ofName, if_neg hne, if_neg hstore, if_neg hundo,
    if_neg hclear, hspelling]

end Command

/-! ## The operations that words enter -/

/-- **An operation that can be typed**, for a memory variable of a given
name. -/
inductive Typed (memory : String) : Operation → Prop where
  /-- A finite number. -/
  | operand {value : Float} (h : value.isFinite = true) : Typed memory (.operand value)
  /-- The memory, if its name is a word and does not denote a number. -/
  | var (hword : IsWord memory) (hname : Numeral.floatOf? memory = none) :
      Typed memory (.var memory)
  /-- A built-in operation. -/
  | builtin {operation : Operation} (h : operation ∈ builtins) : Typed memory operation

/-- **What a word enters can be typed.** -/
theorem typed_of_entered? {memory word : String} {operation : Operation} (hword : IsWord word)
    (h : (Command.ofWord memory word).entered? memory = some operation) :
    Typed memory operation := by
  cases hvalue : Numeral.floatOf? word with
  | some value =>
    rw [Command.ofWord_of_floatOf?_eq_some hvalue] at h
    obtain rfl := Option.some.inj h
    exact .operand (Numeral.isFinite_of_floatOf?_eq_some hvalue)
  | none =>
    rw [Command.ofWord_of_floatOf?_eq_none hvalue] at h
    obtain ⟨rfl, rfl⟩ | hbuiltin := Command.eq_var_or_mem_of_entered?_ofName h
    · exact .var hword hvalue
    · exact .builtin hbuiltin

/-- The number of an operation that can be typed is finite. -/
theorem Typed.finiteNumber {memory : String} {operation : Operation}
    (h : Typed memory operation) : operation.FiniteNumber := by
  cases h with
  | operand hfinite => exact hfinite
  | var _ _ => trivial
  | builtin hmem =>
    obtain ⟨op, rfl⟩ | ⟨op, rfl⟩ | rfl := unary_or_binary_or_pi_of_mem_builtins hmem
    · trivial
    · trivial
    · show pi.isFinite = true
      decide +kernel

/-! ## Their texts -/

/-- None of the characters of a number is a blank. -/
theorem IsNumberChar.not_blank {c : Char} (h : IsNumberChar c) : isBlank c = false := by
  obtain h | rfl := h
  · have hlow : 48 ≤ c.toNat ∧ c.toNat ≤ 57 := by
      simpa [Char.isDigit, UInt32.le_iff_toNat_le] using h
    simp only [isBlank, blankRanges, List.any_cons, List.any_nil, Bool.or_false,
      Bool.or_eq_false_iff, Bool.and_eq_false_iff, decide_eq_false_iff_not]
    omega
  · decide

/-- **The text of a finite double is a word.** -/
theorem isWord_numberText {x : Float} (h : x.isFinite = true) : IsWord (numberText x) where
  ne_empty hempty := by
    have hread := floatOf?_numberText h
    rw [hempty] at hread
    cases hread
  not_blank c hc := by
    obtain hc | rfl := mem_numberText h hc
    · exact hc.not_blank
    · decide

namespace Typed

variable {memory : String} {operation : Operation}

/-- **The text of what can be typed is a word.** -/
theorem isWord_text (h : Typed memory operation) : IsWord operation.text := by
  cases h with
  | operand hfinite => exact isWord_numberText hfinite
  | var hword _ => exact hword
  | builtin hmem =>
    have hsymbols : ∀ symbol ∈ builtinSymbols, IsWord symbol := by decide
    exact hsymbols _ (List.mem_map_of_mem hmem)

/-- **What can be typed is entered by its text**, but for the sign of a
zero. -/
theorem entered?_text (h : Typed memory operation) (hmemory : memory ∉ builtinSymbols) :
    (Command.ofWord memory operation.text).entered? memory = some operation.withoutZeroSign := by
  cases h with
  | @operand value hfinite =>
    show (Command.ofWord memory (numberText value)).entered? memory = _
    rw [Command.ofWord_of_floatOf?_eq_some (floatOf?_numberText hfinite)]
    rfl
  | var _ hname =>
    show (Command.ofWord memory memory).entered? memory = _
    rw [Command.ofWord_of_floatOf?_eq_none hname, Command.ofName, if_pos rfl]
    rfl
  | builtin hmem =>
    have hsymbol : operation.text ∈ builtinSymbols := List.mem_map_of_mem hmem
    rw [Command.ofWord_of_mem_builtinSymbols hsymbol (ne_of_mem_of_not_mem hsymbol hmemory)]
    show builtin? operation.text = _
    rw [builtin?_text hmem]
    obtain ⟨op, rfl⟩ | ⟨op, rfl⟩ | rfl := unary_or_binary_or_pi_of_mem_builtins hmem
    all_goals rfl

/-- What can be typed can be typed without the sign of a zero. -/
theorem withoutZeroSign (h : Typed memory operation) (hmemory : memory ∉ builtinSymbols) :
    Typed memory operation.withoutZeroSign :=
  typed_of_entered? h.isWord_text (h.entered?_text hmemory)

end Typed

end Rpn
