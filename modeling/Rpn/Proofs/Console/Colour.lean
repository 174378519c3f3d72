import Rpn.Console.Highlight
import Rpn.Proofs.Session.Effect
import Rpn.Proofs.Session.Entry

/-!
# The colour of a word tells what it does

A word is highlighted before the line is run, and from nothing but its text
and the name of the memory. The colour is a promise about every session the
line could be run in, and the promise goes both ways: a word has a colour if
and only if executing it always has the effect the colour stands for
(`colour_tells_effect`).

A red word changes nothing, wherever it is executed, and every other word
changes something somewhere. A word in the terminal's own colour always
enters a finite number, a grey one an operator, a bold one a constant. The
two colours that stand for more than one thing stand for what the memory can
do – be recalled or be stored into – and for the two commands about what was
entered.
-/

namespace Rpn

/-! ## Kinds of operations -/

namespace Operation

/-- **A number that was typed**, and a finite one. -/
def IsFiniteOperand (operation : Operation) : Prop :=
  ∃ value : Float, value.isFinite = true ∧ operation = .operand value

/-- **An operator**, of one operand or of two. -/
def IsOperator (operation : Operation) : Prop :=
  (∃ op, operation = .unary op) ∨ ∃ op, operation = .binary op

/-- **A constant.** -/
def IsConstant (operation : Operation) : Prop :=
  ∃ symbol value, operation = .constant symbol value

/-- The style of the words that enter an operation. -/
def style : Operation → Style
  | operand _ => .number
  | var _ => .memory
  | constant .. => .constant
  | unary _ => .operator
  | binary _ => .operator

theorem style_eq_operator_iff (operation : Operation) :
    operation.style = .operator ↔ operation.IsOperator := by
  cases operation <;> simp [style, IsOperator]

theorem style_eq_constant_iff (operation : Operation) :
    operation.style = .constant ↔ operation.IsConstant := by
  cases operation <;> simp [style, IsConstant]

end Operation

/-- What can be typed and has the style of numbers is a finite number. -/
theorem Typed.style_eq_number_iff {memory : String} {operation : Operation}
    (h : Typed memory operation) : operation.style = .number ↔ operation.IsFiniteOperand := by
  constructor
  · intro hstyle
    cases operation with
    | operand value => exact ⟨value, h.finiteNumber, rfl⟩
    | _ => cases hstyle
  · rintro ⟨value, -, rfl⟩
    rfl

/-- The style of a built-in operation is that of an operation with a
symbol. -/
theorem ofOperation?_of_mem_builtins {operation : Operation} (h : operation ∈ builtins) :
    Style.ofOperation? (some operation) = operation.style := by
  obtain ⟨op, rfl⟩ | ⟨op, rfl⟩ | rfl := unary_or_binary_or_pi_of_mem_builtins h
  all_goals rfl

/-! ## The styles of commands -/

namespace Style

variable {memory : String} {command : Command}

/-- **A command that enters something has the style of what it enters.** -/
theorem ofCommand_of_entered? {operation : Operation}
    (h : command.entered? memory = some operation) : ofCommand command = operation.style := by
  cases command with
  | operand value =>
    obtain rfl := Option.some.inj h
    rfl
  | recallMemory =>
    obtain rfl := Option.some.inj h
    rfl
  | symbol symbol =>
    have hfound : builtin? symbol = some operation := h
    show ofOperation? (builtin? symbol) = _
    rw [hfound]
    exact ofOperation?_of_mem_builtins (mem_builtins_of_builtin? hfound)
  | storeMemory => cases h
  | undo => cases h
  | clear => cases h

/-- **A command with any style but those of the memory, of the commands and of
what means nothing** enters something. -/
theorem exists_entered?_of_ofCommand_ne (hmemory : ofCommand command ≠ .memory)
    (hcontrol : ofCommand command ≠ .control) (hunknown : ofCommand command ≠ .unknown) :
    ∃ operation, command.entered? memory = some operation := by
  cases command with
  | operand value => exact ⟨_, rfl⟩
  | recallMemory => exact ⟨_, rfl⟩
  | storeMemory => exact absurd rfl hmemory
  | undo => exact absurd rfl hcontrol
  | clear => exact absurd rfl hcontrol
  | symbol symbol =>
    refine Option.ne_none_iff_exists'.mp fun hnone => hunknown ?_
    show ofOperation? (builtin? symbol) = _
    rw [show builtin? symbol = none from hnone]
    rfl

/-- **A style that only entries have tells what is entered**, if the kinds of
what can be entered are told by their styles. -/
theorem ofCommand_eq_iff_always_appends {style : Style} {kind : Operation → Prop}
    (hmemory : style ≠ .memory) (hcontrol : style ≠ .control) (hunknown : style ≠ .unknown)
    (hkind : ∀ operation, command.entered? memory = some operation →
      (operation.style = style ↔ kind operation)) :
    ofCommand command = style
      ↔ Session.Always memory (Session.execute · command) (Session.Appends kind) := by
  rw [Session.always_appends_iff]
  constructor
  · rintro rfl
    obtain ⟨operation, hentry⟩ := exists_entered?_of_ofCommand_ne hmemory hcontrol hunknown
    exact ⟨operation, (hkind operation hentry).mp (ofCommand_of_entered? hentry).symm, hentry⟩
  · rintro ⟨operation, hoperation, hentry⟩
    rw [ofCommand_of_entered? hentry, hkind operation hentry]
    exact hoperation

/-- **The style of what means nothing.** -/
theorem ofCommand_eq_unknown_iff :
    ofCommand command = .unknown
      ↔ ∃ symbol, command = .symbol symbol ∧ builtin? symbol = none := by
  constructor
  · intro h
    cases command with
    | symbol symbol =>
      refine ⟨symbol, rfl, ?_⟩
      cases hfound : builtin? symbol with
      | some operation =>
        have hstyle : ofOperation? (builtin? symbol) = .unknown := h
        rw [hfound] at hstyle
        cases operation <;> cases hstyle
      | none => rfl
    | _ => cases h
  · rintro ⟨symbol, rfl, hnone⟩
    show ofOperation? (builtin? symbol) = _
    rw [hnone]
    rfl

/-- A symbol has the style of an operation, or of none. -/
theorem ofOperation?_ne {operation : Option Operation} {style : Style}
    (h : style = .memory ∨ style = .control) : ofOperation? operation ≠ style := by
  cases operation with
  | none => obtain rfl | rfl := h <;> exact nofun
  | some operation => obtain rfl | rfl := h <;> cases operation <;> exact nofun

/-- **The style of the memory** is that of recalling it and of storing into
it. -/
theorem ofCommand_eq_memory_iff :
    ofCommand command = .memory ↔ command = .recallMemory ∨ command = .storeMemory := by
  constructor
  · intro h
    cases command with
    | recallMemory => exact .inl rfl
    | storeMemory => exact .inr rfl
    | symbol symbol => exact absurd h (ofOperation?_ne (.inl rfl))
    | _ => cases h
  · rintro (rfl | rfl) <;> rfl

/-- **The style of the commands about what was entered.** -/
theorem ofCommand_eq_control_iff :
    ofCommand command = .control ↔ command = .undo ∨ command = .clear := by
  constructor
  · intro h
    cases command with
    | undo => exact .inl rfl
    | clear => exact .inr rfl
    | symbol symbol => exact absurd h (ofOperation?_ne (.inr rfl))
    | _ => cases h
  · rintro (rfl | rfl) <;> rfl

/-- **No two styles start alike.** -/
theorem start_injective {a b : Style} (h : a.start = b.start) : a = b := by
  revert h
  cases a <;> cases b <;> decide

end Style

/-- Only recalling the memory enters it. -/
theorem entered?_eq_var_iff {memory name : String} {command : Command} :
    command.entered? memory = some (.var name) ↔ command = .recallMemory ∧ name = memory := by
  constructor
  · intro h
    cases command with
    | recallMemory =>
      cases h
      exact ⟨rfl, rfl⟩
    | symbol symbol =>
      have hmem : Operation.var name ∈ builtins := mem_builtins_of_builtin? h
      obtain ⟨op, h⟩ | ⟨op, h⟩ | h := unary_or_binary_or_pi_of_mem_builtins hmem
      all_goals cases h
    | _ => cases h
  · rintro ⟨rfl, rfl⟩
    rfl

/-! ## The colours of words -/

/-- **A word in a colour**, as a terminal is told it: by the code of a
control sequence in front of the word, and by the one that resets it behind
the word. -/
def coloured (code word : String) : String := "\x1b[" ++ code ++ "m" ++ word ++ Style.reset

section

variable {memory word : String} (hword : IsWord word)

include hword

/-- A word is highlighted as a whole. -/
theorem highlight_of_isWord :
    highlight true memory word = (Style.ofWord memory word).start ++ word ++ Style.reset := by
  have hrun : highlightRun memory word.toList
      = (Style.ofWord memory word).start ++ word ++ Style.reset := by
    obtain ⟨c, rest, hchars⟩ := List.exists_cons_of_ne_nil hword.toList_ne_nil
    have hall : word.toList.all isBlank = false := by
      rw [hchars, List.all_cons, hword.not_blank c (hchars ▸ List.mem_cons_self)]
      rfl
    rw [highlightRun, if_neg (by rw [hall]; exact Bool.false_ne_true), String.ofList_toList]
  rw [highlight, if_pos rfl, runs_of_isWord hword, List.map_singleton, hrun]
  exact String.empty_append

/-- **A word is in the colour of a style if it has the style.** -/
theorem highlight_eq_coloured_iff (style : Style) {code : String}
    (hcode : style.start = "\x1b[" ++ code ++ "m") :
    highlight true memory word = coloured code word ↔ Style.ofWord memory word = style := by
  rw [highlight_of_isWord hword, coloured, ← hcode]
  constructor
  · intro h
    exact Style.start_injective
      ((String.append_left_inj word).mp ((String.append_left_inj Style.reset).mp h))
  · rintro rfl
    rfl

end

namespace Session

/-- **The colour of a word tells what it does.** For every name of the memory
and every word, and for each of the colours: a word is highlighted in it if
and only if executing the word, in whatever session with a memory of that
name, always has the effect the colour stands for. -/
theorem colour_tells_effect (memory : String) {word : String} (hword : IsWord word) :
    (highlight true memory word = coloured "38;5;1" word
        ↔ Always memory (executeLine · word) Keeps)
      ∧ (highlight true memory word = coloured "0" word
        ↔ Always memory (executeLine · word) (Appends Operation.IsFiniteOperand))
      ∧ (highlight true memory word = coloured "38;5;248" word
        ↔ Always memory (executeLine · word) (Appends Operation.IsOperator))
      ∧ (highlight true memory word = coloured "38;5;13;1" word
        ↔ Always memory (executeLine · word) (Appends Operation.IsConstant))
      ∧ (highlight true memory word = coloured "38;5;13" word
        ↔ Always memory (executeLine · word) (Appends (· = .var memory))
          ∨ Always memory (executeLine · word) KeepsStack
            ∧ Sometimes memory (executeLine · word) Writes)
      ∧ (highlight true memory word = coloured "38;5;6" word
        ↔ Always memory (executeLine · word) RemovesNewest
          ∨ Always memory (executeLine · word) Forgets) := by
  simp only [always_executeLine_iff hword, sometimes_executeLine_iff hword]
  refine ⟨?unknown, ?number, ?operator, ?constant, ?memory, ?control⟩
  case unknown =>
    rw [highlight_eq_coloured_iff hword .unknown rfl, always_keeps_iff]
    exact Style.ofCommand_eq_unknown_iff
  case number =>
    rw [highlight_eq_coloured_iff hword .number rfl]
    exact Style.ofCommand_eq_iff_always_appends nofun nofun nofun fun operation hentry =>
      (typed_of_entered? hword hentry).style_eq_number_iff
  case operator =>
    rw [highlight_eq_coloured_iff hword .operator rfl]
    exact Style.ofCommand_eq_iff_always_appends nofun nofun nofun fun operation _ =>
      operation.style_eq_operator_iff
  case constant =>
    rw [highlight_eq_coloured_iff hword .constant rfl]
    exact Style.ofCommand_eq_iff_always_appends nofun nofun nofun fun operation _ =>
      operation.style_eq_constant_iff
  case memory =>
    rw [highlight_eq_coloured_iff hword .memory rfl, always_appends_iff,
      always_keepsStack_and_writes_iff, exists_eq_left, entered?_eq_var_iff,
      and_iff_left rfl]
    exact Style.ofCommand_eq_memory_iff
  case control =>
    rw [highlight_eq_coloured_iff hword .control rfl, always_removesNewest_iff,
      always_forgets_iff]
    exact Style.ofCommand_eq_control_iff

/-- With a memory called like an operator, the word for both is not grey and
does not enter the operator. A numeral that is too large is red and changes
nothing. -/
theorem colour_tells_effect_of_memory_sin :
    IsWord "sin" ∧ IsWord "1e999"
      ∧ highlight true "sin" "sin" = coloured "38;5;13" "sin"
      ∧ ¬Always "sin" (executeLine · "sin") (Appends Operation.IsOperator)
      ∧ highlight true "sin" "1e999" = coloured "38;5;1" "1e999"
      ∧ Always "sin" (executeLine · "1e999") Keeps := by
  have hsin : IsWord "sin" := by decide
  have hlarge : IsWord "1e999" := by decide
  have hmemory : highlight true "sin" "sin" = coloured "38;5;13" "sin" := by decide +kernel
  have hred : highlight true "sin" "1e999" = coloured "38;5;1" "1e999" := by decide +kernel
  have hgrey : highlight true "sin" "sin" ≠ coloured "38;5;248" "sin" := by
    rw [hmemory]
    decide
  obtain ⟨-, -, hoperator, -⟩ := colour_tells_effect "sin" hsin
  obtain ⟨hkeeps, -⟩ := colour_tells_effect "sin" hlarge
  exact ⟨hsin, hlarge, hmemory, fun h => hgrey (hoperator.mpr h), hred, hkeeps.mp hred⟩

end Session

end Rpn
