import Rpn.Proofs.Description.Ending
import Rpn.Proofs.Description.Holes
import Rpn.Proofs.Session.Entry

/-!
# When there is a history

The line above the result is left out if the description of the stack has no
text. One would expect that of an empty stack only. It also happens to a
stack whose oldest operation is an operator of one operand, and to no other:
such an operator ends the description before there is any of it, and stays
where it is whatever is entered after it. Expressions that are entered later
are evaluated as if there were nothing below them, but none of them is shown.

That takes values that are shown as something. A number always is, and so is
the one constant there is, since no engine comes by an operation but by
entering it (`Engine.Built.mem_stack`). Variables are named from outside, so
for them it is an assumption.
-/

namespace Rpn

/-! ## The engines there are -/

namespace Engine

/-- **The engines there are**: one with nothing on it, and whatever becomes
of it by entering operations, removing them, and setting variables. -/
inductive Built : Engine → Prop where
  /-- Nothing was entered yet. -/
  | empty : Built .empty
  /-- A number was entered. -/
  | operand {engine : Engine} (value : Float) (built : Built engine) :
    Built (engine.push (.operand value))
  /-- A variable was entered. -/
  | var {engine : Engine} (name : String) (built : Built engine) :
    Built (engine.push (.var name))
  /-- A symbol was entered, whether it stands for an operation or not. -/
  | symbol {engine : Engine} (symbol : String) (built : Built engine) :
    Built (engine.pushSymbol symbol)
  /-- The newest operation was removed. -/
  | pop {engine : Engine} (built : Built engine) : Built engine.pop
  /-- Every operation was removed. -/
  | clear {engine : Engine} (built : Built engine) : Built engine.clear
  /-- A variable was set. -/
  | setVariable {engine : Engine} (name : String) (value : Float) (built : Built engine) :
    Built (engine.setVariable name value)
  /-- Every variable was unset. -/
  | clearVariables {engine : Engine} (built : Built engine) : Built engine.clearVariables

namespace Built

variable {engine : Engine} {operation : Operation}

/-- **What is on a stack** is a number, a variable, or built in. -/
theorem mem_stack (h : Built engine) (hmem : operation ∈ engine.stack) :
    (∃ value, operation = .operand value) ∨ (∃ name, operation = .var name)
      ∨ operation ∈ builtins := by
  induction h with
  | empty => cases hmem
  | operand value _ ih =>
    obtain rfl | hmem := List.mem_cons.mp hmem
    · exact .inl ⟨value, rfl⟩
    · exact ih hmem
  | var name _ ih =>
    obtain rfl | hmem := List.mem_cons.mp hmem
    · exact .inr (.inl ⟨name, rfl⟩)
    · exact ih hmem
  | symbol symbol _ ih =>
    rw [pushSymbol] at hmem
    cases hsymbol : builtin? symbol with
    | none =>
      rw [hsymbol] at hmem
      exact ih hmem
    | some entered =>
      rw [hsymbol] at hmem
      obtain rfl | hmem := List.mem_cons.mp hmem
      · exact .inr (.inr (mem_builtins_of_builtin? hsymbol))
      · exact ih hmem
  | pop _ ih => exact ih (List.mem_of_mem_tail hmem)
  | clear _ _ => cases hmem
  | setVariable _ _ _ ih => exact ih hmem
  | clearVariables _ ih => exact ih hmem

end Built

end Engine

/-! ## What is shown of a value -/

/-- **Every number is shown as something.** -/
theorem numberText_ne_empty (x : Float) : numberText x ≠ "" := by
  cases hview : Binary64.ofFloat x with
  | finite negative rank hrank =>
    exact (isWord_numberText (Binary64.isFinite_iff.mpr ⟨negative, rank, hrank, hview⟩)).ne_empty
  | infinite negative =>
    rw [numberText, hview]
    cases negative <;> decide
  | nan =>
    rw [numberText, hview]
    decide

/-- **Every operation on a stack is shown as something**, if no variable is
without a name. -/
theorem Engine.Built.text_ne_empty {engine : Engine} (h : engine.Built)
    (hnames : ∀ name, .var name ∈ engine.stack → name ≠ "") {operation : Operation}
    (hmem : operation ∈ engine.stack) : operation.text ≠ "" := by
  obtain ⟨value, rfl⟩ | ⟨name, rfl⟩ | hbuiltin := h.mem_stack hmem
  · exact numberText_ne_empty value
  · exact hnames name hmem
  · have hsymbols : ∀ symbol ∈ builtinSymbols, symbol ≠ "" := by decide
    exact hsymbols _ (List.mem_map_of_mem hbuiltin)

/-- The line above a result is left out if there is no description. -/
theorem historyLine_eq_empty_iff {text : String} : historyLine text = "" ↔ text = "" := by
  by_cases h : text = "" <;> simp [historyLine, h]

/-! ## The history -/

/-- **An expression is evaluated as if there were nothing below it.** -/
theorem Engine.evaluate_of_operations_eq {engine : Engine} {below : List Operation} {t : Expression}
    (h : engine.operations = below ++ t.listing) :
    engine.evaluate = (t.evaluate engine.bindings).bind Outcome.ofValue := by
  have hstack : engine.stack = t.stacked ++ below.reverse :=
    (List.reverse_eq_iff.mp h).trans List.reverse_append
  rw [evaluate, hstack, t.outcome_stacked_append]

namespace Session

/-- **There is no history** of an empty stack, and of one whose oldest
operation is an operator of one operand. -/
theorem history_eq_empty_iff {session : Session} (h : session.engine.Built)
    (hnames : ∀ name, .var name ∈ session.engine.stack → name ≠ "") :
    session.history = "" ↔
      session.engine.stack = [] ∨ ∃ op, session.engine.operations.head? = some (.unary op) := by
  have hvalue : ¬∃ value, session.engine.operations = [value] ∧ value.text = "" := by
    rintro ⟨value, hoperations, htext⟩
    have hmem : value ∈ session.engine.operations := hoperations ▸ List.mem_cons_self
    exact h.text_ne_empty hnames (List.mem_reverse.mp hmem) htext
  rw [history, historyLine_eq_empty_iff, Engine.describe, description_eq_empty_iff,
    or_iff_left hvalue, Engine.operations, List.reverse_eq_nil_iff]

/-- **A command leaves an engine that there is.** -/
theorem built_execute {session : Session} (h : session.engine.Built) (command : Command) :
    (session.execute command).engine.Built := by
  cases command with
  | operand value => exact .operand value h
  | recallMemory => exact .var session.memory h
  | symbol symbol => exact .symbol symbol h
  | storeMemory =>
    show session.stored.Built
    rw [stored]
    cases session.display with
    | ok value => exact .setVariable session.memory value h
    | error error => exact h
  | undo => exact .pop h
  | clear => exact .clearVariables (.clear h)

/-- **So does a run.** -/
theorem built_executeAll {session : Session} (h : session.engine.Built)
    (commands : List Command) : (session.executeAll commands).engine.Built := by
  induction commands using List.reverseRecOn with
  | nil => exact h
  | append_singleton commands last ih =>
    rw [executeAll_concat]
    exact built_execute ih last

/-- **A description is cut short at the bottom of the stack or not at all.**

Described operation by operation, a stack has no fragments if it is empty or
its oldest operation is an operator of one operand, and then all of it is
left; otherwise none of it is.

So there is no history in just these cases, in whatever session, as long as
no variable on its stack is without a name. It depends on nothing that is
entered on top: if that is an expression, it has the outcome that it has
alone, with or without a history. -/
theorem only_bottom_cuts_description :
    (∀ operations : List Operation,
      (fragments operations = []
        ↔ operations = [] ∨ ∃ op, operations.head? = some (.unary op))
      ∧ ∀ left result, Describes [] operations left result
        ↔ result = fragments operations
          ∧ (result ≠ [] → left = []) ∧ (result = [] → left = operations))
    ∧ ∀ (engine : Engine) (memory : String) (inputs : List Input), engine.Built →
      let session := (start engine memory).giveAll inputs
      (∀ name, .var name ∈ session.engine.stack → name ≠ "") →
      (session.history = ""
        ↔ session.engine.stack = [] ∨ ∃ op, session.engine.operations.head? = some (.unary op))
      ∧ ∀ below above, below ≠ [] → session.engine.operations = below ++ above →
        (session.history = "" ↔ ∃ op, below.head? = some (.unary op))
        ∧ ∀ t : Expression, above = t.listing →
          session.engine.evaluate
            = (t.evaluate session.engine.bindings).bind Outcome.ofValue := by
  refine ⟨fun operations => ⟨fragments_eq_nil_iff, fun _ _ => describes_iff⟩, ?_⟩
  intro engine memory inputs hbuilt session hnames
  have hsession : session.engine.Built := by
    rw [show session = _ from giveAll_eq_executeAll (start engine memory) inputs]
    exact built_executeAll hbuilt _
  have hhistory := history_eq_empty_iff hsession hnames
  refine ⟨hhistory, fun below above hbelow hoperations => ⟨?shown, ?evaluated⟩⟩
  case shown =>
    have hstack : session.engine.stack ≠ [] := by
      intro hempty
      rw [Engine.operations, hempty] at hoperations
      exact hbelow (List.append_eq_nil_iff.mp hoperations.symm).1
    rw [hhistory, or_iff_right hstack, hoperations, List.head?_append_of_ne_nil below hbelow]
  case evaluated =>
    rintro t rfl
    exact Engine.evaluate_of_operations_eq hoperations

/-- The root of nothing hides a sum that reads the memory twice. One of the
words stands for nothing, and one entry is undone. -/
theorem only_bottom_cuts_description_below_sum :
    Engine.Built ⟨[.unary .sqrt], Bindings.empty.set "x" 4⟩
      ∧ (∀ name, .var name ∈ ((start ⟨[.unary .sqrt], Bindings.empty.set "x" 4⟩ "x").giveAll
          [.line "x", .command .recallMemory, .line "undo x tan +"]).engine.stack → name ≠ "")
      ∧ ((start ⟨[.unary .sqrt], Bindings.empty.set "x" 4⟩ "x").giveAll
          [.line "x", .command .recallMemory, .line "undo x tan +"]).history = ""
      ∧ ((start ⟨[.unary .sqrt], Bindings.empty.set "x" 4⟩ "x").giveAll
          [.line "x", .command .recallMemory, .line "undo x tan +"]).engine.evaluate = .ok 8 := by
  have hbuilt : Engine.Built ⟨[.unary .sqrt], Bindings.empty.set "x" 4⟩ :=
    .symbol "√" (.setVariable "x" 4 .empty)
  have hoperations : ((start ⟨[.unary .sqrt], Bindings.empty.set "x" 4⟩ "x").giveAll
      [.line "x", .command .recallMemory, .line "undo x tan +"]).engine.operations
      = [.unary .sqrt] ++ (Expression.binary .add (.var "x") (.var "x")).listing := rfl
  have hnames : ∀ name, .var name ∈ ((start ⟨[.unary .sqrt], Bindings.empty.set "x" 4⟩ "x").giveAll
      [.line "x", .command .recallMemory, .line "undo x tan +"]).engine.stack → name ≠ "" := by
    intro name hmem
    have hmem := List.mem_reverse.mpr hmem
    rw [← Engine.operations, hoperations] at hmem
    obtain rfl : name = "x" := by simpa [Expression.listing] using hmem
    decide
  obtain ⟨-, hsessions⟩ := only_bottom_cuts_description
  obtain ⟨-, htop⟩ := hsessions _ "x"
    [.line "x", .command .recallMemory, .line "undo x tan +"] hbuilt hnames
  obtain ⟨hhistory, hevaluate⟩ := htop _ _ (List.cons_ne_nil _ _) hoperations
  exact ⟨hbuilt, hnames, hhistory.mpr ⟨.sqrt, rfl⟩,
    (hevaluate _ rfl).trans (by decide +kernel)⟩

end Session

end Rpn
