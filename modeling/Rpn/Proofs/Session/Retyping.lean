import Rpn.Proofs.Description.Unambiguous
import Rpn.Proofs.Session.Entry

/-!
# A stack is typed back

The texts of the operations on a stack, oldest first and with spaces between
them, are a line of input. For a stack that was typed in the first place,
that line enters the stack again (`retyping_restores`), into whatever
session with the same memory and nothing on its stack.

A stack holds nothing but what was entered and not removed since
(`mem_stack_executeAll`). So all there is on a typed stack was entered by
words, and what a word enters is entered by its text again. The one thing
that is lost is the sign of a zero. It is not shown, and it does not matter
to the equality of operations, nor to the description.
-/

namespace Rpn

/-- **The line that enters a stack.** -/
def Engine.inputLine (engine : Engine) : String :=
  " ".intercalate (engine.operations.map Operation.text)

namespace Session

/-! ## What is on a stack -/

/-- **Nothing is on the stack that was not there before**, other than what
the command enters. -/
theorem Step.mem_stack {session next : Session} {command : Command}
    (step : Step session command next) {operation : Operation}
    (h : operation ∈ next.engine.stack) :
    operation ∈ session.engine.stack ∨ command.entered? session.memory = some operation := by
  cases step with
  | entry hentry =>
    obtain rfl | h := List.mem_cons.mp h
    · exact .inr hentry
    · exact .inl h
  | ignored _ => exact .inl h
  | store => exact .inl (session.stack_stored ▸ h)
  | undo => exact .inl (List.mem_of_mem_tail h)
  | clear => cases h

/-- **Everything on the stack was entered**, if it was not there at the
start. -/
theorem mem_stack_executeAll {session : Session} {commands : List Command}
    {operation : Operation} (h : operation ∈ (session.executeAll commands).engine.stack) :
    operation ∈ session.engine.stack
      ∨ ∃ command ∈ commands, command.entered? session.memory = some operation := by
  induction commands using List.reverseRecOn with
  | nil => exact .inl h
  | append_singleton commands last ih =>
    rw [executeAll_concat] at h
    obtain h | hlast := (step_execute _ last).mem_stack h
    · refine (ih h).imp_right ?_
      rintro ⟨command, hmem, hentry⟩
      exact ⟨command, List.mem_append_left _ hmem, hentry⟩
    · rw [memory_executeAll] at hlast
      exact .inr ⟨last, List.mem_append_right _ List.mem_cons_self, hlast⟩

/-- **Lines are executed command by command.** -/
theorem foldl_executeLine_eq_executeAll (session : Session) (lines : List String) :
    lines.foldl executeLine session
      = session.executeAll (lines.flatMap (lineCommands session.memory)) := by
  have hgiven := giveAll_eq_executeAll session (lines.map .line)
  rw [List.flatMap_map, giveAll, List.foldl_map] at hgiven
  exact hgiven

/-- **Every operation on a typed stack can be typed.** -/
theorem typed_of_mem_stack {memory : String} {lines : List String} {operation : Operation}
    (h : operation ∈ (lines.foldl executeLine (start .empty memory)).engine.stack) :
    Typed memory operation := by
  rw [foldl_executeLine_eq_executeAll] at h
  obtain h | ⟨command, hmem, hentry⟩ := mem_stack_executeAll h
  · cases h
  · obtain ⟨line, -, hmem⟩ := List.mem_flatMap.mp hmem
    obtain ⟨word, hword, rfl⟩ := List.mem_map.mp hmem
    exact typed_of_entered? (isWord_of_mem_words hword) hentry

/-! ## Typing it back -/

/-- **The line that enters a stack does so**, if everything on the stack can
be typed. -/
theorem operations_executeLine_inputLine {engine : Engine} {session : Session}
    (hmemory : session.memory ∉ builtinSymbols) (hempty : session.engine.stack = [])
    (htyped : ∀ operation ∈ engine.operations, Typed session.memory operation) :
    (session.executeLine engine.inputLine).engine.operations
      = engine.operations.map Operation.withoutZeroSign := by
  -- the words of the line are the texts again, and each enters its operation
  have hwords : words engine.inputLine = engine.operations.map Operation.text :=
    words_intercalate (List.forall_mem_map.mpr fun operation hmem =>
      (htyped operation hmem).isWord_text)
  have hentry (operation : Operation) (hmem : operation ∈ engine.operations) :
      (Command.ofWord session.memory operation.text).entered? session.memory
        = some operation.withoutZeroSign :=
    (htyped operation hmem).entered?_text hmemory
  have hentries : (lineCommands session.memory engine.inputLine).filterMap
        (Command.entered? session.memory)
      = engine.operations.map Operation.withoutZeroSign := by
    rw [lineCommands, hwords, List.map_map, List.filterMap_map, ← List.filterMap_eq_map]
    exact List.filterMap_congr hentry
  rw [executeLine_eq_executeAll, engine_executeAll_entries, hentries, hempty, List.append_nil,
    Engine.operations, List.reverse_reverse]
  intro command hmem
  rw [lineCommands, hwords] at hmem
  obtain ⟨word, hword, rfl⟩ := List.mem_map.mp hmem
  obtain ⟨operation, hop, rfl⟩ := List.mem_map.mp hword
  rw [hentry operation hop]
  rfl

/-- **A stack that was typed can be typed back.** However its session got
there – by any lines, from an empty stack – the texts of its operations are
a line that enters them again, without the signs of zeros, into any session
with the same memory and an empty stack. The new stack is equal to the old
one and has the same description. The memory must not be named like a
built-in symbol. -/
theorem retyping_restores (memory : String) (hmemory : memory ∉ builtinSymbols)
    (lines : List String) (other : Session) (hother : other.memory = memory)
    (hempty : other.engine.stack = []) :
    let session := lines.foldl executeLine (start .empty memory)
    let retyped := other.executeLine session.engine.inputLine
    retyped.engine.operations = session.engine.operations.map Operation.withoutZeroSign
      ∧ (retyped.engine.operations == session.engine.operations) = true
      ∧ retyped.history = session.history := by
  intro session retyped
  subst hother
  have htyped : ∀ operation ∈ session.engine.operations, Typed other.memory operation :=
    fun operation hmem => typed_of_mem_stack (List.mem_reverse.mp hmem)
  have hoperations : retyped.engine.operations
      = session.engine.operations.map Operation.withoutZeroSign :=
    operations_executeLine_inputLine hmemory hempty htyped
  refine ⟨hoperations, ?equal, ?history⟩
  case equal =>
    rw [hoperations]
    refine beq_of_withoutZeroSigns_eq (List.forall_mem_map.mpr fun operation hmem =>
      ((htyped operation hmem).withoutZeroSign hmemory).finiteNumber) ?_
    rw [List.map_map]
    exact List.map_congr_left fun operation _ => operation.withoutZeroSign_withoutZeroSign
  case history =>
    show historyLine (description retyped.engine.operations) = _
    rw [hoperations, description_map_withoutZeroSign]
    rfl

/-- The memory is called as if storing into another one, and one of the
zeros has a sign. The other session has stored something else. -/
theorem retyping_restores_arrow_name :
    "→x" ∉ builtinSymbols
      ∧ (["7 -0", "→→x →x * 1.50e2 +", "undo neg"].foldl executeLine
          (start .empty "→x")).engine.inputLine = "7 0 →x × 150 ±"
      ∧ (((start ⟨[], Bindings.empty.set "→x" 5⟩ "→x").executeLine
            "7 0 →x × 150 ±").engine.operations
          == (["7 -0", "→→x →x * 1.50e2 +", "undo neg"].foldl executeLine
            (start .empty "→x")).engine.operations) = true
      ∧ ((start ⟨[], Bindings.empty.set "→x" 5⟩ "→x").executeLine "7 0 →x × 150 ±").history
        = "7, (0×→x), ±(150) =" := by
  have hmemory : "→x" ∉ builtinSymbols := by decide
  have hline : (["7 -0", "→→x →x * 1.50e2 +", "undo neg"].foldl executeLine
      (start .empty "→x")).engine.inputLine = "7 0 →x × 150 ±" := by decide +kernel
  obtain ⟨-, hequal, hhistory⟩ := retyping_restores "→x" hmemory
    ["7 -0", "→→x →x * 1.50e2 +", "undo neg"] (start ⟨[], Bindings.empty.set "→x" 5⟩ "→x") rfl rfl
  rw [hline] at hequal hhistory
  exact ⟨hmemory, hline, hequal, hhistory.trans (by decide +kernel)⟩

end Session

end Rpn
