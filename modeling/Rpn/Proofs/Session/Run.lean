import Mathlib.Data.List.Induction
import Rpn.Session.Basic

/-!
# Runs of a session

A session can be given commands one at a time or lines of them, and the two
can be mixed. Either way it executes commands, one after the other, and a
run is the list of those (`giveAll_eq_executeAll`). Which commands the words
of a line are depends on the name of the memory, but on nothing that changes
in the course of a run.

A command does one of five things, and `Session.Step` has a constructor for
each. It enters an operation – a number, the memory, what a symbol stands
for – or it is a symbol that stands for nothing, or it stores, undoes or
clears. What is entered is the same thing in all its forms, and
`Command.entered?` says what it is; so a list of commands that all enter
something has its operations put on the stack, in their order, whatever the
evaluations in between came to (`engine_executeAll_entries`).
-/

namespace Rpn

/-- **The operation a command enters**, for a memory variable of a given
name, if it enters one. -/
def Command.entered? (memory : String) : Command → Option Operation
  | .operand value => some (.operand value)
  | .recallMemory => some (.var memory)
  | .symbol text => builtin? text
  | .storeMemory => none
  | .undo => none
  | .clear => none

namespace Session

/-! ## One command -/

/-- **What a command does to a session.** -/
inductive Step (session : Session) : Command → Session → Prop where
  /-- An operation is entered. -/
  | entry {command : Command} {operation : Operation}
      (h : command.entered? session.memory = some operation) :
      Step session command (session.entered (session.engine.push operation))
  /-- A symbol stands for nothing, and the stack is evaluated as it is. -/
  | ignored {symbol : String} (h : builtin? symbol = none) :
      Step session (.symbol symbol) (session.entered session.engine)
  /-- The display is stored. -/
  | store : Step session .storeMemory (session.refresh session.stored)
  /-- The newest operation is removed. -/
  | undo : Step session .undo (session.refresh session.engine.pop)
  /-- Everything is forgotten. -/
  | clear : Step session .clear
      ⟨session.engine.clear.clearVariables, session.memory, startupDisplay⟩

/-- **Executing a command is one of the steps.** -/
theorem step_execute (session : Session) (command : Command) :
    Step session command (session.execute command) := by
  cases command with
  | operand value => exact .entry rfl
  | recallMemory => exact .entry rfl
  | storeMemory => exact .store
  | undo => exact .undo
  | clear => exact .clear
  | symbol symbol =>
    rw [execute, Engine.pushSymbol]
    cases h : builtin? symbol with
    | some operation => exact .entry h
    | none => exact .ignored h

/-- Storing keeps the stack. -/
@[simp] theorem stack_stored (session : Session) :
    session.stored.stack = session.engine.stack := by
  rw [stored]
  cases session.display <;> rfl

section

variable {session : Session} {command : Command} {operation : Operation}

/-- **A command that enters an operation puts it on the stack.** -/
theorem execute_of_entered? (h : command.entered? session.memory = some operation) :
    session.execute command = session.entered (session.engine.push operation) := by
  have step := step_execute session command
  generalize session.execute command = next at step ⊢
  cases step with
  | entry h' =>
    obtain rfl := Option.some.inj (h.symm.trans h')
    rfl
  | ignored h' => cases h.symm.trans h'
  | store => cases h
  | undo => cases h
  | clear => cases h

theorem engine_execute_of_entered? (h : command.entered? session.memory = some operation) :
    (session.execute command).engine = session.engine.push operation :=
  congrArg engine (execute_of_entered? h)

end

/-! ## Many commands -/

/-- **Executes commands**, one after the other. -/
def executeAll (session : Session) (commands : List Command) : Session :=
  commands.foldl execute session

theorem executeAll_append (session : Session) (a b : List Command) :
    session.executeAll (a ++ b) = (session.executeAll a).executeAll b :=
  List.foldl_append

/-- The last command is executed by the session that the ones before it
lead to. -/
theorem executeAll_concat (session : Session) (commands : List Command) (last : Command) :
    session.executeAll (commands ++ [last]) = (session.executeAll commands).execute last :=
  executeAll_append session commands [last]

@[simp] theorem memory_executeAll (session : Session) (commands : List Command) :
    (session.executeAll commands).memory = session.memory := by
  induction commands using List.reverseRecOn with
  | nil => rfl
  | append_singleton commands last ih => rw [executeAll_concat, memory_execute, ih]

/-- **Commands that all enter something** put their operations on the stack,
and do nothing else to the engine. -/
theorem engine_executeAll_entries (session : Session) {commands : List Command}
    (h : ∀ command ∈ commands, (command.entered? session.memory).isSome = true) :
    (session.executeAll commands).engine
      = ⟨(commands.filterMap (Command.entered? session.memory)).reverse ++ session.engine.stack,
          session.engine.bindings⟩ := by
  induction commands using List.reverseRecOn with
  | nil => rfl
  | append_singleton commands last ih =>
    obtain ⟨operation, hlast⟩ := Option.isSome_iff_exists.mp
      (h last (List.mem_append_right _ List.mem_cons_self))
    have hbefore := ih fun command hmem => h command (List.mem_append_left _ hmem)
    rw [executeAll_concat, engine_execute_of_entered? (by rw [memory_executeAll]; exact hlast),
      hbefore, List.filterMap_append, List.filterMap_cons_some hlast, List.filterMap_nil,
      List.reverse_append]
    rfl

/-! ## Lines -/

/-- **The commands of a line**, for a memory variable of a given name. -/
def lineCommands (memory line : String) : List Command :=
  (words line).map (Command.ofWord memory)

/-- **Executing a line is executing its commands.** -/
theorem executeLine_eq_executeAll (session : Session) (line : String) :
    session.executeLine line = session.executeAll (lineCommands session.memory line) := by
  rw [executeLine, lineCommands]
  generalize words line = ws
  induction ws generalizing session with
  | nil => rfl
  | cons word ws ih =>
    rw [List.foldl_cons, ih, memory_executeWord]
    rfl

/-- **What a session is given at a time**: a command, or a line of them. -/
inductive Input where
  /-- A command. -/
  | command (command : Command)
  /-- A line of words. -/
  | line (text : String)

/-- **The commands of an input**, for a memory variable of a given name. -/
def Input.commands (memory : String) : Input → List Command
  | .command given => [given]
  | .line text => lineCommands memory text

/-- **Gives an input to a session.** -/
def give (session : Session) : Input → Session
  | .command command => session.execute command
  | .line text => session.executeLine text

/-- **Gives inputs to a session**, one after the other. -/
def giveAll (session : Session) (inputs : List Input) : Session := inputs.foldl give session

/-- An input has its commands executed. -/
theorem give_eq_executeAll (session : Session) (input : Input) :
    session.give input = session.executeAll (input.commands session.memory) := by
  cases input with
  | command command => rfl
  | line text => exact executeLine_eq_executeAll session text

/-- **A session executes the commands of all its inputs**, in their order. -/
theorem giveAll_eq_executeAll (session : Session) (inputs : List Input) :
    session.giveAll inputs
      = session.executeAll (inputs.flatMap (Input.commands session.memory)) := by
  induction inputs generalizing session with
  | nil => rfl
  | cons input inputs ih =>
    rw [List.flatMap_cons, executeAll_append, ← give_eq_executeAll]
    show (session.give input).giveAll inputs = _
    rw [ih, give_eq_executeAll, memory_executeAll]

/-! ## The sessions there are -/

/-- **The sessions with a memory variable of a given name**: started on any
engine, and given any commands. -/
inductive Reached (memory : String) : Session → Prop where
  /-- A session that was just started. -/
  | start (engine : Engine) : Reached memory (start engine memory)
  /-- A session after one more command. -/
  | execute {session : Session} (command : Command) :
      Reached memory session → Reached memory (session.execute command)

/-- A session keeps the name of its memory. -/
theorem Reached.memory_eq {memory : String} {session : Session} (h : Reached memory session) :
    session.memory = memory := by
  induction h with
  | start engine => rfl
  | execute command _ ih => rw [memory_execute, ih]

end Session

end Rpn
