import Rpn.Proofs.Session.Run
import Rpn.Proofs.Text.Words

/-!
# Telling commands apart

A command is known by what it does. That takes more than one look: on an
empty stack an undo does nothing, and neither does storing a number that is
stored already. So an effect is something a command **always** has, in every
session with a memory of the same name, or that it has in some session.

There is a session that tells all of them apart, `probe`: two numbers are on
its stack and nothing is stored. An entry leaves three operations there, an
undo one and clearing none. Storing leaves the two, but sets a variable, and
a symbol without a meaning leaves everything.
-/

namespace Rpn

namespace Session

/-! ## Effects -/

section

variable (memory : String) (act : Session → Session) (effect : Session → Session → Prop)

/-- **What is done in every session** with a memory variable of a given
name. -/
def Always : Prop := ∀ session, Reached memory session → effect session (act session)

/-- What is done in some session with a memory variable of a given name. -/
def Sometimes : Prop := ∃ session, Reached memory session ∧ effect session (act session)

end

section

variable (kind : Operation → Prop) (before after : Session)

/-- **An operation of some kind is appended to the stack.** -/
def Appends : Prop :=
  ∃ operation, kind operation
    ∧ after.engine.operations = before.engine.operations ++ [operation]

/-- **Nothing changes**, neither the stack nor a variable. -/
def Keeps : Prop := after.engine = before.engine

/-- **The stack does not change**, though a variable may. -/
def KeepsStack : Prop := after.engine.operations = before.engine.operations

/-- **The memory is given a value** that it did not have. -/
def Writes : Prop :=
  ∃ value, after.memoryValue? = some value ∧ before.memoryValue? ≠ some value

/-- **The newest operation is removed**, if there is one. -/
def RemovesNewest : Prop := after.engine.operations = before.engine.operations.dropLast

end

/-- **The stack and the variables are emptied.** -/
def Forgets (_before after : Session) : Prop :=
  after.engine.operations = [] ∧ after.engine.bindings = .empty

section

variable {memory word : String} {effect : Session → Session → Prop}

/-- **A line of one word is executed as the command the word is.** -/
theorem Reached.executeLine_of_isWord {session : Session} (hreached : Reached memory session)
    (h : IsWord word) :
    session.executeLine word = session.execute (Command.ofWord memory word) := by
  rw [executeLine, words_of_isWord h, ← hreached.memory_eq]
  rfl

/-- What a word always does is what its command always does. -/
theorem always_executeLine_iff (h : IsWord word) :
    Always memory (executeLine · word) effect
      ↔ Always memory (execute · (Command.ofWord memory word)) effect :=
  forall₂_congr fun session hreached =>
    iff_of_eq (congrArg (effect session) (hreached.executeLine_of_isWord h))

/-- What a word sometimes does is what its command sometimes does. -/
theorem sometimes_executeLine_iff (h : IsWord word) :
    Sometimes memory (executeLine · word) effect
      ↔ Sometimes memory (execute · (Command.ofWord memory word)) effect :=
  exists_congr fun session => and_congr_right fun hreached =>
    iff_of_eq (congrArg (effect session) (hreached.executeLine_of_isWord h))

end

/-- Nothing is written where nothing changes. -/
theorem Keeps.not_writes {session : Session} {command : Command}
    (h : Keeps session (session.execute command)) :
    ¬Writes session (session.execute command) := by
  rintro ⟨value, hafter, hbefore⟩
  rw [memoryValue?, memory_execute, show _ = session.engine from h] at hafter
  exact hbefore hafter

/-! ## The commands that have effects -/

/-- **A session that tells commands apart.** -/
def probe (memory : String) : Session := start ⟨[.operand 0, .operand 0], .empty⟩ memory

theorem reached_probe (memory : String) : Reached memory (probe memory) := .start _

/-- Storing sets the variable, there. -/
theorem valueOf?_stored_probe (memory : String) :
    (probe memory).stored.valueOf? memory = some 0 :=
  Bindings.get?_set_self .empty memory 0

variable {memory : String} {command : Command}

/-- What a command always does it does in that session. -/
theorem Always.probe {effect : Session → Session → Prop}
    (h : Always memory (execute · command) effect) :
    ∃ after, Step (probe memory) command after ∧ effect (probe memory) after :=
  ⟨_, step_execute _ command, h (Session.probe memory) (reached_probe memory)⟩

/-- **The commands that always append an operation of some kind** are those
that enter one. -/
theorem always_appends_iff {kind : Operation → Prop} :
    Always memory (execute · command) (Appends kind)
      ↔ ∃ operation, kind operation ∧ command.entered? memory = some operation := by
  constructor
  · intro h
    obtain ⟨after, step, operation, hkind, happended⟩ := h.probe
    have hlength := congrArg List.length happended
    cases step with
    | @entry _ entered hentry =>
      obtain rfl : entered = operation := by
        rw [← List.singleton_inj]
        exact List.append_cancel_left (List.reverse_cons.symm.trans happended)
      exact ⟨entered, hkind, hentry⟩
    | ignored _ => cases hlength
    | store => cases hlength
    | undo => cases hlength
    | clear => cases hlength
  · rintro ⟨operation, hkind, hentry⟩ session hreached
    rw [← hreached.memory_eq] at hentry
    refine ⟨operation, hkind, ?_⟩
    rw [engine_execute_of_entered? hentry, Engine.operations_push]

/-- **The commands that never change anything** are symbols without a
meaning. -/
theorem always_keeps_iff :
    Always memory (execute · command) Keeps
      ↔ ∃ symbol, command = .symbol symbol ∧ builtin? symbol = none := by
  constructor
  · intro h
    obtain ⟨after, step, hkept⟩ := h.probe
    cases step with
    | entry _ => cases congrArg Engine.depth hkept
    | @ignored symbol hsymbol => exact ⟨symbol, rfl, hsymbol⟩
    | store =>
      have hvalue := congrArg (Engine.valueOf? · memory) hkept
      cases (valueOf?_stored_probe memory).symm.trans hvalue
    | undo => cases congrArg Engine.depth hkept
    | clear => cases congrArg Engine.depth hkept
  · rintro ⟨symbol, rfl, hsymbol⟩ session -
    show session.engine.pushSymbol symbol = session.engine
    rw [Engine.pushSymbol, hsymbol]

/-- **The command that keeps every stack, but writes the memory**, stores. -/
theorem always_keepsStack_and_writes_iff :
    Always memory (execute · command) KeepsStack ∧ Sometimes memory (execute · command) Writes
      ↔ command = .storeMemory := by
  constructor
  · rintro ⟨hkeeps, session, hreached, hwrites⟩
    obtain ⟨after, step, hkept⟩ := hkeeps.probe
    have hlength := congrArg List.length hkept
    cases step with
    | entry _ => cases hlength
    | ignored hsymbol =>
      -- this keeps every stack as well, and is told apart by never writing
      have hkeeps := always_keeps_iff.mpr ⟨_, rfl, hsymbol⟩ session hreached
      exact absurd hwrites hkeeps.not_writes
    | store => rfl
    | undo => cases hlength
    | clear => cases hlength
  · rintro rfl
    exact ⟨fun session _ => congrArg List.reverse session.stack_stored, Session.probe memory,
      reached_probe memory, 0, valueOf?_stored_probe memory, nofun⟩

/-- **The command that always removes the newest operation** undoes. -/
theorem always_removesNewest_iff :
    Always memory (execute · command) RemovesNewest ↔ command = .undo := by
  constructor
  · intro h
    obtain ⟨after, step, hremoved⟩ := h.probe
    have hlength := congrArg List.length hremoved
    cases step with
    | entry _ => cases hlength
    | ignored _ => cases hlength
    | store => cases hlength
    | undo => rfl
    | clear => cases hlength
  · rintro rfl session -
    exact session.engine.operations_pop

/-- **The command that always forgets everything** clears. -/
theorem always_forgets_iff :
    Always memory (execute · command) Forgets ↔ command = .clear := by
  constructor
  · intro h
    obtain ⟨after, step, hforgotten, -⟩ := h.probe
    have hlength := congrArg List.length hforgotten
    cases step with
    | entry _ => cases hlength
    | ignored _ => cases hlength
    | store => cases hlength
    | undo => cases hlength
    | clear => rfl
  · rintro rfl session -
    exact ⟨rfl, rfl⟩

end Session

end Rpn
