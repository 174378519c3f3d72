import Rpn.Proofs.Session.Display

/-!
# What the memory holds

The memory is written by one command, and what it is given is not an
argument of the command but the number on the display. That number depends
on everything that was done before: on the stack and on the variables, the
memory among them. A store may even change the display that the next one
takes its number from, so storing twice is not storing once.

What is kept in the end is simple all the same. Going through a run, one can
note down the number on the display at each store, wherever there is one
(`numbersStored`). Nothing but a store or clearing changes a variable
(`bindings_execute`), and so a run without clearing leaves all variables as
they were, except that the memory has the last number that was noted
(`bindings_executeAll`). Clearing unsets everything, and the run begins
anew.
-/

namespace Rpn

/-! ## Setting a variable, or not -/

namespace Bindings

/-- **Sets a variable to a number**, if there is one. -/
def setTo (bindings : Bindings) (name : String) : Option Float → Bindings
  | some value => bindings.set name value
  | none => bindings

section

variable (bindings : Bindings) (name : String) (number number' : Option Float)

@[simp] theorem get?_setTo_self :
    (bindings.setTo name number).get? name = number.or (bindings.get? name) := by
  cases number with
  | some value => exact get?_set_self bindings name value
  | none => rfl

theorem get?_setTo_of_ne {other : String} (h : other ≠ name) :
    (bindings.setTo name number).get? other = bindings.get? other := by
  cases number with
  | some value => exact get?_set_of_ne bindings value h
  | none => rfl

/-- **The later number counts**, if there is one. -/
theorem setTo_setTo :
    (bindings.setTo name number).setTo name number' = bindings.setTo name (number'.or number) := by
  ext other : 2
  by_cases h : other = name
  · rw [h, get?_setTo_self, get?_setTo_self, get?_setTo_self, Option.or_assoc]
  · rw [get?_setTo_of_ne _ _ _ h, get?_setTo_of_ne _ _ _ h, get?_setTo_of_ne _ _ _ h]

end

end Bindings

namespace Session

/-! ## What is stored -/

/-- **The number that a command stores**: the one on the display, if the
command is a store and the display shows a number. -/
def numberStored? (session : Session) : Command → Option Float
  | .storeMemory => session.display.toOption
  | _ => none

/-- **The numbers that a run stores**, oldest first: what is on the display
just before each store, wherever that is a number. -/
def numbersStored (session : Session) : List Command → List Float
  | [] => []
  | command :: rest =>
    (session.numberStored? command).toList ++ numbersStored (session.execute command) rest

/-- What a run stores last is stored by its first command, unless something
is stored later. -/
theorem getLast?_numbersStored_cons (session : Session) (command : Command)
    (rest : List Command) :
    (session.numbersStored (command :: rest)).getLast?
      = ((session.execute command).numbersStored rest).getLast?.or
          (session.numberStored? command) := by
  rw [numbersStored, List.getLast?_append]
  cases session.numberStored? command <;> rfl

/-- **What a command does to the variables**: it may give the memory a
number, and does nothing else, unless it clears. -/
theorem bindings_execute (session : Session) {command : Command} (h : command ≠ .clear) :
    (session.execute command).engine.bindings
      = session.engine.bindings.setTo session.memory (session.numberStored? command) := by
  have step := step_execute session command
  generalize session.execute command = next at step ⊢
  cases step with
  | entry hentry =>
    have hnone : session.numberStored? command = none := by
      cases command with
      | storeMemory => cases hentry
      | _ => rfl
    rw [hnone]
    rfl
  | ignored _ => rfl
  | store =>
    refine (bindings_execute_storeMemory session).trans ?_
    rw [numberStored?]
    cases session.display <;> rfl
  | undo => rfl
  | clear => exact absurd rfl h

/-- **What a run does to the variables**: the memory has the number that was
stored last, and every other variable is as it was, unless the run
clears. -/
theorem bindings_executeAll (session : Session) {commands : List Command}
    (h : .clear ∉ commands) :
    (session.executeAll commands).engine.bindings
      = session.engine.bindings.setTo session.memory
          (session.numbersStored commands).getLast? := by
  induction commands generalizing session with
  | nil => rfl
  | cons command rest ih =>
    have hcommand : command ≠ .clear := ne_of_mem_of_not_mem List.mem_cons_self h
    have hrest := ih (session.execute command) fun hmem => h (List.mem_cons_of_mem _ hmem)
    show ((session.execute command).executeAll rest).engine.bindings = _
    rw [hrest, bindings_execute session hcommand, memory_execute, Bindings.setTo_setTo,
      getLast?_numbersStored_cons]

/-- **An error is not stored**: neither the stack nor a variable changes. -/
theorem engine_execute_storeMemory_of_error {session : Session} {error : EvalError}
    (h : session.display = .error error) :
    (session.execute .storeMemory).engine = session.engine := by
  show session.stored = _
  rw [stored, h]

/-! ## Runs -/

section

variable (session : Session) {commands : List Command} (h : .clear ∉ commands)

include h

/-- The memory has the number that was stored last, or its value from
before. -/
theorem memoryValue?_executeAll :
    (session.executeAll commands).memoryValue?
      = (session.numbersStored commands).getLast?.or session.memoryValue? := by
  rw [memoryValue?, memory_executeAll, Engine.valueOf?, bindings_executeAll session h,
    Bindings.get?_setTo_self]
  rfl

/-- Any other variable has its value from before. -/
theorem valueOf?_executeAll {name : String} (hname : name ≠ session.memory) :
    (session.executeAll commands).engine.valueOf? name = session.engine.valueOf? name := by
  rw [Engine.valueOf?, bindings_executeAll session h, Bindings.get?_setTo_of_ne _ _ _ hname]
  rfl

end

/-- **What the memory holds after a run**, and what happened to the other
variables.

Without clearing, the memory has the number that was on the display just
before the last store that found one there; if there was none it has the
value it had at the start, as every other variable does. With clearing, the
same holds of the part of the run after the last time, at the start of which
no variable is set. A store that finds an error on the display, after
whatever run, changes nothing in the engine. -/
theorem memory_holds_last_number_stored (session : Session) (commands : List Command) :
    let after := session.executeAll commands
    (.clear ∉ commands →
      after.memoryValue? = (session.numbersStored commands).getLast?.or session.memoryValue?
      ∧ ∀ name, name ≠ session.memory →
          after.engine.valueOf? name = session.engine.valueOf? name)
    ∧ (.clear ∈ commands → ∃ earlier later,
        commands = earlier ++ .clear :: later ∧ .clear ∉ later
        ∧ after.memoryValue?
          = (((session.executeAll earlier).execute .clear).numbersStored later).getLast?
        ∧ ∀ name, name ≠ session.memory → after.engine.valueOf? name = none)
    ∧ ∀ error, after.display = .error error →
        (after.execute .storeMemory).engine = after.engine := by
  intro after
  refine ⟨fun h => ⟨memoryValue?_executeAll session h, fun _ => valueOf?_executeAll session h⟩,
    ?cleared, fun _ => engine_execute_storeMemory_of_error⟩
  case cleared =>
    intro hmem
    -- the last time that something was cleared is the first one from the end
    obtain ⟨laterReversed, earlierReversed, hreversed, hlater⟩ :=
      List.eq_append_cons_of_mem (List.mem_reverse.mpr hmem)
    have hcommands : commands = earlierReversed.reverse ++ .clear :: laterReversed.reverse := by
      rw [← List.reverse_reverse commands, hreversed, List.reverse_append, List.reverse_cons,
        List.append_assoc]
      rfl
    have hnone : .clear ∉ laterReversed.reverse := fun h => hlater (List.mem_reverse.mp h)
    let cleared := (session.executeAll earlierReversed.reverse).execute .clear
    have hafter : after = cleared.executeAll laterReversed.reverse := by
      show session.executeAll commands = _
      rw [hcommands, executeAll_append]
      rfl
    have hmemory : cleared.memory = session.memory := by rw [memory_execute, memory_executeAll]
    refine ⟨_, _, hcommands, hnone, ?_, fun name hname => ?_⟩
    · rw [hafter, memoryValue?_executeAll cleared hnone]
      exact Option.or_none
    · rw [hafter, valueOf?_executeAll cleared hnone (hmemory ▸ hname)]
      rfl

/-- On a stack that reads the memory, each store brings up the number that
the next one takes. -/
example : (start ⟨[.binary .add, .operand 1, .var "M"], .empty⟩ "M").numbersStored
    [.storeMemory, .storeMemory, .storeMemory] = [0, 1, 2] := by decide +kernel

end Session

end Rpn
