import Rpn.Proofs.Session.Display

/-!
# Undoing

Undoing removes the newest operation, whether that was entered by this run
or was on the stack before, and whatever its evaluation came to. So in a run
of entries and undos each undo cancels the nearest entry before it that is
not cancelled yet, and what is left of the run are some undos that found no
entry, followed by entries. A symbol without a meaning is neither, and
leaves nothing.

`Residue` is what is left, and `Residue.ofCommands` finds it by going through
the run once. The residue says what the run does to the engine
(`engine_executeAll_eq_applied`): the undos that are left take operations
off the stack there was – as many as there are, and no more – and the
entries are put on what remains.

The run and its residue lead to the same engine, so to the same description
and, after at least one command and with anything on the stack, to the same
display. With nothing on the stack the displays can differ: an undo that
empties the stack leaves the number that was shown before.
-/

namespace Rpn

/-! ## What is left of a run -/

/-- **What is left of a run** of entries and undos. -/
structure Residue (memory : String) where
  /-- How many undos found no entry before them. -/
  undos : Nat
  /-- The entries that no undo cancelled, oldest first. -/
  entries : List Command
  /-- Each of them enters an operation. -/
  enters : ∀ entry ∈ entries, (entry.entered? memory).isSome = true

namespace Residue

variable {memory : String}

/-- Nothing is left. -/
def empty : Residue memory := ⟨0, [], nofun⟩

/-- **The commands that are left**: undos, and then entries. -/
def commands (kept : Residue memory) : List Command :=
  List.replicate kept.undos .undo ++ kept.entries

/-- **One more undo** cancels the newest entry, or is left if there is
none. -/
def undo (kept : Residue memory) : Residue memory :=
  if kept.entries = [] then { kept with undos := kept.undos + 1 }
  else
    { kept with
      entries := kept.entries.dropLast
      enters := fun entry hmem => kept.enters entry (List.dropLast_subset _ hmem) }

/-- **One more entry** is left, unless it is a symbol without a meaning. -/
def enter (kept : Residue memory) (entry : Command) : Residue memory :=
  if h : (entry.entered? memory).isSome = true then
    { kept with
      entries := kept.entries ++ [entry]
      enters := by
        intro other hmem
        obtain hmem | hmem := List.mem_append.mp hmem
        · exact kept.enters other hmem
        · rw [List.mem_singleton.mp hmem]
          exact h }
  else kept

/-- What is left after one more command. -/
def after (kept : Residue memory) : Command → Residue memory
  | .undo => kept.undo
  | entry => kept.enter entry

/-- **What is left of commands.** -/
def ofCommands (memory : String) (commands : List Command) : Residue memory :=
  commands.foldl after empty

/-- **The operations that are left**, oldest first. -/
def operations (kept : Residue memory) : List Operation :=
  kept.entries.filterMap (Command.entered? memory)

/-- **An engine after what is left of a run.** -/
def applied (kept : Residue memory) (engine : Engine) : Engine :=
  ⟨kept.operations.reverse ++ engine.stack.drop kept.undos, engine.bindings⟩

variable (kept : Residue memory) (engine : Engine)

/-- An undo that cancels an entry takes its operation off again; one that is
left takes an operation off the stack there was. -/
theorem applied_undo : kept.undo.applied engine = (kept.applied engine).pop := by
  unfold undo
  split
  · rename_i hnil
    have hoperations : kept.operations = [] := by rw [operations, hnil, List.filterMap_nil]
    show (⟨kept.operations.reverse ++ engine.stack.drop (kept.undos + 1), engine.bindings⟩ : Engine)
      = ⟨(kept.operations.reverse ++ engine.stack.drop kept.undos).tail, engine.bindings⟩
    rw [hoperations, List.reverse_nil, List.nil_append, List.nil_append, List.tail_drop]
  · rename_i hne
    -- the newest entry that is left has the newest operation on the stack
    obtain ⟨operation, hlast⟩ := Option.isSome_iff_exists.mp
      (kept.enters _ (List.getLast_mem hne))
    have hoperations : kept.operations
        = kept.entries.dropLast.filterMap (Command.entered? memory) ++ [operation] := by
      rw [operations, ← List.filterMap_nil (f := Command.entered? memory),
        ← List.filterMap_cons_some hlast, ← List.filterMap_append, List.dropLast_concat_getLast]
    show (⟨(kept.entries.dropLast.filterMap (Command.entered? memory)).reverse
        ++ engine.stack.drop kept.undos, engine.bindings⟩ : Engine)
      = ⟨(kept.operations.reverse ++ engine.stack.drop kept.undos).tail, engine.bindings⟩
    rw [hoperations, List.reverse_append]
    rfl

/-- An entry that is left is on top of the stack. -/
theorem applied_enter {entry : Command} {operation : Operation}
    (h : entry.entered? memory = some operation) :
    (kept.enter entry).applied engine = (kept.applied engine).push operation := by
  have hsome : (entry.entered? memory).isSome = true := by rw [h]; rfl
  have hoperations : (kept.enter entry).operations = kept.operations ++ [operation] := by
    rw [enter, dif_pos hsome]
    show (kept.entries ++ [entry]).filterMap (Command.entered? memory) = _
    rw [List.filterMap_append, List.filterMap_cons_some h]
    rfl
  have hundos : (kept.enter entry).undos = kept.undos := by rw [enter, dif_pos hsome]
  rw [applied, hoperations, hundos, List.reverse_append]
  rfl

/-- A command that enters nothing leaves nothing. -/
theorem enter_of_entered?_eq_none {entry : Command} (h : entry.entered? memory = none) :
    kept.enter entry = kept := by
  rw [enter, dif_neg]
  rw [h]
  exact Bool.false_ne_true

/-- **The operations after what is left of a run**, oldest first. -/
theorem operations_applied :
    (kept.applied engine).operations
      = engine.operations.take (engine.depth - min kept.undos engine.depth)
        ++ kept.operations := by
  have hcount : engine.depth - min kept.undos engine.depth
      = engine.stack.length - kept.undos := by
    unfold Engine.depth
    omega
  rw [hcount, Engine.operations, Engine.operations, applied, List.reverse_append,
    List.reverse_reverse, List.reverse_drop]

end Residue

namespace Session

/-! ## Runs of entries and undos -/

/-- **A command of such a run does to the engine what it does to the
residue.** -/
theorem engine_execute_eq_applied {session : Session} {engine : Engine}
    {kept : Residue session.memory} (h : session.engine = kept.applied engine)
    {command : Command} (hstore : command ≠ .storeMemory) (hclear : command ≠ .clear) :
    (session.execute command).engine = (kept.after command).applied engine := by
  have step := step_execute session command
  generalize session.execute command = next at step ⊢
  cases step with
  | @entry _ operation hentry =>
    have hafter : kept.after command = kept.enter command := by
      cases command with
      | undo => cases hentry
      | _ => rfl
    rw [hafter, kept.applied_enter engine hentry, ← h]
    rfl
  | @ignored symbol hsymbol =>
    have hafter : kept.after (.symbol symbol) = kept := kept.enter_of_entered?_eq_none hsymbol
    rw [hafter, ← h]
    rfl
  | store => exact absurd rfl hstore
  | undo =>
    rw [show kept.after .undo = kept.undo from rfl, kept.applied_undo, ← h]
    rfl
  | clear => exact absurd rfl hclear

/-- **What is left of a run of entries and undos says what the run does to
the engine.** -/
theorem engine_executeAll_eq_applied (session : Session) {commands : List Command}
    (hstore : .storeMemory ∉ commands) (hclear : .clear ∉ commands) :
    (session.executeAll commands).engine
      = (Residue.ofCommands session.memory commands).applied session.engine := by
  induction commands using List.reverseRecOn with
  | nil => rfl
  | append_singleton commands last ih =>
    -- the engine so far is what is left so far, applied to the one at the start
    have hbefore := ih (fun hmem => hstore (List.mem_append_left _ hmem))
      fun hmem => hclear (List.mem_append_left _ hmem)
    have hlast : last ∈ commands ++ [last] := List.mem_append_right _ List.mem_cons_self
    have hmemory := memory_executeAll session commands
    rw [← hmemory] at hbefore
    rw [executeAll_concat, engine_execute_eq_applied hbefore
      (ne_of_mem_of_not_mem hlast hstore) (ne_of_mem_of_not_mem hlast hclear), hmemory,
      Residue.ofCommands, Residue.ofCommands, List.foldl_append]
    rfl

/-- Undos take operations off the stack. -/
theorem engine_executeAll_undos (session : Session) (undos : Nat) :
    (session.executeAll (List.replicate undos .undo)).engine
      = ⟨session.engine.stack.drop undos, session.engine.bindings⟩ := by
  induction undos with
  | zero => rfl
  | succ undos ih =>
    rw [List.replicate_succ', executeAll_concat]
    show (session.executeAll (List.replicate undos .undo)).engine.pop = _
    rw [ih, Engine.pop, List.tail_drop]

/-- **Running only what is left does the same to the engine.** -/
theorem engine_executeAll_commands (session : Session) (kept : Residue session.memory) :
    (session.executeAll kept.commands).engine = kept.applied session.engine := by
  have hmemory := memory_executeAll session (List.replicate kept.undos .undo)
  rw [Residue.commands, executeAll_append, engine_executeAll_entries, hmemory,
    engine_executeAll_undos]
  · rfl
  · rw [hmemory]
    exact kept.enters

/-- **Undos cancel entries.** In a run of entries and undos, each undo
cancels the nearest entry before it. As many operations are taken off the
stack as undos are left, or all of them, and the operations of the entries
that are left are put on it; the variables are as they were. Running only
what is left leads to the same description, and to the same display unless
nothing was left to run or the stack ends empty.

In particular an entry is undone whatever its evaluation came to, and
undoing changes nothing on an empty stack. -/
theorem undo_cancels_entries (session : Session) (commands : List Command)
    (hstore : .storeMemory ∉ commands) (hclear : .clear ∉ commands) :
    let kept := Residue.ofCommands session.memory commands
    let after := session.executeAll commands
    let direct := session.executeAll kept.commands
    after.engine.operations
        = session.engine.operations.take
            (session.engine.depth - min kept.undos session.engine.depth)
          ++ kept.operations
    ∧ after.engine.bindings = session.engine.bindings
    ∧ after.history = direct.history
    ∧ (after.engine.stack ≠ [] → kept.commands ≠ [] → after.display = direct.display)
    ∧ (∀ entry operation, entry.entered? session.memory = some operation →
        ((after.execute entry).execute .undo).engine = after.engine)
    ∧ (after.engine.stack = [] → (after.execute .undo).engine = after.engine) := by
  intro kept after direct
  have hafter : after.engine = kept.applied session.engine :=
    engine_executeAll_eq_applied session hstore hclear
  have hsame : after.engine = direct.engine := by
    rw [hafter]
    exact (engine_executeAll_commands session kept).symm
  refine ⟨?stack, ?bindings, ?description, ?display, ?undone, ?bottom⟩
  case stack => rw [hafter, kept.operations_applied]
  case bindings =>
    rw [hafter]
    rfl
  case description => rw [history, history, hsame]
  case display =>
    intro hne hleft
    have hcommands : commands ≠ [] := by
      rintro rfl
      exact hleft rfl
    have hdirect : direct.engine.stack ≠ [] := hsame ▸ hne
    rw [show after.display = after.engine.evaluate from display_executeAll hcommands hne,
      show direct.display = direct.engine.evaluate from display_executeAll hleft hdirect, hsame]
  case undone =>
    intro entry operation hentry
    have hmemory : after.memory = session.memory := memory_executeAll session commands
    rw [← hmemory] at hentry
    show (after.execute entry).engine.pop = _
    rw [engine_execute_of_entered? hentry]
    rfl
  case bottom =>
    intro hempty
    show (⟨after.engine.stack.tail, after.engine.bindings⟩ : Engine) = ⟨after.engine.stack, _⟩
    rw [hempty]
    rfl

/-- Of three undos one cancels an entry, whose evaluation failed. Two are left,
though there is only one operation to take off. -/
theorem undo_cancels_entries_past_the_bottom :
    Command.storeMemory ∉ [.undo, .symbol "÷", .symbol "tan", .undo, .undo, .symbol "√",
        .recallMemory]
    ∧ Command.clear ∉ [.undo, .symbol "÷", .symbol "tan", .undo, .undo, .symbol "√",
        .recallMemory]
    ∧ ((start ⟨[.operand 7], .empty⟩ "M").executeAll [.undo, .symbol "÷", .symbol "tan",
        .undo, .undo, .symbol "√", .recallMemory]).engine.operations
      = [.unary .sqrt, .var "M"]
    ∧ ((start ⟨[.operand 7], .empty⟩ "M").executeAll [.undo, .symbol "÷", .symbol "tan",
        .undo, .undo, .symbol "√", .recallMemory]).display
      = ((start ⟨[.operand 7], .empty⟩ "M").executeAll [.undo, .undo, .symbol "√",
        .recallMemory]).display := by
  have hstore : Command.storeMemory ∉ [.undo, .symbol "÷", .symbol "tan", .undo, .undo,
      .symbol "√", .recallMemory] := by simp
  have hclear : Command.clear ∉ [.undo, .symbol "÷", .symbol "tan", .undo, .undo,
      .symbol "√", .recallMemory] := by simp
  obtain ⟨hstack, -, -, hdisplay, -⟩ :=
    undo_cancels_entries (start ⟨[.operand 7], .empty⟩ "M") _ hstore hclear
  exact ⟨hstore, hclear, hstack.trans rfl, hdisplay nofun nofun⟩

end Session

end Rpn
