import Rpn.Proofs.Number.Status
import Rpn.Proofs.Session.Run

/-!
# The display is up to date

The display of a session is part of its state. It is written by every
command, in one of three ways, and it is not only shown: the next command
may store it. So it has to agree with the stack at all times, also after a
command that changes a variable and leaves the stack alone.

It does, from the first command on. Whatever is on the stack, the display is
the outcome of it (`Step.display_eq_evaluate`). If nothing is, it is a
finite number that was shown before, or an error that only a symbol without
a meaning can bring up (`Step.display_of_stack_eq_nil`). A session that was
just started need not agree with its stack, but it shows a number that is
finite, and that is what is kept from there on (`ShowsFinite.executeAll`):
no command ever shows an infinity or what is not a number, or stores it.
-/

namespace Rpn

/-- **A value that can be shown is finite.** -/
theorem Outcome.isFinite_of_ofValue_eq_ok {value shown : Float}
    (h : Outcome.ofValue value = .ok shown) : shown.isFinite = true := by
  unfold Outcome.ofValue at h
  split at h
  · rename_i negative rank hrank hview
    obtain rfl := Except.ok.inj h
    exact Binary64.isFinite_iff.mpr ⟨negative, rank, hrank, hview⟩
  · cases h
  · cases h

/-- The outcome of a stack is finite, if it is a number. -/
theorem Engine.isFinite_of_evaluate_eq_ok {engine : Engine} {value : Float}
    (h : engine.evaluate = .ok value) : value.isFinite = true := by
  rw [evaluate, outcome] at h
  cases htop : evaluateTop engine.bindings engine.stack with
  | error error => rw [htop] at h; cases h
  | ok evaluated =>
    rw [htop] at h
    exact Outcome.isFinite_of_ofValue_eq_ok h

namespace Session

/-! ## Showing the outcome again -/

/-- Where there is something to evaluate, its outcome is shown. -/
theorem refreshed_of_stack_ne_nil {engine : Engine} (h : engine.stack ≠ []) (display : Outcome) :
    refreshed engine display = engine.evaluate := by
  obtain ⟨operation, below, hstack⟩ := List.exists_cons_of_ne_nil h
  unfold refreshed
  rw [hstack]

/-- **Where there is nothing to evaluate, a number is shown**: the one that
was shown before, or zero. -/
theorem refreshed_of_stack_eq_nil {engine : Engine} (h : engine.stack = [])
    (display : Outcome) :
    ∃ value, refreshed engine display = .ok value ∧ (display = .ok value ∨ value = 0) := by
  unfold refreshed
  rw [h]
  cases display with
  | ok value => exact ⟨value, rfl, .inl rfl⟩
  | error error => exact ⟨0, rfl, .inr rfl⟩

/-! ## One command -/

/-- **The display shows no infinity, and nothing that is not a number.** -/
def ShowsFinite (session : Session) : Prop :=
  ∀ value, session.display = .ok value → value.isFinite = true

/-- The display at the start is finite. -/
theorem isFinite_zero : (0 : Float).isFinite = true := by decide +kernel

theorem showsFinite_start (engine : Engine) (memory : String) :
    (start engine memory).ShowsFinite := by
  intro value h
  obtain rfl := Except.ok.inj h
  exact isFinite_zero

/-- Refreshing an empty stack shows a finite number. -/
theorem exists_display_refresh {session : Session} (finite : session.ShowsFinite)
    {engine : Engine} (h : engine.stack = []) :
    ∃ value, (session.refresh engine).display = .ok value ∧ value.isFinite = true := by
  obtain ⟨value, hvalue, hshown | rfl⟩ := refreshed_of_stack_eq_nil h session.display
  · exact ⟨value, hvalue, finite value hshown⟩
  · exact ⟨0, hvalue, isFinite_zero⟩

namespace Step

variable {session next : Session} {command : Command}

/-- **After every command the display is the outcome of the stack**, if
there is anything on it. -/
theorem display_eq_evaluate (step : Step session command next) (h : next.engine.stack ≠ []) :
    next.display = next.engine.evaluate := by
  cases step with
  | entry _ => rfl
  | ignored _ => rfl
  | store => exact refreshed_of_stack_ne_nil h _
  | undo => exact refreshed_of_stack_ne_nil h _
  | clear => exact absurd rfl h

/-- **The display of an empty stack is a finite number**, or says that there
is nothing to evaluate, if a symbol without a meaning asked for it. -/
theorem display_of_stack_eq_nil (step : Step session command next)
    (finite : session.ShowsFinite) (h : next.engine.stack = []) :
    (∃ value, next.display = .ok value ∧ value.isFinite = true)
      ∨ next.display = .error .nothingToEvaluate
        ∧ ∃ symbol, command = .symbol symbol ∧ builtin? symbol = none := by
  cases step with
  | entry _ => cases h
  | @ignored symbol hsymbol =>
    refine .inr ⟨?_, symbol, rfl, hsymbol⟩
    show outcome session.engine.bindings session.engine.stack = _
    rw [outcome, show session.engine.stack = [] from h, evaluateTop_nil]
    rfl
  | store => exact .inl (exists_display_refresh finite h)
  | undo => exact .inl (exists_display_refresh finite h)
  | clear => exact .inl ⟨0, rfl, isFinite_zero⟩

/-- **A display that is finite stays finite.** -/
theorem showsFinite (step : Step session command next) (finite : session.ShowsFinite) :
    next.ShowsFinite := by
  intro value hvalue
  by_cases h : next.engine.stack = []
  · obtain ⟨shown, hshown, hfinite⟩ | ⟨herror, -⟩ := step.display_of_stack_eq_nil finite h
    · obtain rfl := Except.ok.inj (hvalue.symm.trans hshown)
      exact hfinite
    · cases hvalue.symm.trans herror
  · rw [step.display_eq_evaluate h] at hvalue
    exact Engine.isFinite_of_evaluate_eq_ok hvalue

end Step

/-! ## Runs -/

variable {session : Session}

/-- **A display that is finite stays finite** over a whole run. -/
theorem ShowsFinite.executeAll (finite : session.ShowsFinite) (commands : List Command) :
    (session.executeAll commands).ShowsFinite := by
  induction commands using List.reverseRecOn with
  | nil => exact finite
  | append_singleton commands last ih =>
    rw [executeAll_concat]
    exact (step_execute _ last).showsFinite ih

/-- **After a run the display is the outcome of the stack**, if there is
anything on it. -/
theorem display_executeAll {commands : List Command} (hne : commands ≠ [])
    (h : (session.executeAll commands).engine.stack ≠ []) :
    (session.executeAll commands).display = (session.executeAll commands).engine.evaluate := by
  obtain ⟨earlier, last, rfl⟩ := List.eq_nil_or_concat commands |>.resolve_left hne
  rw [List.concat_eq_append, executeAll_concat] at h ⊢
  exact (step_execute _ last).display_eq_evaluate h

/-- **After a run an empty stack shows a finite number**, or that there is
nothing to evaluate, if the last command was a symbol without a meaning. -/
theorem display_executeAll_of_stack_eq_nil (finite : session.ShowsFinite)
    {commands : List Command} (hne : commands ≠ [])
    (h : (session.executeAll commands).engine.stack = []) :
    (∃ value, (session.executeAll commands).display = .ok value ∧ value.isFinite = true)
      ∨ (session.executeAll commands).display = .error .nothingToEvaluate
        ∧ ∃ symbol, commands.getLast? = some (.symbol symbol) ∧ builtin? symbol = none := by
  obtain ⟨earlier, last, rfl⟩ := List.eq_nil_or_concat commands |>.resolve_left hne
  rw [List.concat_eq_append, executeAll_concat] at h ⊢
  refine ((step_execute _ last).display_of_stack_eq_nil (finite.executeAll earlier) h).imp_right ?_
  rintro ⟨herror, symbol, rfl, hsymbol⟩
  exact ⟨herror, symbol, List.getLast?_concat, hsymbol⟩

/-- **What storing does to the variables**: it sets the memory to the number
on the display, and does nothing if there is none. -/
theorem bindings_execute_storeMemory (session : Session) :
    (session.execute .storeMemory).engine.bindings
      = match session.display with
        | .ok value => session.engine.bindings.set session.memory value
        | .error _ => session.engine.bindings := by
  show session.stored.bindings = _
  rw [stored]
  cases session.display <;> rfl

/-- **The display never goes stale.** However a session was started, and
whatever it was given since, be it commands or lines of them: if there is
anything on the stack, the display is its outcome under the variables as
they are; if there is nothing, the display is a finite number, or says so,
which takes a symbol without a meaning as the last command. No number on the
display is an infinity or none at all, and neither is one that was ever
stored on the way. -/
theorem display_never_stale (engine : Engine) (memory : String) (inputs : List Input)
    (hne : inputs.flatMap (Input.commands memory) ≠ []) :
    let session := (start engine memory).giveAll inputs
    let commands := inputs.flatMap (Input.commands memory)
    (session.engine.stack ≠ [] → session.display = session.engine.evaluate)
    ∧ (session.engine.stack = [] →
      (∃ value, session.display = .ok value ∧ value.isFinite = true)
        ∨ session.display = .error .nothingToEvaluate
          ∧ ∃ symbol, commands.getLast? = some (.symbol symbol) ∧ builtin? symbol = none)
    ∧ (∀ value, session.display = .ok value → value.isFinite = true)
    ∧ ∀ earlier later, commands = earlier ++ .storeMemory :: later →
      let before := (start engine memory).executeAll earlier
      let after := before.execute .storeMemory
      match before.display with
      | .ok value => value.isFinite = true
          ∧ after.engine.bindings = before.engine.bindings.set memory value
      | .error _ => after.engine.bindings = before.engine.bindings := by
  intro session commands
  have hsession : session = (start engine memory).executeAll commands :=
    giveAll_eq_executeAll (start engine memory) inputs
  have finite := showsFinite_start engine memory
  rw [hsession]
  refine ⟨display_executeAll hne, display_executeAll_of_stack_eq_nil finite hne,
    finite.executeAll commands, ?_⟩
  intro earlier later _ before after
  have hstored := bindings_execute_storeMemory before
  have hfinite := finite.executeAll earlier
  rw [show before.memory = memory from memory_executeAll _ _] at hstored
  cases hdisplay : before.display with
  | ok value =>
    rw [hdisplay] at hstored
    exact ⟨hfinite value hdisplay, hstored⟩
  | error error =>
    rw [hdisplay] at hstored
    exact hstored

/-- A session on a stack that reads the memory starts with a display that is
not the outcome of the stack. Stored twice, by a word of a line and by a
command, the display is the outcome each time, and so is what is stored. -/
theorem display_never_stale_of_memory_read :
    [Input.line "\u2003→M", .command .storeMemory].flatMap (Input.commands "M") ≠ []
    ∧ (start ⟨[.binary .add, .operand 1, .var "M"], .empty⟩ "M").display
      ≠ (start ⟨[.binary .add, .operand 1, .var "M"], .empty⟩ "M").engine.evaluate
    ∧ ((start ⟨[.binary .add, .operand 1, .var "M"], .empty⟩ "M").giveAll
        [.line "\u2003→M", .command .storeMemory]).display = .ok 2
    ∧ ((start ⟨[.binary .add, .operand 1, .var "M"], .empty⟩ "M").giveAll
        [.line "\u2003→M", .command .storeMemory]).memoryValue? = some 1 := by
  have hne : [Input.line "\u2003→M", .command .storeMemory].flatMap (Input.commands "M") ≠ [] := by
    simp [Input.commands]
  obtain ⟨houtcome, -, -, -⟩ := display_never_stale
    ⟨[.binary .add, .operand 1, .var "M"], .empty⟩ "M" _ hne
  refine ⟨hne, by decide +kernel, ?_, by decide +kernel⟩
  rw [houtcome (by decide +kernel)]
  decide +kernel

end Session

end Rpn
