import Rpn.Proofs.Evaluation.Binding
import Rpn.Proofs.Session.Memory

/-!
# What storing leaves alone

Storing a number changes a variable that the stack may refer to, and so it
may change what the display shows – on the very stack whose outcome was
stored. The question is which of the operations on the stack matter. It is
those that evaluation consumes, and no others: an older expression may read
the memory as often as it likes. If none of the consumed operations is the
memory, a store changes one variable of the session and nothing else
(`execute_storeMemory_of_unread`).

That a display is stored twice makes no difference then, as the second store
finds everything as it would leave it (`execute_storeMemory_of_stored`). An
error is not stored, but it may still go away, if there is nothing on the
stack that could bring it up again.
-/

namespace Rpn

namespace Session

/-- **A session whose display is the outcome of its stack**, if there is
anything on that. -/
def UpToDate (session : Session) : Prop :=
  session.engine.stack ≠ [] → session.display = session.engine.evaluate

/-- **A session is up to date from the first command on.** -/
theorem upToDate_executeAll (session : Session) {commands : List Command} (hne : commands ≠ []) :
    (session.executeAll commands).UpToDate :=
  display_executeAll hne

section

variable {session : Session} {value : Float}

/-- **A number that is shown stays shown**, where nothing on the stack says
otherwise. -/
theorem refresh_of_display_eq_ok {engine : Engine} (h : session.display = .ok value)
    (same : engine.stack ≠ [] → engine.evaluate = .ok value) :
    session.refresh engine = { session with engine } := by
  have hshown : refreshed engine session.display = session.display := by
    by_cases hstack : engine.stack = []
    · rw [h]
      unfold refreshed
      rw [hstack]
    · rw [refreshed_of_stack_ne_nil hstack, same hstack, h]
  rw [refresh, hshown]

/-- **A store of a number that is not read changes the memory alone.** -/
theorem execute_storeMemory_of_unread (upToDate : session.UpToDate)
    (h : session.display = .ok value)
    (unread : session.engine.stack = [] ∨ .var session.memory ∉ session.engine.consumed) :
    session.execute .storeMemory
      = { session with engine := session.engine.setVariable session.memory value } := by
  have hstored : session.stored = session.engine.setVariable session.memory value := by
    rw [stored, h]
  show session.refresh session.stored = _
  rw [hstored]
  refine refresh_of_display_eq_ok h fun hstack => ?_
  have hread := unread.resolve_left hstack
  -- the variables that are looked up are others, and have the values they had
  have hsame : (session.engine.setVariable session.memory value).evaluate
      = session.engine.evaluate :=
    outcome_congr_of_consumed fun name hname =>
      Bindings.get?_set_of_ne _ value fun heq => hread (heq ▸ hname)
  rw [hsame, ← upToDate hstack, h]

/-- **A store of what is stored already changes nothing.** -/
theorem execute_storeMemory_of_stored (upToDate : session.UpToDate)
    (h : session.display = .ok value) (hmemory : session.memoryValue? = some value) :
    session.execute .storeMemory = session := by
  have hbindings : session.engine.bindings.set session.memory value = session.engine.bindings :=
    Bindings.set_of_get? hmemory
  have hstored : session.stored = session.engine := by
    rw [stored, h]
    exact congrArg (Engine.mk session.engine.stack) hbindings
  show session.refresh session.stored = _
  rw [hstored]
  exact refresh_of_display_eq_ok h fun hstack => (upToDate hstack).symm.trans h

/-- So do any number of them. -/
theorem executeAll_replicate_storeMemory (upToDate : session.UpToDate)
    (h : session.display = .ok value) (hmemory : session.memoryValue? = some value)
    (times : Nat) : session.executeAll (List.replicate times .storeMemory) = session := by
  induction times with
  | zero => rfl
  | succ times ih =>
    show (session.execute .storeMemory).executeAll (List.replicate times .storeMemory) = session
    rw [execute_storeMemory_of_stored upToDate h hmemory, ih]

variable {error : EvalError}

/-- **An error of a stack stays**, and a store of it changes nothing. -/
theorem execute_storeMemory_of_error (upToDate : session.UpToDate)
    (h : session.display = .error error) (hstack : session.engine.stack ≠ []) :
    session.execute .storeMemory = session := by
  have hstored : session.stored = session.engine := engine_execute_storeMemory_of_error h
  have hshown : refreshed session.engine session.display = session.display := by
    rw [refreshed_of_stack_ne_nil hstack, ← upToDate hstack]
  show session.refresh session.stored = _
  rw [hstored, refresh, hshown]

/-- **An error of an empty stack goes away**, and nothing else changes. -/
theorem execute_storeMemory_of_error_of_stack_eq_nil (h : session.display = .error error)
    (hstack : session.engine.stack = []) :
    session.execute .storeMemory = { session with display := .ok 0 } := by
  have hstored : session.stored = session.engine := engine_execute_storeMemory_of_error h
  have hshown : refreshed session.engine session.display = .ok 0 := by
    rw [h]
    unfold refreshed
    rw [hstack]
    rfl
  show session.refresh session.stored = _
  rw [hstored, refresh, hshown]

end

/-- **Storing disturbs nothing that does not read the memory.**

In a session that was given at least one command, let the display be a
number, and let the stack be empty or the memory be none of the operations
that evaluation consumes. Then a store gives the memory that number, and the
display, the stack, the line above the result and all other variables are as
they were; further stores change nothing at all. If the display is an error,
a store leaves the session as it is, unless the stack is empty: then it brings
the display back to zero, and does nothing else. -/
theorem store_disturbs_readers_only (engine : Engine) (memory : String) (inputs : List Input)
    (hne : inputs.flatMap (Input.commands memory) ≠ []) :
    let session := (start engine memory).giveAll inputs
    let after := session.execute .storeMemory
    (∀ value, session.display = .ok value →
      session.engine.stack = [] ∨ .var memory ∉ session.engine.consumed →
      after.display = .ok value
      ∧ after.memoryValue? = some value
      ∧ after.engine.stack = session.engine.stack
      ∧ after.history = session.history
      ∧ after = { session with engine := session.engine.setVariable memory value }
      ∧ ∀ times, after.executeAll (List.replicate times .storeMemory) = after)
    ∧ ∀ error, session.display = .error error →
      (session.engine.stack ≠ [] → after = session)
      ∧ (session.engine.stack = [] → after = { session with display := .ok 0 }) := by
  intro session after
  have hsession : session = (start engine memory).executeAll _ :=
    giveAll_eq_executeAll (start engine memory) inputs
  have hmemory : session.memory = memory := by
    rw [hsession, memory_executeAll]
    rfl
  have upToDate : session.UpToDate := hsession ▸ upToDate_executeAll _ hne
  refine ⟨fun value h unread => ?number, fun error h => ⟨?error, ?nothing⟩⟩
  case number =>
    have hafter : after
        = { session with engine := session.engine.setVariable memory value } := by
      rw [← hmemory] at unread ⊢
      exact execute_storeMemory_of_unread upToDate h unread
    have hdisplay : after.display = .ok value := by rw [hafter]; exact h
    have hstored : after.memoryValue? = some value := by
      rw [hafter, memoryValue?, hmemory]
      exact Bindings.get?_set_self _ memory value
    have upToDate' : after.UpToDate := (step_execute session .storeMemory).display_eq_evaluate
    refine ⟨hdisplay, hstored, ?_, ?_, hafter, executeAll_replicate_storeMemory upToDate' hdisplay
      hstored⟩
    · rw [hafter]
      rfl
    · rw [hafter]
      rfl
  case error => exact execute_storeMemory_of_error upToDate h
  case nothing => exact execute_storeMemory_of_error_of_stack_eq_nil h

/-- The memory is on the stack, but below the expression that is shown. -/
theorem store_disturbs_readers_only_below_sum :
    [Input.command .recallMemory, .command (.operand 1), .command (.operand 2),
      .command (.symbol "+")].flatMap (Input.commands "M") ≠ []
    ∧ let session := (start .empty "M").giveAll [.command .recallMemory, .command (.operand 1),
        .command (.operand 2), .command (.symbol "+")]
      session.engine.stack = [.binary .add, .operand 2, .operand 1, .var "M"]
      ∧ session.display = .ok 3
      ∧ (session.execute .storeMemory).display = .ok 3
      ∧ (session.execute .storeMemory).memoryValue? = some 3 := by
  have hne : [Input.command .recallMemory, .command (.operand 1), .command (.operand 2),
      .command (.symbol "+")].flatMap (Input.commands "M") ≠ [] := by
    simp [Input.commands]
  obtain ⟨hnumber, -⟩ := store_disturbs_readers_only .empty "M" _ hne
  have hdisplay : ((start .empty "M").giveAll [.command .recallMemory, .command (.operand 1),
      .command (.operand 2), .command (.symbol "+")]).display = .ok 3 := by
    decide +kernel
  have hconsumed : ((start .empty "M").giveAll [.command .recallMemory, .command (.operand 1),
      .command (.operand 2), .command (.symbol "+")]).engine.consumed
      = [.binary .add, .operand 2, .operand 1] := by rfl
  obtain ⟨hshown, hstored, -⟩ := hnumber 3 hdisplay (.inr (by rw [hconsumed]; simp))
  exact ⟨hne, by rfl, hdisplay, hshown, hstored⟩

end Session

end Rpn
