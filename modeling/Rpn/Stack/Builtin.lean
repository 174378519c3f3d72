import Rpn.Stack.Operation

/-!
# Built-in symbols

Eight operators and one constant are known by a symbol. The list of them is
the whole table: what a symbol means is found by looking for the operation
that is shown as it, so an operation is always entered as it is shown.
-/

namespace Rpn

/-- The ratio of a circle to its diameter, as the nearest double. -/
def pi : Float := 3.141592653589793

/-- **The built-in operations.** -/
def builtins : List Operation :=
  [.unary .sqrt, .unary .sin, .unary .cos, .unary .negate,
   .binary .multiply, .binary .add, .binary .divide, .binary .subtract,
   .constant "π" pi]

/-- **The operation a symbol stands for**, if it is built in. -/
def builtin? (symbol : String) : Option Operation :=
  builtins.find? fun operation => operation.text == symbol

/-- The symbols of the built-in operations. -/
def builtinSymbols : List String := builtins.map Operation.text

/-- **A built-in operation** is an operator, or the constant. -/
theorem unary_or_binary_or_pi_of_mem_builtins {operation : Operation} (h : operation ∈ builtins) :
    (∃ op, operation = .unary op) ∨ (∃ op, operation = .binary op)
      ∨ operation = .constant "π" pi := by
  simp only [builtins, List.mem_cons, List.not_mem_nil, or_false] at h
  obtain rfl | rfl | rfl | rfl | rfl | rfl | rfl | rfl | rfl := h <;> simp

/-- **A built-in operation is found by its symbol.** -/
theorem builtin?_text {operation : Operation} (h : operation ∈ builtins) :
    builtin? operation.text = some operation := by
  obtain ⟨op, rfl⟩ | ⟨op, rfl⟩ | rfl := unary_or_binary_or_pi_of_mem_builtins h
  · cases op <;> rfl
  · cases op <;> rfl
  · rfl

/-- **What a symbol stands for is built in.** -/
theorem mem_builtins_of_builtin? {symbol : String} {operation : Operation}
    (h : builtin? symbol = some operation) : operation ∈ builtins :=
  List.mem_of_find?_eq_some h

/-- The constant is the double usually meant by its symbol. -/
example : pi.toBits = 0x400921FB54442D18 := by decide +kernel

/-- The nine symbols are distinct. -/
example : builtinSymbols.Nodup := by decide

end Rpn
