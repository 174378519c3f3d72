import Rpn.Stack.Builtin

/-!
# The vocabulary of a console

What can be typed as a single word, numerals aside: the built-in symbols,
the commands, the spellings of the symbols that are hard to type, and the
two words for the memory. The words come in the order of their code points.
A memory named like one of the other words puts that word on the list a
second time, since it is then a word for two reasons.

Spellings of one character are left out. They are no shorter to complete
than to type.
-/

namespace Rpn

/-- The words that are commands, or spell a symbol, whatever the memory is
called. -/
def fixedWords : List String := ["undo", "clear", "sqrt", "pi", "neg"]

/-- **The vocabulary**, for a memory variable of a given name, in order. -/
def vocabulary (memory : String) : List String :=
  (builtinSymbols ++ fixedWords ++ [memory, "→" ++ memory]).mergeSort fun a b => a ≤ b

/-- The order is only an order: no word comes or goes. -/
theorem mem_vocabulary {memory word : String} :
    word ∈ vocabulary memory
      ↔ word ∈ builtinSymbols ∨ word ∈ fixedWords ∨ word = memory ∨ word = "→" ++ memory := by
  simp [vocabulary]

end Rpn
