import Rpn.Number.Numeral

/-!
# Commands

A line of input is a sequence of words, and every word is a **command**.
What a word means depends on one thing besides its text, the name of the
memory variable. The rules are tried in this order:

1. A numeral that denotes a finite number is an operand, whatever else it
   might be.
2. The name of the memory recalls it, and the name after an arrow – `→` or
   `>` – stores into it.
3. `undo`, and `C` or `clear`, are commands.
4. Anything else is a symbol. A symbol that is hard to type has a second
   spelling, which stands for it here.

The order matters for a memory with an unusual name. One called `1` can be
stored into but not recalled; one called `undo` takes the word for itself.
-/

namespace Rpn

/-- **What one word of input asks for.** -/
inductive Command where
  /-- Enter a number. -/
  | operand (value : Float)
  /-- Enter the memory variable. -/
  | recallMemory
  /-- Store the displayed number into the memory. -/
  | storeMemory
  /-- Take back what was entered last. -/
  | undo
  /-- Start over. -/
  | clear
  /-- Enter what a symbol stands for. -/
  | symbol (symbol : String)
deriving BEq, Repr

namespace Command

/-- The words that store into a memory. -/
def storeWords (memory : String) : List String := ["→" ++ memory, ">" ++ memory]

/-- **The symbol a keyboard spelling stands for**; every other word is its
own symbol. -/
def symbolOfSpelling : String → String
  | "sqrt" => "√"
  | "*" => "×"
  | "/" => "÷"
  | "-" => "−"
  | "pi" => "π"
  | "neg" => "±"
  | word => word

/-- **The command a word is, numerals aside.** -/
def ofName (memory word : String) : Command :=
  if word = memory then recallMemory
  else if word ∈ storeWords memory then storeMemory
  else if word = "undo" then undo
  else if word = "C" ∨ word = "clear" then clear
  else symbol (symbolOfSpelling word)

/-- **The command a word is**, for a memory variable of a given name. -/
def ofWord (memory word : String) : Command :=
  match Numeral.floatOf? word with
  | some value => operand value
  | none => ofName memory word

end Command

end Rpn
