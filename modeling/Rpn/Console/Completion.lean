import Rpn.Console.Vocabulary
import Rpn.Text.ByteOffset
import Rpn.Text.Words

/-!
# Completion

While a line is being typed, the word that ends at the cursor can be
completed to any word of the vocabulary that starts with it. The cursor is
an offset in bytes, and so is the place where the completion goes: from
there up to the cursor the line is what has been typed of the word. What
follows the cursor has no part in it.

A cursor that is not between two characters of the line has no completion.
-/

namespace Rpn

/-- **What can be completed at a cursor**: where the word starts, in bytes,
and the words it can become. -/
structure Completion where
  /-- The offset of the first byte of the word. -/
  start : Nat
  /-- The words it can become, in order. -/
  candidates : List String
deriving DecidableEq, Repr

/-- The words of the vocabulary that start with what has been typed. -/
def candidates (memory : String) (typed : List Char) : List String :=
  (vocabulary memory).filter fun word => typed.isPrefixOf word.toList

/-- **Completes the word that ends at a cursor.** -/
def completion? (memory line : String) (cursor : Nat) : Option Completion :=
  (splitAtByte? cursor line.toList).map fun cut =>
    { start := byteLength (beforeLastWord cut.1)
      candidates := candidates memory (lastWord cut.1) }

end Rpn
