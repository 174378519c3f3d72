import Rpn.Text.Blank

/-!
# Words

A **word** is a maximal run of characters that are not blanks. There are
two ways to look at a text made of them. `words` keeps the words and
forgets what stands between them, which is all that running a line needs.
`runs` cuts the text at every change between blank and not, and forgets
nothing: its pieces are the words and the gaps in turn, and they join up to
the text again.
-/

namespace Rpn

/-- **The words of a text**, in order. -/
def words (text : String) : List String :=
  ((text.toList.splitOnP isBlank).filter (· ≠ [])).map String.ofList

/-- Whether two characters are both blanks or neither is. -/
def sameKind (a b : Char) : Bool := isBlank a == isBlank b

/-- **The runs of a text**: its words and the gaps between them, in order. -/
def runs (text : String) : List (List Char) := text.toList.splitBy sameKind

/-! ## The word at the end

A text that is still being typed ends in the word being typed, which is
empty after a blank. -/

/-- Whether a character is part of a word. -/
def inWord (c : Char) : Bool := !isBlank c

/-- **The word a text ends in**, which may be empty. -/
def lastWord (text : List Char) : List Char := (text.reverse.takeWhile inWord).reverse

/-- What stands before the word a text ends in. -/
def beforeLastWord (text : List Char) : List Char := (text.reverse.dropWhile inWord).reverse

@[simp] theorem beforeLastWord_append_lastWord (text : List Char) :
    beforeLastWord text ++ lastWord text = text := by
  rw [beforeLastWord, lastWord, ← List.reverse_append, List.takeWhile_append_dropWhile,
    List.reverse_reverse]

/-- Gaps of any length and kind separate alike. -/
example : words " 1\u20032\t\t + " = ["1", "2", "+"] := by decide +kernel

/-- The gaps at both ends are runs too. -/
example : runs " 1\u20032 " = [[' '], ['1'], ['\u2003'], ['2'], [' ']] := by decide +kernel

end Rpn
