/-!
# Blanks

The **blanks** are the 25 characters of the Unicode property White_Space,
as it has stood since version 6.3: the five controls from the tabulator to
the carriage return, the space, the next-line control, and the spaces and
line separators of the later blocks. They are what separates words.

Zero-width spaces are not among them – they have no width to separate with
– nor is the byte order mark.
-/

namespace Rpn

/-- **The blanks**, as closed ranges of code points in ascending order. -/
def blankRanges : List (Nat × Nat) :=
  [(0x09, 0x0D), (0x20, 0x20), (0x85, 0x85), (0xA0, 0xA0), (0x1680, 0x1680),
   (0x2000, 0x200A), (0x2028, 0x2029), (0x202F, 0x202F), (0x205F, 0x205F),
   (0x3000, 0x3000)]

/-- Whether a character is a blank. -/
def isBlank (c : Char) : Bool :=
  blankRanges.any fun range => range.1 ≤ c.toNat && c.toNat ≤ range.2

/-- There are 25 of them. -/
example : (blankRanges.map fun range => range.2 + 1 - range.1).sum = 25 := by decide

/-- A zero-width space separates nothing. -/
example : isBlank '\u200b' = false := by decide

end Rpn
