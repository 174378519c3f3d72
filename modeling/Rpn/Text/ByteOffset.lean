import Rpn.Text.Blank

/-!
# Byte offsets

A cursor in a line of text is given as an offset in bytes of its UTF-8
form. Not every number is one: an offset can point past the end, or into
the middle of a character. `splitAtByte?` cuts a text in two at an offset
and is undefined exactly where there is no place to cut.
-/

namespace Rpn

/-- **The length of a text in bytes** of its UTF-8 form. -/
def byteLength : List Char → Nat
  | [] => 0
  | c :: text => c.utf8Size + byteLength text

@[simp] theorem byteLength_nil : byteLength [] = 0 := rfl

@[simp] theorem byteLength_cons (c : Char) (text : List Char) :
    byteLength (c :: text) = c.utf8Size + byteLength text := rfl

@[simp] theorem byteLength_append (a b : List Char) :
    byteLength (a ++ b) = byteLength a + byteLength b := by
  induction a with
  | nil => exact (Nat.zero_add _).symm
  | cons c a ih => rw [List.cons_append, byteLength_cons, byteLength_cons, ih, Nat.add_assoc]

/-- **Cuts a text at a byte offset**, if it lies between two characters or
at an end. -/
def splitAtByte? : (offset : Nat) → List Char → Option (List Char × List Char)
  | 0, text => some ([], text)
  | _ + 1, [] => none
  | offset + 1, c :: text =>
    if c.utf8Size ≤ offset + 1 then
      (splitAtByte? (offset + 1 - c.utf8Size) text).map fun cut => (c :: cut.1, cut.2)
    else none

/-- **A text can be cut at an offset exactly where the offset is the length
of its first part**, and then into just those two parts. -/
theorem splitAtByte?_eq_some_iff {offset : Nat} {text before after : List Char} :
    splitAtByte? offset text = some (before, after)
      ↔ text = before ++ after ∧ byteLength before = offset := by
  induction text generalizing offset before with
  | nil =>
    cases offset with
    | zero => cases before <;> simp [splitAtByte?, eq_comm]
    | succ offset =>
      simp only [splitAtByte?, reduceCtorEq, false_iff, not_and]
      intro empty
      obtain ⟨rfl, -⟩ := List.append_eq_nil_iff.mp empty.symm
      simp
  | cons c text ih =>
    have width := Char.utf8Size_pos c
    cases offset with
    | zero =>
      cases before with
      | nil => simp [splitAtByte?, eq_comm]
      | cons d before => have := Char.utf8Size_pos d; simp [splitAtByte?]; omega
    | succ offset =>
      cases before with
      | nil => simp only [splitAtByte?]; split <;> simp
      | cons d before =>
        simp only [splitAtByte?, List.cons_append, byteLength_cons, List.cons.injEq]
        split
        · rename_i fits
          simp only [Option.map_eq_some_iff, Prod.exists, Prod.mk.injEq, List.cons.injEq]
          constructor
          · rintro ⟨b, a, cut, ⟨rfl, rfl⟩, rfl⟩
            obtain ⟨rfl, size⟩ := ih.mp cut
            exact ⟨⟨rfl, rfl⟩, by omega⟩
          · rintro ⟨⟨rfl, rfl⟩, size⟩
            exact ⟨before, after, ih.mpr ⟨rfl, by omega⟩, ⟨rfl, rfl⟩, rfl⟩
        · rename_i tooWide
          simp only [reduceCtorEq, false_iff, not_and]
          rintro ⟨rfl, -⟩
          omega

end Rpn
