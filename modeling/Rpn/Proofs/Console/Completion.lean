import Mathlib.Data.List.TakeWhile
import Rpn.Console.Completion
import Rpn.Proofs.Console.Colour
import Rpn.Proofs.Session.MemoryName

/-!
# Completing the word that is typed

A completion joins three parts of the calculator, which have to agree. The
cursor and the place of the completion are offsets in bytes, and the text
between them is the longest word that ends at the cursor
(`completion?_append`, `offsetBehindBlank_eq`). The words that are offered come
from a vocabulary, in an order that is that of their code points however
the symbols are listed (`mergeSort_vocabularyFrom`). And what is offered is
put back into a line that is cut into words again and executed: it comes out
as one word, if the name of the memory is one (`words_append_isWord`), and it
is a word that means something (`ofWord_ne_unknown_of_mem_vocabulary`).
-/

namespace Rpn

/-! ## Offsets -/

/-- **The length in bytes** is that of the string. -/
theorem byteLength_toList (text : String) : byteLength text.toList = text.utf8ByteSize := by
  have hchars (chars : List Char) : byteLength chars = (String.ofList chars).utf8ByteSize := by
    induction chars with
    | nil => rfl
    | cons c chars ih =>
      rw [byteLength_cons, ih, String.ofList_cons, String.utf8ByteSize_append,
        String.utf8ByteSize_singleton]
  rw [hchars, String.ofList_toList]

/-- **The last blank of a text**, with the offset in bytes that it stands at. -/
def lastBlank? : List Char → Option (Nat × Char)
  | [] => none
  | c :: text =>
    match lastBlank? text with
    | some (offset, blank) => some (c.utf8Size + offset, blank)
    | none => if isBlank c = true then some (0, c) else none

/-- **The offset behind the last blank**: the one it stands at, and its width.
A text without a blank is all behind it. -/
def offsetBehindBlank (text : List Char) : Nat :=
  match lastBlank? text with
  | some (offset, blank) => offset + blank.utf8Size
  | none => 0

theorem lastBlank?_eq_none {text : List Char} (h : ∀ c ∈ text, isBlank c = false) :
    lastBlank? text = none := by
  induction text with
  | nil => rfl
  | cons c text ih =>
    have hc : ¬isBlank c = true := Bool.eq_false_iff.mp (h c List.mem_cons_self)
    rw [lastBlank?, ih fun d hd => h d (List.mem_cons_of_mem c hd)]
    exact if_neg hc

/-- A blank is the last if there is none behind it. -/
theorem lastBlank?_append_cons {blank : Char} {typed : List Char} (hblank : isBlank blank = true)
    (htyped : ∀ c ∈ typed, isBlank c = false) (front : List Char) :
    lastBlank? (front ++ blank :: typed) = some (byteLength front, blank) := by
  induction front with
  | nil =>
    rw [List.nil_append, lastBlank?, lastBlank?_eq_none htyped]
    exact if_pos hblank
  | cons c front ih =>
    rw [List.cons_append, lastBlank?, ih]
    rfl

/-! ## The word that ends at the cursor -/

/-- The word a text ends in has no blank in it. -/
theorem not_blank_of_mem_lastWord {text : List Char} {c : Char} (h : c ∈ lastWord text) :
    isBlank c = false := by
  have hword := List.mem_takeWhile_imp (List.mem_reverse.mp h)
  rwa [inWord, Bool.not_eq_true'] at hword

/-- **What is behind a cut and has no blank in it** belongs to the last word. -/
theorem lastWord_append {typed : List Char} (h : ∀ c ∈ typed, isBlank c = false)
    (front : List Char) : lastWord (front ++ typed) = lastWord front ++ typed := by
  have hword : ∀ c ∈ typed.reverse, inWord c = true := fun c hc => by
    rw [inWord, h c (List.mem_reverse.mp hc)]
    rfl
  rw [lastWord, List.reverse_append, List.takeWhile_append_of_pos hword, List.reverse_append,
    List.reverse_reverse, lastWord]

/-- In front of the last word there is a blank, or nothing. -/
theorem endsApart_beforeLastWord (text : List Char) :
    EndsApart (String.ofList (beforeLastWord text)) := by
  intro c hc
  rw [String.toList_ofList, beforeLastWord, List.getLast?_reverse] at hc
  have hnot := List.head?_dropWhile_not inWord text.reverse
  rw [Option.mem_def.mp hc] at hnot
  replace hnot : (!isBlank c) = false := hnot
  rwa [Bool.not_eq_false'] at hnot

/-- **The last word starts behind the last blank**, however wide that is. -/
theorem offsetBehindBlank_eq (text : List Char) :
    offsetBehindBlank text = byteLength (beforeLastWord text) := by
  have hword : ∀ c ∈ lastWord text, isBlank c = false := fun c hc => not_blank_of_mem_lastWord hc
  have htext := beforeLastWord_append_lastWord text
  obtain hnil | ⟨front, blank, hfront⟩ := List.eq_nil_or_concat (beforeLastWord text)
  · rw [hnil, List.nil_append] at htext
    rw [htext] at hword
    rw [offsetBehindBlank, lastBlank?_eq_none hword, hnil]
    rfl
  · rw [List.concat_eq_append] at hfront
    have hblank : isBlank blank = true := endsApart_beforeLastWord text blank (by
      rw [String.toList_ofList, hfront]
      exact List.getLast?_concat)
    rw [hfront, List.append_assoc, List.singleton_append] at htext
    have hlast := lastBlank?_append_cons hblank hword front
    rw [htext] at hlast
    rw [offsetBehindBlank, hlast, hfront, byteLength_append, byteLength_cons, byteLength_nil,
      Nat.add_zero]

/-- **A completion at the end of the first of two texts** starts where the last
word of it does. -/
theorem completion?_append (memory before after : String) :
    completion? memory (before ++ after) before.utf8ByteSize
      = some ⟨byteLength (beforeLastWord before.toList),
          candidates memory (lastWord before.toList)⟩ := by
  have hcut : splitAtByte? before.utf8ByteSize (before ++ after).toList
      = some (before.toList, after.toList) :=
    splitAtByte?_eq_some_iff.mpr ⟨String.toList_append, byteLength_toList before⟩
  rw [completion?, hcut]
  rfl

/-! ## The vocabulary -/

/-- **The words of the vocabulary**, one by one, with the built-in symbols
listed in some order. -/
def vocabularyFrom (symbols : List String) (memory : String) : List String :=
  symbols ++ ["undo", "clear", "sqrt", "pi", "neg"] ++ [memory, "→" ++ memory]

/-- Sorted by their code points, words are in order. -/
theorem pairwise_mergeSort_words (list : List String) :
    (list.mergeSort fun a b => a ≤ b).Pairwise (· ≤ ·) := by
  have htrans (a b c : String) (hab : decide (a ≤ b) = true) (hbc : decide (b ≤ c) = true) :
      decide (a ≤ c) = true :=
    decide_eq_true (String.le_trans (of_decide_eq_true hab) (of_decide_eq_true hbc))
  have htotal (a b : String) : (decide (a ≤ b) || decide (b ≤ a)) = true :=
    (Bool.or_eq_true _ _).mpr ((String.le_total a b).imp decide_eq_true decide_eq_true)
  have hsorted := List.pairwise_mergeSort htrans htotal list
  exact hsorted.imp of_decide_eq_true

/-- **The order that the symbols are listed in does not show.** -/
theorem mergeSort_vocabularyFrom {symbols : List String} (h : symbols.Perm builtinSymbols)
    (memory : String) :
    (vocabularyFrom symbols memory).mergeSort (fun a b => a ≤ b) = vocabulary memory := by
  have hlists : (vocabularyFrom symbols memory).Perm (vocabularyFrom builtinSymbols memory) :=
    (h.append_right _).append_right _
  refine List.Perm.eq_of_pairwise (fun _ _ _ _ => String.le_antisymm) (pairwise_mergeSort_words _)
    (pairwise_mergeSort_words _) ?_
  exact (List.mergeSort_perm _ _).trans (hlists.trans (List.mergeSort_perm _ _).symm)

section

variable {memory word : String}

/-- **The vocabulary is made of words**, if the name of the memory is one. -/
theorem isWord_of_mem_vocabulary (hmemory : IsWord memory) (h : word ∈ vocabulary memory) :
    IsWord word := by
  have hfixed : ∀ other ∈ builtinSymbols ++ fixedWords, IsWord other := by decide
  obtain hmem | hmem | rfl | rfl := mem_vocabulary.mp h
  · exact hfixed word (List.mem_append_left _ hmem)
  · exact hfixed word (List.mem_append_right _ hmem)
  · exact hmemory
  · refine ⟨fun hempty => hmemory.ne_empty (String.append_eq_empty_iff.mp hempty).2, fun c hc => ?_⟩
    rw [String.toList_append] at hc
    obtain hc | hc := List.mem_append.mp hc
    · obtain rfl := List.mem_singleton.mp hc
      decide
    · exact hmemory.not_blank c hc

/-- A word for the memory means something. -/
theorem ofWord_ne_unknown_of_mem_memoryWords (h : word ∈ Command.memoryWords memory) :
    Style.ofWord memory word ≠ .unknown := by
  obtain rfl | h := List.mem_cons.mp h
  · cases hvalue : Numeral.floatOf? word with
    | some value =>
      rw [Style.ofWord, Command.ofWord_of_floatOf?_eq_some hvalue]
      exact nofun
    | none =>
      rw [Style.ofWord, Command.ofWord_self hvalue]
      exact nofun
  · rw [Style.ofWord, Command.ofWord_of_mem_storeWords h]
    exact nofun

/-- **Every word of the vocabulary means something**, whatever the memory is
called. -/
theorem ofWord_ne_unknown_of_mem_vocabulary (h : word ∈ vocabulary memory) :
    Style.ofWord memory word ≠ .unknown := by
  have hfixed : ∀ other ∈ builtinSymbols ++ fixedWords,
      Style.ofCommand (Command.ofPlainWord other) ≠ .unknown := by
    decide +kernel
  by_cases hmem : word ∈ Command.memoryWords memory
  · exact ofWord_ne_unknown_of_mem_memoryWords hmem
  · rw [Style.ofWord, Command.ofWord_of_not_mem hmem]
    refine hfixed word (List.mem_append.mpr ?_)
    obtain h | h | rfl | rfl := mem_vocabulary.mp h
    · exact .inl h
    · exact .inr h
    · exact absurd List.mem_cons_self hmem
    · exact absurd (List.mem_cons_of_mem _ List.mem_cons_self) hmem

/-- **A word put between two texts** that keep apart from it is one more
word. -/
theorem words_append_isWord (hword : IsWord word) {front after : String} (hfront : EndsApart front)
    (hafter : StartsApart after) :
    words (front ++ word ++ after) = words front ++ word :: words after := by
  rw [words_append_of_startsApart _ hafter, words_append_of_endsApart hfront, words_of_isWord hword,
    List.append_assoc]
  rfl

end

/-- **Completion agrees with the words and with what they do.**

With the cursor between two texts that make up a line, there is a completion.
It starts between two characters, which is behind the last blank before the
cursor however wide that is, and what stands from there to the cursor is the
longest text without a blank that ends at the cursor. It offers the words
of the vocabulary that start with that text, in the order of their code
points and each as often as it is listed; the order in which the symbols are
listed makes no difference.

None of them is a symbol that stands for nothing. And if the name of the
memory is a word and no word goes on behind the cursor, a line in which one
of them is put in place of what was typed has the words before it, that word,
and the words behind the cursor. -/
theorem completion_agrees_with_words (memory before after : String) :
    ∃ (front typed : String) (found : List String),
      completion? memory (before ++ after) before.utf8ByteSize
        = some ⟨front.utf8ByteSize, found⟩
      ∧ (front ++ typed = before
        ∧ front.utf8ByteSize ≤ before.utf8ByteSize
        ∧ front.utf8ByteSize = offsetBehindBlank before.toList
        ∧ (∀ c ∈ typed.toList, isBlank c = false)
        ∧ ∀ front' typed' : String, front' ++ typed' = before →
            (∀ c ∈ typed'.toList, isBlank c = false) → typed'.toList <:+ typed.toList)
      ∧ (found.Pairwise (· ≤ ·)
        ∧ ∀ symbols : List String, symbols.Perm builtinSymbols →
            found.Perm ((vocabularyFrom symbols memory).filter fun word =>
              typed.toList.isPrefixOf word.toList)
            ∧ found = ((vocabularyFrom symbols memory).mergeSort fun a b => a ≤ b).filter
              fun word => typed.toList.isPrefixOf word.toList)
      ∧ ∀ word ∈ found,
          (∀ symbol, Command.ofWord memory word = .symbol symbol → builtin? symbol ≠ none)
          ∧ (IsWord memory → StartsApart after →
            words (front ++ word ++ after) = words front ++ word :: words after) := by
  have hfront : (String.ofList (beforeLastWord before.toList)).utf8ByteSize
      = byteLength (beforeLastWord before.toList) := by
    rw [← byteLength_toList, String.toList_ofList]
  have happend : String.ofList (beforeLastWord before.toList)
      ++ String.ofList (lastWord before.toList) = before := by
    rw [← String.ofList_append, beforeLastWord_append_lastWord, String.ofList_toList]
  have hvocabulary {word : String} (h : word ∈ candidates memory (lastWord before.toList)) :
      word ∈ vocabulary memory := (List.mem_filter.mp h).1
  refine ⟨String.ofList (beforeLastWord before.toList), String.ofList (lastWord before.toList),
    candidates memory (lastWord before.toList), ?found, ⟨happend, ?start, ?offset, ?blank, ?longest⟩,
    ⟨?sorted, fun symbols hsymbols => ?listed⟩, fun word hword => ⟨?known, ?replaced⟩⟩
  case found => rw [completion?_append, hfront]
  case start =>
    conv_rhs => rw [← happend, String.utf8ByteSize_append]
    exact Nat.le_add_right _ _
  case offset => rw [offsetBehindBlank_eq, hfront]
  case blank =>
    rw [String.toList_ofList]
    exact fun c hc => not_blank_of_mem_lastWord hc
  case longest =>
    rintro front' typed' rfl hblank
    rw [String.toList_ofList, String.toList_append, lastWord_append hblank]
    exact List.suffix_append _ _
  case sorted => exact (pairwise_mergeSort_words _).filter _
  case listed =>
    rw [String.toList_ofList, mergeSort_vocabularyFrom hsymbols]
    refine ⟨?_, rfl⟩
    rw [candidates, ← mergeSort_vocabularyFrom hsymbols]
    exact (List.mergeSort_perm _ _).filter _
  case known =>
    intro symbol hsymbol hnone
    exact ofWord_ne_unknown_of_mem_vocabulary (hvocabulary hword)
      (Style.ofCommand_eq_unknown_iff.mpr ⟨symbol, hsymbol, hnone⟩)
  case replaced =>
    intro hmemory hafter
    exact words_append_isWord (isWord_of_mem_vocabulary hmemory (hvocabulary hword))
      (endsApart_beforeLastWord _) hafter

/-- Behind a gap of one character in three bytes, with a memory whose name is
the start of two other words: what the theorem says leaves one answer. -/
theorem completion_agrees_with_words_wide_gap :
    IsWord "s" ∧ StartsApart " +"
      ∧ completion? "s" ("3\u3000s" ++ " +") 5 = some ⟨4, ["s", "sin", "sqrt"]⟩
      ∧ words ("3\u3000" ++ "sin" ++ " +") = words "3\u3000" ++ "sin" :: words " +" := by
  have hmemory : IsWord "s" := by decide
  have hafter : StartsApart " +" := fun c hc => by
    cases hc
    rfl
  obtain ⟨front, typed, found, hfound, ⟨happend, -⟩, ⟨hsorted, hlisted⟩, hoffered⟩ :=
    completion_agrees_with_words "s" "3\u3000s" " +"
  have hstart : front.utf8ByteSize = 4 := by
    rw [completion?_append] at hfound
    exact (congrArg Completion.start (Option.some.inj hfound)).symm
  -- the bytes in front leave only one place for the cut
  have hcut : splitAtByte? 4 "3\u3000s".toList = some (front.toList, typed.toList) :=
    splitAtByte?_eq_some_iff.mpr
      ⟨by rw [← happend, String.toList_append], by rw [byteLength_toList, hstart]⟩
  have hplace : splitAtByte? 4 "3\u3000s".toList = some ("3\u3000".toList, "s".toList) := by
    decide +kernel
  rw [hplace] at hcut
  obtain ⟨hfront, htyped⟩ := Prod.mk.inj (Option.some.inj hcut)
  obtain rfl := String.toList_injective hfront
  obtain rfl := String.toList_injective htyped
  have hperm : found.Perm ["s", "sin", "sqrt"] :=
    (hlisted builtinSymbols (.refl _)).1.trans (by decide +kernel)
  obtain rfl : found = ["s", "sin", "sqrt"] :=
    hperm.eq_of_pairwise (fun _ _ _ _ => String.le_antisymm) hsorted (by decide)
  rw [hstart] at hfound
  exact ⟨hmemory, hafter, hfound, (hoffered "sin" (by decide)).2 hmemory hafter⟩

end Rpn
