import Rpn.Proofs.Console.Colour
import Rpn.Proofs.Text.Layout

/-!
# Highlighting keeps the line

Highlighting puts control sequences around the words of a line and leaves
the line as it is otherwise. There are two ways to see it. From left to right,
it takes a word and the gap behind it off the line and goes on with the rest;
either may be empty, but not both, and so it comes to an end
(`highlights_iff`). And as a whole, it goes over the only layout of the line
in words and gaps (`Layout.Proper.highlight_text`), whose words are those
that the line executes.

Every style starts with a control sequence and ends with one. Deleting them
all gives the line back, as long as the line itself has no escape character
in it (`withoutControls_highlightedSegments`).
-/

namespace Rpn

/-! ## Where a line can be cut -/

section

variable {memory : String}

/-- **A line is highlighted part by part**, if it is cut where the kind of its
characters changes. -/
theorem Boundary.highlight_append {kind : Bool} {a b : String} (h : Boundary kind a b) :
    highlight true memory (a ++ b) = highlight true memory a ++ highlight true memory b := by
  rw [highlight, if_pos rfl, h.runs_append, List.map_append, String.join_append]
  rfl

/-- **A gap is left as it is.** -/
theorem highlight_of_isGap {gap : String} (h : IsGap gap) : highlight true memory gap = gap := by
  by_cases hempty : gap = ""
  · rw [hempty]
    rfl
  · have hrun : highlightRun memory gap.toList = gap := by
      rw [highlightRun, if_pos (List.all_eq_true.mpr h), String.ofList_toList]
    rw [highlight, if_pos rfl, runs_of_uniform hempty h, List.map_singleton, hrun]
    exact String.empty_append

end

/-! ## Pass by pass -/

/-- A word with the control sequences of its style around it, or nothing if
there is no word. -/
def highlightWord (memory word : String) : String :=
  if word = "" then "" else (Style.ofWord memory word).start ++ word ++ Style.reset

/-- **Highlighting from left to right.** One pass takes the word that the rest
of the line starts with and the gap behind it, either of which may be empty,
and it goes on until nothing is left. -/
inductive Highlights (memory : String) : List Char → String → Prop where
  /-- Nothing is left. -/
  | done : Highlights memory [] ""
  /-- A word and a gap are taken off. -/
  | pass {rest : List Char} {output : String} (hne : rest ≠ [])
      (hothers : Highlights memory (behind true (behind false rest)) output) :
      Highlights memory rest
        (highlightWord memory (String.ofList (leading false rest))
          ++ String.ofList (leading true (behind false rest)) ++ output)

section

variable {memory : String}

/-- A text without a blank is highlighted as a whole. -/
theorem highlight_eq_highlightWord {word : String} (h : ∀ c ∈ word.toList, isBlank c = false) :
    highlight true memory word = highlightWord memory word := by
  by_cases hempty : word = ""
  · rw [hempty]
    rfl
  · rw [highlightWord, if_neg hempty, highlight_of_isWord ⟨hempty, h⟩]

/-- **What one pass does** is to highlight what it takes off. -/
theorem highlight_pass (rest : List Char) :
    highlight true memory (String.ofList rest)
      = highlightWord memory (String.ofList (leading false rest))
        ++ String.ofList (leading true (behind false rest))
        ++ highlight true memory (String.ofList (behind true (behind false rest))) := by
  have hword := boundary_leading false rest
  have hgap := boundary_leading true (behind false rest)
  have hbehind : String.ofList (behind false rest)
      = String.ofList (leading true (behind false rest))
        ++ String.ofList (behind true (behind false rest)) := by
    rw [← String.ofList_append, leading_append_behind]
  calc highlight true memory (String.ofList rest)
      = highlight true memory (String.ofList (leading false rest))
          ++ highlight true memory (String.ofList (behind false rest)) := by
        rw [← hword.highlight_append, ← String.ofList_append, leading_append_behind]
    _ = _ := by
        rw [highlight_eq_highlightWord hword.uniform, hbehind, hgap.highlight_append,
          highlight_of_isGap hgap.uniform, String.append_assoc]

/-- **Passes come to an end on every line**, and what they put out is the
highlighted line. -/
theorem highlights_iff {rest : List Char} {output : String} :
    Highlights memory rest output ↔ output = highlight true memory (String.ofList rest) := by
  constructor
  · intro h
    induction h with
    | done => rfl
    | @pass rest output hne _ ih => rw [highlight_pass rest, ih]
  · rintro rfl
    induction hlength : rest.length using Nat.strong_induction_on generalizing rest with
    | _ n ih =>
      by_cases hne : rest = []
      · rw [hne]
        exact .done
      · rw [highlight_pass rest]
        exact .pass hne (ih _ (hlength ▸ length_behind_behind_lt hne) rfl)

end

/-! ## Layouts -/

/-- Words with the gaps behind them, each word highlighted by the style that
it has alone. -/
def highlightedSegments (memory : String) (segments : List (String × String)) : String :=
  String.join (segments.map fun segment =>
    (Style.ofWord memory segment.1).start ++ segment.1 ++ Style.reset ++ segment.2)

@[simp] theorem highlightedSegments_cons (memory word gap : String)
    (others : List (String × String)) :
    highlightedSegments memory ((word, gap) :: others)
      = (Style.ofWord memory word).start ++ (word ++ (Style.reset
          ++ (gap ++ highlightedSegments memory others))) := by
  rw [highlightedSegments, List.map_cons, String.join_cons, highlightedSegments]
  simp only [String.append_assoc]

/-- **A layout with its words highlighted.** -/
def Layout.highlighted (memory : String) (layout : Layout) : String :=
  layout.lead ++ highlightedSegments memory layout.segments

/-- **Segments are highlighted word by word.** -/
theorem Segments.highlight_segmentsText {memory : String} {segments : List (String × String)}
    (h : Segments segments) :
    highlight true memory (segmentsText segments) = highlightedSegments memory segments := by
  induction h with
  | nil => rfl
  | cons hword hgap hapart hothers ih =>
    rw [segmentsText_cons,
      (boundary_word (.cons hword hgap hapart hothers)).highlight_append,
      (boundary_gap hgap hothers).highlight_append, highlight_of_isWord hword,
      highlight_of_isGap hgap, ih, highlightedSegments_cons, String.append_assoc,
      String.append_assoc]

/-- **A line is highlighted by its layout.** -/
theorem Layout.Proper.highlight_text {memory : String} {layout : Layout} (h : layout.Proper) :
    highlight true memory layout.text = layout.highlighted memory := by
  rw [text, (Segments.boundary_gap h.lead h.segments).highlight_append, highlight_of_isGap h.lead,
    h.segments.highlight_segmentsText, highlighted]

/-! ## Control sequences -/

/-- The character that control sequences start with. -/
def escape : Char := '\x1b'

/-- Deletes control sequences: `inside` says whether the text goes on in one. -/
def withoutControlsFrom : (inside : Bool) → List Char → List Char
  | _, [] => []
  | true, c :: text => withoutControlsFrom (c != 'm') text
  | false, c :: text =>
    if c = escape ∧ text.head? = some '[' ∧ 'm' ∈ text then withoutControlsFrom true text
    else c :: withoutControlsFrom false text

/-- **A text without its control sequences**, which are an escape character
with an opening bracket behind it and everything up to the next `m`. -/
def withoutControls (text : List Char) : List Char := withoutControlsFrom false text

theorem withoutControlsFrom_true {code : List Char} (h : 'm' ∉ code) (text : List Char) :
    withoutControlsFrom true (code ++ 'm' :: text) = withoutControls text := by
  induction code with
  | nil => rfl
  | cons c code ih =>
    have hc : (c != 'm') = true := bne_iff_ne.mpr fun heq => h (heq ▸ List.mem_cons_self)
    rw [List.cons_append, withoutControlsFrom, hc]
    exact ih fun hmem => h (List.mem_cons_of_mem c hmem)

/-- **A control sequence is deleted.** -/
theorem withoutControls_sequence {code : List Char} (h : 'm' ∉ code) (text : List Char) :
    withoutControls (escape :: '[' :: (code ++ 'm' :: text)) = withoutControls text := by
  have hclosed : 'm' ∈ '[' :: (code ++ 'm' :: text) :=
    List.mem_cons_of_mem _ (List.mem_append_right _ List.mem_cons_self)
  rw [withoutControls, withoutControlsFrom, if_pos ⟨rfl, rfl, hclosed⟩]
  have hcode : 'm' ∉ '[' :: code := fun hmem => (List.mem_cons.mp hmem).elim (by decide) h
  exact withoutControlsFrom_true hcode text

/-- **Everything else is kept.** -/
theorem withoutControls_append {plain : List Char} (h : escape ∉ plain) (text : List Char) :
    withoutControls (plain ++ text) = plain ++ withoutControls text := by
  induction plain with
  | nil => rfl
  | cons c plain ih =>
    have hc : c ≠ escape := fun heq => h (heq ▸ List.mem_cons_self)
    rw [List.cons_append, withoutControls, withoutControlsFrom,
      if_neg fun hcontrol => hc hcontrol.1]
    exact congrArg (c :: ·) (ih fun hmem => h (List.mem_cons_of_mem c hmem))

/-- A style starts with a control sequence. -/
theorem Style.exists_toList_start_eq (style : Style) :
    ∃ code, 'm' ∉ code ∧ style.start.toList = escape :: '[' :: (code ++ ['m']) := by
  cases style with
  | number => exact ⟨['0'], by decide, rfl⟩
  | memory => exact ⟨['3', '8', ';', '5', ';', '1', '3'], by decide, rfl⟩
  | control => exact ⟨['3', '8', ';', '5', ';', '6'], by decide, rfl⟩
  | constant => exact ⟨['3', '8', ';', '5', ';', '1', '3', ';', '1'], by decide, rfl⟩
  | operator => exact ⟨['3', '8', ';', '5', ';', '2', '4', '8'], by decide, rfl⟩
  | unknown => exact ⟨['3', '8', ';', '5', ';', '1'], by decide, rfl⟩

/-- The control sequence in front of a word is deleted. -/
theorem withoutControls_start (style : Style) (text : List Char) :
    withoutControls (style.start.toList ++ text) = withoutControls text := by
  obtain ⟨code, hcode, hstart⟩ := style.exists_toList_start_eq
  rw [hstart, List.cons_append, List.cons_append, List.append_assoc]
  exact withoutControls_sequence hcode text

/-- So is the one behind it. -/
theorem withoutControls_reset (text : List Char) :
    withoutControls (Style.reset.toList ++ text) = withoutControls text :=
  withoutControls_start .number text

/-- **Highlighted segments without the control sequences** are the text. -/
theorem withoutControls_highlightedSegments {memory : String}
    {segments : List (String × String)} (h : escape ∉ (segmentsText segments).toList) :
    withoutControls (highlightedSegments memory segments).toList
      = (segmentsText segments).toList := by
  induction segments with
  | nil => rfl
  | cons segment others ih =>
    obtain ⟨word, gap⟩ := segment
    simp only [segmentsText_cons, highlightedSegments_cons, String.toList_append,
      List.mem_append, not_or] at h ⊢
    obtain ⟨hword, hgap, hothers⟩ := h
    rw [withoutControls_start, withoutControls_append hword, withoutControls_reset,
      withoutControls_append hgap, ih hothers]

/-- **A highlighted layout without the control sequences** is its text. -/
theorem Layout.withoutControls_highlighted {memory : String} {layout : Layout}
    (h : escape ∉ layout.text.toList) :
    withoutControls (layout.highlighted memory).toList = layout.text.toList := by
  rw [text, String.toList_append, List.mem_append, not_or] at h
  rw [highlighted, text, String.toList_append, String.toList_append, withoutControls_append h.1,
    withoutControls_highlightedSegments h.2]

/-- **Highlighting keeps the line, and colours the words that are executed.**

The passes over any line come to an end, with the highlighted line. The line
has one layout in words and gaps, in which each word is as long as it can be;
in the highlighted line the gaps are the same, and each word stands between
the control sequence of the style that it has alone and the one that resets
it. The words are those that executing the line executes, in order.

So the line is what is left if the control sequences are deleted, unless it
has the escape character in it. -/
theorem highlight_is_lossless (memory line : String) :
    (∀ output, Highlights memory line.toList output ↔ output = highlight true memory line)
      ∧ (∃ layout : Layout, layout.Proper ∧ layout.text = line
          ∧ (∀ other : Layout, other.Proper → other.text = line → other = layout)
          ∧ highlight true memory line = layout.highlighted memory
          ∧ words line = layout.words
          ∧ ∀ session : Session,
              session.executeLine line = layout.words.foldl Session.executeWord session)
      ∧ (escape ∉ line.toList →
          withoutControls (highlight true memory line).toList = line.toList) := by
  obtain ⟨layout, hproper, rfl⟩ := Layout.exists_proper line
  refine ⟨fun output => ?passes, ⟨layout, hproper, rfl, fun other hother heq => ?unique,
    hproper.highlight_text, hproper.words_text, fun session => ?executed⟩, fun h => ?deleted⟩
  case passes => rw [highlights_iff, String.ofList_toList]
  case unique => exact hother.eq_of_text_eq hproper heq
  case executed => rw [Session.executeLine, hproper.words_text]
  case deleted => rw [hproper.highlight_text, Layout.withoutControls_highlighted h]

/-- Gaps at both ends, and one of a character that takes three bytes. -/
theorem highlight_is_lossless_of_wide_gap :
    escape ∉ " M\u2003tan\t".toList
      ∧ highlight true "M" " M\u2003tan\t"
        = " \x1b[38;5;13mM\x1b[0m\u2003\x1b[38;5;1mtan\x1b[0m\t"
      ∧ withoutControls (highlight true "M" " M\u2003tan\t").toList = " M\u2003tan\t".toList := by
  have hescape : escape ∉ " M\u2003tan\t".toList := by decide
  obtain ⟨-, -, hdeleted⟩ := highlight_is_lossless "M" " M\u2003tan\t"
  exact ⟨hescape, by decide +kernel, hdeleted hescape⟩

end Rpn
