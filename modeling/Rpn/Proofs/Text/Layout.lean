import Mathlib.Data.List.TakeWhile
import Rpn.Proofs.Text.Words

/-!
# Words and the gaps between them

A text starts with a gap, and then words and gaps take turns. `Layout` is a
text taken apart like that. In a proper layout, all gaps but the first and
the last have a blank in them, which is what makes each word as long as it
can be; every text has one (`Layout.exists_proper`), and only one
(`Layout.Proper.eq_of_text_eq`).

Both facts are about the cuts of a text where the kind of the characters
changes, from blanks to others or back. At such a cut the text comes apart
for every purpose: its words are those of the two parts, and so are its runs.
-/

namespace Rpn

/-! ## Where the kind of the characters changes -/

/-- **A cut between two kinds**: all characters before it are blanks, or none
is, and the one behind it, if there is any, is of the other kind. -/
structure Boundary (kind : Bool) (a b : String) : Prop where
  /-- What stands before the cut is of one kind. -/
  uniform : ∀ c ∈ a.toList, isBlank c = kind
  /-- What stands behind it starts with the other. -/
  changes : ∀ c ∈ b.toList.head?, isBlank c = !kind

/-- **The longest part of one kind** that a text starts with, possibly empty. -/
def leading (kind : Bool) (text : List Char) : List Char :=
  text.takeWhile fun c => isBlank c == kind

/-- What stands behind that. -/
def behind (kind : Bool) (text : List Char) : List Char :=
  text.dropWhile fun c => isBlank c == kind

@[simp] theorem leading_append_behind (kind : Bool) (text : List Char) :
    leading kind text ++ behind kind text = text :=
  List.takeWhile_append_dropWhile

/-- What stands behind it starts with the other kind. -/
theorem isBlank_of_mem_head?_behind {kind : Bool} {text : List Char} {c : Char}
    (hc : c ∈ (behind kind text).head?) : isBlank c = !kind := by
  have hnot := List.head?_dropWhile_not (fun c => isBlank c == kind) text
  rw [behind] at hc
  rw [Option.mem_def.mp hc] at hnot
  exact Bool.eq_not_of_ne (ne_of_beq_false hnot)

/-- **The longest part of a kind ends at a boundary.** -/
theorem boundary_leading (kind : Bool) (text : List Char) :
    Boundary kind (String.ofList (leading kind text)) (String.ofList (behind kind text)) where
  uniform c hc := by
    rw [String.toList_ofList] at hc
    exact eq_of_beq (List.mem_takeWhile_imp (p := fun c => isBlank c == kind) hc)
  changes c hc := by
    rw [String.toList_ofList] at hc
    exact isBlank_of_mem_head?_behind hc

namespace Boundary

variable {kind : Bool} {a b a' b' : String}

/-- **What stands before a boundary** is all that the text starts with of its
kind. -/
theorem leading_eq (h : Boundary kind a b) : leading kind (a ++ b).toList = a.toList := by
  rw [String.toList_append, leading,
    List.takeWhile_append_of_pos fun c hc => beq_iff_eq.mpr (h.uniform c hc)]
  cases hb : b.toList with
  | nil => exact List.append_nil _
  | cons c rest =>
    have hc : isBlank c = !kind := h.changes c (by rw [hb]; rfl)
    rw [List.takeWhile_cons_of_neg, List.append_nil]
    rw [hc]
    cases kind <;> decide

/-- **A text has one boundary of each kind.** -/
theorem append_inj (h : Boundary kind a b) (h' : Boundary kind a' b')
    (heq : a ++ b = a' ++ b') : a = a' ∧ b = b' := by
  have ha : a = a' := String.toList_injective (by rw [← h.leading_eq, heq, h'.leading_eq])
  subst ha
  exact ⟨rfl, (String.append_right_inj a).mp heq⟩

/-- **No word goes across a boundary.** -/
theorem words_append (h : Boundary kind a b) : words (a ++ b) = words a ++ words b := by
  cases kind with
  | true => exact words_append_of_endsApart (IsGap.endsApart h.uniform) b
  | false => exact words_append_of_startsApart a h.changes

/-- **No run goes across a boundary.** -/
theorem runs_append (h : Boundary kind a b) : runs (a ++ b) = runs a ++ runs b := by
  rw [runs, String.toList_append]
  refine List.splitBy_append fun x hx y hy => ?_
  rw [sameKind, h.uniform x (List.mem_of_mem_getLast? hx), h.changes y hy]
  cases kind <;> rfl

end Boundary

/-- **A word and the gap behind it**, as much of both as there is, leave less
of a text. -/
theorem length_behind_behind_lt {text : List Char} (h : text ≠ []) :
    (behind true (behind false text)).length < text.length := by
  obtain ⟨c, rest, rfl⟩ := List.exists_cons_of_ne_nil h
  have hle (kind : Bool) (chars : List Char) : (behind kind chars).length ≤ chars.length :=
    List.length_dropWhile_le _ chars
  rw [List.length_cons, Nat.lt_succ_iff]
  cases hc : isBlank c with
  | true =>
    have hword : behind false (c :: rest) = c :: rest :=
      List.dropWhile_cons_of_neg (by rw [hc]; decide)
    have hgap : behind true (c :: rest) = behind true rest :=
      List.dropWhile_cons_of_pos (by rw [hc]; decide)
    rw [hword, hgap]
    exact hle true rest
  | false =>
    have hword : behind false (c :: rest) = behind false rest :=
      List.dropWhile_cons_of_pos (by rw [hc]; decide)
    rw [hword]
    exact (hle true _).trans (hle false rest)

/-! ## Layouts -/

/-- **Words with the gaps behind them**, in the order of a text. Only the last
gap can be empty, as two words with nothing between them would be one. -/
inductive Segments : List (String × String) → Prop where
  /-- There are no words. -/
  | nil : Segments []
  /-- A word and the gap behind it stand before the others. -/
  | cons {word gap : String} {others : List (String × String)} (hword : IsWord word)
      (hgap : IsGap gap) (hapart : others ≠ [] → gap ≠ "") (hothers : Segments others) :
      Segments ((word, gap) :: others)

/-- The text that words make up with the gaps behind them. -/
def segmentsText (segments : List (String × String)) : String :=
  String.join (segments.map fun segment => segment.1 ++ segment.2)

@[simp] theorem segmentsText_cons (word gap : String) (others : List (String × String)) :
    segmentsText ((word, gap) :: others) = word ++ (gap ++ segmentsText others) := by
  rw [segmentsText, List.map_cons, String.join_cons, String.append_assoc, segmentsText]

namespace Segments

variable {word gap : String} {others segments : List (String × String)}

/-- Segments start with a word. -/
theorem startsWithWord (h : Segments segments) :
    ∀ c ∈ (segmentsText segments).toList.head?, isBlank c = false := by
  cases h with
  | nil => exact nofun
  | cons hword _ _ _ =>
    intro c hc
    rw [segmentsText_cons, String.toList_append,
      List.head?_append_of_ne_nil _ hword.toList_ne_nil] at hc
    exact hword.not_blank c (List.mem_of_mem_head? hc)

/-- **A gap ends where segments start.** -/
theorem boundary_gap (hgap : IsGap gap) (h : Segments segments) :
    Boundary true gap (segmentsText segments) :=
  ⟨hgap, h.startsWithWord⟩

/-- **A word ends where the gap behind it starts**, or the text ends. -/
theorem boundary_word (h : Segments ((word, gap) :: others)) :
    Boundary false word (gap ++ segmentsText others) := by
  cases h with
  | cons hword hgap hapart hothers =>
    refine ⟨hword.not_blank, fun c hc => ?_⟩
    by_cases hempty : gap = ""
    · obtain rfl : others = [] := by_contra fun hne => hapart hne hempty
      rw [hempty] at hc
      cases hc
    · rw [String.toList_append,
        List.head?_append_of_ne_nil _ (mt String.toList_eq_nil_iff.mp hempty)] at hc
      exact hgap c (List.mem_of_mem_head? hc)

/-- **The words of segments** are the ones they are made of. -/
theorem words_eq (h : Segments segments) :
    words (segmentsText segments) = segments.map Prod.fst := by
  induction h with
  | nil => rfl
  | cons hword hgap hapart hothers ih =>
    rw [segmentsText_cons, (boundary_word (.cons hword hgap hapart hothers)).words_append,
      (boundary_gap hgap hothers).words_append, words_of_isWord hword, words_of_isGap hgap, ih]
    rfl

/-- No segments make up the empty text. -/
theorem eq_nil_of_segmentsText_eq (h : Segments segments) (heq : segmentsText segments = "") :
    segments = [] := by
  cases h with
  | nil => rfl
  | cons hword _ _ _ =>
    rw [segmentsText_cons, String.append_eq_empty_iff] at heq
    exact absurd heq.1 hword.ne_empty

/-- **Segments are determined by their text.** -/
theorem eq_of_segmentsText_eq {segments' : List (String × String)} (h : Segments segments)
    (h' : Segments segments') (heq : segmentsText segments = segmentsText segments') :
    segments = segments' := by
  induction h generalizing segments' with
  | nil => exact (h'.eq_nil_of_segmentsText_eq heq.symm).symm
  | cons hword hgap hapart hothers ih =>
    have hfirst := Segments.cons hword hgap hapart hothers
    cases h' with
    | nil => exact hfirst.eq_nil_of_segmentsText_eq heq
    | cons hword' hgap' hapart' hothers' =>
      rw [segmentsText_cons, segmentsText_cons] at heq
      obtain ⟨rfl, hbehind⟩ := hfirst.boundary_word.append_inj
        (boundary_word (.cons hword' hgap' hapart' hothers')) heq
      obtain ⟨rfl, htext⟩ :=
        (boundary_gap hgap hothers).append_inj (boundary_gap hgap' hothers') hbehind
      rw [ih hothers' htext]

end Segments

/-- The gap behind a word is only empty where the text ends. -/
theorem behind_eq_nil_of_leading_eq_nil {text : List Char}
    (h : leading true (behind false text) = []) : behind true (behind false text) = [] := by
  have hsame : behind true (behind false text) = behind false text := by
    have happend := leading_append_behind true (behind false text)
    rwa [h, List.nil_append] at happend
  refine List.eq_nil_iff_forall_not_mem.mpr fun c hc => ?_
  obtain ⟨d, rest, hchars⟩ := List.exists_cons_of_ne_nil (List.ne_nil_of_mem hc)
  have hletter : isBlank d = false := isBlank_of_mem_head?_behind (by rw [hchars]; rfl)
  have hblank : isBlank d = true := isBlank_of_mem_head?_behind (by rw [← hsame, hchars]; rfl)
  exact Bool.false_ne_true (hletter.symm.trans hblank)

/-- **A text that starts with no gap consists of segments.** -/
theorem exists_segments {text : List Char} (h : ∀ c ∈ text.head?, isBlank c = false) :
    ∃ segments, Segments segments ∧ segmentsText segments = String.ofList text := by
  induction hlength : text.length using Nat.strong_induction_on generalizing text with
  | _ n ih =>
    by_cases hne : text = []
    · exact ⟨[], .nil, by rw [hne]; rfl⟩
    · have hhead : ∀ d ∈ (behind true (behind false text)).head?, isBlank d = false :=
        fun d hd => isBlank_of_mem_head?_behind hd
      obtain ⟨others, hothers, hrest⟩ := ih _ (hlength ▸ length_behind_behind_lt hne) hhead rfl
      refine ⟨(String.ofList (leading false text),
        String.ofList (leading true (behind false text))) :: others,
        .cons ⟨?word, (boundary_leading false text).uniform⟩
          (boundary_leading true (behind false text)).uniform ?apart hothers, ?text⟩
      case word =>
        obtain ⟨c, rest, rfl⟩ := List.exists_cons_of_ne_nil hne
        have hfirst : leading false (c :: rest) = c :: leading false rest :=
          List.takeWhile_cons_of_pos (by rw [h c rfl]; rfl)
        rw [hfirst, ne_eq, String.ofList_eq_empty_iff]
        exact List.cons_ne_nil _ _
      case apart =>
        intro hne hempty
        rw [behind_eq_nil_of_leading_eq_nil (String.ofList_eq_empty_iff.mp hempty)] at hrest
        exact hne (hothers.eq_nil_of_segmentsText_eq hrest)
      case text =>
        rw [segmentsText_cons, hrest, ← String.ofList_append, leading_append_behind,
          ← String.ofList_append, leading_append_behind]

/-- **A text laid out in words and gaps**: a gap, and words with the gaps
behind them. -/
structure Layout where
  /-- The gap in front of the first word. -/
  lead : String
  /-- The words with the gaps behind them. -/
  segments : List (String × String)

namespace Layout

/-- The text that is laid out. -/
def text (layout : Layout) : String := layout.lead ++ segmentsText layout.segments

/-- Its words, in order. -/
def words (layout : Layout) : List String := layout.segments.map Prod.fst

/-- **A proper layout** has gaps and words in their places. -/
structure Proper (layout : Layout) : Prop where
  /-- What is in front of the first word is a gap. -/
  lead : IsGap layout.lead
  /-- The others are words with gaps behind them. -/
  segments : Segments layout.segments

/-- **Every text has a proper layout.** -/
theorem exists_proper (line : String) : ∃ layout : Layout, layout.Proper ∧ layout.text = line := by
  have hhead : ∀ c ∈ (behind true line.toList).head?, isBlank c = false :=
    fun c hc => isBlank_of_mem_head?_behind hc
  obtain ⟨segments, hsegments, htext⟩ := exists_segments hhead
  refine ⟨⟨String.ofList (leading true line.toList), segments⟩,
    ⟨(boundary_leading true line.toList).uniform, hsegments⟩, ?_⟩
  rw [text, htext, ← String.ofList_append, leading_append_behind, String.ofList_toList]

/-- **And no two.** -/
theorem Proper.eq_of_text_eq {a b : Layout} (ha : a.Proper) (hb : b.Proper)
    (h : a.text = b.text) : a = b := by
  cases a
  cases b
  obtain ⟨rfl, hsegments⟩ := (Segments.boundary_gap ha.lead ha.segments).append_inj
    (Segments.boundary_gap hb.lead hb.segments) h
  obtain rfl := ha.segments.eq_of_segmentsText_eq hb.segments hsegments
  rfl

/-- **The words of a text are those of its proper layout.** -/
theorem Proper.words_text {layout : Layout} (h : layout.Proper) :
    Rpn.words layout.text = layout.words := by
  rw [text, (Segments.boundary_gap h.lead h.segments).words_append, words_of_isGap h.lead,
    h.segments.words_eq]
  rfl

end Layout

end Rpn
