import Mathlib.Data.List.SplitBy
import Rpn.Text.Words

/-!
# The words of a text

A word is not empty and has no blank in it, and those two properties are
what makes it one: the words of a text are such texts (`isWord_of_mem_words`)
and such a text is its only word (`words_of_isWord`). A blank separates the
words before it from those behind it, and that is all it does
(`words_append_blank`). So a text can be cut next to any blank without
cutting a word (`words_append_of_startsApart`, `words_append_of_endsApart`),
and words with a space between them are read back, whatever they are
(`words_intercalate`).
-/

namespace Rpn

/-- **A word**: a text that is not empty and has no blank in it. -/
structure IsWord (word : String) : Prop where
  /-- It has a character. -/
  ne_empty : word ≠ ""
  /-- None of its characters is a blank. -/
  not_blank : ∀ c ∈ word.toList, isBlank c = false

instance (word : String) : Decidable (IsWord word) :=
  decidable_of_iff (word ≠ "" ∧ word.toList.any isBlank = false)
    ⟨fun h => ⟨h.1, fun c hc => Bool.eq_false_iff.mpr (List.any_eq_false.mp h.2 c hc)⟩,
      fun h => ⟨h.ne_empty, List.any_eq_false.mpr fun c hc =>
        Bool.eq_false_iff.mp (h.not_blank c hc)⟩⟩

/-- The characters of a word are a list of some. -/
theorem IsWord.toList_ne_nil {word : String} (h : IsWord word) : word.toList ≠ [] :=
  fun hnil => h.ne_empty (String.toList_eq_nil_iff.mp hnil)

/-- No piece of a list contains an element that the list was cut at. -/
theorem eq_false_of_mem_splitOnP {α : Type} {p : α → Bool} {text piece : List α}
    (hpiece : piece ∈ text.splitOnP p) : ∀ c ∈ piece, p c = false := by
  induction text generalizing piece with
  | nil =>
    rw [List.splitOnP_nil, List.mem_singleton] at hpiece
    rw [hpiece]
    exact nofun
  | cons d text ih =>
    rw [List.splitOnP_cons_eq_if_modifyHead] at hpiece
    split at hpiece
    · obtain rfl | hpiece := List.mem_cons.mp hpiece
      · exact nofun
      · exact ih hpiece
    · obtain ⟨first, others, hpieces⟩ :=
        List.exists_cons_of_ne_nil (List.splitOnP_ne_nil p text)
      rw [hpieces] at ih
      rw [hpieces, List.modifyHead_cons] at hpiece
      obtain rfl | hpiece := List.mem_cons.mp hpiece
      · intro c hc
        obtain rfl | hc := List.mem_cons.mp hc
        · exact Bool.eq_false_iff.mpr ‹_›
        · exact ih List.mem_cons_self c hc
      · exact ih (List.mem_cons_of_mem first hpiece)

/-- **The words of a text are words.** -/
theorem isWord_of_mem_words {text word : String} (h : word ∈ words text) : IsWord word := by
  obtain ⟨piece, hpiece, rfl⟩ := List.mem_map.mp h
  obtain ⟨hpiece, hne⟩ := List.mem_filter.mp hpiece
  refine ⟨fun hempty => of_decide_eq_true hne ?_, fun c hc => ?_⟩
  · rw [← String.toList_ofList (l := piece), hempty]
    rfl
  · rw [String.toList_ofList] at hc
    exact eq_false_of_mem_splitOnP hpiece c hc

/-- **A word is the only word in it.** -/
theorem words_of_isWord {word : String} (h : IsWord word) : words word = [word] := by
  have hkept : [word.toList].filter (· ≠ []) = [word.toList] :=
    List.filter_eq_self.mpr (List.forall_mem_singleton.mpr (decide_eq_true h.toList_ne_nil))
  rw [words, List.splitOnP_eq_singleton h.not_blank, hkept, List.map_singleton,
    String.ofList_toList]

/-- **A blank separates words.** -/
theorem words_append_blank {c : Char} (hc : isBlank c = true) (a b : String) :
    words (a ++ String.singleton c ++ b) = words a ++ words b := by
  have htext : (a ++ String.singleton c ++ b).toList = a.toList ++ c :: b.toList := by
    rw [String.toList_append, String.toList_append, String.toList_singleton, List.append_assoc]
    rfl
  rw [words, htext, List.splitOnP_append_cons _ _ hc, List.filter_append, List.map_append]
  rfl

/-! ## Cutting a text -/

/-- **A gap**: a text of blanks only, possibly of none. -/
def IsGap (text : String) : Prop := ∀ c ∈ text.toList, isBlank c = true

instance (text : String) : Decidable (IsGap text) :=
  decidable_of_iff (text.toList.all isBlank = true) List.all_eq_true

/-- **A text that continues no word** that stands before it: it is empty, or
starts with a blank. -/
def StartsApart (text : String) : Prop := ∀ c ∈ text.toList.head?, isBlank c = true

/-- **A text that no word behind it continues**: it is empty, or ends in a
blank. -/
def EndsApart (text : String) : Prop := ∀ c ∈ text.toList.getLast?, isBlank c = true

theorem IsGap.startsApart {gap : String} (h : IsGap gap) : StartsApart gap :=
  fun c hc => h c (List.mem_of_mem_head? hc)

theorem IsGap.endsApart {gap : String} (h : IsGap gap) : EndsApart gap :=
  fun c hc => h c (List.mem_of_mem_getLast? hc)

/-- There is no word in an empty text. -/
@[simp] theorem words_empty : words "" = [] := rfl

/-- A blank in front belongs to no word. -/
theorem words_blank_append {c : Char} (hc : isBlank c = true) (text : String) :
    words (String.singleton c ++ text) = words text := by
  have h := words_append_blank hc "" text
  rwa [String.empty_append, words_empty, List.nil_append] at h

/-- **A cut in front of a blank goes through no word.** -/
theorem words_append_of_startsApart (a : String) {b : String} (h : StartsApart b) :
    words (a ++ b) = words a ++ words b := by
  cases hb : b.toList with
  | nil =>
    obtain rfl := String.toList_eq_nil_iff.mp hb
    rw [String.append_empty, words_empty, List.append_nil]
  | cons c rest =>
    have hc : isBlank c = true := h c (by rw [hb]; rfl)
    obtain rfl : b = String.singleton c ++ String.ofList rest := by
      rw [← String.ofList_cons, ← hb, String.ofList_toList]
    rw [← String.append_assoc, words_append_blank hc, words_blank_append hc]

/-- **A cut behind a blank goes through no word.** -/
theorem words_append_of_endsApart {a : String} (h : EndsApart a) (b : String) :
    words (a ++ b) = words a ++ words b := by
  obtain ha | ⟨rest, c, ha⟩ := List.eq_nil_or_concat a.toList
  · obtain rfl := String.toList_eq_nil_iff.mp ha
    rw [String.empty_append, words_empty, List.nil_append]
  · rw [List.concat_eq_append] at ha
    have hc : isBlank c = true := h c (by rw [ha]; exact List.getLast?_concat)
    obtain rfl : a = String.ofList rest ++ String.singleton c := by
      rw [String.singleton_eq_ofList, ← String.ofList_append, ← ha, String.ofList_toList]
    have hwords := words_append_blank hc (String.ofList rest) ""
    rw [String.append_empty, words_empty, List.append_nil] at hwords
    rw [words_append_blank hc, hwords]

/-- **A gap has no words in it.** -/
theorem words_of_isGap {gap : String} (h : IsGap gap) : words gap = [] := by
  have hchars : ∀ chars : List Char, (∀ c ∈ chars, isBlank c = true) →
      words (String.ofList chars) = [] := by
    intro chars hblank
    induction chars with
    | nil => exact words_empty
    | cons c chars ih =>
      rw [String.ofList_cons, words_blank_append (hblank c List.mem_cons_self)]
      exact ih fun d hd => hblank d (List.mem_cons_of_mem c hd)
  rw [← String.ofList_toList (s := gap)]
  exact hchars gap.toList h

/-- **A gap between two texts separates their words**, if it is not empty. -/
theorem words_append_gap {gap : String} (hgap : IsGap gap) (hne : gap ≠ "") (a b : String) :
    words (a ++ gap ++ b) = words a ++ words b := by
  have hends : EndsApart (a ++ gap) := by
    intro c hc
    rw [String.toList_append, List.getLast?_append_of_ne_nil _
      (mt String.toList_eq_nil_iff.mp hne)] at hc
    exact hgap.endsApart c hc
  rw [words_append_of_endsApart hends, words_append_of_startsApart a hgap.startsApart,
    words_of_isGap hgap, List.append_nil]

/-- **Words with a space between them are read back.** -/
theorem words_intercalate {ws : List String} (h : ∀ word ∈ ws, IsWord word) :
    words (" ".intercalate ws) = ws := by
  induction ws with
  | nil => rfl
  | cons word ws ih =>
    have hword := words_of_isWord (h word List.mem_cons_self)
    have hws := ih fun other hmem => h other (List.mem_cons_of_mem _ hmem)
    cases ws with
    | nil => rw [String.intercalate_singleton, hword]
    | cons next ws =>
      rw [String.intercalate_cons_cons]
      show words (word ++ String.singleton ' ' ++ _) = _
      rw [words_append_blank rfl, hword, hws]
      rfl

/-! ## Runs -/

/-- **Characters of one kind are a single run**, if there are any. -/
theorem runs_of_uniform {text : String} {kind : Bool} (hne : text ≠ "")
    (h : ∀ c ∈ text.toList, isBlank c = kind) : runs text = [text.toList] := by
  refine List.splitBy_of_isChain (mt String.toList_eq_nil_iff.mp hne) ?_
  refine List.Pairwise.isChain (List.pairwise_iff_forall_sublist.mpr ?_)
  intro a b hab
  rw [sameKind, h a (hab.subset List.mem_cons_self),
    h b (hab.subset (List.mem_cons_of_mem _ List.mem_cons_self))]
  exact beq_self_eq_true kind

/-- **A word is a single run.** -/
theorem runs_of_isWord {word : String} (h : IsWord word) : runs word = [word.toList] :=
  runs_of_uniform h.ne_empty h.not_blank

end Rpn
