import Rpn.Console.Transcript
import Rpn.Proofs.Session.Run
import Rpn.Proofs.Text.Words

/-!
# Only the words of an input matter

A session reads lines, but what it does depends on their words alone. The
words of lines that are joined to one text are the words of the lines,
whatever blanks they are joined with (`Joined.words_eq`), and a line is
executed word by word. So a session is in the same state after the lines as
after the text, and how an input is cut into lines shows in nothing but how
often it is answered: the answer to the last line is the answer to all of
the input on one line (`only_words_matter`).

A blank line is answered too. It has no words, so the answer is what the
line before it was answered with.
-/

namespace Rpn

/-! ## Lines and the texts they are joined to -/

/-- **Lines that are joined to a text**, with any blanks between them, at
least one between each line and the next. -/
inductive Joined : List String → String → Prop where
  /-- No lines are joined to the empty text. -/
  | nothing : Joined [] ""
  /-- One line is the whole text. -/
  | last (line : String) : Joined [line] line
  /-- A line stands before the text that the others are joined to. -/
  | before (line : String) {gap next text : String} {lines : List String} (hgap : IsGap gap)
      (hne : gap ≠ "") (rest : Joined (next :: lines) text) :
      Joined (line :: next :: lines) (line ++ gap ++ text)

/-- **The words of a text are those of the lines that it was joined from.** -/
theorem Joined.words_eq {lines : List String} {text : String} (h : Joined lines text) :
    words text = lines.flatMap words := by
  induction h with
  | nothing => rfl
  | last line => rw [List.flatMap_singleton]
  | before line hgap hne _ ih =>
    rw [words_append_gap hgap hne, ih]
    rfl

/-! ## The input of a program -/

/-- **A line that is closed by a line break** is the only line of such an
input. -/
theorem inputLines_line {line : String} (h : '\n' ∉ line.toList) :
    inputLines (line ++ "\n") = [line] := by
  have hpieces : (line ++ "\n").toList.splitOn '\n' = [line.toList, []] := by
    rw [String.toList_append]
    exact List.splitOn_append_cons_self_of_not_mem h []
  rw [inputLines, hpieces]
  show [line.toList].map String.ofList = _
  rw [List.map_singleton, String.ofList_toList]

/-- **With options alone for arguments**, a program prints the transcript of
its input. -/
theorem run_of_read {arguments : List String} {given : Options}
    (h : Options.read arguments = .ok given) (input : String) :
    run arguments input = ⟨0, given.session.transcript (inputLines input)⟩ := by
  rw [run, h]

namespace Session

/-! ## What is printed -/

/-- **Lines are answered one after the other.** -/
theorem transcript_append (session : Session) (before after : List String) :
    session.transcript (before ++ after)
      = session.transcript before ++ (before.foldl executeLine session).transcript after := by
  induction before generalizing session with
  | nil => rfl
  | cons line before ih =>
    rw [List.cons_append, transcript, transcript, ih, List.append_assoc]
    rfl

/-- One line is answered once. -/
theorem transcript_singleton (session : Session) (line : String) :
    session.transcript [line] = (session.executeLine line).answer := by
  rw [transcript, transcript, List.append_nil]

/-- **The last answer** is that of the session the lines lead to. -/
theorem transcript_of_ne_nil (session : Session) {lines : List String} (h : lines ≠ []) :
    session.transcript lines
      = session.transcript lines.dropLast ++ (lines.foldl executeLine session).answer := by
  obtain ⟨before, last, rfl⟩ := (List.eq_nil_or_concat lines).resolve_left h
  rw [List.concat_eq_append, transcript_append, List.dropLast_concat, transcript_singleton,
    List.foldl_concat]

/-- A line without words changes nothing. -/
theorem executeLine_of_isGap (session : Session) {blank : String} (h : IsGap blank) :
    session.executeLine blank = session := by
  rw [executeLine, words_of_isGap h]
  rfl

/-- **How an input is cut into lines makes no difference to a session.** -/
theorem foldl_executeLine_of_joined (session : Session) {lines : List String} {text : String}
    (h : Joined lines text) : lines.foldl executeLine session = session.executeLine text := by
  rw [executeLine, h.words_eq, List.foldl_flatMap]
  rfl

/-- **The last answer to some lines is the only answer to the text they are
joined to.** -/
theorem transcript_of_joined (session : Session) {lines : List String} {text : String}
    (h : Joined lines text) (hne : lines ≠ []) :
    session.transcript [text] = (session.executeLine text).answer
      ∧ session.transcript lines
        = session.transcript lines.dropLast ++ (session.executeLine text).answer := by
  refine ⟨transcript_singleton session text, ?_⟩
  rw [transcript_of_ne_nil session hne, foldl_executeLine_of_joined session h]

/-- **Only the words of an input matter.**

However lines are joined to one text with blanks, executing them one after
the other is executing the text as one line, and that is executing what each
word asks for, in order. So the last answer that is printed in the course of
the lines is the only one that is printed for the text. In particular, that
is so of the program itself, if the lines are those of one input and the
text is another, on a line of its own.

A blank line leaves any session as it is, wherever it stands among others,
and is answered as the session stands. -/
theorem only_words_matter (session : Session) {lines : List String} {text : String}
    (h : Joined lines text) :
    (lines.foldl executeLine session = session.executeLine text
      ∧ session.executeLine text
        = session.executeAll ((lines.flatMap words).map (Command.ofWord session.memory)))
    ∧ (lines ≠ [] →
        session.transcript [text] = (session.executeLine text).answer
          ∧ session.transcript lines
            = session.transcript lines.dropLast ++ (session.executeLine text).answer)
    ∧ (∀ arguments given input, Options.read arguments = .ok given →
        inputLines input = lines → lines ≠ [] → '\n' ∉ text.toList →
        run arguments (text ++ "\n") = ⟨0, (given.session.executeLine text).answer⟩
          ∧ run arguments input
            = ⟨0, given.session.transcript lines.dropLast
                ++ (given.session.executeLine text).answer⟩)
    ∧ ∀ blank, IsGap blank →
        session.executeLine blank = session
          ∧ ∀ before after,
            let current := before.foldl executeLine session
            session.transcript (before ++ blank :: after)
              = session.transcript before ++ current.answer ++ current.transcript after := by
  refine ⟨⟨foldl_executeLine_of_joined session h, ?words⟩, transcript_of_joined session h,
    fun arguments given input hread hlines hne hbreak => ?program,
    fun blank hblank => ⟨executeLine_of_isGap session hblank, fun before after => ?blank⟩⟩
  case words => rw [executeLine_eq_executeAll, lineCommands, h.words_eq]
  case program =>
    obtain ⟨hsingle, hall⟩ := transcript_of_joined given.session h hne
    rw [run_of_read hread, run_of_read hread, inputLines_line hbreak, hlines, hsingle, hall]
    exact ⟨rfl, rfl⟩
  case blank =>
    intro current
    rw [transcript_append, transcript, executeLine_of_isGap _ hblank, List.append_assoc]

/-- Three lines, one of them blank, and the same words on one line. -/
theorem only_words_matter_on_three_lines :
    Joined ["3", "", "4 +"] "3\u2003\t 4 +"
      ∧ (start .empty "M").transcript ["3\u2003\t 4 +"] = ["3+4 =", "= 7"]
      ∧ (start .empty "M").transcript ["3", "", "4 +"]
        = ["3 =", "= 3", "3 =", "= 3", "3+4 =", "= 7"]
      ∧ inputLines "3\n\n4 +" = ["3", "", "4 +"]
      ∧ run [] "3\u2003\t 4 +\n" = ⟨0, ["3+4 =", "= 7"]⟩
      ∧ run [] "3\n\n4 +" = ⟨0, ["3 =", "= 3", "3 =", "= 3", "3+4 =", "= 7"]⟩
      ∧ (start .empty "M").executeLine " \t" = start .empty "M" := by
  have hjoined : Joined ["3", "", "4 +"] "3\u2003\t 4 +" :=
    .before "3" (by decide : IsGap "\u2003") (by decide)
      (.before "" (by decide : IsGap "\t ") (by decide) (.last "4 +"))
  have hlines : inputLines "3\n\n4 +" = ["3", "", "4 +"] := by decide +kernel
  have hanswer : ((start .empty "M").executeLine "3\u2003\t 4 +").answer
      = ["3+4 =", "= 7"] := by
    decide +kernel
  have hearlier : (start .empty "M").transcript ["3", "", "4 +"].dropLast
      = ["3 =", "= 3", "3 =", "= 3"] := by
    decide +kernel
  obtain ⟨-, htranscript, hrun, hblank⟩ := only_words_matter (start .empty "M") hjoined
  obtain ⟨htext, hthree⟩ := htranscript (List.cons_ne_nil _ _)
  obtain ⟨hsingle, hall⟩ :=
    hrun [] .none "3\n\n4 +" rfl hlines (List.cons_ne_nil _ _) (by decide)
  have hsession : Options.none.session = start .empty "M" := rfl
  rw [hanswer] at htext
  rw [hearlier, hanswer] at hthree
  rw [hsession, hanswer] at hsingle
  rw [hsession, hearlier, hanswer] at hall
  exact ⟨hjoined, htext, hthree, hlines, hsingle, hall, (hblank " \t" (by decide)).1⟩

end Session

end Rpn
