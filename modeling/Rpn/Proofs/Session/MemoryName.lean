import Rpn.Proofs.Session.Entry

/-!
# What the name of the memory matters for

A memory has three words: its name, and the name behind either of the two
arrows. Whatever the name, the arrows store into the memory; no numeral starts
with an arrow, and no name is as long as itself behind one. The name by itself
recalls the memory unless it is a numeral, as numerals are tried first.

All other words are what they are without a memory (`ofWord_of_not_mem`),
and then they neither recall it nor store into it. So two sessions in which
nothing but the name differs stay like that for as long as the words of
neither memory are executed (`executeLine_renamed`).
-/

namespace Rpn

/-- **A text is no numeral** if its first character starts none. -/
theorem Numeral.floatOf?_eq_none {text : String} {c : Char} {rest : List Char}
    (h : text.toList = c :: rest) (hdigit : c.isDigit = false)
    (hsign : c ≠ '-' ∧ c ≠ '+') (hpoint : c ≠ '.') : floatOf? text = none := by
  have hunsigned : splitSign (c :: rest) = (false, c :: rest) := by
    unfold splitSign
    split
    · exact absurd (List.cons.inj ‹_›).1 hsign.1
    · exact absurd (List.cons.inj ‹_›).1 hsign.2
    · rfl
  have hnumber : ¬c.isDigit = true := Bool.eq_false_iff.mp hdigit
  have hfraction : splitFraction (c :: rest) = ([], c :: rest) := by
    unfold splitFraction
    split
    · exact absurd (List.cons.inj ‹_›).1 hpoint
    · rfl
  have hmagnitude : magnitude? (c :: rest) = none := by
    rw [magnitude?, List.takeWhile_cons_of_neg hnumber, List.dropWhile_cons_of_neg hnumber,
      hfraction]
    rfl
  rw [floatOf?, read?, h, hunsigned]
  show ((magnitude? (c :: rest)).map _).bind toFloat? = none
  rw [hmagnitude]
  rfl

namespace Command

variable {memory word : String}

/-- **The words for a memory**: its name, and the name behind an arrow. -/
def memoryWords (memory : String) : List String := memory :: storeWords memory

/-! ## The words for the memory -/

/-- A store word is an arrow with the name behind it. -/
theorem exists_arrow_of_mem_storeWords (h : word ∈ storeWords memory) :
    ∃ arrow, (arrow = '→' ∨ arrow = '>') ∧ word.toList = arrow :: memory.toList := by
  obtain rfl | h := List.mem_cons.mp h
  · exact ⟨'→', .inl rfl, by rw [String.toList_append]; rfl⟩
  · obtain rfl := List.mem_singleton.mp h
    exact ⟨'>', .inr rfl, by rw [String.toList_append]; rfl⟩

/-- **A store word stores into the memory**, whatever that is called. -/
theorem ofWord_of_mem_storeWords (h : word ∈ storeWords memory) :
    ofWord memory word = .storeMemory := by
  obtain ⟨arrow, harrow, hchars⟩ := exists_arrow_of_mem_storeWords h
  have hnumeral : Numeral.floatOf? word = none := by
    obtain rfl | rfl := harrow <;> exact Numeral.floatOf?_eq_none hchars rfl (by decide) (by decide)
  have hne : word ≠ memory := by
    rintro rfl
    exact List.cons_ne_self arrow word.toList hchars.symm
  rw [ofWord_of_floatOf?_eq_none hnumeral, ofName, if_neg hne, if_pos h]

/-- **The name of the memory recalls it**, if it is not a numeral. -/
theorem ofWord_self (h : Numeral.floatOf? memory = none) :
    ofWord memory memory = .recallMemory := by
  rw [ofWord_of_floatOf?_eq_none h, ofName, if_pos rfl]

/-! ## All other words -/

/-- **The command a word is without a memory.** -/
def ofPlainWord (word : String) : Command :=
  match Numeral.floatOf? word with
  | some value => operand value
  | none =>
    if word = "undo" then undo
    else if word = "C" ∨ word = "clear" then clear
    else symbol (symbolOfSpelling word)

/-- **A word that is none for the memory** is what it is without one. -/
theorem ofWord_of_not_mem (h : word ∉ memoryWords memory) :
    ofWord memory word = ofPlainWord word := by
  rw [memoryWords, List.mem_cons, not_or] at h
  cases hvalue : Numeral.floatOf? word with
  | some value => rw [ofWord_of_floatOf?_eq_some hvalue, ofPlainWord, hvalue]
  | none =>
    rw [ofWord_of_floatOf?_eq_none hvalue, ofName, if_neg h.1, if_neg h.2, ofPlainWord, hvalue]

/-- Without a memory, nothing recalls it or stores into it. -/
theorem ofPlainWord_ne (word : String) :
    ofPlainWord word ≠ .recallMemory ∧ ofPlainWord word ≠ .storeMemory := by
  unfold ofPlainWord
  split
  · simp
  · split
    · simp
    · split <;> simp

end Command

namespace Session

open Command

/-! ## Sessions that differ in the name -/

/-- **The session with a memory of another name**, and otherwise the same. -/
def renamed (session : Session) (memory : String) : Session := { session with memory }

section

variable {session : Session} {memory : String}

/-- **A command that leaves the memory alone** does the same whatever that is
called. -/
theorem execute_renamed {command : Command} (hrecall : command ≠ .recallMemory)
    (hstore : command ≠ .storeMemory) :
    (session.renamed memory).execute command = (session.execute command).renamed memory := by
  cases command with
  | recallMemory => exact absurd rfl hrecall
  | storeMemory => exact absurd rfl hstore
  | operand value => rfl
  | undo => rfl
  | clear => rfl
  | symbol symbol => rfl

/-- **A word for neither memory** does the same. -/
theorem executeWord_renamed {word : String} (h : word ∉ memoryWords session.memory)
    (h' : word ∉ memoryWords memory) :
    (session.renamed memory).executeWord word = (session.executeWord word).renamed memory := by
  obtain ⟨hrecall, hstore⟩ := ofPlainWord_ne word
  show (session.renamed memory).execute (ofWord memory word)
    = (session.execute (ofWord session.memory word)).renamed memory
  rw [ofWord_of_not_mem h, ofWord_of_not_mem h']
  exact execute_renamed hrecall hstore

/-- **A line without words for either memory** does the same. -/
theorem executeLine_renamed {line : String}
    (h : ∀ word ∈ words line, word ∉ memoryWords session.memory ∧ word ∉ memoryWords memory) :
    (session.renamed memory).executeLine line = (session.executeLine line).renamed memory := by
  rw [executeLine, executeLine]
  generalize words line = ws at h
  induction ws generalizing session with
  | nil => rfl
  | cons word ws ih =>
    obtain ⟨hword, hword'⟩ := h word List.mem_cons_self
    rw [List.foldl_cons, List.foldl_cons, executeWord_renamed hword hword']
    refine ih fun other hmem => ?_
    rw [memory_executeWord]
    exact h other (List.mem_cons_of_mem word hmem)

end

/-- **The name of a memory matters for its three words, and for no others.**

Whatever the name, it stores into the memory behind an arrow of either kind;
by itself it is a number if it is a numeral for one, and else it recalls the
memory. A word that is none of the three, for either of two names, is the same
command with both, and neither recalls the memory nor stores into it. So two
sessions that differ in the name alone have the same stack, the same
variables and the same display after every line of such words. -/
theorem memory_name_touches_its_words (memory : String) :
    (ofWord memory ("→" ++ memory) = .storeMemory
      ∧ ofWord memory (">" ++ memory) = .storeMemory
      ∧ (∀ value, Numeral.floatOf? memory = some value → ofWord memory memory = .operand value)
      ∧ (Numeral.floatOf? memory = none → ofWord memory memory = .recallMemory))
    ∧ ∀ other : String,
      (∀ word, word ∉ [memory, "→" ++ memory, ">" ++ memory, other, "→" ++ other, ">" ++ other] →
        ofWord memory word = ofWord other word
          ∧ ofWord memory word ≠ .recallMemory ∧ ofWord memory word ≠ .storeMemory)
      ∧ ∀ a b : Session, a.memory = memory → b.memory = other → a.engine = b.engine →
          a.display = b.display → ∀ line,
          (∀ word ∈ words line,
            word ∉ [memory, "→" ++ memory, ">" ++ memory, other, "→" ++ other, ">" ++ other]) →
          (a.executeLine line).engine = (b.executeLine line).engine
            ∧ (a.executeLine line).display = (b.executeLine line).display := by
  have hsplit {other word : String} (h : word ∉ memoryWords memory ++ memoryWords other) :
      word ∉ memoryWords memory ∧ word ∉ memoryWords other :=
    ⟨fun hmem => h (List.mem_append_left _ hmem), fun hmem => h (List.mem_append_right _ hmem)⟩
  refine ⟨⟨ofWord_of_mem_storeWords List.mem_cons_self,
    ofWord_of_mem_storeWords (List.mem_cons_of_mem _ List.mem_cons_self),
    fun value => ofWord_of_floatOf?_eq_some, ofWord_self⟩, fun other => ⟨fun word h => ?same, ?run⟩⟩
  case same =>
    obtain ⟨hword, hword'⟩ := hsplit h
    rw [ofWord_of_not_mem hword, ofWord_of_not_mem hword']
    exact ⟨rfl, ofPlainWord_ne word⟩
  case run =>
    rintro a b rfl rfl hengine hdisplay line h
    have hother : a.renamed b.memory = b := by rw [renamed, hengine, hdisplay]
    have hrenamed : (a.renamed b.memory).executeLine line
        = (a.executeLine line).renamed b.memory :=
      executeLine_renamed fun word hmem => hsplit (h word hmem)
    rw [hother] at hrenamed
    rw [hrenamed]
    exact ⟨rfl, rfl⟩

/-- A memory called like an operator, and one called like a number. -/
theorem memory_name_touches_its_words_sin_one :
    Numeral.floatOf? "sin" = none ∧ Numeral.floatOf? "1" = some 1
      ∧ ofWord "sin" "sin" = .recallMemory ∧ ofWord "1" "1" = .operand 1
      ∧ ofWord "1" "→1" = .storeMemory
      ∧ ofWord "sin" "→x" = ofWord "1" "→x"
      ∧ ((start .empty "sin").executeLine "2 1e0 cos").engine
        = ((start .empty "1").executeLine "2 1e0 cos").engine := by
  have hsin : Numeral.floatOf? "sin" = none := by decide +kernel
  have hone : Numeral.floatOf? "1" = some 1 := by decide +kernel
  obtain ⟨⟨-, -, -, hrecalls⟩, hothers⟩ := memory_name_touches_its_words "sin"
  obtain ⟨⟨hstores, -, hnumber, -⟩, -⟩ := memory_name_touches_its_words "1"
  obtain ⟨hsame, hrun⟩ := hothers "1"
  have hwords : words "2 1e0 cos" = ["2", "1e0", "cos"] := by decide +kernel
  obtain ⟨hengine, -⟩ := hrun (start .empty "sin") (start .empty "1") rfl rfl rfl rfl "2 1e0 cos"
    (by rw [hwords]; decide)
  exact ⟨hsin, hone, hrecalls hsin, hnumber 1 hone, hstores, (hsame "→x" (by decide)).1, hengine⟩

end Session

end Rpn
