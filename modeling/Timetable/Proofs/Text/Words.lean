import Timetable.Text.Words

/-!
# What the words of a text are

`Splits` says how a text is made up of words and gaps: the words are not empty
and hold no blank, and behind each of them stands a blank or the text ends.
`words_eq_iff` says that `words` finds the only way to split a text.
-/

namespace Timetable.Text

/-- A run of blanks, which may be empty. -/
def IsGap (text : List Char) : Prop := ∀ char ∈ text, isBlank char = true

/-- At least one character, and no blank. -/
def IsWord (text : List Char) : Prop :=
  text ≠ [] ∧ ∀ char ∈ text, isBlank char = false

/-- A word that stands before this text ends there. -/
def EndsWord (text : List Char) : Prop :=
  ∀ char ∈ text.head?, isBlank char = true

/-- A text is made up of these words, with gaps around them. -/
inductive Splits : List Char → List (List Char) → Prop where
  | gap {gap : List Char} (blank : IsGap gap) : Splits gap []
  | word {gap word rest : List Char} {more : List (List Char)}
      (blank : IsGap gap) (isWord : IsWord word) (ends : EndsWord rest)
      (splits : Splits rest more) :
      Splits (gap ++ word ++ rest) (word :: more)

theorem words_cons (char : Char) (rest : List Char) :
    words (char :: rest) =
      if isBlank char then words rest
      else
        match rest, words rest with
        | next :: _, word :: more =>
            if isBlank next then [char] :: word :: more
            else (char :: word) :: more
        | _, more => [char] :: more :=
  words.eq_def _

theorem words_cons_blank {char : Char} (blank : isBlank char = true)
    (rest : List Char) : words (char :: rest) = words rest := by
  rw [words_cons, if_pos blank]

theorem words_gap_append {gap : List Char} (blank : IsGap gap)
    (rest : List Char) : words (gap ++ rest) = words rest := by
  induction gap with
  | nil => rfl
  | cons char gap induction =>
      rw [List.cons_append, words_cons_blank (blank char (by simp))]
      exact induction fun other member => blank other (by simp [member])

/-- A character before a gap or the end is a word by itself. -/
theorem words_cons_of_ends {char : Char} {rest : List Char}
    (notBlank : isBlank char = false) (ends : EndsWord rest) :
    words (char :: rest) = [char] :: words rest := by
  rw [words_cons, if_neg (by simp [notBlank])]
  cases rest with
  | nil => rfl
  | cons next rest =>
      have nextBlank : isBlank next = true := ends next rfl
      cases words (next :: rest) with
      | nil => rfl
      | cons word more => simp only [nextBlank, if_true]

/-- A character extends the word right after it. -/
theorem words_cons_of_word {char next : Char} {rest word : List Char}
    {more : List (List Char)} (notBlank : isBlank char = false)
    (nextNotBlank : isBlank next = false)
    (split : words (next :: rest) = word :: more) :
    words (char :: next :: rest) = (char :: word) :: more := by
  rw [words_cons, if_neg (by simp [notBlank])]
  simp only [split, nextNotBlank, Bool.false_eq_true, if_false]

theorem words_word_append {word rest : List Char} (isWord : IsWord word)
    (ends : EndsWord rest) :
    words (word ++ rest) = word :: words rest := by
  rcases isWord with ⟨notEmpty, notBlank⟩
  induction word with
  | nil => exact absurd rfl notEmpty
  | cons char word induction =>
      have charNotBlank := notBlank char (by simp)
      cases word with
      | nil => exact words_cons_of_ends charNotBlank ends
      | cons next word =>
          have split := induction (by simp)
            fun other member => notBlank other (List.mem_cons_of_mem _ member)
          exact words_cons_of_word charNotBlank (notBlank next (by simp)) split

theorem Splits.words_eq {text : List Char} {parts : List (List Char)}
    (splits : Splits text parts) : words text = parts := by
  induction splits with
  | gap blank =>
      simpa [words] using words_gap_append blank []
  | word blank isWord ends splits induction =>
      rw [List.append_assoc, words_gap_append blank,
        words_word_append isWord ends, induction]

theorem Splits.cons_blank {char : Char} {text : List Char}
    {parts : List (List Char)} (blank : isBlank char = true)
    (splits : Splits text parts) : Splits (char :: text) parts := by
  have longer : ∀ {gap : List Char}, IsGap gap → IsGap (char :: gap) := by
    intro gap gapBlank other member
    rcases List.mem_cons.mp member with rfl | member
    · exact blank
    · exact gapBlank other member
  cases splits with
  | gap gapBlank => exact .gap (longer gapBlank)
  | word gapBlank isWord ends splits =>
      exact .word (longer gapBlank) isWord ends splits

theorem Splits.cons_char {char : Char} {rest : List Char}
    {parts : List (List Char)} (notBlank : isBlank char = false)
    (splits : Splits rest parts) :
    Splits (char :: rest) (words (char :: rest)) := by
  have alone : IsWord [char] := by
    refine ⟨by simp, ?_⟩
    intro other member
    rw [List.mem_singleton.mp member]
    exact notBlank
  have emptyGap : IsGap [] := by
    intro other member
    cases member
  by_cases ends : EndsWord rest
  · rw [words_cons_of_ends notBlank ends, splits.words_eq]
    exact .word emptyGap alone ends splits
  · cases splits with
    | gap blank =>
        refine absurd ?_ ends
        intro next atHead
        exact blank next (List.mem_of_mem_head? atHead)
    | @word gap word rest more blank isWord wordEnds splits =>
        cases gap with
        | cons first gap =>
            refine absurd ?_ ends
            intro next atHead
            cases atHead
            exact blank first (by simp)
        | nil =>
            have longer : IsWord (char :: word) := by
              refine ⟨by simp, ?_⟩
              intro other member
              rcases List.mem_cons.mp member with rfl | member
              · exact notBlank
              · exact isWord.2 other member
            have split := words_word_append longer wordEnds
            rw [splits.words_eq] at split
            simp only [List.nil_append, ← List.cons_append, split]
            exact .word emptyGap longer wordEnds splits

/-- The words of a text split it. -/
theorem splits_words (text : List Char) : Splits text (words text) := by
  induction text with
  | nil => exact .gap (by intro char member; cases member)
  | cons char rest induction =>
      cases blank : isBlank char with
      | true =>
          rw [words_cons_blank blank]
          exact induction.cons_blank blank
      | false => exact induction.cons_char blank

/-- A text splits in one way, which `words` finds. -/
theorem words_eq_iff {text : List Char} {parts : List (List Char)} :
    words text = parts ↔ Splits text parts := by
  constructor
  · rintro rfl
    exact splits_words text
  · exact Splits.words_eq

/-- Words with single spaces between them are split into these words. -/
theorem splits_unwords {parts : List (List Char)}
    (each : ∀ part ∈ parts, IsWord part) : Splits (unwords parts) parts := by
  have emptyGap : IsGap [] := by
    intro char member
    cases member
  induction parts with
  | nil => exact .gap emptyGap
  | cons word rest induction =>
      have isWord := each word (by simp)
      have restSplits := induction
        fun other member => each other (List.mem_cons_of_mem _ member)
      cases rest with
      | nil =>
          have atEnd : Splits ([] ++ word ++ []) [word] :=
            .word emptyGap isWord (by simp [EndsWord]) (.gap emptyGap)
          simpa [unwords, joinBy] using atEnd
      | cons next more =>
          have beforeSpace :
              Splits ([] ++ word ++ ' ' :: unwords (next :: more))
                (word :: next :: more) :=
            .word emptyGap isWord (by simp [EndsWord]; rfl)
              (restSplits.cons_blank rfl)
          simpa [unwords, joinBy] using beforeSpace

theorem Splits.isWord_of_mem {text part : List Char}
    {parts : List (List Char)} (splits : Splits text parts)
    (member : part ∈ parts) : IsWord part := by
  induction splits with
  | gap blank => cases member
  | word blank isWord ends splits induction =>
      rcases List.mem_cons.mp member with rfl | member
      · exact isWord
      · exact induction member

theorem Splits.infix_of_mem {text part : List Char}
    {parts : List (List Char)} (splits : Splits text parts)
    (member : part ∈ parts) : part <:+: text := by
  induction splits with
  | gap blank => cases member
  | @word gap word rest more blank isWord ends splits induction =>
      rcases List.mem_cons.mp member with rfl | member
      · exact ⟨gap, rest, rfl⟩
      · exact (induction member).trans (List.suffix_append _ _).isInfix

end Timetable.Text
