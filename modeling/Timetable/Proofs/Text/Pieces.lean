import Timetable.Text.Pieces
import Timetable.Text.Words

/-!
# What cutting a text at a mark gives

A text is cut at the first place of a mark, and the pieces between all marks
are those that the mark joins to the text and that hold no mark themselves.
-/

namespace Timetable.Text

theorem cut_eq_none_iff {mark : Char} {text : List Char} :
    cut mark text = none ↔ mark ∉ text := by
  induction text with
  | nil => simp [cut]
  | cons char rest induction =>
      by_cases atMark : char = mark
      · simp [cut, atMark]
      · simp only [cut, atMark, if_false, List.mem_cons, Ne.symm atMark,
          false_or, ← induction]
        cases cut mark rest <;> simp

theorem cut_append {mark : Char} {before : List Char}
    (absent : mark ∉ before) (after : List Char) :
    cut mark (before ++ mark :: after) = some (before, after) := by
  induction before with
  | nil => simp [cut]
  | cons char before induction =>
      simp only [List.mem_cons, not_or] at absent
      simp [cut, Ne.symm absent.1, induction absent.2]

theorem cut_eq_some_iff {mark : Char} {text before after : List Char} :
    cut mark text = some (before, after) ↔
      text = before ++ mark :: after ∧ mark ∉ before := by
  constructor
  · intro found
    induction text generalizing before with
    | nil => simp [cut] at found
    | cons char rest induction =>
        by_cases atMark : char = mark
        · simp only [cut, atMark, if_true, Option.some.injEq,
            Prod.mk.injEq] at found
          rcases found with ⟨rfl, rfl⟩
          simp [atMark]
        · simp only [cut, atMark, if_false] at found
          cases restFound : cut mark rest with
          | none => simp [restFound] at found
          | some sides =>
              simp only [restFound, Option.some.injEq,
                Prod.mk.injEq] at found
              rcases found with ⟨rfl, rfl⟩
              rcases induction restFound with ⟨restEq, absent⟩
              simp [restEq, absent, Ne.symm atMark]
  · rintro ⟨rfl, absent⟩
    exact cut_append absent after

/-- The pieces of a text are its text again when the mark joins them. -/
theorem joinBy_pieces (mark : Char) (text : List Char) :
    pieces mark text ≠ [] ∧
      joinBy [mark] (pieces mark text) = text ∧
        ∀ piece ∈ pieces mark text, mark ∉ piece := by
  induction text with
  | nil => simp [pieces, joinBy]
  | cons char rest induction =>
      rcases induction with ⟨notEmpty, joined, absent⟩
      cases split : pieces mark rest with
      | nil => exact absurd split notEmpty
      | cons piece more =>
          rw [split] at joined absent
          by_cases atMark : char = mark
          · subst atMark
            refine ⟨by simp [pieces], ?_, ?_⟩
            · simp only [pieces, if_true, split, joinBy, List.nil_append,
                List.singleton_append, joined]
            · simpa [pieces, split] using absent
          · have extended : pieces mark (char :: rest) =
                (char :: piece) :: more := by
              simp only [pieces, atMark, if_false, split]
            rw [extended]
            refine ⟨by simp, ?_, ?_⟩
            · rw [← joined]
              cases more <;> simp [joinBy]
            · intro other member
              rcases List.mem_cons.mp member with rfl | member
              · simp [Ne.symm atMark, absent piece]
              · exact absent other (List.mem_cons_of_mem _ member)

theorem pieces_of_absent {mark : Char} {text : List Char}
    (absent : mark ∉ text) : pieces mark text = [text] := by
  induction text with
  | nil => rfl
  | cons char text induction =>
      simp only [List.mem_cons, not_or] at absent
      simp only [pieces, Ne.symm absent.1, if_false, induction absent.2]

theorem pieces_append {mark : Char} {text : List Char}
    (absent : mark ∉ text) (rest : List Char) :
    pieces mark (text ++ mark :: rest) = text :: pieces mark rest := by
  induction text with
  | nil => simp only [List.nil_append, pieces, if_true]
  | cons char text induction =>
      simp only [List.mem_cons, not_or] at absent
      simp only [List.cons_append, pieces, Ne.symm absent.1, if_false,
        induction absent.2]

/-- Texts without the mark are the pieces of what the mark joins them to. -/
theorem pieces_joinBy {mark : Char} {texts : List (List Char)}
    (notEmpty : texts ≠ []) (absent : ∀ text ∈ texts, mark ∉ text) :
    pieces mark (joinBy [mark] texts) = texts := by
  induction texts with
  | nil => exact absurd rfl notEmpty
  | cons text rest induction =>
      have textAbsent := absent text (by simp)
      cases rest with
      | nil => exact pieces_of_absent textAbsent
      | cons next rest =>
          have restPieces := induction (by simp)
            fun other member => absent other (List.mem_cons_of_mem _ member)
          simp only [joinBy, List.append_assoc, List.singleton_append]
          rw [pieces_append textAbsent, restPieces]

theorem not_mem_joinBy {mark other : Char} {texts : List (List Char)}
    (different : other ≠ mark) (absent : ∀ text ∈ texts, other ∉ text) :
    other ∉ joinBy [mark] texts := by
  induction texts with
  | nil => simp [joinBy]
  | cons text rest induction =>
      have restAbsent := induction
        fun later member => absent later (List.mem_cons_of_mem _ member)
      cases rest with
      | nil => exact absent text (by simp)
      | cons next rest =>
          simp [joinBy, absent text, different, restAbsent]

/-- The mark stands between any two texts that it joins. -/
theorem mem_joinBy {mark : Char} {texts : List (List Char)}
    (several : 2 ≤ texts.length) : mark ∈ joinBy [mark] texts := by
  match texts, several with
  | text :: next :: rest, _ => simp [joinBy]

theorem two_le_length_pieces {mark : Char} {text : List Char}
    (occurs : mark ∈ text) : 2 ≤ (pieces mark text).length := by
  rcases joinBy_pieces mark text with ⟨notEmpty, joined, absent⟩
  match split : pieces mark text with
  | [] => exact absurd split notEmpty
  | [piece] =>
      rw [split] at joined absent
      rw [← joined] at occurs
      exact absurd occurs (absent piece (by simp))
  | piece :: next :: rest => simp

theorem infix_of_mem_joinBy {separator text : List Char}
    {texts : List (List Char)} (member : text ∈ texts) :
    text <:+: joinBy separator texts := by
  induction texts with
  | nil => cases member
  | cons head rest induction =>
      cases rest with
      | nil =>
          obtain rfl := List.mem_singleton.mp member
          exact List.infix_refl text
      | cons next rest =>
          rcases List.mem_cons.mp member with rfl | member
          · exact ⟨[], separator ++ joinBy separator (next :: rest),
              by simp [joinBy]⟩
          · exact (induction member).trans
              (List.suffix_append _ _).isInfix

end Timetable.Text
