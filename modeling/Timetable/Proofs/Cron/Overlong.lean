import Timetable.Proofs.Cron.Meaning

/-!
# Numerals of too many digits

Whatever is wrong with an expression is answered by nothing or by no, with one
exception: a numeral of more digits than can be converted is a fault.  It is one
only if the reading gets there.  `FieldTerm.numberTexts` lists the texts of a
token that are read as numbers, in the order of reading, and `Stalls` says that
the first of some texts that is not read is such a numeral.

What spells a term stalls if and only if one of its numerals is too long
(`FieldTerm.shortRuns_of_spells` is the hard half), so whatever is compiled has
no long run of digits (`Pattern.shortRuns_of_compile`).
-/

namespace Timetable.Cron

open Timetable.Calendar Timetable.Text

/-- The first of some texts that is not read as a number has too many digits. -/
def Stalls (texts : List (List Char)) : Prop :=
  ∃ before text after, texts = before ++ text :: after ∧
    (∀ earlier ∈ before, ∃ value, readNumeral earlier = .ok value) ∧
      Overlong text

theorem fieldNumber_eq_ok_iff {text : List Char} {value : Nat} :
    fieldNumber text = .ok value ↔ readNumeral text = .ok value := by
  unfold fieldNumber
  split <;> simp_all

theorem fieldNumber_eq_tooLong_iff {text : List Char} :
    fieldNumber text = .error .tooLong ↔ Overlong text := by
  rw [← readNumeral_eq_tooLong_iff]
  unfold fieldNumber
  split <;> simp_all

theorem stalls_iff {texts : List (List Char)} :
    Stalls texts ↔ texts.mapM fieldNumber = .error .tooLong := by
  simp only [mapM_eq_error_iff, fieldNumber_eq_ok_iff,
    fieldNumber_eq_tooLong_iff, Stalls]

@[simp]
theorem not_stalls_nil : ¬ Stalls [] := by
  simp [Stalls]

theorem stalls_cons_iff {text : List Char} {rest : List (List Char)} :
    Stalls (text :: rest) ↔
      fieldNumber text = .error .tooLong ∨
        (∃ value, fieldNumber text = .ok value) ∧ Stalls rest := by
  have tail (value : Nat) :
      (rest.mapM fieldNumber >>= fun values => pure (value :: values)) =
          .error .tooLong ↔
        rest.mapM fieldNumber = .error .tooLong := by
    simp [bind_eq_error_iff, pure, Except.pure]
  simp only [stalls_iff, List.mapM_cons, bind_eq_error_iff, tail,
    exists_and_right]

/-- Texts that all denote numbers stall if one has too many digits. -/
theorem short_of_not_stalls {texts : List (List Char)}
    (flows : ¬ Stalls texts)
    (denote : ∀ text ∈ texts, ∃ value, Denotes text value) :
    ∀ text ∈ texts, text.length ≤ numeralLimit := by
  induction texts with
  | nil => simp
  | cons text rest induction =>
      rw [stalls_cons_iff, fieldNumber_eq_tooLong_iff] at flows
      rcases not_or.mp flows with ⟨notOverlong, restFlows⟩
      rcases denote text (by simp) with ⟨value, denotes⟩
      have short : text.length ≤ numeralLimit := by
        by_contra long
        exact notOverlong ⟨by omega, value, denotes⟩
      have read : fieldNumber text = .ok value :=
        fieldNumber_eq_ok_iff.mpr (readNumeral_eq_ok_iff.mpr ⟨denotes, short⟩)
      intro other member
      rcases List.mem_cons.mp member with rfl | member
      · exact short
      · exact induction (fun stalls => restFlows ⟨⟨value, read⟩, stalls⟩)
          (fun later inRest => denote later (List.mem_cons_of_mem _ inRest))
          other member

/-! ## Tokens -/

namespace FieldTerm

/-- The two sides of a dash, or other texts if there is none. -/
def dashed (text : List Char) (undashed : List (List Char)) :
    List (List Char) :=
  match cut '-' text with
  | some (first, last) => [first, last]
  | none => undashed

/--
The texts of a token that are read as numbers, in the order of reading.  A step
of zero is refused before its base is read.
-/
def numberTexts (token : List Char) : List (List Char) :=
  if token = ['*'] then []
  else
    match cut '/' token with
    | some (base, stepText) =>
        stepText ::
          if (readNumeral stepText).toOption = some 0 ∨ base = ['*'] then []
          else dashed base [base]
    | none => dashed token (pieces ',' token)

theorem fieldRange_eq_tooLong_iff {written first last : List Char} :
    fieldRange written first last = .error .tooLong ↔
      Stalls [first, last] := by
  have compared (left right : Nat) :
      (if right < left then
        (.error (.reversed left right (String.ofList written)) :
          Except FieldError (Nat × Nat))
      else .ok (left, right)) ≠ .error .tooLong := by
    split <;> simp
  simp only [fieldRange, bind_eq_error_iff, stalls_cons_iff, compared,
    not_stalls_nil, and_false, exists_false, or_false, exists_and_right]

theorem parseStepped_eq_tooLong_iff {token base stepText : List Char} :
    parseStepped token base stepText = .error .tooLong ↔
      Stalls (stepText ::
        if (readNumeral stepText).toOption = some 0 ∨ base = ['*'] then []
        else dashed base [base]) := by
  rw [parseStepped, bind_eq_error_iff, stalls_cons_iff]
  refine or_congr_right ?_
  simp only [← exists_and_right]
  refine exists_congr fun step => and_congr_right fun read => ?_
  rw [fieldNumber_eq_ok_iff] at read
  simp only [read, Except.toOption, Option.some.injEq]
  -- The base is not read behind a zero step, nor if it is a star.
  by_cases zero : step = 0
  · simp [zero]
  by_cases star : base = ['*']
  · simp [zero, star]
  simp only [zero, star, or_self, if_false, dashed]
  cases cut '-' base with
  | none => simp [bind_eq_error_iff, stalls_cons_iff]
  | some sides => simp [bind_eq_error_iff, fieldRange_eq_tooLong_iff]

theorem parsePlain_eq_tooLong_iff {token : List Char} :
    parsePlain token = .error .tooLong ↔
      Stalls (dashed token (pieces ',' token)) := by
  rw [parsePlain, dashed]
  cases cut '-' token with
  | some sides => simp [bind_eq_error_iff, fieldRange_eq_tooLong_iff]
  | none =>
      by_cases comma : ',' ∈ token
      · simp [comma, bind_eq_error_iff, stalls_iff]
      · simp [comma, pieces_of_absent comma, bind_eq_error_iff,
          stalls_cons_iff]

/-- Reading a token stalls at the first bad one of its number texts. -/
theorem parse_eq_tooLong_iff {token : List Char} :
    parse token = .error .tooLong ↔ Stalls (numberTexts token) := by
  rw [parse, numberTexts]
  by_cases star : token = ['*']
  · simp [star]
  rw [if_neg star, if_neg star]
  cases cut '/' token with
  | none => exact parsePlain_eq_tooLong_iff
  | some sides => exact parseStepped_eq_tooLong_iff

theorem numberTexts_of_slash {base stepText : List Char}
    (noSlash : '/' ∉ base) :
    numberTexts (base ++ '/' :: stepText) =
      stepText ::
        if (readNumeral stepText).toOption = some 0 ∨ base = ['*'] then []
        else dashed base [base] := by
  have notStar : base ++ '/' :: stepText ≠ ['*'] :=
    ne_star_of_mem (by simp : '/' ∈ _) (by decide)
  rw [numberTexts, if_neg notStar, cut_append noSlash]

theorem numberTexts_of_no_slash {token : List Char} (notStar : token ≠ ['*'])
    (noSlash : '/' ∉ token) :
    numberTexts token = dashed token (pieces ',' token) := by
  rw [numberTexts, if_neg notStar, cut_eq_none_iff.mpr noSlash]

theorem dashed_range {firstText : List Char} (noDash : '-' ∉ firstText)
    (lastText : List Char) (undashed : List (List Char)) :
    dashed (firstText ++ '-' :: lastText) undashed =
      [firstText, lastText] := by
  rw [dashed, cut_append noDash]

theorem dashed_of_absent {text : List Char} (noDash : '-' ∉ text)
    (undashed : List (List Char)) : dashed text undashed = undashed := by
  rw [dashed, cut_eq_none_iff.mpr noDash]

theorem read_ne_zero {text : List Char} {value : Nat}
    (denotes : Denotes text value) (positive : 0 < value) :
    (readNumeral text).toOption ≠ some 0 := by
  intro zero
  cases read : readNumeral text with
  | error failure => simp [read, Except.toOption] at zero
  | ok other =>
      rw [read, Except.toOption, Option.some.injEq] at zero
      have same := (readNumeral_eq_ok_iff.mp read).1.2.2
      rw [← denotes.2.2] at same
      omega

/-- Members without long runs of digits are joined to such a text. -/
theorem shortRuns_joinBy {texts : List (List Char)}
    (short : ∀ text ∈ texts, ShortRuns text) :
    ShortRuns (joinBy [','] texts) := by
  induction texts with
  | nil => exact shortRuns_nil
  | cons text rest induction =>
      have restShort := induction
        fun other member => short other (List.mem_cons_of_mem _ member)
      cases rest with
      | nil => exact short text (by simp)
      | cons next rest =>
          rw [joinBy, List.append_assoc, List.singleton_append]
          · exact .append (by decide) (short text (by simp)) restShort
          · simp

theorem numberTexts_of_denotes {text : List Char} {value : Nat}
    (denotes : Denotes text value) : numberTexts text = [text] := by
  rw [numberTexts_of_no_slash (ne_star_of_denotes denotes)
      (denotes.not_mem (by decide)),
    dashed_of_absent (denotes.not_mem (by decide)),
    pieces_of_absent (denotes.not_mem (by decide))]

/--
The texts of a token that spells a proper term are its numerals, so the token
has a long run of digits only if one of them is long.
-/
theorem numberTexts_of_spells {token : List Char} {term : FieldTerm}
    (spells : Spells token term) (proper : term.Proper) :
    (∀ text ∈ numberTexts token, ∃ value, Denotes text value) ∧
      ((∀ text ∈ numberTexts token, ShortRuns text) → ShortRuns token) := by
  cases spells with
  | any =>
      exact ⟨by simp [numberTexts],
        fun _ => shortRuns_of_length_le (by decide)⟩
  | single denotes =>
      rw [numberTexts_of_denotes denotes]
      exact ⟨by simpa using ⟨_, denotes⟩, by simp⟩
  | @range firstText lastText _ _ firstDenotes lastDenotes =>
      rw [numberTexts_of_no_slash (range_ne_star firstText lastText)
          (not_mem_range firstDenotes lastDenotes (by decide) (by decide)),
        dashed_range (firstDenotes.not_mem (by decide))]
      refine ⟨by simpa using ⟨⟨_, firstDenotes⟩, _, lastDenotes⟩, ?_⟩
      exact fun short => .append (by decide) (short firstText (by simp))
        (short lastText (by simp))
  | @members texts values several each =>
      have notStar : joinBy [','] texts ≠ ['*'] :=
        ne_star_of_mem (mem_joinBy several) (by decide)
      have noSlash : '/' ∉ joinBy [','] texts :=
        not_mem_joinBy (by decide) (not_mem_members each (by decide))
      have noDash : '-' ∉ joinBy [','] texts :=
        not_mem_joinBy (by decide) (not_mem_members each (by decide))
      have notEmpty : texts ≠ [] := by
        rintro rfl
        simp at several
      rw [numberTexts_of_no_slash notStar noSlash, dashed_of_absent noDash,
        pieces_joinBy notEmpty (not_mem_members each (by decide))]
      refine ⟨fun text member => ?_, shortRuns_joinBy⟩
      rcases List.mem_iff_getElem.mp member with ⟨index, bound, rfl⟩
      exact ⟨_, each.get bound (each.length_eq ▸ bound)⟩
  | @anyStep stepText _ stepDenotes =>
      rw [numberTexts_of_slash (by decide), if_pos (.inr rfl)]
      refine ⟨by simpa using ⟨_, stepDenotes⟩, ?_⟩
      exact fun short => .append (by decide)
        (shortRuns_of_length_le (by decide)) (short stepText (by simp))
  | @fromStep firstText stepText _ _ firstDenotes stepDenotes =>
      have goesOn : ¬ ((readNumeral stepText).toOption = some 0 ∨
          firstText = ['*']) :=
        not_or.mpr ⟨read_ne_zero stepDenotes proper,
          ne_star_of_denotes firstDenotes⟩
      rw [numberTexts_of_slash (firstDenotes.not_mem (by decide)),
        if_neg goesOn, dashed_of_absent (firstDenotes.not_mem (by decide))]
      refine ⟨by simpa using ⟨⟨_, stepDenotes⟩, _, firstDenotes⟩, ?_⟩
      exact fun short => .append (by decide) (short firstText (by simp))
        (short stepText (by simp))
  | @rangeStep firstText lastText stepText _ _ _ firstDenotes lastDenotes
      stepDenotes =>
      have goesOn : ¬ ((readNumeral stepText).toOption = some 0 ∨
          firstText ++ '-' :: lastText = ['*']) :=
        not_or.mpr ⟨read_ne_zero stepDenotes proper.2,
          range_ne_star firstText lastText⟩
      rw [numberTexts_of_slash
          (not_mem_range firstDenotes lastDenotes (by decide) (by decide)),
        if_neg goesOn, dashed_range (firstDenotes.not_mem (by decide))]
      refine ⟨by simpa using
        ⟨⟨_, stepDenotes⟩, ⟨_, firstDenotes⟩, _, lastDenotes⟩, ?_⟩
      exact fun short => .append (by decide)
        (.append (by decide) (short firstText (by simp))
          (short lastText (by simp)))
        (short stepText (by simp))

/-- What spells a proper term has a long run of digits only if it stalls. -/
theorem shortRuns_of_spells {token : List Char} {term : FieldTerm}
    (spells : Spells token term) (proper : term.Proper)
    (flows : ¬ Stalls (numberTexts token)) : ShortRuns token := by
  rcases numberTexts_of_spells spells proper with ⟨denote, joins⟩
  refine joins fun text member => ?_
  exact shortRuns_of_length_le (short_of_not_stalls flows denote text member)

/-- A token that does not stall is read as what it spells. -/
theorem parse_eq_ok_iff {token : List Char} {term : FieldTerm}
    (flows : ¬ Stalls (numberTexts token)) :
    parse token = .ok term ↔ Spells token term ∧ term.Proper := by
  constructor
  · exact spells_of_parse
  · rintro ⟨spells, proper⟩
    exact parse_of_spells (shortRuns_of_spells spells proper flows) spells
      proper

end FieldTerm

/-! ## Fields -/

namespace FieldSet

variable {bounds : Bounds} {token : String}

theorem parse_eq_tooLong_iff :
    parse bounds token = .error .tooLong ↔
      Stalls (FieldTerm.numberTexts token.toList) := by
  rw [parse_eq_error_iff, FieldTerm.parse_eq_tooLong_iff, or_iff_left]
  rintro ⟨term, -, failed | ⟨-, -, other⟩⟩
  · exact FieldTerm.check_ne_error (by simp) failed
  · cases other

theorem shortRuns_of_parse {set : FieldSet}
    (read : parse bounds token = .ok set) : ShortRuns token.toList := by
  rcases writes_of_parse read with ⟨term, writes, -⟩
  refine FieldTerm.shortRuns_of_spells writes.spells writes.proper ?_
  intro stalls
  have failed : parse bounds token = .error .tooLong :=
    parse_eq_tooLong_iff.mpr stalls
  rw [read] at failed
  cases failed

variable (flows : ¬ Stalls (FieldTerm.numberTexts token.toList))

include flows

/-- What is written in a field is read unless it stalls or does not fit. -/
theorem parse_of_writes {term : FieldTerm}
    (writes : Writes bounds token.toList term) (fits : term.Fits bounds) :
    parse bounds token = .ok (.ofTerm bounds term) :=
  parse_eq_ok_iff_exists_term.mpr ⟨term,
    (FieldTerm.parse_eq_ok_iff flows).mpr ⟨writes.spells, writes.proper⟩,
    writes.inside, fits, rfl⟩

/-- There are too many numbers if what is written does not fit. -/
theorem parse_eq_tooMany_iff :
    parse bounds token = .error .tooMany ↔
      ∃ term, Writes bounds token.toList term ∧ ¬ term.Fits bounds := by
  rw [parse_eq_error_iff]
  constructor
  · rintro (failed | ⟨term, read, failed | ⟨inside, overflows, -⟩⟩)
    · exact absurd failed FieldTerm.parse_ne_tooMany
    · exact absurd failed (FieldTerm.check_ne_error (by simp))
    · rcases FieldTerm.spells_of_parse read with ⟨spells, proper⟩
      exact ⟨term, ⟨spells, proper, inside⟩, overflows⟩
  · rintro ⟨term, ⟨spells, proper, inside⟩, overflows⟩
    exact .inr ⟨term, (FieldTerm.parse_eq_ok_iff flows).mpr ⟨spells, proper⟩,
      .inr ⟨inside, overflows, rfl⟩⟩

/-- A number is out of bounds if the token spells a term outside of them. -/
theorem exists_outOfBounds_iff :
    (∃ value, parse bounds token = .error (.outOfBounds value)) ↔
      ∃ term, Spells token.toList term ∧ term.Proper ∧
        ¬ term.Inside bounds := by
  simp only [parse_eq_error_iff]
  constructor
  · rintro ⟨value, failed | ⟨term, read, failed | ⟨-, -, other⟩⟩⟩
    · have spared : FieldError.Spares (.outOfBounds value) token.toList :=
        trivial
      exact absurd failed (FieldTerm.parse_ne_error spared)
    · rcases FieldTerm.spells_of_parse read with ⟨spells, proper⟩
      refine ⟨term, spells, proper, fun inside => ?_⟩
      have passed : term.check bounds = .ok () :=
        FieldTerm.check_eq_ok_iff.mpr inside
      rw [passed] at failed
      cases failed
    · cases other
  · rintro ⟨term, spells, proper, outside⟩
    have read := (FieldTerm.parse_eq_ok_iff flows).mpr ⟨spells, proper⟩
    cases checked : term.check bounds with
    | ok result => exact absurd (FieldTerm.check_eq_ok_iff.mp checked) outside
    | error failure =>
        rcases FieldTerm.exists_outOfBounds_of_check checked with
          ⟨value, rfl⟩
        exact ⟨value, .inr ⟨term, read, .inl checked⟩⟩

end FieldSet

/-! ## Expressions -/

/-- An expression has five words, and each of them is written as it should be. -/
def IsExpression (expression : String) : Prop :=
  ∃ parts, Parts.split? expression = some parts ∧
    ∀ part ∈ parts.bounded, ∃ term, Writes part.1 part.2.toList term

/-- The first of five words that is not read stalls. -/
def Parts.Stall (parts : Parts) : Prop :=
  ∃ before part after, parts.bounded = before ++ part :: after ∧
    (∀ earlier ∈ before,
      ∃ set, FieldSet.parse earlier.1 earlier.2 = .ok set) ∧
    Stalls (FieldTerm.numberTexts part.2.toList)

/-- An expression of five words stalls at the first that is not read. -/
def ExpressionStalls (expression : String) : Prop :=
  ∃ parts, Parts.split? expression = some parts ∧ parts.Stall

theorem Parts.stall_iff {parts : Parts} :
    parts.Stall ↔
      ∃ bounds, parseFields parts = .error (.field bounds .tooLong) := by
  simp only [parseFields_eq_error_iff, Parts.Stall,
    ExpressionError.field.injEq]
  constructor
  · rintro ⟨before, part, after, split, each, stalls⟩
    exact ⟨part.1, before, part, after, split, each, _,
      FieldSet.parse_eq_tooLong_iff.mpr stalls, rfl, rfl⟩
  · rintro ⟨_, before, part, after, split, each, _, failed, rfl, rfl⟩
    exact ⟨before, part, after, split, each,
      FieldSet.parse_eq_tooLong_iff.mp failed⟩

theorem parse_of_parseFields {parts : Parts} {sets : Fields FieldSet}
    (read : parseFields parts = .ok sets) :
    ∀ part ∈ parts.bounded,
      ∃ set, FieldSet.parse part.1 part.2 = .ok set := by
  rcases parseFields_eq_ok_iff.mp read with
    ⟨minute, hour, dayOfMonth, month, dayOfWeek⟩
  simp [Parts.bounded, Fields.toList, minute, hour, dayOfMonth, month,
    dayOfWeek]

/-- Five words that are written as they should be are read unless they stall. -/
theorem exists_sets_of_writes {parts : Parts}
    (written : ∀ part ∈ parts.bounded,
      ∃ term, Writes part.1 part.2.toList term)
    (flows : ¬ parts.Stall) : ∃ sets, parseFields parts = .ok sets := by
  cases read : parseFields parts with
  | ok sets => exact ⟨sets, rfl⟩
  | error failure =>
      rcases parseFields_eq_error_iff.mp read with
        ⟨before, part, after, split, each, error, failed, -⟩
      rcases written part (by simp [split]) with ⟨term, writes⟩
      have partFlows :
          ¬ Stalls (FieldTerm.numberTexts part.2.toList) :=
        fun stalls => flows ⟨before, part, after, split, each, stalls⟩
      have ordinary : Ordinary part.1 :=
        ordinary_of_mem_bounded (by simp [split] : part ∈ parts.bounded)
      rw [FieldSet.parse_of_writes partFlows writes
        (ordinary.narrow.fits writes.inside)] at failed
      cases failed

/-! ## Runs of digits -/

theorem isDigit_of_isBlank {char : Char} (blank : isBlank char = true) :
    char.isDigit = false := by
  simp only [isBlank, inRanges, blankRanges, List.any_cons, List.any_nil,
    Bool.or_false, Bool.or_eq_true, Bool.and_eq_true,
    decide_eq_true_eq] at blank
  have code : char.toNat = char.val.toNat := rfl
  simp only [Char.isDigit, Bool.and_eq_false_iff, decide_eq_false_iff_not,
    ge_iff_le, UInt32.le_iff_toNat_le]
  simp
  omega

/-- Words without long runs of digits make up such a text. -/
theorem shortRuns_of_splits {text : List Char} {parts : List (List Char)}
    (splits : Splits text parts)
    (short : ∀ part ∈ parts, ShortRuns part) : ShortRuns text := by
  have gapAppend {gap rest : List Char} (blank : IsGap gap)
      (restShort : ShortRuns rest) : ShortRuns (gap ++ rest) := by
    induction gap with
    | nil => exact restShort
    | cons char gap induction =>
        have gapShort := induction fun other member =>
          blank other (List.mem_cons_of_mem _ member)
        exact .append (isDigit_of_isBlank (blank char (by simp)))
          shortRuns_nil gapShort
  induction splits with
  | @gap gap blank =>
      rw [← List.append_nil gap]
      exact gapAppend blank shortRuns_nil
  | @word gap word rest more blank isWord ends splits induction =>
      have restShort := induction fun part member =>
        short part (List.mem_cons_of_mem _ member)
      rw [List.append_assoc]
      refine gapAppend blank ?_
      cases rest with
      | nil => simpa using short word (by simp)
      | cons next rest =>
          exact .append (isDigit_of_isBlank (ends next rfl))
            (short word (by simp))
            (restShort.of_infix (List.suffix_cons next rest).isInfix)

namespace Pattern

theorem shortRuns_of_compile {expression : String} {pattern : Pattern}
    (compiled : compile expression = .ok pattern) :
    ShortRuns expression.toList := by
  rcases compile_eq_ok_iff.mp compiled with ⟨splits, read⟩
  have each := parse_of_parseFields read
  refine shortRuns_of_splits splits ?_
  simp only [Parts.bounded, Fields.toList, Fields.map, List.zip_cons_cons,
    List.zip_nil_right, List.forall_mem_cons, List.not_mem_nil,
    false_implies, implies_true, and_true] at each ⊢
  rcases each with ⟨⟨_, minute⟩, ⟨_, hour⟩, ⟨_, dayOfMonth⟩, ⟨_, month⟩,
    ⟨_, dayOfWeek⟩⟩
  exact ⟨FieldSet.shortRuns_of_parse minute,
    FieldSet.shortRuns_of_parse hour, FieldSet.shortRuns_of_parse dayOfMonth,
    FieldSet.shortRuns_of_parse month,
    FieldSet.shortRuns_of_parse dayOfWeek⟩

end Pattern

end Timetable.Cron
