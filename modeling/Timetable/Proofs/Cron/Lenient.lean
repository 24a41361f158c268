import Timetable.Cron.Description
import Timetable.Proofs.Cron.Overlong
import Mathlib.Data.List.TakeWhile

/-!
# Calls that take any text

Some calls take any text at all and say by nothing or by no that it is wrong:
reading a field, compiling an expression, asking whether it compiles, asking
whether a moment matches it, and describing it.  `lenient_calls_answer` says for
all texts which of them make these calls fault, and that every other text is
answered and what the answer is.

A field is read with bounds of any kind, which can be too long or too far apart
(`FieldSet.Answers`).  The other calls fault at numerals of too many digits only,
and `AnswersUnless` is the form of these statements.

A description looks at the words alone.  It exists for all expressions of five
words, and it can only stall at the number that the month or the day of the
week begins with.
-/

namespace Timetable.Cron

open Timetable.Calendar Timetable.Text

/--
A call faults if a numeral of too many digits stalls it, and otherwise answers
something that is right.
-/
def AnswersUnless {α : Type} (stalls : Prop) (outcome : Except Fault α)
    (right : α → Prop) : Prop :=
  (stalls → outcome = .error .numeralTooLong) ∧
    (¬ stalls → ∃ answer, outcome = .ok answer ∧ right answer)

namespace AnswersUnless

variable {α β : Type} {stalls : Prop} {outcome : Except Fault α}
  {right : α → Prop}

theorem map {rightToo : β → Prop} {change : α → β}
    (answers : AnswersUnless stalls outcome right)
    (preserved : ∀ answer, outcome = .ok answer → right answer →
      rightToo (change answer)) :
    AnswersUnless stalls (outcome.map change) rightToo := by
  constructor
  · intro stalled
    rw [answers.1 stalled, Except.map]
  · intro flows
    rcases answers.2 flows with ⟨answer, answered, isRight⟩
    exact ⟨change answer, by rw [answered, Except.map],
      preserved answer answered isRight⟩

end AnswersUnless

/-! ## Fields -/

theorem length_insertOnce_le (value : Int) (values : List Int) :
    (insertOnce value values).length ≤ values.length + 1 := by
  induction values with
  | nil => simp [insertOnce]
  | cons head rest induction =>
      rw [insertOnce]
      split
      · simp
      · split <;> simp [induction]

theorem length_ascending_le (values : List Int) :
    (ascending values).length ≤ values.length := by
  induction values with
  | nil => simp [ascending]
  | cons value rest induction =>
      have inserted := length_insertOnce_le value (ascending rest)
      exact Nat.le_trans inserted (Nat.succ_le_succ induction)

/-- A text is no shorter than it has members. -/
theorem length_le_joinBy {texts : List (List Char)}
    (each : ∀ text ∈ texts, text ≠ []) :
    texts.length ≤ (joinBy [','] texts).length := by
  induction texts with
  | nil => simp
  | cons text rest induction =>
      have notEmpty := List.length_pos_iff.mpr (each text (by simp))
      cases rest with
      | nil => exact notEmpty
      | cons next rest =>
          have restBound := induction
            fun other member => each other (List.mem_cons_of_mem _ member)
          simp only [joinBy, List.length_append, List.length_cons] at *
          omega

namespace FieldSet

/--
The most numbers that a set can have: as many as there are within the bounds,
or in a list as many as it has room to write.
-/
def room (bounds : Bounds) (token : List Char) : Nat :=
  max (bounds.high + 1 - bounds.low).toNat token.length

theorem size_le_room {bounds : Bounds} {token : List Char}
    {term : FieldTerm} (writes : Writes bounds token term) :
    (ofTerm bounds term).size ≤ room bounds token := by
  have counted := FieldTerm.rangeSize_le writes.inside
  have within (first last : Int) (step : Nat)
      (size : term.rangeSize bounds = progressionSize first last step) :
      (progression first last step).length ≤ room bounds token := by
    rw [progression, List.length_map, List.length_range, ← size]
    exact Nat.le_trans counted (Nat.le_max_left _ _)
  rcases writes with ⟨spells, -, -⟩
  cases spells with
  | any => exact within _ _ _ rfl
  | single denotes =>
      have one : 1 ≤ token.length := List.length_pos_iff.mpr denotes.1
      exact Nat.le_trans one (Nat.le_max_right _ _)
  | range firstDenotes lastDenotes => exact within _ _ _ rfl
  | @members texts values several each =>
      have notEmpty : ∀ text ∈ texts, text ≠ [] := by
        intro text member
        rcases List.mem_iff_getElem.mp member with ⟨index, bound, rfl⟩
        exact (each.get bound (each.length_eq ▸ bound)).1
      have values_le : (ascending (values.map Int.ofNat)).length ≤
          texts.length := by
        have bound := length_ascending_le (values.map Int.ofNat)
        rwa [List.length_map, ← each.length_eq] at bound
      exact Nat.le_trans values_le
        (Nat.le_trans (length_le_joinBy notEmpty) (Nat.le_max_right _ _))
  | anyStep stepDenotes => exact within _ _ _ rfl
  | fromStep firstDenotes stepDenotes => exact within _ _ _ rfl
  | rangeStep firstDenotes lastDenotes stepDenotes => exact within _ _ _ rfl

/-- A token spells a term outside of bounds that cannot be written. -/
def Unwritable (bounds : Bounds) (token : List Char) : Prop :=
  bounds.isOverlong = true ∧
    ∃ term, Spells token term ∧ term.Proper ∧ ¬ term.Inside bounds

/-- What is written in a field counts up more numbers than a set can have. -/
def Overflows (bounds : Bounds) (token : List Char) : Prop :=
  ∃ term, Writes bounds token term ∧ ¬ term.Fits bounds

/--
Reading a field faults at a number that cannot be converted or bounds that
cannot be written, and at too many numbers.  Otherwise it answers whether a term
is written there, with a set that does not exceed its room.
-/
structure Answers (bounds : Bounds) (token : String) : Prop where
  tooLong :
    Stalls (FieldTerm.numberTexts token.toList) ∨
        Unwritable bounds token.toList →
      parse? bounds token = .error .numeralTooLong
  tooMany :
    ¬ Stalls (FieldTerm.numberTexts token.toList) →
      Overflows bounds token.toList →
        parse? bounds token = .error .tooManyNumbers
  found :
    ¬ Stalls (FieldTerm.numberTexts token.toList) →
      ¬ Unwritable bounds token.toList → ¬ Overflows bounds token.toList →
        ∃ found, parse? bounds token = .ok found ∧
          (found.isSome = true ↔
            ∃ term, Writes bounds token.toList term) ∧
          ∀ set ∈ found, set.size ≤ room bounds token.toList

theorem parse?_eq_error_iff {bounds : Bounds} {token : String}
    {fault : Fault} :
    parse? bounds token = .error fault ↔
      ∃ error, parse bounds token = .error error ∧
        error.failure bounds = .fault fault := by
  rw [parse?, lenient_eq_error_iff, mapError_eq_error_iff]

theorem parse?_eq_some_iff {bounds : Bounds} {token : String}
    {set : FieldSet} :
    parse? bounds token = .ok (some set) ↔ parse bounds token = .ok set := by
  rw [parse?, lenient_eq_some_iff, mapError_eq_ok_iff]

theorem parse?_eq_none_iff {bounds : Bounds} {token : String} :
    parse? bounds token = .ok none ↔
      ∃ error, parse bounds token = .error error ∧
        ∃ problem, error.failure bounds = .problem problem := by
  simp only [parse?, lenient_eq_none_iff, mapError_eq_error_iff]
  constructor
  · rintro ⟨problem, error, failed, isProblem⟩
    exact ⟨error, failed, problem, isProblem⟩
  · rintro ⟨error, failed, problem, isProblem⟩
    exact ⟨problem, error, failed, isProblem⟩

/-- Whatever else is wrong with a token is a problem. -/
theorem exists_problem_of_parse {bounds : Bounds} {token : String}
    {error : FieldError} (failed : parse bounds token = .error error)
    (flows : ¬ Stalls (FieldTerm.numberTexts token.toList))
    (writable : ¬ Unwritable bounds token.toList)
    (fits : ¬ Overflows bounds token.toList) :
    ∃ problem, error.failure bounds = .problem problem := by
  cases leads : error.failure bounds with
  | problem problem => exact ⟨problem, rfl⟩
  | fault fault =>
      rcases FieldError.failure_eq_fault_iff.mp leads with
        ⟨-, rfl | ⟨overlong, value, rfl⟩⟩ | ⟨-, rfl⟩
      · exact absurd (parse_eq_tooLong_iff.mp failed) flows
      · have outside := (exists_outOfBounds_iff flows).mp ⟨value, failed⟩
        exact absurd ⟨overlong, outside⟩ writable
      · exact absurd ((parse_eq_tooMany_iff flows).mp failed) fits

/-- These are all the ways in which reading a field ends. -/
theorem answers_parse? (bounds : Bounds) (token : String) :
    Answers bounds token where
  tooLong := by
    intro long
    rw [parse?_eq_error_iff]
    by_cases stalls : Stalls (FieldTerm.numberTexts token.toList)
    · exact ⟨_, parse_eq_tooLong_iff.mpr stalls, rfl⟩
    · rcases long.resolve_left stalls with ⟨overlong, outside⟩
      rcases (exists_outOfBounds_iff stalls).mpr outside with ⟨value, failed⟩
      exact ⟨_, failed, FieldError.failure_eq_fault_iff.mpr
        (.inl ⟨rfl, .inr ⟨overlong, value, rfl⟩⟩)⟩
  tooMany := by
    intro flows overflows
    exact parse?_eq_error_iff.mpr
      ⟨_, (parse_eq_tooMany_iff flows).mpr overflows, rfl⟩
  found := by
    intro flows writable fits
    cases read : parse bounds token with
    | ok set =>
        rcases writes_of_parse read with ⟨term, writes, -, rfl⟩
        refine ⟨_, parse?_eq_some_iff.mpr read,
          by simpa using ⟨term, writes⟩, ?_⟩
        simpa using size_le_room writes
    | error error =>
        have notWritten : ¬ ∃ term, Writes bounds token.toList term := by
          rintro ⟨term, writes⟩
          have termFits : term.Fits bounds :=
            not_not.mp fun tooMany => fits ⟨term, writes, tooMany⟩
          rw [parse_of_writes flows writes termFits] at read
          cases read
        have isProblem := exists_problem_of_parse read flows writable fits
        exact ⟨none, parse?_eq_none_iff.mpr ⟨error, read, isProblem⟩,
          by simpa using notWritten, by simp⟩

end FieldSet

/-- Ordinary bounds only fault at a number that cannot be converted. -/
theorem Ordinary.answerable {bounds : Bounds} (ordinary : Ordinary bounds)
    (token : List Char) :
    ¬ FieldSet.Unwritable bounds token ∧
      ¬ FieldSet.Overflows bounds token := by
  constructor
  · rintro ⟨overlong, -⟩
    rw [ordinary.writable] at overlong
    cases overlong
  · rintro ⟨term, writes, tooMany⟩
    exact tooMany (ordinary.narrow.fits writes.inside)

/-! ## Expressions -/

namespace Pattern

variable {expression : String}

theorem parse?_eq_some_iff {pattern : Pattern} :
    parse? expression = .ok (some pattern) ↔
      compile expression = .ok pattern := by
  rw [parse?, lenient_eq_some_iff, mapError_eq_ok_iff]

/-- An expression is compiled unless it stalls. -/
theorem answers_parse? (expression : String) :
    AnswersUnless (ExpressionStalls expression) (parse? expression)
      fun pattern => pattern.isSome = true ↔ IsExpression expression := by
  rw [parse?]
  cases split : Parts.split? expression with
  | none =>
      -- Without five words nothing is read, so nothing can stall.
      have missing : compile expression = .error (.fieldCount expression) := by
        rw [compile, split]
      rw [missing]
      simp [AnswersUnless, ExpressionStalls, IsExpression, split,
        Except.mapError, ExpressionError.failure, lenient]
  | some parts =>
      have stalls : ExpressionStalls expression ↔ parts.Stall := by
        simp [ExpressionStalls, split]
      have isExpression : IsExpression expression ↔
          ∀ part ∈ parts.bounded,
            ∃ term, Writes part.1 part.2.toList term := by
        simp [IsExpression, split]
      rw [stalls, isExpression, compile_of_split split]
      constructor
      · intro stalled
        rcases Parts.stall_iff.mp stalled with ⟨bounds, failed⟩
        rw [failed]
        rfl
      · intro flows
        cases read : parseFields parts with
        | ok sets =>
            refine ⟨_, rfl, ?_⟩
            simp only [Option.isSome_some, true_iff]
            intro part member
            rcases parse_of_parseFields read part member with ⟨set, found⟩
            rcases FieldSet.writes_of_parse found with ⟨term, writes, -⟩
            exact ⟨term, writes⟩
        | error failure =>
            have notWritten : ¬ ∀ part ∈ parts.bounded,
                ∃ term, Writes part.1 part.2.toList term := by
              intro written
              rcases exists_sets_of_writes written flows with ⟨sets, found⟩
              rw [found] at read
              cases read
            have converted : ∀ bounds, failure ≠ .field bounds .tooLong := by
              rintro bounds rfl
              exact flows (Parts.stall_iff.mpr ⟨bounds, read⟩)
            rcases exists_problem_of_parseFields read converted with
              ⟨problem, isProblem⟩
            refine ⟨none, ?_, by simpa using notWritten⟩
            rw [Except.map, Except.mapError, isProblem, lenient]

end Pattern

/-! ## Matching -/

/-- Only an expression means anything. -/
theorem isExpression_of_means {expression : String} {moment : Moment}
    (means : Means expression moment) : IsExpression expression := by
  rcases means with ⟨minute, hour, dayOfMonth, month, dayOfWeek, splits,
    ⟨_, minuteWrites, -⟩, ⟨_, hourWrites, -⟩, ⟨_, dayWrites, -⟩,
    ⟨_, monthWrites, -⟩, ⟨_, weekdayWrites, -⟩⟩
  refine ⟨⟨minute, hour, dayOfMonth, month, dayOfWeek⟩,
    split?_eq_some_iff.mpr splits, ?_⟩
  simp only [Parts.bounded, Fields.toList, List.zip_cons_cons,
    List.zip_nil_right, List.forall_mem_cons, List.not_mem_nil,
    false_implies, implies_true, and_true]
  exact ⟨⟨_, minuteWrites⟩, ⟨_, hourWrites⟩, ⟨_, dayWrites⟩,
    ⟨_, monthWrites⟩, ⟨_, weekdayWrites⟩⟩

theorem Source.answers_isMatch (expression : String) (moment : Moment) :
    AnswersUnless (ExpressionStalls expression)
      ((written expression).isMatch moment) fun answer =>
        answer = true ↔ Means expression moment := by
  refine (Pattern.answers_parse? expression).map ?_
  intro found answered isRight
  cases found with
  | none =>
      have meaningless : ¬ Means expression moment := fun means => by
        simpa using isRight.mpr (isExpression_of_means means)
      simpa using meaningless
  | some pattern =>
      have compiled := Pattern.parse?_eq_some_iff.mp answered
      rw [means_iff (Pattern.shortRuns_of_compile compiled)]
      simp [compiled]

/-! ## Descriptions -/

/-- The digits that a field begins with, behind a sign if it has one. -/
def leadingDigits (field : String) : List Char :=
  (splitSign field.toList).2.takeWhile Char.isDigit

/-- A field begins with a numeral of too many digits. -/
def LeadsOverlong (field : String) : Prop :=
  numeralLimit < (leadingDigits field).length

theorem leadingInteger_eq (field : String) :
    leadingInteger field =
      if (leadingDigits field).isEmpty then .ok none
      else if numeralLimit < (leadingDigits field).length then
        .error .numeralTooLong
      else
        .ok (some (if (splitSign field.toList).1 then
          -(valueOfDigits (leadingDigits field) : Int)
            else valueOfDigits (leadingDigits field))) := by
  simp only [leadingInteger, convertDigits]
  refine if_congr Iff.rfl rfl ?_
  rw [leadingDigits]
  by_cases long : numeralLimit <
      ((splitSign field.toList).2.takeWhile Char.isDigit).length
  · rw [if_pos long, if_pos long]
  · rw [if_neg long, if_neg long]

theorem answers_leadingInteger (field : String) :
    AnswersUnless (LeadsOverlong field) (leadingInteger field)
      fun _ => True := by
  rw [leadingInteger_eq, LeadsOverlong]
  constructor
  · intro long
    have notEmpty : (leadingDigits field).isEmpty = false := by
      cases digits : leadingDigits field with
      | nil => simp [digits] at long
      | cons digit rest => rfl
    simp [notEmpty, long]
  · intro short
    by_cases empty : (leadingDigits field).isEmpty = true
    · exact ⟨none, if_pos empty, trivial⟩
    · rw [if_neg empty, if_neg short]
      exact ⟨_, rfl, trivial⟩

theorem answers_leadingName (names : List String) (first : Int)
    (field : String) :
    AnswersUnless (LeadsOverlong field) (leadingName names first field)
      fun _ => True := by
  rcases answers_leadingInteger field with ⟨stalls, flows⟩
  constructor
  · intro stalled
    rw [leadingName, stalls stalled]
  · intro flowing
    rcases flows flowing with ⟨found, read, -⟩
    rw [leadingName, read]
    cases found with
    | none => exact ⟨_, rfl, trivial⟩
    | some number =>
        dsimp only
        split <;> exact ⟨_, rfl, trivial⟩

/-- A star has no fragment; other fields are worded by their leading name. -/
theorem answers_fragment (names : List String) (first : Int)
    (worded : Option String → Option String) (field : String) :
    AnswersUnless (LeadsOverlong field)
      (if field = "*" then .ok none
        else (leadingName names first field).map worded)
      fun _ => True := by
  by_cases star : field = "*"
  · have flows : ¬ LeadsOverlong field := by
      rw [star, LeadsOverlong]
      decide
    rw [if_pos star]
    exact ⟨fun stalled => absurd stalled flows, fun _ => ⟨_, rfl, trivial⟩⟩
  · rw [if_neg star]
    exact (answers_leadingName names first field).map fun _ _ _ => trivial

theorem monthFragment_eq (field : String) :
    monthFragment field =
      if field = "*" then .ok none
      else (leadingName monthNames 1 field).map fun name =>
        some (name.elim ("in month " ++ field) fun name => "in " ++ name) := by
  rw [monthFragment]
  rcases leadingName monthNames 1 field with fault | (_ | name) <;> rfl

theorem dayOfWeekFragment_eq (field : String) :
    dayOfWeekFragment field =
      if field = "*" then .ok none
      else (leadingName weekdayNames 0 field).map fun name =>
        some
          (name.elim ("on day of week " ++ field) fun name => "on " ++ name) := by
  rw [dayOfWeekFragment]
  rcases leadingName weekdayNames 0 field with fault | (_ | name) <;> rfl

theorem Parts.answers_fragments (parts : Parts) :
    AnswersUnless
      (LeadsOverlong parts.month ∨ LeadsOverlong parts.dayOfWeek)
      parts.fragments fun _ => True := by
  rcases answers_fragment monthNames 1 _ parts.month with
    ⟨monthStalls, monthFlows⟩
  rcases answers_fragment weekdayNames 0 _ parts.dayOfWeek with
    ⟨weekdayStalls, weekdayFlows⟩
  rw [Parts.fragments, monthFragment_eq, dayOfWeekFragment_eq]
  constructor
  · intro stalled
    by_cases month : LeadsOverlong parts.month
    · rw [monthStalls month]
      rfl
    · rcases monthFlows month with ⟨found, read, -⟩
      rw [read, weekdayStalls (stalled.resolve_left month)]
      rfl
  · intro flows
    rcases not_or.mp flows with ⟨month, weekday⟩
    rcases monthFlows month with ⟨_, monthRead, -⟩
    rcases weekdayFlows weekday with ⟨_, weekdayRead, -⟩
    rw [monthRead, weekdayRead]
    exact ⟨_, rfl, trivial⟩

theorem not_leadsOverlong_of_length_le {field : String}
    (short : field.toList.length ≤ numeralLimit) :
    ¬ LeadsOverlong field := by
  have inField : (splitSign field.toList).2.length ≤ field.toList.length := by
    unfold splitSign
    split <;> simp_all
  have inDigits : (leadingDigits field).length ≤ field.toList.length :=
    Nat.le_trans (List.takeWhile_sublist _).length_le inField
  rw [LeadsOverlong]
  omega

/-- The words of an expression are no longer than it. -/
theorem length_le_of_split {expression : String} {parts : Parts}
    (split : Parts.split? expression = some parts) :
    ∀ part ∈ parts.toList,
      part.toList.length ≤ expression.toList.length := by
  intro part member
  have inWords : part.toList ∈ (parts.map String.toList).toList :=
    List.mem_map_of_mem member
  exact ((split?_eq_some_iff.mp split).infix_of_mem inWords).length_le

/-- An expression with a description of its own is short. -/
theorem length_of_named {expression description : String}
    (named : namedExpressions.lookup expression = some description) :
    expression.toList.length ≤ numeralLimit := by
  have allShort : ∀ named ∈ namedExpressions,
      named.1.toList.length ≤ numeralLimit := by
    decide
  rcases List.lookup_eq_some_iff.mp named with ⟨before, after, split, -⟩
  exact allShort (expression, description) (by simp [split])

/-- A description stalls at a name that begins with too many digits. -/
def DescriptionStalls (expression : String) : Prop :=
  ∃ parts, Parts.split? expression = some parts ∧
    (LeadsOverlong parts.month ∨ LeadsOverlong parts.dayOfWeek)

/-- Every expression of five words is described unless a name stalls it. -/
theorem answers_describe (expression : String) :
    AnswersUnless (DescriptionStalls expression) (describe expression)
      fun description => description.isSome = true ↔
        ∃ parts, Parts.split? expression = some parts := by
  rw [describe]
  cases split : Parts.split? expression with
  | none => simp [AnswersUnless, DescriptionStalls, split]
  | some parts =>
      have stalls : DescriptionStalls expression ↔
          LeadsOverlong parts.month ∨ LeadsOverlong parts.dayOfWeek := by
        simp [DescriptionStalls, split]
      rw [stalls]
      dsimp only
      cases named : namedExpressions.lookup expression with
      | some description =>
          -- The words are not looked at here, but they are short anyway.
          have short (part : String) (member : part ∈ parts.toList) :
              ¬ LeadsOverlong part :=
            not_leadsOverlong_of_length_le (Nat.le_trans
              (length_le_of_split split part member) (length_of_named named))
          have flows : ¬ (LeadsOverlong parts.month ∨
              LeadsOverlong parts.dayOfWeek) :=
            not_or.mpr ⟨short _ (by simp [Fields.toList]),
              short _ (by simp [Fields.toList])⟩
          exact ⟨fun stalled => absurd stalled flows,
            fun _ => ⟨_, rfl, by simp⟩⟩
      | none =>
          rcases parts.answers_fragments with ⟨stalls, flows⟩
          constructor
          · intro stalled
            simp only [stalls stalled]
          · intro flowing
            rcases flows flowing with ⟨fragments, worded, -⟩
            rw [worded]
            cases fragments with
            | nil => exact ⟨_, rfl, by simp⟩
            | cons fragment more => exact ⟨_, rfl, by simp⟩

/-! ## Texts that never stall -/

theorem not_stalls_of_shortRuns {token : String}
    (short : ShortRuns token.toList) :
    ¬ Stalls (FieldTerm.numberTexts token.toList) := by
  rw [← FieldTerm.parse_eq_tooLong_iff]
  exact FieldTerm.parse_ne_tooLong short

theorem not_expressionStalls_of_shortRuns {expression : String}
    (short : ShortRuns expression.toList) : ¬ ExpressionStalls expression := by
  rintro ⟨parts, split, stalls⟩
  rcases Parts.stall_iff.mp stalls with ⟨bounds, failed⟩
  have stuck : Pattern.compile expression = .error (.field bounds .tooLong) := by
    rw [Pattern.compile_of_split split, failed, Except.map]
  exact Pattern.compile_ne_tooLong short stuck

theorem not_leadsOverlong_of_shortRuns {field : String}
    (short : ShortRuns field.toList) : ¬ LeadsOverlong field := by
  have inField : (splitSign field.toList).2 <:+: field.toList := by
    unfold splitSign
    split <;> simp_all [List.infix_cons]
  have inDigits : leadingDigits field <:+: field.toList :=
    (List.takeWhile_prefix _).isInfix.trans inField
  have digits : ∀ char ∈ leadingDigits field, char.isDigit = true :=
    fun char member => List.mem_takeWhile_imp member
  exact Nat.not_lt.mpr (short _ inDigits digits)

theorem not_descriptionStalls_of_shortRuns {expression : String}
    (short : ShortRuns expression.toList) :
    ¬ DescriptionStalls expression := by
  rintro ⟨parts, split, stalls⟩
  rcases splits_parts parts (split?_eq_some_iff.mp split) short with
    ⟨-, -, -, month, dayOfWeek⟩
  exact stalls.elim (not_leadsOverlong_of_shortRuns month)
    (not_leadsOverlong_of_shortRuns dayOfWeek)

/-! ## The calls together -/

theorem Pattern.answers_isValid (expression : String) :
    AnswersUnless (ExpressionStalls expression) (isValid expression)
      fun answer => answer = true ↔ IsExpression expression :=
  (answers_parse? expression).map fun _ _ isRight => isRight

/--
A call that takes any text answers, and its answer is right, unless the text
stalls it.  No text does that without a run of too many digits.  Reading a field
can also fault because of bounds that are out of the ordinary.
-/
theorem lenient_calls_answer (bounds : Bounds) (token expression : String)
    (moment : Moment) :
    FieldSet.Answers bounds token ∧
      (Ordinary bounds → ¬ FieldSet.Unwritable bounds token.toList ∧
        ¬ FieldSet.Overflows bounds token.toList) ∧
      AnswersUnless (ExpressionStalls expression)
        (Pattern.parse? expression) (fun pattern =>
          pattern.isSome = true ↔ IsExpression expression) ∧
      AnswersUnless (ExpressionStalls expression)
        (Pattern.isValid expression) (fun answer =>
          answer = true ↔ IsExpression expression) ∧
      AnswersUnless (ExpressionStalls expression)
        ((Source.written expression).isMatch moment) (fun answer =>
          answer = true ↔ Means expression moment) ∧
      AnswersUnless (DescriptionStalls expression)
        (describe expression) (fun description =>
          description.isSome = true ↔
            ∃ parts, Parts.split? expression = some parts) ∧
      (ShortRuns token.toList →
        ¬ Stalls (FieldTerm.numberTexts token.toList)) ∧
      (ShortRuns expression.toList →
        ¬ ExpressionStalls expression ∧ ¬ DescriptionStalls expression) :=
  ⟨FieldSet.answers_parse? bounds token,
    fun ordinary => ordinary.answerable token.toList,
    Pattern.answers_parse? expression, Pattern.answers_isValid expression,
    Source.answers_isMatch expression moment, answers_describe expression,
    not_stalls_of_shortRuns, fun short =>
      ⟨not_expressionStalls_of_shortRuns short,
        not_descriptionStalls_of_shortRuns short⟩⟩

theorem lenient_calls_answer_weekdayName :
    Ordinary fieldBounds.dayOfWeek ∧ ShortRuns "mon".toList ∧
      (∃ found, FieldSet.parse? fieldBounds.dayOfWeek "mon" = .ok found ∧
        (found.isSome = true ↔
          ∃ term, Writes fieldBounds.dayOfWeek "mon".toList term)) ∧
      ShortRuns "0 9 * * mon".toList ∧
      ¬ ExpressionStalls "0 9 * * mon" ∧ ¬ DescriptionStalls "0 9 * * mon" := by
  have ordinary : Ordinary fieldBounds.dayOfWeek :=
    ordinary_of_mem_fieldBounds (by decide)
  have short : ShortRuns "mon".toList := shortRuns_of_length_le (by decide)
  have expressionShort : ShortRuns "0 9 * * mon".toList :=
    shortRuns_of_length_le (by decide)
  have ⟨answers, answerable, _, _, _, _, flows, expressionFlows⟩ :=
    lenient_calls_answer fieldBounds.dayOfWeek "mon" "0 9 * * mon"
      { ticks := 63840907800000000, offset := none }
  rcases answerable ordinary with ⟨writable, fits⟩
  rcases answers.found (flows short) writable fits with
    ⟨found, answered, written, -⟩
  exact ⟨ordinary, short, ⟨found, answered, written⟩, expressionShort,
    expressionFlows expressionShort⟩

/-! ## A month of ones -/

/-- A numeral with one digit more than can be converted. -/
def ones : String := String.ofList (List.replicate (numeralLimit + 1) '1')

/-- The words for every minute of the month of ones. -/
def monthOfOnes : Parts := ⟨"*", "*", "*", ones, "*"⟩

theorem eq_one_of_mem_ones {char : Char} (member : char ∈ ones.toList) :
    char = '1' := by
  rw [ones, String.toList_ofList] at member
  exact List.eq_of_mem_replicate member

theorem digits_ones : ∀ char ∈ ones.toList, char.isDigit = true := by
  intro char member
  rw [eq_one_of_mem_ones member]
  rfl

theorem overlong_ones : Overlong ones.toList := by
  refine ⟨by simp [ones], _, by simp [ones], digits_ones, rfl⟩

theorem stalls_ones : Stalls (FieldTerm.numberTexts ones.toList) := by
  rcases overlong_ones with ⟨long, value, denotes⟩
  rw [FieldTerm.numberTexts_of_denotes denotes]
  exact ⟨[], _, [], rfl, by simp, long, value, denotes⟩

theorem stall_monthOfOnes : monthOfOnes.Stall := by
  refine ⟨[(fieldBounds.minute, "*"), (fieldBounds.hour, "*"),
      (fieldBounds.dayOfMonth, "*")], (fieldBounds.month, ones),
    [(fieldBounds.dayOfWeek, "*")], rfl, ?_, stalls_ones⟩
  have everything {bounds : Bounds} (narrow : Narrow bounds) :
      ∃ set, FieldSet.parse bounds "*" = .ok set :=
    ⟨_, FieldSet.parse_eq_ok_iff_exists_term.mpr
      ⟨.any, rfl, trivial, narrow.fits trivial, rfl⟩⟩
  simp only [List.forall_mem_cons, List.not_mem_nil, false_implies,
    implies_true, and_true]
  exact ⟨everything (by decide), everything (by decide),
    everything (by decide)⟩

theorem leadsOverlong_ones : LeadsOverlong ones := by
  have noSign : (splitSign ones.toList).2 = ones.toList := by
    rw [ones, String.toList_ofList, List.replicate_succ]
    generalize List.replicate numeralLimit '1' = rest
    rfl
  rw [LeadsOverlong, leadingDigits, noSign,
    List.takeWhile_eq_self_iff.mpr digits_ones]
  exact overlong_ones.1

theorem isWord_ones : IsWord ones.toList := by
  refine ⟨by simp [ones], ?_⟩
  intro char member
  rw [eq_one_of_mem_ones member]
  rfl

theorem isWord_star : IsWord "*".toList := by
  have single : "*".toList = ['*'] := rfl
  refine ⟨by simp [single], ?_⟩
  intro char member
  rw [single] at member
  rw [List.mem_singleton.mp member]
  rfl

theorem split?_monthOfOnes :
    Parts.split? monthOfOnes.text = some monthOfOnes := by
  refine Parts.split?_text ?_
  simp only [monthOfOnes, Fields.toList, List.forall_mem_cons,
    List.not_mem_nil, false_implies, implies_true, and_true]
  exact ⟨isWord_star, isWord_star, isWord_star, isWord_ones, isWord_star⟩

/-- A bound that cannot be written is a fault where it has to be. -/
theorem unwritable_five :
    FieldSet.Unwritable ⟨"field", leastOverlong, leastOverlong⟩ "5".toList := by
  have read : FieldTerm.parse "5".toList = .ok (.single 5) := rfl
  rcases FieldTerm.spells_of_parse read with ⟨spells, proper⟩
  refine ⟨?_, .single 5, spells, proper, ?_⟩
  · rw [Bounds.isOverlong, overlong_leastOverlong, Bool.true_or]
  · have less : 5 < leastOverlong := lt_leastOverlong (by decide)
    rintro ⟨lower, -⟩
    exact absurd (Int.ofNat_le.mp lower) (Nat.not_le.mpr less)

theorem monthOfOnes_faults :
    FieldSet.parse? ⟨"field", 0, 59⟩ ones = .error .numeralTooLong ∧
      FieldSet.parse? ⟨"field", leastOverlong, leastOverlong⟩ "5" =
        .error .numeralTooLong ∧
      FieldSet.parse? ⟨"field", 0, 9223372036854775808⟩ "*" =
        .error .tooManyNumbers ∧
      Pattern.parse? monthOfOnes.text = .error .numeralTooLong ∧
      Pattern.isValid monthOfOnes.text = .error .numeralTooLong ∧
      (Source.written monthOfOnes.text).isMatch
          { ticks := 63840907800000000, offset := none } =
        .error .numeralTooLong ∧
      describe monthOfOnes.text = .error .numeralTooLong := by
  have stalls : ExpressionStalls monthOfOnes.text :=
    ⟨monthOfOnes, split?_monthOfOnes, stall_monthOfOnes⟩
  have namedStalls : DescriptionStalls monthOfOnes.text :=
    ⟨monthOfOnes, split?_monthOfOnes, .inl leadsOverlong_ones⟩
  exact ⟨(FieldSet.answers_parse? _ _).tooLong (.inl stalls_ones),
    (FieldSet.answers_parse? _ _).tooLong (.inr unwritable_five), rfl,
    (Pattern.answers_parse? _).1 stalls, (Pattern.answers_isValid _).1 stalls,
    (Source.answers_isMatch _ _).1 stalls, (answers_describe _).1 namedStalls⟩

end Timetable.Cron
