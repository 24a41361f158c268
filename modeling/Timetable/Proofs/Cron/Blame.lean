import Timetable.Proofs.Cron.Lenient

/-!
# The first wrong word

An expression is compiled strictly: it says what is wrong, and where.  A token by
itself is read leniently: it is a set of numbers or nothing.  The two readings
agree on every expression of five words, as long as no run of digits is too
long.  All words are sets, and then they are the sets of the pattern, or the
problem names the field of the first word that is nothing
(`Parts.FirstWrong`).

A text of more or fewer words is refused as a whole.  Its problem names no
field, and its value is the text.  `compile_blames_first` puts both together.
-/

namespace Timetable.Cron

open Timetable.Text

/-! ## One token -/

namespace FieldSet

variable {bounds : Bounds} {token : String}

/-- Without long runs of digits, a token is a set of numbers or nothing. -/
theorem exists_parse?_eq_ok (ordinary : Ordinary bounds)
    (short : ShortRuns token.toList) :
    ∃ found, parse? bounds token = .ok found := by
  rcases ordinary.answerable token.toList with ⟨writable, fits⟩
  rcases (answers_parse? bounds token).found (not_stalls_of_shortRuns short)
      writable fits with ⟨found, answered, -⟩
  exact ⟨found, answered⟩

/-- What a token is read as does not depend on the name of the field. -/
theorem parse?_rename (bounds : Bounds) (name token : String) :
    parse? { bounds with name := name } token = parse? bounds token := by
  have checked (term : FieldTerm) :
      term.check { bounds with name := name } = term.check bounds := by
    cases term <;> rfl
  have sameSize (term : FieldTerm) :
      term.rangeSize { bounds with name := name } = term.rangeSize bounds := by
    cases term <;> rfl
  have sameSet (term : FieldTerm) :
      ofTerm { bounds with name := name } term = ofTerm bounds term := by
    cases term <;> rfl
  have sameParse :
      parse { bounds with name := name } token = parse bounds token := by
    simp only [parse, checked, sameSize, sameSet]
  rw [parse?, parse?, sameParse]
  cases parse bounds token with
  | ok set => rfl
  | error error =>
      -- Only the problem has the name, and it is not told.
      have sameBounds :
          Bounds.isOverlong { bounds with name := name } =
            bounds.isOverlong := rfl
      cases error with
      | outOfBounds value =>
          simp only [Except.mapError, FieldError.failure, sameBounds]
          cases bounds.isOverlong <;> rfl
      | _ => rfl

end FieldSet

/-! ## Five words -/

variable {expression : String} {parts : Parts}

/-- The first of five words that is nothing stands in the field of these bounds. -/
def Parts.FirstWrong (parts : Parts) (bounds : Bounds) : Prop :=
  ∃ before token after,
    parts.bounded = before ++ (bounds, token) :: after ∧
    (∀ earlier ∈ before,
      ∃ set, FieldSet.parse? earlier.1 earlier.2 = .ok (some set)) ∧
    FieldSet.parse? bounds token = .ok none

/-- The sets of five words are those of the words one by one. -/
theorem parseFields_eq_ok_iff_forall₂ {sets : Fields FieldSet} :
    parseFields parts = .ok sets ↔
      List.Forall₂
        (fun part set => FieldSet.parse part.1 part.2 = .ok set)
        parts.bounded sets.toList := by
  rw [parseFields_eq_ok_iff]
  simp only [Parts.bounded, Fields.toList, List.zip_cons_cons,
    List.zip_nil_right, List.forall₂_cons, List.forall₂_nil_left_iff,
    and_true]

theorem exists_parseFields_eq_ok
    (each : ∀ part ∈ parts.bounded,
      ∃ set, FieldSet.parse part.1 part.2 = .ok set) :
    ∃ sets, parseFields parts = .ok sets := by
  cases read : parseFields parts with
  | ok sets => exact ⟨sets, rfl⟩
  | error failure =>
      rcases parseFields_eq_error_iff.mp read with
        ⟨before, part, after, split, -, error, failed, -⟩
      rcases each part (by simp [split]) with ⟨set, found⟩
      rw [failed] at found
      cases found

namespace Pattern

section FiveWords

variable
  (splits : Splits expression.toList (parts.map String.toList).toList)

include splits

theorem compile_eq_ok_iff_of_splits {pattern : Pattern} :
    compile expression = .ok pattern ↔
      pattern.parts = parts ∧ parseFields parts = .ok pattern.sets := by
  rw [compile_of_split (split?_eq_some_iff.mpr splits), map_eq_ok_iff]
  constructor
  · rintro ⟨sets, read, rfl⟩
    exact ⟨rfl, read⟩
  · rintro ⟨rfl, read⟩
    exact ⟨pattern.sets, read, rfl⟩

/-- The sets of a pattern are what its words are read as one by one. -/
theorem parse?_of_compile {pattern : Pattern}
    (compiled : compile expression = .ok pattern) :
    pattern.parts = parts ∧
      List.Forall₂
        (fun part set => FieldSet.parse? part.1 part.2 = .ok (some set))
        parts.bounded pattern.sets.toList := by
  rcases (compile_eq_ok_iff_of_splits splits).mp compiled with
    ⟨same, read⟩
  exact ⟨same, (parseFields_eq_ok_iff_forall₂.mp read).imp
    fun _ _ found => FieldSet.parse?_eq_some_iff.mpr found⟩

/-- An expression compiles if none of its words is nothing. -/
theorem exists_compile_iff :
    (∃ pattern, compile expression = .ok pattern) ↔
      ∀ part ∈ parts.bounded,
        ∃ set, FieldSet.parse? part.1 part.2 = .ok (some set) := by
  simp only [FieldSet.parse?_eq_some_iff]
  constructor
  · rintro ⟨pattern, compiled⟩
    exact parse_of_parseFields
      ((compile_eq_ok_iff_of_splits splits).mp compiled).2
  · intro each
    rcases exists_parseFields_eq_ok each with ⟨sets, found⟩
    exact ⟨⟨parts, sets⟩,
      (compile_eq_ok_iff_of_splits splits).mpr ⟨rfl, found⟩⟩

/-- If a word is nothing, the problem names the field of the first such word. -/
theorem exists_firstWrong (short : ShortRuns expression.toList)
    (fails : ¬ ∃ pattern, compile expression = .ok pattern) :
    ∃ bounds error problem, parts.FirstWrong bounds ∧
      compile expression = .error (.field bounds error) ∧
      error.failure bounds = .problem problem ∧
      problem.subject = .cron ∧ problem.field = some bounds.name := by
  cases read : parseFields parts with
  | ok sets =>
      exact absurd
        ⟨⟨parts, sets⟩, (compile_eq_ok_iff_of_splits splits).mpr ⟨rfl, read⟩⟩
        fails
  | error failure =>
      rcases parseFields_eq_error_iff.mp read with
        ⟨before, ⟨bounds, token⟩, after, split, each, error, failed, rfl⟩
      have member : (bounds, token) ∈ parts.bounded := by simp [split]
      have ordinary : Ordinary bounds := ordinary_of_mem_bounded member
      have converted : error ≠ .tooLong := by
        rintro rfl
        exact FieldSet.parse_ne_tooLong
          (shortRuns_of_mem_bounded splits short member) failed
      have few : error ≠ .tooMany := by
        rintro rfl
        exact FieldSet.parse_ne_tooMany ordinary.narrow failed
      rcases FieldError.exists_problem ordinary.writable converted few with
        ⟨problem, isProblem, about, names⟩
      refine ⟨bounds, error, problem, ⟨before, token, after, split, ?_, ?_⟩,
        ?_, isProblem, about, names⟩
      · simpa only [FieldSet.parse?_eq_some_iff] using each
      · exact FieldSet.parse?_eq_none_iff.mpr
          ⟨error, failed, problem, isProblem⟩
      · rw [compile_of_split (split?_eq_some_iff.mpr splits), read]
        rfl

end FiveWords

theorem compile_of_other_count {tokens : List (List Char)}
    (splits : Splits expression.toList tokens) (other : tokens.length ≠ 5) :
    compile expression = .error (.fieldCount expression) := by
  cases split : Parts.split? expression with
  | none => rw [compile, split]
  | some parts =>
      have counted := splits.words_eq
      rw [(split?_eq_some_iff.mp split).words_eq] at counted
      exact absurd (congrArg List.length counted).symm other

/--
Let the words of an expression be five, without a run of too many digits.  Each
of them by itself, whatever its field is called, is a set of numbers or nothing.
The expression compiles exactly if all are sets, and these are the sets of its
pattern.  Otherwise its problem is one of expressions and names the field of the
first word that is nothing.

Whatever digits it has, an expression of another number of words has a problem
without a field, and its value is the expression.
-/
theorem compile_blames_first (expression : String) :
    (∀ parts : Parts,
      Splits expression.toList (parts.map String.toList).toList →
      ShortRuns expression.toList →
      (∀ part ∈ parts.bounded, ∀ name, ∃ found,
        FieldSet.parse? part.1 part.2 = .ok found ∧
          FieldSet.parse? ⟨name, part.1.low, part.1.high⟩ part.2 =
            .ok found) ∧
      ((∃ pattern, compile expression = .ok pattern) ↔
        ∀ part ∈ parts.bounded,
          ∃ set, FieldSet.parse? part.1 part.2 = .ok (some set)) ∧
      (∀ pattern, compile expression = .ok pattern →
        pattern.parts = parts ∧
          List.Forall₂
            (fun part set =>
              FieldSet.parse? part.1 part.2 = .ok (some set))
            parts.bounded pattern.sets.toList) ∧
      ((¬ ∃ pattern, compile expression = .ok pattern) →
        ∃ bounds error problem, parts.FirstWrong bounds ∧
          compile expression = .error error ∧
          error.failure = .problem problem ∧
          problem.subject = .cron ∧ problem.field = some bounds.name)) ∧
    ∀ tokens, Splits expression.toList tokens → tokens.length ≠ 5 →
      ∃ error problem, compile expression = .error error ∧
        error.failure = .problem problem ∧ problem.subject = .cron ∧
        problem.field = none ∧ problem.value = .text expression := by
  constructor
  · intro parts splits short
    refine ⟨fun part member name => ?_, exists_compile_iff splits,
      fun pattern => parse?_of_compile splits, fun fails => ?_⟩
    · rcases FieldSet.exists_parse?_eq_ok (ordinary_of_mem_bounded member)
          (shortRuns_of_mem_bounded splits short member) with ⟨found, read⟩
      exact ⟨found, read,
        (FieldSet.parse?_rename part.1 name part.2).trans read⟩
    · rcases exists_firstWrong splits short fails with
        ⟨bounds, error, problem, first, failed, about⟩
      exact ⟨bounds, _, problem, first, failed, about⟩
  · intro tokens splits other
    exact ⟨_, _, compile_of_other_count splits other, rfl, rfl, rfl, rfl⟩

/-- Two fields of five are out of bounds. -/
def lateThirteenth : Parts := ⟨"*/15", "24", "1-15", "13", "*"⟩

/-- The hour is blamed for both, and nothing in particular for four words. -/
theorem compile_blames_first_hour :
    Splits "*/15 24 1-15 13 *".toList
        (lateThirteenth.map String.toList).toList ∧
    ShortRuns "*/15 24 1-15 13 *".toList ∧
    (∃ bounds error problem, lateThirteenth.FirstWrong bounds ∧
      bounds.name = "hour" ∧
      compile "*/15 24 1-15 13 *" = .error error ∧
      error.failure = .problem problem ∧ problem.field = some "hour") ∧
    Splits "*/15 24 1-15 13".toList
        (lateThirteenth.map String.toList).toList.dropLast ∧
    ∃ error problem, compile "*/15 24 1-15 13" = .error error ∧
      error.failure = .problem problem ∧ problem.field = none ∧
      problem.value = .text "*/15 24 1-15 13" := by
  have splits : Splits "*/15 24 1-15 13 *".toList
      (lateThirteenth.map String.toList).toList :=
    split?_eq_some_iff.mp (by decide)
  have short : ShortRuns "*/15 24 1-15 13 *".toList :=
    shortRuns_of_length_le (by decide)
  have refused : compile "*/15 24 1-15 13 *" =
      .error (.field fieldBounds.hour (.outOfBounds 24)) := by
    decide
  have fourSplits : Splits "*/15 24 1-15 13".toList
      (lateThirteenth.map String.toList).toList.dropLast :=
    words_eq_iff.mp (by decide)
  obtain ⟨-, -, -, blames⟩ :=
    (compile_blames_first "*/15 24 1-15 13 *").1 lateThirteenth splits short
  rcases blames (by simp [refused]) with
    ⟨bounds, error, problem, first, failed, isProblem, -, names⟩
  have hour : bounds.name = "hour" := by
    rw [refused] at failed
    cases failed
    have ordinary : Ordinary fieldBounds.hour :=
      ordinary_of_mem_fieldBounds (by decide)
    have hourProblem :
        ∃ problem, (FieldError.outOfBounds 24).failure fieldBounds.hour =
          .problem problem ∧ problem.subject = .cron ∧
            problem.field = some "hour" :=
      FieldError.exists_problem ordinary.writable (by simp) (by simp)
    rcases hourProblem with ⟨_, isHourProblem, -, namesHour⟩
    have same := isProblem.symm.trans isHourProblem
    cases same
    exact Option.some.inj (names.symm.trans namesHour)
  rcases (compile_blames_first "*/15 24 1-15 13").2 _ fourSplits (by decide)
    with ⟨fourError, fourProblem, fourFailed, fourIs, -, unnamed, value⟩
  exact ⟨splits, short, ⟨bounds, error, problem, first, hour, failed,
    isProblem, hour ▸ names⟩, fourSplits, fourError, fourProblem, fourFailed,
    fourIs, unnamed, value⟩

end Pattern

end Timetable.Cron
