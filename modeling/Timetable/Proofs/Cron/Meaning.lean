import Timetable.Calendar.Notation
import Timetable.Cron.Search
import Timetable.Proofs.Calendar.Moment
import Timetable.Proofs.Calendar.Month
import Timetable.Proofs.Cron.Grammar
import Timetable.Proofs.Text.Words

/-!
# The meaning of an expression

A term puts a condition on the numbers of its field, which is a matter of
order and divisibility (`FieldTerm.Admits`); the set that the field is compiled
to has the numbers within the bounds that satisfy it.  An expression says five
such conditions about a moment at once (`Means`).

`Source.isMatch_written` takes the whole way: from any text to its words, the
terms that they spell, the sets of their fields and the answer.
-/

namespace Timetable.Cron

open Timetable.Calendar Timetable.Text

/-! ## The numbers of a term -/

/-- The condition that a term puts on a number of its field. -/
def FieldTerm.Admits (bounds : Bounds) (value : Int) : FieldTerm → Prop
  | .any => True
  | .single number => value = number
  | .range first last => first ≤ value ∧ value ≤ last
  | .members numbers => ∃ number ∈ numbers, value = Int.ofNat number
  | .anyStep step => (step : Int) ∣ value - bounds.low
  | .fromStep first step => first ≤ value ∧ (step : Int) ∣ value - first
  | .rangeStep first last step =>
      first ≤ value ∧ value ≤ last ∧ (step : Int) ∣ value - first

theorem mem_progression {first last value : Int} {step : Nat}
    (positive : 0 < step) :
    value ∈ progression first last step ↔
      first ≤ value ∧ value ≤ last ∧ (step : Int) ∣ value - first := by
  unfold progression progressionSize
  split
  · next empty =>
      simp only [List.range_zero, List.map_nil, List.not_mem_nil, false_iff,
        not_and]
      intro lower upper
      omega
  · next inhabited =>
      simp only [List.mem_map, List.mem_range, Nat.lt_succ_iff]
      constructor
      · rintro ⟨index, bound, rfl⟩
        have within : index * step ≤ (last - first).toNat :=
          (Nat.le_div_iff_mul_le positive).mp bound
        have upper : (index : Int) * step ≤ last - first := by
          have cast : ((index * step : Nat) : Int) ≤ (last - first).toNat :=
            Int.ofNat_le.mpr within
          push_cast at cast
          omega
        have lower : 0 ≤ (index : Int) * step := by positivity
        refine ⟨by omega, by omega, ?_⟩
        rw [add_sub_cancel_left]
        exact Int.dvd_mul_left _ _
      · rintro ⟨lower, upper, index, distance⟩
        have stepPositive : (0 : Int) < step := Int.ofNat_lt.mpr positive
        have indexNonneg : 0 ≤ index := by
          by_contra negative
          have : (step : Int) * index < 0 :=
            Int.mul_neg_of_pos_of_neg stepPositive (by omega)
          omega
        rcases Int.eq_ofNat_of_zero_le indexNonneg with ⟨index, rfl⟩
        refine ⟨index, ?_, ?_⟩
        · rw [Nat.le_div_iff_mul_le positive]
          have cast : ((index * step : Nat) : Int) = value - first := by
            push_cast
            rw [distance, Int.mul_comm]
          omega
        · rw [Int.mul_comm, ← distance]
          omega

theorem mem_insertOnce {value other : Int} {values : List Int} :
    other ∈ insertOnce value values ↔ other = value ∨ other ∈ values := by
  induction values with
  | nil => simp [insertOnce]
  | cons head rest induction =>
      unfold insertOnce
      split
      · simp
      split
      · next equal => simp [equal]
      · simp only [List.mem_cons, induction]
        exact or_left_comm

theorem mem_ascending {value : Int} {values : List Int} :
    value ∈ ascending values ↔ value ∈ values := by
  unfold ascending
  induction values with
  | nil => simp
  | cons head rest induction =>
      rw [List.foldr_cons, mem_insertOnce, induction, List.mem_cons]

/-- Within the bounds a term stands for the numbers that it admits. -/
theorem FieldTerm.mem_values_iff {bounds : Bounds} {term : FieldTerm}
    {value : Int} (proper : term.Proper) (contained : bounds.Contains value) :
    value ∈ term.values bounds ↔ term.Admits bounds value := by
  rcases contained with ⟨lower, upper⟩
  cases term with
  | any => simp [values, Admits, mem_progression, lower, upper]
  | single number => simp [values, Admits]
  | range first last => simp [values, Admits, mem_progression]
  | members numbers => simp [values, Admits, mem_ascending, eq_comm]
  | anyStep step =>
      simp [values, Admits, mem_progression proper, lower, upper]
  | fromStep first step =>
      simp [values, Admits, mem_progression proper, upper]
  | rangeStep first last step =>
      simp [values, Admits, mem_progression proper.2]

/-! ## The five conditions -/

/-- A token is written as it should be and admits a number of its field. -/
def TokenAdmits (bounds : Bounds) (token : String) (value : Int) : Prop :=
  ∃ term, Writes bounds token.toList term ∧ term.Admits bounds value

/-- An expression has five words, and each of them admits its number. -/
def Means (expression : String) (moment : Moment) : Prop :=
  ∃ minute hour dayOfMonth month dayOfWeek : String,
    Splits expression.toList
        [minute.toList, hour.toList, dayOfMonth.toList, month.toList,
          dayOfWeek.toList] ∧
      TokenAdmits fieldBounds.minute minute moment.minuteOfHour ∧
      TokenAdmits fieldBounds.hour hour moment.hourOfDay ∧
      TokenAdmits fieldBounds.dayOfMonth dayOfMonth moment.date.day ∧
      TokenAdmits fieldBounds.month month moment.date.month ∧
      TokenAdmits fieldBounds.dayOfWeek dayOfWeek moment.weekday

theorem contains_minuteOfHour (moment : Moment) :
    fieldBounds.minute.Contains moment.minuteOfHour := by
  simp only [Bounds.Contains, fieldBounds, Moment.minuteOfHour]
  omega

theorem contains_hourOfDay (moment : Moment) :
    fieldBounds.hour.Contains moment.hourOfDay := by
  have inside := moment.clock_lt
  simp only [dayTicks] at inside
  simp only [Bounds.Contains, fieldBounds, Moment.hourOfDay]
  omega

theorem contains_day (moment : Moment) :
    fieldBounds.dayOfMonth.Contains moment.date.day := by
  have bound := moment.date_valid.day_le
  rcases moment.date_valid with ⟨-, -, -, -, positive, -⟩
  simp only [Bounds.Contains, fieldBounds]
  omega

theorem contains_month (moment : Moment) :
    fieldBounds.month.Contains moment.date.month := by
  rcases moment.date_valid with ⟨-, -, positive, bound, -, -⟩
  simp only [Bounds.Contains, fieldBounds]
  omega

theorem contains_weekday (moment : Moment) :
    fieldBounds.dayOfWeek.Contains moment.weekday := by
  simp only [Bounds.Contains, fieldBounds, Moment.weekday,
    weekdayOfDayNumber]
  omega

/-- The clock of a minute is that of the moments in it. -/
theorem minute_parts (moment : Moment) :
    moment.minute.ofHour = moment.minuteOfHour ∧
      moment.minute.hour = moment.hourOfDay ∧
        moment.minute.dayNumber = moment.dayNumber := by
  simp only [Moment.minute, Minute.ofHour, Minute.hour, Minute.dayNumber,
    Moment.minuteOfHour, Moment.hourOfDay, Moment.clock, Moment.dayNumber,
    minuteTicks, dayTicks]
  omega

/-- A field whose token is wrong contains nothing. -/
theorem tokenAdmits_iff {bounds : Bounds} {token : String} {value : Int}
    (narrow : Narrow bounds) (short : ShortRuns token.toList)
    (contained : bounds.Contains value) :
    TokenAdmits bounds token value ↔
      ∃ set, FieldSet.parse bounds token = .ok set ∧
        set.contains value = true := by
  simp only [FieldSet.parse_eq_ok_iff short, FieldSet.contains,
    List.contains_iff_mem]
  constructor
  · rintro ⟨term, writes, admits⟩
    exact ⟨_, ⟨term, writes, narrow.fits writes.inside, rfl⟩,
      (FieldTerm.mem_values_iff writes.proper contained).mpr admits⟩
  · rintro ⟨_, ⟨term, writes, -, rfl⟩, member⟩
    exact ⟨term, writes,
      (FieldTerm.mem_values_iff writes.proper contained).mp member⟩

/-! ## Compiling an expression -/

theorem ofList?_eq_some_iff {α : Type} {items : List α}
    {fields : Fields α} :
    Fields.ofList? items = some fields ↔ items = fields.toList := by
  constructor
  · intro found
    unfold Fields.ofList? at found
    split at found
    · cases found
      rfl
    · cases found
  · rintro rfl
    rfl

theorem split?_eq_some_iff {expression : String} {parts : Parts} :
    Parts.split? expression = some parts ↔
      Splits expression.toList (parts.map String.toList).toList := by
  rw [Parts.split?, ofList?_eq_some_iff, ← words_eq_iff, expressionWords]
  have written : (parts.map String.toList).toList =
      parts.toList.map String.toList := rfl
  rw [written]
  constructor
  · intro equal
    rw [← equal, List.map_map]
    simp [Function.comp_def]
  · intro equal
    rw [equal, List.map_map]
    simp [Function.comp_def]

/-- Five words are found again in the text that they make up. -/
theorem Parts.split?_text {parts : Parts}
    (each : ∀ part ∈ parts.toList, IsWord part.toList) :
    Parts.split? parts.text = some parts := by
  rw [split?_eq_some_iff, Parts.text, String.toList_ofList]
  refine splits_unwords fun word member => ?_
  have inWords : word ∈ parts.toList.map String.toList := member
  rcases List.mem_map.mp inWords with ⟨part, inParts, rfl⟩
  exact each part inParts

theorem splits_parts (parts : Parts) {text : List Char}
    (splits : Splits text (parts.map String.toList).toList)
    (short : ShortRuns text) :
    ShortRuns parts.minute.toList ∧ ShortRuns parts.hour.toList ∧
      ShortRuns parts.dayOfMonth.toList ∧ ShortRuns parts.month.toList ∧
        ShortRuns parts.dayOfWeek.toList := by
  have each : ∀ part ∈ (parts.map String.toList).toList, ShortRuns part :=
    fun part member => short.of_infix (splits.infix_of_mem member)
  simpa [Fields.toList, Fields.map] using each

theorem parseField_eq_ok_iff {bounds : Bounds} {token : String}
    {set : FieldSet} :
    parseField bounds token = .ok set ↔
      FieldSet.parse bounds token = .ok set :=
  mapError_eq_ok_iff

theorem parseFields_eq_ok_iff {parts : Parts} {sets : Fields FieldSet} :
    parseFields parts = .ok sets ↔
      FieldSet.parse fieldBounds.minute parts.minute = .ok sets.minute ∧
      FieldSet.parse fieldBounds.hour parts.hour = .ok sets.hour ∧
      FieldSet.parse fieldBounds.dayOfMonth parts.dayOfMonth =
        .ok sets.dayOfMonth ∧
      FieldSet.parse fieldBounds.month parts.month = .ok sets.month ∧
      FieldSet.parse fieldBounds.dayOfWeek parts.dayOfWeek =
        .ok sets.dayOfWeek := by
  simp only [parseFields, bind_eq_ok_iff, parseField_eq_ok_iff]
  constructor
  · rintro ⟨_, minute, _, hour, _, day, _, month, _, week, read⟩
    cases read
    exact ⟨minute, hour, day, month, week⟩
  · rintro ⟨minute, hour, day, month, week⟩
    exact ⟨_, minute, _, hour, _, day, _, month, _, week, rfl⟩

/-- The five words with the bounds of their fields, from left to right. -/
def Parts.bounded (parts : Parts) : List (Bounds × String) :=
  fieldBounds.toList.zip parts.toList

/-- The fields are read one after the other. -/
theorem parseFields_map_toList (parts : Parts) :
    (parseFields parts).map Fields.toList =
      parts.bounded.mapM fun part => parseField part.1 part.2 := by
  simp only [parseFields, Parts.bounded, Fields.toList, List.zip_cons_cons,
    List.zip_nil_right, List.mapM_cons, List.mapM_nil]
  cases parseField fieldBounds.minute parts.minute with
  | error failure => rfl
  | ok minute =>
  cases parseField fieldBounds.hour parts.hour with
  | error failure => rfl
  | ok hour =>
  cases parseField fieldBounds.dayOfMonth parts.dayOfMonth with
  | error failure => rfl
  | ok dayOfMonth =>
  cases parseField fieldBounds.month parts.month with
  | error failure => rfl
  | ok month =>
  cases parseField fieldBounds.dayOfWeek parts.dayOfWeek with
  | error failure => rfl
  | ok dayOfWeek => rfl

/-- The fields fail as the first of them that fails. -/
theorem parseFields_eq_error_iff {parts : Parts}
    {failure : ExpressionError} :
    parseFields parts = .error failure ↔
      ∃ before part after, parts.bounded = before ++ part :: after ∧
        (∀ earlier ∈ before,
          ∃ set, FieldSet.parse earlier.1 earlier.2 = .ok set) ∧
        ∃ error, FieldSet.parse part.1 part.2 = .error error ∧
          .field part.1 error = failure := by
  have sameFailure :
      (parseFields parts).map Fields.toList = .error failure ↔
        parseFields parts = .error failure :=
    map_eq_error_iff
  rw [← sameFailure, parseFields_map_toList, mapM_eq_error_iff]
  simp only [parseField, mapError_eq_ok_iff, mapError_eq_error_iff]

theorem ordinary_of_mem_bounded {parts : Parts} {part : Bounds × String}
    (member : part ∈ parts.bounded) : Ordinary part.1 :=
  ordinary_of_mem_fieldBounds (List.of_mem_zip member).1

theorem shortRuns_of_mem_bounded {expression : String} {parts : Parts}
    (splits : Splits expression.toList (parts.map String.toList).toList)
    (short : ShortRuns expression.toList) {part : Bounds × String}
    (member : part ∈ parts.bounded) : ShortRuns part.2.toList := by
  have inParts : part.2 ∈ parts.toList := (List.of_mem_zip member).2
  have inWords : part.2.toList ∈ (parts.map String.toList).toList :=
    List.mem_map_of_mem inParts
  exact short.of_infix (splits.infix_of_mem inWords)

/-- The fields only fault at a number with too many digits. -/
theorem exists_problem_of_parseFields {parts : Parts}
    {failure : ExpressionError} (failed : parseFields parts = .error failure)
    (converted : ∀ bounds, failure ≠ .field bounds .tooLong) :
    ∃ problem, failure.failure = .problem problem := by
  rcases parseFields_eq_error_iff.mp failed with
    ⟨before, part, after, split, -, error, partFailed, rfl⟩
  have ordinary : Ordinary part.1 :=
    ordinary_of_mem_bounded (by simp [split] : part ∈ parts.bounded)
  have few : error ≠ .tooMany := by
    rintro rfl
    exact FieldSet.parse_ne_tooMany ordinary.narrow partFailed
  have problem := FieldError.exists_problem ordinary.writable
    (fun long => converted part.1 (by rw [long])) few
  exact problem.imp fun _ about => about.1

namespace Pattern

theorem compile_eq_ok_iff {expression : String} {pattern : Pattern} :
    compile expression = .ok pattern ↔
      Splits expression.toList
          (pattern.parts.map String.toList).toList ∧
        parseFields pattern.parts = .ok pattern.sets := by
  unfold compile
  split
  · next missing =>
      simp only [reduceCtorEq, false_iff, not_and]
      intro splits
      rw [split?_eq_some_iff.mpr splits] at missing
      cases missing
  · next parts found =>
      rw [bind_eq_ok_iff]
      constructor
      · rintro ⟨sets, read, result⟩
        cases result
        exact ⟨split?_eq_some_iff.mp found, read⟩
      · rintro ⟨splits, read⟩
        have same := split?_eq_some_iff.mpr splits
        rw [found] at same
        cases same
        exact ⟨_, read, rfl⟩

theorem compile_of_split {expression : String} {parts : Parts}
    (split : Parts.split? expression = some parts) :
    compile expression =
      (parseFields parts).map fun sets => ⟨parts, sets⟩ := by
  simp only [compile, split]
  cases parseFields parts <;> rfl

theorem compile_ne_tooLong {expression : String} {bounds : Bounds}
    (short : ShortRuns expression.toList) :
    compile expression ≠ .error (.field bounds .tooLong) := by
  cases split : Parts.split? expression with
  | none => simp [compile, split]
  | some parts =>
      rw [compile_of_split split, Ne, map_eq_error_iff,
        parseFields_eq_error_iff]
      rintro ⟨before, part, after, bounded, -, _, failed, ⟨⟩⟩
      refine FieldSet.parse_ne_tooLong ?_ failed
      exact shortRuns_of_mem_bounded (split?_eq_some_iff.mp split) short
        (by simp [bounded])

/-- An expression only faults at a number with too many digits. -/
theorem exists_problem_of_compile {expression : String}
    {failure : ExpressionError} (failed : compile expression = .error failure)
    (converted : ∀ bounds, failure ≠ .field bounds .tooLong) :
    ∃ problem, failure.failure = .problem problem := by
  cases split : Parts.split? expression with
  | none =>
      rw [compile, split] at failed
      cases failed
      exact ⟨_, rfl⟩
  | some parts =>
      rw [compile_of_split split, map_eq_error_iff] at failed
      exact exists_problem_of_parseFields failed converted

/-- Without long runs of digits, an expression compiles or is wrong. -/
theorem parse?_eq_ok {expression : String}
    (short : ShortRuns expression.toList) :
    parse? expression = .ok (compile expression).toOption := by
  refine lenient_mapError fun failure failed => ?_
  refine exists_problem_of_compile failed fun bounds => ?_
  rintro rfl
  exact compile_ne_tooLong short failed

theorem isMatch_iff {pattern : Pattern} {moment : Moment} :
    pattern.isMatch moment = true ↔
      pattern.sets.minute.contains moment.minuteOfHour = true ∧
      pattern.sets.hour.contains moment.hourOfDay = true ∧
      pattern.sets.dayOfMonth.contains moment.date.day = true ∧
      pattern.sets.month.contains moment.date.month = true ∧
      pattern.sets.dayOfWeek.contains moment.weekday = true := by
  rcases minute_parts moment with ⟨minute, hour, dayNumber⟩
  simp only [isMatch, admits, admitsDay, Bool.and_eq_true, minute, hour,
    dayNumber, Moment.date, Moment.weekday, and_assoc]

end Pattern

/-! ## The answer to a written expression -/

theorem means_iff {expression : String} {moment : Moment}
    (short : ShortRuns expression.toList) :
    Means expression moment ↔
      ∃ pattern, Pattern.compile expression = .ok pattern ∧
        pattern.isMatch moment = true := by
  simp only [Pattern.compile_eq_ok_iff, parseFields_eq_ok_iff,
    Pattern.isMatch_iff]
  -- Each of the five words has its own bounds and its own number.
  have minute_iff {token : String} (short : ShortRuns token.toList) :=
    tokenAdmits_iff (by decide) short (contains_minuteOfHour moment)
  have hour_iff {token : String} (short : ShortRuns token.toList) :=
    tokenAdmits_iff (by decide) short (contains_hourOfDay moment)
  have day_iff {token : String} (short : ShortRuns token.toList) :=
    tokenAdmits_iff (by decide) short (contains_day moment)
  have month_iff {token : String} (short : ShortRuns token.toList) :=
    tokenAdmits_iff (by decide) short (contains_month moment)
  have weekday_iff {token : String} (short : ShortRuns token.toList) :=
    tokenAdmits_iff (by decide) short (contains_weekday moment)
  constructor
  · rintro ⟨minute, hour, dayOfMonth, month, dayOfWeek, splits, minuteAdmits,
      hourAdmits, dayAdmits, monthAdmits, weekdayAdmits⟩
    obtain ⟨minuteShort, hourShort, dayShort, monthShort, weekdayShort⟩ :=
      splits_parts (⟨minute, hour, dayOfMonth, month, dayOfWeek⟩ : Parts)
        splits short
    rcases (minute_iff minuteShort).mp minuteAdmits with
      ⟨minutes, readMinute, minuteHeld⟩
    rcases (hour_iff hourShort).mp hourAdmits with ⟨hours, readHour, hourHeld⟩
    rcases (day_iff dayShort).mp dayAdmits with ⟨days, readDay, dayHeld⟩
    rcases (month_iff monthShort).mp monthAdmits with
      ⟨months, readMonth, monthHeld⟩
    rcases (weekday_iff weekdayShort).mp weekdayAdmits with
      ⟨weekdays, readWeekday, weekdayHeld⟩
    exact ⟨⟨⟨minute, hour, dayOfMonth, month, dayOfWeek⟩,
        ⟨minutes, hours, days, months, weekdays⟩⟩,
      ⟨splits, readMinute, readHour, readDay, readMonth, readWeekday⟩,
      minuteHeld, hourHeld, dayHeld, monthHeld, weekdayHeld⟩
  · rintro ⟨⟨parts, sets⟩, ⟨splits, readMinute, readHour, readDay, readMonth,
      readWeekday⟩, minuteHeld, hourHeld, dayHeld, monthHeld, weekdayHeld⟩
    rcases splits_parts parts splits short with
      ⟨minuteShort, hourShort, dayShort, monthShort, weekdayShort⟩
    exact ⟨parts.minute, parts.hour, parts.dayOfMonth, parts.month,
      parts.dayOfWeek, splits,
      (minute_iff minuteShort).mpr ⟨_, readMinute, minuteHeld⟩,
      (hour_iff hourShort).mpr ⟨_, readHour, hourHeld⟩,
      (day_iff dayShort).mpr ⟨_, readDay, dayHeld⟩,
      (month_iff monthShort).mpr ⟨_, readMonth, monthHeld⟩,
      (weekday_iff weekdayShort).mpr ⟨_, readWeekday, weekdayHeld⟩⟩

namespace Source

/--
A moment matches a written expression exactly if it satisfies what the
expression means; a text that is no expression means nothing.
-/
theorem isMatch_written {expression : String} (moment : Moment)
    (short : ShortRuns expression.toList) :
    ∃ answer, (written expression).isMatch moment = .ok answer ∧
      (answer = true ↔ Means expression moment) := by
  refine ⟨_, by rw [isMatch, resolve, Pattern.parse?_eq_ok short, Except.map],
    ?_⟩
  rw [means_iff short]
  cases compiled : Pattern.compile expression with
  | error failure => simp [Except.toOption]
  | ok pattern => simp [Except.toOption]

theorem isMatch_written_quarters :
    ShortRuns "*/15 9-17 1,15 * 1-5".toList ∧
      ∃ answer,
        (written "*/15 9-17 1,15 * 1-5").isMatch
            { ticks := 63840907800000000, offset := none } = .ok answer ∧
          (answer = true ↔
            Means "*/15 9-17 1,15 * 1-5"
              { ticks := 63840907800000000, offset := none }) :=
  ⟨shortRuns_of_length_le (by decide),
    isMatch_written _ (shortRuns_of_length_le (by decide))⟩

end Source

end Timetable.Cron
