import Timetable.Calendar.Shift
import Timetable.Proofs.Calendar.Moment
import Timetable.Proofs.Calendar.Month

/-!
# What a step along the calendar does

A step of days or months changes the day of a moment and keeps its clock time
and its offset.  It fails exactly where the day would leave the calendar.

A step by more units leads to a later day than a step by fewer, whatever the
unit.  The days after the first of a month are carried over to the first of
another month, and the firsts of the months are in order, so it does not matter
which of the two steps roll the day over.  A step by no units leads nowhere.
-/

namespace Timetable.Calendar

namespace Moment

/-! ## The day that a step leads to -/

/-- A step to a day keeps the clock time and the offset. -/
theorem onDay_eq_ok_iff {moment result : Moment} {day : Int} :
    moment.onDay day = .ok result ↔
      (result.dayNumber : Int) = day ∧ result.clock = moment.clock ∧
        result.offset = moment.offset := by
  constructor
  · intro stepped
    simp only [onDay] at stepped
    split at stepped
    · next reached =>
        cases stepped
        rcases split_ticks day.toNat moment.clock_lt with ⟨dayEq, clockEq⟩
        refine ⟨?_, clockEq, rfl⟩
        rw [dayNumber, dayEq]
        exact Int.toNat_of_nonneg reached.1
    · cases stepped
  · rintro ⟨rfl, clockEq, offsetEq⟩
    have reached :
        0 ≤ (result.dayNumber : Int) ∧
          (result.dayNumber : Int).toNat < dayCount :=
      ⟨Int.natCast_nonneg _, result.dayNumber_lt⟩
    rw [onDay, dif_pos reached, Except.ok.injEq]
    apply ext_ticks
    · simp only [ticks_eq result, clockEq, Int.toNat_natCast]
    · exact offsetEq.symm

/-- A step to a day fails exactly where the calendar ends. -/
theorem onDay_eq_error_iff {moment : Moment} {day : Int}
    {failure : RangeError} :
    moment.onDay day = .error failure ↔
      (day < 0 ∨ (dayCount : Int) ≤ day) ∧ failure = .pastEdge := by
  simp only [onDay]
  split
  · next reached =>
      simp only [reduceCtorEq, false_iff]
      omega
  · next beyond =>
      simp only [Except.error.injEq, eq_comm (a := RangeError.pastEdge)]
      constructor
      · intro equal
        exact ⟨by omega, equal⟩
      · exact And.right

/-- Every clock time stands on every day of the calendar. -/
theorem exists_onDay (moment : Moment) {day : Nat}
    (reached : day < dayCount) :
    ∃ result : Moment, result.dayNumber = day ∧
      result.clock = moment.clock ∧ result.offset = moment.offset := by
  cases stepped : moment.onDay day with
  | error failure =>
      rcases onDay_eq_error_iff.mp stepped with ⟨beyond, -⟩
      omega
  | ok result =>
      rcases onDay_eq_ok_iff.mp stepped with ⟨dayEq, clock, offset⟩
      exact ⟨result, Int.ofNat_inj.mp dayEq, clock, offset⟩

/-- Every clock time stands on every date that exists. -/
theorem exists_onDate (moment : Moment) {date : Date} (valid : date.Valid) :
    ∃ result : Moment, result.date = date ∧
      result.clock = moment.clock ∧ result.offset = moment.offset := by
  rcases moment.exists_onDay valid.dayNumber_lt with ⟨result, day, parts⟩
  refine ⟨result, ?_, parts⟩
  rw [Moment.date, day, Date.ofDayNumber_dayNumber valid]

/-- A step of microseconds keeps the offset. -/
theorem addTicks_eq_ok_iff {moment result : Moment} {amount : Int} :
    moment.addTicks amount = .ok result ↔
      (result.ticks : Int) = moment.ticks + amount ∧
        result.offset = moment.offset := by
  have reached := result.reached
  simp only [addTicks]
  split
  · next inside =>
      simp only [Except.ok.injEq]
      constructor
      · rintro rfl
        exact ⟨Int.toNat_of_nonneg inside.1, rfl⟩
      · rintro ⟨ticksEq, offsetEq⟩
        apply ext_ticks
        · simp only [← ticksEq, Int.toNat_natCast]
        · exact offsetEq.symm
  · next outside =>
      simp only [reduceCtorEq, false_iff, not_and]
      intro ticksEq
      omega

theorem addTicks_error {moment : Moment} {amount : Int}
    {failure : RangeError}
    (failed : moment.addTicks amount = .error failure) :
    failure = .pastEdge := by
  simp only [addTicks] at failed
  split at failed
  · cases failed
  · cases failed
    rfl

theorem addDays_eq_ok_iff {moment result : Moment} {amount : Int} :
    moment.addDays amount = .ok result ↔
      (result.dayNumber : Int) = moment.dayNumber + amount ∧
        result.clock = moment.clock ∧ result.offset = moment.offset :=
  onDay_eq_ok_iff

theorem checkYear_eq_ok_iff {year : Int} {checked : Nat} :
    checkYear year = .ok checked ↔
      (checked : Int) = year ∧ 1 ≤ checked ∧ checked < yearBound := by
  simp only [checkYear]
  split
  · next inside =>
      simp only [Except.ok.injEq]
      omega
  · next outside =>
      split <;> simp only [reduceCtorEq, false_iff] <;> omega

/-- A year that the calendar does not reach fails by its size. -/
theorem checkYear_of_outside {year : Int}
    (outside : year < 1 ∨ (yearBound : Int) ≤ year) :
    checkYear year =
      .error (if -2147483648 ≤ year ∧ year < 2147483648 then .noSuchYear
        else .yearTooLarge) := by
  rw [checkYear, if_neg (by omega)]
  split <;> rfl

/--
A step of months goes to a month of the years 1 to 9999 and as many days after
the first of it as before.
-/
theorem addMonths_eq_ok_iff {moment result : Moment} {amount : Int} :
    moment.addMonths amount = .ok result ↔
      ∃ target : Nat,
        (target : Int) = moment.date.monthNumber + amount ∧
          12 ≤ target ∧ target < yearBound * 12 ∧
            result.dayNumber =
              firstOfMonth target + (moment.date.day - 1) ∧
            result.clock = moment.clock ∧
              result.offset = moment.offset := by
  simp only [addMonths]
  generalize (moment.date.monthNumber : Int) + amount = target
  cases checked : checkYear (target.fdiv 12) with
  | error failure =>
      simp only [reduceCtorEq, false_iff, not_exists, not_and]
      intro number numberEq positive bound
      have year : checkYear (target.fdiv 12) = .ok (number / 12) := by
        rw [checkYear_eq_ok_iff, ← numberEq,
          Int.fdiv_eq_ediv_of_nonneg _ (by decide)]
        simp only [yearBound] at *
        omega
      rw [year] at checked
      cases checked
  | ok year =>
      rcases checkYear_eq_ok_iff.mp checked with ⟨yearEq, positive, bound⟩
      rw [Int.fdiv_eq_ediv_of_nonneg _ (by decide)] at yearEq
      rcases Int.eq_ofNat_of_zero_le (by omega : 0 ≤ target) with
        ⟨number, rfl⟩
      have monthEq : (Int.fmod number 12).toNat = number % 12 := by
        rw [Int.fmod_eq_emod_of_nonneg _ (by decide)]
        omega
      have whole : year * 12 + number % 12 = number := by omega
      simp only [yearBound] at *
      simp only [monthEq,
        ← firstOfMonth_eq year _ (Nat.mod_lt number (by decide)), whole,
        onDay_eq_ok_iff, Int.ofNat_inj]
      constructor
      · intro parts
        exact ⟨number, rfl, by omega, by omega, parts⟩
      · rintro ⟨same, rfl, -, -, parts⟩
        exact parts

/-! ## Steps forward -/

/-- One moment lies some days before another at the same clock time. -/
structure DaysBefore (left right : Moment) : Prop where
  day : left.dayNumber < right.dayNumber
  clock : right.clock = left.clock
  offset : right.offset = left.offset

theorem DaysBefore.before {left right : Moment}
    (earlier : left.DaysBefore right) : left.Before right :=
  before_of_dayNumber_lt earlier.offset.symm earlier.day

theorem DaysBefore.trans {first second third : Moment}
    (earlier : first.DaysBefore second) (next : second.DaysBefore third) :
    first.DaysBefore third :=
  ⟨Nat.lt_trans earlier.day next.day, next.clock.trans earlier.clock,
    next.offset.trans earlier.offset⟩

theorem twelve_le_monthNumber (moment : Moment) :
    12 ≤ moment.date.monthNumber := by
  rcases moment.date_valid with ⟨positive, -⟩
  rw [Date.monthNumber]
  omega

theorem dayNumber_eq_firstOfMonth (moment : Moment) :
    moment.dayNumber =
      firstOfMonth moment.date.monthNumber + (moment.date.day - 1) := by
  rcases moment.date_valid with ⟨-, -, positive, bound, -⟩
  rw [← dayNumber_date, Date.dayNumber_eq positive bound]

theorem addDays_zero (moment : Moment) : moment.addDays 0 = .ok moment :=
  addDays_eq_ok_iff.mpr ⟨(Int.add_zero _).symm, rfl, rfl⟩

/-- A step to the same day of another month that has it. -/
theorem addMonths_of_same_day {moment result : Moment} {amount : Int}
    (month : (result.date.monthNumber : Int) =
      moment.date.monthNumber + amount)
    (day : result.date.day = moment.date.day)
    (clock : result.clock = moment.clock)
    (offset : result.offset = moment.offset) :
    moment.addMonths amount = .ok result := by
  have ⟨_, yearBound, _, monthBound, _⟩ := result.date_valid
  refine addMonths_eq_ok_iff.mpr ⟨result.date.monthNumber, month,
    result.twelve_le_monthNumber, ?_, ?_, clock, offset⟩
  · rw [Date.monthNumber]
    omega
  · rw [← day]
    exact result.dayNumber_eq_firstOfMonth

/-- A step by no units leads nowhere. -/
theorem add_zero (moment : Moment) (unit : CalendarUnit) :
    moment.add 0 unit = .ok moment := by
  have noMonths : moment.addMonths 0 = .ok moment :=
    addMonths_of_same_day (Int.add_zero _).symm rfl rfl rfl
  cases unit with
  | day => exact moment.addDays_zero
  | week => exact moment.addDays_zero
  | month => exact noMonths
  | year => exact noMonths

section Order

variable {moment earlier later : Moment} {fewer more : Int}

theorem addDays_ordered (ordered : fewer < more)
    (moved : moment.addDays fewer = .ok earlier)
    (onward : moment.addDays more = .ok later) :
    earlier.DaysBefore later := by
  rcases addDays_eq_ok_iff.mp moved with ⟨day, clock, offset⟩
  rcases addDays_eq_ok_iff.mp onward with ⟨laterDay, laterClock, laterOffset⟩
  exact ⟨by omega, laterClock.trans clock.symm,
    laterOffset.trans offset.symm⟩

/-- Months begin in order, and the days after their firsts are the same. -/
theorem addMonths_ordered (ordered : fewer < more)
    (moved : moment.addMonths fewer = .ok earlier)
    (onward : moment.addMonths more = .ok later) :
    earlier.DaysBefore later := by
  rcases addMonths_eq_ok_iff.mp moved with
    ⟨target, targetEq, reached, -, day, clock, offset⟩
  rcases addMonths_eq_ok_iff.mp onward with
    ⟨laterTarget, laterEq, -, -, laterDay, laterClock, laterOffset⟩
  have begins := firstOfMonth_lt reached (by omega : target < laterTarget)
  exact ⟨by omega, laterClock.trans clock.symm,
    laterOffset.trans offset.symm⟩

/-- A step by more units leads to a later day than a step by fewer. -/
theorem add_ordered {unit : CalendarUnit} (ordered : fewer < more)
    (moved : moment.add fewer unit = .ok earlier)
    (onward : moment.add more unit = .ok later) :
    earlier.DaysBefore later := by
  cases unit with
  | day => exact addDays_ordered ordered moved onward
  | week => exact addDays_ordered (by omega) moved onward
  | month => exact addMonths_ordered ordered moved onward
  | year => exact addMonths_ordered (by omega) moved onward

end Order

/-- Every step by a positive number of units leads to a later day. -/
theorem add_daysBefore {moment result : Moment} {amount : Int}
    {unit : CalendarUnit} (positive : 0 < amount)
    (moved : moment.add amount unit = .ok result) :
    moment.DaysBefore result :=
  add_ordered positive (moment.add_zero unit) moved

end Moment

end Timetable.Calendar
