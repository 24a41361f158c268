import Timetable.Proofs.Calendar.Rollover

/-!
# Months on and back

A step of months goes to a month of some year, however many months on or back it
lies.  If the calendar has that year the step succeeds: the day is kept where the
month has it, and becomes one of the first three of the month after it otherwise.
December has every day, so the year stays the one that was stepped to.

If the calendar does not have the year the step fails, and its error says whether
the year would fit a signed word of 32 bits.  `add_months_rolls_over` puts both
together.
-/

namespace Timetable.Calendar

/-- A date is determined by the number of its month and its day. -/
theorem Date.eq_of_monthNumber {left right : Date}
    (positive : 1 ≤ left.month) (bound : left.month ≤ 12)
    (rightPositive : 1 ≤ right.month) (rightBound : right.month ≤ 12)
    (month : left.monthNumber = right.monthNumber)
    (day : left.day = right.day) : left = right := by
  rcases left.monthNumber_parts positive bound with ⟨year, leftMonth⟩
  rcases right.monthNumber_parts rightPositive rightBound with
    ⟨rightYear, rightMonth⟩
  rw [month] at year leftMonth
  have sameYear : left.year = right.year := year.symm.trans rightYear
  have sameMonth : left.month = right.month := leftMonth.symm.trans rightMonth
  cases left
  cases right
  simp only [Date.mk.injEq]
  exact ⟨sameYear, sameMonth, day⟩

/-- December has every day, so a month that lacks one is followed by another. -/
theorem month_lt_of_lacks {date : Date} (positive : 1 ≤ date.month)
    (bound : date.month ≤ 12)
    (lacks : daysInMonth date.year date.month < 31) : date.month < 12 := by
  rcases date.monthNumber_parts positive bound with ⟨-, monthEq⟩
  by_contra last
  have december : date.monthNumber % 12 = 11 := by omega
  have length := monthLength_of_december december
  rw [Date.monthLength_monthNumber positive bound] at length
  omega

namespace Moment

section Target

variable {moment : Moment} {amount : Int} {target : Date}

/-- A step to a month that the calendar has keeps the day or rolls it over. -/
theorem addMonths_of_inside (first : 1 ≤ target.year)
    (last : target.year < yearBound) (positive : 1 ≤ target.month)
    (bound : target.month ≤ 12) (day : target.day = moment.date.day)
    (onward : (target.monthNumber : Int) =
      moment.date.monthNumber + amount) :
    ∃ result, moment.addMonths amount = .ok result ∧
      result.clock = moment.clock ∧ result.offset = moment.offset ∧
      (target.day ≤ daysInMonth target.year target.month →
        result.date = target) ∧
      (daysInMonth target.year target.month < target.day →
        target.month < 12 ∧
          ∃ rest, target.day = daysInMonth target.year target.month + rest ∧
            1 ≤ rest ∧ rest ≤ 3 ∧
            result.date = ⟨target.year, target.month + 1, rest⟩) := by
  have inCalendar :
      12 ≤ target.monthNumber ∧ target.monthNumber < yearBound * 12 := by
    rw [Date.monthNumber]
    omega
  rcases exists_addMonths onward inCalendar.1 inCalendar.2 with
    ⟨result, moved⟩
  rcases addMonths_eq_ok_iff.mp moved with ⟨-, -, -, -, -, clock, offset⟩
  rcases date_of_addMonths moved onward with ⟨keeps, rolls⟩
  rw [Date.monthLength_monthNumber positive bound, ← day] at keeps rolls
  rcases result.date_valid with ⟨-, -, resultPositive, resultBound, -, -⟩
  refine ⟨result, moved, clock, offset, fun has => ?_, fun lacks => ?_⟩
  · rcases keeps has with ⟨month, sameDay⟩
    exact Date.eq_of_monthNumber resultPositive resultBound positive bound
      month sameDay
  · rcases rolls lacks with ⟨month, restOfDay⟩
    have short := moment.date_valid.day_le
    have longEnough := (monthLength_bounds target.monthNumber).1
    rw [Date.monthLength_monthNumber positive bound] at longEnough
    have earlier := month_lt_of_lacks positive bound (by omega)
    refine ⟨earlier, result.date.day, by omega, by omega, by omega, ?_⟩
    refine Date.eq_of_monthNumber resultPositive resultBound
      (Nat.le_add_left 1 _) earlier ?_ rfl
    rw [month]
    simp only [Date.monthNumber]
    omega

end Target

/-- A step to a year that the calendar does not have fails. -/
theorem addMonths_of_outside {moment : Moment} {amount year : Int}
    {index : Nat} (inside : index < 12)
    (onward : year * 12 + index = moment.date.monthNumber + amount)
    (outside : year < 1 ∨ (yearBound : Int) ≤ year) :
    moment.addMonths amount =
      .error (if -2147483648 ≤ year ∧ year < 2147483648 then .noSuchYear
        else .yearTooLarge) := by
  have target : (moment.date.monthNumber + amount).fdiv 12 = year := by
    rw [Int.fdiv_eq_ediv_of_nonneg _ (by decide)]
    omega
  simp only [addMonths, target, checkYear_of_outside outside]

/--
Let a year and a month lie some months after the month of a moment, or before it.
If the calendar has that year, a step of so many months succeeds, keeps clock
time and offset, and leads to the same day of that month, or to one of the first
three days of the month after it, if that month is too short.  Otherwise the step
fails by the size of the year.  Years are twelve months.
-/
theorem add_months_rolls_over {moment : Moment} {amount year : Int}
    {month : Nat} (positive : 1 ≤ month) (bound : month ≤ 12)
    (onward : 12 * year + month - 1 =
      12 * moment.date.year + moment.date.month - 1 + amount) :
    (1 ≤ year → year ≤ 9999 →
      ∃ result, moment.add amount .month = .ok result ∧
        result.clock = moment.clock ∧ result.offset = moment.offset ∧
        (moment.date.day ≤ daysInMonth year.toNat month →
          result.date = ⟨year.toNat, month, moment.date.day⟩) ∧
        (daysInMonth year.toNat month < moment.date.day →
          month < 12 ∧
            ∃ rest,
              moment.date.day = daysInMonth year.toNat month + rest ∧
                1 ≤ rest ∧ rest ≤ 3 ∧
                result.date = ⟨year.toNat, month + 1, rest⟩)) ∧
    (year < 1 ∨ 9999 < year →
      moment.add amount .month =
        .error (if -2147483648 ≤ year ∧ year ≤ 2147483647 then .noSuchYear
          else .yearTooLarge)) ∧
    moment.add amount .year = moment.add (12 * amount) .month := by
  have ⟨_, _, ownPositive, _⟩ := moment.date_valid
  refine ⟨fun first last => ?_, fun outside => ?_, ?_⟩
  · let target : Date := ⟨year.toNat, month, moment.date.day⟩
    have numbered : (target.monthNumber : Int) =
        moment.date.monthNumber + amount := by
      simp only [target, Date.monthNumber]
      omega
    have inYears : 1 ≤ target.year ∧ target.year < yearBound := by
      simp only [target, yearBound]
      omega
    exact addMonths_of_inside inYears.1 inYears.2 positive bound rfl numbered
  · have failed := addMonths_of_outside (by omega : month - 1 < 12)
      (by rw [Date.monthNumber]; omega :
        year * 12 + (month - 1 : Nat) = moment.date.monthNumber + amount)
      (by simp only [yearBound]; omega)
    rw [add, failed]
    congr 1
    exact if_congr (by omega) rfl rfl
  · rw [add, add, Int.mul_comm]

/-- Half past nine on 31 January 2024. -/
def thirtyFirstOfJanuary : Moment where
  ticks := 63842290200000000
  offset := some 60

/-- A month on it is 2 March; in year 0 and behind all words it is never. -/
theorem add_months_rolls_over_january :
    thirtyFirstOfJanuary.date = ⟨2024, 1, 31⟩ ∧ daysInMonth 2024 2 = 29 ∧
    (∃ result, thirtyFirstOfJanuary.add 1 .month = .ok result ∧
      result.clock = thirtyFirstOfJanuary.clock ∧ result.offset = some 60 ∧
      result.date = ⟨2024, 3, 2⟩) ∧
    thirtyFirstOfJanuary.add (-24288) .month = .error .noSuchYear ∧
    thirtyFirstOfJanuary.add 25769803776 .month = .error .yearTooLarge := by
  have date : thirtyFirstOfJanuary.date = ⟨2024, 1, 31⟩ := by decide
  have length : daysInMonth 2024 2 = 29 := by decide
  have toFebruary : 12 * (2024 : Int) + (2 : Nat) - 1 =
      12 * thirtyFirstOfJanuary.date.year +
        thirtyFirstOfJanuary.date.month - 1 + 1 := by
    rw [date]
    decide
  have toYearZero : 12 * (0 : Int) + (1 : Nat) - 1 =
      12 * thirtyFirstOfJanuary.date.year +
        thirtyFirstOfJanuary.date.month - 1 + -24288 := by
    rw [date]
    decide
  have beyond : 12 * (2147485672 : Int) + (1 : Nat) - 1 =
      12 * thirtyFirstOfJanuary.date.year +
        thirtyFirstOfJanuary.date.month - 1 + 25769803776 := by
    rw [date]
    decide
  rcases (add_months_rolls_over (by decide) (by decide) toFebruary).1
      (by decide) (by decide) with
    ⟨result, moved, clock, offset, -, rolls⟩
  rcases rolls (by rw [date]; decide) with ⟨-, rest, restEq, -, -, day⟩
  have two : rest = 2 := by
    rw [date] at restEq
    exact (Nat.add_left_cancel (restEq : 29 + 2 = 29 + rest)).symm
  refine ⟨date, length, ⟨result, moved, clock, offset, ?_⟩, ?_, ?_⟩
  · rw [day, two]
    rfl
  · exact (add_months_rolls_over (by decide) (by decide) toYearZero).2.1
      (by decide)
  · exact (add_months_rolls_over (by decide) (by decide) beyond).2.1
      (by decide)

end Moment

end Timetable.Calendar
