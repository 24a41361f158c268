import Timetable.Proofs.Calendar.Shift
import Timetable.Proofs.Search

/-!
# Days that roll over

A step of months keeps the day of the month as long as the target month has it.
Where it has not, the day rolls over into the month after it, and becomes one of
the first three there.  `addMonths_date` says so of a single step.

Steps of the same number of months roll over once at most, since every month has
the days up to 28: `walk_addMonths` gives month and day after any number of
them, in terms of the months that lack the day.

Rolling over does not lead out of the calendar, whose last month has 31 days.
A step therefore fails exactly where the calendar does not go as far back or on
as it leads (`exists_add_iff`).
-/

namespace Timetable.Calendar

/-! ## The month of a day -/

theorem monthLength_of_december {number : Nat} (december : number % 12 = 11) :
    monthLength number = 31 := by
  rw [monthLength, december]
  rfl

/-- A day of a month is found in that month. -/
theorem Moment.date_of_inside {moment : Moment} {number further : Nat}
    (reached : 12 ≤ number)
    (day : moment.dayNumber = firstOfMonth number + further)
    (inside : further < monthLength number) :
    moment.date.monthNumber = number ∧ moment.date.day = further + 1 := by
  have bound := moment.date_valid.day_le_monthLength
  have ⟨_, _, _, _, positive, _⟩ := moment.date_valid
  have ownReached := moment.twelve_le_monthNumber
  have own := moment.dayNumber_eq_firstOfMonth
  have ownNext := firstOfMonth_succ ownReached
  have next := firstOfMonth_succ reached
  have notEarlier : ¬ moment.date.monthNumber < number := by
    intro earlier
    have ended : firstOfMonth (moment.date.monthNumber + 1) ≤
        firstOfMonth number := firstOfMonth_mono (by omega) earlier
    omega
  have notLater : ¬ number < moment.date.monthNumber := by
    intro later
    have ended : firstOfMonth (number + 1) ≤
        firstOfMonth moment.date.monthNumber :=
      firstOfMonth_mono (by omega) later
    omega
  have equal : moment.date.monthNumber = number := by omega
  rw [equal] at own
  exact ⟨equal, by omega⟩

/-- Behind the end of a month lie the first days of the next one. -/
theorem Moment.date_of_beyond {moment : Moment} {number further : Nat}
    (reached : 12 ≤ number)
    (day : moment.dayNumber = firstOfMonth number + further)
    (beyond : monthLength number ≤ further) (short : further ≤ 31) :
    moment.date.monthNumber = number + 1 ∧
      moment.date.day = further - monthLength number + 1 := by
  have length := monthLength_bounds number
  have nextLength := monthLength_bounds (number + 1)
  apply Moment.date_of_inside (Nat.le_add_right_of_le reached)
  · rw [day, firstOfMonth_succ reached]
    omega
  · omega

namespace Moment

/-! ## One step -/

/-- The month some months on does not have the day of a moment. -/
def LacksDay (moment : Moment) (months : Nat) : Prop :=
  monthLength (moment.date.monthNumber + months) < moment.date.day

instance (moment : Moment) (months : Nat) :
    Decidable (moment.LacksDay months) :=
  inferInstanceAs (Decidable (_ < _))

theorem not_lacksDay_zero (moment : Moment) : ¬ moment.LacksDay 0 := by
  rw [LacksDay, Nat.add_zero, Nat.not_lt]
  exact moment.date_valid.day_le_monthLength

/-- Every month has the days up to 28. -/
theorem not_lacksDay_of_le {moment : Moment} (early : moment.date.day ≤ 28)
    (months : Nat) : ¬ moment.LacksDay months := by
  rw [LacksDay, Nat.not_lt]
  exact Nat.le_trans early (monthLength_bounds _).1

/--
A step of months keeps the day if the target month has it, and otherwise rolls
it over into the month after that.
-/
theorem date_of_addMonths {moment result : Moment} {amount : Int}
    {target : Nat} (moved : moment.addMonths amount = .ok result)
    (targetEq : (target : Int) = moment.date.monthNumber + amount) :
    (moment.date.day ≤ monthLength target →
      result.date.monthNumber = target ∧
        result.date.day = moment.date.day) ∧
    (monthLength target < moment.date.day →
      result.date.monthNumber = target + 1 ∧
        result.date.day = moment.date.day - monthLength target) := by
  rcases addMonths_eq_ok_iff.mp moved with
    ⟨same, sameEq, reached, -, day, -, -⟩
  obtain rfl : same = target := by omega
  have short := moment.date_valid.day_le
  have ⟨_, _, _, _, positive, _⟩ := moment.date_valid
  constructor
  · intro has
    have found := date_of_inside reached day (by omega)
    exact ⟨found.1, by omega⟩
  · intro lacks
    have found := date_of_beyond reached day (by omega) (by omega)
    exact ⟨found.1, by omega⟩

theorem addMonths_date {moment result : Moment} {months : Nat}
    (moved : moment.addMonths months = .ok result) :
    (¬ moment.LacksDay months →
      result.date.monthNumber = moment.date.monthNumber + months ∧
        result.date.day = moment.date.day) ∧
    (moment.LacksDay months →
      result.date.monthNumber = moment.date.monthNumber + months + 1 ∧
        result.date.day = moment.date.day -
          monthLength (moment.date.monthNumber + months)) := by
  simp only [LacksDay, Nat.not_lt]
  exact date_of_addMonths moved (Int.natCast_add _ _)

/-! ## Several steps -/

/-- One of the months stepped to does not have the day of a moment. -/
def LackedDay (moment : Moment) (stride index : Nat) : Prop :=
  ∃ earlier ≤ index, moment.LacksDay (earlier * stride)

instance (moment : Moment) (stride index : Nat) :
    Decidable (moment.LackedDay stride index) :=
  inferInstanceAs (Decidable (∃ earlier ≤ index, _))

theorem LackedDay.mono {moment : Moment} {stride index further : Nat}
    (lacked : moment.LackedDay stride index) (ordered : index ≤ further) :
    moment.LackedDay stride further := by
  rcases lacked with ⟨earlier, bound, lacks⟩
  exact ⟨earlier, Nat.le_trans bound ordered, lacks⟩

theorem not_lackedDay_zero (moment : Moment) (stride : Nat) :
    ¬ moment.LackedDay stride 0 := by
  rintro ⟨earlier, bound, lacks⟩
  rw [Nat.le_zero.mp bound, Nat.zero_mul] at lacks
  exact moment.not_lacksDay_zero lacks

theorem lackedDay_succ_iff {moment : Moment} {stride index : Nat} :
    moment.LackedDay stride (index + 1) ↔
      moment.LackedDay stride index ∨
        moment.LacksDay ((index + 1) * stride) := by
  constructor
  · rintro ⟨earlier, bound, lacks⟩
    rcases Nat.le_succ_iff.mp bound with before | rfl
    · exact .inl ⟨earlier, before, lacks⟩
    · exact .inr lacks
  · rintro (⟨earlier, bound, lacks⟩ | lacks)
    · exact ⟨earlier, Nat.le_succ_of_le bound, lacks⟩
    · exact ⟨index + 1, Nat.le_refl _, lacks⟩

/--
Month and day after some steps of equally many months: the day stays the same as
long as every month has it, and rolls over no more than once.
-/
theorem walk_addMonths {ε : Type} {step : Moment → Except ε Moment}
    {stride : Nat}
    (strides : ∀ {candidate next : Moment}, step candidate = .ok next →
      candidate.addMonths stride = .ok next)
    {first candidate : Moment} {index : Nat}
    (reached : walk step first index = .ok candidate) :
    (¬ first.LackedDay stride index →
      candidate.date.monthNumber =
          first.date.monthNumber + index * stride ∧
        candidate.date.day = first.date.day) ∧
    (first.LackedDay stride index →
      candidate.date.monthNumber =
          first.date.monthNumber + index * stride + 1 ∧
        candidate.date.day ≤ 3) := by
  induction index generalizing candidate with
  | zero =>
      cases reached
      simp [first.not_lackedDay_zero stride]
  | succ index induction =>
      rcases walk_succ_eq_ok_iff.mp reached with
        ⟨before, beforeReached, moved⟩
      rcases induction beforeReached with ⟨kept, rolled⟩
      rcases addMonths_date (strides moved) with ⟨keeps, rolls⟩
      rw [lackedDay_succ_iff, Nat.succ_mul]
      by_cases lacked : first.LackedDay stride index
      -- A day that rolled over once is in every month.
      · obtain ⟨month, day⟩ := rolled lacked
        have next := keeps (not_lacksDay_of_le (by omega) stride)
        exact ⟨fun never => absurd (.inl lacked) never,
          fun _ => ⟨by omega, by omega⟩⟩
      · obtain ⟨month, day⟩ := kept lacked
        have same : before.LacksDay stride ↔
            first.LacksDay (index * stride + stride) := by
          rw [LacksDay, LacksDay, month, day, Nat.add_assoc]
        have length := monthLength_bounds
          (before.date.monthNumber + stride)
        have short := before.date_valid.day_le
        constructor
        · intro never
          have next := keeps fun lacks => never (.inr (same.mp lacks))
          exact ⟨by omega, by omega⟩
        · rintro (already | lacks)
          · exact absurd already lacked
          · have next := rolls (same.mpr lacks)
            exact ⟨by omega, by omega⟩

/-- The day that rolled over is a month ahead of the steps. -/
theorem monthsBetween_walk {ε : Type} {step : Moment → Except ε Moment}
    {stride : Nat}
    (strides : ∀ {candidate next : Moment}, step candidate = .ok next →
      candidate.addMonths stride = .ok next)
    {first candidate : Moment} {index : Nat}
    (reached : walk step first index = .ok candidate) :
    first.monthsBetween candidate = index * stride +
      if first.LackedDay stride index then 1 else 0 := by
  have ⟨kept, rolled⟩ := walk_addMonths strides reached
  rw [monthsBetween]
  split
  · next lacked =>
      rw [(rolled lacked).1]
      push_cast
      omega
  · next never =>
      rw [(kept never).1]
      push_cast
      omega

/-! ## Room in the calendar -/

/-- The calendar reaches some units on from a moment. -/
def HasRoom (moment : Moment) (amount : Int) : CalendarUnit → Prop
  | .day => moment.dayNumber + amount < dayCount
  | .week => moment.dayNumber + amount * 7 < dayCount
  | .month => moment.date.monthNumber + amount < yearBound * 12
  | .year => moment.date.year + amount < yearBound

instance (moment : Moment) (amount : Int) :
    (unit : CalendarUnit) → Decidable (moment.HasRoom amount unit)
  | .day => inferInstanceAs (Decidable (_ < _))
  | .week => inferInstanceAs (Decidable (_ < _))
  | .month => inferInstanceAs (Decidable (_ < _))
  | .year => inferInstanceAs (Decidable (_ < _))

/-- The number of units that the calendar goes back from a moment. -/
def unitsBack (moment : Moment) : CalendarUnit → Nat
  | .day => moment.dayNumber
  | .week => moment.dayNumber / 7
  | .month => moment.date.monthNumber - 12
  | .year => moment.date.year - 1

/-- The number of units that the calendar goes on from a moment. -/
def unitsOn (moment : Moment) : CalendarUnit → Nat
  | .day => dayCount - 1 - moment.dayNumber
  | .week => (dayCount - 1 - moment.dayNumber) / 7
  | .month => yearBound * 12 - 1 - moment.date.monthNumber
  | .year => yearBound - 1 - moment.date.year

theorem exists_addDays_iff {moment : Moment} {amount : Int} :
    (∃ result, moment.addDays amount = .ok result) ↔
      0 ≤ moment.dayNumber + amount ∧
        moment.dayNumber + amount < dayCount := by
  cases moved : moment.addDays amount with
  | error failure =>
      have ⟨beyond, _⟩ := onDay_eq_error_iff.mp moved
      simp only [reduceCtorEq, exists_false, false_iff]
      omega
  | ok result =>
      have ⟨day, _⟩ := addDays_eq_ok_iff.mp moved
      have inside := result.dayNumber_lt
      simp only [Except.ok.injEq, exists_eq', true_iff]
      omega

/-- The days of a month are in the calendar even where they roll over. -/
theorem dayNumber_lt_of_month {number further : Nat} (reached : 12 ≤ number)
    (bound : number < yearBound * 12) (short : further ≤ 30) :
    firstOfMonth number + further < dayCount := by
  have ended : firstOfMonth (yearBound * 12) = dayCount := by decide
  rw [← ended]
  rcases Nat.lt_or_eq_of_le (Nat.succ_le_of_lt bound) with earlier | last
  · have grown := firstOfMonth_add_le reached 2
    have before : firstOfMonth (number + 2) ≤ firstOfMonth (yearBound * 12) :=
      firstOfMonth_mono (by omega) earlier
    omega
  · have december : number % 12 = 11 := by
      simp only [yearBound] at last
      omega
    have next := firstOfMonth_succ reached
    rw [monthLength_of_december december] at next
    rw [← last, Nat.succ_eq_add_one, next]
    omega

/-- A step to a month of the calendar does not fail. -/
theorem exists_addMonths {moment : Moment} {amount : Int} {target : Nat}
    (targetEq : (target : Int) = moment.date.monthNumber + amount)
    (reached : 12 ≤ target) (bound : target < yearBound * 12) :
    ∃ result, moment.addMonths amount = .ok result := by
  have short := moment.date_valid.day_le
  have inside := dayNumber_lt_of_month reached bound
    (by omega : moment.date.day - 1 ≤ 30)
  rcases moment.exists_onDay inside with ⟨result, parts⟩
  exact ⟨result, addMonths_eq_ok_iff.mpr
    ⟨target, targetEq, reached, bound, parts⟩⟩

theorem exists_addMonths_iff {moment : Moment} {amount : Int} :
    (∃ result, moment.addMonths amount = .ok result) ↔
      12 ≤ moment.date.monthNumber + amount ∧
        moment.date.monthNumber + amount < yearBound * 12 := by
  constructor
  · rintro ⟨result, moved⟩
    rcases addMonths_eq_ok_iff.mp moved with
      ⟨target, targetEq, reached, bound, -⟩
    omega
  · rintro ⟨reached, bound⟩
    rcases Int.eq_ofNat_of_zero_le
        (by omega : 0 ≤ moment.date.monthNumber + amount) with
      ⟨target, targetEq⟩
    exact exists_addMonths targetEq.symm (by omega) (by omega)

/-- A step does not fail as far as the calendar goes back and on. -/
theorem exists_add_iff {moment : Moment} {amount : Int}
    {unit : CalendarUnit} :
    (∃ result, moment.add amount unit = .ok result) ↔
      -(moment.unitsBack unit : Int) ≤ amount ∧
        amount ≤ moment.unitsOn unit := by
  have day := moment.dayNumber_lt
  have ⟨year, yearBelow, month, monthBound, _⟩ := moment.date_valid
  cases unit with
  | day =>
      rw [add, exists_addDays_iff, unitsBack, unitsOn]
      omega
  | week =>
      rw [add, addWeeks, exists_addDays_iff, unitsBack, unitsOn]
      omega
  | month =>
      rw [add, exists_addMonths_iff, unitsBack, unitsOn, Date.monthNumber]
      omega
  | year =>
      rw [add, exists_addMonths_iff, unitsBack, unitsOn, Date.monthNumber]
      omega

/-- A step forward fails exactly where the calendar does not reach. -/
theorem add_returns_iff {moment : Moment} {amount : Int}
    {unit : CalendarUnit} (forward : 0 ≤ amount) :
    (∃ result, moment.add amount unit = .ok result) ↔
      moment.HasRoom amount unit := by
  have day := moment.dayNumber_lt
  have ⟨year, yearBelow, month, monthBound, _⟩ := moment.date_valid
  rw [exists_add_iff]
  cases unit <;>
    simp only [unitsBack, unitsOn, HasRoom, Date.monthNumber] <;> omega

end Moment

end Timetable.Calendar
