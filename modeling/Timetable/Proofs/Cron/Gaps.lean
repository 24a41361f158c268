import Timetable.Proofs.Calendar.Year
import Timetable.Proofs.Cron.Enumeration
import Timetable.Proofs.Cron.Meaning

/-!
# How far away the next minute of a pattern can be

A pattern that admits a minute of every year admits one in the year of a moment
or in the next, but the default cap of 525,600 minutes is no more than a year
without a leap day.  A search finds the minute exactly if it is no further than
that.

If no weekday is left out, the minutes come again with the dates, and only a
29 February on the way can make the distance too long.  Otherwise it depends on
how the dates fall on the days of the week.
-/

namespace Timetable.Cron

open Timetable.Calendar

/-! ## Minutes of the day -/

/-- The minutes since midnight on the wall clock. -/
def minuteOfDay (moment : Moment) : Nat := moment.clock / minuteTicks

theorem minuteOfDay_lt (moment : Moment) : minuteOfDay moment < 1440 := by
  have inside := moment.clock_lt
  simp only [dayTicks] at inside
  simp only [minuteOfDay, minuteTicks]
  omega

theorem minute_val (moment : Moment) :
    moment.minute.val = moment.dayNumber * 1440 + minuteOfDay moment := by
  simp only [Moment.minute, minuteOfDay, Moment.dayNumber, Moment.clock,
    minuteTicks, dayTicks]
  omega

namespace Pattern

variable {pattern : Pattern}

/-! ## First matches -/

theorem FirstAt.unique {direction : Direction} {origin minute other : Moment}
    {count otherCount : Nat}
    (first : pattern.FirstAt direction origin count minute)
    (otherFirst : pattern.FirstAt direction origin otherCount other) :
    count = otherCount := by
  have notLess {left right : Moment} {less more : Nat}
      (nearer : pattern.FirstAt direction origin less left)
      (further : pattern.FirstAt direction origin more right) :
      ¬ less < more := by
    intro ordered
    have skipped := further.2.2.2 less left nearer.1 (by omega) nearer.2.1
    rw [nearer.2.2.1] at skipped
    cases skipped
  exact Nat.le_antisymm (Nat.le_of_not_lt (notLess otherFirst first))
    (Nat.le_of_not_lt (notLess first otherFirst))

/-- A search finds the first match if the cap allows it, and else gives up. -/
theorem nearest_of_firstAt {after minute : Moment} {count : Nat}
    (first : pattern.FirstAt .forward after count minute) (cap : Int) :
    pattern.nearest .forward after cap =
      .ok (if (count : Int) ≤ cap then .found minute else .gaveUp) := by
  by_cases near : (count : Int) ≤ cap
  · rw [if_pos near]
    exact nearest_eq_found_iff.mpr ⟨count, near, first⟩
  rw [if_neg near]
  cases result : pattern.nearest .forward after cap with
  | error fault =>
      rcases nearest_eq_error_iff.mp result with
        ⟨-, edgeCount, bound, atEdge, -⟩
      rcases Direction.minuteAt_eq_ok_iff.mp first.2.1 with
        ⟨place, reaches, -⟩
      rw [Direction.minuteAt_eq_ofMinute_iff, forward_reaches_iff] at atEdge
      rw [forward_reaches_iff] at reaches
      have inside := place.isLt
      have positive := first.1
      simp only [Direction.edge] at atEdge
      omega
  | ok finding =>
      cases finding with
      | ended => exact absurd result (nearest_ne_ended _ _ _ _)
      | gaveUp => rfl
      | found other =>
          rcases nearest_eq_found_iff.mp result with
            ⟨otherCount, bound, otherFirst⟩
          rw [← first.unique otherFirst] at bound
          exact absurd bound near

/-- No later minute that matches is nearer than the first one. -/
theorem FirstAt.add_le {after minute later : Moment} {count : Nat}
    (first : pattern.FirstAt .forward after count minute)
    (ordered : after.minute < later.minute)
    (isMatch : pattern.isMatch later = true) :
    after.minute.val + count ≤ later.minute.val := by
  rw [Fin.lt_def] at ordered
  by_contra nearer
  have reached : Direction.forward.minuteAt after
      (later.minute.val - after.minute.val) =
        .ok (.ofMinute later.minute after.offset) := by
    rw [Direction.minuteAt_eq_ofMinute_iff, forward_reaches_iff]
    omega
  have skipped := first.2.2.2 _ _ (by omega) (by omega) reached
  have admitted : pattern.admits later.minute = true := isMatch
  rw [isMatch_ofMinute, admitted] at skipped
  cases skipped

/-- Before a later minute that matches there is a first one. -/
theorem exists_firstAt {after later : Moment}
    (ordered : after.minute < later.minute)
    (isMatch : pattern.isMatch later = true) :
    ∃ (count : Nat) (minute : Moment),
      pattern.FirstAt .forward after count minute := by
  classical
  have exists_match : ∃ count, 1 ≤ count ∧ ∃ minute : Minute,
      minute.val = after.minute.val + count ∧
        pattern.admits minute = true := by
    rw [Fin.lt_def] at ordered
    exact ⟨later.minute.val - after.minute.val, by omega, later.minute,
      by omega, isMatch⟩
  rcases Nat.find_spec exists_match with ⟨positive, minute, reached, admitted⟩
  refine ⟨Nat.find exists_match, .ofMinute minute after.offset, positive,
    ?_, ?_, ?_⟩
  · rw [Direction.minuteAt_eq_ofMinute_iff, forward_reaches_iff]
    exact reached
  · rw [isMatch_ofMinute]
    exact admitted
  · intro index between fromFirst before found
    rcases Direction.minuteAt_eq_ok_iff.mp found with ⟨place, reaches, rfl⟩
    rw [forward_reaches_iff] at reaches
    have notMatch := Nat.find_min exists_match
      (by omega : index < Nat.find exists_match)
    rw [isMatch_ofMinute, ← Bool.not_eq_true]
    exact fun admits => notMatch ⟨fromFirst, place, reaches, admits⟩

/-! ## Patterns with a minute in every year -/

/-- Every year of the calendar has a minute that the pattern admits. -/
def Yearly (pattern : Pattern) : Prop :=
  ∀ year, 1 ≤ year → year < yearBound →
    ∃ moment : Moment, moment.date.year = year ∧
      pattern.isMatch moment = true

/-- The pattern leaves out no day of the week. -/
def EveryWeekday (pattern : Pattern) : Prop :=
  ∀ weekday < 7, pattern.sets.dayOfWeek.contains (weekday : Nat) = true

instance (pattern : Pattern) : Decidable pattern.EveryWeekday :=
  inferInstanceAs (Decidable (∀ weekday < 7, _))

/-- Without a selection of weekdays, minutes come again with the dates. -/
theorem isMatch_of_sameDate (everyWeekday : pattern.EveryWeekday)
    {moment other : Moment} (month : other.date.month = moment.date.month)
    (day : other.date.day = moment.date.day)
    (clock : other.clock = moment.clock)
    (isMatch : pattern.isMatch moment = true) :
    pattern.isMatch other = true := by
  have inWeek : other.weekday < 7 := Nat.mod_lt _ (by decide)
  rw [isMatch_iff] at isMatch ⊢
  rcases isMatch with ⟨minute, hour, dayOfMonth, monthOfYear, -⟩
  refine ⟨?_, ?_, ?_, ?_, everyWeekday _ inWeek⟩
  · rw [Moment.minuteOfHour, clock]
    exact minute
  · rw [Moment.hourOfDay, clock]
    exact hour
  · rw [day]
    exact dayOfMonth
  · rw [month]
    exact monthOfYear

/-- The minute of the next year is less than two years away. -/
theorem exists_match_within_two_years (yearly : pattern.Yearly)
    {after : Moment} (early : after.date.year ≤ 9997) :
    ∃ later : Moment, pattern.isMatch later = true ∧
      later.date.year = after.date.year + 1 ∧
      after.minute.val < later.minute.val ∧
      later.minute.val ≤ after.minute.val + 1052639 := by
  have valid := after.date_valid
  rcases yearly (after.date.year + 1) (by omega)
      (by simp only [yearBound]; omega) with
    ⟨later, year, isMatch⟩
  have inside := valid.inside_year
  have laterInside := later.date_valid.inside_year
  rw [year, daysBeforeYear_succ valid.1] at laterInside
  rw [Moment.dayNumber_date] at inside laterInside
  have twoYears := daysInYear_add_succ_le after.date.year
  have minutes := minuteOfDay_lt after
  have laterMinutes := minuteOfDay_lt later
  refine ⟨later, isMatch, year, ?_, ?_⟩
  · rw [minute_val, minute_val]
    omega
  · rw [minute_val, minute_val]
    omega

theorem dayNumber_add_le_of_early {moment : Moment}
    (early : moment.date.year ≤ 9997) :
    moment.dayNumber + 367 ≤ dayCount := by
  have valid := moment.date_valid
  have inside := valid.inside_year.2
  rw [Moment.dayNumber_date, ← daysBeforeYear_succ valid.1] at inside
  have before := daysBeforeYear_mono (Nat.le_add_left 1 _)
    (by omega : moment.date.year + 1 ≤ 9998)
  have last : daysBeforeYear 9998 + 730 = dayCount := by decide
  omega

/--
Without a selection of weekdays some minute matches within 366 days, and within
365 days if no 29 February comes between.
-/
theorem exists_match_within_year (yearly : pattern.Yearly)
    (everyWeekday : pattern.EveryWeekday) {after : Moment}
    (early : after.date.year ≤ 9997) :
    ∃ later : Moment, pattern.isMatch later = true ∧
      after.minute.val < later.minute.val ∧
      later.minute.val ≤ after.minute.val + 527040 ∧
      (LeapFree after.dayNumber (after.dayNumber + 366) →
        later.minute.val ≤ after.minute.val + 525600) := by
  -- The first year is no leap year.
  rcases yearly 1 (by decide) (by decide) with ⟨moment, year, isMatch⟩
  have ordinary : ¬ moment.date.IsLeapDay := by
    rintro ⟨february, last⟩
    have bound := moment.date_valid.2.2.2.2.2
    rw [year, february, last] at bound
    exact absurd bound (by decide)
  have room := dayNumber_add_le_of_early early
  -- The search begins today if the minute is still to come, and else tomorrow.
  obtain ⟨day, begin⟩ : ∃ day,
      after.dayNumber = day ∧ minuteOfDay after < minuteOfDay moment ∨
        after.dayNumber + 1 = day ∧
          minuteOfDay moment ≤ minuteOfDay after := by
    rcases Nat.lt_or_ge (minuteOfDay after) (minuteOfDay moment) with
      toCome | past
    · exact ⟨_, .inl ⟨rfl, toCome⟩⟩
    · exact ⟨_, .inr ⟨rfl, past⟩⟩
  rcases exists_anniversary moment.date_valid ordinary
      (by omega : day + 366 ≤ dayCount) with
    ⟨laterYear, valid, fromDay, near, nearer⟩
  rcases moment.exists_onDate valid with ⟨later, date, clock, -⟩
  rw [← date, Moment.dayNumber_date] at fromDay near nearer
  have minutes : minuteOfDay later = minuteOfDay moment := by
    rw [minuteOfDay, minuteOfDay, clock]
  have afterMinutes := minuteOfDay_lt after
  have laterMinutes := minuteOfDay_lt later
  refine ⟨later, isMatch_of_sameDate everyWeekday (by rw [date])
    (by rw [date]) clock isMatch, ?_, ?_, fun free => ?_⟩
  · rw [minute_val, minute_val]
    omega
  · rw [minute_val, minute_val]
    omega
  · have short := nearer (free.mono (by omega) (by omega))
    rw [minute_val, minute_val]
    omega

/--
What a search with the default cap answers for a pattern that admits a minute
of every year.

A first minute after a moment exists and is found exactly if it is no more than
525,600 minutes away; otherwise the search gives up, and so does the chain of
minutes.  It is less than two years away.  If no day of the week is left out, it
is at most 366 days away, and at most 365 unless a 29 February is in between.
-/
theorem next_of_yearly (yearly : pattern.Yearly) {after : Moment}
    (early : after.date.year ≤ 9997) :
    ∃ (count : Nat) (minute : Moment),
      pattern.FirstAt .forward after count minute ∧
      (Source.compiled pattern).next after defaultCap =
        (if count ≤ 525600 then ⟨.ok (some minute), []⟩
          else ⟨.ok none,
            [.patternSearch pattern.expression defaultCap]⟩) ∧
      pattern.advance after =
        .ok (if count ≤ 525600 then .found (minute, minute)
          else .gaveUp) ∧
      count ≤ 1052639 ∧ minute.date.year ≤ after.date.year + 1 ∧
      (pattern.EveryWeekday →
        count ≤ 527040 ∧
        (LeapFree after.dayNumber (after.dayNumber + 366) →
          count ≤ 525600)) := by
  rcases exists_match_within_two_years yearly early with
    ⟨later, isMatch, year, ordered, near⟩
  rcases exists_firstAt ordered isMatch with ⟨count, minute, first⟩
  have notLater := first.add_le ordered isMatch
  have nearest := nearest_of_firstAt first defaultCap
  have cap : (count : Int) ≤ defaultCap ↔ count ≤ 525600 := by
    rw [defaultCap]
    omega
  simp only [cap] at nearest
  refine ⟨count, minute, first, ?_, ?_, by omega, ?_, ?_⟩
  · simp only [Source.next, Source.answer, Source.resolve, next, nearest]
    split <;> rfl
  · rw [advance_eq_ok_iff]
    refine ⟨_, nearest, ?_⟩
    split <;> rfl
  · rcases Direction.minuteAt_eq_ok_iff.mp first.2.1 with
      ⟨place, reaches, rfl⟩
    rw [forward_reaches_iff] at reaches
    have minutes := minute_val (.ofMinute place after.offset)
    rw [Moment.minute_ofMinute, reaches] at minutes
    rw [minute_val later] at notLater
    have laterMinutes := minuteOfDay_lt later
    rw [← year]
    apply Date.year_mono (Moment.date_valid _) later.date_valid
    rw [Moment.dayNumber_date, Moment.dayNumber_date]
    omega
  · intro everyWeekday
    rcases exists_match_within_year yearly everyWeekday early with
      ⟨sooner, soonerMatches, soonerOrdered, within, withoutLeapDay⟩
    have notSooner := first.add_le soonerOrdered soonerMatches
    refine ⟨by omega, fun free => ?_⟩
    have near := withoutLeapDay free
    omega

/-! ## Midnights of 1 January -/

/-- The pattern of `0 0 1 1 *`. -/
def newYears : Pattern where
  parts := ⟨"0", "0", "1", "1", "*"⟩
  sets :=
    ⟨.ofTerm fieldBounds.minute (.single 0),
      .ofTerm fieldBounds.hour (.single 0),
      .ofTerm fieldBounds.dayOfMonth (.single 1),
      .ofTerm fieldBounds.month (.single 1),
      .ofTerm fieldBounds.dayOfWeek .any⟩

/-- Midnight of 1 January 2024. -/
def newYear2024 : Moment := newYear

/-- Midnight of 1 January 2025. -/
def newYear2025 : Moment where
  ticks := 63871286400000000
  offset := none

theorem everyWeekday_newYears : newYears.EveryWeekday := by
  decide

theorem date_newYear2024 : newYear2024.date = ⟨2024, 1, 1⟩ := by
  decide

theorem yearly_newYears : newYears.Yearly := by
  intro year positive bound
  have valid : Date.Valid ⟨year, 1, 1⟩ := by
    simp [Date.Valid, positive, bound, daysInMonth, monthLengths]
  rcases newYear2024.exists_onDate valid with ⟨moment, date, clock, -⟩
  refine ⟨moment, by rw [date], isMatch_of_sameDate everyWeekday_newYears
    ?_ ?_ clock (by decide : newYears.isMatch newYear2024 = true)⟩
  · rw [date, date_newYear2024]
  · rw [date, date_newYear2024]

theorem parts_of_newYears {moment : Moment}
    (isMatch : newYears.isMatch moment = true) :
    minuteOfDay moment = 0 ∧
      moment.dayNumber = daysBeforeYear moment.date.year := by
  rcases isMatch_iff.mp isMatch with ⟨minute, hour, day, month, -⟩
  simp only [newYears, FieldSet.contains, FieldSet.ofTerm,
    FieldTerm.values, List.contains_eq_mem, List.mem_singleton,
    decide_eq_true_eq] at minute hour day month
  constructor
  · simp only [Moment.minuteOfHour, Moment.hourOfDay, minuteTicks]
      at minute hour
    simp only [minuteOfDay, minuteTicks]
    omega
  · rw [← Moment.dayNumber_date, Date.dayNumber, Int.ofNat_inj.mp day,
      Int.ofNat_inj.mp month]
    rfl

/-- After 1 January 2024 the next one is 366 days away. -/
theorem firstAt_newYears :
    newYears.FirstAt .forward newYear2024 527040 newYear2025 := by
  have reached : newYear2025.minute.val =
      newYear2024.minute.val + 527040 := by decide
  refine ⟨by decide, Direction.minuteAt_eq_ok_iff.mpr
    ⟨newYear2025.minute, forward_reaches_iff.mpr reached, by decide⟩,
    by decide, ?_⟩
  intro index minute fromFirst before found
  rcases Direction.minuteAt_eq_ok_iff.mp found with ⟨place, reaches, rfl⟩
  rw [forward_reaches_iff] at reaches
  rw [← Bool.not_eq_true]
  intro isMatch
  rcases parts_of_newYears isMatch with ⟨midnight, begins⟩
  have minutes := minute_val (.ofMinute place newYear2024.offset)
  rw [Moment.minute_ofMinute, midnight, begins] at minutes
  have origin : newYear2024.minute.val = daysBeforeYear 2024 * 1440 := by
    decide
  have length : daysBeforeYear 2025 = daysBeforeYear 2024 + 366 := by
    decide
  have positive := (Moment.ofMinute place newYear2024.offset).date_valid.1
  rcases Nat.lt_or_ge 2024
      (Moment.ofMinute place newYear2024.offset).date.year with
    later | notLater
  · have := daysBeforeYear_mono (by decide : 1 ≤ 2025) later
    omega
  · have := daysBeforeYear_mono positive notLater
    omega

theorem next_of_yearly_newYears :
    newYears.Yearly ∧ newYear2024.date.year ≤ 9997 ∧
    newYears.EveryWeekday ∧
    ∃ (count : Nat) (minute : Moment),
      newYears.FirstAt .forward newYear2024 count minute ∧
      (Source.compiled newYears).next newYear2024 defaultCap =
        (if count ≤ 525600 then ⟨.ok (some minute), []⟩
          else ⟨.ok none,
            [.patternSearch newYears.expression defaultCap]⟩) ∧
      count ≤ 527040 := by
  have early : newYear2024.date.year ≤ 9997 := by decide
  rcases next_of_yearly yearly_newYears early with
    ⟨count, minute, first, reply, -, -, -, near⟩
  exact ⟨yearly_newYears, early, everyWeekday_newYears, count, minute, first,
    reply, (near everyWeekday_newYears).1⟩

/-- From 1 January 2024 the search does not get to the next one. -/
theorem next_misses_newYear :
    compile "0 0 1 1 *" = .ok newYears ∧
    newYears.Yearly ∧ newYear2024.date.year ≤ 9997 ∧
    ((Source.compiled newYears).next newYear2024 defaultCap).outcome =
      .ok none ∧
    newYears.isMatch newYear2025 = true := by
  have compiled : compile "0 0 1 1 *" = .ok newYears := rfl
  refine ⟨compiled, yearly_newYears, by decide, ?_, by decide⟩
  have nearest := nearest_of_firstAt firstAt_newYears defaultCap
  rw [if_neg (by decide)] at nearest
  simp only [Source.next, Source.answer, Source.resolve, next, nearest]
  rfl

end Pattern

end Timetable.Cron
