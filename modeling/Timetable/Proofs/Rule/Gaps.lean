import Timetable.Proofs.Calendar.Year
import Timetable.Proofs.Rule.Scan

/-!
# How far away the next occurrence can be

A plan that repeats at every period covers a day within a year from any day
after its start, if it covers any later day at all.  The only exception are
yearly plans that leave nothing but 29 February: their days lie at least four
years apart, and so no search gets from one of them to the next.
-/

namespace Timetable

open Timetable.Calendar

variable {plan : Plan}

namespace Plan

/-- The plan leaves 29 February and no other day of a year. -/
def OnlyLeapDays (plan : Plan) : Prop :=
  plan.frequency = .yearly ∧
    (plan.byMonth ≠ [] ∧ ∀ month ∈ plan.byMonth, month = 2) ∧
    29 ∈ plan.byMonthDay ∧ ∀ day ∈ plan.byMonthDay, 29 ≤ day

instance (plan : Plan) : Decidable plan.OnlyLeapDays :=
  inferInstanceAs (Decidable (_ ∧ _ ∧ _))

/-- The months and the days of the month that a plan selects hold a date. -/
def SelectsDate (plan : Plan) (date : Date) : Prop :=
  (plan.frequency = .yearly → Selects plan.byMonth date.month) ∧
    Selects plan.byMonthDay date.day

end Plan

/-! ## The days of plans that repeat at every period -/

theorem onInterval_one {distance : Int} (nonnegative : 0 ≤ distance) :
    OnInterval 1 distance :=
  ⟨nonnegative, Int.one_dvd _⟩

theorem covers_of_daily (every : plan.interval = 1)
    (daily : plan.frequency = .daily) {moment : Moment}
    (begun : plan.start.dayNumber ≤ moment.dayNumber) :
    plan.Covers moment := by
  rw [Plan.Covers, daily, Plan.CoversAt, every]
  apply onInterval_one
  rw [Moment.daysBetween]
  omega

theorem covers_iff_of_weekly (every : plan.interval = 1)
    (weekly : plan.frequency = .weekly) {moment : Moment} :
    plan.Covers moment ↔ plan.OnWeekday moment := by
  rw [Plan.Covers, weekly, Plan.CoversAt, every]
  exact and_iff_left (Int.one_dvd _)

theorem covers_iff_of_monthly_or_yearly (every : plan.interval = 1)
    (long : plan.frequency = .monthly ∨ plan.frequency = .yearly)
    {moment : Moment}
    (begun : plan.start.dayNumber ≤ moment.dayNumber) :
    plan.Covers moment ↔ plan.SelectsDate moment.date := by
  have startValid := plan.start.date_valid
  have valid := moment.date_valid
  rw [← Moment.dayNumber_date, ← Moment.dayNumber_date] at begun
  have months := Date.monthNumber_mono startValid valid begun
  have years := Date.year_mono startValid valid begun
  have inMonths : OnInterval 1 (plan.start.monthsBetween moment) := by
    apply onInterval_one
    rw [Moment.monthsBetween]
    omega
  have inYears : OnInterval 1 (plan.start.yearsBetween moment) := by
    apply onInterval_one
    rw [Moment.yearsBetween]
    omega
  rcases long with monthly | yearly
  · simp [Plan.Covers, Plan.CoversAt, monthly, every, inMonths,
      Plan.SelectsDate]
  · simp [Plan.Covers, Plan.CoversAt, yearly, every, inYears,
      Plan.SelectsDate]

/-! ## Covered days within a year -/

/-- The first 28 days of February and 30 of the other months always exist. -/
theorem valid_of_day_le {month day : Nat} (monthPositive : 1 ≤ month)
    (monthBound : month ≤ 12) (dayPositive : 1 ≤ day)
    (dayBound : day ≤ 28 ∨ month ≠ 2 ∧ day ≤ 30) :
    Date.Valid ⟨1, month, day⟩ := by
  have length : (if month = 2 then 28 else 30) ≤ daysInMonth 1 month := by
    interval_cases month <;> decide
  refine ⟨Nat.le_refl 1, by simp only [yearBound]; omega, monthPositive,
    monthBound, dayPositive, ?_⟩
  simp only
  split at length <;> omega

/-- Where all selected days come to be leap days, they are all there is. -/
theorem onlyLeapDays_of_no_other (valid : plan.Valid)
    (long : plan.frequency = .monthly ∨ plan.frequency = .yearly)
    (selected : Selects plan.byMonthDay 29)
    (noMonth : ∀ month, 1 ≤ month → month ≤ 12 →
      (plan.frequency = .yearly → Selects plan.byMonth month) → month = 2)
    (noDay : ∀ day, 1 ≤ day → day ≤ 28 → ¬ Selects plan.byMonthDay day) :
    plan.OnlyLeapDays := by
  have yearly : plan.frequency = .yearly := by
    rcases long with monthly | yearly
    · have january := noMonth 1 (by decide) (by decide) (by simp [monthly])
      omega
    · exact yearly
  refine ⟨yearly, ⟨?_, ?_⟩, ?_, ?_⟩
  · intro unset
    have january := noMonth 1 (by decide) (by decide) fun _ => .inl unset
    omega
  · intro month member
    rcases valid.byMonth month member with ⟨positive, bound⟩
    simp only [monthBounds] at positive bound
    rcases Int.eq_ofNat_of_zero_le (by omega : 0 ≤ month) with
      ⟨number, rfl⟩
    have february :=
      noMonth number (by omega) (by omega) fun _ => .inr member
    omega
  · rcases selected with unset | member
    · exact absurd (.inl unset) (noDay 1 (by decide) (by decide))
    · exact member
  · intro day member
    by_contra early
    have positive := (valid.byMonthDay day member).1
    simp only [monthDayBounds] at positive
    rcases Int.eq_ofNat_of_zero_le (by omega : 0 ≤ day) with ⟨number, rfl⟩
    exact noDay number (by omega) (by omega) (.inr member)

/-- A plan that selects any date selects one that stands in every year. -/
theorem exists_ordinary_date (valid : plan.Valid)
    (long : plan.frequency = .monthly ∨ plan.frequency = .yearly)
    (notOnly : ¬ plan.OnlyLeapDays) {date : Date} (dateValid : date.Valid)
    (selected : plan.SelectsDate date) :
    ∃ other : Date, other.Valid ∧ ¬ other.IsLeapDay ∧
      plan.SelectsDate other := by
  by_contra none
  have leapDay : date.IsLeapDay := by
    by_contra ordinary
    exact none ⟨date, dateValid, ordinary, selected⟩
  rcases date with ⟨year, month, day⟩
  rcases leapDay with ⟨rfl, rfl⟩
  rcases selected with ⟨monthSelected, daySelected⟩
  refine notOnly (onlyLeapDays_of_no_other valid long daySelected ?_ ?_)
  · intro month positive bound alsoSelected
    by_contra other
    exact none ⟨⟨1, month, 29⟩,
      valid_of_day_le positive bound (by decide)
        (.inr ⟨other, by decide⟩),
      fun leapDay => other leapDay.1, alsoSelected, daySelected⟩
  · intro day positive bound alsoSelected
    refine none ⟨⟨1, 2, day⟩,
      valid_of_day_le (by decide) (by decide) positive (.inl bound),
      ?_, monthSelected, alsoSelected⟩
    rintro ⟨-, last⟩
    simp only at last
    omega

/-- A plan that covers any later day covers one within 366 days. -/
theorem not_idle_of_covers (valid : plan.Valid) (every : plan.interval = 1)
    (notOnly : ¬ plan.OnlyLeapDays) {day : Nat}
    (begun : plan.start.dayNumber ≤ day) (room : day + 366 ≤ dayCount)
    {later : Moment} (laterDay : day ≤ later.dayNumber)
    (covered : plan.Covers later) : ¬ plan.Idle day (day + 366) := by
  intro idle
  have ofLong (long : plan.frequency = .monthly ∨
      plan.frequency = .yearly) : False := by
    have selected := (covers_iff_of_monthly_or_yearly every long
      (Nat.le_trans begun laterDay)).mp covered
    rcases exists_ordinary_date valid long notOnly later.date_valid
        selected with
      ⟨date, dateValid, ordinary, dateSelected⟩
    rcases exists_anniversary dateValid ordinary room with
      ⟨year, yearValid, fromDay, near, -⟩
    rcases later.exists_onDate yearValid with ⟨moment, dateEq, -, -⟩
    rw [← dateEq, Moment.dayNumber_date] at fromDay near
    refine idle moment fromDay near ?_
    rw [covers_iff_of_monthly_or_yearly every long
      (Nat.le_trans begun fromDay), dateEq]
    exact dateSelected
  cases frequency : plan.frequency with
  | daily =>
      rcases plan.start.exists_onDay (by omega : day < dayCount) with
        ⟨moment, number, -, -⟩
      exact idle moment (by omega) (by omega)
        (covers_of_daily every frequency (by omega))
  | weekly =>
      -- The weekday comes again within seven days.
      have sooner : day + (later.dayNumber - day) % 7 < dayCount := by omega
      rcases plan.start.exists_onDay sooner with ⟨moment, number, -, -⟩
      have weekday : moment.weekday = later.weekday := by
        simp only [Moment.weekday, weekdayOfDayNumber]
        omega
      rw [covers_iff_of_weekly every frequency] at covered
      refine idle moment (by omega) (by omega) ?_
      rw [covers_iff_of_weekly every frequency, Plan.OnWeekday, weekday]
      exact covered
  | monthly => exact ofLong (.inl frequency)
  | yearly => exact ofLong (.inr frequency)

/-! ## Searches without an answer -/

theorem covers_iff_of_onlyLeapDays (every : plan.interval = 1)
    (only : plan.OnlyLeapDays) {moment : Moment}
    (begun : plan.start.dayNumber ≤ moment.dayNumber) :
    plan.Covers moment ↔ moment.date.IsLeapDay := by
  rcases only with ⟨yearly, ⟨set, february⟩, last, noEarlier⟩
  rw [covers_iff_of_monthly_or_yearly every (.inr yearly) begun]
  constructor
  · rintro ⟨monthSelected, daySelected⟩
    have month : moment.date.month = 2 := by
      rcases monthSelected yearly with unset | member
      · exact absurd unset set
      · exact Int.ofNat_inj.mp (february _ member)
    have late : 29 ≤ moment.date.day := by
      rcases daySelected with unset | member
      · rw [unset] at last
        cases last
      · exact Int.ofNat_le.mp (noEarlier _ member)
    have bound := moment.date_valid.2.2.2.2.2
    rw [month, daysInMonth_february] at bound
    exact ⟨month, by split at bound <;> omega⟩
  · rintro ⟨month, day⟩
    refine ⟨fun _ => .inr ?_, .inr ?_⟩
    · rcases List.exists_mem_of_ne_nil _ set with ⟨number, member⟩
      have same := february number member
      subst same
      rw [month]
      exact member
    · rw [day]
      exact last

theorem idle_iff_leapFree (every : plan.interval = 1)
    (only : plan.OnlyLeapDays) {first last : Nat}
    (begun : plan.start.dayNumber ≤ first) (room : last ≤ dayCount) :
    plan.Idle first last ↔ LeapFree first last := by
  constructor
  · intro idle number fromFirst beforeLast
    rcases plan.start.exists_onDay (by omega : number < dayCount) with
      ⟨moment, rfl, -, -⟩
    have uncovered := idle moment fromFirst beforeLast
    rwa [covers_iff_of_onlyLeapDays every only
      (Nat.le_trans begun fromFirst)] at uncovered
  · intro free moment fromFirst beforeLast
    rw [covers_iff_of_onlyLeapDays every only
      (Nat.le_trans begun fromFirst)]
    exact free moment.dayNumber fromFirst beforeLast

/--
When a search gives no answer, for an accepted draft that looks at all days of
every period and has no deadline.

There is then no later day that matches at all, unless the draft leaves nothing
but 29 February; and in that case there is none among the next 1000 days.
-/
theorem nextReply_none_iff_unmatched {draft : Draft} {plan : Plan}
    {after : Moment} (accepted : draft.validate = .ok plan)
    (scans : draft.read.strategy = .ok .dayScan)
    (every : plan.interval = 1) (unending : plan.deadline = none)
    (begun : plan.start.NotAfter after)
    (offset : after.offset = plan.start.offset) :
    (¬ plan.OnlyLeapDays →
      ((draft.read.nextReply after).outcome = .ok none ↔
        after.dayNumber + 1001 < dayCount ∧
          ∀ later : Moment, after.dayNumber < later.dayNumber →
            draft.read.isMatch later = .ok false)) ∧
    (plan.OnlyLeapDays →
      ((draft.read.nextReply after).outcome = .ok none ↔
        after.dayNumber + 1001 < dayCount ∧
          LeapFree (after.dayNumber + 1) (after.dayNumber + 1001))) := by
  have valid := valid_of_validate accepted
  rw [read_of_validate accepted] at scans ⊢
  rw [strategy_eq_dayScan_iff] at scans
  have fromStart := begun.dayNumber_le offset.symm
  have thousand : after.dayNumber + 1 + Rule.defaultCap.toNat =
      after.dayNumber + 1001 := rfl
  rw [nextReply_eq_none_iff valid scans unending begun, thousand]
  constructor
  · intro notOnly
    simp only [isMatch_rule valid, Except.ok.injEq, decide_eq_false_iff_not]
    refine and_congr_right fun room => ⟨?_, ?_⟩
    · intro idle later laterDay covered
      have busy := not_idle_of_covers valid every notOnly
        (by omega : plan.start.dayNumber ≤ after.dayNumber + 1) (by omega)
        laterDay covered
      exact busy (idle.mono (Nat.le_refl _) (by omega))
    · intro unmatched later laterDay _
      exact unmatched later laterDay
  · intro only
    exact and_congr_right fun room =>
      idle_iff_leapFree every only (by omega) (Nat.le_of_lt room)

/-- Every 29 February from 2024. -/
def leapDays : Draft where
  frequency := .odd (.text "yearly")
  start := .moment { ticks := 63844761600000000, offset := none }
  byMonthDay := .list [.whole 29]
  byMonth := .list [.whole 2]

/-- The plan of `leapDays`. -/
def leapDaysPlan : Plan where
  frequency := .yearly
  start := { ticks := 63844761600000000, offset := none }
  byMonthDay := [29]
  byMonth := [2]

/-- Every 30 February from 2024, of which there is none. -/
def thirtiethOfFebruary : Draft where
  frequency := .odd (.text "yearly")
  start := .moment newYear
  byMonthDay := .list [.whole 30]
  byMonth := .list [.whole 2]

/-- The plan of `thirtiethOfFebruary`. -/
def thirtiethOfFebruaryPlan : Plan where
  frequency := .yearly
  start := newYear
  byMonthDay := [30]
  byMonth := [2]

theorem not_covers_thirtieth (moment : Moment) :
    ¬ thirtiethOfFebruaryPlan.Covers moment := by
  rintro ⟨-, month, day⟩
  have bound := moment.date_valid.2.2.2.2.2
  simp only [Selects, thirtiethOfFebruaryPlan, List.cons_ne_nil,
    List.mem_singleton, false_or] at month day
  rw [Int.ofNat_inj.mp month, daysInMonth_february] at bound
  split at bound <;> omega

theorem nextReply_none_iff_unmatched_february :
    thirtiethOfFebruary.validate = .ok thirtiethOfFebruaryPlan ∧
    thirtiethOfFebruary.read.strategy = .ok .dayScan ∧
    thirtiethOfFebruaryPlan.interval = 1 ∧
    thirtiethOfFebruaryPlan.deadline = none ∧
    ¬ thirtiethOfFebruaryPlan.OnlyLeapDays ∧
    (thirtiethOfFebruary.read.nextReply
      thirtiethOfFebruaryPlan.start).outcome = .ok none ∧
    leapDays.validate = .ok leapDaysPlan ∧
    leapDays.read.strategy = .ok .dayScan ∧
    leapDaysPlan.interval = 1 ∧ leapDaysPlan.deadline = none ∧
    leapDaysPlan.OnlyLeapDays ∧
    (leapDays.read.nextReply leapDaysPlan.start).outcome = .ok none := by
  have accepted :
      thirtiethOfFebruary.validate = .ok thirtiethOfFebruaryPlan := rfl
  have scans : thirtiethOfFebruary.read.strategy = .ok .dayScan := rfl
  have notOnly : ¬ thirtiethOfFebruaryPlan.OnlyLeapDays := by decide
  have alsoAccepted : leapDays.validate = .ok leapDaysPlan := rfl
  have alsoScans : leapDays.read.strategy = .ok .dayScan := rfl
  have only : leapDaysPlan.OnlyLeapDays := by decide
  have valid := valid_of_validate accepted
  refine ⟨accepted, scans, rfl, rfl, notOnly, ?_, alsoAccepted, alsoScans,
    rfl, rfl, only, ?_⟩
  · refine ((nextReply_none_iff_unmatched accepted scans rfl rfl
      (.refl _) rfl).1 notOnly).mpr ⟨by decide, fun later _ => ?_⟩
    rw [read_of_validate accepted, isMatch_rule valid,
      decide_eq_false (not_covers_thirtieth later)]
  · refine ((nextReply_none_iff_unmatched alsoAccepted alsoScans rfl rfl
      (.refl _) rfl).2 only).mpr ⟨by decide, ?_⟩
    have leapDay : leapDaysPlan.start.date.IsLeapDay := by decide
    exact (leapFree_of_isLeapDay leapDay).mono (Nat.le_refl _) (by omega)

/-- Midnight of the 29 February after the one of `leapDays`. -/
def nextLeapDay : Moment where
  ticks := 63970992000000000
  offset := none

/-- From one 29 February there is no answer, but the next one matches. -/
theorem nextReply_misses_leapDay :
    leapDays.validate = .ok leapDaysPlan ∧
    leapDays.read.strategy = .ok .dayScan ∧
    leapDaysPlan.interval = 1 ∧ leapDaysPlan.deadline = none ∧
    leapDaysPlan.start.NotAfter leapDaysPlan.start ∧
    (leapDays.read.nextReply leapDaysPlan.start).outcome = .ok none ∧
    leapDaysPlan.start.dayNumber < nextLeapDay.dayNumber ∧
    leapDays.read.isMatch nextLeapDay = .ok true := by
  have accepted : leapDays.validate = .ok leapDaysPlan := rfl
  have valid := valid_of_validate accepted
  have scans : leapDaysPlan.Scans := by decide
  have only : leapDaysPlan.OnlyLeapDays := by decide
  have leapDay : leapDaysPlan.start.date.IsLeapDay := by decide
  have begun := Moment.NotAfter.refl leapDaysPlan.start
  refine ⟨accepted, rfl, rfl, rfl, begun, ?_, by decide, rfl⟩
  rw [read_of_validate accepted,
    nextReply_eq_none_iff valid scans rfl begun]
  refine ⟨by decide, ?_⟩
  rw [idle_iff_leapFree rfl only (Nat.le_succ _) (by decide)]
  exact (leapFree_of_isLeapDay leapDay).mono (Nat.le_refl _) (by decide)

end Timetable
