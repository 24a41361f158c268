import Timetable.Proofs.Rule.Match

/-!
# The days that a plan generates

A plan steps from period to period: the period with index `index` begins
`index` intervals after the start.  `Plan.Generates` says which days of that
period a plan selects, without a remainder or a quotient.  The days that
`Plan.Covers` tests for are the generated ones, as far as they are not before
the start; a day before the start can pass the weekly test, and it is the
comparison with the start that leaves it out.
-/

namespace Timetable

open Timetable.Calendar

variable {plan : Plan}

/-- The day of a moment is one that a plan selects in the period `index`. -/
def Plan.Generates (plan : Plan) (index : Nat) (moment : Moment) : Prop :=
  match plan.frequency with
  | .daily =>
      (moment.dayNumber : Int) =
        plan.start.dayNumber + index * plan.interval
  | .weekly =>
      ∃ further : Nat, further ≤ 6 ∧
        (moment.dayNumber : Int) =
          plan.start.dayNumber + 7 * index * plan.interval + further ∧
        if plan.byWeekday = [] then further = 0
        else (moment.weekday : Int) ∈ plan.byWeekday
  | .monthly =>
      (moment.date.monthNumber : Int) =
          plan.start.date.monthNumber + index * plan.interval ∧
        Selects plan.byMonthDay moment.date.day
  | .yearly =>
      (moment.date.year : Int) =
          plan.start.date.year + index * plan.interval ∧
        Selects plan.byMonth moment.date.month ∧
        Selects plan.byMonthDay moment.date.day

/-! ## Distances as multiples -/

/-- Whole weeks on the interval, with the days after them. -/
theorem dvd_weeks_iff {interval distance : Int} (positive : 1 ≤ interval)
    (nonnegative : 0 ≤ distance) :
    interval ∣ distance.fdiv 7 ↔
      ∃ index further : Nat, further ≤ 6 ∧
        distance = 7 * index * interval + further := by
  rw [Int.fdiv_eq_ediv_of_nonneg _ (by decide),
    dvd_iff_exists_index positive (by omega)]
  constructor
  · rintro ⟨index, weeks⟩
    refine ⟨index, (distance % 7).toNat, by omega, ?_⟩
    rw [Int.mul_assoc, ← weeks]
    omega
  · rintro ⟨index, further, inside, rfl⟩
    refine ⟨index, ?_⟩
    rw [Int.mul_assoc]
    omega

/-- A weekday comes again after whole weeks and not before. -/
theorem weekday_eq_iff {start moment : Moment} {weeks : Int} {further : Nat}
    (inside : further ≤ 6)
    (distance : start.daysBetween moment = 7 * weeks + further) :
    moment.weekday = start.weekday ↔ further = 0 := by
  simp only [Moment.daysBetween] at distance
  simp only [Moment.weekday, weekdayOfDayNumber]
  omega

/-! ## Covered days are generated -/

theorem covers_iff_generates (valid : plan.Valid) {moment : Moment}
    (begun : plan.start.dayNumber ≤ moment.dayNumber) :
    plan.Covers moment ↔ ∃ index, plan.Generates index moment := by
  have positive := valid.interval
  simp only [Plan.Covers, Plan.Generates]
  cases plan.frequency with
  | daily =>
      simp only [Plan.CoversAt, onInterval_iff positive, Moment.daysBetween]
      exact exists_congr fun index => Int.sub_eq_iff_eq_add'
  | monthly =>
      simp only [Plan.CoversAt, onInterval_iff positive,
        Moment.monthsBetween, exists_and_right]
      exact and_congr_left' <|
        exists_congr fun index => Int.sub_eq_iff_eq_add'
  | yearly =>
      simp only [Plan.CoversAt, onInterval_iff positive,
        Moment.yearsBetween, exists_and_right]
      exact and_congr_left' <|
        exists_congr fun index => Int.sub_eq_iff_eq_add'
  | weekly =>
      have nonnegative : 0 ≤ plan.start.daysBetween moment := by
        rw [Moment.daysBetween]
        omega
      have onWeekday {index further : Nat} (inside : further ≤ 6)
          (distance : plan.start.daysBetween moment =
            7 * index * plan.interval + further) :
          plan.OnWeekday moment ↔
            if plan.byWeekday = [] then further = 0
            else (moment.weekday : Int) ∈ plan.byWeekday := by
        rw [Int.mul_assoc] at distance
        rw [Plan.OnWeekday, weekday_eq_iff inside distance]
      simp only [Plan.CoversAt, dvd_weeks_iff positive nonnegative]
      constructor
      · rintro ⟨selected, index, further, inside, distance⟩
        refine ⟨index, further, inside, ?_,
          (onWeekday inside distance).mp selected⟩
        rw [Moment.daysBetween] at distance
        omega
      · rintro ⟨index, further, inside, day, selected⟩
        have distance : plan.start.daysBetween moment =
            7 * index * plan.interval + further := by
          rw [Moment.daysBetween]
          omega
        exact ⟨(onWeekday inside distance).mpr selected, index, further,
          inside, distance⟩

/--
A moment at the offset of the start is an occurrence of an accepted draft
exactly if it lies between start and deadline on a day that the plan generates.
-/
theorem isOccurrence_iff_generates {draft : Draft} {plan : Plan}
    {moment : Moment} (accepted : draft.validate = .ok plan)
    (offset : moment.offset = plan.start.offset) :
    ∃ answer, draft.read.isOccurrence moment = .ok answer ∧
      (answer = true ↔
        plan.start.NotAfter moment ∧
        (∀ deadline ∈ plan.deadline, moment.NotAfter deadline) ∧
        ∃ index, plan.Generates index moment) := by
  have valid := valid_of_validate accepted
  have aware : moment.isAware = plan.start.isAware :=
    Moment.isAware_eq offset
  rw [read_of_validate accepted]
  refine ⟨_, isOccurrence_rule valid aware, ?_⟩
  rw [decide_eq_true_eq, Plan.Occurs, Moment.not_before_iff aware,
    not_exceeded_iff valid aware]
  refine and_congr_right fun begun => and_congr_right fun _ => ?_
  exact covers_iff_generates valid
    (begun.dayNumber_le offset.symm)

/-- Mondays and Wednesdays of every second week from 3 January 2024, 8:30. -/
def alternateWeeks : Draft where
  frequency := .odd (.text "weekly")
  start := .moment { ticks := 63839867400000000, offset := some 60 }
  interval := .whole 2
  byWeekday := .list [.whole 1, .whole 3]

/-- The plan of `alternateWeeks`. -/
def alternateWeeksPlan : Plan where
  frequency := .weekly
  start := { ticks := 63839867400000000, offset := some 60 }
  interval := 2
  byWeekday := [1, 3]

/-- 9 o'clock of Wednesday, 17 January 2024. -/
def secondWednesday : Moment where
  ticks := 63841078800000000
  offset := some 60

theorem isOccurrence_iff_generates_wednesday :
    alternateWeeks.validate = .ok alternateWeeksPlan ∧
    secondWednesday.offset = alternateWeeksPlan.start.offset ∧
    alternateWeeks.read.isOccurrence secondWednesday = .ok true ∧
    ∃ index, alternateWeeksPlan.Generates index secondWednesday :=
  have accepted : alternateWeeks.validate = .ok alternateWeeksPlan := rfl
  have offset :
      secondWednesday.offset = alternateWeeksPlan.start.offset := rfl
  have occurs :
      alternateWeeks.read.isOccurrence secondWednesday = .ok true := rfl
  have ⟨_, answered, generated⟩ := isOccurrence_iff_generates accepted offset
  have holds := Except.ok.inj (answered.symm.trans occurs)
  ⟨accepted, offset, occurs, (generated.mp holds).2.2⟩

end Timetable
