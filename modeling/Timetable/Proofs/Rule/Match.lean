import Timetable.Proofs.Rule.Valid
import Timetable.Rule.Match

/-!
# The days of a plan

`Plan.Covers` says in terms of order, divisibility and membership which days a
plan matches, and `Plan.Occurs` adds the start and the deadline.  The rule of a
valid plan answers by them and never faults, provided that the moment compares
with the start.
-/

namespace Timetable

open Timetable.Calendar

variable {plan : Plan}

/-- A number is selected, or nothing is. -/
def Selects (numbers : List Int) (number : Nat) : Prop :=
  numbers = [] ∨ (number : Int) ∈ numbers

instance (numbers : List Int) (number : Nat) :
    Decidable (Selects numbers number) :=
  inferInstanceAs (Decidable (_ ∨ _))

/-- A distance is not negative and a multiple of an interval. -/
def OnInterval (interval distance : Int) : Prop :=
  0 ≤ distance ∧ interval ∣ distance

instance (interval distance : Int) :
    Decidable (OnInterval interval distance) :=
  inferInstanceAs (Decidable (_ ∧ _))

theorem dvd_iff_exists_index {interval distance : Int}
    (positive : 1 ≤ interval) (nonnegative : 0 ≤ distance) :
    interval ∣ distance ↔ ∃ index : Nat, distance = index * interval := by
  constructor
  · intro divides
    have quotientNonnegative : 0 ≤ distance / interval :=
      Int.ediv_nonneg nonnegative (by omega)
    refine ⟨(distance / interval).toNat, ?_⟩
    rw [Int.toNat_of_nonneg quotientNonnegative, Int.ediv_mul_cancel divides]
  · rintro ⟨index, rfl⟩
    exact Int.dvd_mul_left _ _

theorem onInterval_multiple {interval : Int} (positive : 1 ≤ interval)
    (index : Nat) : OnInterval interval (index * interval) :=
  ⟨Int.mul_nonneg (Int.natCast_nonneg _) (by omega), Int.dvd_mul_left _ _⟩

theorem onInterval_iff {interval distance : Int} (positive : 1 ≤ interval) :
    OnInterval interval distance ↔
      ∃ index : Nat, distance = index * interval := by
  constructor
  · rintro ⟨nonnegative, divides⟩
    exact (dvd_iff_exists_index positive nonnegative).mp divides
  · rintro ⟨index, rfl⟩
    exact onInterval_multiple positive index

namespace Plan

/-- The weekday of a moment is selected, or that of the start if none is. -/
def OnWeekday (plan : Plan) (moment : Moment) : Prop :=
  if plan.byWeekday = [] then moment.weekday = plan.start.weekday
  else (moment.weekday : Int) ∈ plan.byWeekday

instance (plan : Plan) (moment : Moment) :
    Decidable (plan.OnWeekday moment) :=
  inferInstanceAs (Decidable
    (if plan.byWeekday = [] then moment.weekday = plan.start.weekday
      else (moment.weekday : Int) ∈ plan.byWeekday))

/-- What a plan of each frequency asks of the day of a moment. -/
def CoversAt (plan : Plan) (moment : Moment) : Frequency → Prop
  | .daily => OnInterval plan.interval (plan.start.daysBetween moment)
  | .weekly =>
      plan.OnWeekday moment ∧
        plan.interval ∣ (plan.start.daysBetween moment).fdiv 7
  | .monthly =>
      OnInterval plan.interval (plan.start.monthsBetween moment) ∧
        Selects plan.byMonthDay moment.date.day
  | .yearly =>
      OnInterval plan.interval (plan.start.yearsBetween moment) ∧
        Selects plan.byMonth moment.date.month ∧
          Selects plan.byMonthDay moment.date.day

instance (plan : Plan) (moment : Moment) :
    (frequency : Frequency) → Decidable (plan.CoversAt moment frequency)
  | .daily => inferInstanceAs (Decidable (OnInterval _ _))
  | .weekly => inferInstanceAs (Decidable (_ ∧ _))
  | .monthly => inferInstanceAs (Decidable (_ ∧ _))
  | .yearly => inferInstanceAs (Decidable (_ ∧ _ ∧ _))

/-- The plan matches the day of a moment. -/
def Covers (plan : Plan) (moment : Moment) : Prop :=
  plan.CoversAt moment plan.frequency

instance (plan : Plan) (moment : Moment) : Decidable (plan.Covers moment) :=
  inferInstanceAs (Decidable (plan.CoversAt moment plan.frequency))

/-- A moment is later than the deadline. -/
def Exceeded (plan : Plan) (moment : Moment) : Prop :=
  ∃ deadline ∈ plan.deadline, deadline.Before moment

instance (plan : Plan) (moment : Moment) :
    Decidable (plan.Exceeded moment) :=
  inferInstanceAs (Decidable (∃ deadline ∈ plan.deadline, _))

/-- A moment lies between start and deadline on a day that matches. -/
def Occurs (plan : Plan) (moment : Moment) : Prop :=
  ¬ moment.Before plan.start ∧ ¬ plan.Exceeded moment ∧ plan.Covers moment

instance (plan : Plan) (moment : Moment) : Decidable (plan.Occurs moment) :=
  inferInstanceAs (Decidable (_ ∧ _ ∧ _))

end Plan

/-! ## Answers about a plan -/

@[simp]
theorem anchor_rule (plan : Plan) : plan.rule.anchor = .ok plan.start :=
  rfl

theorem admits_proper (numbers : List Int) (number : Nat) :
    Selection.admits (.proper numbers) number =
      .ok (decide (Selects numbers number)) := by
  cases numbers <;>
    simp [Selection.admits, Selection.isSet, Selection.holds, Selects,
      List.contains_eq_mem]

theorem onInterval_rule (valid : plan.Valid) (distance : Int) :
    plan.rule.onInterval distance =
      .ok (decide (plan.interval ∣ distance)) := by
  have positive := valid.interval
  have nonzero : plan.interval ≠ 0 := by omega
  simp only [Rule.onInterval, Plan.rule, nonzero, if_false,
    Int.dvd_iff_fmod_eq_zero, beq_eq_decide]

theorem onIntervalFromStart_rule (valid : plan.Valid)
    (distance : Int) :
    plan.rule.onIntervalFromStart distance =
      .ok (decide (OnInterval plan.interval distance)) := by
  rw [Rule.onIntervalFromStart]
  split
  · next negative => simp [OnInterval, Int.not_le.mpr negative]
  · next nonnegative =>
      simp [onInterval_rule valid, OnInterval, Int.not_lt.mp nonnegative]

theorem selectsWeekday_rule (plan : Plan) (moment : Moment) :
    plan.rule.selectsWeekday moment =
      .ok (decide (plan.OnWeekday moment)) := by
  cases numbers : plan.byWeekday with
  | nil =>
      simp [Rule.selectsWeekday, Plan.rule, Selection.isSet, numbers,
        Rule.anchor, Except.map, Plan.OnWeekday, beq_eq_decide]
  | cons first rest =>
      simp [Rule.selectsWeekday, Plan.rule, Selection.isSet, numbers,
        Selection.holds, Plan.OnWeekday, List.contains_eq_mem]

theorem isMatchAt_rule (valid : plan.Valid) (moment : Moment)
    (frequency : Frequency) :
    plan.rule.isMatchAt moment frequency =
      .ok (decide (plan.CoversAt moment frequency)) := by
  cases frequency with
  | daily =>
      simp only [Rule.isMatchAt, anchor_rule, Plan.CoversAt]
      exact onIntervalFromStart_rule valid _
  | weekly =>
      simp only [Rule.isMatchAt, anchor_rule, selectsWeekday_rule,
        onInterval_rule valid, Plan.CoversAt]
      by_cases onWeekday : plan.OnWeekday moment <;>
        simp [onWeekday, bind, Except.bind]
  | monthly =>
      simp only [Rule.isMatchAt, anchor_rule, Plan.CoversAt,
        onIntervalFromStart_rule valid]
      by_cases inPeriod : OnInterval plan.interval
          (plan.start.monthsBetween moment) <;>
        simp [inPeriod, bind, Except.bind, Plan.rule, admits_proper]
  | yearly =>
      simp only [Rule.isMatchAt, anchor_rule, Plan.CoversAt,
        onIntervalFromStart_rule valid]
      by_cases inPeriod : OnInterval plan.interval
          (plan.start.yearsBetween moment) <;>
        by_cases inMonth : Selects plan.byMonth moment.date.month <;>
          simp [inPeriod, inMonth, bind, Except.bind, Plan.rule,
            admits_proper]

/-- The rule of a valid plan matches the days that the plan covers. -/
theorem isMatch_rule (valid : plan.Valid) (moment : Moment) :
    plan.rule.isMatch moment = .ok (decide (plan.Covers moment)) :=
  isMatchAt_rule valid moment plan.frequency

/-! ## Start and deadline -/

theorem precedes_of_aware {left right : Moment}
    (aware : left.isAware = right.isAware) :
    precedes left right = .ok (decide (left.Before right)) := by
  rw [precedes, Moment.precedes?_of_aware aware]

theorem aware_of_precedes {left right : Moment} {earlier : Bool}
    (compared : precedes left right = .ok earlier) :
    left.isAware = right.isAware := by
  rw [precedes] at compared
  split at compared
  · next answered => exact (Moment.precedes?_eq_some_iff.mp answered).1
  · cases compared

theorem precedesStart_rule {moment : Moment}
    (aware : moment.isAware = plan.start.isAware) :
    plan.rule.precedesStart moment =
      .ok (decide (moment.Before plan.start)) :=
  precedes_of_aware aware

theorem exceedsDeadline_rule (valid : plan.Valid)
    {moment : Moment} (aware : moment.isAware = plan.start.isAware) :
    plan.rule.exceedsDeadline moment =
      .ok (decide (plan.Exceeded moment)) := by
  have order := valid.deadline
  cases unset : plan.deadline with
  | none => simp [Rule.exceedsDeadline, Plan.rule, unset, Plan.Exceeded]
  | some deadline =>
      have sameKind := (order deadline (by simp [unset])).1
      simp [Rule.exceedsDeadline, Plan.rule, unset, Plan.Exceeded,
        precedes_of_aware (sameKind.symm.trans aware.symm)]

theorem not_exceeded_iff (valid : plan.Valid) {moment : Moment}
    (aware : moment.isAware = plan.start.isAware) :
    ¬ plan.Exceeded moment ↔
      ∀ deadline ∈ plan.deadline, moment.NotAfter deadline := by
  simp only [Plan.Exceeded, not_exists, not_and]
  refine forall_congr' fun deadline => forall_congr' fun member => ?_
  have sameKind := (valid.deadline deadline member).1
  exact Moment.not_before_iff (sameKind.symm.trans aware.symm)

/-- The rule of a valid plan has the occurrences of the plan. -/
theorem isOccurrence_rule (valid : plan.Valid)
    {moment : Moment} (aware : moment.isAware = plan.start.isAware) :
    plan.rule.isOccurrence moment = .ok (decide (plan.Occurs moment)) := by
  rw [Rule.isOccurrence, precedesStart_rule aware]
  by_cases early : moment.Before plan.start
  · simp [early, Plan.Occurs]
  · rw [exceedsDeadline_rule valid aware]
    by_cases late : plan.Exceeded moment <;>
      simp [early, late, Plan.Occurs, isMatch_rule valid]

end Timetable
