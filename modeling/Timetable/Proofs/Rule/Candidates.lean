import Timetable.Proofs.Calendar.Shift
import Timetable.Proofs.Rule.Match
import Timetable.Proofs.Search
import Timetable.Rule.Step

/-!
# The candidates of a plan

Every candidate of a valid plan is followed by one on a later day, at the same
clock time and offset.  Where the selections pick days, the candidates are all
days without gaps; where they do not, the start matches by itself.
-/

namespace Timetable

open Timetable.Calendar

variable {plan : Plan}

theorem stepped_eq_ok_iff {outcome : Except RangeError Moment}
    {moment : Moment} :
    stepped outcome = .ok moment ↔ outcome = .ok moment :=
  mapError_eq_ok_iff

/-- The candidates of a plan are all days. -/
def Plan.Scans (plan : Plan) : Prop :=
  plan.rule.picksDays plan.frequency = true

instance (plan : Plan) : Decidable plan.Scans :=
  inferInstanceAs (Decidable (_ = true))

theorem nextCandidate_of_scans (scans : plan.Scans)
    (candidate : Moment) :
    plan.rule.nextCandidate candidate = stepped (candidate.addDays 1) := by
  simp only [Rule.nextCandidate, Frequency.require, Plan.rule]
  exact if_pos scans

theorem nextCandidate_of_not_scans (jumps : ¬ plan.Scans)
    (candidate : Moment) :
    plan.rule.nextCandidate candidate =
      stepped (candidate.add plan.interval plan.frequency.unit) := by
  simp only [Rule.nextCandidate, Frequency.require, Plan.rule]
  exact if_neg jumps

/-- The candidate after a candidate lies on a later day. -/
theorem nextCandidate_daysBefore (valid : plan.Valid)
    {candidate next : Moment}
    (moved : plan.rule.nextCandidate candidate = .ok next) :
    candidate.DaysBefore next := by
  by_cases scans : plan.Scans
  · rw [nextCandidate_of_scans scans, stepped_eq_ok_iff] at moved
    exact Moment.addDays_ordered (by decide) candidate.addDays_zero moved
  · rw [nextCandidate_of_not_scans scans, stepped_eq_ok_iff] at moved
    exact Moment.add_daysBefore (by have := valid.interval; omega) moved

/-- The candidates of a plan lie on later and later days. -/
theorem candidates_daysBefore (valid : plan.Valid)
    {first earlier later : Moment} {index further : Nat}
    (reached : walk plan.rule.nextCandidate first index = .ok earlier)
    (onward : walk plan.rule.nextCandidate first further = .ok later)
    (ordered : index < further) : earlier.DaysBefore later := by
  refine walk_related ?_ ?_ reached onward ordered
  · exact Moment.DaysBefore.trans
  · exact nextCandidate_daysBefore valid

theorem candidate_parts (valid : plan.Valid)
    {first candidate : Moment} {index : Nat}
    (reached : walk plan.rule.nextCandidate first index = .ok candidate) :
    first.dayNumber ≤ candidate.dayNumber ∧
      candidate.clock = first.clock ∧
        candidate.offset = first.offset := by
  rcases Nat.eq_zero_or_pos index with rfl | positive
  · cases reached
    exact ⟨Nat.le_refl _, rfl, rfl⟩
  · have earlier := candidates_daysBefore valid (walk_zero first) reached
      positive
    exact ⟨Nat.le_of_lt earlier.day, earlier.clock, earlier.offset⟩

theorem candidates_notAfter (valid : plan.Valid)
    {first earlier later : Moment} {index further : Nat}
    (reached : walk plan.rule.nextCandidate first index = .ok earlier)
    (onward : walk plan.rule.nextCandidate first further = .ok later)
    (ordered : index ≤ further) : earlier.NotAfter later := by
  rcases Nat.lt_or_eq_of_le ordered with ordered | rfl
  · exact (candidates_daysBefore valid reached onward
      ordered).before.notAfter
  · rw [reached] at onward
    cases onward
    exact .refl earlier

theorem candidate_notAfter (valid : plan.Valid)
    {first candidate : Moment} {index : Nat}
    (reached : walk plan.rule.nextCandidate first index = .ok candidate) :
    first.NotAfter candidate :=
  candidates_notAfter valid (walk_zero first) reached (Nat.zero_le index)

/-- Candidates a fixed number of days apart are the days at its multiples. -/
theorem candidate_eq_ok_iff_of_stride {stride : Int}
    (forward : 0 ≤ stride)
    (strides : ∀ candidate, plan.rule.nextCandidate candidate =
      stepped (candidate.addDays stride))
    {first candidate : Moment} {index : Nat} :
    walk plan.rule.nextCandidate first index = .ok candidate ↔
      (candidate.dayNumber : Int) = first.dayNumber + index * stride ∧
        candidate.clock = first.clock ∧
          candidate.offset = first.offset := by
  induction index generalizing candidate with
  | zero =>
      rw [walk_zero, Except.ok.injEq, Int.natCast_zero, Int.zero_mul,
        Int.add_zero]
      constructor
      · rintro rfl
        exact ⟨rfl, rfl, rfl⟩
      · rintro ⟨day, clock, offset⟩
        exact Moment.ext_parts (Int.ofNat_inj.mp day.symm) clock.symm
          offset.symm
  | succ index induction =>
      simp only [walk_succ_eq_ok_iff, induction, strides, stepped_eq_ok_iff,
        Moment.addDays_eq_ok_iff, Int.natCast_succ, Int.add_mul, Int.one_mul]
      have climbed : 0 ≤ (index : Int) * stride :=
        Int.mul_nonneg (Int.natCast_nonneg _) forward
      constructor
      · rintro ⟨before, ⟨beforeDay, beforeClock, beforeOffset⟩, day, clock,
          offset⟩
        exact ⟨by omega, clock.trans beforeClock, offset.trans beforeOffset⟩
      · rintro ⟨day, clock, offset⟩
        have reached := candidate.dayNumber_lt
        obtain ⟨before, beforeDay, beforeClock, beforeOffset⟩ :=
          first.exists_onDay (by omega :
            (first.dayNumber + index * stride).toNat < dayCount)
        exact ⟨before, ⟨by omega, beforeClock, beforeOffset⟩, by omega,
          clock.trans beforeClock.symm, offset.trans beforeOffset.symm⟩

/-- Scanning days reaches every later day of the calendar. -/
theorem candidate_eq_ok_iff_of_scans (scans : plan.Scans)
    {first candidate : Moment} {index : Nat} :
    walk plan.rule.nextCandidate first index = .ok candidate ↔
      candidate.dayNumber = first.dayNumber + index ∧
        candidate.clock = first.clock ∧
          candidate.offset = first.offset := by
  rw [candidate_eq_ok_iff_of_stride (by decide)
    (nextCandidate_of_scans scans), Int.mul_one, ← Int.natCast_add,
    Int.ofNat_inj]

/-- Where the candidates are one interval apart, no selection matters. -/
theorem unset_of_not_scans (jumps : ¬ plan.Scans) :
    match plan.frequency with
    | .daily => False
    | .weekly => plan.byWeekday = []
    | .monthly => plan.byMonthDay = []
    | .yearly => plan.byMonth = [] ∧ plan.byMonthDay = [] := by
  rw [Plan.Scans] at jumps
  cases frequency : plan.frequency with
  | daily => simp [frequency, Rule.picksDays] at jumps
  | weekly =>
      simpa [frequency, Rule.picksDays, Plan.rule, Selection.isSet]
        using jumps
  | monthly =>
      simpa [frequency, Rule.picksDays, Plan.rule, Selection.isSet]
        using jumps
  | yearly =>
      simpa [frequency, Rule.picksDays, Plan.rule, Selection.isSet]
        using jumps

theorem onInterval_zero (interval : Int) : OnInterval interval 0 :=
  ⟨Int.le_refl 0, Int.dvd_zero interval⟩

/-- The start matches unless a selection leaves it out. -/
theorem covers_start_of_not_scans (jumps : ¬ plan.Scans) :
    plan.Covers plan.start := by
  have unset := unset_of_not_scans jumps
  have sameDay : plan.start.daysBetween plan.start = 0 := Int.sub_self _
  have sameMonth : plan.start.monthsBetween plan.start = 0 := Int.sub_self _
  have sameYear : plan.start.yearsBetween plan.start = 0 := Int.sub_self _
  rw [Plan.Covers]
  cases frequency : plan.frequency with
  | daily =>
      rw [frequency] at unset
      exact unset.elim
  | weekly =>
      rw [frequency] at unset
      constructor
      · rw [Plan.OnWeekday, if_pos unset]
      · rw [sameDay, Int.zero_fdiv]
        exact Int.dvd_zero _
  | monthly =>
      rw [frequency] at unset
      constructor
      · rw [sameMonth]
        exact onInterval_zero _
      · exact .inl unset
  | yearly =>
      rw [frequency] at unset
      refine ⟨?_, .inl unset.1, .inl unset.2⟩
      rw [sameYear]
      exact onInterval_zero _

theorem scans_of_not_covers_start
    (uncovered : ¬ plan.Covers plan.start) : plan.Scans := by
  by_contra jumps
  exact uncovered (covers_start_of_not_scans jumps)

end Timetable
