import Timetable.Proofs.Calendar.Year
import Timetable.Proofs.Rule.Drift

/-!
# Searches that jump

Where candidates are whole intervals apart, a search does not look for a place
in the interval: its candidates keep the place of the first one
(`covers_candidate_iff_first`).  Weeks and years always do, months do if every
month counts or no day rolls over.

Such a search is decided by its first candidate, the day after its pivot at the
clock time of the start.  It finds this one or nothing.
-/

namespace Timetable

open Timetable.Calendar

variable {plan : Plan}

/-! ## Places in the interval -/

theorem onInterval_add_iff {interval distance : Int} (index : Nat)
    (positive : 1 ≤ interval) (nonnegative : 0 ≤ distance) :
    OnInterval interval (distance + index * interval) ↔
      OnInterval interval distance := by
  have ⟨climbed, whole⟩ := onInterval_multiple positive index
  rw [OnInterval, OnInterval, Int.dvd_add_left whole,
    and_iff_right nonnegative, and_iff_right (by omega)]

/-- A moment that does not drift: jumps from it keep its place. -/
def Plan.Steady (plan : Plan) (first : Moment) : Prop :=
  plan.frequency = .monthly → plan.interval = 1 ∨ first.date.day ≤ 28

instance (plan : Plan) (first : Moment) : Decidable (plan.Steady first) :=
  inferInstanceAs (Decidable (_ → _))

section Places

variable {first candidate : Moment} {index : Nat}

/-- A plan of every month covers all of them from its start on. -/
theorem covers_of_every_month (jumps : ¬ plan.Scans)
    (monthly : plan.frequency = .monthly) (every : plan.interval = 1)
    {moment : Moment} (begun : plan.start.dayNumber ≤ moment.dayNumber) :
    plan.Covers moment := by
  rw [covers_iff_of_monthly jumps monthly, every]
  refine ⟨?_, Int.one_dvd _⟩
  have ordered := Date.monthNumber_mono plan.start.date_valid
    moment.date_valid (by simpa only [Moment.dayNumber_date] using begun)
  rw [Moment.monthsBetween]
  omega

theorem covers_candidate_iff_of_monthly (valid : plan.Valid)
    (jumps : ¬ plan.Scans) (monthly : plan.frequency = .monthly)
    (begun : plan.start.dayNumber ≤ first.dayNumber)
    (early : first.date.day ≤ 28)
    (reached : walk plan.rule.nextCandidate first index = .ok candidate) :
    plan.Covers candidate ↔ plan.Covers first := by
  have never : ¬ first.LackedDay plan.interval.toNat index := by
    rintro ⟨earlier, -, lacks⟩
    exact Moment.not_lacksDay_of_le early _ lacks
  have onward :=
    monthsBetween_candidate_of_monthly valid jumps monthly reached
  rw [if_neg never, Int.add_zero] at onward
  have ordered := Date.monthNumber_mono plan.start.date_valid
    first.date_valid (by simpa only [Moment.dayNumber_date] using begun)
  have nonnegative : 0 ≤ plan.start.monthsBetween first := by
    rw [Moment.monthsBetween]
    omega
  have months : plan.start.monthsBetween candidate =
      plan.start.monthsBetween first + index * plan.interval := by
    rw [← onward]
    simp only [Moment.monthsBetween]
    omega
  rw [covers_iff_of_monthly jumps monthly,
    covers_iff_of_monthly jumps monthly, months,
    onInterval_add_iff index valid.interval nonnegative]

theorem covers_candidate_iff_of_yearly (valid : plan.Valid)
    (jumps : ¬ plan.Scans) (yearly : plan.frequency = .yearly)
    (begun : plan.start.dayNumber ≤ first.dayNumber)
    (reached : walk plan.rule.nextCandidate first index = .ok candidate) :
    plan.Covers candidate ↔ plan.Covers first := by
  have onward := yearsBetween_candidate_of_yearly valid jumps yearly reached
  have ordered := Date.year_mono plan.start.date_valid first.date_valid
    (by simpa only [Moment.dayNumber_date] using begun)
  have nonnegative : 0 ≤ plan.start.yearsBetween first := by
    rw [Moment.yearsBetween]
    omega
  have years : plan.start.yearsBetween candidate =
      plan.start.yearsBetween first + index * plan.interval := by
    rw [← onward]
    simp only [Moment.yearsBetween]
    omega
  rw [covers_iff_of_yearly jumps yearly, covers_iff_of_yearly jumps yearly,
    years, onInterval_add_iff index valid.interval nonnegative]

/-- Candidates that do not drift are covered if the first of them is. -/
theorem covers_candidate_iff_first (valid : plan.Valid)
    (jumps : ¬ plan.Scans) (steady : plan.Steady first)
    (begun : plan.start.dayNumber ≤ first.dayNumber)
    (reached : walk plan.rule.nextCandidate first index = .ok candidate) :
    plan.Covers candidate ↔ plan.Covers first := by
  cases frequency : plan.frequency with
  | daily =>
      have unset := unset_of_not_scans jumps
      rw [frequency] at unset
      exact unset.elim
  | weekly =>
      have strides : plan.Strides :=
        ⟨frequency, by simpa only [frequency] using unset_of_not_scans jumps⟩
      exact covers_candidate_iff valid strides reached
  | monthly =>
      rcases steady frequency with every | early
      · have onward := (candidate_parts valid reached).1
        exact iff_of_true
          (covers_of_every_month jumps frequency every
            (Nat.le_trans begun onward))
          (covers_of_every_month jumps frequency every begun)
      · exact covers_candidate_iff_of_monthly valid jumps frequency begun
          early reached
  | yearly =>
      exact covers_candidate_iff_of_yearly valid jumps frequency begun reached

end Places

/-! ## Searches -/

/-- A moment lies on the day after another, at the clock time of the start. -/
structure Plan.DayAfter (plan : Plan) (after moment : Moment) : Prop where
  day : moment.dayNumber = after.dayNumber + 1
  clock : moment.clock = plan.start.clock
  offset : moment.offset = after.offset

theorem firstCandidate_eq_ok_iff {after first : Moment} :
    plan.rule.firstCandidate after = .ok first ↔
      plan.DayAfter after first := by
  rw [firstCandidate_rule]
  constructor
  · rintro ⟨day, clock, offset⟩
    exact ⟨day, clock, offset⟩
  · rintro ⟨day, clock, offset⟩
    exact ⟨day, clock, offset⟩

/-- A search that jumps finds its first candidate or nothing. -/
theorem next_eq_found_iff_of_jumps (valid : plan.Valid)
    (jumps : ¬ plan.Scans) {after first result : Moment} {cap : Int}
    (begun : plan.start.NotAfter after)
    (offset : after.offset = plan.start.offset)
    (dayAfter : plan.DayAfter after first) (steady : plan.Steady first) :
    plan.rule.next after cap = .ok (.found result) ↔
      result = first ∧ 1 ≤ cap ∧
        (∀ deadline ∈ plan.deadline, after.Before deadline) ∧
          ¬ plan.Exceeded first ∧ plan.Covers first := by
  have started := firstCandidate_eq_ok_iff.mpr dayAfter
  have fromStart : plan.start.dayNumber ≤ first.dayNumber := by
    have notEarlier := begun.dayNumber_le offset.symm
    have nextDay := dayAfter.day
    omega
  rw [next_eq_found_iff valid begun.1.symm]
  simp only [not_startsAfter begun, false_and, false_or, not_false_iff,
    true_and, started, Except.ok.injEq, exists_eq_left']
  constructor
  · rintro ⟨early, index, inside, passes, reached, notExceeded, covered⟩
    have firstCovered := (covers_candidate_iff_first valid jumps steady
      fromStart reached).mp covered
    -- A search that went on would have passed over a covered candidate.
    have here : index = 0 := by
      by_contra further
      rcases passes 0 (Nat.pos_of_ne_zero further) with
        ⟨same, ⟨⟩, passed⟩
      have aware := (Moment.isAware_eq dayAfter.offset).trans begun.1.symm
      exact ((judge_pass_iff valid aware).mp passed).2 firstCovered
    subst here
    cases reached
    exact ⟨rfl, by omega, early, notExceeded, firstCovered⟩
  · rintro ⟨rfl, room, early, notExceeded, covered⟩
    exact ⟨early, 0, by omega, passes_zero _, walk_zero _, notExceeded,
      covered⟩

theorem Plan.DayAfter.unique {after first other : Moment}
    (dayAfter : plan.DayAfter after first)
    (otherAfter : plan.DayAfter after other) : other = first :=
  Moment.ext_parts (otherAfter.day.trans dayAfter.day.symm)
    (otherAfter.clock.trans dayAfter.clock.symm)
    (otherAfter.offset.trans dayAfter.offset.symm)

/--
A search of an accepted draft whose candidates are whole intervals apart, from a
pivot at the offset of the start and not before it, answers the day after the
pivot at the clock time of the start, or nothing, or fails at the end of the
calendar, whatever its cap.  A monthly draft must repeat every month for that,
or the day must be no later than the 28th.

The search answers that day exactly if it may test a candidate, the pivot does
not reach the deadline, the day does not exceed it, and the day matches.
-/
theorem nextReply_of_jumps {draft : Draft} {plan : Plan} {after : Moment}
    (accepted : draft.validate = .ok plan)
    (jumps : draft.read.strategy = .ok .jump)
    (begun : plan.start.NotAfter after)
    (offset : after.offset = plan.start.offset)
    (steady : plan.frequency = .weekly ∨ plan.frequency = .yearly ∨
      plan.frequency = .monthly ∧ (plan.interval = 1 ∨
        ∀ first, plan.DayAfter after first → first.date.day ≤ 28))
    (cap : Int) :
    ((∃ first, plan.DayAfter after first ∧
        (draft.read.nextReply after cap).outcome = .ok (some first)) ∨
      (draft.read.nextReply after cap).outcome = .ok none ∨
      ∃ error, (draft.read.nextReply after cap).outcome =
        .error (.fault (.range error))) ∧
    ∀ first, plan.DayAfter after first →
      ((draft.read.nextReply after cap).outcome = .ok (some first) ↔
        1 ≤ cap ∧
          (∀ deadline ∈ plan.deadline,
            after.Before deadline ∧ first.NotAfter deadline) ∧
          draft.read.isMatch first = .ok true) := by
  have valid := valid_of_validate accepted
  rw [read_of_validate accepted] at jumps ⊢
  rw [strategy_eq_jump_iff] at jumps
  have aware := begun.1.symm
  have isSteady {first : Moment} (dayAfter : plan.DayAfter after first) :
      plan.Steady first := by
    intro monthly
    rcases steady with weekly | yearly | ⟨-, every | early⟩
    · rw [monthly] at weekly
      cases weekly
    · rw [monthly] at yearly
      cases yearly
    · exact .inl every
    · exact .inr (early first dayAfter)
  constructor
  · cases searched : plan.rule.next after cap with
    | error fault =>
        rcases next_error valid aware searched with ⟨error, rfl⟩
        exact .inr (.inr ⟨error, nextReply_of_fault searched⟩)
    | ok finding =>
        rw [nextReply_of_next searched]
        cases finding with
        | ended => exact .inr (.inl rfl)
        | gaveUp => exact .inr (.inl rfl)
        | found result =>
            rcases (next_eq_found_iff valid aware).mp searched with
              ⟨starts, -⟩ | ⟨-, -, first, started, -⟩
            · exact absurd starts (not_startsAfter begun)
            · have dayAfter := firstCandidate_eq_ok_iff.mp started
              obtain ⟨rfl, -⟩ := (next_eq_found_iff_of_jumps valid jumps
                begun offset dayAfter (isSteady dayAfter)).mp searched
              exact .inl ⟨result, dayAfter, rfl⟩
  · intro first dayAfter
    have firstAware : first.isAware = plan.start.isAware :=
      (Moment.isAware_eq dayAfter.offset).trans aware
    rw [nextReply_outcome, next_eq_found_iff_of_jumps valid jumps begun
      offset dayAfter (isSteady dayAfter), isMatch_rule valid,
      Except.ok.injEq, decide_eq_true_eq, not_exceeded_iff valid firstAware]
    constructor
    · rintro ⟨-, room, early, within, covered⟩
      exact ⟨room, fun deadline member =>
        ⟨early deadline member, within deadline member⟩, covered⟩
    · rintro ⟨room, inTime, covered⟩
      exact ⟨rfl, room, fun deadline member => (inTime deadline member).1,
        fun deadline member => (inTime deadline member).2, covered⟩

/-- The plan of `secondMonths`, every second month from 31 December 2024. -/
def secondMonthsPlan : Plan where
  frequency := .monthly
  start := newYearsEve
  interval := 2

/-- Noon of 14 February 2025, and the midnight after it. -/
def valentine : Moment where
  ticks := 63875131200000000
  offset := none

@[inherit_doc valentine]
def afterValentine : Moment where
  ticks := 63875174400000000
  offset := none

/-- Noon of 14 March 2025, in a month that is left out. -/
def fourteenthOfMarch : Moment where
  ticks := 63877550400000000
  offset := none

@[inherit_doc fourteenthOfMarch]
def fifteenthOfMarch : Moment where
  ticks := 63877593600000000
  offset := none

theorem nextReply_of_jumps_secondMonths :
    secondMonths.validate = .ok secondMonthsPlan ∧
    secondMonths.read.strategy = .ok .jump ∧
    secondMonthsPlan.start.NotAfter valentine ∧
    secondMonthsPlan.start.NotAfter fourteenthOfMarch ∧
    secondMonthsPlan.DayAfter valentine afterValentine ∧
    secondMonthsPlan.DayAfter fourteenthOfMarch fifteenthOfMarch ∧
    (secondMonths.read.nextReply valentine 1).outcome =
      .ok (some afterValentine) ∧
    ∀ cap result,
      (secondMonths.read.nextReply fourteenthOfMarch cap).outcome ≠
        .ok (some result) := by
  have accepted : secondMonths.validate = .ok secondMonthsPlan := rfl
  have jumps : secondMonths.read.strategy = .ok .jump := rfl
  have begun : secondMonthsPlan.start.NotAfter valentine := by decide
  have marchBegun : secondMonthsPlan.start.NotAfter fourteenthOfMarch := by
    decide
  have dayAfter : secondMonthsPlan.DayAfter valentine afterValentine :=
    ⟨rfl, rfl, rfl⟩
  have marchAfter :
      secondMonthsPlan.DayAfter fourteenthOfMarch fifteenthOfMarch :=
    ⟨rfl, rfl, rfl⟩
  have early (first : Moment)
      (after : secondMonthsPlan.DayAfter valentine first) :
      first.date.day ≤ 28 := by
    rw [dayAfter.unique after]
    decide
  have marchEarly (first : Moment)
      (after : secondMonthsPlan.DayAfter fourteenthOfMarch first) :
      first.date.day ≤ 28 := by
    rw [marchAfter.unique after]
    decide
  have answered := (nextReply_of_jumps accepted jumps begun rfl
    (.inr (.inr ⟨rfl, .inr early⟩)) 1).2 _ dayAfter
  refine ⟨accepted, jumps, begun, marchBegun, dayAfter, marchAfter,
    answered.mpr ⟨by decide, ?_, rfl⟩, fun cap result found => ?_⟩
  · rintro deadline ⟨⟩
  have ⟨outcomes, exactly⟩ := nextReply_of_jumps accepted jumps marchBegun
    rfl (.inr (.inr ⟨rfl, .inr marchEarly⟩)) cap
  rw [found] at outcomes
  rcases outcomes with ⟨first, after, same⟩ | impossible | ⟨error, impossible⟩
  · obtain rfl := marchAfter.unique after
    cases same
    have unmatched : secondMonths.read.isMatch fifteenthOfMarch =
        .ok false := rfl
    have ⟨_, _, matched⟩ := (exactly _ marchAfter).mp found
    rw [unmatched] at matched
    cases matched
  · cases impossible
  · cases impossible

end Timetable
