import Timetable.Proofs.Rule.Scan

/-!
# The nearest day

A search that looks at every day goes through the days behind its pivot, each at
the clock time of the start and the offset of the pivot (`Plan.Ahead`).  What it
answers is therefore the nearest of them that matches: no day between the pivot
and the answer does.

An answer of nothing has two meanings, and the notice tells them apart.  Without
a notice no day behind the pivot matches before the deadline is over; with one,
none of as many days as were allowed does, and the deadline lies behind all of
them.  `nextReply_of_scans` states the three cases side by side.
-/

namespace Timetable

open Timetable.Calendar

variable {plan : Plan}

/-- A moment of a search: on a later day, at the clock time of the start. -/
structure Plan.Ahead (plan : Plan) (after moment : Moment) : Prop where
  day : after.dayNumber < moment.dayNumber
  clock : moment.clock = plan.start.clock
  offset : moment.offset = after.offset

/-! ## What is too late -/

/-- Behind a pivot that reaches the deadline everything is too late. -/
theorem Plan.Ahead.exceeded_of_reached (valid : plan.Valid)
    {after moment : Moment} (ahead : plan.Ahead after moment)
    (aware : after.isAware = plan.start.isAware)
    (reached : ∃ deadline ∈ plan.deadline, ¬ after.Before deadline) :
    plan.Exceeded moment := by
  rcases reached with ⟨deadline, member, notBefore⟩
  have sameKind := (valid.deadline deadline member).1
  have notAfter : deadline.NotAfter after :=
    (Moment.not_before_iff (aware.trans sameKind)).mp notBefore
  exact ⟨deadline, member, notAfter.trans_before
    (Moment.before_of_dayNumber_lt ahead.offset.symm ahead.day)⟩

/-- What is too late on one day is too late on all that follow. -/
theorem Plan.Ahead.exceeded_of_le {after late moment : Moment}
    (lateAhead : plan.Ahead after late) (ahead : plan.Ahead after moment)
    (onward : late.dayNumber ≤ moment.dayNumber)
    (exceeded : plan.Exceeded late) : plan.Exceeded moment := by
  rcases exceeded with ⟨deadline, member, before⟩
  refine ⟨deadline, member, ?_⟩
  have offset : late.offset = moment.offset :=
    lateAhead.offset.trans ahead.offset.symm
  rcases Nat.lt_or_eq_of_le onward with later | sameDay
  · exact before.trans (Moment.before_of_dayNumber_lt offset later)
  · have same : late = moment := Moment.ext_parts sameDay
      (lateAhead.clock.trans ahead.clock.symm) offset
    exact same ▸ before

/-! ## The three outcomes -/

section Outcomes

variable {after : Moment} {cap : Int}

/-- A scan finds the first covered day, unless it is too late or too far. -/
theorem next_eq_found_iff_of_scans (valid : plan.Valid) (scans : plan.Scans)
    {result : Moment} (begun : plan.start.NotAfter after) :
    plan.rule.next after cap = .ok (.found result) ↔
      plan.Ahead after result ∧ after.daysBetween result ≤ cap ∧
        ¬ plan.Exceeded result ∧ plan.Covers result ∧
        plan.Idle (after.dayNumber + 1) result.dayNumber := by
  constructor
  · intro found
    rcases (next_eq_found_iff valid begun.1.symm).mp found with
      ⟨starts, -⟩ | ⟨-, -, first, started, index, inside, passes, reached,
        notExceeded, covered⟩
    · exact absurd starts (not_startsAfter begun)
    rcases firstCandidate_rule.mp started with ⟨day, clock, offset⟩
    rcases (candidate_eq_ok_iff_of_scans scans).mp reached with
      ⟨resultDay, resultClock, resultOffset⟩
    have bound := result.dayNumber_lt
    have idle := ((passes_iff_of_scans valid scans
      ((Moment.isAware_eq offset).trans begun.1.symm) (by omega)).mp
        passes).2
    rw [← resultDay, day] at idle
    refine ⟨⟨by omega, resultClock.trans clock, resultOffset.trans offset⟩,
      ?_, notExceeded, covered, idle⟩
    rw [Moment.daysBetween]
    omega
  · rintro ⟨ahead, near, notExceeded, covered, idle⟩
    rw [next_of_first_covered valid scans begun ahead.day ahead.clock
      ahead.offset notExceeded covered idle, if_pos near]

/-- If a scan ends, every day behind the pivot is too late or not covered. -/
theorem not_covers_of_ended (valid : plan.Valid) (scans : plan.Scans)
    (begun : plan.start.NotAfter after)
    (ended : plan.rule.next after cap = .ok .ended) {moment : Moment}
    (ahead : plan.Ahead after moment) (inTime : ¬ plan.Exceeded moment) :
    ¬ plan.Covers moment := by
  rcases (next_eq_ended_iff valid scans begun).mp ended with
    reached | ⟨late, ⟨later, -⟩, clock, offset, exceeded, -, idle⟩
  · exact absurd (ahead.exceeded_of_reached valid begun.1.symm reached) inTime
  · have lateAhead : plan.Ahead after late := ⟨later, clock, offset⟩
    by_cases earlier : moment.dayNumber < late.dayNumber
    · exact idle moment ahead.day earlier
    · exact absurd (lateAhead.exceeded_of_le ahead (Nat.le_of_not_lt earlier)
        exceeded) inTime

end Outcomes

/-- A search leaves a notice exactly if it gives up. -/
theorem notices_of_next {rule : Rule} {after : Moment} {cap : Int}
    {finding : Finding Moment}
    (searched : rule.next after cap = .ok finding) :
    (rule.nextReply after cap).notices =
      if finding.hasGivenUp then [rule.searchNotice after cap] else [] := by
  rw [Rule.nextReply, searched]

/--
Let a search of an accepted draft look at every day, begin at the start or behind
it, and answer.

If it answers a moment, this lies on a later day at the clock time of the start
and the offset of the pivot, not behind the deadline, and matches, and no day
between does.  If it answers nothing and leaves no notice, no such moment matches
that is not behind the deadline.  If it leaves a notice, it is the one that the
search gave up: none of the `cap` days behind the pivot matches, all of them
exist, and none of the moments on them is behind the deadline.
-/
theorem nextReply_of_scans {draft : Draft} {plan : Plan} {after : Moment}
    {cap : Int} {answer : Option Moment}
    (accepted : draft.validate = .ok plan)
    (scans : draft.read.strategy = .ok .dayScan)
    (begun : plan.start.NotAfter after)
    (returned : (draft.read.nextReply after cap).outcome = .ok answer) :
    (∀ result, answer = some result →
      plan.Ahead after result ∧
      (∀ deadline ∈ plan.deadline, result.NotAfter deadline) ∧
      draft.read.isMatch result = .ok true ∧
      ∀ between : Moment, after.dayNumber < between.dayNumber →
        between.dayNumber < result.dayNumber →
          draft.read.isMatch between = .ok false) ∧
    (answer = none → (draft.read.nextReply after cap).notices = [] →
      ∀ later : Moment, plan.Ahead after later →
        (∀ deadline ∈ plan.deadline, later.NotAfter deadline) →
          draft.read.isMatch later = .ok false) ∧
    ((draft.read.nextReply after cap).notices ≠ [] →
      answer = none ∧
      (draft.read.nextReply after cap).notices =
        [draft.read.searchNotice after cap] ∧
      after.dayNumber + cap.toNat < dayCount ∧
      ∀ near : Moment, after.dayNumber < near.dayNumber →
        (near.dayNumber : Int) ≤ after.dayNumber + cap →
          draft.read.isMatch near = .ok false ∧
          (plan.Ahead after near →
            ∀ deadline ∈ plan.deadline, near.NotAfter deadline)) := by
  have valid := valid_of_validate accepted
  rw [read_of_validate accepted] at scans returned ⊢
  rw [strategy_eq_dayScan_iff] at scans
  have aware {moment : Moment} (ahead : plan.Ahead after moment) :
      moment.isAware = plan.start.isAware :=
    (Moment.isAware_eq ahead.offset).trans begun.1.symm
  simp only [isMatch_rule valid, Except.ok.injEq, decide_eq_true_eq,
    decide_eq_false_iff_not]
  rcases next_of_nextReply returned with ⟨finding, searched, rfl⟩
  rw [notices_of_next searched]
  cases finding with
  | found result =>
      rcases (next_eq_found_iff_of_scans valid scans begun).mp searched with
        ⟨ahead, -, notExceeded, covered, idle⟩
      refine ⟨?_, nofun, fun noticed => absurd rfl noticed⟩
      rintro _ ⟨⟩
      exact ⟨ahead, (not_exceeded_iff valid (aware ahead)).mp notExceeded,
        covered, idle⟩
  | ended =>
      refine ⟨nofun, fun _ _ later ahead inTime => ?_,
        fun noticed => absurd rfl noticed⟩
      exact not_covers_of_ended valid scans begun searched ahead
        ((not_exceeded_iff valid (aware ahead)).mpr inTime)
  | gaveUp =>
      rcases (next_eq_gaveUp_iff valid scans begun).mp searched with
        ⟨-, room, notExceeded, idle⟩
      refine ⟨nofun, nofun, fun _ => ⟨rfl, rfl, by omega,
        fun near later within => ⟨?_, fun ahead => ?_⟩⟩⟩
      · exact idle near later (by omega)
      · exact (not_exceeded_iff valid (aware ahead)).mp
          (notExceeded near later (by omega) ahead.clock ahead.offset)

/-- Ten o'clock of Monday, 15 January 2024. -/
def mondayMorning : Moment where
  ticks := 63840909600000000
  offset := none

/-- Nine o'clock of Monday, 22 January 2024. -/
def mondayAfter : Moment where
  ticks := 63841510800000000
  offset := none

/-- Nine o'clock of 29 January 2024, a millisecond before the Mondays end. -/
def lastMonday : Moment where
  ticks := 63842115600000000
  offset := none

theorem nextReply_of_scans_mondays :
    mondaysOfJanuary.validate = .ok mondaysOfJanuaryPlan ∧
    mondaysOfJanuary.read.strategy = .ok .dayScan ∧
    mondaysOfJanuaryPlan.start.NotAfter mondayMorning ∧
    mondaysOfJanuaryPlan.start.NotAfter lastMonday ∧
    ((mondaysOfJanuary.read.nextReply mondayMorning 1000).outcome =
        .ok (some mondayAfter) ∧
      ∀ between : Moment, mondayMorning.dayNumber < between.dayNumber →
        between.dayNumber < mondayAfter.dayNumber →
          mondaysOfJanuary.read.isMatch between = .ok false) ∧
    ((mondaysOfJanuary.read.nextReply lastMonday 1000).outcome = .ok none ∧
      ∀ later : Moment, mondaysOfJanuaryPlan.Ahead lastMonday later →
        (∀ deadline ∈ mondaysOfJanuaryPlan.deadline,
          later.NotAfter deadline) →
          mondaysOfJanuary.read.isMatch later = .ok false) ∧
    (mondaysOfJanuary.read.nextReply mondayMorning 3).outcome = .ok none ∧
      ∀ near : Moment, mondayMorning.dayNumber < near.dayNumber →
        (near.dayNumber : Int) ≤ mondayMorning.dayNumber + 3 →
          mondaysOfJanuary.read.isMatch near = .ok false := by
  have accepted : mondaysOfJanuary.validate = .ok mondaysOfJanuaryPlan := rfl
  have scans : mondaysOfJanuary.read.strategy = .ok .dayScan := rfl
  have begun : mondaysOfJanuaryPlan.start.NotAfter mondayMorning := by decide
  have lastBegun : mondaysOfJanuaryPlan.start.NotAfter lastMonday := by decide
  have found : (mondaysOfJanuary.read.nextReply mondayMorning 1000).outcome =
      .ok (some mondayAfter) := rfl
  have ended : (mondaysOfJanuary.read.nextReply lastMonday 1000).outcome =
      .ok none := rfl
  have gaveUp : (mondaysOfJanuary.read.nextReply mondayMorning 3).outcome =
      .ok none := rfl
  rcases (nextReply_of_scans accepted scans begun found).1 _ rfl with
    ⟨-, -, -, nearest⟩
  rcases (nextReply_of_scans accepted scans begun gaveUp).2.2 nofun with
    ⟨-, -, -, unmatched⟩
  exact ⟨accepted, scans, begun, lastBegun, ⟨found, nearest⟩,
    ⟨ended, (nextReply_of_scans accepted scans lastBegun ended).2.1 rfl rfl⟩,
    gaveUp, fun near later within => (unmatched near later within).1⟩

end Timetable
