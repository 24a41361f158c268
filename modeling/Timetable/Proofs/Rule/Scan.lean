import Timetable.Proofs.Rule.Chain

/-!
# Searches that look at every day

Where the selections of a plan pick days, a search after a moment looks at the
days behind it one by one.  `passes_iff_of_scans` says what it takes to come
past some of them, and from this follow the ways in which a search can come
through: it finds the first covered day if that is no further than the cap, ends
at the first day behind the deadline, and gives up if there is neither so near.

Nothing but the end of the calendar makes a search fail.
-/

namespace Timetable

open Timetable.Calendar

variable {plan : Plan}

/-- Whether a day is covered does not depend on the clock time. -/
theorem covers_congr_day {left right : Moment}
    (day : left.dayNumber = right.dayNumber) :
    plan.Covers left ↔ plan.Covers right := by
  have date : left.date = right.date := by
    rw [Moment.date, Moment.date, day]
  have weekday : left.weekday = right.weekday := by
    rw [Moment.weekday, Moment.weekday, day]
  rw [Plan.Covers, Plan.Covers]
  cases plan.frequency <;>
    simp only [Plan.CoversAt, Plan.OnWeekday, Moment.daysBetween,
      Moment.monthsBetween, Moment.yearsBetween, day, date, weekday]

/-- The plan covers none of the days from one up to another. -/
def Plan.Idle (plan : Plan) (first last : Nat) : Prop :=
  ∀ moment : Moment, first ≤ moment.dayNumber →
    moment.dayNumber < last → ¬ plan.Covers moment

theorem Plan.Idle.mono {first later last earlier : Nat}
    (idle : plan.Idle first last) (fromLater : first ≤ later)
    (toEarlier : earlier ≤ last) : plan.Idle later earlier :=
  fun moment begun ended =>
    idle moment (Nat.le_trans fromLater begun)
      (Nat.lt_of_lt_of_le ended toEarlier)

theorem strategy_rule (plan : Plan) :
    plan.rule.strategy =
      .ok (if plan.Scans then .dayScan else .jump) :=
  rfl

theorem strategy_eq_dayScan_iff :
    plan.rule.strategy = .ok .dayScan ↔ plan.Scans := by
  rw [strategy_rule, Except.ok.injEq]
  by_cases scans : plan.Scans <;> simp [scans]

theorem strategy_eq_jump_iff :
    plan.rule.strategy = .ok .jump ↔ ¬ plan.Scans := by
  rw [strategy_rule, Except.ok.injEq]
  by_cases scans : plan.Scans <;> simp [scans]

/-! ## Faults -/

theorem stepped_error {outcome : Except RangeError Moment} {fault : Fault}
    (failed : stepped outcome = .error fault) :
    ∃ error, fault = .range error := by
  cases outcome with
  | error error => exact ⟨error, (Except.error.inj failed).symm⟩
  | ok moment => cases failed

theorem nextCandidate_error {candidate : Moment} {fault : Fault}
    (failed : plan.rule.nextCandidate candidate = .error fault) :
    ∃ error, fault = .range error := by
  by_cases scans : plan.Scans
  · rw [nextCandidate_of_scans scans] at failed
    exact stepped_error failed
  · rw [nextCandidate_of_not_scans scans] at failed
    exact stepped_error failed

/-- A search fails only where the calendar ends. -/
theorem next_error (valid : plan.Valid) {after : Moment} {cap : Int}
    {fault : Fault} (aware : after.isAware = plan.start.isAware)
    (failed : plan.rule.next after cap = .error fault) :
    ∃ error, fault = .range error := by
  by_cases starts : plan.StartsAfter after
  · rw [next_of_startsAfter valid cap aware starts] at failed
    cases failed
  rw [next_of_not_startsAfter valid cap aware starts] at failed
  rcases searchFrom_cases valid cap aware with
    ⟨-, ended⟩ | ⟨-, ⟨other, astray, same⟩ | ⟨first, started, searches⟩⟩
  · rw [ended] at failed
    cases failed
  · rw [same] at failed
    cases failed
    exact ⟨_, (firstCandidate_eq_error_iff.mp astray).2⟩
  · rw [searches, seek_eq_iff] at failed
    rcases failed with
      ⟨index, -, -, candidate, reached, settled⟩ | ⟨-, ⟨⟩⟩
    have sameKind := candidate_aware valid aware started reached
    cases settled with
    | unjudged verdict =>
        rw [judge_rule valid sameKind] at verdict
        cases verdict
    | astray _ left => exact nextCandidate_error left

/-! ## Days passed over -/

/-- A scan passes over the days that are neither too late nor covered. -/
theorem passes_iff_of_scans (valid : plan.Valid) (scans : plan.Scans)
    {first : Moment} {count : Nat}
    (aware : first.isAware = plan.start.isAware)
    (inside : first.dayNumber + count ≤ dayCount) :
    Passes plan.rule.judge plan.rule.nextCandidate first count ↔
      (∀ moment : Moment, first.dayNumber ≤ moment.dayNumber →
        moment.dayNumber < first.dayNumber + count →
          moment.clock = first.clock → moment.offset = first.offset →
            ¬ plan.Exceeded moment) ∧
        plan.Idle first.dayNumber (first.dayNumber + count) := by
  have onDay (index : Nat) {moment : Moment}
      (day : moment.dayNumber = first.dayNumber + index)
      (clock : moment.clock = first.clock)
      (offset : moment.offset = first.offset) :
      walk plan.rule.nextCandidate first index = .ok moment ∧
        moment.isAware = plan.start.isAware :=
    ⟨(candidate_eq_ok_iff_of_scans scans).mpr ⟨day, clock, offset⟩,
      (Moment.isAware_eq offset).trans aware⟩
  constructor
  · intro passes
    have passed {moment : Moment}
        (begun : first.dayNumber ≤ moment.dayNumber)
        (ended : moment.dayNumber < first.dayNumber + count)
        (clock : moment.clock = first.clock)
        (offset : moment.offset = first.offset) :
        ¬ plan.Exceeded moment ∧ ¬ plan.Covers moment := by
      rcases onDay (moment.dayNumber - first.dayNumber) (by omega) clock
        offset with ⟨reached, sameKind⟩
      rcases passes (moment.dayNumber - first.dayNumber) (by omega) with
        ⟨same, sameReached, pass⟩
      rw [reached] at sameReached
      cases sameReached
      exact (judge_pass_iff valid sameKind).mp pass
    refine ⟨fun moment begun ended clock offset =>
      (passed begun ended clock offset).1, ?_⟩
    intro moment begun ended covered
    rcases first.exists_onDay moment.dayNumber_lt with
      ⟨candidate, day, clock, offset⟩
    exact (passed (by omega) (by omega) clock offset).2
      ((covers_congr_day day).mpr covered)
  · rintro ⟨early, idle⟩ index earlier
    rcases first.exists_onDay
        (by omega : first.dayNumber + index < dayCount) with
      ⟨candidate, day, clock, offset⟩
    rcases onDay index day clock offset with ⟨reached, sameKind⟩
    exact ⟨candidate, reached, (judge_pass_iff valid sameKind).mpr
      ⟨early candidate (by omega) (by omega) clock offset,
        idle candidate (by omega) (by omega)⟩⟩

theorem exists_candidate_iff_of_scans (scans : plan.Scans)
    {first : Moment} {index : Nat} :
    (∃ candidate,
      walk plan.rule.nextCandidate first index = .ok candidate) ↔
        first.dayNumber + index < dayCount := by
  simp only [candidate_eq_ok_iff_of_scans scans]
  constructor
  · rintro ⟨candidate, day, -, -⟩
    rw [← day]
    exact candidate.dayNumber_lt
  · exact first.exists_onDay

/-! ## What a search comes to -/

theorem exists_firstCandidate (plan : Plan) {after : Moment}
    (room : after.dayNumber + 1 < dayCount) :
    ∃ first, plan.rule.firstCandidate after = .ok first := by
  cases started : plan.rule.firstCandidate after with
  | error fault =>
      have last := (firstCandidate_eq_error_iff.mp started).1
      omega
  | ok first => exact ⟨first, rfl⟩

/-- A scan gives up after `cap` days that are neither too late nor covered. -/
theorem next_eq_gaveUp_iff (valid : plan.Valid) (scans : plan.Scans)
    {after : Moment} {cap : Int} (begun : plan.start.NotAfter after) :
    plan.rule.next after cap = .ok .gaveUp ↔
      (∀ deadline ∈ plan.deadline, after.Before deadline) ∧
        after.dayNumber + 1 + cap.toNat < dayCount ∧
        (∀ moment : Moment, after.dayNumber + 1 ≤ moment.dayNumber →
          moment.dayNumber < after.dayNumber + 1 + cap.toNat →
            moment.clock = plan.start.clock →
              moment.offset = after.offset → ¬ plan.Exceeded moment) ∧
        plan.Idle (after.dayNumber + 1)
          (after.dayNumber + 1 + cap.toNat) := by
  rw [next_of_begun valid begun,
    searchFrom_eq_ok_iff valid begun.1.symm (by simp)]
  refine and_congr_right fun _ => ?_
  simp only [seek_gaveUp_iff, exists_candidate_iff_of_scans scans]
  constructor
  · rintro ⟨first, started, passes, room⟩
    rcases firstCandidate_rule.mp started with ⟨day, clock, offset⟩
    have aware := (Moment.isAware_eq offset).trans begun.1.symm
    have inside := Nat.le_of_lt room
    have passed := (passes_iff_of_scans valid scans aware inside).mp passes
    rw [day, clock, offset] at passed
    exact ⟨by omega, passed⟩
  · rintro ⟨room, passed⟩
    rcases exists_firstCandidate plan
        (by omega : after.dayNumber + 1 < dayCount) with
      ⟨first, started⟩
    rcases firstCandidate_rule.mp started with ⟨day, clock, offset⟩
    have aware := (Moment.isAware_eq offset).trans begun.1.symm
    have inside : first.dayNumber + cap.toNat < dayCount := by omega
    rw [← day, ← clock, ← offset] at passed
    exact ⟨first, started, (passes_iff_of_scans valid scans aware
      (Nat.le_of_lt inside)).mpr passed, inside⟩

/--
A scan ends if its pivot reaches the deadline, or one of the `cap` days behind it
is too late and those before are not and are not covered.
-/
theorem next_eq_ended_iff (valid : plan.Valid) (scans : plan.Scans)
    {after : Moment} {cap : Int} (begun : plan.start.NotAfter after) :
    plan.rule.next after cap = .ok .ended ↔
      (∃ deadline ∈ plan.deadline, ¬ after.Before deadline) ∨
        ∃ late : Moment,
          (after.dayNumber < late.dayNumber ∧
            (late.dayNumber : Int) ≤ after.dayNumber + cap) ∧
          late.clock = plan.start.clock ∧ late.offset = after.offset ∧
          plan.Exceeded late ∧
          (∀ moment : Moment, after.dayNumber + 1 ≤ moment.dayNumber →
            moment.dayNumber < late.dayNumber →
              moment.clock = plan.start.clock →
                moment.offset = after.offset → ¬ plan.Exceeded moment) ∧
          plan.Idle (after.dayNumber + 1) late.dayNumber := by
  have aware := begun.1.symm
  rw [next_of_begun valid begun]
  constructor
  · intro ended
    rcases searchFrom_cases valid cap aware with
      ⟨late, -⟩ | ⟨-, ⟨fault, -, same⟩ | ⟨first, started, searches⟩⟩
    · exact .inl late
    · rw [same] at ended
      cases ended
    · rw [searches, seek_ended_iff] at ended
      rcases ended with ⟨index, inside, passes, late, reached, stops⟩
      have sameKind := candidate_aware valid aware started reached
      rcases firstCandidate_rule.mp started with ⟨day, clock, offset⟩
      rcases (candidate_eq_ok_iff_of_scans scans).mp reached with
        ⟨lateDay, lateClock, lateOffset⟩
      have bound := late.dayNumber_lt
      have passed := (passes_iff_of_scans valid scans
        ((Moment.isAware_eq offset).trans aware) (by omega)).mp passes
      rw [← lateDay, day, clock, offset] at passed
      exact .inr ⟨late, ⟨by omega, by omega⟩, lateClock.trans clock,
        lateOffset.trans offset, (judge_stop_iff valid sameKind).mp stops,
        passed⟩
  · intro ends
    by_cases late : ∃ deadline ∈ plan.deadline, ¬ after.Before deadline
    · exact searchFrom_of_late valid cap aware late
    rcases ends.resolve_left late with
      ⟨moment, ⟨later, near⟩, clock, offset, exceeded, passed⟩
    have bound := moment.dayNumber_lt
    rcases exists_firstCandidate plan
        (by omega : after.dayNumber + 1 < dayCount) with
      ⟨first, started⟩
    rcases firstCandidate_rule.mp started with
      ⟨firstDay, firstClock, firstOffset⟩
    obtain ⟨index, day⟩ : ∃ index,
        moment.dayNumber = first.dayNumber + index :=
      Nat.exists_eq_add_of_le (by omega)
    have firstAware := (Moment.isAware_eq firstOffset).trans aware
    rw [day, ← firstDay, ← firstClock, ← firstOffset] at passed
    rw [searchFrom_of_begun valid cap aware late started, seek_ended_iff]
    refine ⟨index, by omega, (passes_iff_of_scans valid scans firstAware
      (by omega)).mpr passed, moment, ?_, ?_⟩
    · exact (candidate_eq_ok_iff_of_scans scans).mpr ⟨day,
        clock.trans firstClock.symm, offset.trans firstOffset.symm⟩
    · exact (judge_stop_iff valid
        ((Moment.isAware_eq offset).trans aware)).mpr exceeded

/--
A scan finds the first covered day behind its pivot if that is no further than
the cap, and gives up before it otherwise.
-/
theorem next_of_first_covered (valid : plan.Valid) (scans : plan.Scans)
    {after result : Moment} {cap : Int}
    (begun : plan.start.NotAfter after)
    (later : after.dayNumber < result.dayNumber)
    (clock : result.clock = plan.start.clock)
    (offset : result.offset = after.offset)
    (notExceeded : ¬ plan.Exceeded result) (covered : plan.Covers result)
    (idle : plan.Idle (after.dayNumber + 1) result.dayNumber) :
    plan.rule.next after cap =
      .ok (if after.daysBetween result ≤ cap then .found result
        else .gaveUp) := by
  have aware : result.isAware = plan.start.isAware :=
    (Moment.isAware_eq offset).trans begun.1.symm
  have within := (not_exceeded_iff valid aware).mp notExceeded
  have early : ∀ deadline ∈ plan.deadline, after.Before deadline := by
    intro deadline member
    exact (Moment.before_of_dayNumber_lt offset.symm later).trans_notAfter
      (within deadline member)
  have earlier : ∀ moment : Moment,
      after.dayNumber + 1 ≤ moment.dayNumber →
        moment.dayNumber < result.dayNumber →
          moment.clock = plan.start.clock →
            moment.offset = after.offset → ¬ plan.Exceeded moment := by
    rintro moment - day - sameOffset ⟨deadline, member, exceeded⟩
    have before := Moment.before_of_dayNumber_lt
      (sameOffset.trans offset.symm) day
    exact notExceeded ⟨deadline, member, exceeded.trans before⟩
  have room := result.dayNumber_lt
  rw [Moment.daysBetween]
  by_cases near : (result.dayNumber : Int) - after.dayNumber ≤ cap
  · rw [if_pos near, next_of_begun valid begun,
      searchFrom_eq_ok_iff valid begun.1.symm (by simp)]
    rcases exists_firstCandidate plan
        (by omega : after.dayNumber + 1 < dayCount) with
      ⟨first, started⟩
    rcases firstCandidate_rule.mp started with
      ⟨day, firstClock, firstOffset⟩
    have firstAware := (Moment.isAware_eq firstOffset).trans begun.1.symm
    obtain ⟨index, resultDay⟩ : ∃ index,
        result.dayNumber = first.dayNumber + index :=
      Nat.exists_eq_add_of_le (by omega)
    refine ⟨early, first, started, seek_found_iff.mpr
      ⟨index, by omega, ?_, ?_, ?_⟩⟩
    · rw [passes_iff_of_scans valid scans firstAware (by omega),
        ← resultDay, day, firstClock, firstOffset]
      exact ⟨earlier, idle⟩
    · exact (candidate_eq_ok_iff_of_scans scans).mpr ⟨resultDay,
        clock.trans firstClock.symm, offset.trans firstOffset.symm⟩
    · exact (judge_accept_iff valid aware).mpr ⟨notExceeded, covered⟩
  · rw [if_neg near, next_eq_gaveUp_iff valid scans begun]
    refine ⟨early, by omega, ?_, idle.mono (Nat.le_refl _) (by omega)⟩
    intro moment fromNext within
    exact earlier moment fromNext (by omega)

/-! ## Without a deadline -/

theorem not_exceeded_of_unending (unending : plan.deadline = none)
    (moment : Moment) : ¬ plan.Exceeded moment := by
  simp [Plan.Exceeded, unending]

theorem next_ne_ended (valid : plan.Valid) (scans : plan.Scans)
    (unending : plan.deadline = none) {after : Moment}
    (begun : plan.start.NotAfter after) (cap : Int) :
    plan.rule.next after cap ≠ .ok .ended := by
  intro ended
  rcases (next_eq_ended_iff valid scans begun).mp ended with
    ⟨deadline, member, -⟩ | ⟨late, -, -, -, exceeded, -⟩
  · rw [unending] at member
    cases member
  · exact not_exceeded_of_unending unending late exceeded

/-- There is no answer if `cap` days exist of which none is covered. -/
theorem nextReply_eq_none_iff (valid : plan.Valid) (scans : plan.Scans)
    (unending : plan.deadline = none) {after : Moment} {cap : Int}
    (begun : plan.start.NotAfter after) :
    (plan.rule.nextReply after cap).outcome = .ok none ↔
      after.dayNumber + 1 + cap.toNat < dayCount ∧
        plan.Idle (after.dayNumber + 1)
          (after.dayNumber + 1 + cap.toNat) := by
  have gaveUp : plan.rule.next after cap = .ok .gaveUp ↔
      after.dayNumber + 1 + cap.toNat < dayCount ∧
        plan.Idle (after.dayNumber + 1)
          (after.dayNumber + 1 + cap.toNat) := by
    simp only [next_eq_gaveUp_iff valid scans begun, unending,
      not_exceeded_of_unending unending, Option.not_mem_none,
      false_implies, implies_true, not_false_iff, true_and]
  rw [← gaveUp]
  cases searched : plan.rule.next after cap with
  | error fault => simp [nextReply_of_fault searched]
  | ok finding =>
      rw [nextReply_of_next searched]
      cases finding with
      | found result => simp [Finding.toOption]
      | ended =>
          exact absurd searched
            (next_ne_ended valid scans unending begun cap)
      | gaveUp => simp [Finding.toOption]

end Timetable
