import Timetable.Proofs.Calendar.Rollover
import Timetable.Proofs.Rule.Range
import Timetable.Proofs.Rule.Scan

/-!
# Ranges of one instant

A range that begins and ends at the same instant holds that instant if it is an
occurrence, and nothing else.

Gathering notices that such a range is over only at the candidate behind the
instant.  It takes the step to this candidate even if it has gathered all there
is, and fails if the calendar ends before (`gather_instant`).
-/

namespace Timetable

open Timetable.Calendar

variable {plan : Plan}

/-- The calendar reaches to the candidate behind a moment. -/
def Plan.HasRoomAfter (plan : Plan) (moment : Moment) : Prop :=
  if plan.Scans then moment.HasRoom 1 .day
  else moment.HasRoom plan.interval plan.frequency.unit

instance (plan : Plan) (moment : Moment) :
    Decidable (plan.HasRoomAfter moment) :=
  inferInstanceAs (Decidable (if plan.Scans then _ else _))

theorem stepped_returns_iff {outcome : Except RangeError Moment} :
    (∃ next, stepped outcome = .ok next) ↔
      ∃ next, outcome = .ok next := by
  simp only [stepped_eq_ok_iff]

/-- A step fails exactly where the calendar does not reach to its target. -/
theorem nextCandidate_returns_iff (valid : plan.Valid) {moment : Moment} :
    (∃ next, plan.rule.nextCandidate moment = .ok next) ↔
      plan.HasRoomAfter moment := by
  have positive := valid.interval
  rw [Plan.HasRoomAfter]
  split
  · next scans =>
      rw [nextCandidate_of_scans scans, stepped_returns_iff]
      show (∃ next, moment.add 1 .day = .ok next) ↔ moment.HasRoom 1 .day
      exact Moment.add_returns_iff (by decide)
  · next jumps =>
      rw [nextCandidate_of_not_scans jumps, stepped_returns_iff]
      exact Moment.add_returns_iff (by omega)

/-! ## One instant -/

section Instant

variable {moment : Moment}

/-- A moment of the offset of the start is before it, or begins the range. -/
theorem rangeStart_of_not_before (offset : moment.offset = plan.start.offset)
    (begun : ¬ moment.Before plan.start) : plan.rangeStart moment = moment := by
  rw [Plan.rangeStart]
  split
  · rfl
  · next notLater =>
      rw [Moment.before_iff_ticks offset] at begun
      rw [Moment.before_iff_ticks offset.symm] at notLater
      exact Moment.ext_ticks (by omega) offset.symm

/-- A moment that starts a range and is in it. -/
theorem within_instant_iff (valid : plan.Valid)
    (aware : moment.isAware = plan.start.isAware) :
    plan.Within moment moment ↔ ¬ plan.Exceeded moment := by
  rw [Plan.Within, not_exceeded_iff valid aware]
  exact and_iff_right (.refl moment)

theorem exists_budget {limit : Int} (positive : 1 ≤ limit) :
    ∃ budget room,
      (limit * Rule.candidatesPerOccurrence).toNat = budget + 2 ∧
        limit.toNat = room + 1 := by
  refine ⟨(limit * Rule.candidatesPerOccurrence).toNat - 2,
    limit.toNat - 1, ?_, ?_⟩
  · simp only [Rule.candidatesPerOccurrence]
    omega
  · omega

/-- Nothing is gathered before the start or behind the deadline. -/
theorem gather_instant_of_outside (valid : plan.Valid)
    (offset : moment.offset = plan.start.offset) {limit : Int}
    (positive : 1 ≤ limit)
    (outside : moment.Before plan.start ∨ plan.Exceeded moment) :
    plan.rule.gather moment moment limit = .ok ⟨[], false⟩ := by
  have aware := Moment.isAware_eq offset
  have ⟨fromMoment, fromStart⟩ := rangeStart_spec aware
  rcases exists_budget positive with ⟨budget, room, budgetEq, roomEq⟩
  rw [Rule.gather, laterOfStart_rule aware, budgetEq, roomEq]
  have notWithin : ¬ plan.Within moment (plan.rangeStart moment) := by
    by_cases early : moment.Before plan.start
    · rintro ⟨ended, -⟩
      exact (Moment.not_before_iff fromMoment.1).mpr ended
        (early.trans_notAfter fromStart)
    · rw [rangeStart_of_not_before offset early,
        within_instant_iff valid aware, not_not]
      exact outside.resolve_left early
  exact gatherOnto_stop valid aware fromStart.1.symm fromMoment
    (.inr notWithin)

/-- Otherwise the instant is gathered if it matches, once a step was taken. -/
theorem gather_instant (valid : plan.Valid)
    (offset : moment.offset = plan.start.offset) {limit : Int}
    (positive : 1 ≤ limit) (begun : ¬ moment.Before plan.start)
    (notExceeded : ¬ plan.Exceeded moment) :
    plan.rule.gather moment moment limit =
      (plan.rule.nextCandidate moment).map fun _ =>
        ⟨if plan.Covers moment then [moment] else [], false⟩ := by
  have aware := Moment.isAware_eq offset
  rcases exists_budget positive with ⟨budget, room, budgetEq, roomEq⟩
  have goesOn : ¬ (room + 1 = 0 ∨ ¬ plan.Within moment moment) := by
    simp [within_instant_iff valid aware, notExceeded]
  rw [Rule.gather, laterOfStart_rule aware,
    rangeStart_of_not_before offset begun, budgetEq, roomEq]
  dsimp only
  rw [Rule.gatherOnto, rangeVerdict_rule valid aware aware (.refl moment),
    if_neg goesOn]
  cases moved : plan.rule.nextCandidate moment with
  | error fault => split_ifs <;> rfl
  | ok next =>
      have later := (nextCandidate_daysBefore valid moved).before
      -- Whatever was gathered, the next candidate is behind the range.
      have passed (left : Nat) (before : List Moment) :
          plan.rule.gatherOnto moment moment (budget + 1) left next before =
            .ok ⟨before.reverse, false⟩ := by
        refine gatherOnto_stop valid aware (later.1.symm.trans aware)
          later.notAfter (.inr ?_)
        exact fun within =>
          (Moment.not_before_iff later.1).mpr within.1 later
      split_ifs
      · exact passed room [moment]
      · exact passed (room + 1) []

end Instant

/-! ## Replies -/

/-- A range of this one moment comes to an end. -/
def Plan.SettlesAt (plan : Plan) (moment : Moment) : Prop :=
  moment.Before plan.start ∨ plan.Exceeded moment ∨
    plan.HasRoomAfter moment

instance (plan : Plan) (moment : Moment) :
    Decidable (plan.SettlesAt moment) :=
  inferInstanceAs (Decidable (_ ∨ _ ∨ _))

/--
A range of an accepted draft that begins and ends at a moment of the offset of
the start holds the moment if it is an occurrence, and nothing else.

This is so unless the calendar ends before the candidate behind the moment, and
the moment lies between start and deadline; then the range fails.
-/
theorem occurrencesBetween_instant {draft : Draft} {plan : Plan}
    {moment : Moment} {limit : Int}
    (accepted : draft.validate = .ok plan)
    (offset : moment.offset = plan.start.offset) (positive : 1 ≤ limit) :
    ∃ occurs, draft.read.isOccurrence moment = .ok occurs ∧
      (plan.SettlesAt moment →
        draft.read.occurrencesBetween moment moment limit =
          ⟨.ok (if occurs then [moment] else []), []⟩) ∧
      (¬ plan.SettlesAt moment → ∃ error,
        draft.read.occurrencesBetween moment moment limit =
          ⟨.error (.fault (.range error)), []⟩) := by
  have valid := valid_of_validate accepted
  have aware := Moment.isAware_eq offset
  rw [read_of_validate accepted]
  refine ⟨_, isOccurrence_rule valid aware, ?_⟩
  simp only [decide_eq_true_eq]
  rw [Plan.SettlesAt, Rule.occurrencesBetween,
    ← nextCandidate_returns_iff valid]
  by_cases outside : moment.Before plan.start ∨ plan.Exceeded moment
  · rw [gather_instant_of_outside valid offset positive outside]
    have never : ¬ plan.Occurs moment := by
      rintro ⟨begun, notExceeded, -⟩
      exact outside.elim begun notExceeded
    refine ⟨fun _ => ?_, fun unsettled => ?_⟩
    · rw [if_neg never]
      rfl
    · exact absurd (outside.imp_right .inl) unsettled
  · rcases not_or.mp outside with ⟨begun, notExceeded⟩
    have occurs : plan.Occurs moment ↔ plan.Covers moment := by
      simp only [Plan.Occurs, begun, notExceeded, not_false_iff, true_and]
    rw [gather_instant valid offset positive begun notExceeded]
    cases moved : plan.rule.nextCandidate moment with
    | error fault =>
        refine ⟨?_, fun _ => ?_⟩
        · rintro (early | late | ⟨next, ⟨⟩⟩)
          · exact absurd early begun
          · exact absurd late notExceeded
        · rcases nextCandidate_error moved with ⟨error, rfl⟩
          exact ⟨error, rfl⟩
    | ok next =>
        refine ⟨fun _ => ?_, fun unsettled => ?_⟩
        · simp [Except.map, occurs, Rule.rangeNotices]
        · exact absurd (.inr (.inr ⟨next, rfl⟩)) unsettled

/-- The third day of `everySecondDay`, 9 o'clock of 5 January 2024. -/
def fifthOfJanuary : Moment where
  ticks := 63840042000000000
  offset := none

theorem occurrencesBetween_instant_january :
    everySecondDay.validate = .ok everySecondDayPlan ∧
    fifthOfJanuary.offset = everySecondDayPlan.start.offset ∧
    (1 : Int) ≤ 5 ∧
    everySecondDayPlan.SettlesAt fifthOfJanuary ∧
    everySecondDay.read.isOccurrence fifthOfJanuary = .ok true ∧
    everySecondDay.read.occurrencesBetween fifthOfJanuary fifthOfJanuary 5 =
      ⟨.ok [fifthOfJanuary], []⟩ := by
  have accepted : everySecondDay.validate = .ok everySecondDayPlan := rfl
  have offset : fifthOfJanuary.offset = everySecondDayPlan.start.offset := rfl
  have settles : everySecondDayPlan.SettlesAt fifthOfJanuary := by decide
  rcases occurrencesBetween_instant accepted offset
      (by decide : (1 : Int) ≤ 5) with ⟨occurs, occursEq, settled, -⟩
  have isOccurrence : everySecondDay.read.isOccurrence fifthOfJanuary =
      .ok true := rfl
  rw [isOccurrence] at occursEq
  cases occursEq
  exact ⟨accepted, offset, by decide, settles, isOccurrence, settled settles⟩

/-- Midnight of the last day of the calendar, 31 December 9999. -/
def lastMidnight : Moment where
  ticks := 315537811200000000
  offset := none

/-- Every day from 1 January 2024 on. -/
def everyDay : Draft where
  frequency := .odd (.text "daily")
  start := .moment newYear

/-- The last day is an occurrence, but its range fails. -/
theorem everyDay_fails_at_lastMidnight :
    everyDay.passes = .ok true ∧
    everyDay.read.isOccurrence lastMidnight = .ok true ∧
    everyDay.read.occurrencesBetween lastMidnight lastMidnight 1 =
      ⟨.error (.fault (.range .pastEdge)), []⟩ :=
  ⟨rfl, rfl, rfl⟩

end Timetable
