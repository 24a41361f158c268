import Mathlib.Data.Nat.Find
import Timetable.Proofs.Rule.Candidates
import Timetable.Rule.Search

/-!
# What the next occurrence is

`next_eq_found_iff` says what the search after a moment finds: the start, or
the first candidate that matches.  What it finds is later than the moment, not
later than the deadline, and matches.

Only the start is not compared with a candidate.  A search that begins before
the start may therefore come upon a day that matches, but is too early:
`Plan.Premature` says when, and `nextReply_isOccurrence_iff` that it is the
only case in which an answer is no occurrence.
-/

namespace Timetable

open Timetable.Calendar

variable {plan : Plan}

/-! ## The parts of a search -/

theorem judge_rule (valid : plan.Valid) {candidate : Moment}
    (aware : candidate.isAware = plan.start.isAware) :
    plan.rule.judge candidate =
      .ok (if plan.Exceeded candidate then .stop
        else if plan.Covers candidate then .accept
        else .pass) := by
  rw [Rule.judge, exceedsDeadline_rule valid aware]
  by_cases late : plan.Exceeded candidate <;>
    simp [late, isMatch_rule valid, Except.map]

theorem judge_accept_iff (valid : plan.Valid)
    {candidate : Moment} (aware : candidate.isAware = plan.start.isAware) :
    plan.rule.judge candidate = .ok .accept ↔
      ¬ plan.Exceeded candidate ∧ plan.Covers candidate := by
  rw [judge_rule valid aware]
  by_cases exceeded : plan.Exceeded candidate <;>
    by_cases covered : plan.Covers candidate <;>
      simp [exceeded, covered]

theorem judge_pass_iff (valid : plan.Valid)
    {candidate : Moment} (aware : candidate.isAware = plan.start.isAware) :
    plan.rule.judge candidate = .ok .pass ↔
      ¬ plan.Exceeded candidate ∧ ¬ plan.Covers candidate := by
  rw [judge_rule valid aware]
  by_cases exceeded : plan.Exceeded candidate <;>
    by_cases covered : plan.Covers candidate <;>
      simp [exceeded, covered]

theorem judge_stop_iff (valid : plan.Valid)
    {candidate : Moment} (aware : candidate.isAware = plan.start.isAware) :
    plan.rule.judge candidate = .ok .stop ↔ plan.Exceeded candidate := by
  rw [judge_rule valid aware]
  by_cases exceeded : plan.Exceeded candidate <;>
    by_cases covered : plan.Covers candidate <;>
      simp [exceeded, covered]

/-- The answer to a search after a moment is the start. -/
def Plan.StartsAfter (plan : Plan) (after : Moment) : Prop :=
  after.Before plan.start ∧ plan.Covers plan.start

instance (plan : Plan) (after : Moment) :
    Decidable (plan.StartsAfter after) :=
  inferInstanceAs (Decidable (_ ∧ _))

theorem startsAfter_rule (valid : plan.Valid) {after : Moment}
    (aware : after.isAware = plan.start.isAware) :
    plan.rule.startsAfter after =
      .ok (decide (plan.StartsAfter after)) := by
  rw [Rule.startsAfter, precedesStart_rule aware]
  by_cases early : after.Before plan.start <;>
    simp [early, Except.bind, isMatch_rule valid, Plan.StartsAfter]

theorem reachesDeadline_rule (valid : plan.Valid)
    {after : Moment} (aware : after.isAware = plan.start.isAware) :
    plan.rule.reachesDeadline after =
      .ok (decide (∃ deadline ∈ plan.deadline,
        ¬ after.Before deadline)) := by
  have order := valid.deadline
  cases unset : plan.deadline with
  | none => simp [Rule.reachesDeadline, Plan.rule, unset]
  | some deadline =>
      have sameKind := (order deadline (by simp [unset])).1
      simp [Rule.reachesDeadline, Plan.rule, unset, Except.map,
        precedes_of_aware (aware.trans sameKind)]

theorem firstCandidate_rule {after first : Moment} :
    plan.rule.firstCandidate after = .ok first ↔
      first.dayNumber = after.dayNumber + 1 ∧
        first.clock = plan.start.clock ∧ first.offset = after.offset := by
  have chained : plan.rule.firstCandidate after = .ok first ↔
      ∃ next, after.addDays 1 = .ok next ∧
        next.atTimeOf plan.start = first := by
    rw [Rule.firstCandidate]
    generalize after.addDays 1 = moved
    cases moved <;> simp [stepped, Except.mapError, Except.map]
  rw [chained]
  constructor
  · rintro ⟨next, moved, rfl⟩
    rcases Moment.addDays_eq_ok_iff.mp moved with ⟨nextDay, -, nextOffset⟩
    have nextDayEq : next.dayNumber = after.dayNumber + 1 := by omega
    rcases next.atTimeOf_parts plan.start with ⟨day, clock, offset⟩
    exact ⟨day.trans nextDayEq, clock, offset.trans nextOffset⟩
  · rintro ⟨firstDay, firstClock, firstOffset⟩
    rcases after.exists_onDay first.dayNumber_lt with
      ⟨next, nextDay, nextClock, nextOffset⟩
    have moved : after.addDays 1 = .ok next :=
      Moment.addDays_eq_ok_iff.mpr ⟨by omega, nextClock, nextOffset⟩
    rcases next.atTimeOf_parts plan.start with ⟨day, clock, offset⟩
    exact ⟨next, moved, Moment.ext_parts (day.trans nextDay)
      (clock.trans firstClock.symm)
      (offset.trans (nextOffset.trans firstOffset.symm))⟩

/-- A candidate of a search compares with everything that the plan holds. -/
theorem candidate_aware (valid : plan.Valid)
    {after first candidate : Moment} {index : Nat}
    (aware : after.isAware = plan.start.isAware)
    (begun : plan.rule.firstCandidate after = .ok first)
    (reached : walk plan.rule.nextCandidate first index = .ok candidate) :
    candidate.isAware = plan.start.isAware := by
  rcases firstCandidate_rule.mp begun with ⟨-, -, firstOffset⟩
  rcases candidate_parts valid reached with ⟨-, -, offset⟩
  exact (Moment.isAware_eq (offset.trans firstOffset)).trans aware

/-! ## What is found -/

theorem next_of_startsAfter (valid : plan.Valid)
    {after : Moment} (cap : Int)
    (aware : after.isAware = plan.start.isAware)
    (starts : plan.StartsAfter after) :
    plan.rule.next after cap = .ok (.found plan.start) := by
  rw [Rule.next, startsAfter_rule valid aware, decide_eq_true starts]
  simp only [anchor_rule, Except.map]

theorem next_of_not_startsAfter (valid : plan.Valid)
    {after : Moment} (cap : Int)
    (aware : after.isAware = plan.start.isAware)
    (searches : ¬ plan.StartsAfter after) :
    plan.rule.next after cap = plan.rule.searchFrom after cap := by
  rw [Rule.next, startsAfter_rule valid aware, decide_eq_false searches]

theorem aware_of_next {after : Moment} {cap : Int}
    {finding : Finding Moment}
    (searched : plan.rule.next after cap = .ok finding) :
    after.isAware = plan.start.isAware := by
  cases compared : precedes after plan.start with
  | error fault =>
      simp [Rule.next, Rule.startsAfter, Rule.precedesStart, Plan.rule,
        compared] at searched
  | ok earlier => exact aware_of_precedes compared

theorem searchFrom_of_late (valid : plan.Valid)
    {after : Moment} (cap : Int)
    (aware : after.isAware = plan.start.isAware)
    (late : ∃ deadline ∈ plan.deadline, ¬ after.Before deadline) :
    plan.rule.searchFrom after cap = .ok .ended := by
  rw [Rule.searchFrom, reachesDeadline_rule valid aware, decide_eq_true late]

theorem searchFrom_of_astray (valid : plan.Valid)
    {after : Moment} {fault : Fault} (cap : Int)
    (aware : after.isAware = plan.start.isAware)
    (early : ¬ ∃ deadline ∈ plan.deadline, ¬ after.Before deadline)
    (astray : plan.rule.firstCandidate after = .error fault) :
    plan.rule.searchFrom after cap = .error fault := by
  rw [Rule.searchFrom, reachesDeadline_rule valid aware,
    decide_eq_false early]
  simp only [astray]

theorem searchFrom_of_begun (valid : plan.Valid)
    {after first : Moment} (cap : Int)
    (aware : after.isAware = plan.start.isAware)
    (early : ¬ ∃ deadline ∈ plan.deadline, ¬ after.Before deadline)
    (begun : plan.rule.firstCandidate after = .ok first) :
    plan.rule.searchFrom after cap =
      seek plan.rule.judge plan.rule.nextCandidate cap.toNat first := by
  rw [Rule.searchFrom, reachesDeadline_rule valid aware,
    decide_eq_false early]
  simp only [begun]

/-- A search behind the start is over, or leaves the calendar, or seeks. -/
theorem searchFrom_cases (valid : plan.Valid) {after : Moment} (cap : Int)
    (aware : after.isAware = plan.start.isAware) :
    (∃ deadline ∈ plan.deadline, ¬ after.Before deadline) ∧
        plan.rule.searchFrom after cap = .ok .ended ∨
      (∀ deadline ∈ plan.deadline, after.Before deadline) ∧
        ((∃ fault, plan.rule.firstCandidate after = .error fault ∧
            plan.rule.searchFrom after cap = .error fault) ∨
          ∃ first, plan.rule.firstCandidate after = .ok first ∧
            plan.rule.searchFrom after cap =
              seek plan.rule.judge plan.rule.nextCandidate cap.toNat
                first) := by
  by_cases late : ∃ deadline ∈ plan.deadline, ¬ after.Before deadline
  · exact .inl ⟨late, searchFrom_of_late valid cap aware late⟩
  refine .inr ⟨by simpa using late, ?_⟩
  cases begun : plan.rule.firstCandidate after with
  | error fault =>
      exact .inl ⟨fault, rfl,
        searchFrom_of_astray valid cap aware late begun⟩
  | ok first =>
      exact .inr ⟨first, rfl,
        searchFrom_of_begun valid cap aware late begun⟩

/-- A search that does not end seeks from a candidate on the next day. -/
theorem searchFrom_eq_ok_iff (valid : plan.Valid) {after : Moment}
    {cap : Int} {finding : Finding Moment}
    (aware : after.isAware = plan.start.isAware)
    (goesOn : finding ≠ .ended) :
    plan.rule.searchFrom after cap = .ok finding ↔
      (∀ deadline ∈ plan.deadline, after.Before deadline) ∧
        ∃ first, plan.rule.firstCandidate after = .ok first ∧
          seek plan.rule.judge plan.rule.nextCandidate cap.toNat first =
            .ok finding := by
  rcases searchFrom_cases valid cap aware with
    ⟨⟨deadline, member, late⟩, ended⟩ |
      ⟨early, ⟨fault, astray, same⟩ | ⟨first, begun, searches⟩⟩
  · rw [ended, Except.ok.injEq]
    exact iff_of_false goesOn.symm fun ⟨early, _⟩ =>
      late (early deadline member)
  · simp [same, astray]
  · simp only [searches, begun, Except.ok.injEq, exists_eq_left',
      and_iff_right early]

/-- A search finds the start or the first candidate that matches. -/
theorem next_eq_found_iff (valid : plan.Valid)
    {after result : Moment} {cap : Int}
    (aware : after.isAware = plan.start.isAware) :
    plan.rule.next after cap = .ok (.found result) ↔
      plan.StartsAfter after ∧ result = plan.start ∨
        ¬ plan.StartsAfter after ∧
          (∀ deadline ∈ plan.deadline, after.Before deadline) ∧
          ∃ first, plan.rule.firstCandidate after = .ok first ∧
            ∃ index < cap.toNat,
              Passes plan.rule.judge plan.rule.nextCandidate first index ∧
              walk plan.rule.nextCandidate first index = .ok result ∧
              ¬ plan.Exceeded result ∧ plan.Covers result := by
  by_cases starts : plan.StartsAfter after
  · simp [next_of_startsAfter valid cap aware starts, starts, eq_comm]
  simp only [next_of_not_startsAfter valid cap aware starts, starts,
    false_and, false_or, not_false_iff, true_and]
  rw [searchFrom_eq_ok_iff valid aware (by simp)]
  refine and_congr_right fun _ => exists_congr fun first =>
    and_congr_right fun begun => ?_
  rw [seek_found_iff]
  constructor
  · rintro ⟨index, inside, passes, reached, verdict⟩
    have sameKind := candidate_aware valid aware begun reached
    exact ⟨index, inside, passes, reached,
      (judge_accept_iff valid sameKind).mp verdict⟩
  · rintro ⟨index, inside, passes, reached, accepted⟩
    have sameKind := candidate_aware valid aware begun reached
    exact ⟨index, inside, passes, reached,
      (judge_accept_iff valid sameKind).mpr accepted⟩

/-- What is found is later, within the deadline and on a day that matches. -/
theorem found_sound (valid : plan.Valid)
    {after result : Moment} {cap : Int}
    (aware : after.isAware = plan.start.isAware)
    (found : plan.rule.next after cap = .ok (.found result)) :
    after.Before result ∧ ¬ plan.Exceeded result ∧ plan.Covers result := by
  rcases (next_eq_found_iff valid aware).mp found with
    ⟨⟨before, covered⟩, rfl⟩ |
      ⟨-, -, first, begun, index, -, -, reached, notExceeded, covered⟩
  · refine ⟨before, ?_, covered⟩
    rintro ⟨deadline, member, early⟩
    exact (valid.deadline deadline member).asymm early
  · rcases firstCandidate_rule.mp begun with ⟨firstDay, -, firstOffset⟩
    rcases candidate_parts valid reached with ⟨day, -, offset⟩
    exact ⟨Moment.before_of_dayNumber_lt (firstOffset.symm.trans offset.symm)
      (by omega), notExceeded, covered⟩

/-! ## Answers before the start -/

/--
A search that begins before the start comes upon a matching day that is still
too early: the start does not match, and one of the `cap` days after the moment
does, at a time before the start.
-/
def Plan.Premature (plan : Plan) (after : Moment) (cap : Int) : Prop :=
  after.Before plan.start ∧ ¬ plan.Covers plan.start ∧
    ∃ early : Moment,
      (after.dayNumber < early.dayNumber ∧
        (early.dayNumber : Int) ≤ after.dayNumber + cap) ∧
      early.clock = plan.start.clock ∧ early.offset = after.offset ∧
      early.Before plan.start ∧ plan.Covers early

theorem premature_of_found (valid : plan.Valid)
    {after result : Moment} {cap : Int}
    (aware : after.isAware = plan.start.isAware)
    (found : plan.rule.next after cap = .ok (.found result))
    (early : result.Before plan.start) : plan.Premature after cap := by
  rcases found_sound valid aware found with ⟨later, -, -⟩
  have before : after.Before plan.start := later.trans early
  rcases (next_eq_found_iff valid aware).mp found with
    ⟨-, rfl⟩ |
      ⟨searches, -, first, begun, index, inside, -, reached, -, covered⟩
  · exact absurd early early.asymm
  · have uncovered : ¬ plan.Covers plan.start := fun covers =>
      searches ⟨before, covers⟩
    have scans := scans_of_not_covers_start uncovered
    rcases firstCandidate_rule.mp begun with
      ⟨firstDay, firstClock, firstOffset⟩
    rcases (candidate_eq_ok_iff_of_scans scans).mp reached with
      ⟨day, clock, offset⟩
    exact ⟨before, uncovered, result, ⟨by omega, by omega⟩,
      clock.trans firstClock, offset.trans firstOffset, early, covered⟩

/-- No moment before the start is later than the deadline. -/
theorem not_exceeded_of_before (valid : plan.Valid)
    {moment : Moment} (early : moment.Before plan.start) :
    ¬ plan.Exceeded moment := by
  rintro ⟨deadline, member, late⟩
  exact (early.trans (valid.deadline deadline member)).asymm late

theorem passes_of_uncovered (valid : plan.Valid)
    {first last : Moment} {index : Nat}
    (reached : walk plan.rule.nextCandidate first index = .ok last)
    (early : last.Before plan.start)
    (uncovered : ∀ earlier < index, ∀ candidate,
      walk plan.rule.nextCandidate first earlier = .ok candidate →
        ¬ plan.Covers candidate) :
    Passes plan.rule.judge plan.rule.nextCandidate first index := by
  intro earlier inside
  rcases walk_of_le reached (Nat.le_of_lt inside) with
    ⟨candidate, candidateReached⟩
  have before : candidate.Before plan.start :=
    (candidates_daysBefore valid candidateReached reached
      inside).before.trans early
  exact ⟨candidate, candidateReached, (judge_pass_iff valid before.1).mpr
    ⟨not_exceeded_of_before valid before,
      uncovered earlier inside candidate candidateReached⟩⟩

theorem candidate_before (valid : plan.Valid)
    {first earlier later limit : Moment} {index further : Nat}
    (reached : walk plan.rule.nextCandidate first index = .ok earlier)
    (onward : walk plan.rule.nextCandidate first further = .ok later)
    (ordered : index ≤ further) (early : later.Before limit) :
    earlier.Before limit :=
  (candidates_notAfter valid reached onward ordered).trans_before early

/-- A premature search finds a moment before the start. -/
theorem found_of_premature (valid : plan.Valid)
    {after : Moment} {cap : Int} (premature : plan.Premature after cap) :
    ∃ result, plan.rule.next after cap = .ok (.found result) ∧
      result.Before plan.start := by
  classical
  obtain ⟨before, uncovered, early, ⟨later, inside⟩, clock, offset,
    earlyBefore, covered⟩ := premature
  have scans := scans_of_not_covers_start uncovered
  have lastDay := early.dayNumber_lt
  rcases early.exists_onDay (by omega : after.dayNumber + 1 < dayCount) with
    ⟨first, firstDay, firstClock, firstOffset⟩
  have begun : plan.rule.firstCandidate after = .ok first :=
    firstCandidate_rule.mpr
      ⟨firstDay, firstClock.trans clock, firstOffset.trans offset⟩
  have earlyReached : walk plan.rule.nextCandidate first
      (early.dayNumber - first.dayNumber) = .ok early :=
    (candidate_eq_ok_iff_of_scans scans).mpr
      ⟨by omega, firstClock.symm, firstOffset.symm⟩
  -- The first day that matches is no later than the one that is known to.
  have exists_covered : ∃ index candidate,
      walk plan.rule.nextCandidate first index = .ok candidate ∧
        plan.Covers candidate := ⟨_, early, earlyReached, covered⟩
  rcases Nat.find_spec exists_covered with ⟨result, reached, resultCovered⟩
  have least : Nat.find exists_covered ≤
      early.dayNumber - first.dayNumber :=
    Nat.find_min' exists_covered ⟨early, earlyReached, covered⟩
  have resultBefore : result.Before plan.start :=
    candidate_before valid reached earlyReached least earlyBefore
  have passes := passes_of_uncovered valid reached resultBefore
    fun index earlier candidate candidateReached candidateCovered =>
      Nat.find_min exists_covered earlier
        ⟨candidate, candidateReached, candidateCovered⟩
  refine ⟨result, (next_eq_found_iff valid before.1).mpr (.inr ⟨?_, ?_,
    first, begun, _, ?_, passes, reached, ?_, resultCovered⟩), resultBefore⟩
  · intro starts
    exact uncovered starts.2
  · intro deadline member
    exact before.trans (valid.deadline deadline member)
  · omega
  · exact not_exceeded_of_before valid resultBefore

/-! ## Replies -/

theorem nextReply_of_next {rule : Rule} {after : Moment} {cap : Int}
    {finding : Finding Moment} (searched : rule.next after cap = .ok finding) :
    (rule.nextReply after cap).outcome = .ok finding.toOption := by
  rw [Rule.nextReply, searched]

theorem nextReply_of_fault {rule : Rule} {after : Moment} {cap : Int}
    {fault : Fault} (failed : rule.next after cap = .error fault) :
    (rule.nextReply after cap).outcome = .error (.fault fault) := by
  rw [Rule.nextReply, failed]
  rfl

theorem next_of_nextReply {rule : Rule} {after : Moment} {cap : Int}
    {answer : Option Moment}
    (returned : (rule.nextReply after cap).outcome = .ok answer) :
    ∃ finding, rule.next after cap = .ok finding ∧
      finding.toOption = answer := by
  rw [Rule.nextReply] at returned
  cases searched : rule.next after cap with
  | error fault =>
      simp [searched, Reply.ofFaulting, Except.mapError] at returned
  | ok finding =>
      rw [searched] at returned
      exact ⟨finding, rfl, Except.ok.inj returned⟩

theorem nextReply_outcome {rule : Rule} {after result : Moment} {cap : Int} :
    (rule.nextReply after cap).outcome = .ok (some result) ↔
      rule.next after cap = .ok (.found result) := by
  rw [Rule.nextReply]
  cases rule.next after cap with
  | error fault => simp [Reply.ofFaulting, Except.mapError]
  | ok finding => cases finding <;> simp [Finding.toOption]

/--
The answer to a search of an accepted draft is later than the pivot, not later
than the deadline, and matches; and all answers are occurrences exactly if the
search is not premature.
-/
theorem nextReply_isOccurrence_iff {draft : Draft} {plan : Plan}
    {after : Moment} (cap : Int) (accepted : draft.validate = .ok plan)
    (aware : after.isAware = plan.start.isAware) :
    (∀ result,
      (draft.read.nextReply after cap).outcome = .ok (some result) →
        after.Before result ∧
        (∀ deadline ∈ plan.deadline, result.NotAfter deadline) ∧
        draft.read.isMatch result = .ok true) ∧
    ((∀ result,
      (draft.read.nextReply after cap).outcome = .ok (some result) →
        after.Before result ∧ draft.read.isOccurrence result = .ok true) ↔
      ¬ plan.Premature after cap) := by
  have valid := valid_of_validate accepted
  simp only [read_of_validate accepted, nextReply_outcome,
    isMatch_rule valid, Except.ok.injEq, decide_eq_true_eq]
  refine ⟨?_, ?_, ?_⟩
  · intro result found
    rcases found_sound valid aware found with ⟨later, notExceeded, covered⟩
    refine ⟨later, ?_, covered⟩
    intro deadline member
    have sameKind := (valid.deadline deadline member).1
    exact (Moment.not_before_iff
      (sameKind.symm.trans (aware.symm.trans later.1))).mp
        fun late => notExceeded ⟨deadline, member, late⟩
  · intro sound premature
    rcases found_of_premature valid premature with ⟨result, found, early⟩
    have occurs := (sound result found).2
    rw [isOccurrence_rule valid early.1, Except.ok.injEq,
      decide_eq_true_eq] at occurs
    exact occurs.1 early
  · intro notPremature result found
    rcases found_sound valid aware found with ⟨later, notExceeded, covered⟩
    rw [isOccurrence_rule valid (later.1.symm.trans aware), Except.ok.injEq,
      decide_eq_true_eq]
    exact ⟨later, fun early =>
      notPremature (premature_of_found valid aware found early),
      notExceeded, covered⟩

/-- Every Monday from Wednesday, 3 January 2024. -/
def mondaysFromWednesday : Draft where
  frequency := .odd (.text "weekly")
  start := .moment { ticks := 63839836800000000, offset := none }
  byWeekday := .list [.whole 1]

/-- The plan of `mondaysFromWednesday`. -/
def mondaysFromWednesdayPlan : Plan where
  frequency := .weekly
  start := { ticks := 63839836800000000, offset := none }
  byWeekday := [1]

/-- Midnight of 1 December 2023, a month before the Mondays start. -/
def firstOfDecember : Moment where
  ticks := 63836985600000000
  offset := none

/-- Midnight of 4 December 2023, the first Monday behind it. -/
def fourthOfDecember : Moment where
  ticks := 63837244800000000
  offset := none

theorem nextReply_isOccurrence_iff_mondays :
    mondaysFromWednesday.validate = .ok mondaysFromWednesdayPlan ∧
    firstOfDecember.isAware = mondaysFromWednesdayPlan.start.isAware ∧
    (mondaysFromWednesday.read.nextReply firstOfDecember 1000).outcome =
        .ok (some fourthOfDecember) ∧
    firstOfDecember.Before fourthOfDecember ∧
    mondaysFromWednesday.read.isMatch fourthOfDecember = .ok true ∧
    mondaysFromWednesdayPlan.Premature firstOfDecember 1000 := by
  have accepted :
      mondaysFromWednesday.validate = .ok mondaysFromWednesdayPlan := rfl
  have aware : firstOfDecember.isAware =
      mondaysFromWednesdayPlan.start.isAware := rfl
  have found : (mondaysFromWednesday.read.nextReply firstOfDecember
      1000).outcome = .ok (some fourthOfDecember) := rfl
  rcases nextReply_isOccurrence_iff 1000 accepted aware with
    ⟨always, occurs_iff⟩
  rcases always fourthOfDecember found with ⟨later, -, isMatch⟩
  refine ⟨accepted, aware, found, later, isMatch, ?_⟩
  by_contra notPremature
  have occurs := (occurs_iff.mpr notPremature fourthOfDecember found).2
  have early : mondaysFromWednesday.read.isOccurrence fourthOfDecember =
      .ok false := rfl
  rw [early] at occurs
  cases occurs

/-- The search from 1 December 2023 answers 4 December, before the start. -/
theorem nextReply_before_start :
    mondaysFromWednesday.passes = .ok true ∧
    (mondaysFromWednesday.read.nextReply firstOfDecember 1000).outcome =
        .ok (some fourthOfDecember) ∧
    mondaysFromWednesday.read.isOccurrence fourthOfDecember = .ok false :=
  ⟨rfl, rfl, rfl⟩

end Timetable
