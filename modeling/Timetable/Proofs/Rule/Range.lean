import Timetable.Proofs.InitialRun
import Timetable.Proofs.Rule.Candidates
import Timetable.Rule.Range

/-!
# What is gathered in a range

Gathering breaks off at four places of its loop.  `gatherOnto_spec` replaces
them by a filter: what is gathered are the first matches in the initial run of
candidates that lie within the range and the deadline, cut to the budget.  The
induction is on the budget, and the candidates from the cursor on have an
initial run of their own, which loses its first member at every step.

`occurrencesBetween_spec` says this of an accepted draft.
-/

namespace Timetable

open Timetable.Calendar

variable {plan : Plan}

namespace Plan

/-- The later one of the start and a moment; the start if they are the same. -/
def rangeStart (plan : Plan) (moment : Moment) : Moment :=
  if plan.start.Before moment then moment else plan.start

/-- A moment is not later than the end of a range and the deadline. -/
def Within (plan : Plan) (last moment : Moment) : Prop :=
  moment.NotAfter last ∧
    ∀ deadline ∈ plan.deadline, moment.NotAfter deadline

instance (plan : Plan) (last moment : Moment) :
    Decidable (plan.Within last moment) :=
  inferInstanceAs (Decidable (_ ∧ ∀ deadline ∈ plan.deadline, _))

/-- The first matches in a run, as many as there is room for. -/
def firstMatches (plan : Plan) (room : Nat) (run : List Moment) :
    List Moment :=
  (run.filter fun candidate => plan.Covers candidate).take room

end Plan

theorem within_iff (valid : plan.Valid) {last moment : Moment}
    (lastAware : last.isAware = plan.start.isAware)
    (aware : moment.isAware = plan.start.isAware) :
    plan.Within last moment ↔
      ¬ last.Before moment ∧ ¬ plan.Exceeded moment := by
  rw [Plan.Within, Moment.not_before_iff (lastAware.trans aware.symm),
    not_exceeded_iff valid aware]

theorem Plan.Within.of_notAfter {last earlier later : Moment}
    (within : plan.Within last later) (ordered : earlier.NotAfter later) :
    plan.Within last earlier :=
  ⟨ordered.trans within.1, fun deadline member =>
    ordered.trans (within.2 deadline member)⟩

theorem laterOfStart_rule {moment : Moment}
    (aware : moment.isAware = plan.start.isAware) :
    plan.rule.laterOfStart moment = .ok (plan.rangeStart moment) := by
  simp only [Rule.laterOfStart, Plan.rule, precedes_of_aware aware.symm,
    Except.map, decide_eq_true_eq, Plan.rangeStart]

theorem rangeStart_spec {moment : Moment}
    (aware : moment.isAware = plan.start.isAware) :
    moment.NotAfter (plan.rangeStart moment) ∧
      plan.start.NotAfter (plan.rangeStart moment) := by
  rw [Plan.rangeStart]
  split
  · next later => exact ⟨.refl moment, later.notAfter⟩
  · next notLater =>
      exact ⟨(Moment.not_before_iff aware.symm).mp notLater, .refl _⟩

/-! ## One candidate -/

theorem isGathered_rule (valid : plan.Valid)
    {first cursor : Moment} (begun : first.NotAfter cursor) :
    plan.rule.isGathered first cursor =
      .ok (decide (plan.Covers cursor)) := by
  have notEarly : ¬ cursor.Before first :=
    (Moment.not_before_iff begun.1.symm).mpr begun
  rw [Rule.isGathered, precedes_of_aware begun.1.symm,
    decide_eq_false notEarly]
  exact isMatch_rule valid cursor

/-- What becomes of a candidate that is not before the range. -/
theorem rangeVerdict_rule (valid : plan.Valid)
    {first last cursor : Moment} {room : Nat}
    (lastAware : last.isAware = plan.start.isAware)
    (aware : cursor.isAware = plan.start.isAware)
    (begun : first.NotAfter cursor) :
    plan.rule.rangeVerdict first last room cursor =
      .ok (if room = 0 ∨ ¬ plan.Within last cursor then .stop
        else if plan.Covers cursor then .accept
        else .pass) := by
  have within := within_iff valid lastAware aware
  rw [Rule.rangeVerdict, precedes_of_aware (lastAware.trans aware.symm),
    exceedsDeadline_rule valid aware, isGathered_rule valid begun]
  by_cases past : last.Before cursor
  · simp [past, within]
  · by_cases exceeded : plan.Exceeded cursor
    · by_cases full : room = 0 <;> simp [past, exceeded, full, within]
    · by_cases full : room = 0 <;>
        simp [past, exceeded, full, within, Except.map]

theorem gatherOnto_stop (valid : plan.Valid)
    {first last cursor : Moment} {budget room : Nat} {before : List Moment}
    (lastAware : last.isAware = plan.start.isAware)
    (aware : cursor.isAware = plan.start.isAware)
    (begun : first.NotAfter cursor)
    (stops : room = 0 ∨ ¬ plan.Within last cursor) :
    plan.rule.gatherOnto first last (budget + 1) room cursor before =
      .ok ⟨before.reverse, false⟩ := by
  rw [Rule.gatherOnto, rangeVerdict_rule valid lastAware aware begun,
    if_pos stops]

/-- A candidate within the range is gathered if it matches. -/
theorem gatherOnto_goesOn (valid : plan.Valid)
    {first last cursor : Moment} {budget room : Nat} {before : List Moment}
    (lastAware : last.isAware = plan.start.isAware)
    (aware : cursor.isAware = plan.start.isAware)
    (begun : first.NotAfter cursor) (notFull : room ≠ 0)
    (within : plan.Within last cursor) :
    plan.rule.gatherOnto first last (budget + 1) room cursor before =
      match plan.rule.nextCandidate cursor with
      | .error fault => .error fault
      | .ok next =>
          plan.rule.gatherOnto first last budget
            (if plan.Covers cursor then room - 1 else room) next
            (if plan.Covers cursor then cursor :: before else before) := by
  have goesOn : ¬ (room = 0 ∨ ¬ plan.Within last cursor) := by
    simp [notFull, within]
  rw [Rule.gatherOnto, rangeVerdict_rule valid lastAware aware begun,
    if_neg goesOn]
  by_cases covered : plan.Covers cursor <;>
    cases plan.rule.nextCandidate cursor <;>
      simp only [covered, if_true, if_false]

theorem gatherOnto_step (valid : plan.Valid)
    {first last cursor : Moment} {budget room : Nat} {before : List Moment}
    {gathering : Rule.Gathering}
    (lastAware : last.isAware = plan.start.isAware)
    (aware : cursor.isAware = plan.start.isAware)
    (begun : first.NotAfter cursor) (notFull : room ≠ 0)
    (within : plan.Within last cursor)
    (gathered : plan.rule.gatherOnto first last (budget + 1) room cursor
      before = .ok gathering) :
    ∃ next, plan.rule.nextCandidate cursor = .ok next ∧
      next.isAware = plan.start.isAware ∧ first.NotAfter next ∧
      plan.rule.gatherOnto first last budget
        (if plan.Covers cursor then room - 1 else room) next
        (if plan.Covers cursor then cursor :: before else before) =
          .ok gathering := by
  rw [gatherOnto_goesOn valid lastAware aware begun notFull within]
    at gathered
  cases moved : plan.rule.nextCandidate cursor with
  | error fault =>
      rw [moved] at gathered
      cases gathered
  | ok next =>
      rw [moved] at gathered
      have later := (nextCandidate_daysBefore valid moved).before
      exact ⟨next, rfl, later.1.symm.trans aware,
        begun.trans later.notAfter, gathered⟩

/-! ## All candidates -/

theorem firstMatches_zero (plan : Plan) (run : List Moment) :
    plan.firstMatches 0 run = [] :=
  List.take_zero

theorem firstMatches_cons {candidate : Moment}
    (covered : plan.Covers candidate) (room : Nat) (run : List Moment) :
    plan.firstMatches (room + 1) (candidate :: run) =
      candidate :: plan.firstMatches room run := by
  simp [Plan.firstMatches, covered]

theorem firstMatches_skip {candidate : Moment}
    (uncovered : ¬ plan.Covers candidate) (room : Nat) (run : List Moment) :
    plan.firstMatches room (candidate :: run) =
      plan.firstMatches room run := by
  simp [Plan.firstMatches, uncovered]

/--
Gathering from a cursor on appends the first matches of the initial run there,
cut to the budget; the cut makes no difference if the budget is not used up.
-/
theorem gatherOnto_spec (valid : plan.Valid)
    {first last : Moment} (lastAware : last.isAware = plan.start.isAware)
    {budget room : Nat} {cursor : Moment} {before run : List Moment}
    {gathering : Rule.Gathering}
    (aware : cursor.isAware = plan.start.isAware)
    (begun : first.NotAfter cursor)
    (isRun : InitialRun plan.rule.nextCandidate (plan.Within last) cursor run)
    (gathered : plan.rule.gatherOnto first last budget room cursor before =
      .ok gathering) :
    gathering.occurrences =
        before.reverse ++ plan.firstMatches room (run.take budget) ∧
      (gathering.usedUp = false →
        plan.firstMatches room (run.take budget) =
          plan.firstMatches room run) := by
  induction budget generalizing room cursor before run with
  | zero =>
      cases gathered
      simp [Plan.firstMatches]
  | succ budget induction =>
      by_cases full : room = 0
      · rw [gatherOnto_stop valid lastAware aware begun (.inl full)]
          at gathered
        cases gathered
        simp [full, firstMatches_zero]
      by_cases within : plan.Within last cursor
      · obtain ⟨next, moved, nextAware, nextBegun, gathered⟩ :=
          gatherOnto_step valid lastAware aware begun full within gathered
        rcases isRun.exists_cons within moved with ⟨rest, rfl, restIsRun⟩
        rcases induction nextAware nextBegun restIsRun gathered with
          ⟨occurrences, uncut⟩
        rcases Nat.exists_eq_succ_of_ne_zero full with ⟨room, rfl⟩
        rw [List.take_succ_cons]
        by_cases covered : plan.Covers cursor
        · simp only [covered, if_true, List.reverse_cons] at occurrences uncut
          rw [firstMatches_cons covered, firstMatches_cons covered]
          refine ⟨?_, fun ended => congrArg _ (uncut ended)⟩
          rw [occurrences, List.append_assoc]
          rfl
        · simp only [covered, if_false] at occurrences uncut
          rw [firstMatches_skip covered, firstMatches_skip covered]
          exact ⟨occurrences, uncut⟩
      · rw [gatherOnto_stop valid lastAware aware begun (.inr within)]
          at gathered
        cases gathered
        simp [isRun.eq_nil within, Plan.firstMatches]

/-! ## The members of a run -/

/-- Every range has an initial run of candidates. -/
theorem exists_rangeRun (valid : plan.Valid)
    (first last : Moment) :
    ∃ run, InitialRun plan.rule.nextCandidate (plan.Within last) first run :=
  exists_initialRun
    (fun moved => (nextCandidate_daysBefore valid moved).day)
    Moment.dayNumber_lt first

theorem mem_run_iff (valid : plan.Valid)
    {first last candidate : Moment} {run : List Moment}
    (isRun : InitialRun plan.rule.nextCandidate (plan.Within last) first
      run) :
    candidate ∈ run ↔
      (∃ index, walk plan.rule.nextCandidate first index = .ok candidate) ∧
        plan.Within last candidate :=
  isRun.mem_iff fun reached onward ordered within =>
    within.of_notAfter (candidates_notAfter valid reached onward ordered)

theorem pairwise_daysBefore_run (valid : plan.Valid)
    {inside : Moment → Prop} {first : Moment} {run : List Moment}
    (isRun : InitialRun plan.rule.nextCandidate inside first run) :
    run.Pairwise Moment.DaysBefore := by
  rw [List.pairwise_iff_getElem]
  intro index further inRun furtherInRun ordered
  exact candidates_daysBefore valid (isRun.reached index inRun)
    (isRun.reached further furtherInRun) ordered

theorem pairwise_before_run (valid : plan.Valid)
    {inside : Moment → Prop} {first : Moment} {run : List Moment}
    (isRun : InitialRun plan.rule.nextCandidate inside first run) :
    run.Pairwise Moment.Before :=
  (pairwise_daysBefore_run valid isRun).imp Moment.DaysBefore.before

theorem firstMatches_sublist (plan : Plan) (room : Nat)
    (run : List Moment) : (plan.firstMatches room run).Sublist run :=
  (List.take_sublist _ _).trans List.filter_sublist

/-- The matches of a run, in terms of the rule. -/
theorem filter_isMatch_rule (valid : plan.Valid) (run : List Moment) :
    (run.filter fun candidate => plan.rule.isMatch candidate = .ok true) =
      run.filter fun candidate => plan.Covers candidate := by
  simp only [isMatch_rule valid, Except.ok.injEq, decide_eq_true_eq]

theorem covers_of_mem_firstMatches {room : Nat}
    {run : List Moment} {candidate : Moment}
    (member : candidate ∈ plan.firstMatches room run) :
    plan.Covers candidate := by
  have kept := List.mem_of_mem_take member
  simpa using (List.mem_filter.mp kept).2

/-- The matches of a run lie in the range and are occurrences. -/
theorem occurs_of_mem_run (valid : plan.Valid)
    {first last candidate : Moment} {run : List Moment}
    (firstAware : first.isAware = plan.start.isAware)
    (lastAware : last.isAware = plan.start.isAware)
    (isRun : InitialRun plan.rule.nextCandidate (plan.Within last)
      (plan.rangeStart first) run)
    (member : candidate ∈ run) (covered : plan.Covers candidate) :
    first.NotAfter candidate ∧ candidate.NotAfter last ∧
      plan.rule.isOccurrence candidate = .ok true := by
  rcases List.mem_iff_getElem.mp member with ⟨index, bound, rfl⟩
  rcases rangeStart_spec firstAware with ⟨fromFirst, fromStart⟩
  have later := candidate_notAfter valid (isRun.reached index bound)
  have within := isRun.within _ member
  have begun := fromStart.trans later
  rcases (within_iff valid lastAware begun.1.symm).mp within with
    ⟨-, notExceeded⟩
  refine ⟨fromFirst.trans later, within.1, ?_⟩
  rw [isOccurrence_rule valid begun.1.symm, Except.ok.injEq,
    decide_eq_true_eq]
  exact ⟨(Moment.not_before_iff begun.1.symm).mpr begun, notExceeded,
    covered⟩

/-! ## Replies -/

theorem gather_of_occurrencesBetween {rule : Rule} {first last : Moment}
    {limit : Int} {result : List Moment}
    (returned :
      (rule.occurrencesBetween first last limit).outcome = .ok result) :
    ∃ gathering, rule.gather first last limit = .ok gathering ∧
      gathering.occurrences = result ∧
      (rule.occurrencesBetween first last limit).notices =
        Rule.rangeNotices limit gathering := by
  rw [Rule.occurrencesBetween] at returned ⊢
  cases gathered : rule.gather first last limit with
  | error fault =>
      rw [gathered] at returned
      cases returned
  | ok gathering =>
      rw [gathered] at returned
      cases returned
      exact ⟨gathering, rfl, rfl, rfl⟩

/-- Nothing was cut off if no notice was left. -/
theorem uncut_of_notices {limit : Int} {run : List Moment}
    {gathering : Rule.Gathering}
    (silent : Rule.rangeNotices limit gathering = [])
    (uncut : gathering.usedUp = false →
      plan.firstMatches limit.toNat
          (run.take (limit * Rule.candidatesPerOccurrence).toNat) =
        plan.firstMatches limit.toNat run) :
    plan.firstMatches limit.toNat
        (run.take (limit * Rule.candidatesPerOccurrence).toNat) =
      plan.firstMatches limit.toNat run := by
  by_cases positive : 0 < limit
  · apply uncut
    simpa [Rule.rangeNotices, positive] using silent
  · have none : limit.toNat = 0 := by omega
    rw [none, firstMatches_zero, firstMatches_zero]

/-- Only comparable moments are gathered. -/
theorem aware_of_gather {first last : Moment} {limit : Int}
    {gathering : Rule.Gathering} (positive : 0 < limit)
    (gathered : plan.rule.gather first last limit = .ok gathering) :
    first.isAware = plan.start.isAware ∧
      last.isAware = plan.start.isAware := by
  rw [Rule.gather] at gathered
  cases compared : precedes plan.start first with
  | error fault =>
      simp [Rule.laterOfStart, Plan.rule, compared, Except.map] at gathered
  | ok earlier =>
      have firstAware := (aware_of_precedes compared).symm
      refine ⟨firstAware, ?_⟩
      obtain ⟨budget, budgetEq⟩ : ∃ budget,
          (limit * Rule.candidatesPerOccurrence).toNat = budget + 1 :=
        Nat.exists_eq_succ_of_ne_zero
          (by simp only [Rule.candidatesPerOccurrence]; omega)
      simp only [laterOfStart_rule firstAware, budgetEq, Rule.gatherOnto,
        Rule.rangeVerdict] at gathered
      cases compared : precedes last (plan.rangeStart first) with
      | error fault => simp [compared] at gathered
      | ok past =>
          exact (aware_of_precedes compared).trans
            (rangeStart_spec firstAware).2.1.symm

/-- What is answered for a range; nothing is cut off without a notice. -/
theorem eq_firstMatches_of_returned (valid : plan.Valid)
    {first last : Moment} {limit : Int} {result run : List Moment}
    (returned :
      (plan.rule.occurrencesBetween first last limit).outcome = .ok result)
    (isRun : InitialRun plan.rule.nextCandidate (plan.Within last)
      (plan.rangeStart first) run) :
    result = plan.firstMatches limit.toNat
        (run.take (limit * Rule.candidatesPerOccurrence).toNat) ∧
      ((plan.rule.occurrencesBetween first last limit).notices = [] →
        result = plan.firstMatches limit.toNat run) := by
  rcases gather_of_occurrencesBetween returned with
    ⟨gathering, gathered, rfl, notices⟩
  rw [notices]
  by_cases positive : 0 < limit
  · rcases aware_of_gather positive gathered with ⟨firstAware, lastAware⟩
    rcases rangeStart_spec firstAware with ⟨fromFirst, fromStart⟩
    rw [Rule.gather, laterOfStart_rule firstAware] at gathered
    obtain ⟨occurrences, uncut⟩ := gatherOnto_spec valid lastAware
      fromStart.1.symm fromFirst isRun gathered
    exact ⟨occurrences, fun silent =>
      occurrences.trans (uncut_of_notices silent uncut)⟩
  · have none : limit.toNat = 0 := by omega
    have budget : (limit * Rule.candidatesPerOccurrence).toNat = 0 := by
      simp only [Rule.candidatesPerOccurrence]
      omega
    rw [Rule.gather, budget] at gathered
    rw [none, firstMatches_zero, firstMatches_zero]
    cases started : plan.rule.laterOfStart first with
    | error fault => simp [started] at gathered
    | ok cursor =>
        rw [started] at gathered
        cases gathered
        exact ⟨rfl, fun _ => rfl⟩

theorem eq_firstMatches_of_silent (valid : plan.Valid)
    {first last : Moment} {limit : Int} {result run : List Moment}
    (returned : plan.rule.occurrencesBetween first last limit =
      ⟨.ok result, []⟩)
    (isRun : InitialRun plan.rule.nextCandidate (plan.Within last)
      (plan.rangeStart first) run) :
    result = plan.firstMatches limit.toNat run :=
  (eq_firstMatches_of_returned valid (congrArg Reply.outcome returned)
    isRun).2 (congrArg Reply.notices returned)

/--
What is answered for a range, in terms of the candidates from the later one of
the start and the beginning of the range: the matches among the first ten times
`limit` members of their initial run within the range and the deadline, of
which the first `limit` are taken.
-/
theorem occurrencesBetween_spec {draft : Draft} {plan : Plan}
    {first last : Moment} {limit : Int} {result : List Moment}
    (accepted : draft.validate = .ok plan)
    (firstAware : first.isAware = plan.start.isAware)
    (lastAware : last.isAware = plan.start.isAware)
    (returned : (draft.read.occurrencesBetween first last limit).outcome =
      .ok result) :
    (∀ index further earlier later,
      walk draft.read.nextCandidate (plan.rangeStart first) index =
          .ok earlier →
        walk draft.read.nextCandidate (plan.rangeStart first) further =
          .ok later →
        index < further → earlier.Before later) ∧
    ∃ run : List Moment,
      (∀ other, InitialRun draft.read.nextCandidate (plan.Within last)
        (plan.rangeStart first) other ↔ other = run) ∧
      result =
        ((run.take (10 * limit).toNat).filter fun candidate =>
          draft.read.isMatch candidate = .ok true).take limit.toNat ∧
      result.Pairwise Moment.Before ∧
      (result.length : Int) ≤ max limit 0 ∧
      (∀ occurrence ∈ result,
        first.NotAfter occurrence ∧ occurrence.NotAfter last ∧
          draft.read.isOccurrence occurrence = .ok true) ∧
      ((draft.read.occurrencesBetween first last limit).notices = [] →
        result =
          (run.filter fun candidate =>
            draft.read.isMatch candidate = .ok true).take limit.toNat) := by
  have valid := valid_of_validate accepted
  rw [read_of_validate accepted] at returned ⊢
  refine ⟨fun index further earlier later reached onward ordered =>
    (candidates_daysBefore valid reached onward ordered).before, ?_⟩
  rcases exists_rangeRun valid (plan.rangeStart first) last with ⟨run, isRun⟩
  rcases gather_of_occurrencesBetween returned with
    ⟨gathering, gathered, rfl, notices⟩
  rcases rangeStart_spec firstAware with ⟨fromFirst, fromStart⟩
  rw [Rule.gather, laterOfStart_rule firstAware] at gathered
  obtain ⟨occurrences, uncut⟩ :=
    gatherOnto_spec valid lastAware fromStart.1.symm fromFirst isRun gathered
  have ten : (10 * limit).toNat =
      (limit * Rule.candidatesPerOccurrence).toNat := by
    rw [Rule.candidatesPerOccurrence, Int.mul_comm]
  have matching (candidates : List Moment) :
      (candidates.filter fun candidate =>
        plan.rule.isMatch candidate = .ok true).take limit.toNat =
          plan.firstMatches limit.toNat candidates := by
    rw [filter_isMatch_rule valid, Plan.firstMatches]
  rw [List.reverse_nil, List.nil_append] at occurrences
  refine ⟨run, fun other => ⟨fun isOther => isOther.unique isRun, ?_⟩,
    ?_, ?_, ?_, ?_, ?_⟩
  · rintro rfl
    exact isRun
  · rw [matching, ten, occurrences]
  · rw [occurrences]
    exact (pairwise_before_run valid isRun).sublist
      ((firstMatches_sublist _ _ _).trans (List.take_sublist _ _))
  · rw [occurrences, Plan.firstMatches, List.length_take]
    omega
  · intro occurrence member
    rw [occurrences] at member
    have inRun := List.mem_of_mem_take
      ((firstMatches_sublist _ _ _).subset member)
    exact occurs_of_mem_run valid firstAware lastAware isRun inRun
      (covers_of_mem_firstMatches member)
  · intro silent
    rw [notices] at silent
    rw [matching, occurrences]
    exact uncut_of_notices silent uncut

/-- Every second day from 9 o'clock of 1 January 2024. -/
def everySecondDay : Draft where
  frequency := .proper .daily
  start := .moment { ticks := 63839696400000000, offset := none }
  interval := .whole 2

/-- The plan of `everySecondDay`. -/
def everySecondDayPlan : Plan where
  frequency := .daily
  start := { ticks := 63839696400000000, offset := none }
  interval := 2

/-- Midnight of 6 January 2024. -/
def epiphany : Moment where
  ticks := 63840096000000000
  offset := none

theorem occurrencesBetween_newYear_epiphany :
    everySecondDay.validate = .ok everySecondDayPlan ∧
    newYear.isAware = everySecondDayPlan.start.isAware ∧
    epiphany.isAware = everySecondDayPlan.start.isAware ∧
    ∃ result,
      (everySecondDay.read.occurrencesBetween newYear epiphany 2).outcome =
          .ok result ∧
        result.length = 2 ∧ result.Pairwise Moment.Before ∧
        ∀ occurrence ∈ result,
          newYear.NotAfter occurrence ∧ occurrence.NotAfter epiphany ∧
            everySecondDay.read.isOccurrence occurrence = .ok true :=
  have accepted : everySecondDay.validate = .ok everySecondDayPlan := rfl
  have firstAware : newYear.isAware = everySecondDayPlan.start.isAware := rfl
  have lastAware : epiphany.isAware = everySecondDayPlan.start.isAware := rfl
  have returned :
      (everySecondDay.read.occurrencesBetween newYear epiphany 2).outcome =
        .ok [{ ticks := 63839696400000000, offset := none },
          { ticks := 63839869200000000, offset := none }] := rfl
  have ⟨_, _, _, ascending, _, occur, _⟩ :=
    (occurrencesBetween_spec accepted firstAware lastAware returned).2
  ⟨accepted, firstAware, lastAware, _, returned, rfl, ascending, occur⟩

end Timetable
