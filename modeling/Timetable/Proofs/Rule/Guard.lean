import Timetable.Proofs.Rule.Range
import Timetable.Proofs.Rule.Scan
import Timetable.Proofs.Text.Numeral
import Timetable.Rule.Description

/-!
# What validation rules out

A rule taken at its word may fault wherever it looks at a field: an interval of
zero divides nothing, a selection may be no list, a weekday may have no name.
None of this is left once a draft was accepted.  Its days are decided, its
strategy is known and it can be put into words, unless a number in it has more
digits than can be written.

What remains are the steps of a search that leave the calendar.
`answers_of_accepted` says that these are the only failures, for every call on
moments that compare with the start.
-/

namespace Timetable

open Timetable.Calendar Timetable.Text

variable {plan : Plan}

/-- A call fails, if at all, because a step left the calendar. -/
def Reply.FailsAtEdge {α : Type} (reply : Reply α) : Prop :=
  ∀ failure, reply.outcome = .error failure →
    ∃ error, failure = .fault (.range error)

theorem failsAtEdge_of_fault {α : Type} {fault : Fault}
    (atEdge : ∃ error, fault = .range error) :
    (Reply.ofFaulting (.error fault) : Reply α).FailsAtEdge := by
  rcases atEdge with ⟨error, rfl⟩
  rintro failure ⟨⟩
  exact ⟨error, rfl⟩

theorem failsAtEdge_of_answer {α : Type} {reply : Reply α} {answer : α}
    (answered : reply.outcome = .ok answer) : reply.FailsAtEdge := by
  intro failure failed
  rw [answered] at failed
  cases failed

/-! ## Searches -/

theorem nextReply_failsAtEdge (valid : plan.Valid) {after : Moment}
    (cap : Int) (aware : after.isAware = plan.start.isAware) :
    (plan.rule.nextReply after cap).FailsAtEdge := by
  cases searched : plan.rule.next after cap with
  | error fault =>
      rw [Rule.nextReply, searched]
      exact failsAtEdge_of_fault (next_error valid aware searched)
  | ok finding =>
      apply failsAtEdge_of_answer
      rw [Rule.nextReply, searched]

/-- Gathering fails only where the candidates leave the calendar. -/
theorem gatherOnto_error (valid : plan.Valid) {first last cursor : Moment}
    {budget room : Nat} {before : List Moment} {fault : Fault}
    (lastAware : last.isAware = plan.start.isAware)
    (aware : cursor.isAware = plan.start.isAware)
    (begun : first.NotAfter cursor)
    (failed : plan.rule.gatherOnto first last budget room cursor before =
      .error fault) :
    ∃ error, fault = .range error := by
  induction budget generalizing room cursor before with
  | zero => cases failed
  | succ budget induction =>
      by_cases stops : room = 0 ∨ ¬ plan.Within last cursor
      · rw [gatherOnto_stop valid lastAware aware begun stops] at failed
        cases failed
      rw [not_or, not_not] at stops
      rw [gatherOnto_goesOn valid lastAware aware begun stops.1 stops.2]
        at failed
      cases moved : plan.rule.nextCandidate cursor with
      | error other =>
          rw [moved] at failed
          cases failed
          exact nextCandidate_error moved
      | ok next =>
          rw [moved] at failed
          have later := (nextCandidate_daysBefore valid moved).before
          exact induction (later.1.symm.trans aware)
            (begun.trans later.notAfter) failed

theorem occurrencesBetween_failsAtEdge (valid : plan.Valid)
    {first last : Moment} (limit : Int)
    (firstAware : first.isAware = plan.start.isAware)
    (lastAware : last.isAware = plan.start.isAware) :
    (plan.rule.occurrencesBetween first last limit).FailsAtEdge := by
  cases gathered : plan.rule.gather first last limit with
  | error fault =>
      rw [Rule.occurrencesBetween, gathered]
      apply failsAtEdge_of_fault
      rcases rangeStart_spec firstAware with ⟨fromFirst, fromStart⟩
      rw [Rule.gather, laterOfStart_rule firstAware] at gathered
      exact gatherOnto_error valid lastAware fromStart.1.symm fromFirst
        gathered
  | ok gathering =>
      apply failsAtEdge_of_answer
      rw [Rule.occurrencesBetween, gathered]

/-! ## The chain of occurrences -/

theorem cursor_error {progress : Rule.Progress} {fault : Fault}
    (failed : plan.rule.cursor progress = .error fault) :
    ∃ error, fault = .range error := by
  rcases progress with ⟨_ | last, given⟩
  · cases failed
  · simp only [Rule.cursor, map_eq_error_iff] at failed
    exact stepped_error failed

theorem linkFrom_error (valid : plan.Valid) {given : Nat} {pivot : Moment}
    {fault : Fault} (aware : pivot.isAware = plan.start.isAware)
    (failed : plan.linkFrom given pivot = .error fault) :
    ∃ error, fault = .range error := by
  rw [Plan.linkFrom] at failed
  split at failed
  · cases failed
  · rw [map_eq_error_iff] at failed
    exact next_error valid aware failed

/-- The links that a chain comes to fail only where the calendar ends. -/
theorem advance_error (valid : plan.Valid) {progress : Rule.Progress}
    {fault : Fault} (course : plan.OnCourse progress)
    (failed : plan.rule.advance progress = .error fault) :
    ∃ error, fault = .range error := by
  cases reached : plan.rule.cursor progress with
  | error other =>
      rw [Rule.advance, reached] at failed
      cases failed
      exact cursor_error reached
  | ok cursor =>
      rcases cursor_spec course reached with ⟨pivot, rfl, begun, -, -⟩
      rw [advance_of_cursor valid begun reached] at failed
      exact linkFrom_error valid begun.1.symm failed

theorem allOccurrences_failsAtEdge (valid : plan.Valid) {limit : Int}
    (small : limit ≤ greatestLimit) :
    (plan.rule.allOccurrences limit).FailsAtEdge := by
  cases collected : collect plan.rule.advance limit.toNat {} with
  | error fault =>
      rw [Rule.allOccurrences, if_neg (Int.not_lt.mpr small), collected]
      apply failsAtEdge_of_fault
      rcases collect_eq_error_iff.mp collected with
        ⟨values, final, yields, -, failed⟩
      exact advance_error valid (onCourse_of_yields valid yields) failed
  | ok drawn =>
      apply failsAtEdge_of_answer
      rw [Rule.allOccurrences, if_neg (Int.not_lt.mpr small), collected]

/-! ## Rules in words -/

/--
No number that stands in a description has more digits than can be written;
selected numbers never do.
-/
def Plan.Writable (plan : Plan) : Prop :=
  overlong plan.interval = false ∧
    ∀ count ∈ plan.count, overlong count = false

theorem writeOut_whole {number : Int} (short : overlong number = false) :
    writeOut (.whole number) = .ok (integerText number) := by
  rw [writeOut, Value.isOverlong, short]
  rfl

theorem selectedName_whole {names : List String} {first number : Int}
    (lower : first ≤ number) (upper : number < first + names.length) :
    ∃ name, selectedName names first (.whole number) = .ok name := by
  have place : (number - first).toNat < names.length := by omega
  refine ⟨names[(number - first).toNat], ?_⟩
  simp only [selectedName, Value.toInt?, nameAt?,
    Int.sub_nonneg_of_le lower, if_true, List.getElem?_eq_getElem place]

/-- Numbers that all have names can be listed by name. -/
theorem namesFragment_whole (lead : String) {names : List String}
    {first : Int} {numbers : List Int}
    (named : ∀ number ∈ numbers,
      first ≤ number ∧ number < first + names.length) :
    ∃ fragment, namesFragment lead names first
      (.list (numbers.map .whole)) = .ok fragment := by
  rw [namesFragment]
  split
  · refine exists_bind_eq_ok ⟨_, rfl⟩ ?_
    rintro _ ⟨⟩
    refine exists_bind_eq_ok (exists_mapM_eq_ok ?_) fun _ _ => ⟨_, rfl⟩
    intro item member
    rcases List.mem_map.mp member with ⟨number, selected, rfl⟩
    rcases named number selected with ⟨lower, upper⟩
    exact selectedName_whole lower upper
  · exact ⟨_, rfl⟩

/-- Days of the month are short enough to be listed. -/
theorem monthDaysFragment_whole {numbers : List Int}
    (inside : ∀ number ∈ numbers, monthDayBounds.Contains number) :
    ∃ fragment, monthDaysFragment (.list (numbers.map .whole)) =
      .ok fragment := by
  rw [monthDaysFragment]
  split
  · refine exists_bind_eq_ok (exists_mapM_eq_ok ?_) fun _ _ => ⟨_, rfl⟩
    intro item member
    rcases List.mem_map.mp member with ⟨number, selected, rfl⟩
    rcases inside number selected with ⟨lower, upper⟩
    simp only [monthDayBounds] at lower upper
    exact ⟨_, writeOut_whole (overlong_of_twoDigits (by omega))⟩
  · exact ⟨_, rfl⟩

theorem selectionFragment_accepted {draft : Draft}
    (accepted : draft.validate = .ok plan) (frequency : Frequency) :
    ∃ fragment, draft.selectionFragment frequency = .ok fragment := by
  rcases validate_eq_ok_iff.mp accepted with
    ⟨-, -, -, -, -, weekday, monthDay, month, valid⟩
  cases frequency with
  | daily => exact ⟨_, rfl⟩
  | weekly =>
      rw [Draft.selectionFragment, weekday]
      refine namesFragment_whole _ fun number selected => ?_
      have bounds := valid.byWeekday number selected
      simp only [Bounds.Contains, weekdayBounds] at bounds
      simp only [weekdayNames, List.length_cons, List.length_nil]
      omega
  | monthly =>
      rw [Draft.selectionFragment, monthDay]
      exact monthDaysFragment_whole valid.byMonthDay
  | yearly =>
      rw [Draft.selectionFragment, month, monthDay]
      refine exists_bind_eq_ok ?_ fun _ _ =>
        exists_bind_eq_ok (monthDaysFragment_whole valid.byMonthDay)
          fun _ _ => ⟨_, rfl⟩
      refine namesFragment_whole _ fun number selected => ?_
      have bounds := valid.byMonth number selected
      simp only [Bounds.Contains, monthBounds] at bounds
      simp only [monthNames, List.length_cons, List.length_nil]
      omega

theorem endFragment_accepted {draft : Draft}
    (accepted : draft.validate = .ok plan) (writable : plan.Writable) :
    ∃ fragment, draft.endFragment = .ok fragment := by
  rcases validate_eq_ok_iff.mp accepted with
    ⟨-, -, -, deadline, count, -, -, -, valid⟩
  rw [Draft.endFragment]
  split
  · cases given : plan.count with
    | none => simp_all [Value.isPresent]
    | some number =>
        rw [count, given, Option.elim_some,
          writeOut_whole (writable.2 number given)]
        exact ⟨_, rfl⟩
  · rw [deadline]
    cases plan.deadline <;> exact ⟨_, rfl⟩

/-- An accepted draft can be put into words. -/
theorem describe_accepted {draft : Draft}
    (accepted : draft.validate = .ok plan) (writable : plan.Writable) :
    ∃ description, draft.describe = .ok description := by
  rcases validate_eq_ok_iff.mp accepted with
    ⟨frequency, -, interval, -, -, -, -, -, valid⟩
  have opening : ∃ fragment,
      draft.intervalFragment plan.frequency = .ok fragment := by
    rw [Draft.intervalFragment, interval, writeOut_whole writable.1]
    dsimp only
    split <;> exact ⟨_, rfl⟩
  rw [Draft.describe, frequency]
  refine exists_bind_eq_ok ⟨_, rfl⟩ ?_
  rintro _ ⟨⟩
  refine exists_bind_eq_ok opening fun _ _ => ?_
  refine exists_bind_eq_ok (selectionFragment_accepted accepted _)
    fun _ _ => ?_
  exact exists_bind_eq_ok (endFragment_accepted accepted writable)
    fun _ _ => ⟨_, rfl⟩

/-! ## Every call -/

/--
Whatever is asked about an accepted draft is answered, as far as no step of a
search leaves the calendar: matching and the strategy never fail, nor does the
description if its numbers can be written, and candidates, searches, ranges and
chains fail at the edges of the calendar only.
-/
theorem answers_of_accepted {draft : Draft} {plan : Plan}
    (accepted : draft.validate = .ok plan) :
    (∀ moment : Moment, moment.isAware = plan.start.isAware →
      (∃ matched, draft.read.isMatch moment = .ok matched) ∧
        ∃ occurs, draft.read.isOccurrence moment = .ok occurs) ∧
    (∃ strategy, draft.read.strategy = .ok strategy) ∧
    (plan.Writable →
      ∃ description, draft.describe = .ok description) ∧
    (∀ candidate fault, draft.read.nextCandidate candidate = .error fault →
      ∃ error, fault = .range error) ∧
    (∀ after : Moment, ∀ cap, after.isAware = plan.start.isAware →
      (draft.read.nextReply after cap).FailsAtEdge) ∧
    (∀ first last : Moment, ∀ limit,
      first.isAware = plan.start.isAware →
        last.isAware = plan.start.isAware →
          (draft.read.occurrencesBetween first last limit).FailsAtEdge) ∧
    ∀ limit ≤ greatestLimit,
      (draft.read.allOccurrences limit).FailsAtEdge := by
  have valid := valid_of_validate accepted
  rw [read_of_validate accepted]
  refine ⟨fun moment aware => ⟨⟨_, isMatch_rule valid moment⟩, ?_⟩,
    ⟨_, strategy_rule plan⟩, describe_accepted accepted,
    fun candidate fault => nextCandidate_error,
    fun after cap => nextReply_failsAtEdge valid cap,
    fun first last limit => occurrencesBetween_failsAtEdge valid limit,
    fun limit => allOccurrences_failsAtEdge valid⟩
  exact ⟨_, isOccurrence_rule valid aware⟩

/-- Every day from 9 o'clock of the last day but one of the calendar. -/
def closingDays : Draft where
  frequency := .proper .daily
  start := .moment { ticks := 315537757200000000, offset := none }
  count := .whole 12

/-- The plan of `closingDays`. -/
def closingDaysPlan : Plan where
  frequency := .daily
  start := { ticks := 315537757200000000, offset := none }
  count := some 12

theorem answers_of_accepted_closingDays :
    closingDays.validate = .ok closingDaysPlan ∧ closingDaysPlan.Writable ∧
    (∃ description, closingDays.describe = .ok description) ∧
    (closingDays.read.allOccurrences 1).outcome =
      .ok [{ ticks := 315537843600000000, offset := none }] ∧
    ∃ failure, (closingDays.read.allOccurrences 2).outcome = .error failure ∧
      ∃ error, failure = .fault (.range error) := by
  have accepted : closingDays.validate = .ok closingDaysPlan := rfl
  have writable : closingDaysPlan.Writable := by
    refine ⟨overlong_of_twoDigits (by decide), ?_⟩
    rintro _ ⟨⟩
    exact overlong_of_twoDigits (by decide)
  have failed : (closingDays.read.allOccurrences 2).outcome =
      .error (.fault (.range .pastEdge)) := rfl
  obtain ⟨-, -, described, -, -, -, failsAtEdge⟩ :=
    answers_of_accepted accepted
  exact ⟨accepted, writable, described writable, rfl, _, failed,
    failsAtEdge 2 (by decide) _ failed⟩

end Timetable
