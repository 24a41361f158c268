import Timetable.Proofs.Rule.Gaps
import Timetable.Proofs.Rule.Range

/-!
# Ranges of dense plans

A range tests ten candidates for every occurrence asked for.  A dense plan
covers at least one of any ten candidates in a row, so that the candidates last
until all occurrences are gathered, and nothing is cut off.

The argument counts in blocks of ten.  If all candidates are used up, the run
of candidates within the range is at least that long, every block of it
contributes a match, and these are as many as were asked for.
-/

namespace Timetable

open Timetable.Calendar

variable {plan : Plan}

/-! ## Counting in blocks -/

/-- A list holds at least as many matches as it has blocks with one in each. -/
theorem le_length_filter_of_blocks {α : Type} {holds : α → Bool} {width : Nat}
    {items : List α}
    (blocks : ∀ start, start + width ≤ items.length →
      ∃ item ∈ (items.drop start).take width, holds item = true)
    {count : Nat} (long : count * width ≤ items.length) :
    count ≤ ((items.take (count * width)).filter holds).length := by
  induction count with
  | zero => exact Nat.zero_le _
  | succ count induction =>
      rw [Nat.succ_mul] at long ⊢
      have before := induction (Nat.le_of_add_right_le long)
      rcases blocks (count * width) long with ⟨item, member, held⟩
      have another := List.length_pos_of_mem
        (List.mem_filter.mpr ⟨member, held⟩)
      rw [List.take_add, List.filter_append, List.length_append]
      exact Nat.add_le_add before another

/-- Further members add nothing to a prefix with enough matches. -/
theorem take_filter_take {α : Type} {holds : α → Bool} {room budget : Nat}
    {items : List α}
    (enough : room ≤ ((items.take budget).filter holds).length) :
    ((items.take budget).filter holds).take room =
      (items.filter holds).take room := by
  conv_rhs => rw [← List.take_append_drop budget items]
  rw [List.filter_append, List.take_append_of_le_length enough]

/-! ## Dense plans -/

/--
The plans of which every ten candidates in a row have a covered one: days at
most ten apart, weekdays of every week, and one day of every month.
-/
def Plan.Dense (plan : Plan) : Prop :=
  match plan.frequency with
  | .daily => plan.interval ≤ 10
  | .weekly => plan.interval = 1 ∧ plan.byWeekday ≠ []
  | .monthly => plan.interval = 1 ∧ plan.byMonthDay = []
  | .yearly => False

/-- Some multiple of the interval is less than an interval ahead. -/
theorem exists_dvd_add {interval : Int} (positive : 1 ≤ interval)
    (distance : Int) :
    ∃ ahead : Nat, (ahead : Int) < interval ∧ interval ∣ distance + ahead := by
  have nonnegative := Int.emod_nonneg (-distance)
    (by omega : interval ≠ 0)
  refine ⟨((-distance) % interval).toNat, ?_, -((-distance) / interval), ?_⟩
  · rw [Int.toNat_of_nonneg nonnegative]
    exact Int.emod_lt_of_pos _ (by omega)
  · have division := Int.emod_add_mul_ediv (-distance) interval
    rw [Int.toNat_of_nonneg nonnegative, Int.mul_neg]
    omega

/-- A scan of days covers a day within ten if the interval is that short. -/
theorem exists_covers_of_daily (valid : plan.Valid)
    (daily : plan.frequency = .daily) (short : plan.interval ≤ 10)
    {first : Moment} (begun : plan.start.dayNumber ≤ first.dayNumber) :
    ∃ ahead < 10, ∀ moment : Moment,
      moment.dayNumber = first.dayNumber + ahead → plan.Covers moment := by
  rcases exists_dvd_add valid.interval (plan.start.daysBetween first) with
    ⟨ahead, soon, divides⟩
  refine ⟨ahead, by omega, fun moment day => ?_⟩
  have distance : plan.start.daysBetween moment =
      plan.start.daysBetween first + ahead := by
    simp only [Moment.daysBetween]
    omega
  rw [Plan.Covers, daily, Plan.CoversAt, distance]
  refine ⟨?_, divides⟩
  rw [Moment.daysBetween]
  omega

/-- A scan of days covers one of every week if a weekday is selected. -/
theorem exists_covers_of_weekly (valid : plan.Valid)
    (weekly : plan.frequency = .weekly) (every : plan.interval = 1)
    (selected : plan.byWeekday ≠ []) (first : Moment) :
    ∃ ahead < 10, ∀ moment : Moment,
      moment.dayNumber = first.dayNumber + ahead → plan.Covers moment := by
  rcases List.exists_mem_of_ne_nil _ selected with ⟨weekday, member⟩
  have inWeek : 0 ≤ weekday ∧ weekday ≤ 6 := valid.byWeekday weekday member
  refine ⟨((weekday - first.weekday) % 7).toNat, by omega,
    fun moment day => ?_⟩
  have onWeekday : (moment.weekday : Int) = weekday := by
    simp only [Moment.weekday, weekdayOfDayNumber] at day ⊢
    omega
  rw [covers_iff_of_weekly every weekly, Plan.OnWeekday, if_neg selected,
    onWeekday]
  exact member

/-- One of any ten candidates in a row is covered. -/
theorem exists_covers_of_dense (valid : plan.Valid) (dense : plan.Dense)
    {first : Moment} (begun : plan.start.dayNumber ≤ first.dayNumber) :
    ∃ ahead < 10, ∀ candidate,
      walk plan.rule.nextCandidate first ahead = .ok candidate →
        plan.Covers candidate := by
  -- Days are scanned in the first two cases, and each month is hit otherwise.
  have scanned (scans : plan.Scans)
      (days : ∃ ahead < 10, ∀ moment : Moment,
        moment.dayNumber = first.dayNumber + ahead → plan.Covers moment) :
      ∃ ahead < 10, ∀ candidate,
        walk plan.rule.nextCandidate first ahead = .ok candidate →
          plan.Covers candidate := by
    rcases days with ⟨ahead, soon, covers⟩
    refine ⟨ahead, soon, fun candidate reached => covers candidate ?_⟩
    exact ((candidate_eq_ok_iff_of_scans scans).mp reached).1
  rw [Plan.Dense] at dense
  cases frequency : plan.frequency with
  | daily =>
      rw [frequency] at dense
      refine scanned ?_ (exists_covers_of_daily valid frequency dense begun)
      rw [Plan.Scans, frequency]
      rfl
  | weekly =>
      rw [frequency] at dense
      rcases dense with ⟨every, selected⟩
      refine scanned ?_
        (exists_covers_of_weekly valid frequency every selected first)
      simp [Plan.Scans, frequency, Rule.picksDays, Plan.rule,
        Selection.isSet, selected]
  | monthly =>
      rw [frequency] at dense
      rcases dense with ⟨every, unset⟩
      refine ⟨0, by decide, fun candidate reached => ?_⟩
      cases reached
      rw [covers_iff_of_monthly_or_yearly every (.inl frequency) begun,
        Plan.SelectsDate, frequency]
      refine ⟨fun yearly => ?_, .inl unset⟩
      cases yearly
  | yearly =>
      rw [frequency] at dense
      exact dense.elim

/-- Every ten members in a row of a run have a covered one. -/
theorem exists_covers_of_block (valid : plan.Valid) (dense : plan.Dense)
    {inside : Moment → Prop} {first : Moment} {run : List Moment}
    (begun : plan.start.dayNumber ≤ first.dayNumber)
    (isRun : InitialRun plan.rule.nextCandidate inside first run)
    {start : Nat} (inRun : start + 10 ≤ run.length) :
    ∃ candidate ∈ (run.drop start).take 10, plan.Covers candidate := by
  have reached := isRun.reached start (by omega)
  have onward := (candidate_parts valid reached).1
  rcases exists_covers_of_dense valid dense
      (Nat.le_trans begun onward) with ⟨ahead, soon, covers⟩
  have bound : start + ahead < run.length := by omega
  refine ⟨run[start + ahead], ?_, covers _ ?_⟩
  · rw [List.mem_iff_getElem]
    refine ⟨ahead, by rw [List.length_take, List.length_drop]; omega, ?_⟩
    rw [List.getElem_take, List.getElem_drop]
  · rw [← walk_add reached]
    exact isRun.reached _ bound

/-! ## Budgets -/

/-- A budget is used up only by as many candidates within the range. -/
theorem budget_le_of_usedUp (valid : plan.Valid)
    {first last : Moment} (lastAware : last.isAware = plan.start.isAware)
    {budget room : Nat} {cursor : Moment} {before run : List Moment}
    {gathering : Rule.Gathering}
    (aware : cursor.isAware = plan.start.isAware)
    (begun : first.NotAfter cursor)
    (isRun : InitialRun plan.rule.nextCandidate (plan.Within last) cursor run)
    (gathered : plan.rule.gatherOnto first last budget room cursor before =
      .ok gathering)
    (usedUp : gathering.usedUp = true) : budget ≤ run.length := by
  induction budget generalizing room cursor before run with
  | zero => exact Nat.zero_le _
  | succ budget induction =>
      by_cases stops : room = 0 ∨ ¬ plan.Within last cursor
      · rw [gatherOnto_stop valid lastAware aware begun stops] at gathered
        cases gathered
        cases usedUp
      · rw [not_or, not_not] at stops
        rcases stops with ⟨notFull, within⟩
        obtain ⟨next, moved, nextAware, nextBegun, gathered⟩ :=
          gatherOnto_step valid lastAware aware begun notFull within gathered
        rcases isRun.exists_cons within moved with ⟨rest, rfl, restIsRun⟩
        exact Nat.succ_le_succ
          (induction nextAware nextBegun restIsRun gathered)

theorem budget_le_of_notices (valid : plan.Valid)
    {first last : Moment} {limit : Int} {result run : List Moment}
    (returned :
      (plan.rule.occurrencesBetween first last limit).outcome = .ok result)
    (isRun : InitialRun plan.rule.nextCandidate (plan.Within last)
      (plan.rangeStart first) run)
    (noticed : (plan.rule.occurrencesBetween first last limit).notices ≠ []) :
    (limit * Rule.candidatesPerOccurrence).toNat ≤ run.length := by
  rcases gather_of_occurrencesBetween returned with
    ⟨gathering, gathered, -, notices⟩
  obtain ⟨usedUp, positive⟩ : gathering.usedUp = true ∧ 0 < limit := by
    simpa [notices, Rule.rangeNotices] using noticed
  rcases aware_of_gather positive gathered with ⟨firstAware, lastAware⟩
  rcases rangeStart_spec firstAware with ⟨fromFirst, fromStart⟩
  rw [Rule.gather, laterOfStart_rule firstAware] at gathered
  exact budget_le_of_usedUp valid lastAware fromStart.1.symm fromFirst isRun
    gathered usedUp

theorem dayNumber_le_rangeStart {first : Moment}
    (offset : first.offset = plan.start.offset) :
    plan.start.dayNumber ≤ (plan.rangeStart first).dayNumber := by
  rcases rangeStart_spec (Moment.isAware_eq offset) with ⟨-, fromStart⟩
  apply fromStart.dayNumber_le
  rw [Plan.rangeStart]
  split
  · exact offset.symm
  · rfl

/-- Where a notice is left, the candidates tested hold enough matches. -/
theorem limit_le_matches_of_notices (valid : plan.Valid) (dense : plan.Dense)
    {first last : Moment} {limit : Int} {result run : List Moment}
    (offset : first.offset = plan.start.offset)
    (returned :
      (plan.rule.occurrencesBetween first last limit).outcome = .ok result)
    (isRun : InitialRun plan.rule.nextCandidate (plan.Within last)
      (plan.rangeStart first) run)
    (noticed : (plan.rule.occurrencesBetween first last limit).notices ≠ []) :
    limit.toNat ≤
      ((run.take (limit * Rule.candidatesPerOccurrence).toNat).filter
        fun candidate => plan.Covers candidate).length := by
  have begun := dayNumber_le_rangeStart offset
  have long := budget_le_of_notices valid returned isRun noticed
  have blocks : (limit * Rule.candidatesPerOccurrence).toNat =
      limit.toNat * 10 := by
    rw [Rule.candidatesPerOccurrence]
    omega
  rw [blocks] at long ⊢
  refine le_length_filter_of_blocks (fun start inRun => ?_) long
  simpa using exists_covers_of_block valid dense begun isRun inRun

/--
The range of an accepted dense draft is never cut short, if it begins at the
offset of the start: a notice is left only if as many occurrences were gathered
as were asked for.  What is answered are always the first `limit` matches of all
candidates within the range and the deadline.
-/
theorem occurrencesBetween_of_dense {draft : Draft} {plan : Plan}
    {first last : Moment} {limit : Int} {result : List Moment}
    (accepted : draft.validate = .ok plan) (dense : plan.Dense)
    (offset : first.offset = plan.start.offset) (positive : 1 ≤ limit)
    (returned : (draft.read.occurrencesBetween first last limit).outcome =
      .ok result) :
    ((draft.read.occurrencesBetween first last limit).notices ≠ [] →
      (result.length : Int) = limit) ∧
    ∃ run : List Moment,
      (∀ other, InitialRun draft.read.nextCandidate (plan.Within last)
        (plan.rangeStart first) other ↔ other = run) ∧
      result =
        (run.filter fun candidate =>
          draft.read.isMatch candidate = .ok true).take limit.toNat := by
  have valid := valid_of_validate accepted
  rw [read_of_validate accepted] at returned ⊢
  rcases exists_rangeRun valid (plan.rangeStart first) last with ⟨run, isRun⟩
  rcases eq_firstMatches_of_returned valid returned isRun with
    ⟨cut, silent⟩
  have enough :=
    limit_le_matches_of_notices valid dense offset returned isRun
  refine ⟨fun noticed => ?_, run, fun other =>
    ⟨fun isOther => isOther.unique isRun, ?_⟩, ?_⟩
  · rw [cut, Plan.firstMatches, List.length_take,
      Nat.min_eq_left (enough noticed)]
    omega
  · rintro rfl
    exact isRun
  · rw [filter_isMatch_rule valid]
    by_cases noticed :
        (plan.rule.occurrencesBetween first last limit).notices = []
    · exact silent noticed
    · exact cut.trans (take_filter_take (enough noticed))

/-- Every tenth day from 9 o'clock of 1 January 2024. -/
def everyTenthDay : Draft :=
  { everySecondDay with interval := .whole 10 }

/-- The plan of `everyTenthDay`. -/
def everyTenthDayPlan : Plan :=
  { everySecondDayPlan with interval := 10 }

/-- 9 o'clock of 2 January 2024, and of 11 January and 1 February. -/
def afterNewYear : Moment where
  ticks := 63839782800000000
  offset := none

@[inherit_doc afterNewYear]
def eleventhOfJanuary : Moment where
  ticks := 63840560400000000
  offset := none

@[inherit_doc afterNewYear]
def firstOfFebruary : Moment where
  ticks := 63842374800000000
  offset := none

theorem occurrencesBetween_of_dense_everyTenthDay :
    everyTenthDay.validate = .ok everyTenthDayPlan ∧
    everyTenthDayPlan.Dense ∧
    afterNewYear.offset = everyTenthDayPlan.start.offset ∧
    (everyTenthDay.read.occurrencesBetween afterNewYear firstOfFebruary
      1).outcome = .ok [eleventhOfJanuary] ∧
    (everyTenthDay.read.occurrencesBetween afterNewYear firstOfFebruary
      1).notices = [.rangeSearch 10 1] ∧
    ∃ run : List Moment,
      InitialRun everyTenthDay.read.nextCandidate
        (everyTenthDayPlan.Within firstOfFebruary)
        (everyTenthDayPlan.rangeStart afterNewYear) run ∧
      [eleventhOfJanuary] =
        (run.filter fun candidate =>
          everyTenthDay.read.isMatch candidate = .ok true).take 1 := by
  have accepted : everyTenthDay.validate = .ok everyTenthDayPlan := rfl
  have dense : everyTenthDayPlan.Dense := Int.le_refl 10
  have offset : afterNewYear.offset = everyTenthDayPlan.start.offset := rfl
  have returned :
      (everyTenthDay.read.occurrencesBetween afterNewYear firstOfFebruary
        1).outcome = .ok [eleventhOfJanuary] := rfl
  rcases occurrencesBetween_of_dense accepted dense offset (by decide)
    returned with ⟨-, run, isRun, matching⟩
  exact ⟨accepted, dense, offset, returned, rfl, run, (isRun run).mpr rfl,
    matching⟩

end Timetable
