import Mathlib.Data.List.Sort
import Timetable.Proofs.Rule.Range
import Timetable.Proofs.Rule.Search

/-!
# Weekly strides

A weekly plan that selects no weekday goes from candidate to candidate by whole
intervals of weeks.  If the weekday of its start is selected, the plan covers
the same days, but all days are candidates.

Strides never leave the place in the interval at which they began.  So either
the first candidate is covered, and the strides lead to just those days that a
scan picks out; or it is not, and then none of the candidates is.
-/

namespace Timetable

open Timetable.Calendar

variable {plan : Plan}

/-- A draft with a single weekday selected. -/
def Draft.onWeekday (draft : Draft) (weekday : Nat) : Draft :=
  { draft with byWeekday := .list [.whole weekday] }

/-- A plan with the weekday of its start selected. -/
def Plan.onStartWeekday (plan : Plan) : Plan :=
  { plan with byWeekday := [(plan.start.weekday : Int)] }

/-- A plan is weekly and selects no weekday. -/
structure Plan.Strides (plan : Plan) : Prop where
  frequency : plan.frequency = .weekly
  byWeekday : plan.byWeekday = []

/-! ## The weekday of the start -/

theorem valid_onStartWeekday (valid : plan.Valid) :
    plan.onStartWeekday.Valid := by
  refine ⟨valid.interval, valid.count, valid.deadline, ?_,
    valid.byMonthDay, valid.byMonth⟩
  intro number member
  have inWeek : plan.start.weekday < 7 := Nat.mod_lt _ (by decide)
  rw [List.mem_singleton.mp member]
  simp only [Bounds.Contains, weekdayBounds]
  omega

theorem validate_onWeekday {draft : Draft}
    (accepted : draft.validate = .ok plan) :
    (draft.onWeekday plan.start.weekday).validate =
      .ok plan.onStartWeekday := by
  rcases validate_eq_ok_iff.mp accepted with
    ⟨frequency, start, interval, deadline, count, -, monthDay, month, valid⟩
  exact validate_eq_ok_iff.mpr ⟨frequency, start, interval, deadline, count,
    rfl, monthDay, month, valid_onStartWeekday valid⟩

theorem covers_onStartWeekday (strides : plan.Strides) (moment : Moment) :
    plan.onStartWeekday.Covers moment ↔ plan.Covers moment := by
  have weekday : plan.onStartWeekday.OnWeekday moment ↔
      plan.OnWeekday moment := by
    rw [Plan.OnWeekday, Plan.OnWeekday, if_pos strides.byWeekday,
      Plan.onStartWeekday, if_neg (List.cons_ne_nil _ _),
      List.mem_singleton, Int.ofNat_inj]
  have frequency : plan.onStartWeekday.frequency = .weekly :=
    strides.frequency
  rw [Plan.Covers, Plan.Covers, frequency, strides.frequency, Plan.CoversAt,
    Plan.CoversAt, weekday]
  rfl

theorem isMatch_onStartWeekday (valid : plan.Valid)
    (strides : plan.Strides) :
    plan.onStartWeekday.rule.isMatch = plan.rule.isMatch := by
  funext moment
  rw [isMatch_rule valid, isMatch_rule (valid_onStartWeekday valid),
    decide_eq_decide.mpr (covers_onStartWeekday strides moment)]

/-! ## Two ways to step -/

theorem not_scans_of_strides (strides : plan.Strides) : ¬ plan.Scans := by
  rw [Plan.Scans, strides.frequency]
  simp [Rule.picksDays, Plan.rule, strides.byWeekday, Selection.isSet]

theorem scans_onStartWeekday (strides : plan.Strides) :
    plan.onStartWeekday.Scans := by
  have frequency : plan.onStartWeekday.frequency = .weekly :=
    strides.frequency
  rw [Plan.Scans, frequency]
  rfl

theorem nextCandidate_of_strides (strides : plan.Strides)
    (candidate : Moment) :
    plan.rule.nextCandidate candidate =
      stepped (candidate.addDays (plan.interval * 7)) := by
  rw [nextCandidate_of_not_scans (not_scans_of_strides strides),
    strides.frequency]
  rfl

/-- The covered days are whole intervals of weeks away from the start. -/
theorem covers_iff_of_strides (strides : plan.Strides) {moment : Moment} :
    plan.Covers moment ↔
      plan.interval * 7 ∣ plan.start.daysBetween moment := by
  have weekday : moment.weekday = plan.start.weekday ↔
      (7 : Int) ∣ plan.start.daysBetween moment := by
    simp only [Moment.weekday, weekdayOfDayNumber, Moment.daysBetween]
    omega
  rw [Plan.Covers, strides.frequency, Plan.CoversAt, Plan.OnWeekday,
    if_pos strides.byWeekday, weekday]
  constructor
  · rintro ⟨⟨weeks, days⟩, divides⟩
    rw [days, Int.mul_fdiv_cancel_left _ (by decide)] at divides
    rw [days, Int.mul_comm]
    exact Int.mul_dvd_mul_left 7 divides
  · rintro ⟨index, days⟩
    have weeks : plan.start.daysBetween moment =
        7 * (plan.interval * index) := by
      rw [days, Int.mul_comm plan.interval, Int.mul_assoc]
    rw [weeks, Int.mul_fdiv_cancel_left _ (by decide)]
    exact ⟨Int.dvd_mul_right _ _, Int.dvd_mul_right _ _⟩

/-- Days are covered alike if they are whole intervals of weeks apart. -/
theorem covers_congr_of_strides (strides : plan.Strides)
    {earlier later : Moment} {days : Int}
    (apart : (later.dayNumber : Int) = earlier.dayNumber + days)
    (whole : plan.interval * 7 ∣ days) :
    plan.Covers later ↔ plan.Covers earlier := by
  have further : plan.start.daysBetween later =
      plan.start.daysBetween earlier + days := by
    simp only [Moment.daysBetween]
    omega
  rw [covers_iff_of_strides strides, covers_iff_of_strides strides, further]
  exact Int.dvd_add_left whole

theorem one_le_stride (valid : plan.Valid) : 1 ≤ plan.interval * 7 := by
  have positive := valid.interval
  omega

theorem candidate_eq_ok_iff_of_strides (valid : plan.Valid)
    (strides : plan.Strides) {first candidate : Moment} {index : Nat} :
    walk plan.rule.nextCandidate first index = .ok candidate ↔
      (candidate.dayNumber : Int) =
          first.dayNumber + index * (plan.interval * 7) ∧
        candidate.clock = first.clock ∧ candidate.offset = first.offset := by
  have positive := one_le_stride valid
  exact candidate_eq_ok_iff_of_stride (by omega)
    (nextCandidate_of_strides strides)

/-- Strides do not leave the place in the interval. -/
theorem covers_candidate_iff (valid : plan.Valid) (strides : plan.Strides)
    {first candidate : Moment} {index : Nat}
    (reached : walk plan.rule.nextCandidate first index = .ok candidate) :
    plan.Covers candidate ↔ plan.Covers first := by
  rcases (candidate_eq_ok_iff_of_strides valid strides).mp reached with
    ⟨day, -, -⟩
  exact covers_congr_of_strides strides day (Int.dvd_mul_left _ _)

theorem exists_strides (valid : plan.Valid) (strides : plan.Strides)
    {first later : Moment} {days : Nat} (covered : plan.Covers first)
    (laterCovered : plan.Covers later)
    (apart : later.dayNumber = first.dayNumber + days) :
    ∃ index : Nat, (days : Int) = index * (plan.interval * 7) := by
  rw [covers_iff_of_strides strides] at covered laterCovered
  have difference : plan.start.daysBetween later -
      plan.start.daysBetween first = days := by
    simp only [Moment.daysBetween]
    omega
  have whole := Int.dvd_sub laterCovered covered
  rw [difference] at whole
  exact (dvd_iff_exists_index (one_le_stride valid)
    (Int.natCast_nonneg _)).mp whole

/-- From a covered day strides lead to the covered days of a scan. -/
theorem reached_iff_of_covers (valid : plan.Valid) (strides : plan.Strides)
    {first candidate : Moment} (covered : plan.Covers first) :
    (∃ index, walk plan.rule.nextCandidate first index = .ok candidate) ↔
      (∃ index, walk plan.onStartWeekday.rule.nextCandidate first index =
        .ok candidate) ∧ plan.Covers candidate := by
  have scans := scans_onStartWeekday strides
  constructor
  · rintro ⟨index, reached⟩
    refine ⟨⟨(index * (plan.interval * 7)).toNat, ?_⟩,
      (covers_candidate_iff valid strides reached).mpr covered⟩
    rcases (candidate_eq_ok_iff_of_strides valid strides).mp reached with
      ⟨day, parts⟩
    have climbed : 0 ≤ (index : Int) * (plan.interval * 7) := by
      have positive := one_le_stride valid
      exact Int.mul_nonneg (Int.natCast_nonneg _) (by omega)
    exact (candidate_eq_ok_iff_of_scans scans).mpr ⟨by omega, parts⟩
  · rintro ⟨⟨days, reached⟩, laterCovered⟩
    rcases (candidate_eq_ok_iff_of_scans scans).mp reached with ⟨day, parts⟩
    rcases exists_strides valid strides covered laterCovered day with
      ⟨index, whole⟩
    refine ⟨index, (candidate_eq_ok_iff_of_strides valid strides).mpr
      ⟨?_, parts⟩⟩
    rw [day, Int.natCast_add, whole]

/-! ## Ranges -/

/-- From a covered day both runs hold the same matches. -/
theorem firstMatches_of_covers (valid : plan.Valid)
    (strides : plan.Strides) {first last : Moment}
    {run scanned : List Moment} (covered : plan.Covers first)
    (isRun : InitialRun plan.rule.nextCandidate (plan.Within last) first run)
    (isScan : InitialRun plan.onStartWeekday.rule.nextCandidate
      (plan.onStartWeekday.Within last) first scanned) (room : Nat) :
    plan.firstMatches room run =
      plan.onStartWeekday.firstMatches room scanned := by
  have ascending := pairwise_before_run valid isRun
  have scanAscending :=
    pairwise_before_run (valid_onStartWeekday valid) isScan
  have sameMatches :
      run.filter (fun candidate => plan.Covers candidate) =
        scanned.filter fun candidate =>
          plan.onStartWeekday.Covers candidate := by
    -- Both are ascending, so they are the same if their members are.
    refine (ascending.filter _).eq_of_mem_iff (scanAscending.filter _) ?_
    intro candidate
    simp only [List.mem_filter, decide_eq_true_eq, mem_run_iff valid isRun,
      mem_run_iff (valid_onStartWeekday valid) isScan,
      covers_onStartWeekday strides,
      reached_iff_of_covers valid strides covered]
    constructor
    · rintro ⟨⟨⟨reached, -⟩, within⟩, matching⟩
      exact ⟨⟨reached, within⟩, matching⟩
    · rintro ⟨⟨reached, within⟩, matching⟩
      exact ⟨⟨⟨reached, matching⟩, within⟩, matching⟩
  rw [Plan.firstMatches, Plan.firstMatches, sameMatches]

theorem firstMatches_of_uncovered (valid : plan.Valid)
    (strides : plan.Strides) {first last : Moment} {run : List Moment}
    (uncovered : ¬ plan.Covers first)
    (isRun : InitialRun plan.rule.nextCandidate (plan.Within last) first run)
    (room : Nat) : plan.firstMatches room run = [] := by
  rw [List.eq_nil_iff_forall_not_mem]
  intro candidate member
  have inRun := (firstMatches_sublist _ _ _).subset member
  rcases (mem_run_iff valid isRun).mp inRun with ⟨⟨index, reached⟩, -⟩
  exact uncovered ((covers_candidate_iff valid strides reached).mp
    (covers_of_mem_firstMatches member))

/-! ## Searches -/

/-- A search answers the start, or begins on a covered day. -/
def Plan.AlignedAfter (plan : Plan) (after : Moment) : Prop :=
  after.Before plan.start ∨
    ∃ first, plan.rule.firstCandidate after = .ok first ∧
      plan.Covers first

theorem covers_start_of_strides (strides : plan.Strides) :
    plan.Covers plan.start :=
  covers_start_of_not_scans (not_scans_of_strides strides)

theorem judge_onStartWeekday (valid : plan.Valid)
    (strides : plan.Strides) :
    plan.onStartWeekday.rule.judge = plan.rule.judge := by
  funext candidate
  rw [Rule.judge, Rule.judge, isMatch_onStartWeekday valid strides]
  rfl

/-- A search from a covered day does not come to its first step. -/
theorem searchFrom_onStartWeekday (valid : plan.Valid)
    (strides : plan.Strides) {after first : Moment}
    (aware : after.isAware = plan.start.isAware)
    (begun : plan.rule.firstCandidate after = .ok first)
    (covered : plan.Covers first) (cap : Int) :
    plan.onStartWeekday.rule.searchFrom after cap =
      plan.rule.searchFrom after cap := by
  have firstAware : first.isAware = plan.start.isAware :=
    candidate_aware valid aware begun (walk_zero first)
  have settled : plan.rule.judge first ≠ .ok .pass := by
    rw [Ne, judge_pass_iff valid firstAware]
    exact fun passed => passed.2 covered
  have alsoValid := valid_onStartWeekday valid
  -- The searches differ in their steps only, and neither takes one.
  by_cases late : ∃ deadline ∈ plan.deadline, ¬ after.Before deadline
  · rw [searchFrom_of_late valid cap aware late,
      searchFrom_of_late alsoValid cap aware late]
  · rw [searchFrom_of_begun valid cap aware late begun,
      searchFrom_of_begun alsoValid cap aware late begun,
      judge_onStartWeekday valid strides]
    exact seek_congr_of_first rfl settled _

theorem next_onStartWeekday (valid : plan.Valid) (strides : plan.Strides)
    {after : Moment} (aware : after.isAware = plan.start.isAware)
    (aligned : plan.AlignedAfter after) (cap : Int) :
    plan.onStartWeekday.rule.next after cap = plan.rule.next after cap := by
  have alsoValid := valid_onStartWeekday valid
  have startCovered := covers_start_of_strides strides
  by_cases early : after.Before plan.start
  · rw [next_of_startsAfter valid cap aware ⟨early, startCovered⟩,
      next_of_startsAfter alsoValid cap aware
        ⟨early, (covers_onStartWeekday strides _).mpr startCovered⟩]
    rfl
  · rcases aligned with starts | ⟨first, begun, covered⟩
    · exact absurd starts early
    · rw [next_of_not_startsAfter valid cap aware (fun starts => early starts.1),
        next_of_not_startsAfter alsoValid cap aware
          (fun starts => early starts.1)]
      exact searchFrom_onStartWeekday valid strides aware begun covered cap

/-- Strides from any other day do not come to an occurrence. -/
theorem not_found_of_not_aligned (valid : plan.Valid)
    (strides : plan.Strides) {after result : Moment} {cap : Int}
    (aware : after.isAware = plan.start.isAware)
    (unaligned : ¬ plan.AlignedAfter after) :
    plan.rule.next after cap ≠ .ok (.found result) := by
  rw [Ne, next_eq_found_iff valid aware]
  rintro (⟨starts, -⟩ | ⟨-, -, first, begun, _, -, -, reached, -, covered⟩)
  · exact unaligned (.inl starts.1)
  · exact unaligned (.inr ⟨first, begun,
      (covers_candidate_iff valid strides reached).mp covered⟩)

/-! ## Replies -/

/--
An accepted weekly draft that selects no weekday goes by strides.  With the
weekday of its start selected it is still accepted and matches the same days,
but goes day by day.

For a range and for a search both answer the same if the first candidate
matches, or if the answer is the start; if not, the strides find nothing.
-/
theorem strides_agree_with_scan {draft : Draft} {plan : Plan}
    (accepted : draft.validate = .ok plan) (strides : plan.Strides) :
    (draft.onWeekday plan.start.weekday).validate =
        .ok plan.onStartWeekday ∧
    (draft.onWeekday plan.start.weekday).read.isMatch =
        draft.read.isMatch ∧
    draft.read.strategy = .ok .jump ∧
    (draft.onWeekday plan.start.weekday).read.strategy = .ok .dayScan ∧
    (∀ first last limit strode scanned,
      draft.read.occurrencesBetween first last limit = ⟨.ok strode, []⟩ →
      (draft.onWeekday plan.start.weekday).read.occurrencesBetween first last
          limit = ⟨.ok scanned, []⟩ →
        (plan.Covers (plan.rangeStart first) → strode = scanned) ∧
        (¬ plan.Covers (plan.rangeStart first) → strode = [])) ∧
    (∀ after cap strode scanned,
      (draft.read.nextReply after cap).outcome = .ok strode →
      ((draft.onWeekday plan.start.weekday).read.nextReply after cap).outcome =
          .ok scanned →
        (plan.AlignedAfter after → strode = scanned) ∧
        (¬ plan.AlignedAfter after → strode = none)) := by
  have valid := valid_of_validate accepted
  have alsoValid := valid_onStartWeekday valid
  have alsoAccepted := validate_onWeekday accepted
  rw [read_of_validate accepted, read_of_validate alsoAccepted]
  refine ⟨alsoAccepted, isMatch_onStartWeekday valid strides, ?_, ?_, ?_, ?_⟩
  · exact congrArg Except.ok (if_neg (not_scans_of_strides strides))
  · exact congrArg Except.ok (if_pos (scans_onStartWeekday strides))
  · intro first last limit strode scanned returned alsoReturned
    rcases exists_rangeRun valid (plan.rangeStart first) last with
      ⟨run, isRun⟩
    rcases exists_rangeRun alsoValid (plan.rangeStart first) last with
      ⟨scan, isScan⟩
    have strodeEq := eq_firstMatches_of_silent valid returned isRun
    have scannedEq := eq_firstMatches_of_silent alsoValid alsoReturned isScan
    constructor
    · intro covered
      rw [strodeEq, scannedEq]
      exact firstMatches_of_covers valid strides covered isRun isScan _
    · intro uncovered
      rw [strodeEq]
      exact firstMatches_of_uncovered valid strides uncovered isRun _
  · intro after cap strode scanned returned alsoReturned
    rcases next_of_nextReply returned with ⟨finding, searched, rfl⟩
    rcases next_of_nextReply alsoReturned with ⟨other, alsoSearched, rfl⟩
    have aware := aware_of_next searched
    constructor
    · intro aligned
      rw [next_onStartWeekday valid strides aware aligned, searched]
        at alsoSearched
      cases alsoSearched
      rfl
    · intro unaligned
      cases finding with
      | found result =>
          exact absurd searched
            (not_found_of_not_aligned valid strides aware unaligned)
      | ended => rfl
      | gaveUp => rfl

/-- Every second Monday from 15 January 2024 to 20 February. -/
def secondMondays : Draft where
  frequency := .odd (.text "weekly")
  start := .moment { ticks := 63840873600000000, offset := none }
  interval := .whole 2
  deadline := .moment { ticks := 63843984000000000, offset := none }

/-- The plan of `secondMondays`. -/
def secondMondaysPlan : Plan where
  frequency := .weekly
  start := { ticks := 63840873600000000, offset := none }
  interval := 2
  deadline := some { ticks := 63843984000000000, offset := none }

/-- Midnight of the second of these Mondays, 29 January 2024. -/
def secondMonday : Moment where
  ticks := 63842083200000000
  offset := none

/-- Midnight of the day before `secondMonday`. -/
def lastSunday : Moment where
  ticks := 63841996800000000
  offset := none

/-- Midnight of the Sunday between two of these Mondays, 21 January 2024. -/
def sundayBetween : Moment where
  ticks := 63841392000000000
  offset := none

/-- Midnight of the day after the start, 16 January 2024. -/
def dayAfterStart : Moment where
  ticks := 63840960000000000
  offset := none

/-- Midnight of 31 January 2024. -/
def lastOfJanuary : Moment where
  ticks := 63842256000000000
  offset := none

theorem strides_agree_with_scan_mondays :
    secondMondays.validate = .ok secondMondaysPlan ∧
    secondMondaysPlan.Strides ∧
    (∃ strode scanned,
      secondMondays.read.occurrencesBetween newYear lastOfJanuary 5 =
          ⟨.ok strode, []⟩ ∧
        (secondMondays.onWeekday 1).read.occurrencesBetween newYear
          lastOfJanuary 5 = ⟨.ok scanned, []⟩ ∧
        strode.length = 2 ∧ strode = scanned) ∧
    (∃ strode scanned,
      (secondMondays.read.nextReply lastSunday).outcome = .ok strode ∧
        ((secondMondays.onWeekday 1).read.nextReply lastSunday).outcome =
          .ok scanned ∧
        strode = some secondMonday ∧ strode = scanned) := by
  have accepted : secondMondays.validate = .ok secondMondaysPlan := rfl
  have strides : secondMondaysPlan.Strides := ⟨rfl, rfl⟩
  rcases strides_agree_with_scan accepted strides with
    ⟨-, -, -, -, ranges, searches⟩
  refine ⟨accepted, strides, ⟨_, _, rfl, rfl, rfl, ?_⟩,
    ⟨_, _, rfl, rfl, rfl, ?_⟩⟩
  · have begins : secondMondaysPlan.Covers
        (secondMondaysPlan.rangeStart newYear) := by decide
    exact (ranges newYear lastOfJanuary 5 _ _ rfl rfl).1 begins
  · have aligned : secondMondaysPlan.AlignedAfter lastSunday :=
      .inr ⟨secondMonday, rfl, by decide⟩
    exact (searches lastSunday Rule.defaultCap _ _ rfl rfl).1 aligned

/-- From a day between, strides pass by every Monday that a scan finds. -/
theorem strides_lose_mondays :
    secondMondays.validate = .ok secondMondaysPlan ∧
    secondMondaysPlan.frequency = .weekly ∧
    secondMondaysPlan.byWeekday = [] ∧
    secondMondaysPlan.start.weekday = 1 ∧
    secondMondays.read.occurrencesBetween dayAfterStart lastOfJanuary 5 =
      ⟨.ok [], []⟩ ∧
    (secondMondays.onWeekday 1).read.occurrencesBetween dayAfterStart
      lastOfJanuary 5 = ⟨.ok [secondMonday], []⟩ ∧
    secondMondays.read.nextReply sundayBetween = ⟨.ok none, []⟩ ∧
    (secondMondays.onWeekday 1).read.nextReply sundayBetween =
      ⟨.ok (some secondMonday), []⟩ :=
  ⟨rfl, rfl, rfl, rfl, rfl, rfl, rfl, rfl⟩

end Timetable
