import Mathlib.Data.List.TakeWhile
import Timetable.Proofs.Calendar.Rollover
import Timetable.Proofs.Rule.Agreement
import Timetable.Proofs.Rule.Weekly

/-!
# Where jumps land

Where no selection picks days, the candidates are whole intervals apart.  Weeks
lead from a match to a match.  So do months and years as long as the day of the
month is kept; once it rolled over, all candidates from there on lie in the
month after the one that was aimed at.

That one month matters to a monthly plan whose interval is two months or more,
and to no other: an interval of one month is met in every month, and a rollover
never leads out of a year, since December has all days.  So
`candidate_matches_iff` tells apart the candidates that match and those that do
not, and the former are the first ones.
-/

namespace Timetable

open Timetable.Calendar

variable {plan : Plan}

/-- A step of a monthly plan up to some candidate left its interval. -/
def Plan.Drifted (plan : Plan) (index : Nat) : Prop :=
  plan.frequency = .monthly ∧ 2 ≤ plan.interval ∧
    plan.start.LackedDay plan.interval.toNat index

instance (plan : Plan) (index : Nat) : Decidable (plan.Drifted index) :=
  inferInstanceAs (Decidable (_ ∧ _ ∧ _))

/-- There is no way back. -/
theorem Plan.Drifted.mono {index further : Nat}
    (drifted : plan.Drifted index) (ordered : index ≤ further) :
    plan.Drifted further := by
  rcases drifted with ⟨monthly, several, lacked⟩
  exact ⟨monthly, several, lacked.mono ordered⟩

/-! ## Months and years -/

theorem covers_iff_of_monthly (jumps : ¬ plan.Scans)
    (monthly : plan.frequency = .monthly) {moment : Moment} :
    plan.Covers moment ↔
      OnInterval plan.interval (plan.start.monthsBetween moment) := by
  have unset : plan.byMonthDay = [] := by
    simpa only [monthly] using unset_of_not_scans jumps
  rw [Plan.Covers, monthly]
  exact and_iff_left (.inl unset)

theorem covers_iff_of_yearly (jumps : ¬ plan.Scans)
    (yearly : plan.frequency = .yearly) {moment : Moment} :
    plan.Covers moment ↔
      OnInterval plan.interval (plan.start.yearsBetween moment) := by
  have unset : plan.byMonth = [] ∧ plan.byMonthDay = [] := by
    simpa only [yearly] using unset_of_not_scans jumps
  rw [Plan.Covers, yearly]
  exact and_iff_left ⟨.inl unset.1, .inl unset.2⟩

/-- The number of months from a candidate of a monthly or yearly plan on. -/
def Plan.monthStride (plan : Plan) : Int :=
  if plan.frequency = .yearly then plan.interval * 12 else plan.interval

theorem Plan.Valid.toNat_interval (valid : plan.Valid) :
    (plan.interval.toNat : Int) = plan.interval := by
  have positive := valid.interval
  omega

theorem Plan.Valid.monthStride_pos (valid : plan.Valid) :
    1 ≤ plan.monthStride := by
  have positive := valid.interval
  rw [Plan.monthStride]
  split <;> omega

theorem add_eq_addMonths
    (inMonths : plan.frequency = .monthly ∨ plan.frequency = .yearly)
    (moment : Moment) (times : Int) :
    moment.add (times * plan.interval) plan.frequency.unit =
      moment.addMonths (times * plan.monthStride) := by
  rcases inMonths with monthly | yearly
  · rw [Plan.monthStride, monthly]
    rfl
  · rw [Plan.monthStride, yearly, if_pos rfl, ← Int.mul_assoc]
    rfl

theorem addMonths_of_nextCandidate (jumps : ¬ plan.Scans)
    (inMonths : plan.frequency = .monthly ∨ plan.frequency = .yearly)
    {candidate next : Moment}
    (moved : plan.rule.nextCandidate candidate = .ok next) :
    candidate.addMonths plan.monthStride = .ok next := by
  have one := add_eq_addMonths inMonths candidate 1
  rw [Int.one_mul, Int.one_mul] at one
  rwa [nextCandidate_of_not_scans jumps, stepped_eq_ok_iff, one] at moved

section Months

variable {first candidate : Moment} {index : Nat}

theorem monthsBetween_candidate_of_monthly (valid : plan.Valid)
    (jumps : ¬ plan.Scans) (monthly : plan.frequency = .monthly)
    (reached : walk plan.rule.nextCandidate first index = .ok candidate) :
    first.monthsBetween candidate = index * plan.interval +
      if first.LackedDay plan.interval.toNat index then 1 else 0 := by
  have months : (plan.interval.toNat : Int) = plan.monthStride := by
    rw [Plan.monthStride, monthly, valid.toNat_interval]
    rfl
  rw [← valid.toNat_interval]
  refine Moment.monthsBetween_walk ?_ reached
  intro candidate next moved
  rw [months]
  exact addMonths_of_nextCandidate jumps (.inl monthly) moved

theorem dvd_succ_iff {interval multiple : Int} (positive : 1 ≤ interval)
    (divides : interval ∣ multiple) :
    interval ∣ multiple + 1 ↔ ¬ 2 ≤ interval := by
  rw [Int.dvd_add_right divides]
  constructor
  · intro one several
    have small := Int.le_of_dvd (by decide) one
    omega
  · intro single
    have one : interval = 1 := by omega
    rw [one]

theorem covers_candidate_of_monthly (valid : plan.Valid)
    (jumps : ¬ plan.Scans) (monthly : plan.frequency = .monthly)
    (reached : walk plan.rule.nextCandidate plan.start index =
      .ok candidate) :
    plan.Covers candidate ↔ ¬ plan.Drifted index := by
  have positive := valid.interval
  have months :=
    monthsBetween_candidate_of_monthly valid jumps monthly reached
  have ⟨climbed, whole⟩ := onInterval_multiple positive index
  rw [covers_iff_of_monthly jumps monthly, months, Plan.Drifted, OnInterval]
  by_cases lacked : plan.start.LackedDay plan.interval.toNat index
  · rw [if_pos lacked, dvd_succ_iff positive whole]
    simp [monthly, lacked]
    omega
  · rw [if_neg lacked, Int.add_zero]
    simp [lacked, climbed, whole]

/-- A rollover does not lead into another year. -/
theorem yearsBetween_candidate {years : Nat}
    (strides : ∀ {candidate next : Moment},
      plan.rule.nextCandidate candidate = .ok next →
        candidate.addMonths (years * 12 : Nat) = .ok next)
    (reached : walk plan.rule.nextCandidate first index = .ok candidate) :
    first.yearsBetween candidate = index * years := by
  have months := Moment.monthsBetween_walk strides reached
  have ⟨_, _, monthPositive, monthBound, _, _⟩ := first.date_valid
  have ⟨_, _, positive, bound, _, _⟩ := candidate.date_valid
  have whole : index * (years * 12) = index * years * 12 :=
    (Nat.mul_assoc _ _ _).symm
  -- A rollover out of a December would be one from a month of 31 days.
  have early : first.LackedDay (years * 12) index →
      first.date.month < 12 := by
    rintro ⟨earlier, -, lacks⟩
    by_contra late
    have december : (first.date.monthNumber +
        earlier * (years * 12)) % 12 = 11 := by
      rw [← Nat.mul_assoc, Nat.add_mul_mod_self_right, Date.monthNumber]
      omega
    rw [Moment.LacksDay, monthLength_of_december december] at lacks
    have short := first.date_valid.day_le
    omega
  rw [← Int.natCast_mul, whole] at months
  rw [Moment.yearsBetween, ← Int.natCast_mul]
  simp only [Moment.monthsBetween, Date.monthNumber] at months
  split at months
  · next lacked =>
      have inside := early lacked
      omega
  · omega

theorem yearsBetween_candidate_of_yearly (valid : plan.Valid)
    (jumps : ¬ plan.Scans) (yearly : plan.frequency = .yearly)
    (reached : walk plan.rule.nextCandidate first index = .ok candidate) :
    first.yearsBetween candidate = index * plan.interval := by
  have months : ((plan.interval.toNat * 12 : Nat) : Int) =
      plan.monthStride := by
    rw [Plan.monthStride, yearly, if_pos rfl, Int.natCast_mul,
      valid.toNat_interval]
    rfl
  rw [← valid.toNat_interval]
  refine yearsBetween_candidate ?_ reached
  intro candidate next moved
  rw [months]
  exact addMonths_of_nextCandidate jumps (.inr yearly) moved

theorem covers_candidate_of_yearly (valid : plan.Valid)
    (jumps : ¬ plan.Scans) (yearly : plan.frequency = .yearly)
    (reached : walk plan.rule.nextCandidate plan.start index =
      .ok candidate) :
    plan.Covers candidate := by
  have years := yearsBetween_candidate_of_yearly valid jumps yearly reached
  rw [covers_iff_of_yearly jumps yearly, years]
  exact onInterval_multiple valid.interval index

end Months

/-! ## All candidates -/

theorem covers_candidate_of_weekly (valid : plan.Valid)
    (jumps : ¬ plan.Scans) (weekly : plan.frequency = .weekly)
    {candidate : Moment} {index : Nat}
    (reached : walk plan.rule.nextCandidate plan.start index =
      .ok candidate) :
    plan.Covers candidate := by
  have strides : plan.Strides :=
    ⟨weekly, by simpa only [weekly] using unset_of_not_scans jumps⟩
  exact (covers_candidate_iff valid strides reached).mpr
    (covers_start_of_strides strides)

/-- Candidates match until one of them drifted. -/
theorem covers_candidate_iff_not_drifted (valid : plan.Valid)
    (jumps : ¬ plan.Scans) {candidate : Moment} {index : Nat}
    (reached : walk plan.rule.nextCandidate plan.start index =
      .ok candidate) :
    plan.Covers candidate ↔ ¬ plan.Drifted index := by
  cases frequency : plan.frequency with
  | daily =>
      have scans : plan.Scans := by
        rw [Plan.Scans, frequency]
        rfl
      exact absurd scans jumps
  | weekly =>
      simp [covers_candidate_of_weekly valid jumps frequency reached,
        Plan.Drifted, frequency]
  | monthly =>
      exact covers_candidate_of_monthly valid jumps frequency reached
  | yearly =>
      simp [covers_candidate_of_yearly valid jumps frequency reached,
        Plan.Drifted, frequency]

/-! ## Ranges -/

/-- A filter that drops all members behind one it drops takes the first ones. -/
theorem filter_eq_takeWhile {α : Type} {keeps : α → Bool} {items : List α}
    (closed : items.Pairwise fun earlier later =>
      keeps later = true → keeps earlier = true) :
    items.filter keeps = items.takeWhile keeps := by
  induction items with
  | nil => rfl
  | cons item rest induction =>
      rcases List.pairwise_cons.mp closed with ⟨behind, restClosed⟩
      by_cases kept : keeps item = true
      · rw [List.filter_cons_of_pos kept, List.takeWhile_cons_of_pos kept,
          induction restClosed]
      · rw [List.filter_cons_of_neg kept, List.takeWhile_cons_of_neg kept,
          List.filter_eq_nil_iff]
        exact fun other member keptLater =>
          kept (behind other member keptLater)

/-- In a run of jumps from the start on, a match comes after matches only. -/
theorem pairwise_covers_run (valid : plan.Valid) (jumps : ¬ plan.Scans)
    {inside : Moment → Prop} {run : List Moment}
    (isRun : InitialRun plan.rule.nextCandidate inside plan.start run) :
    run.Pairwise fun earlier later =>
      plan.Covers later → plan.Covers earlier := by
  rw [List.pairwise_iff_getElem]
  intro index further inRun furtherInRun ordered covered
  rw [covers_candidate_iff_not_drifted valid jumps
    (isRun.reached further furtherInRun)] at covered
  rw [covers_candidate_iff_not_drifted valid jumps
    (isRun.reached index inRun)]
  exact fun drifted => covered (drifted.mono (Nat.le_of_lt ordered))

theorem firstMatches_of_jumps (valid : plan.Valid) (jumps : ¬ plan.Scans)
    {inside : Moment → Prop} {run : List Moment}
    (isRun : InitialRun plan.rule.nextCandidate inside plan.start run)
    {room budget : Nat} (enough : room ≤ budget) :
    plan.firstMatches room (run.take budget) =
      (run.takeWhile fun candidate => plan.Covers candidate).take room := by
  have closed := (pairwise_covers_run valid jumps isRun).sublist
    (List.take_sublist budget run)
  rw [Plan.firstMatches, filter_eq_takeWhile (by simpa using closed),
    ← List.take_takeWhile, List.take_take, Nat.min_eq_left enough]

/--
An accepted draft whose candidates are whole intervals apart matches every
candidate from its start on, unless it is monthly with an interval of two months
or more and one of the months stepped to so far lacks the day of the start.

A range that begins no later than the start lists the candidates in it up to the
first that drifted, as many as asked for.
-/
theorem candidate_matches_iff {draft : Draft} {plan : Plan}
    (accepted : draft.validate = .ok plan)
    (jumps : draft.read.strategy = .ok .jump) :
    (∀ index candidate,
      walk draft.read.nextCandidate plan.start index = .ok candidate →
        draft.read.isMatch candidate =
          .ok (decide (¬ plan.Drifted index))) ∧
    (∀ first last limit result, first.NotAfter plan.start →
      (draft.read.occurrencesBetween first last limit).outcome =
        .ok result →
      ∃ run,
        InitialRun draft.read.nextCandidate (plan.Within last) plan.start
          run ∧
        result = (run.takeWhile fun candidate =>
          draft.read.isMatch candidate = .ok true).take limit.toNat ∧
        ((∀ index < run.length, ¬ plan.Drifted index) →
          result = run.take limit.toNat)) := by
  have valid := valid_of_validate accepted
  rw [read_of_validate accepted] at jumps ⊢
  have notScans := strategy_eq_jump_iff.mp jumps
  have decided {index : Nat} {candidate : Moment}
      (reached : walk plan.rule.nextCandidate plan.start index =
        .ok candidate) :
      plan.rule.isMatch candidate =
        .ok (decide (¬ plan.Drifted index)) := by
    rw [isMatch_rule valid, decide_eq_decide.mpr
      (covers_candidate_iff_not_drifted valid notScans reached)]
  refine ⟨fun index candidate reached => decided reached, ?_⟩
  intro first last limit result early returned
  rcases exists_rangeRun valid plan.start last with ⟨run, isRun⟩
  -- As all matches come first, no budget ends the range before the limit does.
  have listed : result = (run.takeWhile fun candidate =>
      plan.rule.isMatch candidate = .ok true).take limit.toNat := by
    have started := rangeStart_of_notAfter early
    have enough : limit.toNat ≤
        (limit * Rule.candidatesPerOccurrence).toNat := by
      simp only [Rule.candidatesPerOccurrence]
      omega
    have gathered :=
      (eq_firstMatches_of_returned valid returned (started ▸ isRun)).1
    simp only [isMatch_rule valid, Except.ok.injEq, decide_eq_true_eq]
    rw [gathered, firstMatches_of_jumps valid notScans isRun enough]
  refine ⟨run, isRun, listed, fun never => ?_⟩
  rw [listed, List.takeWhile_eq_self_iff.mpr]
  intro candidate member
  rcases List.mem_iff_getElem.mp member with ⟨index, bound, rfl⟩
  rw [decided (isRun.reached index bound)]
  simp [never index bound]

/-- Every month from 31 January 2024 on. -/
def lastDays : Draft where
  frequency := .odd (.text "monthly")
  start := .moment lastOfJanuary

/-- The plan of `lastDays`. -/
def lastDaysPlan : Plan where
  frequency := .monthly
  start := lastOfJanuary

/-- Midnight of 2 March 2024. -/
def secondOfMarch : Moment where
  ticks := 63844934400000000
  offset := none

/-- Midnight of 2 April 2024. -/
def secondOfApril : Moment where
  ticks := 63847612800000000
  offset := none

/-- Midnight of 2 May 2024. -/
def secondOfMay : Moment where
  ticks := 63850204800000000
  offset := none

/-- Midnight of 30 April 2024. -/
def lastOfApril : Moment where
  ticks := 63850032000000000
  offset := none

theorem candidate_matches_iff_lastDays :
    lastDays.validate = .ok lastDaysPlan ∧
    lastDays.read.strategy = .ok .jump ∧
    lastDaysPlan.start.LackedDay 1 2 ∧
    walk lastDays.read.nextCandidate lastOfJanuary 2 = .ok secondOfApril ∧
    lastDays.read.isMatch secondOfApril = .ok true ∧
    lastOfJanuary.NotAfter lastDaysPlan.start ∧
    ∃ result run,
      (lastDays.read.occurrencesBetween lastOfJanuary lastOfApril 5).outcome =
          .ok result ∧
        InitialRun lastDays.read.nextCandidate
          (lastDaysPlan.Within lastOfApril) lastOfJanuary run ∧
        run = [lastOfJanuary, secondOfMarch, secondOfApril] ∧
        result = run.take 5 := by
  have accepted : lastDays.validate = .ok lastDaysPlan := rfl
  have jumps : lastDays.read.strategy = .ok .jump := rfl
  have isRun : InitialRun lastDays.read.nextCandidate
      (lastDaysPlan.Within lastOfApril) lastOfJanuary
      [lastOfJanuary, secondOfMarch, secondOfApril] := by
    have first : lastDays.read.nextCandidate lastOfJanuary =
        .ok secondOfMarch := rfl
    have second : lastDays.read.nextCandidate secondOfMarch =
        .ok secondOfApril := rfl
    have third : lastDays.read.nextCandidate secondOfApril =
        .ok secondOfMay := rfl
    exact .of_next (by decide) first (.of_next (by decide) second
      (.of_next (by decide) third (.of_outside (by decide))))
  have reached : walk lastDays.read.nextCandidate lastOfJanuary 2 =
      .ok secondOfApril := isRun.reached 2 (by decide)
  have early : lastOfJanuary.NotAfter lastDaysPlan.start := by decide
  have returned : (lastDays.read.occurrencesBetween lastOfJanuary lastOfApril
      5).outcome = .ok [lastOfJanuary, secondOfMarch, secondOfApril] := rfl
  rcases candidate_matches_iff accepted jumps with ⟨matching, ranges⟩
  rcases ranges _ _ _ _ early returned with ⟨run, isAlsoRun, -, complete⟩
  rcases isRun.unique isAlsoRun with rfl
  exact ⟨accepted, jumps, by decide, reached, matching 2 _ reached, early, _,
    _, returned, isRun, rfl, complete (by decide)⟩

/-- Midnight of 31 December 2024. -/
def newYearsEve : Moment where
  ticks := 63871200000000000
  offset := none

/-- Midnight of 3 March 2025, two months later. -/
def thirdOfMarch : Moment where
  ticks := 63876556800000000
  offset := none

/-- Midnight of 31 March 2025. -/
def lastOfMarch : Moment where
  ticks := 63878976000000000
  offset := none

/-- Every second month from 31 December 2024 on. -/
def secondMonths : Draft where
  frequency := .odd (.text "monthly")
  start := .moment newYearsEve
  interval := .whole 2

/-- The second candidate drifted: it does not match, and no range lists it. -/
theorem secondMonths_drift :
    secondMonths.passes = .ok true ∧
    secondMonths.read.strategy = .ok .jump ∧
    walk secondMonths.read.nextCandidate newYearsEve 1 = .ok thirdOfMarch ∧
    secondMonths.read.isMatch thirdOfMarch = .ok false ∧
    secondMonths.read.occurrencesBetween newYearsEve lastOfMarch 5 =
      ⟨.ok [newYearsEve], []⟩ :=
  ⟨rfl, rfl, rfl, rfl, rfl⟩

end Timetable
