import Timetable.Proofs.Rule.Range
import Timetable.Proofs.Rule.Scan

/-!
# Ranges and searches agree

A range that begins no later than the start of a plan looks at every day from
the start on, and so does a search from one of its occurrences.  What is
gathered is therefore what searches come upon one after the other: between two
neighbours no day is covered (`idle_between`), and behind the last one the
search comes to no other that is still in the range.

The two have different caps.  The next member of a range can be too far for a
search, which then answers that there is none.
-/

namespace Timetable

open Timetable.Calendar

variable {plan : Plan}

theorem rangeStart_of_notAfter {moment : Moment}
    (early : moment.NotAfter plan.start) :
    plan.rangeStart moment = plan.start :=
  if_neg ((Moment.not_before_iff early.1.symm).mpr early)

/-- Nothing lies between two neighbours of an ascending list. -/
theorem outside_of_pairwise {α : Type} {less : α → α → Prop}
    {before after : List α} {left right other : α}
    (ascending : (before ++ left :: right :: after).Pairwise less)
    (member : other ∈ before ++ left :: right :: after) :
    less other left ∨ other = left ∨ other = right ∨ less right other := by
  rcases List.pairwise_append.mp ascending with ⟨-, later, across⟩
  rcases List.mem_append.mp member with earlier | member
  · exact .inl (across other earlier left List.mem_cons_self)
  · have behind := (List.pairwise_cons.mp (List.pairwise_cons.mp later).2).1
    rcases List.mem_cons.mp member with rfl | member
    · exact .inr (.inl rfl)
    · rcases List.mem_cons.mp member with rfl | member
      · exact .inr (.inr (.inl rfl))
      · exact .inr (.inr (.inr (behind other member)))

theorem before_last_of_pairwise {α : Type} {less : α → α → Prop}
    {items : List α} {final other : α} (ascending : items.Pairwise less)
    (last : items.getLast? = some final) (member : other ∈ items) :
    less other final ∨ other = final := by
  rcases List.getLast?_eq_some_iff.mp last with ⟨before, rfl⟩
  rcases List.mem_append.mp member with earlier | same
  · have across := (List.pairwise_append.mp ascending).2.2
    exact .inl (across other earlier final (List.mem_singleton.mpr rfl))
  · exact .inr (List.mem_singleton.mp same)

/-! ## Runs of days -/

section Run

variable {first last : Moment} {run : List Moment}

/-- A run of days holds the days within the range. -/
theorem mem_run_iff_of_scans (valid : plan.Valid) (scans : plan.Scans)
    (isRun : InitialRun plan.rule.nextCandidate (plan.Within last) first run)
    {candidate : Moment} :
    candidate ∈ run ↔
      (first.dayNumber ≤ candidate.dayNumber ∧
        candidate.clock = first.clock ∧ candidate.offset = first.offset) ∧
        plan.Within last candidate := by
  simp only [mem_run_iff valid isRun, candidate_eq_ok_iff_of_scans scans,
    exists_and_right]
  refine and_congr_left' (and_congr_left' ⟨?_, Nat.exists_eq_add_of_le⟩)
  rintro ⟨index, day⟩
  omega

/-- The first candidates of a run of days are the ones on the first days. -/
theorem mem_take_run_iff_of_scans (scans : plan.Scans)
    (isRun : InitialRun plan.rule.nextCandidate (plan.Within last) first run)
    {candidate : Moment} {budget : Nat} :
    candidate ∈ run.take budget ↔
      candidate ∈ run ∧
        candidate.dayNumber < first.dayNumber + budget := by
  have day (index : Nat) (bound : index < run.length) :
      run[index].dayNumber = first.dayNumber + index :=
    ((candidate_eq_ok_iff_of_scans scans).mp
      (isRun.reached index bound)).1
  constructor
  · intro member
    rcases List.mem_take_iff_getElem.mp member with ⟨index, bound, rfl⟩
    have inRun : index < run.length := by omega
    exact ⟨List.getElem_mem inRun, by have := day index inRun; omega⟩
  · rintro ⟨member, near⟩
    rcases List.mem_iff_getElem.mp member with ⟨index, bound, rfl⟩
    rw [day index bound] at near
    exact List.mem_take_iff_getElem.mpr ⟨index, by omega, rfl⟩

/-- No day is covered between two that are gathered one after the other. -/
theorem idle_between (valid : plan.Valid) (scans : plan.Scans)
    (isRun : InitialRun plan.rule.nextCandidate (plan.Within last) first run)
    {room budget : Nat} {before after : List Moment} {left right : Moment}
    (gathered : plan.firstMatches room (run.take budget) =
      before ++ left :: right :: after) :
    plan.Idle (left.dayNumber + 1) right.dayNumber := by
  intro moment later earlier covered
  have members := (firstMatches_sublist plan room (run.take budget)).subset
  rw [gathered] at members
  have leftMember : left ∈ run.take budget := members (by simp)
  have rightMember : right ∈ run.take budget := members (by simp)
  rcases (mem_take_run_iff_of_scans scans isRun).mp leftMember with
    ⟨leftInRun, -⟩
  rcases (mem_run_iff_of_scans valid scans isRun).mp leftInRun with
    ⟨⟨leftDay, -, -⟩, -⟩
  rcases (mem_take_run_iff_of_scans scans isRun).mp rightMember with
    ⟨rightInRun, near⟩
  rcases (mem_run_iff_of_scans valid scans isRun).mp rightInRun with
    ⟨⟨-, rightClock, rightOffset⟩, within⟩
  rcases right.exists_onDay moment.dayNumber_lt with
    ⟨candidate, day, clock, offset⟩
  obtain ⟨rest, whole⟩ : plan.firstMatches room (run.take budget) <+:
      (run.take budget).filter fun candidate => plan.Covers candidate :=
    List.take_prefix _ _
  rw [gathered, List.append_assoc, List.cons_append, List.cons_append]
    at whole
  have ascending := (pairwise_daysBefore_run valid isRun).sublist
    (List.filter_sublist.trans (List.take_sublist budget run) :
      ((run.take budget).filter fun candidate =>
        plan.Covers candidate).Sublist run)
  -- The candidate on the day would be a match, with no place among them.
  have isMatch : candidate ∈
      (run.take budget).filter fun candidate => plan.Covers candidate := by
    have beforeRight : candidate.Before right :=
      Moment.before_of_dayNumber_lt offset (by omega)
    have alsoInRun : candidate ∈ run :=
      (mem_run_iff_of_scans valid scans isRun).mpr
        ⟨⟨by omega, clock.trans rightClock, offset.trans rightOffset⟩,
          within.of_notAfter beforeRight.notAfter⟩
    exact List.mem_filter.mpr
      ⟨(mem_take_run_iff_of_scans scans isRun).mpr ⟨alsoInRun, by omega⟩,
        decide_eq_true ((covers_congr_day day).mpr covered)⟩
  rw [← whole] at isMatch ascending
  rcases outside_of_pairwise ascending isMatch with
    beforeLeft | rfl | rfl | afterRight
  · have := beforeLeft.day
    omega
  · omega
  · omega
  · have := afterRight.day
    omega

end Run

/-! ## Searches from the members of a range -/

/-- What is gathered from the start on is not before the start, and occurs. -/
theorem occurs_of_gathered (valid : plan.Valid) (scans : plan.Scans)
    {last member : Moment} {room budget : Nat} {run : List Moment}
    (lastAware : last.isAware = plan.start.isAware)
    (isRun : InitialRun plan.rule.nextCandidate (plan.Within last) plan.start
      run)
    (gathered : member ∈ plan.firstMatches room (run.take budget)) :
    plan.start.NotAfter member ∧ member.clock = plan.start.clock ∧
      ¬ plan.Exceeded member ∧ plan.Covers member := by
  have inRun := List.mem_of_mem_take
    ((firstMatches_sublist _ _ _).subset gathered)
  rcases (mem_run_iff_of_scans valid scans isRun).mp inRun with
    ⟨⟨-, clock, -⟩, within⟩
  rcases (mem_run_iff valid isRun).mp inRun with ⟨⟨index, reached⟩, -⟩
  have begun := candidate_notAfter valid reached
  have notExceeded :=
    ((within_iff valid lastAware begun.1.symm).mp within).2
  exact ⟨begun, clock, notExceeded, covers_of_mem_firstMatches gathered⟩

/-- The search from a member finds the next one, or gives up before it. -/
theorem next_of_consecutive (valid : plan.Valid) (scans : plan.Scans)
    {last : Moment} {room budget : Nat} {run before after : List Moment}
    {left right : Moment} (cap : Int)
    (lastAware : last.isAware = plan.start.isAware)
    (isRun : InitialRun plan.rule.nextCandidate (plan.Within last) plan.start
      run)
    (gathered : plan.firstMatches room (run.take budget) =
      before ++ left :: right :: after) :
    plan.rule.next left cap =
      .ok (if left.daysBetween right ≤ cap then .found right
        else .gaveUp) := by
  have ascending := (pairwise_daysBefore_run valid isRun).sublist
    ((firstMatches_sublist plan room _).trans (List.take_sublist budget _))
  rw [gathered] at ascending
  have ordered : left.DaysBefore right :=
    (List.pairwise_cons.mp (List.pairwise_append.mp ascending).2.1).1 _
      List.mem_cons_self
  obtain ⟨begun, -, -, -⟩ :=
    occurs_of_gathered valid scans lastAware isRun
      (by rw [gathered]; simp : left ∈ _)
  obtain ⟨-, clock, notExceeded, covered⟩ :=
    occurs_of_gathered valid scans lastAware isRun
      (by rw [gathered]; simp : right ∈ _)
  exact next_of_first_covered valid scans begun ordered.day clock
    ordered.offset notExceeded covered
    (idle_between valid scans isRun gathered)

/-- Behind the last match of a run, a search leaves the range. -/
theorem beyond_of_last (valid : plan.Valid) (scans : plan.Scans)
    {last final later : Moment} {run : List Moment} {cap : Int}
    (lastAware : last.isAware = plan.start.isAware)
    (isRun : InitialRun plan.rule.nextCandidate (plan.Within last) plan.start
      run)
    (ends : (run.filter fun candidate => plan.Covers candidate).getLast? =
      some final)
    (found : plan.rule.next final cap = .ok (.found later)) :
    last.Before later := by
  have ascending := (pairwise_daysBefore_run valid isRun).filter
    fun candidate => plan.Covers candidate
  have inRun : final ∈ run :=
    List.mem_of_mem_filter (List.mem_of_getLast? ends)
  rcases (mem_run_iff_of_scans valid scans isRun).mp inRun with
    ⟨⟨finalDay, -, finalOffset⟩, -⟩
  rcases (mem_run_iff valid isRun).mp inRun with ⟨⟨index, reached⟩, -⟩
  have begun := candidate_notAfter valid reached
  rcases found_parts valid begun found with ⟨day, clock, offset⟩
  rcases found_sound valid begun.1.symm found with
    ⟨after, notExceeded, covered⟩
  have laterAware : later.isAware = plan.start.isAware :=
    after.1.symm.trans begun.1.symm
  by_contra notBeyond
  have within := (within_iff valid lastAware laterAware).mpr
    ⟨notBeyond, notExceeded⟩
  have laterInRun : later ∈ run :=
    (mem_run_iff_of_scans valid scans isRun).mpr
      ⟨⟨by omega, clock, offset.trans finalOffset⟩, within⟩
  have isMatch : later ∈
      run.filter fun candidate => plan.Covers candidate :=
    List.mem_filter.mpr ⟨laterInRun, decide_eq_true covered⟩
  rcases before_last_of_pairwise ascending ends isMatch with earlier | rfl
  · have := earlier.day
    omega
  · omega

/--
A range of an accepted draft that looks at all days and does not begin later
than the start agrees with searches from its members.

The search from a member answers the next one, unless that is more than 1000
days away.  If the range neither left a notice nor is full, the search from its
last member answers nothing, fails at the end of the calendar, or leaves the
range.
-/
theorem range_agrees_with_search {draft : Draft} {plan : Plan}
    {first last : Moment} {limit : Int} {result : List Moment}
    (accepted : draft.validate = .ok plan)
    (scans : draft.read.strategy = .ok .dayScan)
    (early : first.NotAfter plan.start)
    (returned : (draft.read.occurrencesBetween first last limit).outcome =
      .ok result) :
    (∀ before left right after, result = before ++ left :: right :: after →
      (draft.read.nextReply left).outcome =
        .ok (if left.daysBetween right ≤ 1000 then some right else none)) ∧
    ((draft.read.occurrencesBetween first last limit).notices = [] →
      (result.length : Int) < limit →
      ∀ final, result.getLast? = some final →
        (draft.read.nextReply final).outcome = .ok none ∨
        (∃ error, (draft.read.nextReply final).outcome =
          .error (.fault (.range error))) ∨
        ∃ later, (draft.read.nextReply final).outcome = .ok (some later) ∧
          last.Before later) := by
  have valid := valid_of_validate accepted
  rw [read_of_validate accepted] at scans returned ⊢
  rw [strategy_eq_dayScan_iff] at scans
  rcases exists_rangeRun valid plan.start last with ⟨run, isRun⟩
  have started := rangeStart_of_notAfter early
  obtain ⟨gathered, uncut⟩ :=
    eq_firstMatches_of_returned valid returned (started ▸ isRun)
  -- Without room for a member there is nothing to say.
  have lastAware {member : Moment} (present : member ∈ result) :
      last.isAware = plan.start.isAware := by
    have positive : 0 < limit := by
      by_contra none
      rw [Int.toNat_of_nonpos (by omega), firstMatches_zero] at gathered
      simp [gathered] at present
    rcases gather_of_occurrencesBetween returned with
      ⟨gathering, gathers, -, -⟩
    exact (aware_of_gather positive gathers).2
  constructor
  · rintro before left right after rfl
    have next := next_of_consecutive valid scans Rule.defaultCap
      (lastAware (by simp : left ∈ _)) isRun gathered.symm
    rw [nextReply_of_next next, Rule.defaultCap]
    split <;> rfl
  · intro silent notFull final ends
    have present := List.mem_of_getLast? ends
    have whole : result =
        run.filter fun candidate => plan.Covers candidate := by
      have length := congrArg List.length (uncut silent)
      rw [Plan.firstMatches, List.length_take] at length
      rw [uncut silent, Plan.firstMatches, List.take_of_length_le (by omega)]
    have begun := (occurs_of_gathered valid scans (lastAware present) isRun
      (gathered ▸ present)).1
    rw [whole] at ends
    cases searched : plan.rule.next final with
    | error fault =>
        rcases next_error valid begun.1.symm searched with ⟨error, rfl⟩
        exact .inr (.inl ⟨error, nextReply_of_fault searched⟩)
    | ok finding =>
        rw [nextReply_of_next searched]
        cases finding with
        | ended => exact .inl rfl
        | gaveUp => exact .inl rfl
        | found later =>
            exact .inr (.inr ⟨later, rfl, beyond_of_last valid scans
              (lastAware present) isRun ends searched⟩)

theorem range_agrees_with_search_epiphany :
    everySecondDay.validate = .ok everySecondDayPlan ∧
    everySecondDay.read.strategy = .ok .dayScan ∧
    newYear.NotAfter everySecondDayPlan.start ∧
    ∃ left right final,
      everySecondDay.read.occurrencesBetween newYear epiphany 4 =
          ⟨.ok [left, right, final], []⟩ ∧
        (everySecondDay.read.nextReply left).outcome = .ok (some right) ∧
        (everySecondDay.read.nextReply right).outcome = .ok (some final) ∧
        ((everySecondDay.read.nextReply final).outcome = .ok none ∨
          (∃ error, (everySecondDay.read.nextReply final).outcome =
            .error (.fault (.range error))) ∨
          ∃ later,
            (everySecondDay.read.nextReply final).outcome =
                .ok (some later) ∧
              epiphany.Before later) := by
  have accepted : everySecondDay.validate = .ok everySecondDayPlan := rfl
  have scans : everySecondDay.read.strategy = .ok .dayScan := rfl
  have early : newYear.NotAfter everySecondDayPlan.start := by decide
  have returned : everySecondDay.read.occurrencesBetween newYear epiphany 4 =
      ⟨.ok [{ ticks := 63839696400000000, offset := none },
        { ticks := 63839869200000000, offset := none },
        { ticks := 63840042000000000, offset := none }], []⟩ := rfl
  rcases range_agrees_with_search accepted scans early
    (congrArg Reply.outcome returned) with ⟨neighbours, atEnd⟩
  exact ⟨accepted, scans, early, _, _, _, returned,
    neighbours [] _ _ [_] rfl, neighbours [_] _ _ [] rfl,
    atEnd (congrArg Reply.notices returned) (by decide) _ rfl⟩

end Timetable
