import Timetable.Proofs.Chain
import Timetable.Proofs.Rule.Search

/-!
# The chain of occurrences

After an occurrence the chain searches on from one millisecond later.  A search
begins on the day after its pivot, so this pause makes no difference as long as
it does not lead to another day: `Rule.follow` is the chain without it, and
`answers_eq_follow_iff` compares the two.

They agree if the clock time of the start leaves room for the pause, with a
single exception on the last day of the calendar, where a deadline within the
pause ends a chain that would otherwise fail.  If there is no room, the pause
leads to the next day, and the search begins on the day after that one.  The
day that follows an occurrence is then never looked at.
-/

namespace Timetable

open Timetable.Calendar

variable {plan : Plan}

/-- The chain in which each search begins at the occurrence found before. -/
def Rule.follow (rule : Rule) : Advance Fault Progress Moment :=
  fun progress =>
    match rule.isExhausted progress.given with
    | .error fault => .error fault
    | .ok true => .ok .ended
    | .ok false =>
        match progress.last.elim rule.anchor .ok with
        | .error fault => .error fault
        | .ok pivot =>
            (rule.next pivot).map fun finding =>
              finding.map fun occurrence =>
                (occurrence, ⟨some occurrence, progress.given + 1⟩)

/-! ## Searches from one day -/

theorem firstCandidate_eq_error_iff {after : Moment} {fault : Fault} :
    plan.rule.firstCandidate after = .error fault ↔
      after.dayNumber + 1 = dayCount ∧ fault = .range .pastEdge := by
  have inside := after.dayNumber_lt
  have failed : plan.rule.firstCandidate after = .error fault ↔
      ∃ failure, after.addDays 1 = .error failure ∧
        fault = .range failure := by
    rw [Rule.firstCandidate]
    cases after.addDays 1 <;>
      simp [stepped, Except.mapError, Except.map, eq_comm]
  simp only [failed, Moment.addDays, Moment.onDay_eq_error_iff]
  constructor
  · rintro ⟨failure, ⟨beyond, rfl⟩, rfl⟩
    exact ⟨by omega, rfl⟩
  · rintro ⟨last, rfl⟩
    exact ⟨.pastEdge, ⟨by omega, rfl⟩, rfl⟩

/-- The first candidate depends on the day of the pivot only. -/
theorem firstCandidate_congr {earlier later : Moment}
    (day : later.dayNumber = earlier.dayNumber)
    (offset : later.offset = earlier.offset) :
    plan.rule.firstCandidate later = plan.rule.firstCandidate earlier := by
  cases begun : plan.rule.firstCandidate earlier with
  | error fault =>
      rw [firstCandidate_eq_error_iff] at begun ⊢
      rwa [day]
  | ok first =>
      rw [firstCandidate_rule] at begun ⊢
      rwa [day, offset]

theorem not_startsAfter {after : Moment}
    (begun : plan.start.NotAfter after) : ¬ plan.StartsAfter after := by
  rintro ⟨early, -⟩
  exact (Moment.not_before_iff begun.1.symm).mpr begun early

theorem next_of_begun (valid : plan.Valid) {after : Moment}
    (begun : plan.start.NotAfter after) (cap : Int) :
    plan.rule.next after cap = plan.rule.searchFrom after cap :=
  next_of_not_startsAfter valid cap begun.1.symm (not_startsAfter begun)

/-- The deadline is later than one moment and not later than another. -/
def Plan.ExpiresBetween (plan : Plan) (earlier later : Moment) : Prop :=
  ∃ deadline ∈ plan.deadline,
    earlier.Before deadline ∧ ¬ later.Before deadline

/-- What a search begun at the start or later finds lies on a later day. -/
theorem found_parts (valid : plan.Valid) {after result : Moment} {cap : Int}
    (begun : plan.start.NotAfter after)
    (found : plan.rule.next after cap = .ok (.found result)) :
    after.dayNumber < result.dayNumber ∧
      result.clock = plan.start.clock ∧ result.offset = after.offset := by
  rcases (next_eq_found_iff valid begun.1.symm).mp found with
    ⟨starts, -⟩ | ⟨-, -, first, started, index, -, -, reached, -, -⟩
  · exact absurd starts (not_startsAfter begun)
  · rcases firstCandidate_rule.mp started with
      ⟨firstDay, firstClock, firstOffset⟩
    rcases candidate_parts valid reached with ⟨day, clock, offset⟩
    exact ⟨by omega, clock.trans firstClock, offset.trans firstOffset⟩

/-- Searches from two moments of a day agree unless the deadline is between. -/
theorem next_congr (valid : plan.Valid) {earlier later : Moment} {cap : Int}
    (begun : plan.start.NotAfter earlier) (ordered : earlier.NotAfter later)
    (day : later.dayNumber = earlier.dayNumber)
    (offset : later.offset = earlier.offset)
    (unexpired : ¬ plan.ExpiresBetween earlier later) :
    plan.rule.next later cap = plan.rule.next earlier cap := by
  have laterBegun := begun.trans ordered
  have sameReach :
      (∃ deadline ∈ plan.deadline, ¬ later.Before deadline) ↔
        ∃ deadline ∈ plan.deadline, ¬ earlier.Before deadline := by
    constructor
    · rintro ⟨deadline, member, late⟩
      refine ⟨deadline, member, fun early => ?_⟩
      exact unexpired ⟨deadline, member, early, late⟩
    · rintro ⟨deadline, member, late⟩
      refine ⟨deadline, member, fun early => late ?_⟩
      exact ordered.trans_before early
  rw [next_of_begun valid begun, next_of_begun valid laterBegun,
    Rule.searchFrom, Rule.searchFrom,
    reachesDeadline_rule valid begun.1.symm,
    reachesDeadline_rule valid laterBegun.1.symm,
    firstCandidate_congr day offset, decide_eq_decide.mpr sameReach]

/-- A search from the later moment ends if the deadline is between. -/
theorem next_of_expires (valid : plan.Valid) {earlier later : Moment}
    {cap : Int} (begun : plan.start.NotAfter later)
    (expires : plan.ExpiresBetween earlier later) :
    plan.rule.next later cap = .ok .ended := by
  rcases expires with ⟨deadline, member, -, late⟩
  rw [next_of_begun valid begun]
  exact searchFrom_of_late valid cap begun.1.symm ⟨deadline, member, late⟩

theorem not_reached_of_expires {earlier later : Moment}
    (expires : plan.ExpiresBetween earlier later) :
    ¬ ∃ deadline ∈ plan.deadline, ¬ earlier.Before deadline := by
  rintro ⟨other, otherMember, late⟩
  rcases expires with ⟨deadline, member, early, -⟩
  cases Option.mem_unique member otherMember
  exact late early

/-- The first candidate lies beyond a deadline later on the day of the pivot. -/
theorem next_of_expires_today (valid : plan.Valid)
    {earlier later : Moment} {cap : Int} (positive : 0 < cap)
    (begun : plan.start.NotAfter earlier)
    (day : later.dayNumber = earlier.dayNumber)
    (offset : later.offset = earlier.offset)
    (tomorrow : earlier.dayNumber + 1 < dayCount)
    (expires : plan.ExpiresBetween earlier later) :
    plan.rule.next earlier cap = .ok .ended := by
  have unreached := not_reached_of_expires expires
  rcases expires with ⟨deadline, member, early, late⟩
  cases started : plan.rule.firstCandidate earlier with
  | error fault =>
      rcases firstCandidate_eq_error_iff.mp started with ⟨last, -⟩
      omega
  | ok first =>
      rcases firstCandidate_rule.mp started with
        ⟨firstDay, -, firstOffset⟩
      have firstAware : first.isAware = plan.start.isAware :=
        (Moment.isAware_eq firstOffset).trans begun.1.symm
      have laterAware : later.isAware = deadline.isAware :=
        (Moment.isAware_eq offset).trans early.1
      have beyond : later.Before first :=
        Moment.before_of_dayNumber_lt (offset.trans firstOffset.symm)
          (by omega)
      have deadlineNotAfter := (Moment.not_before_iff laterAware).mp late
      have exceeded : plan.Exceeded first :=
        ⟨deadline, member, deadlineNotAfter.trans_before beyond⟩
      have stops : plan.rule.judge first = .ok .stop := by
        rw [judge_rule valid firstAware, if_pos exceeded]
      rw [next_of_begun valid begun,
        searchFrom_of_begun valid cap begun.1.symm unreached started]
      exact seek_of_settles (by omega : 0 < cap.toNat) (passes_zero first)
        (walk_zero first) (.stopped stops)

/-- On the last day of the calendar there is no first candidate. -/
theorem next_of_expires_last (valid : plan.Valid)
    {earlier later : Moment} {cap : Int}
    (begun : plan.start.NotAfter earlier)
    (last : earlier.dayNumber + 1 = dayCount)
    (expires : plan.ExpiresBetween earlier later) :
    plan.rule.next earlier cap = .error (.range .pastEdge) := by
  rw [next_of_begun valid begun]
  exact searchFrom_of_astray valid cap begun.1.symm
    (not_reached_of_expires expires)
    (firstCandidate_eq_error_iff.mpr ⟨last, rfl⟩)

/-! ## The links of the chain -/

/-- As many occurrences were given as the plan has. -/
def Plan.Exhausted (plan : Plan) (given : Nat) : Prop :=
  ∃ count ∈ plan.count, count ≤ given

instance (plan : Plan) (given : Nat) : Decidable (plan.Exhausted given) :=
  inferInstanceAs (Decidable (∃ count ∈ plan.count, _))

/-- The link of a chain whose search begins at a pivot. -/
def Plan.linkFrom (plan : Plan) (given : Nat) (pivot : Moment) :
    Except Fault (Finding (Moment × Rule.Progress)) :=
  if plan.Exhausted given then .ok .ended
  else
    (plan.rule.next pivot).map fun finding =>
      finding.map fun occurrence => (occurrence, ⟨some occurrence, given + 1⟩)

theorem isExhausted_rule (plan : Plan) (given : Nat) :
    plan.rule.isExhausted given = .ok (decide (plan.Exhausted given)) := by
  cases unset : plan.count <;>
    simp [Rule.isExhausted, Plan.rule, Plan.Exhausted, unset]

theorem follow_rule (plan : Plan) (progress : Rule.Progress) :
    plan.rule.follow progress =
      plan.linkFrom progress.given (progress.last.getD plan.start) := by
  rw [Rule.follow, isExhausted_rule, Plan.linkFrom]
  by_cases exhausted : plan.Exhausted progress.given
  · simp only [exhausted, decide_true, if_true]
  · cases progress.last <;>
      simp only [exhausted, decide_false, if_false, Option.elim_none,
        Option.elim_some, anchor_rule, Option.getD_none, Option.getD_some]

theorem advance_of_cursor (valid : plan.Valid) {progress : Rule.Progress}
    {pivot : Moment} (begun : plan.start.NotAfter pivot)
    (cursor : plan.rule.cursor progress = .ok (.proper pivot)) :
    plan.rule.advance progress = plan.linkFrom progress.given pivot := by
  simp only [Rule.advance, cursor, isExhausted_rule, Plan.linkFrom]
  by_cases exhausted : plan.Exhausted progress.given
  · simp only [exhausted, decide_true, if_true]
  · simp only [exhausted, decide_false, if_false, Rule.advanceFrom,
      exceedsDeadline_rule valid begun.1.symm]
    by_cases exceeded : plan.Exceeded pivot
    · rcases exceeded with ⟨deadline, member, late⟩
      have ended : plan.rule.next pivot = .ok .ended := by
        rw [next_of_begun valid begun]
        exact searchFrom_of_late valid _ begun.1.symm
          ⟨deadline, member, late.asymm⟩
      have exceeded : plan.Exceeded pivot := ⟨deadline, member, late⟩
      simp only [exceeded, decide_true, ended, Except.map, Finding.map]
    · simp only [exceeded, decide_false]

theorem linkFrom_eq_found_iff {given : Nat} {pivot value : Moment}
    {next : Rule.Progress} :
    plan.linkFrom given pivot = .ok (.found (value, next)) ↔
      ¬ plan.Exhausted given ∧ plan.rule.next pivot = .ok (.found value) ∧
        next = ⟨some value, given + 1⟩ := by
  rw [Plan.linkFrom]
  by_cases exhausted : plan.Exhausted given
  · simp [exhausted]
  · simp only [exhausted, if_false, not_false_iff, true_and]
    cases plan.rule.next pivot with
    | error fault => simp [Except.map]
    | ok finding =>
        cases finding with
        | ended => simp [Except.map, Finding.map]
        | gaveUp => simp [Except.map, Finding.map]
        | found occurrence =>
            simp only [Except.map, Finding.map, Except.ok.injEq,
              Finding.found.injEq, Prod.mk.injEq]
            constructor
            · rintro ⟨rfl, rfl⟩
              exact ⟨rfl, rfl⟩
            · rintro ⟨rfl, rfl⟩
              exact ⟨rfl, rfl⟩

/-! ## The states of the chain -/

/-- The last occurrence lies on a day after the start, at its clock time. -/
def Plan.OnCourse (plan : Plan) (progress : Rule.Progress) : Prop :=
  ∀ last ∈ progress.last, plan.start.DaysBefore last

theorem onCourse_begin (plan : Plan) : plan.OnCourse {} := by
  intro last member
  cases member

theorem cursor_after_eq_ok_iff {rule : Rule} {last : Moment} {given : Nat}
    {cursor : Held Moment} :
    rule.cursor ⟨some last, given⟩ = .ok cursor ↔
      ∃ pivot, last.addTicks Rule.resumeTicks = .ok pivot ∧
        .proper pivot = cursor := by
  simp only [Rule.cursor, map_eq_ok_iff, stepped_eq_ok_iff]

/-- Where a search of the chain begins. -/
theorem cursor_spec {progress : Rule.Progress} {cursor : Held Moment}
    (course : plan.OnCourse progress)
    (reached : plan.rule.cursor progress = .ok cursor) :
    ∃ pivot, cursor = .proper pivot ∧ plan.start.NotAfter pivot ∧
      pivot.offset = plan.start.offset ∧
      ∀ last ∈ progress.last,
        last.addTicks Rule.resumeTicks = .ok pivot := by
  rcases progress with ⟨_ | last, given⟩
  · cases reached
    refine ⟨plan.start, rfl, .refl _, rfl, ?_⟩
    intro last member
    cases member
  · rcases cursor_after_eq_ok_iff.mp reached with ⟨pivot, moved, rfl⟩
    rcases Moment.addTicks_eq_ok_iff.mp moved with ⟨ticks, offset⟩
    have later := course last rfl
    have after : last.Before pivot := by
      rw [Moment.before_iff_ticks offset.symm]
      simp only [Rule.resumeTicks] at ticks
      omega
    refine ⟨pivot, rfl, (later.before.trans after).notAfter,
      offset.trans later.offset, ?_⟩
    rintro _ ⟨⟩
    exact moved

theorem advance_eq_found (valid : plan.Valid) {progress next : Rule.Progress}
    {value : Moment} (course : plan.OnCourse progress)
    (found : plan.rule.advance progress = .ok (.found (value, next))) :
    ∃ pivot, plan.rule.cursor progress = .ok (.proper pivot) ∧
      plan.linkFrom progress.given pivot = .ok (.found (value, next)) := by
  cases reached : plan.rule.cursor progress with
  | error fault => simp [Rule.advance, reached] at found
  | ok cursor =>
      rcases cursor_spec course reached with ⟨pivot, rfl, begun, -, -⟩
      rw [advance_of_cursor valid begun reached] at found
      exact ⟨pivot, rfl, found⟩

/-- The chain stays on its course. -/
theorem onCourse_advance (valid : plan.Valid)
    {progress next : Rule.Progress} {value : Moment}
    (course : plan.OnCourse progress)
    (found : plan.rule.advance progress = .ok (.found (value, next))) :
    plan.OnCourse next := by
  rcases advance_eq_found valid course found with ⟨pivot, reached, link⟩
  rcases cursor_spec course reached with ⟨_, ⟨⟩, begun, pivotOffset, -⟩
  rcases linkFrom_eq_found_iff.mp link with ⟨-, searched, rfl⟩
  rcases found_parts valid begun searched with ⟨day, clock, offset⟩
  have sameOffset := offset.trans pivotOffset
  have startDay := begun.dayNumber_le pivotOffset.symm
  rintro _ ⟨⟩
  exact ⟨by omega, clock, sameOffset⟩

theorem onCourse_of_yields (valid : plan.Valid) {values : List Moment}
    {progress : Rule.Progress}
    (yields : Yields plan.rule.advance {} values progress) :
    plan.OnCourse progress :=
  yields.invariant (onCourse_advance valid) (onCourse_begin plan)

/-! ## The pause between two searches -/

/-- The pause stays within the day if the clock time leaves room for it. -/
theorem resume_of_room {last : Moment}
    (room : last.clock + Rule.resumeTicks < dayTicks) :
    ∃ pivot, last.addTicks Rule.resumeTicks = .ok pivot ∧
      pivot.dayNumber = last.dayNumber := by
  have day := last.dayNumber_lt
  have ticks := last.ticks_eq
  rcases Moment.split_ticks last.dayNumber room with ⟨dayEq, -⟩
  have reached : last.dayNumber * dayTicks +
      (last.clock + Rule.resumeTicks) < calendarTicks := by
    simp only [calendarTicks, dayCount, dayTicks] at *
    omega
  refine ⟨⟨_, last.offset, reached⟩, ?_, dayEq⟩
  rw [Moment.addTicks_eq_ok_iff]
  exact ⟨by simp only; omega, rfl⟩

/-- The pause leads to the next day if the clock time leaves no room for it. -/
theorem resume_of_no_room {last pivot : Moment}
    (noRoom : dayTicks ≤ last.clock + Rule.resumeTicks)
    (resumed : last.addTicks Rule.resumeTicks = .ok pivot) :
    pivot.dayNumber = last.dayNumber + 1 := by
  rcases Moment.addTicks_eq_ok_iff.mp resumed with ⟨ticks, -⟩
  have lastTicks := last.ticks_eq
  have pivotTicks := pivot.ticks_eq
  have lastClock := last.clock_lt
  have pivotClock := pivot.clock_lt
  simp only [dayTicks, Rule.resumeTicks] at *
  omega

/-- Whether the deadline is within the pause after a moment on the last day. -/
def Plan.ExpiresAtEdge (plan : Plan) (last : Moment) : Prop :=
  last.dayNumber + 1 = dayCount ∧
    ∃ deadline ∈ plan.deadline, last.Before deadline ∧
      deadline.instant ≤ last.instant + Rule.resumeTicks

theorem expiresBetween_resume_iff {last pivot : Moment}
    (resumed : last.addTicks Rule.resumeTicks = .ok pivot) :
    plan.ExpiresBetween last pivot ↔
      ∃ deadline ∈ plan.deadline, last.Before deadline ∧
        deadline.instant ≤ last.instant + Rule.resumeTicks := by
  rcases Moment.addTicks_eq_ok_iff.mp resumed with ⟨ticks, offset⟩
  have later : pivot.instant = last.instant + Rule.resumeTicks := by
    rw [Moment.instant, Moment.instant, offset]
    omega
  refine exists_congr fun deadline => and_congr_right fun _ =>
    and_congr_right fun early => ?_
  rw [Moment.Before, Moment.isAware_eq offset, later]
  simp [early.1]

/-- With room for the pause the next search begins on the same day. -/
theorem cursor_of_room {last : Moment} {given : Nat}
    (course : plan.OnCourse ⟨some last, given⟩)
    (room : plan.start.clock + Rule.resumeTicks < dayTicks) :
    ∃ pivot, plan.rule.cursor ⟨some last, given⟩ = .ok (.proper pivot) ∧
      last.addTicks Rule.resumeTicks = .ok pivot ∧
      last.NotAfter pivot ∧ pivot.dayNumber = last.dayNumber ∧
      pivot.offset = last.offset := by
  rw [← (course last rfl).clock] at room
  rcases resume_of_room room with ⟨pivot, resumed, day⟩
  rcases Moment.addTicks_eq_ok_iff.mp resumed with ⟨ticks, offset⟩
  have later : last.Before pivot := by
    rw [Moment.before_iff_ticks offset.symm]
    simp only [Rule.resumeTicks] at ticks
    omega
  exact ⟨pivot, cursor_after_eq_ok_iff.mpr ⟨pivot, resumed, rfl⟩, resumed,
    later.notAfter, day, offset⟩

/-- With room for the pause a link agrees with the one that has no pause. -/
theorem advance_eq_follow (valid : plan.Valid) {progress : Rule.Progress}
    (course : plan.OnCourse progress)
    (room : plan.start.clock + Rule.resumeTicks < dayTicks)
    (unexpired : ∀ last ∈ progress.last, ¬ plan.Exhausted progress.given →
      ¬ plan.ExpiresAtEdge last) :
    plan.rule.advance progress = plan.rule.follow progress := by
  rw [follow_rule]
  rcases progress with ⟨_ | last, given⟩
  · exact advance_of_cursor valid (.refl _) rfl
  have begun := (course last rfl).before.notAfter
  rcases cursor_of_room course room with
    ⟨pivot, cursor, resumed, ordered, day, offset⟩
  rw [advance_of_cursor valid (begun.trans ordered) cursor,
    Option.getD_some, Plan.linkFrom, Plan.linkFrom]
  by_cases exhausted : plan.Exhausted given
  · rw [if_pos exhausted, if_pos exhausted]
  rw [if_neg exhausted, if_neg exhausted]
  -- A deadline within the pause ends either chain, but at different tests.
  by_cases expires : plan.ExpiresBetween last pivot
  · have notEdge := unexpired last rfl exhausted
    rw [Plan.ExpiresAtEdge, ← expiresBetween_resume_iff resumed,
      not_and'] at notEdge
    have notLast := notEdge expires
    have inside := last.dayNumber_lt
    rw [next_of_expires valid (begun.trans ordered) expires,
      next_of_expires_today valid (by decide) begun day offset (by omega)
        expires]
  · rw [next_congr valid begun ordered day offset expires]

/-- On the last day the deadline within the pause ends the chain early. -/
theorem advance_of_expiresAtEdge (valid : plan.Valid) {last : Moment}
    {given : Nat} (course : plan.OnCourse ⟨some last, given⟩)
    (room : plan.start.clock + Rule.resumeTicks < dayTicks)
    (goesOn : ¬ plan.Exhausted given) (atEdge : plan.ExpiresAtEdge last) :
    plan.rule.advance ⟨some last, given⟩ = .ok .ended ∧
      plan.rule.follow ⟨some last, given⟩ =
        .error (.range .pastEdge) := by
  have begun := (course last rfl).before.notAfter
  rcases cursor_of_room course room with
    ⟨pivot, cursor, resumed, ordered, -, -⟩
  rcases atEdge with ⟨lastDay, expires⟩
  rw [← expiresBetween_resume_iff resumed] at expires
  rw [follow_rule, advance_of_cursor valid (begun.trans ordered) cursor,
    Option.getD_some, Plan.linkFrom, Plan.linkFrom, if_neg goesOn,
    if_neg goesOn, next_of_expires valid (begun.trans ordered) expires,
    next_of_expires_last valid begun lastDay expires]
  exact ⟨rfl, rfl⟩

/-- Without room for the pause the next day is passed over. -/
theorem dayNumber_of_no_room (valid : plan.Valid) {last later : Moment}
    {given : Nat} {next : Rule.Progress}
    (course : plan.OnCourse ⟨some last, given⟩)
    (noRoom : dayTicks ≤ plan.start.clock + Rule.resumeTicks)
    (found : plan.rule.advance ⟨some last, given⟩ =
      .ok (.found (later, next))) :
    last.dayNumber + 2 ≤ later.dayNumber := by
  rw [← (course last rfl).clock] at noRoom
  rcases advance_eq_found valid course found with ⟨pivot, cursor, link⟩
  rcases cursor_spec course cursor with ⟨_, ⟨⟩, begun, -, resumed⟩
  rcases linkFrom_eq_found_iff.mp link with ⟨-, searched, -⟩
  have nextDay := resume_of_no_room noRoom (resumed last rfl)
  rcases found_parts valid begun searched with ⟨day, -, -⟩
  omega

/-- Without room for the pause the chain fails after the last day. -/
theorem advance_of_no_room_last {last : Moment} {given : Nat}
    (course : plan.OnCourse ⟨some last, given⟩)
    (noRoom : dayTicks ≤ plan.start.clock + Rule.resumeTicks)
    (lastDay : last.dayNumber + 1 = dayCount) :
    plan.rule.advance ⟨some last, given⟩ = .error (.range .pastEdge) := by
  rw [← (course last rfl).clock] at noRoom
  cases resumed : last.addTicks Rule.resumeTicks with
  | ok pivot =>
      have nextDay := resume_of_no_room noRoom resumed
      have inside := pivot.dayNumber_lt
      omega
  | error failure =>
      cases Moment.addTicks_error resumed
      simp [Rule.advance, Rule.cursor, resumed, stepped, Except.mapError,
        Except.map]

/-! ## The chain with the pause and the one without -/

theorem follow_of_advance (valid : plan.Valid)
    {before after : Rule.Progress} {value : Moment}
    (room : plan.start.clock + Rule.resumeTicks < dayTicks)
    (course : plan.OnCourse before)
    (found : plan.rule.advance before = .ok (.found (value, after))) :
    plan.OnCourse after ∧
      plan.rule.follow before = .ok (.found (value, after)) := by
  refine ⟨onCourse_advance valid course found, ?_⟩
  rw [← found]
  refine (advance_eq_follow valid course room ?_).symm
  intro last member goesOn atEdge
  rcases before with ⟨_, given⟩
  cases member
  rw [(advance_of_expiresAtEdge valid course room goesOn atEdge).1] at found
  cases found

/--
If the clock time of the start leaves room for the pause, the chain of an
accepted draft answers as the plain chain of searches does, unless it comes to
an occurrence on the last day of the calendar with a deadline within the pause.

If there is no room, two occurrences in a row are at least two days apart, and
after one on the last day of the calendar the chain fails.
-/
theorem answers_eq_follow_iff {draft : Draft} {plan : Plan}
    (accepted : draft.validate = .ok plan) :
    (plan.start.clock + Rule.resumeTicks < dayTicks →
      ((∀ count,
        Chain.answers draft.read.advance count (.waiting {}) =
          Chain.answers draft.read.follow count (.waiting {})) ↔
        ¬ ∃ values last given,
          Yields draft.read.advance {} values ⟨some last, given⟩ ∧
            ¬ plan.Exhausted given ∧ plan.ExpiresAtEdge last)) ∧
    (dayTicks ≤ plan.start.clock + Rule.resumeTicks →
      ∀ values last given,
        Yields draft.read.advance {} values ⟨some last, given⟩ →
        (∀ later next,
          draft.read.advance ⟨some last, given⟩ =
              .ok (.found (later, next)) →
            last.dayNumber + 2 ≤ later.dayNumber) ∧
        (last.dayNumber + 1 = dayCount →
          draft.read.advance ⟨some last, given⟩ =
            .error (.range .pastEdge))) := by
  have valid := valid_of_validate accepted
  rw [read_of_validate accepted]
  refine ⟨fun room => ⟨?_, ?_⟩, ?_⟩
  · rintro same ⟨values, last, given, yields, goesOn, atEdge⟩
    have course := onCourse_of_yields valid yields
    have follows := yields.transfer (follow_of_advance valid room)
      (onCourse_begin plan)
    rcases advance_of_expiresAtEdge valid course room goesOn atEdge with
      ⟨ended, failed⟩
    -- Both chains yield these values; the draw after them differs.
    have answers := same (values.length + 1)
    rw [Chain.answers_of_yields yields,
      Chain.answers_of_yields follows] at answers
    have lastAnswer := List.append_cancel_left answers
    simp [Chain.answers, Chain.draw, ended, failed] at lastAnswer
  · intro unexpired count
    refine Chain.answers_congr count fun values final yields => ?_
    apply advance_eq_follow valid (onCourse_of_yields valid yields) room
    rcases final with ⟨_, given⟩
    rintro last ⟨⟩ goesOn atEdge
    exact unexpired ⟨values, last, given, yields, goesOn, atEdge⟩
  · intro noRoom values last given yields
    have course := onCourse_of_yields valid yields
    exact ⟨fun later next found =>
        dayNumber_of_no_room valid course noRoom found,
      advance_of_no_room_last course noRoom⟩

/-- Every day from a millisecond before midnight of 1 January 2024. -/
def everyMidnight : Draft where
  frequency := .proper .daily
  start := .moment { ticks := 63839750399999000, offset := none }

/-- The plan of `everyMidnight`. -/
def everyMidnightPlan : Plan where
  frequency := .daily
  start := { ticks := 63839750399999000, offset := none }

/-- The midnights of 2, 3 and 4 January 2024, less a millisecond. -/
def secondMidnight : Moment where
  ticks := 63839836799999000
  offset := none

@[inherit_doc secondMidnight]
def thirdMidnight : Moment where
  ticks := 63839923199999000
  offset := none

@[inherit_doc secondMidnight]
def fourthMidnight : Moment where
  ticks := 63840009599999000
  offset := none

/-- Mondays from 9 o'clock of 3 January 2024 to the 29th, a millisecond on. -/
def mondaysOfJanuary : Draft where
  frequency := .odd (.text "weekly")
  start := .moment { ticks := 63839869200000000, offset := none }
  deadline := .moment { ticks := 63842115600001000, offset := none }
  byWeekday := .list [.whole 1]

/-- The plan of `mondaysOfJanuary`. -/
def mondaysOfJanuaryPlan : Plan where
  frequency := .weekly
  start := { ticks := 63839869200000000, offset := none }
  deadline := some { ticks := 63842115600001000, offset := none }
  byWeekday := [1]

theorem not_expiresAtEdge_mondays (last : Moment) :
    ¬ mondaysOfJanuaryPlan.ExpiresAtEdge last := by
  rintro ⟨lastDay, _, ⟨⟩, ⟨naive, early⟩, -⟩
  have unset : last.offset = none := by
    rw [← Option.not_isSome_iff_eq_none]
    exact Bool.not_eq_true _ ▸ naive
  have ticks := last.ticks_eq
  simp only [Moment.instant, unset, Option.getD_none, dayTicks, dayCount]
    at early lastDay ticks
  omega

theorem answers_eq_follow_iff_mondays :
    mondaysOfJanuary.validate = .ok mondaysOfJanuaryPlan ∧
    mondaysOfJanuaryPlan.start.clock + Rule.resumeTicks < dayTicks ∧
    (∀ count,
      Chain.answers mondaysOfJanuary.read.advance count (.waiting {}) =
        Chain.answers mondaysOfJanuary.read.follow count (.waiting {})) ∧
    everyMidnight.validate = .ok everyMidnightPlan ∧
    dayTicks ≤ everyMidnightPlan.start.clock + Rule.resumeTicks ∧
    everyMidnight.read.advance ⟨some secondMidnight, 1⟩ =
      .ok (.found (fourthMidnight, ⟨some fourthMidnight, 2⟩)) ∧
    secondMidnight.dayNumber + 2 ≤ fourthMidnight.dayNumber := by
  have january : mondaysOfJanuary.validate = .ok mondaysOfJanuaryPlan := rfl
  have midnights : everyMidnight.validate = .ok everyMidnightPlan := rfl
  have room : mondaysOfJanuaryPlan.start.clock + Rule.resumeTicks <
      dayTicks := by decide
  have noRoom : dayTicks ≤
      everyMidnightPlan.start.clock + Rule.resumeTicks := by decide
  have first : everyMidnight.read.advance {} =
      .ok (.found (secondMidnight, ⟨some secondMidnight, 1⟩)) := rfl
  have found : everyMidnight.read.advance ⟨some secondMidnight, 1⟩ =
      .ok (.found (fourthMidnight, ⟨some fourthMidnight, 2⟩)) := by
    unfold secondMidnight fourthMidnight
    rfl
  refine ⟨january, room, ?_, midnights, noRoom, found, ?_⟩
  · refine ((answers_eq_follow_iff january).1 room).mpr ?_
    rintro ⟨-, last, -, -, -, atEdge⟩
    exact not_expiresAtEdge_mondays last atEdge
  · have yields := Yields.cons first .nil
    exact ((answers_eq_follow_iff midnights).2 noRoom _ _ _ yields).1 _ _ found

/-- A chain of midnights loses every second day to the pause. -/
theorem answers_skip_midnight :
    everyMidnight.passes = .ok true ∧
    (everyMidnight.read.nextReply everyMidnightPlan.start).outcome =
      .ok (some secondMidnight) ∧
    (everyMidnight.read.nextReply secondMidnight).outcome =
      .ok (some thirdMidnight) ∧
    Chain.answers everyMidnight.read.advance 2 (.waiting {}) =
      [.ok (.found secondMidnight), .ok (.found fourthMidnight)] :=
  ⟨rfl, rfl, rfl, rfl⟩

end Timetable
