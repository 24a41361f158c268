import Timetable.Proofs.Rule.Chain

/-!
# What the chain of occurrences yields

A chain may end, give up or fail, but whatever it yielded until then are
occurrences on later and later days after the start.  `Plan.Given` collects what
holds of these values and of the progress after them; `given_advance` says that a
link preserves it, and so it holds after any number of links.

Every value takes a day.  A deadline therefore bounds the number of values by
the days that lead to it, and the chain comes to a last one.
-/

namespace Timetable

open Timetable.Calendar

variable {plan : Plan}

namespace Plan

/-- The last occurrence of a chain, or the start before there is one. -/
def reached (plan : Plan) (progress : Rule.Progress) : Moment :=
  progress.last.getD plan.start

/-- What a chain yielded from the start on, and the progress after it. -/
structure Given (plan : Plan) (values : List Moment)
    (progress : Rule.Progress) : Prop where
  number : progress.given = values.length
  counted : ∀ count ∈ plan.count, (values.length : Int) ≤ count
  last : ∀ last ∈ progress.last, last ∈ values
  occurs : ∀ value ∈ values,
    plan.start.DaysBefore value ∧ plan.Occurs value
  ascending : values.Pairwise Moment.DaysBefore
  behind : ∀ value ∈ values,
    value.dayNumber ≤ (plan.reached progress).dayNumber
  days : plan.start.dayNumber + values.length ≤
    (plan.reached progress).dayNumber

end Plan

theorem given_begin (valid : plan.Valid) : plan.Given [] {} where
  number := rfl
  counted count member := by
    have positive := valid.count count member
    rw [List.length_nil]
    omega
  last _ member := by cases member
  occurs _ member := by cases member
  ascending := .nil
  behind _ member := by cases member
  days := Nat.le_refl _

theorem Plan.Given.onCourse {values : List Moment}
    {progress : Rule.Progress} (given : plan.Given values progress) :
    plan.OnCourse progress :=
  fun last member => (given.occurs last (given.last last member)).1

/-! ## One link -/

/-- A search of the chain begins no earlier than on the day reached. -/
theorem reached_le_pivot {progress : Rule.Progress} {pivot : Moment}
    (course : plan.OnCourse progress)
    (cursor : plan.rule.cursor progress = .ok (.proper pivot)) :
    (plan.reached progress).dayNumber ≤ pivot.dayNumber := by
  rcases cursor_spec course cursor with
    ⟨_, ⟨⟩, begun, pivotOffset, resumed⟩
  rw [Plan.reached]
  cases ended : progress.last with
  | none => exact begun.dayNumber_le pivotOffset.symm
  | some last =>
      rcases Moment.addTicks_eq_ok_iff.mp (resumed last ended) with
        ⟨ticks, offset⟩
      have later : last.Before pivot := by
        rw [Moment.before_iff_ticks offset.symm]
        simp only [Rule.resumeTicks] at ticks
        omega
      exact later.notAfter.dayNumber_le offset.symm

/-- A link yields an occurrence on a day after the one reached. -/
theorem advance_sound (valid : plan.Valid) {progress next : Rule.Progress}
    {value : Moment} (course : plan.OnCourse progress)
    (found : plan.rule.advance progress = .ok (.found (value, next))) :
    ¬ plan.Exhausted progress.given ∧
      next = ⟨some value, progress.given + 1⟩ ∧
      (plan.reached progress).dayNumber < value.dayNumber ∧
      plan.start.DaysBefore value ∧ plan.Occurs value := by
  rcases advance_eq_found valid course found with ⟨pivot, cursor, link⟩
  have fromReached := reached_le_pivot course cursor
  rcases cursor_spec course cursor with ⟨_, ⟨⟩, begun, pivotOffset, -⟩
  rcases linkFrom_eq_found_iff.mp link with ⟨goesOn, searched, rfl⟩
  rcases found_parts valid begun searched with ⟨day, clock, offset⟩
  rcases found_sound valid begun.1.symm searched with
    ⟨-, notExceeded, covered⟩
  have fromStart := begun.dayNumber_le pivotOffset.symm
  have later : plan.start.DaysBefore value :=
    ⟨by omega, clock, offset.trans pivotOffset⟩
  exact ⟨goesOn, rfl, by omega, later, later.before.asymm, notExceeded,
    covered⟩

/-- A link preserves what holds of the values before it. -/
theorem given_advance (valid : plan.Valid) {values : List Moment}
    {progress next : Rule.Progress} {value : Moment}
    (given : plan.Given values progress)
    (found : plan.rule.advance progress = .ok (.found (value, next))) :
    plan.Given (values ++ [value]) next := by
  obtain ⟨goesOn, rfl, day, later, occurs⟩ :=
    advance_sound valid given.onCourse found
  have length : (values ++ [value]).length = values.length + 1 :=
    List.length_append
  refine ⟨?_, ?_, ?_, ?_, ?_, ?_, ?_⟩
  · rw [length, ← given.number]
  · intro count member
    have unexhausted : ¬ count ≤ progress.given :=
      fun reached => goesOn ⟨count, member, reached⟩
    rw [given.number] at unexhausted
    omega
  · rintro _ ⟨⟩
    simp
  · intro other member
    rcases List.mem_append.mp member with earlier | same
    · exact given.occurs other earlier
    · rw [List.mem_singleton.mp same]
      exact ⟨later, occurs⟩
  · rw [List.pairwise_append]
    refine ⟨given.ascending, List.pairwise_singleton _ _, ?_⟩
    intro earlier member other same
    rw [List.mem_singleton.mp same]
    have before := given.behind earlier member
    have parts := (given.occurs earlier member).1
    exact ⟨by omega, later.clock.trans parts.clock.symm,
      later.offset.trans parts.offset.symm⟩
  · intro other member
    rcases List.mem_append.mp member with earlier | same
    · exact Nat.le_trans (given.behind other earlier) (Nat.le_of_lt day)
    · rw [List.mem_singleton.mp same]
      exact Nat.le_refl _
  · have days := given.days
    simp only [Plan.reached, Option.getD_some] at day days ⊢
    omega

/-! ## Any number of links -/

theorem given_of_yields (valid : plan.Valid) {values : List Moment}
    {progress : Rule.Progress}
    (yields : Yields plan.rule.advance {} values progress) :
    plan.Given values progress :=
  yields.history (given_advance valid) (given_begin valid)

/-- No more values are given than there are days up to the deadline. -/
theorem Plan.Given.length_le (valid : plan.Valid) {values : List Moment}
    {progress : Rule.Progress} {deadline : Moment}
    (given : plan.Given values progress) (member : deadline ∈ plan.deadline)
    (offset : deadline.offset = plan.start.offset) :
    (values.length : Int) ≤ plan.start.daysBetween deadline := by
  have days := given.days
  have notLater :
      (plan.reached progress).dayNumber ≤ deadline.dayNumber := by
    rw [Plan.reached]
    cases ended : progress.last with
    | none =>
        have before := valid.deadline deadline member
        exact before.notAfter.dayNumber_le offset.symm
    | some last =>
        rcases given.occurs last (given.last last ended) with
          ⟨later, -, notExceeded, -⟩
        have lastAware := Moment.isAware_eq later.offset
        have within := (not_exceeded_iff valid lastAware).mp notExceeded
        exact (within deadline member).dayNumber_le
          (later.offset.trans offset.symm)
  rw [Moment.daysBetween]
  omega

/--
Whatever the chain of an accepted draft yields are occurrences on later and later
days after the start, at its clock time and offset, and no more of them than
counted.

With a deadline at the offset of the start, they are no more than the days from
the start to the deadline, and after some of them the chain finds nothing more.
-/
theorem yields_occurrences {draft : Draft} {plan : Plan}
    (accepted : draft.validate = .ok plan) :
    (∀ values progress, Yields draft.read.advance {} values progress →
      (values.Pairwise fun earlier later =>
        earlier.dayNumber < later.dayNumber) ∧
      (∀ value ∈ values,
        plan.start.dayNumber < value.dayNumber ∧
        value.clock = plan.start.clock ∧
        value.offset = plan.start.offset ∧
        draft.read.isOccurrence value = .ok true) ∧
      (∀ count ∈ plan.count, (values.length : Int) ≤ count)) ∧
    ∀ deadline ∈ plan.deadline, deadline.offset = plan.start.offset →
      (∀ values progress, Yields draft.read.advance {} values progress →
        (values.length : Int) ≤ plan.start.daysBetween deadline) ∧
      ∃ values progress, Yields draft.read.advance {} values progress ∧
        ∀ pair, draft.read.advance progress ≠ .ok (.found pair) := by
  have valid := valid_of_validate accepted
  rw [read_of_validate accepted]
  refine ⟨?_, ?_⟩
  · intro values progress yields
    have given := given_of_yields valid yields
    refine ⟨given.ascending.imp Moment.DaysBefore.day, ?_, given.counted⟩
    intro value member
    rcases given.occurs value member with ⟨later, occurs⟩
    have aware := Moment.isAware_eq later.offset
    refine ⟨later.day, later.clock, later.offset, ?_⟩
    rw [isOccurrence_rule valid aware, decide_eq_true occurs]
  · intro deadline member offset
    have bounded : ∀ values progress,
        Yields plan.rule.advance {} values progress →
          (values.length : Int) ≤ plan.start.daysBetween deadline :=
      fun values progress yields =>
        (given_of_yields valid yields).length_le valid member offset
    refine ⟨bounded, ?_⟩
    apply Yields.exists_last (plan.start.daysBetween deadline).toNat
    intro values progress yields
    have length := bounded values progress yields
    omega

/-- The Mondays 8 and 15 January 2024, at 9 o'clock. -/
def mondayTheEighth : Moment where
  ticks := 63840301200000000
  offset := none

@[inherit_doc mondayTheEighth]
def mondayTheFifteenth : Moment where
  ticks := 63840906000000000
  offset := none

theorem yields_occurrences_mondays :
    mondaysOfJanuary.validate = .ok mondaysOfJanuaryPlan ∧
    Yields mondaysOfJanuary.read.advance {}
      [mondayTheEighth, mondayTheFifteenth]
      ⟨some mondayTheFifteenth, 2⟩ ∧
    mondayTheEighth.dayNumber < mondayTheFifteenth.dayNumber ∧
    mondaysOfJanuary.read.isOccurrence mondayTheFifteenth = .ok true ∧
    (∃ deadline ∈ mondaysOfJanuaryPlan.deadline,
      deadline.offset = mondaysOfJanuaryPlan.start.offset ∧
        2 ≤ mondaysOfJanuaryPlan.start.daysBetween deadline) ∧
    ∃ values progress,
      Yields mondaysOfJanuary.read.advance {} values progress ∧
        ∀ pair, mondaysOfJanuary.read.advance progress ≠
          .ok (.found pair) := by
  have accepted : mondaysOfJanuary.validate = .ok mondaysOfJanuaryPlan := rfl
  have first : mondaysOfJanuary.read.advance {} =
      .ok (.found (mondayTheEighth, ⟨some mondayTheEighth, 1⟩)) := rfl
  have second : mondaysOfJanuary.read.advance ⟨some mondayTheEighth, 1⟩ =
      .ok (.found (mondayTheFifteenth, ⟨some mondayTheFifteenth, 2⟩)) := by
    unfold mondayTheEighth mondayTheFifteenth
    rfl
  have yields := Yields.cons first (.cons second .nil)
  have ⟨ofValues, ofDeadline⟩ := yields_occurrences accepted
  have ⟨ascending, each, _⟩ := ofValues _ _ yields
  have ⟨bounded, ended⟩ := ofDeadline
    { ticks := 63842115600001000, offset := none } rfl rfl
  refine ⟨accepted, yields, ?_, (each mondayTheFifteenth (by simp)).2.2.2,
    ⟨_, rfl, rfl, bounded _ _ yields⟩, ended⟩
  simpa using ascending

end Timetable
