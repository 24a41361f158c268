import Timetable.Proofs.Calendar.Moment
import Timetable.Proofs.Outcome
import Timetable.Rule.Draft

/-!
# Drafts that make sense

A draft is accepted as a plan exactly if every field holds contents of the
right kind that satisfy the conditions on them.  `Plan.Valid` collects the
conditions that the plan then satisfies.

The rule that an accepted draft describes if it is taken at its word is the
rule of its plan: `read_of_validate` lets every statement about an accepted
draft be proved for a plan.
-/

namespace Timetable

open Timetable.Calendar

/-- What holds of the plans that drafts are accepted as. -/
structure Plan.Valid (plan : Plan) : Prop where
  interval : 1 ≤ plan.interval
  count : ∀ count ∈ plan.count, 1 ≤ count
  deadline : ∀ deadline ∈ plan.deadline, plan.start.Before deadline
  byWeekday : ∀ number ∈ plan.byWeekday, weekdayBounds.Contains number
  byMonthDay : ∀ number ∈ plan.byMonthDay, monthDayBounds.Contains number
  byMonth : ∀ number ∈ plan.byMonth, monthBounds.Contains number

/-! ## Accepted fields -/

theorem validateFrequency_eq_ok_iff {entry : Held Frequency}
    {frequency : Frequency} :
    validateFrequency entry = .ok frequency ↔
      Frequency.resolve entry = .proper frequency := by
  unfold validateFrequency
  split <;> simp_all

theorem validateStart_eq_ok_iff {written : Value} {start : Moment} :
    validateStart written = .ok start ↔ written = .moment start := by
  cases written <;> simp [validateStart, Value.moment?]

theorem positive?_eq_some_iff {written : Value} {number : Int} :
    written.positive? = some number ↔
      written = .whole number ∧ 1 ≤ number := by
  cases written with
  | whole other =>
      simp only [Value.positive?, Option.ite_none_right_eq_some,
        Option.some.injEq, Value.whole.injEq]
      constructor
      · rintro ⟨bound, rfl⟩
        exact ⟨rfl, bound⟩
      · rintro ⟨rfl, bound⟩
        exact ⟨bound, rfl⟩
  | _ => simp [Value.positive?]

theorem validateInterval_eq_ok_iff {written : Value} {interval : Int} :
    validateInterval written = .ok interval ↔
      written = .whole interval ∧ 1 ≤ interval := by
  rw [← positive?_eq_some_iff, validateInterval]
  split <;> simp_all

theorem validateCount_of_ne_null {written : Value}
    (present : written ≠ .null) :
    validateCount written =
      match written.positive? with
      | some count => .ok (some count)
      | none => .error (.count written) := by
  cases written with
  | null => exact absurd rfl present
  | _ => rfl

theorem validateCount_eq_ok_iff {written : Value} {count : Option Int} :
    validateCount written = .ok count ↔
      written = count.elim .null .whole ∧ ∀ number ∈ count, 1 ≤ number := by
  by_cases present : written = .null
  · subst present
    cases count <;> simp [validateCount]
  · rw [validateCount_of_ne_null present]
    cases count with
    | none =>
        simp only [Option.elim_none, present, false_and, iff_false]
        split <;> simp
    | some number =>
        simp only [Option.elim_some, Option.mem_def, Option.some.injEq,
          forall_eq', ← positive?_eq_some_iff]
        split <;> simp_all

theorem validateDeadline_eq_ok_iff {start : Moment} {written : Value}
    {deadline : Option Moment} :
    validateDeadline start written = .ok deadline ↔
      written = deadline.elim .null .moment ∧
        ∀ moment ∈ deadline, start.Before moment := by
  cases written with
  | null => cases deadline <;> simp [validateDeadline]
  | moment reading =>
      have accepted : validateDeadline start (.moment reading) =
            .ok deadline ↔
          deadline = some reading ∧ start.Before reading := by
        simp only [validateDeadline, ← Moment.precedes?_eq_true_iff]
        cases start.precedes? reading with
        | none => simp
        | some earlier => cases earlier <;> simp [eq_comm]
      rw [accepted]
      cases deadline with
      | none => simp
      | some moment =>
          simp only [Option.some.injEq, Option.elim_some,
            Value.moment.injEq, Option.mem_def, forall_eq']
          constructor
          · rintro ⟨rfl, before⟩
            exact ⟨rfl, before⟩
          · rintro ⟨rfl, before⟩
            exact ⟨rfl, before⟩
  | _ => cases deadline <;> simp [validateDeadline]

theorem validateSelected_eq_ok_iff {bounds : Bounds} {items : List Value}
    {numbers : List Int} :
    validateSelected bounds items = .ok numbers ↔
      items = numbers.map .whole ∧
        ∀ number ∈ numbers, bounds.Contains number := by
  induction items generalizing numbers with
  | nil => cases numbers <;> simp [validateSelected]
  | cons item rest induction =>
      cases item with
      | whole first =>
          simp only [validateSelected]
          split
          · next inside =>
              simp only [map_eq_ok_iff, induction]
              constructor
              · rintro ⟨more, ⟨rfl, each⟩, rfl⟩
                simp [inside]
                exact each
              · rintro ⟨equal, each⟩
                cases numbers with
                | nil => simp at equal
                | cons number more =>
                    simp only [List.map_cons, List.cons.injEq,
                      Value.whole.injEq] at equal
                    rcases equal with ⟨rfl, rfl⟩
                    exact ⟨more, ⟨rfl, fun other member =>
                      each other (List.mem_cons_of_mem _ member)⟩, rfl⟩
          · next outside =>
              simp only [reduceCtorEq, false_iff, not_and]
              intro equal each
              cases numbers with
              | nil => simp at equal
              | cons number more =>
                  simp only [List.map_cons, List.cons.injEq,
                    Value.whole.injEq] at equal
                  rcases equal with ⟨rfl, -⟩
                  exact outside (each first (by simp))
      | _ =>
          simp only [validateSelected, reduceCtorEq, false_iff, not_and]
          intro equal
          cases numbers <;> simp at equal

theorem validateSelection_eq_ok_iff {bounds : Bounds} {written : Value}
    {numbers : List Int} :
    validateSelection bounds written = .ok numbers ↔
      written = .list (numbers.map .whole) ∧
        ∀ number ∈ numbers, bounds.Contains number := by
  cases written with
  | list items =>
      rw [validateSelection, validateSelected_eq_ok_iff, Value.list.injEq]
  | _ => simp [validateSelection]

/-! ## Accepted drafts -/

/-- The contents of the fields of an accepted draft. -/
theorem validate_eq_ok_iff {draft : Draft} {plan : Plan} :
    draft.validate = .ok plan ↔
      Frequency.resolve draft.frequency = .proper plan.frequency ∧
      draft.start = .moment plan.start ∧
      draft.interval = .whole plan.interval ∧
      draft.deadline = plan.deadline.elim .null .moment ∧
      draft.count = plan.count.elim .null .whole ∧
      draft.byWeekday = .list (plan.byWeekday.map .whole) ∧
      draft.byMonthDay = .list (plan.byMonthDay.map .whole) ∧
      draft.byMonth = .list (plan.byMonth.map .whole) ∧
      plan.Valid := by
  simp only [Draft.validate, bind_eq_ok_iff, validateFrequency_eq_ok_iff,
    validateStart_eq_ok_iff, validateInterval_eq_ok_iff,
    validateCount_eq_ok_iff, validateDeadline_eq_ok_iff,
    validateSelection_eq_ok_iff]
  constructor
  · rintro ⟨_, frequency, _, start, _, ⟨interval, intervalBound⟩, _,
      ⟨count, countBound⟩, _, ⟨deadline, deadlineOrder⟩, _,
      ⟨weekday, weekdayInside⟩, _, ⟨monthDay, monthDayInside⟩, _,
      ⟨month, monthInside⟩, result⟩
    cases result
    exact ⟨frequency, start, interval, deadline, count, weekday, monthDay,
      month, intervalBound, countBound, deadlineOrder, weekdayInside,
      monthDayInside, monthInside⟩
  · rintro ⟨frequency, start, interval, deadline, count, weekday, monthDay,
      month, valid⟩
    exact ⟨_, frequency, _, start, _, ⟨interval, valid.interval⟩, _,
      ⟨count, valid.count⟩, _, ⟨deadline, valid.deadline⟩, _,
      ⟨weekday, valid.byWeekday⟩, _, ⟨monthDay, valid.byMonthDay⟩, _,
      ⟨month, valid.byMonth⟩, rfl⟩

theorem valid_of_validate {draft : Draft} {plan : Plan}
    (accepted : draft.validate = .ok plan) : plan.Valid := by
  rcases validate_eq_ok_iff.mp accepted with ⟨-, -, -, -, -, -, -, -, valid⟩
  exact valid

theorem integers?_whole (numbers : List Int) :
    (Value.list (numbers.map .whole)).integers? = some numbers := by
  rw [Value.integers?]
  induction numbers with
  | nil => rfl
  | cons number rest induction =>
      simp [List.mapM_cons, Value.toInt?, induction]

/-- An accepted draft, taken at its word, describes the rule of its plan. -/
theorem read_of_validate {draft : Draft} {plan : Plan}
    (accepted : draft.validate = .ok plan) : draft.read = plan.rule := by
  rcases validate_eq_ok_iff.mp accepted with
    ⟨frequency, start, interval, deadline, count, weekday, monthDay, month, -⟩
  have deadlineRead : Held.ofValue? Value.moment? draft.deadline =
      plan.deadline.map .proper := by
    rw [deadline]
    cases plan.deadline <;> rfl
  have countRead : Held.ofValue? Value.integer? draft.count =
      plan.count.map .proper := by
    rw [count]
    cases plan.count <;> rfl
  have selection (numbers : List Int) :
      Held.ofValue Value.integers? (.list (numbers.map .whole)) =
        .proper numbers := by
    rw [Held.ofValue, integers?_whole]
  rw [Draft.read, Plan.rule, deadlineRead, countRead, frequency, start,
    interval, weekday, monthDay, month, selection, selection, selection]
  rfl

end Timetable
