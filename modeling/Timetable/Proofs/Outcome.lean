import Timetable.Report
import Mathlib.Data.List.Forall2

/-!
# Outcomes of chained steps

A chain of steps succeeds exactly if each of its steps does, and fails as the
first of its steps that fails.  A lenient call answers nothing where the strict
call has a problem, and faults where that faults.
-/

namespace Timetable

variable {α β ε δ : Type}

theorem bind_eq_ok_iff {first : Except ε α} {next : α → Except ε β}
    {result : β} :
    first >>= next = .ok result ↔
      ∃ value, first = .ok value ∧ next value = .ok result := by
  cases first <;> simp [bind, Except.bind]

/-- A chain fails at its first step or, if that succeeds, behind it. -/
theorem bind_eq_error_iff {first : Except ε α} {next : α → Except ε β}
    {failure : ε} :
    first >>= next = .error failure ↔
      first = .error failure ∨
        ∃ value, first = .ok value ∧ next value = .error failure := by
  cases first <;> simp [bind, Except.bind]

/-- A chain fails in no way in which none of its steps fails. -/
theorem bind_ne_error {first : Except ε α} {next : α → Except ε β}
    {failure : ε} (firstAvoids : first ≠ .error failure)
    (nextAvoids : ∀ value, next value ≠ .error failure) :
    first >>= next ≠ .error failure := by
  cases first with
  | error other => simpa [bind, Except.bind] using firstAvoids
  | ok value => exact nextAvoids value

/-- A chain succeeds if its steps do. -/
theorem exists_bind_eq_ok {first : Except ε α} {next : α → Except ε β}
    (firstReturns : ∃ value, first = .ok value)
    (nextReturns : ∀ value, first = .ok value →
      ∃ result, next value = .ok result) :
    ∃ result, first >>= next = .ok result := by
  rcases firstReturns with ⟨value, rfl⟩
  exact nextReturns value rfl

theorem map_eq_ok_iff {outcome : Except ε α} {change : α → β}
    {result : β} :
    outcome.map change = .ok result ↔
      ∃ value, outcome = .ok value ∧ change value = result := by
  cases outcome <;> simp [Except.map]

theorem map_eq_error_iff {outcome : Except ε α} {change : α → β}
    {failure : ε} :
    outcome.map change = .error failure ↔ outcome = .error failure := by
  cases outcome <;> simp [Except.map]

theorem mapError_eq_error_iff {outcome : Except ε α} {change : ε → δ}
    {failure : δ} :
    outcome.mapError change = .error failure ↔
      ∃ cause, outcome = .error cause ∧ change cause = failure := by
  cases outcome <;> simp [Except.mapError]

theorem mapError_eq_ok_iff {outcome : Except ε α} {change : ε → δ}
    {result : α} :
    outcome.mapError change = .ok result ↔ outcome = .ok result := by
  cases outcome <;> simp [Except.mapError]

theorem mapM_eq_ok_iff {step : α → Except ε β} {items : List α}
    {results : List β} :
    items.mapM step = .ok results ↔
      List.Forall₂ (fun item result => step item = .ok result)
        items results := by
  induction items generalizing results with
  | nil => simp [pure, Except.pure, eq_comm]
  | cons item rest induction =>
      rw [List.mapM_cons, bind_eq_ok_iff]
      constructor
      · rintro ⟨result, stepped, remaining⟩
        rcases bind_eq_ok_iff.mp remaining with ⟨more, restStepped, final⟩
        cases final
        exact .cons stepped (induction.mp restStepped)
      · intro each
        cases each with
        | cons stepped rest =>
            exact ⟨_, stepped, bind_eq_ok_iff.mpr
              ⟨_, induction.mpr rest, rfl⟩⟩

/-- A chain of equal steps fails at the first item at which the step fails. -/
theorem mapM_eq_error_iff {step : α → Except ε β} {items : List α}
    {failure : ε} :
    items.mapM step = .error failure ↔
      ∃ before item after, items = before ++ item :: after ∧
        (∀ earlier ∈ before, ∃ result, step earlier = .ok result) ∧
          step item = .error failure := by
  induction items with
  | nil => simp [pure, Except.pure]
  | cons first rest induction =>
      have tail (result : β) :
          (rest.mapM step >>= fun results => pure (result :: results)) =
              .error failure ↔
            rest.mapM step = .error failure := by
        simp [bind_eq_error_iff, pure, Except.pure]
      simp only [List.mapM_cons, bind_eq_error_iff, tail, induction]
      constructor
      · rintro (failed | ⟨result, stepped, before, item, after, rfl, each,
          failed⟩)
        · exact ⟨[], first, rest, rfl, by simp, failed⟩
        · refine ⟨first :: before, item, after, rfl, ?_, failed⟩
          intro earlier member
          rcases List.mem_cons.mp member with rfl | member
          · exact ⟨result, stepped⟩
          · exact each earlier member
      · rintro ⟨before, item, after, split, each, failed⟩
        cases before with
        | nil =>
            cases split
            exact .inl failed
        | cons head before =>
            cases split
            rcases each first (by simp) with ⟨result, stepped⟩
            refine .inr ⟨result, stepped, before, item, after, rfl, ?_, failed⟩
            exact fun earlier member =>
              each earlier (List.mem_cons_of_mem _ member)

theorem exists_mapM_eq_ok {step : α → Except ε β} {items : List α}
    (each : ∀ item ∈ items, ∃ result, step item = .ok result) :
    ∃ results, items.mapM step = .ok results := by
  cases mapped : items.mapM step with
  | ok results => exact ⟨results, rfl⟩
  | error failure =>
      rcases mapM_eq_error_iff.mp mapped with
        ⟨before, item, after, rfl, -, failed⟩
      rcases each item (by simp) with ⟨result, returned⟩
      rw [failed] at returned
      cases returned

theorem mapM_ne_error {step : α → Except ε β} {items : List α}
    {failure : ε} (avoids : ∀ item ∈ items, step item ≠ .error failure) :
    items.mapM step ≠ .error failure := by
  induction items with
  | nil => simp [pure, Except.pure]
  | cons item rest induction =>
      rw [List.mapM_cons]
      apply bind_ne_error
      · exact avoids item (by simp)
      intro result
      refine bind_ne_error ?_ fun results => ?_
      · exact induction fun other member =>
          avoids other (List.mem_cons_of_mem _ member)
      · simp [pure, Except.pure]

/-! ## Lenient calls -/

theorem lenient_eq_some_iff {outcome : Except Failure α} {answer : α} :
    lenient outcome = .ok (some answer) ↔ outcome = .ok answer := by
  rcases outcome with (problem | fault) | answer <;> simp [lenient]

theorem lenient_eq_none_iff {outcome : Except Failure α} :
    lenient outcome = .ok none ↔
      ∃ problem, outcome = .error (.problem problem) := by
  rcases outcome with (problem | fault) | answer <;> simp [lenient]

theorem lenient_eq_error_iff {outcome : Except Failure α} {fault : Fault} :
    lenient outcome = .error fault ↔ outcome = .error (.fault fault) := by
  rcases outcome with (problem | fault) | answer <;> simp [lenient]

/-- A call answers something or nothing if all its errors are problems. -/
theorem lenient_mapError {outcome : Except ε α} {failure : ε → Failure}
    (problems : ∀ error, outcome = .error error →
      ∃ problem, failure error = .problem problem) :
    lenient (outcome.mapError failure) = .ok outcome.toOption := by
  cases outcome with
  | ok answer => rfl
  | error error =>
      rcases problems error rfl with ⟨problem, isProblem⟩
      rw [Except.mapError, isProblem, lenient, Except.toOption]

end Timetable
