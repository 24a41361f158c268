import Timetable.Clock

/-!
# Readings and open sequences

A clock is read if no moment is given, and only then.  A reading that the clock
still has is as good as the same moment given outright.

A sequence stays under its name until one is put there.
-/

namespace Timetable

open Timetable.Calendar

namespace Clock

/-- The reading that the clock gives next, if it has one left. -/
def upcoming (clock : Clock) : Option Moment :=
  clock.readings[clock.used]?

/-- A clock is read once, if at all, whether or not it has a reading left. -/
theorem readUnless_eq (clock : Clock) (given : Option Moment) :
    clock.readUnless given =
      (((given.or clock.upcoming).elim (.error .clockExhausted) .ok),
        ⟨clock.readings,
          if given.isNone then clock.used + 1 else clock.used⟩) := by
  cases given with
  | some moment => rfl
  | none =>
      rw [readUnless, read, upcoming]
      cases clock.readings[clock.used]? <;> rfl

/-- A clock that gives the moment that another one gives keeps its readings. -/
theorem readUnless_of_agree {clock other : Clock}
    {given now : Option Moment}
    (agree : (other.readUnless given).1 = (clock.readUnless now).1) :
    ∃ used, other.readUnless given =
      ((clock.readUnless now).1, ⟨other.readings, used⟩) := by
  rw [← agree, readUnless_eq]
  exact ⟨_, rfl⟩

/-- A clock that has run out takes nothing from what another one would give. -/
theorem readUnless_pinned (clock : Clock) (used : Nat)
    (given : Option Moment) :
    (readUnless ⟨[], used⟩ (given.or clock.upcoming)).1 =
      (clock.readUnless given).1 := by
  rw [readUnless_eq, readUnless_eq]
  cases given with
  | some moment => rfl
  | none => cases clock.upcoming <;> rfl

/-- The reading that comes next may as well be given outright. -/
theorem readUnless_upcoming {clock : Clock} {pivot : Moment}
    (next : clock.upcoming = some pivot) (given : Option Moment) :
    (clock.readUnless (given.or (some pivot))).1 =
      (clock.readUnless given).1 := by
  rw [readUnless_eq, readUnless_eq, next]
  cases given <;> rfl

end Clock

namespace OpenSequences

variable {α : Type}

theorem get?_cons (other : String) (sequence : α)
    (rest : OpenSequences α) (name : String) :
    get? ((other, sequence) :: rest) name =
      if other = name then some sequence else get? rest name := by
  rw [get?, List.lookup_cons]
  by_cases same : other = name
  · simp [same]
  · have different : (name == other) = false :=
      beq_false_of_ne fun equal => same equal.symm
    rw [different, if_neg same]
    rfl

theorem get?_put_self (sequences : OpenSequences α) (name : String)
    (opened : α) : (sequences.put name opened).get? name = some opened := by
  induction sequences with
  | nil => exact (get?_cons _ _ _ _).trans (if_pos rfl)
  | cons first rest induction =>
      rcases first with ⟨other, sequence⟩
      by_cases same : other = name
      · rw [put, if_pos same, get?_cons, if_pos rfl]
      · rw [put, if_neg same, get?_cons, if_neg same]
        exact induction

theorem get?_put_of_ne (sequences : OpenSequences α) {name other : String}
    (opened : α) (different : other ≠ name) :
    (sequences.put other opened).get? name = sequences.get? name := by
  induction sequences with
  | nil => exact (get?_cons _ _ _ _).trans (if_neg different)
  | cons first rest induction =>
      rcases first with ⟨present, sequence⟩
      by_cases same : present = other
      · subst same
        rw [put, if_pos rfl, get?_cons, get?_cons, if_neg different,
          if_neg different]
      · rw [put, if_neg same, get?_cons, get?_cons]
        exact congrArg _ induction

end OpenSequences

end Timetable
