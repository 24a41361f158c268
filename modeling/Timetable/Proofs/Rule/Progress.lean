import Timetable.Proofs.Calendar.Turn
import Timetable.Proofs.Rule.Drift

/-!
# How candidates move on

A calendar step by more units leads further, also where its day rolls over into
the month that one more unit aims at: `add_goes_forward` says so for every unit,
and with it that every candidate comes after the one it follows.

The candidates of a monthly or yearly plan that jumps are equally many months
apart (`Plan.monthStride`).  `candidates_turn_once` tells from the first of them
where all others are: at one step of all their months until the day of the month
turns, and a month further from there on.
-/

namespace Timetable

open Timetable.Calendar

/--
The amounts by which a moment can be moved lie between two bounds around zero.
Zero does not move it, and more units move it further.  So every candidate of an
accepted draft is followed by a later one or by none.
-/
theorem add_goes_forward (moment : Moment) (unit : CalendarUnit) :
    (∀ amount : Int, (∃ result, moment.add amount unit = .ok result) ↔
      -(moment.unitsBack unit : Int) ≤ amount ∧
        amount ≤ moment.unitsOn unit) ∧
    moment.add 0 unit = .ok moment ∧
    (∀ (fewer more : Int) (earlier later : Moment), fewer < more →
      moment.add fewer unit = .ok earlier →
      moment.add more unit = .ok later → earlier.Before later) ∧
    (∀ (draft : Draft) (plan : Plan), draft.validate = .ok plan →
      ∀ candidate next, draft.read.nextCandidate candidate = .ok next →
        candidate.Before next) := by
  refine ⟨fun amount => Moment.exists_add_iff, moment.add_zero unit, ?_, ?_⟩
  · intro fewer more earlier later ordered moved onward
    exact (Moment.add_ordered ordered moved onward).before
  · intro draft plan accepted candidate next moved
    rw [read_of_validate accepted] at moved
    exact (nextCandidate_daysBefore (valid_of_validate accepted) moved).before

/-- From New Year's Eve on, two months lead less far than three. -/
theorem add_goes_forward_newYearsEve :
    newYearsEve.add 2 .month = .ok thirdOfMarch ∧
    newYearsEve.add 3 .month = .ok lastOfMarch ∧
    thirdOfMarch.Before lastOfMarch ∧
    (∃ result, newYearsEve.add (-24287) .month = .ok result) ∧
    ¬ (∃ result, newYearsEve.add (-24288) .month = .ok result) ∧
    lastDays.validate = .ok lastDaysPlan ∧
    lastDays.read.nextCandidate lastOfJanuary = .ok secondOfMarch ∧
    lastOfJanuary.Before secondOfMarch := by
  have fewer : newYearsEve.add 2 .month = .ok thirdOfMarch := rfl
  have more : newYearsEve.add 3 .month = .ok lastOfMarch := rfl
  have accepted : lastDays.validate = .ok lastDaysPlan := rfl
  have moved : lastDays.read.nextCandidate lastOfJanuary =
      .ok secondOfMarch := rfl
  rcases add_goes_forward newYearsEve .month with
    ⟨reaches, -, grows, follows⟩
  exact ⟨fewer, more, grows 2 3 _ _ (by decide) fewer more,
    (reaches _).mpr (by decide), fun moved => absurd ((reaches _).mp moved)
      (by decide), accepted, moved, follows _ _ accepted _ _ moved⟩

/--
The candidates of an accepted monthly or yearly draft that jumps change the day
of the month at one of them at most, wherever they begin.

Up to there, a candidate is found by one step of all intervals at once.  From
there on the day is one of the first three, always the same, and the candidate
is a month further than such a step aims at.
-/
theorem candidates_turn_once {draft : Draft} {plan : Plan}
    (accepted : draft.validate = .ok plan)
    (jumps : draft.read.strategy = .ok .jump)
    (inMonths : plan.frequency = .monthly ∨ plan.frequency = .yearly)
    (first : Moment) :
    (∀ turn other, Moment.TurnsAt draft.read.nextCandidate first turn →
      Moment.TurnsAt draft.read.nextCandidate first other → turn = other) ∧
    (∀ index candidate,
      walk draft.read.nextCandidate first index = .ok candidate →
      (∀ earlier < index,
        ¬ Moment.TurnsAt draft.read.nextCandidate first earlier) →
      first.add (index * plan.interval) plan.frequency.unit =
          .ok candidate ∧
        first.monthsBetween candidate = index * plan.monthStride) ∧
    (∀ turn, Moment.TurnsAt draft.read.nextCandidate first turn →
      ∃ day, 1 ≤ day ∧ day ≤ 3 ∧ ∀ index candidate, turn < index →
        walk draft.read.nextCandidate first index = .ok candidate →
        candidate.date.day = day ∧
          first.monthsBetween candidate =
            index * plan.monthStride + 1) := by
  have valid := valid_of_validate accepted
  rw [read_of_validate accepted] at jumps ⊢
  have notScans := strategy_eq_jump_iff.mp jumps
  have positive := valid.monthStride_pos
  rcases Int.eq_ofNat_of_zero_le (by omega : 0 ≤ plan.monthStride) with
    ⟨stride, strideEq⟩
  have strides {candidate next : Moment}
      (moved : plan.rule.nextCandidate candidate = .ok next) :
      candidate.addMonths stride = .ok next := by
    rw [← strideEq]
    exact addMonths_of_nextCandidate notScans inMonths moved
  simp only [add_eq_addMonths inMonths, strideEq]
  exact ⟨fun _ _ => Moment.turnsAt_unique strides,
    fun _ _ => Moment.addMonths_of_unturned strides,
    fun _ => Moment.walk_of_turned strides⟩

/-- Midnight of 31 January 2025. -/
def monthAfterEve : Moment where
  ticks := 63873878400000000
  offset := none

/-- Midnight of 3 April 2025. -/
def thirdOfApril : Moment where
  ticks := 63879235200000000
  offset := none

/-- From New Year's Eve on, the day turns with the step out of January. -/
theorem candidates_turn_once_newYearsEve :
    lastDays.validate = .ok lastDaysPlan ∧
    lastDays.read.strategy = .ok .jump ∧
    lastDaysPlan.frequency = .monthly ∧
    walk lastDays.read.nextCandidate newYearsEve 1 = .ok monthAfterEve ∧
    ¬ Moment.TurnsAt lastDays.read.nextCandidate newYearsEve 0 ∧
    newYearsEve.add 1 .month = .ok monthAfterEve ∧
    Moment.TurnsAt lastDays.read.nextCandidate newYearsEve 1 ∧
    walk lastDays.read.nextCandidate newYearsEve 3 = .ok thirdOfApril ∧
    newYearsEve.monthsBetween thirdOfApril = 4 := by
  have accepted : lastDays.validate = .ok lastDaysPlan := rfl
  have jumps : lastDays.read.strategy = .ok .jump := rfl
  have monthly : lastDaysPlan.frequency = .monthly := rfl
  have january : walk lastDays.read.nextCandidate newYearsEve 1 =
      .ok monthAfterEve := rfl
  have march : lastDays.read.nextCandidate monthAfterEve =
      .ok thirdOfMarch := rfl
  have second : walk lastDays.read.nextCandidate newYearsEve 2 =
      .ok thirdOfMarch := walk_succ_eq_ok_iff.mpr ⟨_, january, march⟩
  have april : walk lastDays.read.nextCandidate newYearsEve 3 =
      .ok thirdOfApril := walk_succ_eq_ok_iff.mpr ⟨_, second, rfl⟩
  have turns : Moment.TurnsAt lastDays.read.nextCandidate newYearsEve 1 :=
    ⟨monthAfterEve, thirdOfMarch, january, march, by decide⟩
  rcases candidates_turn_once accepted jumps (.inl monthly) newYearsEve with
    ⟨unique, before, behind⟩
  have never : ¬ Moment.TurnsAt lastDays.read.nextCandidate newYearsEve 0 :=
    fun turnsToo => absurd (unique 1 0 turns turnsToo) (by decide)
  have unturned : ∀ earlier < 1,
      ¬ Moment.TurnsAt lastDays.read.nextCandidate newYearsEve earlier := by
    intro earlier ordered
    rwa [Nat.lt_one_iff.mp ordered]
  rcases behind 1 turns with ⟨day, -, -, further⟩
  exact ⟨accepted, jumps, monthly, january, never,
    (before 1 _ january unturned).1, turns, april,
    (further 3 _ (by decide) april).2⟩

end Timetable
