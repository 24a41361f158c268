import Timetable.Calendar.Moment
import Timetable.Proofs.Calendar.DayNumber

/-!
# Moments by their parts

A moment is its day, its clock time and its offset, and it is determined by
them.

The order of moments is the one of their instants, as far as both or neither
have an offset.  Among moments of one offset it is the order of their ticks,
and among those of one clock time besides, the order of their days.
-/

namespace Timetable.Calendar

theorem minuteCount_eq : minuteCount = 5258964960 := by
  decide

theorem calendarTicks_eq : calendarTicks = 315537897600000000 := by
  decide

namespace Moment

/-! ## Parts -/

theorem ticks_eq (moment : Moment) :
    moment.ticks = moment.dayNumber * dayTicks + moment.clock := by
  simp only [dayNumber, clock, Nat.mul_comm _ dayTicks]
  exact (Nat.div_add_mod moment.ticks dayTicks).symm

theorem clock_lt (moment : Moment) : moment.clock < dayTicks :=
  Nat.mod_lt _ (by decide)

theorem dayNumber_lt (moment : Moment) : moment.dayNumber < dayCount :=
  Nat.div_lt_of_lt_mul (by
    rw [Nat.mul_comm]
    exact moment.reached)

/-- The date of a moment exists. -/
theorem date_valid (moment : Moment) : moment.date.Valid :=
  Date.valid_ofDayNumber moment.dayNumber_lt

@[simp]
theorem dayNumber_date (moment : Moment) :
    moment.date.dayNumber = moment.dayNumber :=
  Date.dayNumber_ofDayNumber _

theorem ext_ticks {left right : Moment} (ticks : left.ticks = right.ticks)
    (offset : left.offset = right.offset) : left = right := by
  cases left
  cases right
  cases ticks
  cases offset
  rfl

/-- A moment is determined by its day, its clock time and its offset. -/
theorem ext_parts {left right : Moment}
    (day : left.dayNumber = right.dayNumber)
    (clock : left.clock = right.clock)
    (offset : left.offset = right.offset) : left = right := by
  apply ext_ticks _ offset
  rw [ticks_eq left, ticks_eq right, day, clock]

/-- A number of ticks splits into days and a clock time in one way. -/
theorem split_ticks (day : Nat) {clock : Nat} (inside : clock < dayTicks) :
    (day * dayTicks + clock) / dayTicks = day ∧
      (day * dayTicks + clock) % dayTicks = clock := by
  have positive : 0 < dayTicks := Nat.lt_of_le_of_lt (Nat.zero_le _) inside
  constructor
  · rw [Nat.mul_comm, Nat.mul_add_div positive, Nat.div_eq_of_lt inside,
      Nat.add_zero]
  · rw [Nat.mul_comm, Nat.mul_add_mod, Nat.mod_eq_of_lt inside]

/-- The day, clock time and offset of `day` at the clock time of `clock`. -/
theorem atTimeOf_parts (day clock : Moment) :
    (day.atTimeOf clock).dayNumber = day.dayNumber ∧
      (day.atTimeOf clock).clock = clock.clock ∧
        (day.atTimeOf clock).offset = day.offset :=
  ⟨(split_ticks _ clock.clock_lt).1, (split_ticks _ clock.clock_lt).2, rfl⟩

@[simp]
theorem ticks_ofMinute (minute : Minute) (offset : Option Int) :
    (ofMinute minute offset).ticks = minute.val * minuteTicks :=
  rfl

@[simp]
theorem offset_ofMinute (minute : Minute) (offset : Option Int) :
    (ofMinute minute offset).offset = offset :=
  rfl

@[simp]
theorem minute_ofMinute (minute : Minute) (offset : Option Int) :
    (ofMinute minute offset).minute = minute :=
  Fin.ext (Nat.mul_div_cancel minute.val (by decide))

/-! ## Order -/

/-- One moment is earlier than another. -/
def Before (left right : Moment) : Prop :=
  left.isAware = right.isAware ∧ left.instant < right.instant

/-- One moment is earlier than another or at the same instant. -/
def NotAfter (left right : Moment) : Prop :=
  left.isAware = right.isAware ∧ left.instant ≤ right.instant

instance (left right : Moment) : Decidable (left.Before right) :=
  inferInstanceAs (Decidable (_ ∧ _))

instance (left right : Moment) : Decidable (left.NotAfter right) :=
  inferInstanceAs (Decidable (_ ∧ _))

theorem isAware_eq {left right : Moment}
    (offset : left.offset = right.offset) : left.isAware = right.isAware := by
  rw [isAware, isAware, offset]

theorem precedes?_of_aware {left right : Moment}
    (aware : left.isAware = right.isAware) :
    left.precedes? right = some (decide (left.Before right)) := by
  simp [precedes?, comparable, Before, aware]

theorem precedes?_eq_some_iff {left right : Moment} {earlier : Bool} :
    left.precedes? right = some earlier ↔
      left.isAware = right.isAware ∧
        earlier = decide (left.Before right) := by
  by_cases aware : left.isAware = right.isAware
  · simp [precedes?_of_aware aware, aware, eq_comm]
  · simp [precedes?, comparable, aware]

theorem precedes?_eq_true_iff {left right : Moment} :
    left.precedes? right = some true ↔ left.Before right := by
  rw [precedes?_eq_some_iff]
  constructor
  · rintro ⟨-, earlier⟩
    exact of_decide_eq_true earlier.symm
  · intro before
    exact ⟨before.1, (decide_eq_true before).symm⟩

theorem not_before_iff {left right : Moment}
    (aware : left.isAware = right.isAware) :
    ¬ left.Before right ↔ right.NotAfter left := by
  simp [Before, NotAfter, aware]

theorem Before.notAfter {left right : Moment} (before : left.Before right) :
    left.NotAfter right :=
  ⟨before.1, Int.le_of_lt before.2⟩

theorem Before.trans {first second third : Moment}
    (before : first.Before second) (next : second.Before third) :
    first.Before third :=
  ⟨before.1.trans next.1, Int.lt_trans before.2 next.2⟩

theorem Before.asymm {left right : Moment} (before : left.Before right) :
    ¬ right.Before left :=
  fun later => Int.lt_asymm before.2 later.2

instance : Std.Irrefl Before :=
  ⟨fun _ before => before.asymm before⟩

instance : Std.Antisymm Before :=
  ⟨fun _ _ before later => absurd later before.asymm⟩

theorem NotAfter.trans {first second third : Moment}
    (notAfter : first.NotAfter second) (next : second.NotAfter third) :
    first.NotAfter third :=
  ⟨notAfter.1.trans next.1, Int.le_trans notAfter.2 next.2⟩

theorem NotAfter.trans_before {first second third : Moment}
    (notAfter : first.NotAfter second) (next : second.Before third) :
    first.Before third :=
  ⟨notAfter.1.trans next.1, Int.lt_of_le_of_lt notAfter.2 next.2⟩

theorem Before.trans_notAfter {first second third : Moment}
    (before : first.Before second) (next : second.NotAfter third) :
    first.Before third :=
  ⟨before.1.trans next.1, Int.lt_of_lt_of_le before.2 next.2⟩

theorem NotAfter.refl (moment : Moment) : moment.NotAfter moment :=
  ⟨rfl, Int.le_refl _⟩

theorem before_iff_ticks {left right : Moment}
    (offset : left.offset = right.offset) :
    left.Before right ↔ left.ticks < right.ticks := by
  simp only [Before, isAware, instant, offset, true_and]
  omega

/-- On a later day of the same offset every clock time is later. -/
theorem before_of_dayNumber_lt {left right : Moment}
    (offset : left.offset = right.offset)
    (later : left.dayNumber < right.dayNumber) : left.Before right := by
  rw [before_iff_ticks offset, ticks_eq left, ticks_eq right]
  have inside := left.clock_lt
  have days : (left.dayNumber + 1) * dayTicks ≤
      right.dayNumber * dayTicks :=
    Nat.mul_le_mul_right _ later
  rw [Nat.succ_mul] at days
  omega

theorem NotAfter.dayNumber_le {left right : Moment}
    (notAfter : left.NotAfter right) (offset : left.offset = right.offset) :
    left.dayNumber ≤ right.dayNumber := by
  by_contra later
  have before := before_of_dayNumber_lt offset.symm (Nat.lt_of_not_le later)
  exact (not_before_iff notAfter.1.symm).mpr notAfter before

end Moment

/-- Midnight of 1 January 2024, where many examples begin. -/
def newYear : Moment where
  ticks := 63839664000000000
  offset := none

end Timetable.Calendar
