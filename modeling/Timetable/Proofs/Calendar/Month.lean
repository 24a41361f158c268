import Timetable.Proofs.Calendar.DayNumber

/-!
# Months without gaps

`Date.monthNumber` counts the months from January of year 0 on without regard
to years.  The first of a month has the day number `firstOfMonth`, which grows
from a month to the next by the length of the month, 28 to 31 days.  A date is
its month number together with the days after the first of that month.
-/

namespace Timetable.Calendar

/-- The day number of the first of a numbered month. -/
def firstOfMonth (number : Nat) : Nat :=
  Date.dayNumber ⟨number / 12, number % 12 + 1, 1⟩

/-- The length of a numbered month. -/
def monthLength (number : Nat) : Nat :=
  daysInMonth (number / 12) (number % 12 + 1)

theorem monthLength_spec (number : Nat) :
    (monthLengths (number / 12))[number % 12]? =
      some (monthLength number) := by
  have inside : number % 12 < (monthLengths (number / 12)).length :=
    Nat.mod_lt _ (by decide)
  rw [List.getElem?_eq_getElem inside, monthLength,
    daysInMonth_eq (List.getElem?_eq_getElem inside)]

theorem monthLength_bounds (number : Nat) :
    28 ≤ monthLength number ∧ monthLength number ≤ 31 := by
  have member := List.mem_of_getElem? (monthLength_spec number)
  generalize monthLength number = length at member
  simp only [monthLengths, List.mem_cons, List.not_mem_nil, or_false]
    at member
  split at member <;> omega

/-- A month begins where the month before it ends. -/
theorem firstOfMonth_succ {number : Nat} (reached : 12 ≤ number) :
    firstOfMonth (number + 1) =
      firstOfMonth number + monthLength number := by
  rcases List.getElem?_eq_some_iff.mp (monthLength_spec number) with
    ⟨inside, lengthEq⟩
  have through :
      ((monthLengths (number / 12)).take (number % 12 + 1)).sum =
        ((monthLengths (number / 12)).take (number % 12)).sum +
          monthLength number := by
    rw [List.sum_take_succ _ _ inside, lengthEq]
  simp only [firstOfMonth, Date.dayNumber, daysBeforeMonth_eq,
    Nat.add_sub_cancel]
  by_cases december : number % 12 = 11
  · have nextYear : (number + 1) / 12 = number / 12 + 1 := by omega
    have january : (number + 1) % 12 = 0 := by omega
    have whole :
        (monthLengths (number / 12)).take (number % 12 + 1) =
          monthLengths (number / 12) := by
      rw [december]
      rfl
    rw [whole, sum_monthLengths] at through
    rw [nextYear, january, daysBeforeYear_succ (by omega), through]
    simp
    omega
  · have sameYear : (number + 1) / 12 = number / 12 := by omega
    have nextMonth : (number + 1) % 12 = number % 12 + 1 := by omega
    rw [sameYear, nextMonth, through]
    omega

/-- Later months begin later, by at least 28 days for each month. -/
theorem firstOfMonth_add_le {number : Nat} (reached : 12 ≤ number)
    (months : Nat) :
    firstOfMonth number + 28 * months ≤ firstOfMonth (number + months) := by
  induction months with
  | zero => exact Nat.le_refl _
  | succ months induction =>
      have next :
          firstOfMonth (number + months + 1) =
            firstOfMonth (number + months) + monthLength (number + months) :=
        firstOfMonth_succ (Nat.le_add_right_of_le reached)
      have shortest := (monthLength_bounds (number + months)).1
      rw [← Nat.add_assoc, next]
      omega

theorem firstOfMonth_lt {earlier later : Nat} (reached : 12 ≤ earlier)
    (ordered : earlier < later) :
    firstOfMonth earlier < firstOfMonth later := by
  have grown := firstOfMonth_add_le reached (later - earlier)
  rw [Nat.add_sub_cancel' (Nat.le_of_lt ordered)] at grown
  omega

theorem firstOfMonth_eq (year index : Nat) (inside : index < 12) :
    firstOfMonth (year * 12 + index) =
      Date.dayNumber ⟨year, index + 1, 1⟩ := by
  have yearEq : (year * 12 + index) / 12 = year := by omega
  have indexEq : (year * 12 + index) % 12 = index := by omega
  rw [firstOfMonth, yearEq, indexEq]

theorem firstOfMonth_mono {earlier later : Nat} (reached : 12 ≤ earlier)
    (ordered : earlier ≤ later) :
    firstOfMonth earlier ≤ firstOfMonth later := by
  rcases Nat.lt_or_eq_of_le ordered with before | rfl
  · exact Nat.le_of_lt (firstOfMonth_lt reached before)
  · exact Nat.le_refl _

/-- A date lies as many days after the first of its month as it says. -/
theorem Date.dayNumber_eq {date : Date} (positive : 1 ≤ date.month)
    (bound : date.month ≤ 12) :
    date.dayNumber = firstOfMonth date.monthNumber + (date.day - 1) := by
  rw [monthNumber, firstOfMonth_eq _ _ (by omega),
    Nat.sub_add_cancel positive]
  simp [dayNumber]

/-- Year and month are found again from the number of the month. -/
theorem Date.monthNumber_parts {date : Date} (positive : 1 ≤ date.month)
    (bound : date.month ≤ 12) :
    date.monthNumber / 12 = date.year ∧
      date.monthNumber % 12 + 1 = date.month := by
  rw [monthNumber]
  omega

theorem Date.monthLength_monthNumber {date : Date}
    (positive : 1 ≤ date.month) (bound : date.month ≤ 12) :
    Calendar.monthLength date.monthNumber =
      daysInMonth date.year date.month := by
  rcases date.monthNumber_parts positive bound with ⟨yearEq, monthEq⟩
  rw [Calendar.monthLength, yearEq, monthEq]

theorem Date.Valid.day_le_monthLength {date : Date} (valid : date.Valid) :
    date.day ≤ Calendar.monthLength date.monthNumber := by
  rcases valid with ⟨-, -, monthPositive, monthBound, -, dayBound⟩
  rw [monthLength_monthNumber monthPositive monthBound]
  exact dayBound

theorem Date.Valid.day_le {date : Date} (valid : date.Valid) :
    date.day ≤ 31 :=
  Nat.le_trans valid.day_le_monthLength (monthLength_bounds _).2

/-- A date lies before the first of every later month. -/
theorem Date.Valid.dayNumber_lt_firstOfMonth {date : Date}
    (valid : date.Valid) {number : Nat} (later : date.monthNumber < number) :
    date.dayNumber < firstOfMonth number := by
  have length := valid.day_le_monthLength
  rcases valid with ⟨yearPositive, -, positive, bound, dayPositive, -⟩
  have reached : 12 ≤ date.monthNumber := by
    rw [monthNumber]
    omega
  have next := firstOfMonth_succ reached
  have begun : firstOfMonth (date.monthNumber + 1) ≤ firstOfMonth number :=
    firstOfMonth_mono (by omega) later
  rw [dayNumber_eq positive bound]
  omega

theorem Date.monthNumber_mono {earlier later : Date} (valid : earlier.Valid)
    (laterValid : later.Valid)
    (ordered : earlier.dayNumber ≤ later.dayNumber) :
    earlier.monthNumber ≤ later.monthNumber := by
  by_contra turned
  have before := laterValid.dayNumber_lt_firstOfMonth
    (Nat.lt_of_not_le turned)
  rcases valid with ⟨-, -, positive, bound, -⟩
  rw [dayNumber_eq positive bound] at ordered
  omega

end Timetable.Calendar
