import Timetable.Proofs.Calendar.Rollover

/-!
# The turn of the day

On a walk of equally many months the day of the month turns at most once.  It
turns with the first of the months stepped to that lacks the day of the first
moment (`turnsAt_iff`), and it turns to one of the first three days, which no
month lacks.

Before the turn, a walk of several steps is one step of all their months
(`addMonths_of_unturned`).  From the turn on, the day stays the one that it
turned to, and the walk is one month ahead of that step (`walk_of_turned`).
-/

namespace Timetable.Calendar

namespace Moment

variable {ε : Type} {step : Moment → Except ε Moment}

/-- The day of the month changes with a step of a walk. -/
def TurnsAt (step : Moment → Except ε Moment) (first : Moment)
    (index : Nat) : Prop :=
  ∃ candidate next, walk step first index = .ok candidate ∧
    step candidate = .ok next ∧ next.date.day ≠ candidate.date.day

theorem turnsAt_iff_of_walk {first candidate next : Moment} {index : Nat}
    (reached : walk step first index = .ok candidate)
    (moved : step candidate = .ok next) :
    TurnsAt step first index ↔ next.date.day ≠ candidate.date.day := by
  constructor
  · rintro ⟨same, sameNext, sameReached, sameMoved, changed⟩
    rw [reached] at sameReached
    cases sameReached
    rw [moved] at sameMoved
    cases sameMoved
    exact changed
  · exact fun changed => ⟨candidate, next, reached, moved, changed⟩

section Months

variable {stride : Nat}
  (strides : ∀ {candidate next : Moment}, step candidate = .ok next →
    candidate.addMonths stride = .ok next)
  {first candidate : Moment} {index : Nat}

include strides

/-- The day turns with the first of the months that lacks it. -/
theorem turnsAt_iff (reached : walk step first (index + 1) = .ok candidate) :
    TurnsAt step first index ↔
      ¬ first.LackedDay stride index ∧
        first.LackedDay stride (index + 1) := by
  rcases walk_succ_eq_ok_iff.mp reached with ⟨before, beforeReached, moved⟩
  rcases walk_addMonths strides beforeReached with ⟨kept, rolled⟩
  rcases walk_addMonths strides reached with ⟨nextKept, nextRolled⟩
  rw [turnsAt_iff_of_walk beforeReached moved]
  by_cases lacked : first.LackedDay stride index
  · have early := (rolled lacked).2
    have keeps := (addMonths_date (strides moved)).1
      (not_lacksDay_of_le (by omega) stride)
    simp [lacked, keeps.2]
  by_cases nextLacked : first.LackedDay stride (index + 1)
  · have day := (kept lacked).2
    have early := (nextRolled nextLacked).2
    -- Only the last three days are ever lacked.
    have late : 28 < first.date.day := by
      have lacks := (lackedDay_succ_iff.mp nextLacked).resolve_left lacked
      exact Nat.lt_of_le_of_lt (monthLength_bounds _).1 lacks
    simp only [lacked, nextLacked, not_false_eq_true, and_self, iff_true]
    omega
  · have day := (kept lacked).2
    have nextDay := (nextKept nextLacked).2
    simp [nextLacked, day, nextDay]

theorem lackedDay_of_turnsAt (turns : TurnsAt step first index) :
    ¬ first.LackedDay stride index ∧
      first.LackedDay stride (index + 1) := by
  have ⟨before, next, beforeReached, moved, _⟩ := turns
  have reached := walk_succ_eq_ok_iff.mpr ⟨before, beforeReached, moved⟩
  exact (turnsAt_iff strides reached).mp turns

/-- There is one turn at most. -/
theorem turnsAt_unique {other : Nat} (turns : TurnsAt step first index)
    (turnsToo : TurnsAt step first other) : index = other := by
  have ⟨notBefore, turned⟩ := lackedDay_of_turnsAt strides turns
  have ⟨notBeforeOther, turnedOther⟩ := lackedDay_of_turnsAt strides turnsToo
  rcases Nat.lt_trichotomy index other with earlier | same | later
  · exact absurd (turned.mono earlier) notBeforeOther
  · exact same
  · exact absurd (turnedOther.mono later) notBefore

/-! ## Before the turn -/

/-- As long as the day did not turn, every month has it. -/
theorem not_lackedDay_of_unturned
    (reached : walk step first index = .ok candidate)
    (unturned : ∀ earlier < index, ¬ TurnsAt step first earlier) :
    ¬ first.LackedDay stride index := by
  induction index generalizing candidate with
  | zero => exact first.not_lackedDay_zero stride
  | succ index induction =>
      rcases walk_succ_eq_ok_iff.mp reached with ⟨before, beforeReached, -⟩
      have never := induction beforeReached fun earlier ordered =>
        unturned earlier (Nat.lt_succ_of_lt ordered)
      intro lacked
      exact unturned index (Nat.lt_succ_self index)
        ((turnsAt_iff strides reached).mpr ⟨never, lacked⟩)

theorem walk_addMonths_parts
    (reached : walk step first index = .ok candidate) :
    candidate.clock = first.clock ∧ candidate.offset = first.offset := by
  have kept : ∀ {before next : Moment}, step before = .ok next →
      before.clock = first.clock ∧ before.offset = first.offset →
      next.clock = first.clock ∧ next.offset = first.offset := by
    intro before next moved parts
    rcases addMonths_eq_ok_iff.mp (strides moved) with
      ⟨-, -, -, -, -, clock, offset⟩
    exact ⟨clock.trans parts.1, offset.trans parts.2⟩
  exact walk_invariant kept reached ⟨rfl, rfl⟩

/-- As long as the day did not turn, all steps are one. -/
theorem addMonths_of_unturned
    (reached : walk step first index = .ok candidate)
    (unturned : ∀ earlier < index, ¬ TurnsAt step first earlier) :
    first.addMonths (index * stride) = .ok candidate ∧
      first.monthsBetween candidate = index * stride := by
  have never := not_lackedDay_of_unturned strides reached unturned
  have ⟨month, day⟩ := (walk_addMonths strides reached).1 never
  have ⟨clock, offset⟩ := walk_addMonths_parts strides reached
  have months := monthsBetween_walk strides reached
  rw [if_neg never, Int.add_zero] at months
  exact ⟨addMonths_of_same_day (by rw [month]; rfl) day clock offset, months⟩

/-! ## From the turn on -/

/-- An early day of the month is kept. -/
theorem walk_keeps_day (early : first.date.day ≤ 28)
    (reached : walk step first index = .ok candidate) :
    candidate.date.day = first.date.day := by
  refine ((walk_addMonths strides reached).1 ?_).2
  rintro ⟨earlier, -, lacks⟩
  exact not_lacksDay_of_le early _ lacks

/-- Behind its turn, the day is a fixed one of the first three. -/
theorem walk_of_turned {turn : Nat} (turns : TurnsAt step first turn) :
    ∃ day, 1 ≤ day ∧ day ≤ 3 ∧ ∀ index candidate, turn < index →
      walk step first index = .ok candidate →
      candidate.date.day = day ∧
        first.monthsBetween candidate = index * stride + 1 := by
  have ⟨_, turned⟩ := lackedDay_of_turnsAt strides turns
  rcases turns with ⟨before, next, beforeReached, moved, -⟩
  have reached := walk_succ_eq_ok_iff.mpr ⟨before, beforeReached, moved⟩
  have ⟨_, early⟩ := (walk_addMonths strides reached).2 turned
  have ⟨_, _, _, _, positive, _⟩ := next.date_valid
  refine ⟨next.date.day, positive, early, fun index candidate behind onward =>
    ⟨?_, ?_⟩⟩
  · rcases Nat.exists_eq_add_of_le (Nat.succ_le_of_lt behind) with
      ⟨more, rfl⟩
    rw [walk_add reached] at onward
    exact walk_keeps_day strides (by omega) onward
  · rw [monthsBetween_walk strides onward, if_pos (turned.mono behind)]

end Months

end Moment

end Timetable.Calendar
