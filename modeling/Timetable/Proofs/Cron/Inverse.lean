import Timetable.Proofs.Cron.Enumeration

/-!
# There and back

From a minute that a pattern admits, the search in one direction goes to the
nearest other one, and what lies between the two is not admitted.  Seen from
there, the minute of the beginning is therefore the nearest one in the other
direction, at the same distance: the same cap allows both searches or neither,
and the calendar does not end between them.
-/

namespace Timetable.Cron

open Timetable.Calendar

namespace Direction

/-- The other direction. -/
def opposite : Direction → Direction
  | forward => backward
  | backward => forward

/-- A way back is as long as the way there. -/
theorem reaches_opposite_iff {direction : Direction}
    {origin last : Minute} {count : Nat} :
    direction.opposite.Reaches last count origin ↔
      direction.Reaches origin count last := by
  cases direction <;> simp only [opposite, Reaches, sign] <;> omega

/-- Part of the way back from a minute ends at the rest of the way there. -/
theorem Reaches.rest {direction : Direction} {origin last between : Minute}
    {count index : Nat} (reaches : direction.Reaches origin count last)
    (back : direction.opposite.Reaches last index between)
    (bound : index ≤ count) :
    direction.Reaches origin (count - index) between := by
  cases direction <;> simp only [opposite, Reaches, sign] at * <;> omega

end Direction

namespace Pattern

variable {pattern : Pattern} {direction : Direction} {origin found : Moment}

/-- What was skipped on the way there is skipped on the way back. -/
theorem skips_opposite {last : Minute} {count : Nat}
    (reaches : direction.Reaches origin.minute count last)
    (skips : pattern.Skips direction origin (count - 1)) :
    pattern.Skips direction.opposite (.ofMinute last origin.offset)
      (count - 1) := by
  intro index minute positive bound reached
  rcases Direction.minuteAt_eq_ok_iff.mp reached with ⟨between, back, rfl⟩
  rw [Moment.minute_ofMinute] at back
  apply skips (count - index) _ (by omega) (by omega)
  exact Direction.minuteAt_eq_ofMinute_iff.mpr
    (reaches.rest back (by omega))

/-- A match is the first one to be seen from the first one that it sees. -/
theorem FirstAt.opposite {count : Nat}
    (first : pattern.FirstAt direction origin count found)
    (isMatch : pattern.isMatch origin.truncateToMinute = true) :
    pattern.FirstAt direction.opposite found count
      origin.truncateToMinute := by
  rcases first with ⟨positive, reached, -, skips⟩
  rcases Direction.minuteAt_eq_ok_iff.mp reached with ⟨last, reaches, rfl⟩
  refine ⟨positive, ?_, isMatch, skips_opposite reaches skips⟩
  rw [Direction.minuteAt_eq_ok_iff, Moment.minute_ofMinute]
  exact ⟨origin.minute, Direction.reaches_opposite_iff.mpr reaches, rfl⟩

/-- A search back from what was found finds the minute of the beginning. -/
theorem nearest_opposite {cap : Int}
    (sought : pattern.nearest direction origin cap = .ok (.found found))
    (isMatch : pattern.isMatch origin.truncateToMinute = true) :
    pattern.nearest direction.opposite found cap =
      .ok (.found origin.truncateToMinute) := by
  rcases nearest_eq_found_iff.mp sought with ⟨count, bound, first⟩
  exact nearest_eq_found_iff.mpr ⟨count, bound, first.opposite isMatch⟩

theorem nearest_of_searchReply {cap : Int}
    (answered :
      (pattern.searchReply cap (pattern.nearest direction origin cap)).outcome
        = .ok (some found)) :
    pattern.nearest direction origin cap = .ok (.found found) :=
  nearest_eq_found_iff.mpr
    (((pattern.searchReply_outcome direction origin cap).found_iff
      found).mp answered)

theorem searchReply_opposite {cap : Int}
    (answered :
      (pattern.searchReply cap (pattern.nearest direction origin cap)).outcome
        = .ok (some found))
    (isMatch : pattern.isMatch origin.truncateToMinute = true) :
    pattern.searchReply cap
        (pattern.nearest direction.opposite found cap) =
      .ok (some origin.truncateToMinute) := by
  rw [nearest_opposite (nearest_of_searchReply answered) isMatch]
  rfl

/--
The searches for the next and the previous minute undo each other, whatever the
cap: from a minute that matches, the one that is found leads back to it.
-/
theorem next_previous_inverse (pattern : Pattern) (origin : Moment)
    (cap : Int)
    (isMatch : pattern.isMatch origin.truncateToMinute = true) :
    (∀ found,
      ((Source.compiled pattern).next origin cap).outcome =
          .ok (some found) →
        (Source.compiled pattern).previous found cap =
          .ok (some origin.truncateToMinute)) ∧
    ∀ found,
      ((Source.compiled pattern).previous origin cap).outcome =
          .ok (some found) →
        (Source.compiled pattern).next found cap =
          .ok (some origin.truncateToMinute) :=
  ⟨fun _ answered => searchReply_opposite answered isMatch,
    fun _ answered => searchReply_opposite answered isMatch⟩

/-- 13 seconds past the last half hour of the calendar, two hours east. -/
def lastHalfHour : Moment where
  ticks := 315537895813000000
  offset := some 120

theorem next_previous_inverse_lastHalfHour :
    halfHours.isMatch lastHalfHour.truncateToMinute = true ∧
    ∃ found,
      ((Source.compiled halfHours).previous lastHalfHour 30).outcome =
          .ok (some found) ∧
        (Source.compiled halfHours).next found 30 =
          .ok (some lastHalfHour.truncateToMinute) :=
  have isMatch : halfHours.isMatch lastHalfHour.truncateToMinute = true :=
    rfl
  have answered :
      ((Source.compiled halfHours).previous lastHalfHour 30).outcome =
        .ok (some { ticks := 315537894000000000, offset := some 120 }) := rfl
  ⟨isMatch, _, answered,
    (next_previous_inverse halfHours lastHalfHour 30 isMatch).2 _ answered⟩

end Pattern

end Timetable.Cron
