import Timetable.Cron.Search
import Timetable.Proofs.Calendar.Shift
import Timetable.Proofs.Search

/-!
# What the searches for a minute find

The searches in the two directions are mirror images, and are described
together.  `Direction.minuteAt` is the minute that lies a number of minutes away
from the minute of a moment, `Pattern.FirstAt` says that it is the first one
that matches, and `Pattern.RunsOff` that the calendar ends, within the cap,
before any minute matches.  `Pattern.SearchOutcome` ties the replies to these.
-/

namespace Timetable.Cron

open Timetable.Calendar

/-! ## Minutes in a direction -/

namespace Direction

/-- The sign of a direction on the time line. -/
def sign : Direction → Int
  | forward => 1
  | backward => -1

/-- The minute at which the calendar ends in a direction. -/
def edge : Direction → Minute
  | forward => ⟨minuteCount - 1, by decide⟩
  | backward => ⟨0, by decide⟩

example : (Date.ofDayNumber forward.edge.dayNumber, forward.edge.hour,
    forward.edge.ofHour) = (⟨9999, 12, 31⟩, 23, 59) := by
  decide

/-- The minute that lies `count` minutes away from the minute of a moment. -/
def minuteAt (direction : Direction) (origin : Moment) (count : Nat) :
    Except RangeError Moment :=
  origin.truncateToMinute.addTicks (direction.sign * count * minuteTicks)

/-- A minute lies `count` minutes away from another one. -/
def Reaches (direction : Direction) (origin : Minute) (count : Nat)
    (minute : Minute) : Prop :=
  (minute.val : Int) = origin.val + direction.sign * count

theorem minuteAt_eq_ok_iff {direction : Direction}
    {origin result : Moment} {count : Nat} :
    direction.minuteAt origin count = .ok result ↔
      ∃ minute, direction.Reaches origin.minute count minute ∧
        result = .ofMinute minute origin.offset := by
  rw [minuteAt, Moment.addTicks_eq_ok_iff]
  simp only [Moment.truncateToMinute, Reaches, Moment.ticks_ofMinute,
    Moment.offset_ofMinute, Int.natCast_mul, ← Int.add_mul]
  generalize (origin.minute.val : Int) + direction.sign * count = place
  constructor
  · rintro ⟨ticksEq, offsetEq⟩
    have reached := result.reached
    rw [calendarTicks_eq] at reached
    simp only [minuteTicks] at ticksEq
    have placeEq : (place.toNat : Int) = place :=
      Int.toNat_of_nonneg (by omega)
    have inside : place.toNat < minuteCount := by
      rw [minuteCount_eq]
      omega
    refine ⟨⟨place.toNat, inside⟩, placeEq, ?_⟩
    apply Moment.ext_ticks
    · simp only [Moment.ticks_ofMinute, minuteTicks]
      omega
    · exact offsetEq
  · rintro ⟨minute, minuteEq, rfl⟩
    exact ⟨by rw [Moment.ticks_ofMinute, Int.natCast_mul, minuteEq], rfl⟩

@[simp]
theorem minuteAt_eq_ofMinute_iff {direction : Direction}
    {origin : Moment} {minute : Minute} {count : Nat} :
    direction.minuteAt origin count =
        .ok (.ofMinute minute origin.offset) ↔
      direction.Reaches origin.minute count minute := by
  rw [minuteAt_eq_ok_iff]
  constructor
  · rintro ⟨place, reaches, same⟩
    have placeEq := congrArg Moment.minute same
    rw [Moment.minute_ofMinute, Moment.minute_ofMinute] at placeEq
    rwa [placeEq]
  · intro reaches
    exact ⟨minute, reaches, rfl⟩

theorem step_eq_ok_iff {direction : Direction} {minute next : Minute} :
    direction.step minute = .ok next ↔ direction.Reaches minute 1 next := by
  have nextInside := next.isLt
  cases direction with
  | forward =>
      simp only [step, Minute.next?, Reaches, sign]
      by_cases reached : minute.val + 1 < minuteCount
      · simp only [reached, dif_pos, Except.ok.injEq, Fin.ext_iff]
        omega
      · simp only [reached, dif_neg, not_false_iff, reduceCtorEq, false_iff]
        omega
  | backward =>
      simp only [step, Minute.previous?, Reaches, sign]
      by_cases first : minute.val = 0
      · simp only [first, if_true, reduceCtorEq, false_iff]
        omega
      · simp only [first, if_false, Except.ok.injEq, Fin.ext_iff]
        omega

theorem step_eq_error_iff {direction : Direction} {minute : Minute}
    {fault : Fault} :
    direction.step minute = .error fault ↔
      minute = direction.edge ∧ fault = .range .pastEdge := by
  have minuteInside := minute.isLt
  cases direction with
  | forward =>
      simp only [step, Minute.next?, edge, Fin.ext_iff]
      by_cases reached : minute.val + 1 < minuteCount
      · have notLast : minute.val ≠ minuteCount - 1 := by omega
        simp only [reached, dif_pos, reduceCtorEq, notLast, false_and]
      · have last : minute.val = minuteCount - 1 := by omega
        simp only [reached, dif_neg, not_false_iff, Except.error.injEq,
          eq_comm (b := fault), iff_and_self]
        exact fun _ => last
  | backward =>
      simp only [step, Minute.previous?, edge, Fin.ext_iff]
      by_cases first : minute.val = 0
      · simp only [first, if_true, Except.error.injEq, true_and, eq_comm]
      · simp only [first, if_false, reduceCtorEq, false_and]

theorem Reaches.unique {direction : Direction} {origin first second : Minute}
    {count : Nat} (reaches : direction.Reaches origin count first)
    (again : direction.Reaches origin count second) : first = second := by
  rw [Reaches] at reaches again
  exact Fin.ext (by omega)

/-- Minutes on the way to one that the calendar has are in it too. -/
theorem Reaches.of_le {direction : Direction} {origin last : Minute}
    {count less : Nat} (reaches : direction.Reaches origin count last)
    (smaller : less ≤ count) :
    ∃ minute, direction.Reaches origin less minute := by
  have originInside := origin.isLt
  have lastInside := last.isLt
  cases direction with
  | forward =>
      simp only [Reaches, sign] at *
      refine ⟨⟨origin.val + less, by omega⟩, ?_⟩
      simp only [Int.natCast_add]
      omega
  | backward =>
      simp only [Reaches, sign] at *
      refine ⟨⟨origin.val - less, by omega⟩, ?_⟩
      simp only
      omega

theorem Reaches.succ_iff {direction : Direction}
    {origin start minute : Minute} {count : Nat}
    (first : direction.Reaches origin 1 start) :
    direction.Reaches start count minute ↔
      direction.Reaches origin (count + 1) minute := by
  cases direction <;> simp only [Reaches, sign] at * <;> omega

/-- Steps in a direction reach the minutes that lie in it. -/
theorem walk_step_eq_ok_iff {direction : Direction}
    {start minute : Minute} {count : Nat} :
    walk direction.step start count = .ok minute ↔
      direction.Reaches start count minute := by
  induction count generalizing minute with
  | zero =>
      simp only [walk_zero, Except.ok.injEq, Reaches, Fin.ext_iff]
      omega
  | succ count induction =>
      rw [walk_succ_eq_ok_iff]
      constructor
      · rintro ⟨before, reached, stepped⟩
        rw [induction] at reached
        rw [step_eq_ok_iff] at stepped
        cases direction <;> simp only [Reaches, sign] at * <;> omega
      · intro reaches
        rcases reaches.of_le (Nat.le_succ count) with ⟨before, reached⟩
        refine ⟨before, induction.mpr reached, step_eq_ok_iff.mpr ?_⟩
        cases direction <;> simp only [Reaches, sign] at * <;> omega

end Direction

namespace Pattern

@[simp]
theorem isMatch_ofMinute (pattern : Pattern) (minute : Minute)
    (offset : Option Int) :
    pattern.isMatch (.ofMinute minute offset) = pattern.admits minute := by
  rw [isMatch, Moment.minute_ofMinute]

/-! ## Outcomes -/

/-- None of the first `count` minutes in a direction matches. -/
def Skips (pattern : Pattern) (direction : Direction) (origin : Moment)
    (count : Nat) : Prop :=
  ∀ index minute, 1 ≤ index → index ≤ count →
    direction.minuteAt origin index = .ok minute →
      pattern.isMatch minute = false

/-- A minute is the first in a direction that matches. -/
def FirstAt (pattern : Pattern) (direction : Direction) (origin : Moment)
    (count : Nat) (minute : Moment) : Prop :=
  1 ≤ count ∧ direction.minuteAt origin count = .ok minute ∧
    pattern.isMatch minute = true ∧
      pattern.Skips direction origin (count - 1)

/-- The calendar ends within the cap, and no minute until then matches. -/
def RunsOff (pattern : Pattern) (direction : Direction) (origin : Moment)
    (cap : Int) : Prop :=
  ∃ count : Nat, (count : Int) ≤ max cap 0 ∧
    direction.minuteAt origin count =
      .ok (.ofMinute direction.edge origin.offset) ∧
        pattern.Skips direction origin count

theorem judge_eq_pass_iff {pattern : Pattern} {minute : Minute} :
    pattern.judge minute = .ok .pass ↔ pattern.admits minute = false := by
  cases admits : pattern.admits minute <;> simp [judge, admits]

theorem judge_ne_error {pattern : Pattern} {minute : Minute}
    {fault : Fault} : pattern.judge minute ≠ .error fault := by
  simp [judge]

theorem judge_ne_stop {pattern : Pattern} {minute : Minute} :
    pattern.judge minute ≠ .ok .stop := by
  cases admits : pattern.admits minute <;> simp [judge, admits]

theorem judge_eq_accept_iff {pattern : Pattern} {minute : Minute} :
    pattern.judge minute = .ok .accept ↔ pattern.admits minute = true := by
  cases admits : pattern.admits minute <;> simp [judge, admits]

/-- The minutes of candidates that are passed over do not match. -/
theorem skips_of_passes {pattern : Pattern} {direction : Direction}
    {origin : Moment} {start : Minute} {count : Nat}
    (first : direction.Reaches origin.minute 1 start)
    (passes : Passes pattern.judge direction.step start count) :
    pattern.Skips direction origin count := by
  intro index minute positive bound found
  rcases Direction.minuteAt_eq_ok_iff.mp found with ⟨place, reaches, rfl⟩
  rcases passes (index - 1) (by omega) with ⟨candidate, walked, pass⟩
  rw [Direction.walk_step_eq_ok_iff, first.succ_iff,
    Nat.sub_add_cancel positive] at walked
  rw [isMatch_ofMinute, reaches.unique walked]
  exact judge_eq_pass_iff.mp pass

/-- Minutes that the calendar has and that do not match are passed over. -/
theorem passes_of_skips {pattern : Pattern} {direction : Direction}
    {origin : Moment} {start last : Minute} {count : Nat}
    (first : direction.Reaches origin.minute 1 start)
    (reached : direction.Reaches origin.minute count last)
    (skips : pattern.Skips direction origin count) :
    Passes pattern.judge direction.step start count := by
  intro index inside
  rcases reached.of_le (Nat.succ_le_of_lt inside) with ⟨minute, reaches⟩
  refine ⟨minute, ?_, ?_⟩
  · rw [Direction.walk_step_eq_ok_iff, first.succ_iff]
    exact reaches
  · rw [judge_eq_pass_iff,
      ← isMatch_ofMinute pattern minute origin.offset]
    apply skips (index + 1) _ (Nat.le_add_left 1 index) inside
    exact Direction.minuteAt_eq_ofMinute_iff.mpr reaches

/-- A search from the first minute in a direction finds the first match. -/
theorem seek_eq_found_iff {pattern : Pattern} {direction : Direction}
    {origin : Moment} {start minute : Minute} {budget : Nat}
    (first : direction.Reaches origin.minute 1 start) :
    seek pattern.judge direction.step budget start = .ok (.found minute) ↔
      ∃ count ≤ budget,
        pattern.FirstAt direction origin count
          (.ofMinute minute origin.offset) := by
  constructor
  · intro sought
    rcases seek_found_iff.mp sought with
      ⟨index, inside, passes, walked, verdict⟩
    rw [Direction.walk_step_eq_ok_iff, first.succ_iff] at walked
    refine ⟨index + 1, inside, Nat.le_add_left 1 index, ?_, ?_, ?_⟩
    · exact Direction.minuteAt_eq_ofMinute_iff.mpr walked
    · rw [isMatch_ofMinute]
      exact judge_eq_accept_iff.mp verdict
    · exact skips_of_passes first passes
  · rintro ⟨count, bound, positive, found, isMatch, skips⟩
    rcases Nat.exists_eq_add_of_le' positive with ⟨index, rfl⟩
    rw [Direction.minuteAt_eq_ofMinute_iff] at found
    rcases found.of_le (Nat.le_succ index) with ⟨before, beforeReached⟩
    rw [isMatch_ofMinute] at isMatch
    exact seek_found_iff.mpr ⟨index, bound,
      passes_of_skips first beforeReached skips,
      Direction.walk_step_eq_ok_iff.mpr (first.succ_iff.mpr found),
      judge_eq_accept_iff.mpr isMatch⟩

/-- A search from the first minute in a direction fails at the edge. -/
theorem seek_eq_error_iff {pattern : Pattern} {direction : Direction}
    {origin : Moment} {start : Minute} {budget : Nat} {fault : Fault}
    (first : direction.Reaches origin.minute 1 start) :
    seek pattern.judge direction.step budget start = .error fault ↔
      fault = .range .pastEdge ∧
        ∃ count ≤ budget,
          direction.minuteAt origin count =
              .ok (.ofMinute direction.edge origin.offset) ∧
            pattern.Skips direction origin count := by
  constructor
  · intro sought
    rcases seek_eq_iff.mp sought with
      ⟨index, inside, passes, candidate, walked, settled⟩ | ⟨-, impossible⟩
    · cases settled with
      | unjudged verdict => exact absurd verdict judge_ne_error
      | astray verdict left =>
          rcases Direction.step_eq_error_iff.mp left with ⟨rfl, rfl⟩
          have past := passes_succ passes walked verdict
          rw [Direction.walk_step_eq_ok_iff, first.succ_iff] at walked
          refine ⟨rfl, index + 1, inside, ?_, skips_of_passes first past⟩
          exact Direction.minuteAt_eq_ofMinute_iff.mpr walked
    · cases impossible
  · rintro ⟨rfl, count, bound, found, skips⟩
    have reaches := Direction.minuteAt_eq_ofMinute_iff.mp found
    have astray :
        direction.step direction.edge = .error (.range .pastEdge) :=
      Direction.step_eq_error_iff.mpr ⟨rfl, rfl⟩
    cases count with
    | zero =>
        -- The origin is not at the edge, since there is a first minute.
        have atEdge : origin.minute = direction.edge := by
          apply Fin.ext
          rw [Direction.Reaches] at reaches
          omega
        rw [← Direction.step_eq_ok_iff, atEdge, astray] at first
        cases first
    | succ index =>
        have passes := passes_of_skips first reaches skips
        rcases passes index (Nat.lt_succ_self _) with
          ⟨candidate, walked, pass⟩
        rw [Direction.walk_step_eq_ok_iff, first.succ_iff] at walked
        have atEdge := reaches.unique walked
        subst atEdge
        exact seek_of_settles bound (passes.of_le (Nat.le_succ index))
          (Direction.walk_step_eq_ok_iff.mpr (first.succ_iff.mpr walked))
          (.astray pass astray)

/-- Without a first minute in a direction the search fails at once. -/
theorem nearest_of_edge {pattern : Pattern} {direction : Direction}
    {origin : Moment} (cap : Int)
    (atEdge : origin.minute = direction.edge) :
    pattern.nearest direction origin cap =
      .error (.range .pastEdge) := by
  have astray :
      direction.step origin.minute = .error (.range .pastEdge) :=
    Direction.step_eq_error_iff.mpr ⟨atEdge, rfl⟩
  simp only [nearest, astray]

theorem nearest_of_first {pattern : Pattern} {direction : Direction}
    {origin : Moment} {start : Minute} (cap : Int)
    (first : direction.Reaches origin.minute 1 start) :
    pattern.nearest direction origin cap =
      (seek pattern.judge direction.step cap.toNat start).map
        (Finding.map fun minute => .ofMinute minute origin.offset) := by
  simp only [nearest, Direction.step_eq_ok_iff.mpr first]
  cases seek pattern.judge direction.step cap.toNat start <;> rfl

theorem edge_or_first (direction : Direction) (minute : Minute) :
    minute = direction.edge ∨ ∃ start, direction.Reaches minute 1 start := by
  cases stepped : direction.step minute with
  | error fault =>
      exact .inl (Direction.step_eq_error_iff.mp stepped).1
  | ok start =>
      exact .inr ⟨start, Direction.step_eq_ok_iff.mp stepped⟩

theorem nearest_ne_ended (pattern : Pattern) (direction : Direction)
    (origin : Moment) (cap : Int) :
    pattern.nearest direction origin cap ≠ .ok .ended := by
  rcases edge_or_first direction origin.minute with atEdge | ⟨start, first⟩
  · simp [nearest_of_edge cap atEdge]
  · rw [nearest_of_first cap first]
    intro ended
    cases sought :
        seek pattern.judge direction.step cap.toNat start with
    | error fault => simp [sought, Except.map] at ended
    | ok finding =>
        cases finding with
        | found minute => simp [sought, Except.map, Finding.map] at ended
        | gaveUp => simp [sought, Except.map, Finding.map] at ended
        | ended =>
            rcases seek_eq_iff.mp sought with
              ⟨index, inside, passes, candidate, walked, settled⟩ |
                ⟨-, impossible⟩
            · cases settled with
              | stopped verdict => exact judge_ne_stop verdict
            · cases impossible

/-- A minute after the edge is the first match nowhere. -/
theorem not_firstAt_of_edge {pattern : Pattern} {direction : Direction}
    {origin minute : Moment} {count : Nat}
    (atEdge : origin.minute = direction.edge) :
    ¬ pattern.FirstAt direction origin count minute := by
  rintro ⟨positive, found, -⟩
  rcases Direction.minuteAt_eq_ok_iff.mp found with ⟨place, reaches, -⟩
  rcases reaches.of_le positive with ⟨start, first⟩
  have stepped := Direction.step_eq_ok_iff.mpr first
  rw [Direction.step_eq_error_iff.mpr ⟨atEdge, rfl⟩] at stepped
  cases stepped

theorem nearest_eq_found_iff {pattern : Pattern} {direction : Direction}
    {origin found : Moment} {cap : Int} :
    pattern.nearest direction origin cap = .ok (.found found) ↔
      ∃ count : Nat, (count : Int) ≤ cap ∧
        pattern.FirstAt direction origin count found := by
  rcases edge_or_first direction origin.minute with atEdge | ⟨start, first⟩
  · simp [nearest_of_edge cap atEdge, not_firstAt_of_edge atEdge]
  · rw [nearest_of_first cap first]
    constructor
    · intro result
      cases sought :
          seek pattern.judge direction.step cap.toNat start with
      | error fault => simp [sought, Except.map] at result
      | ok finding =>
          cases finding with
          | ended => simp [sought, Except.map, Finding.map] at result
          | gaveUp => simp [sought, Except.map, Finding.map] at result
          | found minute =>
              simp only [sought, Except.map, Finding.map, Except.ok.injEq,
                Finding.found.injEq] at result
              subst result
              rcases (seek_eq_found_iff first).mp sought with
                ⟨count, bound, firstAt⟩
              have positive := firstAt.1
              exact ⟨count, by omega, firstAt⟩
    · rintro ⟨count, bound, firstAt⟩
      rcases Direction.minuteAt_eq_ok_iff.mp firstAt.2.1 with ⟨minute, -, rfl⟩
      rw [(seek_eq_found_iff first).mpr ⟨count, by omega, firstAt⟩]
      rfl

theorem nearest_eq_error_iff {pattern : Pattern} {direction : Direction}
    {origin : Moment} {cap : Int} {fault : Fault} :
    pattern.nearest direction origin cap = .error fault ↔
      fault = .range .pastEdge ∧ pattern.RunsOff direction origin cap := by
  rcases edge_or_first direction origin.minute with atEdge | ⟨start, first⟩
  · have runsOff : pattern.RunsOff direction origin cap := by
      refine ⟨0, Int.le_max_right _ _, ?_, ?_⟩
      · rw [Direction.minuteAt_eq_ofMinute_iff, ← atEdge]
        simp [Direction.Reaches]
      · intro index minute positive bound
        omega
    simp [nearest_of_edge cap atEdge, runsOff, eq_comm]
  · have mapped :
        pattern.nearest direction origin cap = .error fault ↔
          seek pattern.judge direction.step cap.toNat start =
            .error fault := by
      rw [nearest_of_first cap first]
      cases seek pattern.judge direction.step cap.toNat start <;>
        simp [Except.map]
    rw [mapped, seek_eq_error_iff first]
    constructor
    · rintro ⟨rfl, count, bound, found, skips⟩
      exact ⟨rfl, count, by omega, found, skips⟩
    · rintro ⟨rfl, count, bound, found, skips⟩
      exact ⟨rfl, count, by omega, found, skips⟩

/-! ## Replies -/

/-- The exact reply of a search with a cap. -/
structure SearchOutcome (pattern : Pattern) (direction : Direction)
    (origin : Moment) (cap : Int) (reply : Reply (Option Moment)) :
    Prop where
  /-- The reply is the first minute that matches, if the cap allows it. -/
  found_iff : ∀ minute,
    reply.outcome = .ok (some minute) ↔
      ∃ count : Nat, (count : Int) ≤ cap ∧
        pattern.FirstAt direction origin count minute
  /-- The search fails if it gets to the end of the calendar. -/
  failed_iff :
    reply.outcome = .error (.fault (.range .pastEdge)) ↔
      pattern.RunsOff direction origin cap
  /-- There is no notice beside a minute or a failure. -/
  quiet : reply.outcome ≠ .ok none → reply.notices = []
  /-- In all other cases the search gives up, and says so once. -/
  gaveUp :
    (∀ (count : Nat) (minute : Moment), (count : Int) ≤ cap →
      ¬ pattern.FirstAt direction origin count minute) →
    ¬ pattern.RunsOff direction origin cap →
      reply =
        { outcome := .ok none
          notices := [.patternSearch pattern.expression cap] }

theorem searchReply_outcome (pattern : Pattern) (direction : Direction)
    (origin : Moment) (cap : Int) :
    pattern.SearchOutcome direction origin cap
      (pattern.searchReply cap (pattern.nearest direction origin cap)) := by
  cases result : pattern.nearest direction origin cap with
  | error fault =>
      rcases nearest_eq_error_iff.mp result with ⟨rfl, runsOff⟩
      refine ⟨?_, ?_, ?_, ?_⟩
      · intro minute
        rw [← nearest_eq_found_iff, result]
        simp [searchReply, Reply.ofFaulting, Except.mapError]
      · simp [searchReply, Reply.ofFaulting, Except.mapError, runsOff]
      · intro _
        rfl
      · intro _ notOff
        exact absurd runsOff notOff
  | ok finding =>
      have notOff : ¬ pattern.RunsOff direction origin cap := by
        intro runsOff
        rw [nearest_eq_error_iff.mpr ⟨rfl, runsOff⟩] at result
        cases result
      cases finding with
      | found minute =>
          refine ⟨?_, ?_, ?_, ?_⟩
          · intro other
            rw [← nearest_eq_found_iff, result]
            simp [searchReply, Finding.toOption]
          · simp [searchReply, Finding.toOption, notOff]
          · intro _
            rfl
          · intro notFound _
            rcases nearest_eq_found_iff.mp result with ⟨count, bound, first⟩
            exact absurd first (notFound count minute bound)
      | ended =>
          exact absurd result
            (pattern.nearest_ne_ended direction origin cap)
      | gaveUp =>
          refine ⟨?_, ?_, ?_, ?_⟩
          · intro minute
            rw [← nearest_eq_found_iff, result]
            simp [searchReply, Finding.toOption]
          · simp [searchReply, Finding.toOption, notOff]
          · intro answered
            exact absurd rfl answered
          · intro _ _
            rfl

/--
The exact outcome of the searches for the next and the previous minute: the
first minute in their direction that matches, a failure where the calendar ends
before, or else nothing and one notice.
-/
theorem next_previous_outcome (pattern : Pattern) (origin : Moment)
    (cap : Int) :
    pattern.SearchOutcome .forward origin cap
        ((Source.compiled pattern).next origin cap) ∧
      pattern.SearchOutcome .backward origin cap
        ((Source.compiled pattern).previous origin cap) :=
  ⟨pattern.searchReply_outcome .forward origin cap,
    pattern.searchReply_outcome .backward origin cap⟩

end Pattern

end Timetable.Cron
