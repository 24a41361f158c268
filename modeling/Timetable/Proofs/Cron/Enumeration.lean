import Timetable.Proofs.Chain
import Timetable.Proofs.Cron.Search
import Timetable.Proofs.Outcome

/-!
# The minutes that are enumerated

A link of the chain of minutes leads from a moment to the first minute after it
that the pattern admits.  Whatever lies between the two is not admitted, so
nothing is lost where one search hands over to the next: `enumerates_of_yields`
says that the values of the chain are exactly the admitted minutes up to the
last of them.

The chain breaks off at a link that gave up, and such a link has looked at all
minutes of a year.
-/

namespace Timetable.Cron

open Timetable.Calendar

/-! ## Minutes at one offset -/

theorem before_ofMinute_iff {earlier later : Minute}
    {offset : Option Int} :
    (Moment.ofMinute earlier offset).Before (.ofMinute later offset) ↔
      earlier < later := by
  have sameOffset : (Moment.ofMinute earlier offset).offset =
      (Moment.ofMinute later offset).offset := rfl
  rw [Moment.before_iff_ticks sameOffset]
  simp only [Moment.ticks_ofMinute, minuteTicks, Fin.lt_def]
  omega

theorem notAfter_ofMinute_iff {earlier later : Minute}
    {offset : Option Int} :
    (Moment.ofMinute earlier offset).NotAfter (.ofMinute later offset) ↔
      earlier ≤ later := by
  have aware : (Moment.ofMinute later offset).isAware =
      (Moment.ofMinute earlier offset).isAware := by
    simp only [Moment.isAware, Moment.offset_ofMinute]
  rw [← Moment.not_before_iff aware, before_ofMinute_iff, Fin.not_lt]

theorem ofMinute_inj {minute other : Minute} {offset : Option Int} :
    Moment.ofMinute minute offset = .ofMinute other offset ↔
      minute = other := by
  constructor
  · intro equal
    rw [← Moment.minute_ofMinute minute offset, equal,
      Moment.minute_ofMinute]
  · rintro rfl
    rfl

theorem forward_reaches_iff {origin minute : Minute} {count : Nat} :
    Direction.forward.Reaches origin count minute ↔
      minute.val = origin.val + count := by
  rw [Direction.Reaches, Direction.sign]
  omega

namespace Pattern

variable {pattern : Pattern}

/-! ## One link -/

/-- A minute is the first one after another that the pattern admits. -/
structure IsNext (pattern : Pattern) (origin minute : Minute) : Prop where
  later : origin < minute
  admitted : pattern.admits minute = true
  skipped : ∀ between, origin < between → between < minute →
    pattern.admits between = false

theorem isNext_of_firstAt {origin found : Moment} {count : Nat}
    (first : pattern.FirstAt .forward origin count found) :
    ∃ minute, found = .ofMinute minute origin.offset ∧
      pattern.IsNext origin.minute minute := by
  rcases first with ⟨positive, reached, isMatch, skips⟩
  rcases Direction.minuteAt_eq_ok_iff.mp reached with ⟨minute, reaches, rfl⟩
  rw [forward_reaches_iff] at reaches
  rw [isMatch_ofMinute] at isMatch
  refine ⟨minute, rfl, Fin.lt_def.mpr (by omega), isMatch, ?_⟩
  intro between later earlier
  rw [Fin.lt_def] at later earlier
  rw [← isMatch_ofMinute pattern between origin.offset]
  apply skips (between.val - origin.minute.val) _ (by omega) (by omega)
  rw [Direction.minuteAt_eq_ofMinute_iff, forward_reaches_iff]
  omega

/-- A search that gave up has tested as many minutes as it was allowed. -/
theorem untested_of_gaveUp {direction : Direction} {origin : Moment}
    {cap : Int}
    (gaveUp : pattern.nearest direction origin cap = .ok .gaveUp)
    {index : Nat} (positive : 1 ≤ index) (bound : (index : Int) ≤ cap) :
    ∃ minute, direction.minuteAt origin index = .ok minute ∧
      pattern.isMatch minute = false := by
  rcases edge_or_first direction origin.minute with atEdge | ⟨start, first⟩
  · rw [nearest_of_edge cap atEdge] at gaveUp
    cases gaveUp
  rw [nearest_of_first cap first, map_eq_ok_iff] at gaveUp
  rcases gaveUp with ⟨finding, sought, unchanged⟩
  cases finding with
  | found minute => cases unchanged
  | ended => cases unchanged
  | gaveUp =>
      rcases seek_eq_iff.mp sought with
        ⟨_, _, _, _, _, settled⟩ | ⟨⟨passes, -⟩, -⟩
      · cases settled
      · rcases passes (index - 1) (by omega) with ⟨minute, walked, pass⟩
        rw [Direction.walk_step_eq_ok_iff, first.succ_iff,
          Nat.sub_add_cancel positive] at walked
        refine ⟨.ofMinute minute origin.offset,
          Direction.minuteAt_eq_ofMinute_iff.mpr walked, ?_⟩
        rw [isMatch_ofMinute]
        exact judge_eq_pass_iff.mp pass

theorem advance_eq_ok_iff {after : Moment}
    {finding : Finding (Moment × Moment)} :
    pattern.advance after = .ok finding ↔
      ∃ result, pattern.nearest .forward after defaultCap = .ok result ∧
        result.map (fun minute => (minute, minute)) = finding := by
  simp only [advance, next]
  cases pattern.nearest .forward after defaultCap <;> simp

theorem isNext_of_advance {after value final : Moment}
    (found : pattern.advance after = .ok (.found (value, final))) :
    final = value ∧ ∃ minute, value = .ofMinute minute after.offset ∧
      pattern.IsNext after.minute minute := by
  rcases advance_eq_ok_iff.mp found with ⟨result, nearest, mapped⟩
  cases result with
  | ended => cases mapped
  | gaveUp => cases mapped
  | found minute =>
      cases mapped
      rcases nearest_eq_found_iff.mp nearest with ⟨count, -, first⟩
      exact ⟨rfl, isNext_of_firstAt first⟩

theorem nearest_of_fruitless {after : Moment}
    (fruitless : pattern.advance after = .ok .ended ∨
      pattern.advance after = .ok .gaveUp) :
    pattern.nearest .forward after defaultCap = .ok .gaveUp := by
  rcases fruitless with ended | gaveUp
  · rcases advance_eq_ok_iff.mp ended with ⟨result, nearest, mapped⟩
    cases result with
    | ended => exact absurd nearest (nearest_ne_ended _ _ _ _)
    | gaveUp => cases mapped
    | found minute => cases mapped
  · rcases advance_eq_ok_iff.mp gaveUp with ⟨result, nearest, mapped⟩
    cases result with
    | ended => cases mapped
    | gaveUp => exact nearest
    | found minute => cases mapped

/-! ## The whole chain -/

/--
Values are the admitted minutes after the minute of a moment, in ascending
order and up to the minute of another moment, which is that of the last value.
-/
structure Enumerates (pattern : Pattern) (origin final : Moment)
    (values : List Moment) : Prop where
  ascending : values.Pairwise Moment.Before
  offset : final.offset = origin.offset
  last : values.getLast?.getD origin = final
  mem_iff : ∀ moment, moment ∈ values ↔
    ∃ minute, moment = .ofMinute minute origin.offset ∧
      origin.minute < minute ∧ minute ≤ final.minute ∧
        pattern.admits minute = true

theorem enumerates_nil (origin : Moment) :
    pattern.Enumerates origin origin [] where
  ascending := .nil
  offset := rfl
  last := rfl
  mem_iff moment := by
    simp only [List.not_mem_nil, false_iff, not_exists, not_and]
    intro minute _ later notLater
    exact absurd later (Fin.not_lt.mpr notLater)

/-- An enumeration goes on from the first minute without a gap. -/
theorem Enumerates.cons {origin final : Moment} {first : Minute}
    {values : List Moment} (isNext : pattern.IsNext origin.minute first)
    (onward :
      pattern.Enumerates (.ofMinute first origin.offset) final values)
    (reached : first ≤ final.minute) :
    pattern.Enumerates origin final
      (.ofMinute first origin.offset :: values) where
  ascending := by
    refine List.pairwise_cons.mpr ⟨fun later member => ?_, onward.ascending⟩
    rcases (onward.mem_iff later).mp member with ⟨minute, rfl, after, -⟩
    rw [Moment.minute_ofMinute] at after
    exact before_ofMinute_iff.mpr after
  offset := onward.offset
  last := by
    rw [← onward.last, List.getLast?_cons, Option.getD_some]
  mem_iff moment := by
    simp only [List.mem_cons, onward.mem_iff, Moment.minute_ofMinute,
      Moment.offset_ofMinute]
    constructor
    · rintro (rfl | ⟨minute, rfl, after, notLater, admitted⟩)
      · exact ⟨first, rfl, isNext.later, reached, isNext.admitted⟩
      · exact ⟨minute, rfl, Fin.lt_trans isNext.later after, notLater,
          admitted⟩
    · rintro ⟨minute, rfl, later, notLater, admitted⟩
      -- What lies before the first minute was skipped on the way to it.
      rcases Nat.lt_trichotomy minute.val first.val with
        earlier | same | after
      · rw [isNext.skipped minute later earlier] at admitted
        cases admitted
      · cases Fin.ext same
        exact .inl rfl
      · exact .inr ⟨minute, rfl, after, notLater, admitted⟩

theorem Enumerates.aligned {origin final moment : Moment}
    {values : List Moment}
    (enumerates : pattern.Enumerates origin final values)
    (member : moment ∈ values) :
    ∃ minute, moment = .ofMinute minute origin.offset := by
  rcases (enumerates.mem_iff moment).mp member with ⟨minute, rfl, -⟩
  exact ⟨minute, rfl⟩

/-- The minutes of an enumeration, by its last value instead of a state. -/
theorem Enumerates.mem_ofMinute_iff {origin final : Moment}
    {values : List Moment}
    (enumerates : pattern.Enumerates origin final values)
    (minute : Minute) :
    .ofMinute minute origin.offset ∈ values ↔
      pattern.isMatch (.ofMinute minute origin.offset) = true ∧
      origin.truncateToMinute.Before (.ofMinute minute origin.offset) ∧
      ∃ last ∈ values.getLast?,
        (Moment.ofMinute minute origin.offset).NotAfter last := by
  cases ended : values.getLast? with
  | none =>
      rw [List.getLast?_eq_none_iff] at ended
      simp [ended]
  | some last =>
      have lastEq := enumerates.last
      rw [ended, Option.getD_some] at lastEq
      subst lastEq
      rcases enumerates.aligned (List.mem_of_getLast? ended) with
        ⟨other, lastEq⟩
      rw [enumerates.mem_iff, isMatch_ofMinute, Moment.truncateToMinute,
        before_ofMinute_iff, lastEq, Moment.minute_ofMinute]
      simp only [ofMinute_inj, exists_eq_left', Option.mem_def,
        Option.some.injEq, notAfter_ofMinute_iff]
      constructor
      · rintro ⟨later, notLater, admitted⟩
        exact ⟨admitted, later, notLater⟩
      · rintro ⟨admitted, later, notLater⟩
        exact ⟨later, notLater, admitted⟩

/-- What the chain yields are the admitted minutes up to where it is then. -/
theorem enumerates_of_yields {after final : Moment} {values : List Moment}
    (yields : Yields pattern.advance after values final) :
    after.minute ≤ final.minute ∧ pattern.Enumerates after final values := by
  induction yields with
  | nil => exact ⟨Fin.le_refl _, enumerates_nil _⟩
  | cons found _ induction =>
      rcases isNext_of_advance found with ⟨rfl, minute, rfl, isNext⟩
      rcases induction with ⟨reached, onward⟩
      rw [Moment.minute_ofMinute] at reached
      exact ⟨Fin.le_trans (Fin.le_of_lt isNext.later) reached,
        onward.cons isNext reached⟩

/-! ## Replies -/

/-- A list of minutes is the chain up to a state, which may have given up. -/
theorem yields_of_nextMany {after : Moment} {count : Int}
    {result : List Moment}
    (returned :
      ((Source.compiled pattern).nextMany count after).outcome =
        .ok result) :
    ∃ final, Yields pattern.advance after result final ∧
      (result.length : Int) ≤ max count 0 ∧
      ((result.length : Int) < count →
        pattern.nearest .forward final defaultCap = .ok .gaveUp) := by
  rw [Source.nextMany] at returned
  split at returned
  · cases returned
  split at returned
  · next none =>
      cases returned
      refine ⟨after, .nil, Int.le_max_right _ _, fun fewer => ?_⟩
      rw [List.length_nil] at fewer
      omega
  simp only [Source.answer, Source.resolve, nextMany] at returned
  split at returned
  · cases returned
  split at returned
  · cases returned
  · next drawn collected =>
      cases returned
      rcases collect_eq_ok_iff.mp collected with ⟨final, yields, stops⟩
      refine ⟨final, yields, ?_, fun fewer => ?_⟩
      · rcases stops with ⟨enough, -⟩ | ⟨fewer, -⟩ <;> omega
      · rcases stops with ⟨enough, -⟩ | ⟨-, fruitless⟩
        · omega
        · exact nearest_of_fruitless
            (fruitless.imp And.left And.left)

/--
The list of the next minutes has all admitted minutes up to its last one, each
of them once and in order; if it is shorter than asked for, then the 525,600
minutes after it exist and are not admitted.
-/
theorem nextMany_spec (pattern : Pattern) (after : Moment) (count : Int)
    {result : List Moment}
    (returned :
      ((Source.compiled pattern).nextMany count after).outcome =
        .ok result) :
    result.Pairwise Moment.Before ∧
    (∀ moment ∈ result, ∃ minute, moment = .ofMinute minute after.offset) ∧
    (result.length : Int) ≤ max count 0 ∧
    (∀ minute, .ofMinute minute after.offset ∈ result ↔
      pattern.isMatch (.ofMinute minute after.offset) = true ∧
      after.truncateToMinute.Before (.ofMinute minute after.offset) ∧
      ∃ last ∈ result.getLast?,
        (Moment.ofMinute minute after.offset).NotAfter last) ∧
    ((result.length : Int) < count →
      ∀ index : Nat, 1 ≤ index → index ≤ 525600 →
        ∃ minute,
          Direction.forward.minuteAt (result.getLast?.getD after) index =
            .ok minute ∧
          pattern.isMatch minute = false) := by
  rcases yields_of_nextMany returned with ⟨final, yields, length, fruitless⟩
  rcases enumerates_of_yields yields with ⟨-, enumerates⟩
  refine ⟨enumerates.ascending, fun _ member => enumerates.aligned member,
    length, enumerates.mem_ofMinute_iff, ?_⟩
  intro fewer index positive bound
  rw [enumerates.last]
  exact untested_of_gaveUp (fruitless fewer) positive (Int.ofNat_le.mpr bound)

/-- The pattern of `*/30 * * * *`. -/
def halfHours : Pattern where
  parts := ⟨"*/30", "*", "*", "*", "*"⟩
  sets :=
    ⟨.ofTerm fieldBounds.minute (.anyStep 30), .ofTerm fieldBounds.hour .any,
      .ofTerm fieldBounds.dayOfMonth .any, .ofTerm fieldBounds.month .any,
      .ofTerm fieldBounds.dayOfWeek .any⟩

/-- 29 minutes and 13 seconds into 1 January 2024. -/
def beforeHalfPast : Moment where
  ticks := 63839665753000000
  offset := none

theorem nextMany_spec_halfHours :
    ∃ result,
      ((Source.compiled halfHours).nextMany 3 beforeHalfPast).outcome =
          .ok result ∧
      result.length = 3 ∧ result.Pairwise Moment.Before ∧
      ∀ minute, .ofMinute minute beforeHalfPast.offset ∈ result ↔
        halfHours.isMatch (.ofMinute minute beforeHalfPast.offset) = true ∧
        beforeHalfPast.truncateToMinute.Before
          (.ofMinute minute beforeHalfPast.offset) ∧
        ∃ last ∈ result.getLast?,
          (Moment.ofMinute minute beforeHalfPast.offset).NotAfter last :=
  have returned :
      ((Source.compiled halfHours).nextMany 3 beforeHalfPast).outcome =
        .ok [{ ticks := 63839665800000000, offset := none },
          { ticks := 63839667600000000, offset := none },
          { ticks := 63839669400000000, offset := none }] := rfl
  have ⟨ascending, _, _, member, _⟩ :=
    nextMany_spec halfHours beforeHalfPast 3 returned
  ⟨_, returned, rfl, ascending, member⟩

end Pattern

end Timetable.Cron
