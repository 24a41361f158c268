import Timetable.Proofs.InitialRun
import Timetable.Proofs.Rule.Iteration
import Timetable.Proofs.Rule.Scan

/-!
# Deadline and count cut a chain off

A plan and the same plan without deadline and count have the same candidates,
match the same days and so find the same occurrences, until the deadline is
passed or as many as counted were found.

The deadline is asked for at three places: of the cursor of the chain, of the
pivot of a search and of each candidate.  None of them matters but the last
(`next_of_endless`): whatever is found after a moment that reaches the deadline
is later than it.  So a link either finds what the endless chain finds, or finds
nothing more, and fails at no state where that one does not
(`advance_of_endless`).  The rest is an induction on the values that the endless
chain yields.
-/

namespace Timetable

open Timetable.Calendar

variable {plan : Plan}

/-- A draft with neither deadline nor count. -/
def Draft.endless (draft : Draft) : Draft :=
  { draft with deadline := .null, count := .null }

/-- A plan with neither deadline nor count. -/
def Plan.endless (plan : Plan) : Plan :=
  { plan with deadline := none, count := none }

theorem valid_endless (valid : plan.Valid) : plan.endless.Valid where
  interval := valid.interval
  count _ member := by cases member
  deadline _ member := by cases member
  byWeekday := valid.byWeekday
  byMonthDay := valid.byMonthDay
  byMonth := valid.byMonth

theorem validate_endless {draft : Draft}
    (accepted : draft.validate = .ok plan) :
    draft.endless.validate = .ok plan.endless := by
  rcases validate_eq_ok_iff.mp accepted with
    ⟨frequency, start, interval, -, -, weekday, monthDay, month, valid⟩
  exact validate_eq_ok_iff.mpr ⟨frequency, start, interval, rfl, rfl, weekday,
    monthDay, month, valid_endless valid⟩

/-! ## Searches that also end elsewhere -/

/--
A search that also ends at some candidates, and at all behind them, finds the
same as the one that does not, or nothing.
-/
theorem seek_of_cut {α ε : Type} {judge cut : α → Except ε Verdict}
    {step : α → Except ε α} {ends : α → Prop} {first : α} {budget : Nat}
    {finding : Finding α}
    (onward : ∀ {candidate next}, step candidate = .ok next →
      ends candidate → ends next)
    (ending : ∀ {index candidate},
      walk step first index = .ok candidate → ends candidate →
        cut candidate = .ok .stop)
    (going : ∀ {index candidate},
      walk step first index = .ok candidate → ¬ ends candidate →
        cut candidate = judge candidate)
    (sought : seek judge step budget first = .ok finding) :
    ∃ other, seek cut step budget first = .ok other ∧
      ∀ result, other = .found result ↔
        finding = .found result ∧ ¬ ends result := by
  induction budget generalizing first with
  | zero =>
      cases sought
      exact ⟨.gaveUp, rfl, by simp⟩
  | succ budget induction =>
      by_cases ended : ends first
      · have stop := ending (walk_zero first) ended
        refine ⟨.ended, by simp only [seek, stop], ?_⟩
        simp only [reduceCtorEq, false_iff, not_and, not_not]
        rintro result rfl
        rcases seek_found_iff.mp sought with ⟨index, -, -, reached, -⟩
        exact walk_invariant onward reached ended
      have same := going (walk_zero first) ended
      simp only [seek, same] at sought ⊢
      cases verdict : judge first with
      | error fault => simp [verdict] at sought
      | ok decided =>
          cases decided with
          | accept =>
              simp only [verdict, Except.ok.injEq] at sought
              subst sought
              refine ⟨.found first, rfl, fun result => ?_⟩
              simp only [Finding.found.injEq]
              constructor
              · rintro rfl
                exact ⟨rfl, ended⟩
              · exact fun found => found.1
          | stop =>
              simp only [verdict, Except.ok.injEq] at sought
              subst sought
              exact ⟨.ended, rfl, by simp⟩
          | pass =>
              cases stepped : step first with
              | error fault => simp [verdict, stepped] at sought
              | ok next =>
                  simp only [verdict, stepped] at sought ⊢
                  refine induction ?_ ?_ sought
                  · intro index candidate reached
                    rw [← walk_of_step stepped] at reached
                    exact ending reached
                  · intro index candidate reached
                    rw [← walk_of_step stepped] at reached
                    exact going reached

/-! ## One search -/

/-- Behind a moment that reaches the deadline everything is too late. -/
theorem exceeded_of_late {after later deadline : Moment}
    (member : deadline ∈ plan.deadline) (late : ¬ after.Before deadline)
    (aware : after.isAware = deadline.isAware) (before : after.Before later) :
    plan.Exceeded later :=
  ⟨deadline, member,
    ((Moment.not_before_iff aware).mp late).trans_before before⟩

/-- The deadline leaves a search what it finds, or makes it find nothing. -/
theorem next_of_endless (valid : plan.Valid) {after : Moment} {cap : Int}
    {finding : Finding Moment} (begun : plan.start.NotAfter after)
    (searched : plan.endless.rule.next after cap = .ok finding) :
    ∃ other, plan.rule.next after cap = .ok other ∧
      ∀ result, other = .found result ↔
        finding = .found result ∧ ¬ plan.Exceeded result := by
  have aware : after.isAware = plan.start.isAware := begun.1.symm
  rcases searchFrom_cases valid cap aware with
    ⟨⟨deadline, member, late⟩, ended⟩ | ⟨early, outcome⟩
  · refine ⟨.ended, (next_of_begun valid begun cap).trans ended, ?_⟩
    simp only [reduceCtorEq, false_iff, not_and, not_not]
    rintro result rfl
    have sameKind := (valid.deadline deadline member).1
    exact exceeded_of_late member late (aware.trans sameKind)
      (found_sound (valid_endless valid) aware searched).1
  rw [next_of_begun (valid_endless valid) begun] at searched
  rw [next_of_begun valid begun]
  have unhindered :
      ¬ ∃ deadline ∈ plan.endless.deadline, ¬ after.Before deadline := by
    rintro ⟨deadline, ⟨⟩, -⟩
  rcases outcome with ⟨fault, astray, -⟩ | ⟨first, started, seeks⟩
  · rw [searchFrom_of_astray (valid_endless valid) cap aware unhindered
      astray] at searched
    cases searched
  · rw [searchFrom_of_begun (valid_endless valid) cap aware unhindered
      started] at searched
    rw [seeks]
    have sameKind {index : Nat} {candidate : Moment}
        (reached : walk plan.rule.nextCandidate first index =
          .ok candidate) : candidate.isAware = plan.start.isAware :=
      candidate_aware valid aware started reached
    refine seek_of_cut ?_ ?_ ?_ searched
    · rintro candidate next moved ⟨deadline, member, late⟩
      exact ⟨deadline, member,
        late.trans (nextCandidate_daysBefore valid moved).before⟩
    · intro index candidate reached exceeded
      rw [judge_rule valid (sameKind reached), if_pos exceeded]
    · intro index candidate reached inTime
      rw [judge_rule valid (sameKind reached), if_neg inTime,
        judge_rule (valid_endless valid) (sameKind reached),
        if_neg (not_exceeded_of_unending rfl candidate)]
      rfl

/-! ## One link -/

theorem map_eq_found_iff {α β : Type} {finding : Finding α}
    {change : α → β} {result : β} :
    finding.map change = .found result ↔
      ∃ value, finding = .found value ∧ change value = result := by
  cases finding <;> simp [Finding.map]

/--
Where the link of the endless chain does not fail, this one's does not, and
finds the same value unless that is too late or one too many.
-/
theorem advance_of_endless (valid : plan.Valid)
    {progress : Rule.Progress} {finding : Finding (Moment × Rule.Progress)}
    (course : plan.OnCourse progress)
    (linked : plan.endless.rule.advance progress = .ok finding) :
    ∃ other, plan.rule.advance progress = .ok other ∧
      ∀ pair, other = .found pair ↔
        finding = .found pair ∧ ¬ plan.Exhausted progress.given ∧
          ¬ plan.Exceeded pair.1 := by
  cases reached : plan.rule.cursor progress with
  | error fault =>
      have astray : plan.endless.rule.cursor progress = .error fault :=
        reached
      simp [Rule.advance, astray] at linked
  | ok cursor =>
      rcases cursor_spec course reached with ⟨pivot, rfl, begun, -, -⟩
      have endless : ¬ plan.endless.Exhausted progress.given := by
        rintro ⟨count, ⟨⟩, -⟩
      rw [advance_of_cursor (valid_endless valid) begun reached,
        Plan.linkFrom, if_neg endless, map_eq_ok_iff] at linked
      rw [advance_of_cursor valid begun reached, Plan.linkFrom]
      rcases linked with ⟨searched, found, rfl⟩
      rcases next_of_endless valid begun found with
        ⟨other, searchedToo, same⟩
      by_cases exhausted : plan.Exhausted progress.given
      · exact ⟨.ended, if_pos exhausted, by simp [exhausted]⟩
      · refine ⟨_, (if_neg exhausted).trans
          (map_eq_ok_iff.mpr ⟨other, searchedToo, rfl⟩), fun pair => ?_⟩
        simp only [map_eq_found_iff, same, exhausted, not_false_iff, true_and]
        constructor
        · rintro ⟨value, ⟨foundValue, inTime⟩, rfl⟩
          exact ⟨⟨value, foundValue, rfl⟩, inTime⟩
        · rintro ⟨⟨value, foundValue, rfl⟩, inTime⟩
          exact ⟨value, ⟨foundValue, inTime⟩, rfl⟩

/-! ## All links -/

namespace Plan

/-- A moment is not later than the deadline. -/
def InTime (plan : Plan) (moment : Moment) : Prop :=
  ∀ deadline ∈ plan.deadline, moment.NotAfter deadline

instance (plan : Plan) (moment : Moment) : Decidable (plan.InTime moment) :=
  inferInstanceAs (Decidable (∀ deadline ∈ plan.deadline, _))

/--
The first of some values that are in time, as many as are left of the count when
some were given before.
-/
def cutOff (plan : Plan) (given : Nat) (values : List Moment) :
    List Moment :=
  let kept := values.takeWhile fun value => plan.InTime value
  plan.count.elim kept fun count => kept.take (count.toNat - given)

end Plan

theorem cutOff_nil (plan : Plan) (given : Nat) :
    plan.cutOff given [] = [] := by
  cases counted : plan.count <;> simp [Plan.cutOff, counted]

theorem cutOff_cons_of_kept {given : Nat} {value : Moment}
    (goesOn : ¬ plan.Exhausted given) (inTime : plan.InTime value)
    (rest : List Moment) :
    plan.cutOff given (value :: rest) =
      value :: plan.cutOff (given + 1) rest := by
  simp only [Plan.cutOff, List.takeWhile_cons, inTime, decide_true, if_true]
  cases counted : plan.count with
  | none => rfl
  | some count =>
      have left : ¬ count ≤ given := fun reached =>
        goesOn ⟨count, counted, reached⟩
      have room : count.toNat - given = count.toNat - (given + 1) + 1 := by
        omega
      rw [Option.elim_some, Option.elim_some, room, List.take_succ_cons]

theorem cutOff_of_exhausted {given : Nat}
    (exhausted : plan.Exhausted given) (values : List Moment) :
    plan.cutOff given values = [] := by
  rcases exhausted with ⟨count, member, reached⟩
  have none : count.toNat - given = 0 := by omega
  simp only [Plan.cutOff, Option.mem_def.mp member, Option.elim_some, none,
    List.take_zero]

theorem cutOff_cons_of_late {value : Moment} (late : ¬ plan.InTime value)
    (given : Nat) (rest : List Moment) :
    plan.cutOff given (value :: rest) = [] := by
  simp only [Plan.cutOff, List.takeWhile_cons, late, decide_false]
  cases plan.count <;> simp

/-- What the endless chain yields, cut off, is what this chain yields. -/
theorem yields_of_endless (valid : plan.Valid) {count : Nat}
    {progress final : Rule.Progress} {values : List Moment}
    {stuckAt : Option Rule.Progress}
    (yields : Yields plan.endless.rule.advance progress values final)
    (stopped : Stops plan.endless.rule.advance count values.length final
      stuckAt)
    (course : plan.OnCourse progress) :
    ∃ last lastStuckAt,
      Yields plan.rule.advance progress
          (plan.cutOff progress.given values) last ∧
        Stops plan.rule.advance count
          (plan.cutOff progress.given values).length last lastStuckAt := by
  -- The limit shrinks with every value, the count of given ones grows.
  induction yields generalizing count with
  | @nil progress =>
      rw [cutOff_nil]
      rcases stopped with ⟨enough, -⟩ | ⟨-, linked⟩
      · exact ⟨progress, none, .nil, .inl ⟨enough, rfl⟩⟩
      obtain ⟨finding, linked, fruitless⟩ :
          ∃ finding, plan.endless.rule.advance progress = .ok finding ∧
            ∀ pair, finding ≠ .found pair := by
        rcases linked with ⟨linked, -⟩ | ⟨linked, -⟩
        · exact ⟨_, linked, by simp⟩
        · exact ⟨_, linked, by simp⟩
      rcases advance_of_endless valid course linked with
        ⟨other, linkedToo, same⟩
      rcases exists_stops_of_fruitless count linkedToo
          fun pair found => fruitless pair ((same pair).mp found).1 with
        ⟨lastStuckAt, stoppedToo⟩
      exact ⟨progress, lastStuckAt, .nil, stoppedToo⟩
  | @cons progress next final value rest found onward induction =>
      rcases advance_of_endless valid course found with
        ⟨other, linkedToo, same⟩
      obtain ⟨room, rfl⟩ : ∃ room, count = room + 1 := by
        rcases stopped with ⟨enough, -⟩ | ⟨fewer, -⟩
        · exact ⟨rest.length, enough.symm⟩
        · exact Nat.exists_eq_succ_of_ne_zero (by omega)
      have nextCourse : plan.OnCourse next :=
        onCourse_advance (valid_endless valid) course found
      obtain ⟨-, rfl, -, later, -⟩ :=
        advance_sound (valid_endless valid) course found
      have inTime := not_exceeded_iff valid (Moment.isAware_eq later.offset)
      by_cases kept : ¬ plan.Exhausted progress.given ∧
          ¬ plan.Exceeded value
      · rcases induction (stops_succ_iff.mp stopped) nextCourse with
          ⟨last, lastStuckAt, yieldsToo, stoppedToo⟩
        have foundToo := (same _).mpr ⟨rfl, kept⟩
        rw [cutOff_cons_of_kept kept.1 (inTime.mp kept.2)]
        exact ⟨last, lastStuckAt,
          .cons (linkedToo.trans (congrArg _ foundToo)) yieldsToo,
          stops_succ_iff.mpr stoppedToo⟩
      · have nothing : plan.cutOff progress.given (value :: rest) = [] := by
          by_cases exhausted : plan.Exhausted progress.given
          · exact cutOff_of_exhausted exhausted _
          · exact cutOff_cons_of_late
              (fun early => kept ⟨exhausted, inTime.mpr early⟩) _ _
        have fruitless : ∀ pair, other ≠ .found pair := by
          intro pair foundToo
          rcases (same pair).mp foundToo with ⟨samePair, goesOn⟩
          cases samePair
          exact kept goesOn
        rcases exists_stops_of_fruitless (room + 1) linkedToo fruitless with
          ⟨lastStuckAt, stoppedToo⟩
        rw [nothing]
        exact ⟨progress, lastStuckAt, .nil, stoppedToo⟩

/--
If the chain of an accepted draft without deadline and count returns a list,
then so does the chain of the draft itself: the longest beginning of the list
that is in time, cut to as many as counted.
-/
theorem allOccurrences_of_endless {draft : Draft} {plan : Plan}
    {limit : Int} {values : List Moment}
    (accepted : draft.validate = .ok plan)
    (returned : (draft.endless.read.allOccurrences limit).outcome =
      .ok values) :
    let kept := values.takeWhile fun value => plan.InTime value
    (draft.read.allOccurrences limit).outcome =
      .ok (plan.count.elim kept fun count => kept.take count.toNat) := by
  have valid := valid_of_validate accepted
  rw [read_of_validate (validate_endless accepted)] at returned
  rw [read_of_validate accepted]
  rw [Rule.allOccurrences] at returned ⊢
  split at returned
  · cases returned
  next small =>
  rw [if_neg small]
  cases collected : collect plan.endless.rule.advance limit.toNat {} with
  | error fault =>
      rw [collected] at returned
      cases returned
  | ok drawn =>
      rw [collected] at returned
      cases returned
      rcases collect_eq_ok_iff.mp collected with ⟨final, yields, stopped⟩
      rcases yields_of_endless valid yields stopped (onCourse_begin plan) with
        ⟨last, stuckAt, yieldsToo, stoppedToo⟩
      have alsoCollected : collect plan.rule.advance limit.toNat {} =
          .ok ⟨plan.cutOff 0 drawn.values, stuckAt⟩ :=
        collect_eq_ok_iff.mpr ⟨last, yieldsToo, stoppedToo⟩
      rw [alsoCollected]
      rfl

/-- The first three of the Mondays of January 2024. -/
def threeMondays : Draft :=
  { mondaysOfJanuary with count := .whole 3 }

/-- The plan of `threeMondays`. -/
def threeMondaysPlan : Plan :=
  { mondaysOfJanuaryPlan with count := some 3 }

theorem allOccurrences_of_endless_mondays :
    threeMondays.validate = .ok threeMondaysPlan ∧
    ∃ values,
      (threeMondays.endless.read.allOccurrences 5).outcome = .ok values ∧
        values.length = 5 ∧
        (values.takeWhile fun value =>
          threeMondaysPlan.InTime value).length = 4 ∧
        (threeMondays.read.allOccurrences 5).outcome =
          .ok (values.take 3) := by
  have accepted : threeMondays.validate = .ok threeMondaysPlan := rfl
  have returned : (threeMondays.endless.read.allOccurrences 5).outcome =
      .ok [{ ticks := 63840301200000000, offset := none },
        { ticks := 63840906000000000, offset := none },
        { ticks := 63841510800000000, offset := none },
        { ticks := 63842115600000000, offset := none },
        { ticks := 63842720400000000, offset := none }] := rfl
  have cutOff := allOccurrences_of_endless accepted returned
  exact ⟨accepted, _, returned, rfl, rfl, cutOff⟩

end Timetable
