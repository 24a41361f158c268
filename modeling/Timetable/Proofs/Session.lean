import Timetable.Proofs.Cron.Session
import Timetable.Proofs.Rule.Guard
import Timetable.Proofs.Rule.Session

/-!
# Sessions

The two kinds of sessions treat their clock and their sequences in the same way.
What a sequence gives does not depend on anything else that is asked of its
session, and is what a list of its first values has; the clock is read by those
requests that leave the moment to search from to it, and by no others.
-/

namespace Timetable

open Timetable.Calendar

/-- A session for a rule begins with the plan of its draft and a fresh clock. -/
theorem Rule.Session.start_eq_ok_iff {draft : Draft}
    {readings : List Moment} {session : Rule.Session} :
    Rule.Session.start draft readings = .ok session ↔
      ∃ plan, draft.validate = .ok plan ∧
        session = { draft := draft, plan := plan, clock := ⟨readings, 0⟩ } := by
  rw [start, Draft.check]
  cases draft.validate <;> simp [Except.mapError, eq_comm]

theorem Cron.Session.clock_of_start {expression : String}
    {readings : List Moment} {session : Cron.Session}
    (started : Cron.Session.start expression readings = .ok session) :
    session.clock = ⟨readings, 0⟩ := by
  rw [start] at started
  split at started
  · cases started
  · cases started
    rfl

/-! ## Sequences -/

/--
Whatever else is asked of a session, the draw after `draws` others from a
sequence since it was last opened depends on the pattern and the pivot, or the
rule, and this number only.  It gives the last member of the list of one value
more, stops if that list is shorter, and fails where that list is the first to
fail; every draw after a stop or a failure stops.
-/
theorem draws_go_by_lists :
    (∀ (session : Cron.Session) (script : List Cron.Request)
      (index draws : Nat) (name : String) (pivot : Moment),
      session.LastOpened (script.take index) name pivot draws →
        script[index]? = some (.draw name) →
          (session.run script)[index]?.map Prod.snd =
            some (session.pattern.pull pivot draws)) ∧
    (∀ (pattern : Cron.Pattern) (pivot : Moment),
      PullsAsListed
        (fun limit =>
          ((Cron.Source.compiled pattern).nextMany limit pivot).outcome)
        (fun minute => .moment (some minute)) .stopped
        (fun index => (pattern.pull pivot index).outcome)) ∧
    ∀ (draft : Draft) (readings : List Moment) (session : Rule.Session),
      Rule.Session.start draft readings = .ok session →
        (∀ (script : List Rule.Request) (index draws : Nat) (name : String),
          Rule.Session.LastOpened (script.take index) name draws →
            script[index]? = some (.draw name) →
              (session.run script)[index]?.map Prod.snd =
                some (draft.read.pull draws)) ∧
        PullsAsListed
          (fun limit => (draft.read.allOccurrences limit).outcome)
          (fun occurrence => .moment (some occurrence)) .stopped
          (fun index => (draft.read.pull index).outcome) := by
  refine ⟨fun session script index draws name pivot => ?_,
    Cron.Pattern.pull_spec, fun draft readings session started => ?_⟩
  · exact Cron.Session.reply_draw
  · rcases Rule.Session.start_eq_ok_iff.mp started with
      ⟨plan, accepted, rfl⟩
    rw [read_of_validate accepted]
    exact ⟨fun script index draws name => Rule.Session.reply_draw,
      Rule.pull_spec (valid_of_validate accepted)⟩

/-- A session for `halfHours` with a clock that has one reading. -/
def halfHoursSession : Cron.Session where
  pattern := Cron.Pattern.halfHours
  clock := ⟨[newYear], 0⟩

/-- Two sequences of half hours, with other requests between the draws. -/
def halfHoursScript : List Cron.Request :=
  [.openSequence "late" (some Cron.Pattern.beforeHalfPast),
    .openSequence "now" none, .draw "late", .next none, .draw "now",
    .draw "late"]

/-- Two sequences of the last days, the first of them drawn from thrice. -/
def closingScript : List Rule.Request :=
  [.openSequence "first", .draw "first", .openSequence "second",
    .draw "first", .draw "second", .draw "first"]

theorem draws_go_by_lists_halfHours :
    halfHoursSession.LastOpened (halfHoursScript.take 5) "late"
      Cron.Pattern.beforeHalfPast 1 ∧
    (halfHoursSession.run halfHoursScript)[5]?.map Prod.snd =
      some (Cron.Pattern.halfHours.pull Cron.Pattern.beforeHalfPast 1) ∧
    (Cron.Pattern.halfHours.pull Cron.Pattern.beforeHalfPast 1).outcome =
      .ok (.moment (some { ticks := 63839667600000000, offset := none })) ∧
    ∃ session, Rule.Session.start closingDays [] = .ok session ∧
      (session.run closingScript)[3]?.map Prod.snd =
        some (closingDays.read.pull 1) ∧
      (closingDays.read.pull 1).outcome =
        .error (.fault (.range .pastEdge)) ∧
      (session.run closingScript)[5]?.map Prod.snd =
        some (closingDays.read.pull 2) ∧
      (closingDays.read.pull 2).outcome = .ok .stopped := by
  obtain ⟨drawn, listed, ruled⟩ := draws_go_by_lists
  have opened : halfHoursSession.LastOpened (halfHoursScript.take 5) "late"
      Cron.Pattern.beforeHalfPast 1 := by
    refine ⟨[], _, _, _, rfl, rfl, rfl, ⟨?_, ?_, ?_, ?_, trivial⟩, rfl⟩ <;>
      rintro ⟨now, same, -⟩ <;> simp at same
  have second := (listed Cron.Pattern.halfHours
    Cron.Pattern.beforeHalfPast).member 1
      [{ ticks := 63839665800000000, offset := none },
        { ticks := 63839667600000000, offset := none }] rfl (by decide)
  rcases ruled closingDays [] _ rfl with ⟨ruleDrawn, ruleListed⟩
  have openedFirst : Rule.Session.LastOpened (closingScript.take 3) "first"
      1 := ⟨[], _, rfl, by decide, rfl⟩
  have openedBefore : Rule.Session.LastOpened (closingScript.take 5) "first"
      2 := ⟨[], _, rfl, by decide, rfl⟩
  have failed := ruleListed.failure 1 (.fault (.range .pastEdge))
    [{ ticks := 315537843600000000, offset := none }] (by decide) rfl rfl
  exact ⟨opened, drawn _ _ _ _ _ _ opened rfl, second, _, rfl,
    ruleDrawn _ _ _ _ openedFirst rfl, failed,
    ruleDrawn _ _ _ _ openedBefore rfl,
    ruleListed.finished 1 2 (by decide) (.inr ⟨_, failed⟩)⟩

/-! ## Readings -/

/--
A session that was started with some readings has read its clock, after every
step, as often as the script up to there left the pivot to it.  Such a step
answers as with the reading given outright, and a whole script is answered as by
a session without a clock that is given every reading there is.
-/
theorem clock_accounts :
    (∀ (expression : String) (readings : List Moment)
      (session : Cron.Session),
      Cron.Session.start expression readings = .ok session →
        Script.ClockAccount session.run Cron.Session.clock
          Cron.Request.readsClock Cron.Request.asOf readings ∧
        ∀ script,
          ((session.withClock ⟨[], 0⟩).run
              (Script.pinned Cron.Session.respond Cron.Session.clock
                Cron.Request.mapPivot session script)).map Prod.snd =
            (session.run script).map Prod.snd) ∧
    ∀ (draft : Draft) (readings : List Moment) (session : Rule.Session),
      Rule.Session.start draft readings = .ok session →
        Script.ClockAccount session.run Rule.Session.clock
          Rule.Request.readsClock Rule.Request.asOf readings ∧
        ∀ script,
          ((session.withClock ⟨[], 0⟩).run
              (Script.pinned Rule.Session.respond Rule.Session.clock
                Rule.Request.mapPivot session script)).map Prod.snd =
            (session.run script).map Prod.snd := by
  constructor
  · intro expression readings session started
    constructor
    · rw [funext session.run_eq]
      exact Cron.Session.clocked.account
        (Cron.Session.clock_of_start started)
    · simp only [Cron.Session.run_eq]
      exact Cron.Session.clocked.answers_pinned session
  · intro draft readings session started
    rcases Rule.Session.start_eq_ok_iff.mp started with ⟨plan, -, rfl⟩
    constructor
    · rw [funext (Rule.Session.run_eq _)]
      exact Rule.Session.clocked.account rfl
    · simp only [Rule.Session.run_eq]
      exact Rule.Session.clocked.answers_pinned _

/-- Requests that read the clock twice, once in vain, and some that do not. -/
def clockScript : List Cron.Request :=
  [.isMatch newYear, .previous none, .openSequence "late" none,
    .next (some newYear), .draw "late"]

theorem clock_accounts_halfHours :
    ∃ session, Cron.Session.start "*/30 * * * *" [newYear] = .ok session ∧
      (∃ result, (session.run clockScript)[4]? = some result ∧
        result.1.clock = ⟨[newYear], 2⟩) ∧
      (session.run (clockScript.set 1 (.previous (some newYear))))[1]?.map
          Prod.snd =
        (session.run clockScript)[1]?.map Prod.snd ∧
    ∃ session, Rule.Session.start mondaysOfJanuary [newYear] = .ok session ∧
      ∃ result, (session.run [.next none, .next none])[1]? = some result ∧
        result.1.clock = ⟨[newYear], 2⟩ := by
  obtain ⟨accounts, ruleAccounts⟩ := clock_accounts
  have account := (accounts "*/30 * * * *" [newYear] _ rfl).1
  have ruleAccount := (ruleAccounts mondaysOfJanuary [newYear] _ rfl).1
  rcases account.answered clockScript 4 _ rfl with ⟨result, answered⟩
  rcases ruleAccount.answered [.next none, .next none] 1 _ rfl with
    ⟨ruleResult, ruleAnswered⟩
  exact ⟨_, rfl,
    ⟨result, answered, account.used clockScript 4 result answered⟩,
    account.explicit clockScript 1 _ newYear rfl rfl rfl, _, rfl,
    ruleResult, ruleAnswered, ruleAccount.used _ 1 ruleResult ruleAnswered⟩

end Timetable
