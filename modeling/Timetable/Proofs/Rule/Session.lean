import Timetable.Proofs.Clock
import Timetable.Proofs.Draws
import Timetable.Proofs.Rule.Iteration
import Timetable.Proofs.Script
import Timetable.Rule.Session

/-!
# Scripts for a session with a rule

Only the request for the next occurrence reads the clock, and only if it does
not say after which moment.  The sequences of a session all begin at the start
of its rule, and opening one never fails.

The readings and draws along a script are counted as for a session with a
pattern: the replies to draws depend on nothing but the rule and the number of
draws since the sequence was opened.
-/

namespace Timetable.Rule

open Timetable.Calendar

namespace Request

/-- Whether a request opens the sequence under a name. -/
def isOpening (name : String) : Request → Bool
  | openSequence other => other == name
  | _ => false

/-- Whether a request draws from the sequence under a name. -/
def isDraw (name : String) : Request → Bool
  | draw other => other == name
  | _ => false

/-- Whether a request leaves it to the clock from where to search. -/
def readsClock : Request → Bool
  | next none => true
  | _ => false

/-- The request with another moment, or none, to search from. -/
def mapPivot (change : Option Moment → Option Moment) : Request → Request
  | next after => next (change after)
  | request => request

/-- The request that searches from a moment if no other was given. -/
def asOf (pivot : Moment) : Request → Request :=
  mapPivot fun given => given.or (some pivot)

end Request

namespace Session

variable {session : Session}

/-- The session with another clock. -/
def withClock (session : Session) (clock : Clock) : Session :=
  { session with clock := clock }

theorem run_eq (session : Session) (script : List Request) :
    session.run script = Script.run respond session script := by
  induction script generalizing session with
  | nil => rfl
  | cons request rest induction =>
      exact congrArg _ (induction _)

theorem rule_respond (session : Session) (request : Request) :
    (session.respond request).1.rule = session.rule := by
  cases request with
  | draw name =>
      rw [respond, drawFrom]
      cases session.sequences.get? name <;> rfl
  | _ => rfl

theorem rule_after (session : Session) (script : List Request) :
    (Script.after respond session script).rule = session.rule :=
  Script.after_keeps Session.rule rule_respond session script

/-! ## Readings -/

/-- A step reads the clock once if the request does so, and not at all else. -/
theorem clock_respond (session : Session) (request : Request) :
    (session.respond request).1.clock =
      ⟨session.clock.readings,
        if request.readsClock then session.clock.used + 1
        else session.clock.used⟩ := by
  cases request with
  | next after =>
      have read : (session.respond (.next after)).1.clock =
          (session.clock.readUnless after).2 := rfl
      rw [read, Clock.readUnless_eq]
      cases after <;> rfl
  | draw name =>
      rw [respond, drawFrom]
      cases session.sequences.get? name <;> rfl
  | _ => rfl

/--
A step answers alike with another clock and another pivot, if the moment to
search from is the same.
-/
theorem respond_mapPivot {session : Session} {other : Clock}
    {change : Option Moment → Option Moment}
    (agree : ∀ given, (other.readUnless (change given)).1 =
      (session.clock.readUnless given).1) (request : Request) :
    ∃ used, respond (session.withClock other) (request.mapPivot change) =
      ((session.respond request).1.withClock ⟨other.readings, used⟩,
        (session.respond request).2) := by
  cases request with
  | next after =>
      rcases Clock.readUnless_of_agree (agree after) with ⟨used, read⟩
      exact ⟨used, by
        simp only [Request.mapPivot, respond, nextAfter, withClock, read,
          rule]⟩
  | draw name =>
      refine ⟨other.used, ?_⟩
      simp only [Request.mapPivot, respond, drawFrom, withClock, rule]
      cases session.sequences.get? name <;> rfl
  | _ => exact ⟨other.used, rfl⟩

/-- The clock of a session is only ever read for a pivot. -/
theorem clocked : Script.Clocked respond clock withClock
    Request.readsClock Request.mapPivot :=
  ⟨fun _ => rfl, clock_respond, respond_mapPivot⟩

/-! ## Sequences -/

theorem respond_draw {name : String} {chain : Chain Progress}
    (held : session.sequences.get? name = some chain) :
    session.respond (.draw name) =
      ({ session with
          sequences := session.sequences.put name
            (chain.draw session.rule.advance).2 },
        drawReply session.rule chain
          (chain.draw session.rule.advance).1) := by
  rw [respond, drawFrom, held]

/-- A sequence that is not opened anew is left alone, or drawn from. -/
theorem get?_respond {name : String} {request : Request}
    {chain : Chain Progress} (kept : request.isOpening name = false)
    (held : session.sequences.get? name = some chain) :
    (session.respond request).1.sequences.get? name =
      some (if request.isDraw name
        then (chain.draw session.rule.advance).2 else chain) := by
  cases request with
  | openSequence other =>
      have different : other ≠ name := by
        simpa [Request.isOpening] using kept
      exact (OpenSequences.get?_put_of_ne _ _ different).trans held
  | draw other =>
      by_cases same : other = name
      · subst same
        rw [respond_draw held, OpenSequences.get?_put_self, Request.isDraw,
          if_pos (beq_self_eq_true other)]
      · rw [if_neg (by simpa [Request.isDraw] using same), respond, drawFrom]
        cases drawnFrom : session.sequences.get? other with
        | none => exact held
        | some chain =>
            exact (OpenSequences.get?_put_of_ne _ _ same).trans held
  | _ => exact held

/-- Along a script a sequence is drawn from as often as the script says. -/
theorem get?_after {name : String} {script : List Request}
    {chain : Chain Progress}
    (kept : ∀ request ∈ script, request.isOpening name = false)
    (held : session.sequences.get? name = some chain) :
    (Script.after respond session script).sequences.get? name =
      some (chain.drawn session.rule.advance
        (script.countP (Request.isDraw name))) := by
  let has (later : Session) (chain : Chain Progress) : Prop :=
    later.rule = session.rule ∧ later.sequences.get? name = some chain
  refine (Script.has_after has
    (fun chain => (chain.draw session.rule.advance).2)
    (Request.isDraw name)
    (fun _ request => request.isOpening name = false) ?_
    (Script.throughout_of_mem fun _ => kept) ⟨rfl, held⟩).2
  rintro later request chain kept ⟨same, held⟩
  refine ⟨(later.rule_respond request).trans same, ?_⟩
  rw [get?_respond kept held, same]

/--
The sequence under a name was last opened by a request of a script, and drawn
from a number of times since.
-/
def LastOpened (script : List Request) (name : String) (draws : Nat) : Prop :=
  ∃ before since, script = before ++ .openSequence name :: since ∧
    (∀ request ∈ since, request.isOpening name = false) ∧
    since.countP (Request.isDraw name) = draws

end Session

/-- The reply to the draw after `index` others from a sequence. -/
def pull (rule : Rule) (index : Nat) : Reply Answer :=
  Session.drawReply rule (Chain.drawn rule.advance index (.waiting {}))
    (Chain.nth rule.advance index (.waiting {}))

namespace Session

/-- What is drawn depends on the rule and the number of draws. -/
theorem reply_draw {session : Session} {script : List Request}
    {index draws : Nat} {name : String}
    (opened : LastOpened (script.take index) name draws)
    (asked : script[index]? = some (.draw name)) :
    (session.run script)[index]?.map Prod.snd =
      some (session.rule.pull draws) := by
  rcases opened with ⟨before, since, split, kept, rfl⟩
  have sameRule := rule_after session before
  rw [run_eq, Script.answer_at session asked, split, Script.after_append,
    Script.after]
  generalize Script.after respond session before = opener at sameRule
  have held : (opener.respond (.openSequence name)).1.sequences.get? name =
      some (.waiting {}) := OpenSequences.get?_put_self _ _ _
  rw [respond_draw (get?_after kept held), rule_after, rule_respond,
    sameRule]
  rfl

end Session

/-! ## Draws by lists -/

theorem allOccurrences_outcome (rule : Rule) (limit : Int) :
    (rule.allOccurrences limit).outcome = listing rule.advance {} limit := by
  rw [allOccurrences, listing]
  by_cases large : greatestLimit < limit
  · rw [if_pos large, if_pos large]
    rfl
  · rw [if_neg large, if_neg large]
    cases collect rule.advance limit.toNat {} <;> rfl

theorem pull_outcome (rule : Rule) (index : Nat) :
    (rule.pull index).outcome =
      drawAnswer (fun occurrence => .moment (some occurrence)) .stopped
        (Chain.nth rule.advance index (.waiting {})) := by
  rw [pull]
  rcases Chain.nth rule.advance index (.waiting {}) with fault | finding
  · rfl
  · cases finding <;> rfl

/-- Draws from the occurrences of a valid plan go by the lists of them. -/
theorem pull_spec {plan : Plan} (valid : plan.Valid) :
    PullsAsListed (fun limit => (plan.rule.allOccurrences limit).outcome)
      (fun occurrence => .moment (some occurrence)) .stopped
      (fun index => (plan.rule.pull index).outcome) := by
  simp only [allOccurrences_outcome, pull_outcome]
  refine pullsAsListed dayCount (by decide) ?_ ?_
  · intro values final yields
    have days := (given_of_yields valid yields).days
    have inside := (plan.reached final).dayNumber_lt
    omega
  · rintro occurrence ⟨⟩

end Timetable.Rule
