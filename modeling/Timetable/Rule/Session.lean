import Timetable.Clock
import Timetable.Rule.Description
import Timetable.Rule.Range

/-!
# Sessions with a rule

A session holds the plan of a valid draft together with the draft, a clock and
the sequences of occurrences that were opened in it.  Only a request for the
next occurrence that does not say after which moment reads the clock.  Sequences
start from the start of the rule and search only when a value is drawn from
them.
-/

namespace Timetable.Rule

open Timetable.Calendar

/-- What can be asked of a session with a rule. -/
inductive Request where
  /-- The rule in words. -/
  | describe
  /-- The rule in words, marked as a rule. -/
  | display
  /-- The next occurrence after a moment. -/
  | next (after : Option Moment)
  /-- The occurrences between two moments. -/
  | between (first last : Moment) (limit : Int)
  /-- Whether a moment is an occurrence. -/
  | isOccurrence (moment : Moment)
  /-- The first occurrences. -/
  | all (limit : Int)
  /-- Opens the sequence of all occurrences. -/
  | openSequence (name : String)
  /-- Draws from a sequence. -/
  | draw (name : String)
deriving Repr

/-- What a session with a rule answers. -/
inductive Answer where
  | text (content : String)
  | truth (holds : Bool)
  | moment (moment : Option Moment)
  | moments (moments : List Moment)
  | opened
  | stopped
deriving Repr

/-- A plan with its draft, a clock and the open sequences. -/
structure Session where
  draft : Draft
  plan : Plan
  clock : Clock
  sequences : OpenSequences (Chain Progress) := []
deriving Repr

namespace Session

/-- Opens a session for a draft that is valid. -/
def start (draft : Draft) (readings : List Moment) :
    Except Failure Session :=
  match draft.check with
  | .error failure => .error failure
  | .ok plan =>
      .ok { draft := draft, plan := plan, clock := ⟨readings, 0⟩ }

/-- The rule of a session. -/
def rule (session : Session) : Rule := session.plan.rule

/-- The next occurrence after the given moment, or else after the present. -/
def nextAfter (session : Session) (after : Option Moment) :
    Session × Reply Answer :=
  let (reading, clock) := session.clock.readUnless after
  let reply :=
    match reading with
    | .error fault => .ofFaulting (.error fault)
    | .ok moment => (session.rule.nextReply moment).map .moment
  ({ session with clock := clock }, reply)

/-- The notices of a draw that gave up. -/
def drawNotices (rule : Rule) (chain : Chain Progress)
    (finding : Finding Moment) : List Notice :=
  match chain with
  | .waiting progress =>
      if finding.hasGivenUp then rule.chainNotices (some progress) else []
  | .finished => []

/-- The reply to a draw. -/
def drawReply (rule : Rule) (chain : Chain Progress)
    (result : Except Fault (Finding Moment)) : Reply Answer :=
  match result with
  | .error fault => .ofFaulting (.error fault)
  | .ok finding =>
      { outcome :=
          .ok
            (match finding.toOption with
              | some moment => .moment (some moment)
              | none => .stopped)
        notices := drawNotices rule chain finding }

/-- Draws from the sequence under a name. -/
def drawFrom (session : Session) (name : String) :
    Session × Reply Answer :=
  match session.sequences.get? name with
  | none => (session, .ofFaulting (.error .unknownSequence))
  | some chain =>
      let (result, after) := chain.draw session.rule.advance
      ({ session with sequences := session.sequences.put name after },
        drawReply session.rule chain result)

/-- Answers one request. -/
def respond (session : Session) :
    Request → Session × Reply Answer
  | .describe =>
      (session, (Reply.ofFaulting session.draft.describe).map .text)
  | .display => (session, (Reply.ofFaulting session.draft.display).map .text)
  | .next after => session.nextAfter after
  | .between first last limit =>
      (session,
        (session.rule.occurrencesBetween first last limit).map .moments)
  | .isOccurrence moment =>
      (session,
        (Reply.ofFaulting (session.rule.isOccurrence moment)).map .truth)
  | .all limit =>
      (session, (session.rule.allOccurrences limit).map .moments)
  | .openSequence name =>
      ({ session with sequences := session.sequences.put name (.waiting {}) },
        .ok .opened)
  | .draw name => session.drawFrom name

/-- Answers requests one after the other, with the session after each. -/
def run (session : Session) :
    List Request → List (Session × Reply Answer)
  | [] => []
  | request :: rest =>
      let (after, reply) := session.respond request
      (after, reply) :: run after rest

end Session

end Timetable.Rule
