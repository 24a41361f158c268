import Timetable.Chain
import Timetable.Clock
import Timetable.Cron.Description
import Timetable.Cron.Search

/-!
# Sessions with a pattern

A session holds a pattern, a clock and the sequences of admitted minutes that
were opened in it.  It answers one request after the other.  A request that
does not say from where to search reads the clock, exactly once and before
anything else; a sequence reads it when it is opened, and searches only when a
value is drawn from it.
-/

namespace Timetable.Cron

open Timetable.Calendar Timetable.Text

/-- What can be asked of a session. -/
inductive Request where
  /-- The pattern in words. -/
  | describe
  /-- The pattern with its normalized expression. -/
  | display
  /-- The normalized expression. -/
  | expression
  /-- The pattern itself. -/
  | pattern
  /-- Whether some expression compiles. -/
  | validate (expression : String)
  /-- Whether a moment matches. -/
  | isMatch (moment : Moment)
  /-- The first admitted minute after a moment. -/
  | next (now : Option Moment)
  /-- The last admitted minute before a moment. -/
  | previous (now : Option Moment)
  /-- Some of the admitted minutes after a moment. -/
  | nextMany (count : Int) (now : Option Moment)
  /-- Opens the sequence of admitted minutes after a moment. -/
  | openSequence (name : String) (now : Option Moment)
  /-- Draws from a sequence. -/
  | draw (name : String)
deriving Repr

/-- What a session answers. -/
inductive Answer where
  | text (content : String)
  | pattern (pattern : Pattern)
  | truth (holds : Bool)
  | moment (moment : Option Moment)
  | moments (moments : List Moment)
  | opened
  | stopped
deriving Repr

/-- A pattern, a clock and the open sequences. -/
structure Session where
  pattern : Pattern
  clock : Clock
  sequences : OpenSequences (Chain Moment) := []
deriving Repr

/-- The pattern in words. -/
def Pattern.description (pattern : Pattern) : Except Fault String :=
  match describe pattern.expression with
  | .error fault => .error fault
  | .ok description => .ok (description.getD pattern.expression)

/-- The pattern with its normalized expression. -/
def Pattern.display (pattern : Pattern) : String :=
  "Cron(" ++ quoted pattern.expression ++ ")"

namespace Session

/-- Opens a session for an expression. -/
def start (expression : String) (readings : List Moment) :
    Except Failure Session :=
  match Pattern.compile expression with
  | .error error => .error error.failure
  | .ok pattern => .ok { pattern := pattern, clock := ⟨readings, 0⟩ }

/-- Answers a request about the given moment, or else about the present. -/
def answerAt (session : Session) (now : Option Moment)
    (answer : Moment → Reply Answer) : Session × Reply Answer :=
  let (reading, clock) := session.clock.readUnless now
  let reply :=
    match reading with
    | .error fault => .ofFaulting (.error fault)
    | .ok moment => answer moment
  ({ session with clock := clock }, reply)

/-- Opens a sequence after the given moment, or else after the present. -/
def openAt (session : Session) (name : String) (now : Option Moment) :
    Session × Reply Answer :=
  let (reading, clock) := session.clock.readUnless now
  match reading with
  | .error fault =>
      ({ session with clock := clock }, .ofFaulting (.error fault))
  | .ok moment =>
      ({ session with
          clock := clock
          sequences := session.sequences.put name (.waiting moment) },
        .ok .opened)

/-- The reply to a draw. -/
def drawReply (pattern : Pattern)
    (result : Except Fault (Finding Moment)) : Reply Answer :=
  (pattern.searchReply defaultCap result).map fun
    | some moment => .moment (some moment)
    | none => .stopped

/-- Draws from the sequence under a name. -/
def drawFrom (session : Session) (name : String) :
    Session × Reply Answer :=
  match session.sequences.get? name with
  | none => (session, .ofFaulting (.error .unknownSequence))
  | some chain =>
      let (result, chain) := chain.draw session.pattern.advance
      ({ session with sequences := session.sequences.put name chain },
        drawReply session.pattern result)

/-- Answers one request. -/
def respond (session : Session) : Request → Session × Reply Answer
  | .describe =>
      (session, (Reply.ofFaulting session.pattern.description).map .text)
  | .display => (session, .ok (.text session.pattern.display))
  | .expression => (session, .ok (.text session.pattern.expression))
  | .pattern => (session, .ok (.pattern session.pattern))
  | .validate expression =>
      (session, (Reply.ofFaulting (Pattern.isValid expression)).map .truth)
  | .isMatch moment =>
      (session, .ok (.truth (session.pattern.isMatch moment)))
  | .next now =>
      session.answerAt now fun moment =>
        (session.pattern.searchReply defaultCap
          (session.pattern.next moment)).map .moment
  | .previous now =>
      session.answerAt now fun moment =>
        (session.pattern.searchReply defaultCap
          (session.pattern.previous moment)).map .moment
  | .nextMany count now =>
      session.answerAt now fun moment =>
        (session.pattern.nextMany count moment).map .moments
  | .openSequence name now => session.openAt name now
  | .draw name => session.drawFrom name

/-- Answers requests one after the other, with the session after each. -/
def run (session : Session) :
    List Request → List (Session × Reply Answer)
  | [] => []
  | request :: rest =>
      let (after, reply) := session.respond request
      (after, reply) :: run after rest

end Session

end Timetable.Cron
