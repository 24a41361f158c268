import Timetable.Cron.Session
import Timetable.Proofs.Clock
import Timetable.Proofs.Cron.Enumeration
import Timetable.Proofs.Draws
import Timetable.Proofs.Script

/-!
# Scripts for a session with a pattern

Of the requests to a session some read the clock and some draw from a sequence;
`Request.readsClock` and `Request.isDraw` tell which.  A step leaves the clock
as it is unless the request reads it, and a sequence unless the request draws
from it or opens it anew.

Along a script these steps add up.  The clock is read as often as requests of
the script read it, and the replies to draws depend on nothing but the pattern,
the moment after which the sequence was opened, and the number of draws.
-/

namespace Timetable.Cron

open Timetable.Calendar

namespace Request

/-- Whether a request draws from the sequence under a name. -/
def isDraw (name : String) : Request → Bool
  | draw other => other == name
  | _ => false

/-- Whether a request leaves it to the clock from where to search. -/
def readsClock : Request → Bool
  | next none => true
  | previous none => true
  | nextMany _ none => true
  | openSequence _ none => true
  | _ => false

/-- The request with another moment, or none, to search from. -/
def mapPivot (change : Option Moment → Option Moment) : Request → Request
  | next now => next (change now)
  | previous now => previous (change now)
  | nextMany count now => nextMany count (change now)
  | openSequence name now => openSequence name (change now)
  | request => request

/-- The request that searches from a moment if no other was given. -/
def asOf (pivot : Moment) : Request → Request :=
  mapPivot fun given => given.or (some pivot)

end Request

namespace Session

variable {session : Session}

/-- The session with another clock. -/
def withClock (session : Session) (clock : Clock) : Session :=
  { session with clock := clock }

theorem run_eq (session : Session) (script : List Request) :
    session.run script = Script.run respond session script := by
  induction script generalizing session with
  | nil => rfl
  | cons request rest induction =>
      exact congrArg _ (induction _)

theorem pattern_respond (session : Session) (request : Request) :
    (session.respond request).1.pattern = session.pattern := by
  cases request with
  | openSequence name now =>
      rw [respond, openAt]
      rcases session.clock.readUnless now with ⟨_ | _, clock⟩ <;> rfl
  | draw name =>
      rw [respond, drawFrom]
      cases session.sequences.get? name <;> rfl
  | _ => rfl

theorem pattern_after (session : Session) (script : List Request) :
    (Script.after respond session script).pattern = session.pattern :=
  Script.after_keeps Session.pattern pattern_respond session script

/-! ## Readings -/

/-- A step reads the clock once if the request does so, and not at all else. -/
theorem clock_respond (session : Session) (request : Request) :
    (session.respond request).1.clock =
      ⟨session.clock.readings,
        if request.readsClock then session.clock.used + 1
        else session.clock.used⟩ := by
  have read (now : Option Moment) :
      (session.clock.readUnless now).2 =
        ⟨session.clock.readings,
          if now.isNone then session.clock.used + 1
          else session.clock.used⟩ := by
    rw [Clock.readUnless_eq]
  cases request with
  | next now => exact (read now).trans (by cases now <;> rfl)
  | previous now => exact (read now).trans (by cases now <;> rfl)
  | nextMany count now => exact (read now).trans (by cases now <;> rfl)
  | openSequence name now =>
      have opened : (session.respond (.openSequence name now)).1.clock =
          (session.clock.readUnless now).2 := by
        rw [respond, openAt]
        rcases session.clock.readUnless now with ⟨_ | _, clock⟩ <;> rfl
      exact opened.trans ((read now).trans (by cases now <;> rfl))
  | draw name =>
      rw [respond, drawFrom]
      cases session.sequences.get? name <;> rfl
  | _ => rfl

theorem answerAt_withClock {session : Session} {other : Clock}
    {given now : Option Moment}
    (agree : (other.readUnless given).1 = (session.clock.readUnless now).1)
    (answer : Moment → Reply Answer) :
    ∃ used, (session.withClock other).answerAt given answer =
      ((session.answerAt now answer).1.withClock ⟨other.readings, used⟩,
        (session.answerAt now answer).2) := by
  rcases Clock.readUnless_of_agree agree with ⟨used, read⟩
  exact ⟨used, by simp only [answerAt, withClock, read]⟩

theorem openAt_withClock {session : Session} {other : Clock}
    {given now : Option Moment} (name : String)
    (agree : (other.readUnless given).1 = (session.clock.readUnless now).1) :
    ∃ used, (session.withClock other).openAt name given =
      ((session.openAt name now).1.withClock ⟨other.readings, used⟩,
        (session.openAt name now).2) := by
  rcases Clock.readUnless_of_agree agree with ⟨used, read⟩
  refine ⟨used, ?_⟩
  simp only [openAt, withClock, read]
  cases (session.clock.readUnless now).1 <;> rfl

/--
A step answers alike with another clock and another pivot, if the moment to
search from is the same.
-/
theorem respond_mapPivot {session : Session} {other : Clock}
    {change : Option Moment → Option Moment}
    (agree : ∀ given, (other.readUnless (change given)).1 =
      (session.clock.readUnless given).1) (request : Request) :
    ∃ used, respond (session.withClock other) (request.mapPivot change) =
      ((session.respond request).1.withClock ⟨other.readings, used⟩,
        (session.respond request).2) := by
  cases request with
  | next now => exact answerAt_withClock (agree now) _
  | previous now => exact answerAt_withClock (agree now) _
  | nextMany count now => exact answerAt_withClock (agree now) _
  | openSequence name now => exact openAt_withClock name (agree now)
  | draw name =>
      refine ⟨other.used, ?_⟩
      simp only [Request.mapPivot, respond, drawFrom, withClock]
      cases session.sequences.get? name <;> rfl
  | _ => exact ⟨other.used, rfl⟩

/-- The clock of a session is only ever read for a pivot. -/
theorem clocked : Script.Clocked respond clock withClock
    Request.readsClock Request.mapPivot :=
  ⟨fun _ => rfl, clock_respond, respond_mapPivot⟩

/-! ## Sequences -/

/-- A request opens the sequence under a name, and not in vain. -/
def Opens (session : Session) (name : String) (request : Request) : Prop :=
  ∃ now, request = .openSequence name now ∧
    (session.respond request).2.outcome = .ok .opened

theorem respond_openSequence (name : String) {now : Option Moment}
    {pivot : Moment} {clock : Clock}
    (reading : session.clock.readUnless now = (.ok pivot, clock)) :
    session.respond (.openSequence name now) =
      ({ session with
          clock := clock
          sequences := session.sequences.put name (.waiting pivot) },
        .ok .opened) := by
  rw [respond, openAt, reading]

theorem respond_openSequence_error {name : String} {now : Option Moment}
    {fault : Fault} {clock : Clock}
    (reading : session.clock.readUnless now = (.error fault, clock)) :
    session.respond (.openSequence name now) =
      ({ session with clock := clock }, .ofFaulting (.error fault)) := by
  rw [respond, openAt, reading]

theorem respond_draw {name : String} {chain : Chain Moment}
    (held : session.sequences.get? name = some chain) :
    session.respond (.draw name) =
      ({ session with
          sequences := session.sequences.put name
            (chain.draw session.pattern.advance).2 },
        drawReply session.pattern (chain.draw session.pattern.advance).1) := by
  rw [respond, drawFrom, held]

/-- A sequence that is not opened anew is left alone, or drawn from. -/
theorem get?_respond {name : String} {request : Request}
    {chain : Chain Moment} (kept : ¬ session.Opens name request)
    (held : session.sequences.get? name = some chain) :
    (session.respond request).1.sequences.get? name =
      some (if request.isDraw name
        then (chain.draw session.pattern.advance).2 else chain) := by
  cases request with
  | openSequence other now =>
      rcases reading : session.clock.readUnless now with ⟨_ | pivot, clock⟩
      · rw [respond_openSequence_error reading]
        exact held
      · have opened := respond_openSequence other reading
        have different : other ≠ name := by
          rintro rfl
          exact kept ⟨now, rfl, by rw [opened]; rfl⟩
        rw [opened]
        exact (OpenSequences.get?_put_of_ne _ _ different).trans held
  | draw other =>
      by_cases same : other = name
      · subst same
        rw [respond_draw held, OpenSequences.get?_put_self, Request.isDraw,
          if_pos (beq_self_eq_true other)]
      · rw [if_neg (by simpa [Request.isDraw] using same), respond, drawFrom]
        cases drawnFrom : session.sequences.get? other with
        | none => exact held
        | some chain =>
            exact (OpenSequences.get?_put_of_ne _ _ same).trans held
  | _ => exact held

/-- Along a script a sequence is drawn from as often as the script says. -/
theorem get?_after {name : String} {script : List Request}
    {chain : Chain Moment}
    (kept : Script.Throughout respond
      (fun session request => ¬ session.Opens name request) session script)
    (held : session.sequences.get? name = some chain) :
    (Script.after respond session script).sequences.get? name =
      some (chain.drawn session.pattern.advance
        (script.countP (Request.isDraw name))) := by
  let has (later : Session) (chain : Chain Moment) : Prop :=
    later.pattern = session.pattern ∧
      later.sequences.get? name = some chain
  refine (Script.has_after has
    (fun chain => (chain.draw session.pattern.advance).2)
    (Request.isDraw name) _ ?_ kept ⟨rfl, held⟩).2
  rintro later request chain kept ⟨same, held⟩
  refine ⟨(later.pattern_respond request).trans same, ?_⟩
  rw [get?_respond kept held, same]

/--
The sequence under a name was last opened after a pivot by a request of a
script, and drawn from a number of times since.
-/
def LastOpened (session : Session) (script : List Request) (name : String)
    (pivot : Moment) (draws : Nat) : Prop :=
  ∃ before now since opener,
    script = before ++ .openSequence name now :: since ∧
    Script.after respond session before = opener ∧
    (opener.clock.readUnless now).1 = .ok pivot ∧
    Script.Throughout respond
      (fun session request => ¬ session.Opens name request)
      (opener.respond (.openSequence name now)).1 since ∧
    since.countP (Request.isDraw name) = draws

end Session

/-- The reply to the draw after `index` others from a sequence after a pivot. -/
def Pattern.pull (pattern : Pattern) (pivot : Moment) (index : Nat) :
    Reply Answer :=
  Session.drawReply pattern
    (Chain.nth pattern.advance index (.waiting pivot))

namespace Session

/-- What is drawn depends on the pattern, the pivot and the number of draws. -/
theorem reply_draw {session : Session} {script : List Request}
    {index draws : Nat} {name : String} {pivot : Moment}
    (opened : session.LastOpened (script.take index) name pivot draws)
    (asked : script[index]? = some (.draw name)) :
    (session.run script)[index]?.map Prod.snd =
      some (session.pattern.pull pivot draws) := by
  rcases opened with
    ⟨before, now, since, opener, split, opening, reading, kept, rfl⟩
  have samePattern := pattern_after session before
  rw [opening] at samePattern
  rcases read : opener.clock.readUnless now with ⟨_, clock⟩
  rw [read] at reading
  cases reading
  rw [respond_openSequence name read] at kept
  have held := OpenSequences.get?_put_self opener.sequences name
    (.waiting pivot)
  rw [run_eq, Script.answer_at session asked, split, Script.after_append,
    Script.after, opening, respond_openSequence name read,
    respond_draw (get?_after kept held), pattern_after, Pattern.pull,
    ← samePattern]
  rfl

end Session

/-! ## Draws by lists -/

namespace Pattern

variable {pattern : Pattern}

theorem nextMany_outcome (pattern : Pattern) (limit : Int)
    (pivot : Moment) :
    ((Source.compiled pattern).nextMany limit pivot).outcome =
      listing pattern.advance pivot limit := by
  rw [Source.nextMany, listing]
  by_cases large : greatestLimit < limit
  · rw [if_pos large, if_pos large]
    rfl
  rw [if_neg large, if_neg large]
  by_cases none : limit ≤ 0
  · rw [if_pos none, Int.toNat_of_nonpos none]
    rfl
  rw [if_neg none, Source.answer, Source.resolve]
  simp only [nextMany, if_neg large]
  cases collect pattern.advance limit.toNat pivot <;> rfl

theorem pull_outcome (pattern : Pattern) (pivot : Moment) (index : Nat) :
    (pattern.pull pivot index).outcome =
      drawAnswer (fun minute => .moment (some minute)) .stopped
        (Chain.nth pattern.advance index (.waiting pivot)) := by
  rw [pull, Session.drawReply]
  rcases Chain.nth pattern.advance index (.waiting pivot) with
    fault | finding
  · rfl
  · cases finding <;> rfl

/-- Every value takes a minute. -/
theorem length_le_of_yields {pivot final : Moment} {values : List Moment}
    (yields : Yields pattern.advance pivot values final) :
    pivot.minute.val + values.length ≤ final.minute.val := by
  induction yields with
  | nil => exact Nat.le_refl _
  | cons found _ induction =>
      rcases isNext_of_advance found with ⟨rfl, minute, rfl, isNext⟩
      have later := Fin.lt_def.mp isNext.later
      rw [Moment.minute_ofMinute] at induction
      rw [List.length_cons]
      omega

/-- Draws from the minutes after a pivot go by the lists of them. -/
theorem pull_spec (pattern : Pattern) (pivot : Moment) :
    PullsAsListed
      (fun limit => ((Source.compiled pattern).nextMany limit pivot).outcome)
      (fun minute => .moment (some minute)) .stopped
      (fun index => (pattern.pull pivot index).outcome) := by
  simp only [nextMany_outcome, pull_outcome]
  refine pullsAsListed minuteCount (by decide) ?_ ?_
  · intro values final yields
    have length := length_le_of_yields yields
    have inside := final.minute.isLt
    omega
  · rintro minute ⟨⟩

end Pattern

end Timetable.Cron
