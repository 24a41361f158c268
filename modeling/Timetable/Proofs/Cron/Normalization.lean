import Timetable.Proofs.Cron.Meaning
import Timetable.Proofs.Cron.Session

/-!
# Normalized expressions

The normalized expression of a pattern has the same words as the expression
that was compiled, and since only the words count, compiling it gives the
pattern again.  The gaps between the words, of whatever blanks they are, are all
that is lost.
-/

namespace Timetable.Cron

open Timetable.Calendar Timetable.Text

/-- The words of an expression are found again in their own text. -/
theorem split?_text_of_splits {expression : String} {parts : Parts}
    (splits : Splits expression.toList (parts.map String.toList).toList) :
    Parts.split? parts.text = some parts :=
  Parts.split?_text fun _ member =>
    splits.isWord_of_mem (List.mem_map_of_mem member)

/-- Compiling the normalized expression gives the same pattern. -/
theorem Pattern.compile_expression {expression : String}
    {pattern : Pattern} (compiled : compile expression = .ok pattern) :
    compile pattern.expression = .ok pattern := by
  rcases compile_eq_ok_iff.mp compiled with ⟨splits, read⟩
  exact compile_eq_ok_iff.mpr
    ⟨split?_eq_some_iff.mp (split?_text_of_splits splits), read⟩

namespace Session

theorem start_eq_ok_iff {expression : String} {readings : List Moment}
    {session : Session} :
    start expression readings = .ok session ↔
      ∃ pattern, Pattern.compile expression = .ok pattern ∧
        session = { pattern := pattern, clock := ⟨readings, 0⟩ } := by
  rw [start]
  cases Pattern.compile expression <;> simp [eq_comm]

/-- What a session tells about its pattern depends on the pattern alone. -/
theorem respond_of_pattern {session other : Session}
    (same : other.pattern = session.pattern) {request : Request}
    (about : request ∈ [.expression, .pattern, .display, .describe]) :
    (other.respond request).2 = (session.respond request).2 := by
  simp only [List.mem_cons, List.not_mem_nil, or_false] at about
  rcases about with rfl | rfl | rfl | rfl <;>
    simp only [respond, same]

/-- The expression that a session tells opens a session that tells the same. -/
theorem exists_rebuilt {expression : String} {readings : List Moment}
    {session : Session} (started : start expression readings = .ok session)
    (script : List Request) (otherReadings : List Moment) :
    ∃ text rebuilt,
      ((Script.after respond session script).respond .expression).2 =
        .ok (.text text) ∧
      start text otherReadings = .ok rebuilt ∧
      rebuilt.pattern = session.pattern ∧
      ∀ request ∈ [.expression, .pattern, .display, .describe],
        (rebuilt.respond request).2 =
          ((Script.after respond session script).respond request).2 := by
  rcases start_eq_ok_iff.mp started with ⟨pattern, compiled, rfl⟩
  have kept := pattern_after
    { pattern := pattern, clock := ⟨readings, 0⟩ } script
  have rebuilt : start pattern.expression otherReadings =
      .ok { pattern := pattern, clock := ⟨otherReadings, 0⟩ } :=
    start_eq_ok_iff.mpr ⟨_, Pattern.compile_expression compiled, rfl⟩
  refine ⟨pattern.expression, _, ?_, rebuilt, rfl,
    fun _ about => respond_of_pattern ?_ about⟩
  · rw [respond, kept]
  · exact kept.symm

end Session

/--
Normalizing loses nothing but gaps.  The text of five words is split into them
again, the normalized expression of a pattern is compiled to it again, and a
session opened with the expression that another one tells, at whatever point of
its script, tells the same about its pattern.
-/
theorem normalization_round_trip (expression : String) :
    (∀ parts : Parts,
      Splits expression.toList (parts.map String.toList).toList →
        Parts.split? expression = some parts ∧
          Parts.split? parts.text = some parts) ∧
    (∀ pattern, Pattern.compile expression = .ok pattern →
      Pattern.compile pattern.expression = .ok pattern) ∧
    ∀ readings session, Session.start expression readings = .ok session →
      ∀ (script : List Request) (otherReadings : List Moment),
        ∃ text rebuilt,
          ((Script.after Session.respond session script).respond
            .expression).2 = .ok (.text text) ∧
          Session.start text otherReadings = .ok rebuilt ∧
          rebuilt.pattern = session.pattern ∧
          ∀ request ∈ [.expression, .pattern, .display, .describe],
            (rebuilt.respond request).2 =
              ((Script.after Session.respond session script).respond
                request).2 := by
  refine ⟨fun parts splits => ?_, fun _ => Pattern.compile_expression,
    fun readings session => Session.exists_rebuilt⟩
  exact ⟨split?_eq_some_iff.mpr splits, split?_text_of_splits splits⟩

/-- Five words with blanks of several kinds around them. -/
def spacedQuarters : String :=
  "\t*/15  9-17\u00a01,15 \u3000* 1-5\n"

/-- The words of `spacedQuarters`. -/
def quarterParts : Parts := ⟨"*/15", "9-17", "1,15", "*", "1-5"⟩

theorem normalization_round_trip_quarters :
    Splits spacedQuarters.toList
        (quarterParts.map String.toList).toList ∧
    quarterParts.text = "*/15 9-17 1,15 * 1-5" ∧
    Parts.split? quarterParts.text = some quarterParts ∧
    ∃ pattern session,
      Pattern.compile spacedQuarters = .ok pattern ∧
      Pattern.compile pattern.expression = .ok pattern ∧
      Session.start spacedQuarters [] = .ok session ∧
      ∃ text rebuilt,
        ((Script.after Session.respond session [.next none]).respond
          .expression).2 = .ok (.text text) ∧
        Session.start text [] = .ok rebuilt ∧
        rebuilt.pattern = session.pattern := by
  have split : Parts.split? spacedQuarters = some quarterParts := by
    decide
  have splits := split?_eq_some_iff.mp split
  obtain ⟨resplits, recompiles, rebuilds⟩ :=
    normalization_round_trip spacedQuarters
  have started : ∃ session,
      Session.start spacedQuarters [] = .ok session := ⟨_, rfl⟩
  rcases started with ⟨session, started⟩
  rcases Session.start_eq_ok_iff.mp started with ⟨pattern, compiled, -⟩
  rcases rebuilds [] session started [.next none] [] with
    ⟨text, rebuilt, told, restarted, same, -⟩
  exact ⟨splits, by decide, (resplits _ splits).2, pattern, session, compiled,
    recompiles pattern compiled, started, text, rebuilt, told, restarted,
    same⟩

end Timetable.Cron
