import Timetable.Cron.Preset
import Timetable.Proofs.Cron.Lenient
import Timetable.Proofs.Cron.Normalization

/-!
# Every pattern has a description

A description is made from the words of an expression alone.  It stalls only at a
name that begins with a number of too many digits, and a pattern has no such
number in any of its fields.  So everything that compiles is described, as it
was written, as it is normalized, and in a session, and no description is empty.

The expression as it was written is looked at twice only: when it is compared
with the named expressions, all of which are normalized, and when no fragment
is left to describe it by.  `compiled_is_described` says that otherwise it is
described as the normalized expression.
-/

namespace Timetable.Cron

open Timetable.Calendar Timetable.Text

/-! ## Fragments -/

theorem timeFragment_ne_empty (minute hour : String) :
    ∀ fragment ∈ timeFragment minute hour, fragment ≠ "" := by
  intro fragment worded
  simp only [timeFragment, Option.mem_def] at worded
  split at worded
  · split at worded
    · cases worded
      simp
    split at worded <;> cases worded <;> simp
  · split at worded
    · cases worded
      simp
    split at worded <;> cases worded
    simp

theorem dayOfMonthFragment_ne_empty (field : String) :
    ∀ fragment ∈ dayOfMonthFragment field, fragment ≠ "" := by
  intro fragment worded
  simp only [dayOfMonthFragment, Option.mem_def] at worded
  split at worded <;> cases worded
  simp

/-- A fragment that is worded by a leading name says as much as its wording. -/
theorem fragment_ne_empty {names : List String} {first : Int}
    {field : String} {worded : Option String → String}
    (speaks : ∀ name, worded name ≠ "") {found : Option String}
    (read : (if field = "*" then .ok none
      else (leadingName names first field).map fun name =>
        some (worded name)) = .ok found) :
    ∀ fragment ∈ found, fragment ≠ "" := by
  split at read
  · cases read
    simp
  · rcases map_eq_ok_iff.mp read with ⟨name, -, rfl⟩
    simpa using speaks name

theorem monthFragment_ne_empty {field : String} {found : Option String}
    (read : monthFragment field = .ok found) :
    ∀ fragment ∈ found, fragment ≠ "" := by
  rw [monthFragment_eq] at read
  refine fragment_ne_empty (fun name => ?_) read
  cases name <;> simp

theorem dayOfWeekFragment_ne_empty {field : String} {found : Option String}
    (read : dayOfWeekFragment field = .ok found) :
    ∀ fragment ∈ found, fragment ≠ "" := by
  rw [dayOfWeekFragment_eq] at read
  refine fragment_ne_empty (fun name => ?_) read
  cases name <;> simp

/-- The fragments that are there say something. -/
theorem Parts.fragments_ne_empty {parts : Parts} {fragments : List String}
    (worded : parts.fragments = .ok fragments) :
    ∀ fragment ∈ fragments, fragment ≠ "" := by
  rcases bind_eq_ok_iff.mp worded with ⟨month, monthRead, worded⟩
  rcases bind_eq_ok_iff.mp worded with ⟨dayOfWeek, weekdayRead, worded⟩
  cases worded
  intro fragment member
  simp only [List.mem_filterMap, id_eq, exists_eq_right, List.mem_cons,
    List.not_mem_nil, or_false] at member
  rcases member with time | day | month | dayOfWeek
  · exact timeFragment_ne_empty _ _ _ time.symm
  · exact dayOfMonthFragment_ne_empty _ _ day.symm
  · exact monthFragment_ne_empty monthRead _ month.symm
  · exact dayOfWeekFragment_ne_empty weekdayRead _ dayOfWeek.symm

/-! ## Descriptions -/

/-- Fragments with spaces between them, or the expression if there are none. -/
def wording (expression : String) (fragments : List String) : String :=
  if fragments = [] then expression else " ".intercalate fragments

theorem wording_ne_empty {expression : String} {fragments : List String}
    (written : expression ≠ "")
    (each : ∀ fragment ∈ fragments, fragment ≠ "") :
    wording expression fragments ≠ "" := by
  match fragments with
  | [] => exact written
  | [fragment] => simpa [wording] using each
  | fragment :: next :: rest =>
      simp [wording, String.append_eq_empty_iff]

section Described

variable {expression : String} {parts : Parts} {fragments : List String}
  (split : Parts.split? expression = some parts)
  (worded : parts.fragments = .ok fragments)

include split worded

theorem describe_eq_wording
    (unnamed : namedExpressions.lookup expression = none) :
    describe expression = .ok (some (wording expression fragments)) := by
  simp only [describe, split, unnamed, worded]
  cases fragments <;> rfl

/-- Five words whose fragments can be read have a description. -/
theorem exists_description :
    ∃ text, describe expression = .ok (some text) ∧ text ≠ "" := by
  have written : expression ≠ "" := by
    rintro rfl
    cases split
  cases named : namedExpressions.lookup expression with
  | none =>
      exact ⟨_, describe_eq_wording split worded named,
        wording_ne_empty written (Parts.fragments_ne_empty worded)⟩
  | some description =>
      have allSpeak : ∀ named ∈ namedExpressions, named.2 ≠ "" := by
        decide
      rcases List.lookup_eq_some_iff.mp named with
        ⟨before, after, splitAt, -⟩
      refine ⟨description, by simp only [describe, split, named], ?_⟩
      exact allSpeak (expression, description) (by simp [splitAt])

end Described

/-- The named expressions are normalized. -/
theorem text_of_named {expression : String} {named : String × String}
    {parts : Parts} (member : named ∈ namedExpressions)
    (same : expression = named.1)
    (split : Parts.split? expression = some parts) :
    parts.text = expression := by
  have normalized : ∀ named ∈ namedExpressions,
      (Parts.split? named.1).map Parts.text = some named.1 := by
    decide
  have found := normalized named member
  rw [← same, split] at found
  exact Option.some.inj found

/-! ## Patterns -/

namespace Pattern

variable {expression : String} {pattern : Pattern}
  (compiled : compile expression = .ok pattern)

include compiled

theorem split?_of_compile :
    Parts.split? expression = some pattern.parts ∧
      Parts.split? pattern.expression = some pattern.parts := by
  have splits := (compile_eq_ok_iff.mp compiled).1
  exact ⟨split?_eq_some_iff.mpr splits, split?_text_of_splits splits⟩

/-- No name in a pattern begins with too many digits. -/
theorem exists_fragments_of_compile :
    ∃ fragments, pattern.parts.fragments = .ok fragments := by
  have splits := (compile_eq_ok_iff.mp compiled).1
  rcases splits_parts pattern.parts splits (shortRuns_of_compile compiled)
    with ⟨-, -, -, month, dayOfWeek⟩
  have flows := not_or.mpr ⟨not_leadsOverlong_of_shortRuns month,
    not_leadsOverlong_of_shortRuns dayOfWeek⟩
  rcases pattern.parts.answers_fragments.2 flows with
    ⟨fragments, worded, -⟩
  exact ⟨fragments, worded⟩

/-- If the normalized expression has no name, neither has the written one. -/
theorem lookup_eq_none_of_compile
    (unnamed : ∀ named ∈ namedExpressions, pattern.expression ≠ named.1) :
    namedExpressions.lookup expression = none ∧
      namedExpressions.lookup pattern.expression = none := by
  simp only [List.lookup_eq_none_iff, bne_iff_ne]
  refine ⟨fun named member same => ?_, unnamed⟩
  have normal := text_of_named member same (split?_of_compile compiled).1
  exact unnamed named member (normal.trans same)

end Pattern

/-! ## Presets -/

/-- Every preset is a normalized expression that compiles. -/
theorem compile_of_mem_presets {preset : Preset}
    (member : preset ∈ presets) :
    ∃ pattern, Pattern.compile preset.expression = .ok pattern ∧
      pattern.expression = preset.expression := by
  have normalized : ∀ preset ∈ presets,
      (Pattern.compile preset.expression).map Pattern.expression =
        .ok preset.expression := by
    decide
  exact map_eq_ok_iff.mp (normalized preset member)

/-- Every preset has a description. -/
theorem description_of_mem_presets {preset : Preset}
    (member : preset ∈ presets) :
    ∃ text, preset.description = .ok (some text) ∧ text ≠ "" := by
  rcases compile_of_mem_presets member with ⟨pattern, compiled, -⟩
  rcases Pattern.exists_fragments_of_compile compiled with
    ⟨fragments, worded⟩
  exact exists_description (Pattern.split?_of_compile compiled).1 worded

/-- No two presets have the same name. -/
theorem nodup_presets : (presets.map Preset.name).Nodup := by
  decide

/-! ## Everything that compiles -/

/--
An expression that compiles has a description, and so has its normalized
expression, which describes it in every session and at every point of its
script.  None of them is empty.

Unless the normalized expression is one of those with a name, both are described
in the same way if there are any fragments to describe them by, and the written
expression by itself if there are none.
-/
theorem compiled_is_described {expression : String} {pattern : Pattern}
    (compiled : Pattern.compile expression = .ok pattern) :
    (∃ text, describe expression = .ok (some text) ∧ text ≠ "") ∧
    (∃ text, describe pattern.expression = .ok (some text) ∧ text ≠ "" ∧
      ∀ readings, ∃ session,
        Session.start expression readings = .ok session ∧
        ∀ script : List Request,
          ((Script.after Session.respond session script).respond
            .describe).2 = .ok (.text text)) ∧
    ((∀ named ∈ namedExpressions, pattern.expression ≠ named.1) →
      ∃ parts fragments,
        Parts.split? pattern.expression = some parts ∧
        parts.fragments = .ok fragments ∧
        (∀ fragment ∈ fragments, fragment ≠ "") ∧
        (fragments ≠ [] →
          describe expression = describe pattern.expression) ∧
        (fragments = [] →
          describe expression = .ok (some expression))) := by
  rcases Pattern.split?_of_compile compiled with ⟨split, resplit⟩
  rcases Pattern.exists_fragments_of_compile compiled with
    ⟨fragments, worded⟩
  rcases exists_description resplit worded with ⟨text, described, speaks⟩
  refine ⟨exists_description split worded,
    ⟨text, described, speaks, fun readings => ?_⟩, fun unnamed => ?_⟩
  · refine ⟨_, Session.start_eq_ok_iff.mpr ⟨pattern, compiled, rfl⟩,
      fun script => ?_⟩
    rw [Session.respond, Session.pattern_after, Pattern.description,
      described]
    rfl
  · rcases Pattern.lookup_eq_none_of_compile compiled unnamed with
      ⟨unlisted, normalUnlisted⟩
    have plain := describe_eq_wording split worded unlisted
    have normal := describe_eq_wording resplit worded normalUnlisted
    refine ⟨pattern.parts, fragments, resplit, worded,
      Parts.fragments_ne_empty worded, fun present => ?_, fun missing => ?_⟩
    · rw [plain, normal, wording, wording, if_neg present, if_neg present]
    · rw [plain, wording, if_pos missing]

/-- The minutes of the hours from nine to five, with blanks of several kinds. -/
def officeMinutes : String := " * 9-17\t* *  *\n"

/-- Nothing is said about such minutes but the expression itself. -/
theorem compiled_is_described_officeMinutes :
    ∃ pattern,
      Pattern.compile officeMinutes = .ok pattern ∧
      pattern.expression = "* 9-17 * * *" ∧
      pattern.parts.fragments = .ok [] ∧
      describe officeMinutes = .ok (some officeMinutes) ∧
      ∃ text session,
        describe pattern.expression = .ok (some text) ∧ text ≠ "" ∧
        Session.start officeMinutes [] = .ok session ∧
        ((Script.after Session.respond session [.next none]).respond
          .describe).2 = .ok (.text text) := by
  have exists_pattern : ∃ pattern,
      Pattern.compile officeMinutes = .ok pattern ∧
        pattern.expression = "* 9-17 * * *" ∧
        pattern.parts.fragments = .ok [] :=
    ⟨_, rfl, by decide, by decide⟩
  rcases exists_pattern with ⟨pattern, compiled, normal, silent⟩
  obtain ⟨-, ⟨text, described, speaks, tells⟩, unnamed⟩ :=
    compiled_is_described compiled
  rcases unnamed (by rw [normal]; decide) with
    ⟨parts, fragments, resplit, worded, -, -, itself⟩
  rcases tells [] with ⟨session, started, answers⟩
  have sameParts : pattern.parts = parts :=
    Option.some.inj ((Pattern.split?_of_compile compiled).2.symm.trans resplit)
  rw [← sameParts, silent] at worded
  cases worded
  exact ⟨pattern, compiled, normal, silent, itself rfl, text, session,
    described, speaks, started, answers _⟩

end Timetable.Cron
