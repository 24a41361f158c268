import Timetable.Proofs.Rule.Valid
import Timetable.Proofs.Text.Numeral

/-!
# What a draft is refused for

`Draft.Sound` says of each field of a draft what it must hold, without regard to
the order in which the fields are checked.  A draft passes exactly if all its
fields are sound.  Otherwise the check ends in a problem with the first field
that is not, and with the value that is to blame there: what the field holds, or
the first member of a selection that cannot be selected.

A number with too many digits to be written turns that problem into a fault if
the message shows a value that contains it (`Draft.Unwritable`).  No message
about the start or the deadline shows a value, and one about a selection only
shows a member.
-/

namespace Timetable

open Timetable.Calendar Timetable.Text

/-! ## Fields -/

/-- The fields of a draft. -/
inductive DraftField where
  | frequency
  | start
  | interval
  | count
  | deadline
  | byWeekday
  | byMonthDay
  | byMonth
deriving DecidableEq, Repr

namespace DraftField

/-- The fields in the order in which they are checked. -/
def all : List DraftField :=
  [frequency, start, interval, count, deadline, byWeekday, byMonthDay,
    byMonth]

/-- The name by which a problem refers to a field. -/
def name : DraftField → String
  | frequency => "frequency"
  | start => "start_date"
  | interval => "interval"
  | count => "count"
  | deadline => "until"
  | byWeekday => "by_weekday"
  | byMonthDay => "by_month_day"
  | byMonth => "by_month"

end DraftField

/-! ## Sound fields -/

namespace Value

/-- A value is a whole number from 1 on; a truth value is no number. -/
def IsPositive (written : Value) : Prop :=
  ∃ number, written = .whole number ∧ 1 ≤ number

/-- A value is a whole number between two others; a truth value is none. -/
def IsWithin (low high : Int) (written : Value) : Prop :=
  ∃ number, written = .whole number ∧ low ≤ number ∧ number ≤ high

/-- A value is a list of whole numbers between two others. -/
def ListsWithin (low high : Int) (written : Value) : Prop :=
  ∃ items, written = .list items ∧ ∀ item ∈ items, item.IsWithin low high

/--
The value to blame for a selection: the first member of a list that is not
within the bounds, or else what is no list.
-/
def BlamedWithin (low high : Int) (written value : Value) : Prop :=
  match written with
  | .list items =>
      ∃ before after, items = before ++ value :: after ∧
        (∀ earlier ∈ before, earlier.IsWithin low high) ∧
          ¬ value.IsWithin low high
  | _ => value = written

end Value

namespace Draft

/-- What a field of a draft must hold. -/
def Sound (draft : Draft) : DraftField → Prop
  | .frequency => ∃ frequency : Frequency,
      draft.frequency = .proper frequency ∨
        draft.frequency = .odd (.text frequency.name)
  | .start => ∃ start, draft.start = .moment start
  | .interval => draft.interval.IsPositive
  | .count => draft.count = .null ∨ draft.count.IsPositive
  | .deadline => draft.deadline = .null ∨ ∃ start deadline,
      draft.start = .moment start ∧ draft.deadline = .moment deadline ∧
        deadline.isAware = start.isAware ∧ start.Before deadline
  | .byWeekday => draft.byWeekday.ListsWithin 0 6
  | .byMonthDay => draft.byMonthDay.ListsWithin 1 31
  | .byMonth => draft.byMonth.ListsWithin 1 12

/-- The value to blame if a field of a draft is not sound. -/
def Blames (draft : Draft) (value : Value) : DraftField → Prop
  | .frequency => draft.frequency = .odd value
  | .start => value = draft.start
  | .interval => value = draft.interval
  | .count => value = draft.count
  | .deadline => value = draft.deadline
  | .byWeekday => draft.byWeekday.BlamedWithin 0 6 value
  | .byMonthDay => draft.byMonthDay.BlamedWithin 1 31 value
  | .byMonth => draft.byMonth.BlamedWithin 1 12 value

/-- A message about a field shows the value to blame. -/
def Shows (draft : Draft) : DraftField → Prop
  | .frequency => True
  | .start => False
  | .interval => True
  | .count => True
  | .deadline => False
  | .byWeekday => ∃ items, draft.byWeekday = .list items
  | .byMonthDay => ∃ items, draft.byMonthDay = .list items
  | .byMonth => ∃ items, draft.byMonth = .list items

/-- A message about a field shows a value that is too long to be written. -/
def Unwritable (draft : Draft) (field : DraftField) (value : Value) : Prop :=
  draft.Shows field ∧ value.isOverlong = true

/-- A field is not sound, and all fields checked before it are. -/
structure FirstUnsound (draft : Draft) (field : DraftField) : Prop where
  unsound : ¬ draft.Sound field
  first : ∃ before after, DraftField.all = before ++ field :: after ∧
    ∀ earlier ∈ before, draft.Sound earlier

/-- A draft does not pass, because of a field and the value to blame there. -/
structure RefusedFor (draft : Draft) (field : DraftField)
    (value : Value) : Prop where
  passes : draft.passes = .ok false
  problem : ∃ problem, draft.check = .error (.problem problem) ∧
    problem.subject = .rule ∧ problem.field = some field.name ∧
      problem.value = value

/-- No field of a draft contains a number with too many digits. -/
structure Legible (draft : Draft) : Prop where
  frequency : ∀ written, draft.frequency = .odd written →
    written.isOverlong = false
  start : draft.start.isOverlong = false
  interval : draft.interval.isOverlong = false
  count : draft.count.isOverlong = false
  deadline : draft.deadline.isOverlong = false
  byWeekday : draft.byWeekday.isOverlong = false
  byMonthDay : draft.byMonthDay.isOverlong = false
  byMonth : draft.byMonth.isOverlong = false

end Draft

variable {draft : Draft} {error : RuleError}

/-! ## Checks that succeed -/

theorem ofName?_eq_some_iff {name : String} {frequency : Frequency} :
    Frequency.ofName? name = some frequency ↔ frequency.name = name := by
  constructor
  · intro found
    rw [Frequency.ofName?] at found
    simpa using List.find?_some found
  · rintro rfl
    cases frequency <;> rfl

theorem sound_frequency_iff :
    draft.Sound .frequency ↔
      ∃ frequency, validateFrequency draft.frequency = .ok frequency := by
  simp only [Draft.Sound, validateFrequency_eq_ok_iff]
  cases draft.frequency with
  | proper frequency => simp [Frequency.resolve]
  | odd written =>
      cases written with
      | text name =>
          simp only [Frequency.resolve, Held.ofValue, Frequency.ofValue?,
            reduceCtorEq, false_or, Held.odd.injEq, Value.text.injEq]
          refine exists_congr fun frequency => ?_
          rw [eq_comm, ← ofName?_eq_some_iff]
          cases Frequency.ofName? name <;> simp
      | _ => simp [Frequency.resolve, Held.ofValue, Frequency.ofValue?]

theorem sound_start_iff :
    draft.Sound .start ↔ ∃ start, validateStart draft.start = .ok start := by
  simp only [Draft.Sound, validateStart_eq_ok_iff]

theorem sound_interval_iff :
    draft.Sound .interval ↔
      ∃ interval, validateInterval draft.interval = .ok interval := by
  simp only [Draft.Sound, Value.IsPositive, validateInterval_eq_ok_iff]

theorem sound_count_iff :
    draft.Sound .count ↔
      ∃ count, validateCount draft.count = .ok count := by
  simp only [Draft.Sound, Value.IsPositive, validateCount_eq_ok_iff,
    Option.exists, Option.elim_none, Option.elim_some]
  simp

/-- The deadline is checked against a start that was found sound before. -/
theorem sound_deadline_iff {start : Moment}
    (begun : draft.start = .moment start) :
    draft.Sound .deadline ↔
      ∃ deadline, validateDeadline start draft.deadline = .ok deadline := by
  simp only [Draft.Sound, validateDeadline_eq_ok_iff, Option.exists,
    Option.elim_none, Option.elim_some, begun, Value.moment.injEq]
  constructor
  · rintro (absent | ⟨_, deadline, rfl, present, -, later⟩)
    · exact .inl ⟨absent, by simp⟩
    · exact .inr ⟨deadline, present, by simpa using later⟩
  · rintro (⟨absent, -⟩ | ⟨deadline, present, later⟩)
    · exact .inl absent
    · have before := later deadline rfl
      exact .inr ⟨start, deadline, rfl, present, before.1.symm, before⟩

theorem listsWithin_iff (bounds : Bounds) {written : Value} :
    written.ListsWithin bounds.low bounds.high ↔
      ∃ numbers, validateSelection bounds written = .ok numbers := by
  simp only [validateSelection_eq_ok_iff, Value.ListsWithin,
    Value.IsWithin, Bounds.Contains]
  constructor
  · rintro ⟨items, rfl, each⟩
    choose! number isNumber inside using each
    refine ⟨items.map number, ?_, ?_⟩
    · rw [List.map_map, Value.list.injEq]
      exact (List.map_id items).symm.trans
        (List.map_congr_left isNumber)
    · simpa using inside
  · rintro ⟨numbers, rfl, inside⟩
    exact ⟨_, rfl, by simpa using inside⟩

/-! ## Checks that fail -/

/-- An error names a field and blames a value in it. -/
structure RuleError.Names (error : RuleError) (draft : Draft)
    (field : DraftField) : Prop where
  named : error.problem.field = some field.name
  blamed : draft.Blames error.problem.value field
  unwritable_iff :
    error.isUnwritable = true ↔ draft.Unwritable field error.problem.value

theorem subject_problem (error : RuleError) :
    error.problem.subject = .rule := by
  cases error <;> rfl

/-- An error whose message shows no value can be written. -/
theorem unwritable_iff_of_hidden {field : DraftField} {value : Value}
    (writable : error.isUnwritable = false) (hidden : ¬ draft.Shows field) :
    error.isUnwritable = true ↔ draft.Unwritable field value := by
  simp [writable, Draft.Unwritable, hidden]

theorem names_frequency
    (failed : validateFrequency draft.frequency = .error error) :
    error.Names draft .frequency := by
  cases entry : draft.frequency with
  | proper frequency =>
      rw [entry] at failed
      cases failed
  | odd written =>
      have same : error = .frequency written := by
        rw [entry, validateFrequency, Frequency.resolve, Held.ofValue] at failed
        cases recognized : Frequency.ofValue? written <;>
          simp_all
      subst same
      exact ⟨rfl, entry, (and_iff_right trivial).symm⟩

theorem names_start (failed : validateStart draft.start = .error error) :
    error.Names draft .start := by
  rw [validateStart] at failed
  split at failed
  · cases failed
  · cases failed
    exact ⟨rfl, rfl, unwritable_iff_of_hidden rfl id⟩

theorem names_interval
    (failed : validateInterval draft.interval = .error error) :
    error.Names draft .interval := by
  rw [validateInterval] at failed
  split at failed
  · cases failed
  · cases failed
    exact ⟨rfl, rfl, (and_iff_right trivial).symm⟩

theorem names_count (failed : validateCount draft.count = .error error) :
    error.Names draft .count := by
  have present : draft.count ≠ .null := by
    intro absent
    rw [absent] at failed
    cases failed
  rw [validateCount_of_ne_null present] at failed
  split at failed
  · cases failed
  · cases failed
    exact ⟨rfl, rfl, (and_iff_right trivial).symm⟩

theorem names_deadline {start : Moment}
    (failed : validateDeadline start draft.deadline = .error error) :
    error.Names draft .deadline := by
  unfold validateDeadline at failed
  split at failed
  · cases failed
  · next deadline present =>
      split at failed <;> cases failed <;>
        exact ⟨rfl, present.symm, unwritable_iff_of_hidden rfl id⟩
  · cases failed
    exact ⟨rfl, rfl, unwritable_iff_of_hidden rfl id⟩

/-- The members before the one that an error blames can be selected. -/
theorem validateSelected_error {bounds : Bounds} {items : List Value}
    (failed : validateSelected bounds items = .error error) :
    ∃ value, error = .selected bounds value ∧
      (Value.list items).BlamedWithin bounds.low bounds.high value := by
  induction items with
  | nil => cases failed
  | cons item rest induction =>
      by_cases admitted : item.IsWithin bounds.low bounds.high
      · rcases admitted with ⟨number, rfl, inside⟩
        have contained : bounds.Contains number := inside
        rw [validateSelected, if_pos contained, map_eq_error_iff] at failed
        rcases induction failed with
          ⟨value, rfl, before, after, rfl, each, refused⟩
        refine ⟨value, rfl, .whole number :: before, after, rfl, ?_, refused⟩
        intro earlier member
        rcases List.mem_cons.mp member with rfl | member
        · exact ⟨number, rfl, inside⟩
        · exact each earlier member
      · refine ⟨item, ?_, [], rest, rfl, by simp, admitted⟩
        cases item with
        | whole number =>
            have outside : ¬ bounds.Contains number := fun inside =>
              admitted ⟨number, rfl, inside⟩
            rw [validateSelected, if_neg outside] at failed
            exact (Except.error.inj failed).symm
        | _ => exact (Except.error.inj failed).symm

theorem names_selection {bounds : Bounds} {written : Value}
    {field : DraftField} (sameName : bounds.name = field.name)
    (blames : ∀ value, written.BlamedWithin bounds.low bounds.high value →
      draft.Blames value field)
    (shows_iff : draft.Shows field ↔ ∃ items, written = .list items)
    (failed : validateSelection bounds written = .error error) :
    error.Names draft field := by
  cases written with
  | list items =>
      rcases validateSelected_error failed with ⟨value, rfl, blamed⟩
      have shown : draft.Shows field := shows_iff.mpr ⟨items, rfl⟩
      exact ⟨congrArg some sameName, blames value blamed,
        (and_iff_right shown).symm⟩
  | _ =>
      cases failed
      refine ⟨congrArg some sameName, blames _ rfl,
        unwritable_iff_of_hidden rfl ?_⟩
      simp [shows_iff]

/--
A chain of checks that has found all fields so far sound ends at the next field,
which is then the first that is not, or goes on with one more sound field.
-/
theorem ends_or_goesOn {α β : Type} {outcome : Except RuleError α}
    {next : α → Except RuleError β} {before after : List DraftField}
    (field : DraftField)
    (sound_iff : draft.Sound field ↔ ∃ result, outcome = .ok result)
    (names : outcome = .error error → error.Names draft field)
    (order : DraftField.all = before ++ field :: after)
    (sound : ∀ earlier ∈ before, draft.Sound earlier)
    (refused : outcome >>= next = .error error) :
    (∃ field, draft.FirstUnsound field ∧ error.Names draft field) ∨
      ∃ result, outcome = .ok result ∧
        (∀ earlier ∈ before ++ [field], draft.Sound earlier) ∧
          next result = .error error := by
  rcases bind_eq_error_iff.mp refused with failed | ⟨result, passed, refused⟩
  · have unsound : ¬ draft.Sound field := by
      rw [sound_iff, failed]
      simp
    exact .inl ⟨field, ⟨unsound, before, after, order, sound⟩, names failed⟩
  · refine .inr ⟨result, passed, fun earlier member => ?_, refused⟩
    rcases List.mem_append.mp member with member | member
    · exact sound earlier member
    · rw [List.mem_singleton.mp member]
      exact sound_iff.mpr ⟨result, passed⟩

/-- The error of a refused draft names its first field that is not sound. -/
theorem exists_firstUnsound (refused : draft.validate = .error error) :
    ∃ field, draft.FirstUnsound field ∧ error.Names draft field := by
  rw [Draft.validate] at refused
  have sound : ∀ field ∈ ([] : List DraftField), draft.Sound field := by simp
  rcases ends_or_goesOn .frequency sound_frequency_iff names_frequency rfl
      sound refused with found | ⟨frequency, -, sound, refused⟩
  · exact found
  rcases ends_or_goesOn .start sound_start_iff names_start rfl sound
      refused with found | ⟨start, startOk, sound, refused⟩
  · exact found
  rcases ends_or_goesOn .interval sound_interval_iff names_interval rfl sound
      refused with found | ⟨interval, -, sound, refused⟩
  · exact found
  rcases ends_or_goesOn .count sound_count_iff names_count rfl sound
      refused with found | ⟨count, -, sound, refused⟩
  · exact found
  have begun := validateStart_eq_ok_iff.mp startOk
  rcases ends_or_goesOn .deadline (sound_deadline_iff begun) names_deadline
      rfl sound refused with found | ⟨deadline, -, sound, refused⟩
  · exact found
  rcases ends_or_goesOn .byWeekday (listsWithin_iff weekdayBounds)
      (names_selection rfl (fun _ => id) Iff.rfl) rfl sound refused with
    found | ⟨byWeekday, -, sound, refused⟩
  · exact found
  rcases ends_or_goesOn .byMonthDay (listsWithin_iff monthDayBounds)
      (names_selection rfl (fun _ => id) Iff.rfl) rfl sound refused with
    found | ⟨byMonthDay, -, sound, refused⟩
  · exact found
  rcases ends_or_goesOn .byMonth (listsWithin_iff monthBounds)
      (names_selection rfl (fun _ => id) Iff.rfl) rfl sound refused with
    found | ⟨byMonth, -, -, accepted⟩
  · exact found
  · cases accepted

/-- The fields of an accepted draft are sound. -/
theorem sound_of_validate {plan : Plan} (accepted : draft.validate = .ok plan)
    (field : DraftField) : draft.Sound field := by
  simp only [Draft.validate, bind_eq_ok_iff] at accepted
  obtain ⟨frequency, frequencyOk, start, startOk, interval, intervalOk, count,
    countOk, deadline, deadlineOk, byWeekday, byWeekdayOk, byMonthDay,
    byMonthDayOk, byMonth, byMonthOk, -⟩ := accepted
  have begun := validateStart_eq_ok_iff.mp startOk
  cases field with
  | frequency => exact sound_frequency_iff.mpr ⟨frequency, frequencyOk⟩
  | start => exact sound_start_iff.mpr ⟨start, startOk⟩
  | interval => exact sound_interval_iff.mpr ⟨interval, intervalOk⟩
  | count => exact sound_count_iff.mpr ⟨count, countOk⟩
  | deadline => exact (sound_deadline_iff begun).mpr ⟨deadline, deadlineOk⟩
  | byWeekday =>
      exact (listsWithin_iff weekdayBounds).mpr ⟨byWeekday, byWeekdayOk⟩
  | byMonthDay =>
      exact (listsWithin_iff monthDayBounds).mpr ⟨byMonthDay, byMonthDayOk⟩
  | byMonth => exact (listsWithin_iff monthBounds).mpr ⟨byMonth, byMonthOk⟩

/-- The drafts that describe a plan are those whose fields are all sound. -/
theorem exists_validate_iff :
    (∃ plan, draft.validate = .ok plan) ↔ ∀ field, draft.Sound field := by
  constructor
  · rintro ⟨plan, accepted⟩
    exact sound_of_validate accepted
  · intro sound
    cases validated : draft.validate with
    | ok plan => exact ⟨plan, rfl⟩
    | error error =>
        rcases exists_firstUnsound validated with ⟨field, first, -⟩
        exact absurd (sound field) first.unsound

/-! ## Numbers that are too long -/

theorem isOverlong_of_mem {items : List Value} {item : Value}
    (short : Value.anyOverlong items = false) (member : item ∈ items) :
    item.isOverlong = false := by
  induction items with
  | nil => cases member
  | cons first rest induction =>
      rw [Value.anyOverlong, Bool.or_eq_false_iff] at short
      rcases List.mem_cons.mp member with rfl | member
      · exact short.1
      · exact induction short.2 member

theorem isOverlong_of_blamedWithin {low high : Int} {written value : Value}
    (short : written.isOverlong = false)
    (blamed : written.BlamedWithin low high value) :
    value.isOverlong = false := by
  cases written with
  | list items =>
      rcases blamed with ⟨before, after, rfl, -⟩
      exact isOverlong_of_mem short (by simp)
  | _ =>
      cases blamed
      exact short

/-- The value blamed for a legible draft can be written. -/
theorem Draft.Legible.isOverlong_of_blames (legible : draft.Legible)
    {field : DraftField} {value : Value} (blamed : draft.Blames value field) :
    value.isOverlong = false := by
  cases field with
  | frequency => exact legible.frequency value blamed
  | start => exact blamed ▸ legible.start
  | interval => exact blamed ▸ legible.interval
  | count => exact blamed ▸ legible.count
  | deadline => exact blamed ▸ legible.deadline
  | byWeekday => exact isOverlong_of_blamedWithin legible.byWeekday blamed
  | byMonthDay => exact isOverlong_of_blamedWithin legible.byMonthDay blamed
  | byMonth => exact isOverlong_of_blamedWithin legible.byMonth blamed

/-! ## Answers -/

theorem exists_check_iff :
    (∃ plan, draft.check = .ok plan) ↔ ∀ field, draft.Sound field := by
  simp only [Draft.check, mapError_eq_ok_iff]
  exact exists_validate_iff

theorem passes_iff : draft.passes = .ok true ↔ ∀ field, draft.Sound field := by
  rw [← exists_check_iff, Draft.passes]
  rcases draft.check with (problem | fault) | plan <;>
    simp [lenient, Except.map]

theorem check_of_ok {plan : Plan} (accepted : draft.validate = .ok plan) :
    draft.check = .ok plan :=
  mapError_eq_ok_iff.mpr accepted

theorem check_of_error (refused : draft.validate = .error error) :
    draft.check = .error error.failure :=
  mapError_eq_error_iff.mpr ⟨error, refused, rfl⟩

/-- The answer to a draft that has an error, and what the error tells. -/
theorem exists_refusedFor (refused : draft.validate = .error error) :
    ∃ field value, draft.FirstUnsound field ∧ draft.Blames value field ∧
      (¬ draft.Unwritable field value → draft.RefusedFor field value) ∧
      (draft.Unwritable field value →
        draft.passes = .error .numeralTooLong ∧
          draft.check = .error (.fault .numeralTooLong)) := by
  rcases exists_firstUnsound refused with
    ⟨field, first, named, blamed, unwritable_iff⟩
  have checked := check_of_error refused
  rw [RuleError.failure] at checked
  refine ⟨field, _, first, blamed, fun writable => ?_, fun unwritable => ?_⟩
  · rw [if_neg (mt unwritable_iff.mp writable)] at checked
    refine ⟨?_, _, checked, subject_problem error, named, rfl⟩
    rw [Draft.passes, checked]
    rfl
  · rw [if_pos (unwritable_iff.mpr unwritable)] at checked
    refine ⟨?_, checked⟩
    rw [Draft.passes, checked]
    rfl

/-- A draft that can be written is answered. -/
theorem Draft.Legible.answered (legible : draft.Legible) :
    (∃ answer, draft.passes = .ok answer) ∧
      ∀ fault, draft.check ≠ .error (.fault fault) := by
  cases validated : draft.validate with
  | ok plan =>
      refine ⟨⟨true, passes_iff.mpr (sound_of_validate validated)⟩,
        fun fault => ?_⟩
      rw [check_of_ok validated]
      simp
  | error error =>
      rcases exists_refusedFor validated with
        ⟨field, value, -, blamed, refusal, -⟩
      have writable : ¬ draft.Unwritable field value := by
        rintro ⟨-, overlong⟩
        rw [legible.isOverlong_of_blames blamed] at overlong
        cases overlong
      rcases refusal writable with ⟨refused, problem, checked, -⟩
      refine ⟨⟨false, refused⟩, fun fault => ?_⟩
      rw [checked]
      simp

/--
A draft passes its check exactly if every field holds what it must, and then it
describes a plan.  Otherwise the answer is no, and the problem names the first
field that does not and the value to blame there; both are a fault instead if
the message shows that value and it contains a number that is too long.  A draft
without such numbers is always answered.
-/
theorem check_refuses_first_unsound (draft : Draft) :
    (draft.passes = .ok true ↔ ∀ field, draft.Sound field) ∧
    ((∃ plan, draft.check = .ok plan) ↔ ∀ field, draft.Sound field) ∧
    ((∃ field, ¬ draft.Sound field) →
      ∃ field value, draft.FirstUnsound field ∧ draft.Blames value field ∧
        (¬ draft.Unwritable field value → draft.RefusedFor field value) ∧
        (draft.Unwritable field value →
          draft.passes = .error .numeralTooLong ∧
            draft.check = .error (.fault .numeralTooLong))) ∧
    (draft.Legible →
      (∃ answer, draft.passes = .ok answer) ∧
        ∀ fault, draft.check ≠ .error (.fault fault)) := by
  refine ⟨passes_iff, exists_check_iff, ?_, Draft.Legible.answered⟩
  rintro ⟨field, unsound⟩
  cases validated : draft.validate with
  | ok plan => exact absurd (sound_of_validate validated field) unsound
  | error error => exact exists_refusedFor validated

/-- Saturdays, or what is no weekday, in a month that is written out. -/
def oddWeekdays : Draft where
  frequency := .odd (.text "weekly")
  start := .moment { ticks := 63840128400000000, offset := none }
  byWeekday := .list [.whole 6, .truth true, .whole 9]
  byMonth := .text "May"

/-- Daily steps backwards, too many days to be written. -/
def longInterval : Draft where
  frequency := .odd (.text "daily")
  start := .moment newYear
  interval := .whole (-leastOverlong)

theorem not_sound_longInterval : ¬ longInterval.Sound .interval := by
  rintro ⟨number, isNumber, positive⟩
  have same : -(leastOverlong : Int) = number := Value.whole.inj isNumber
  omega

theorem check_refuses_first_unsound_oddWeekdays :
    oddWeekdays.Legible ∧
    ¬ oddWeekdays.Sound .byWeekday ∧ ¬ oddWeekdays.Sound .byMonth ∧
    oddWeekdays.passes = .ok false ∧
    (∃ field value, oddWeekdays.FirstUnsound field ∧
      oddWeekdays.Blames value field ∧ ¬ oddWeekdays.Unwritable field value ∧
        field.name = "by_weekday" ∧ value = .truth true) ∧
    ¬ longInterval.Sound .interval ∧
    ∃ field value, longInterval.FirstUnsound field ∧
      longInterval.Blames value field ∧ longInterval.Unwritable field value ∧
        longInterval.passes = .error .numeralTooLong := by
  have short {number : Int} (small : number.natAbs < 100) :
      (Value.whole number).isOverlong = false := overlong_of_twoDigits small
  have legible : oddWeekdays.Legible := by
    refine ⟨?_, rfl, short (by decide), rfl, rfl, ?_, rfl, rfl⟩
    · rintro written ⟨⟩
      rfl
    · simp [oddWeekdays, Value.isOverlong, Value.anyOverlong,
        overlong_of_twoDigits]
  have unsound : ¬ oddWeekdays.Sound .byWeekday := by
    simp [Draft.Sound, oddWeekdays, Value.ListsWithin, Value.IsWithin]
  have monthUnsound : ¬ oddWeekdays.Sound .byMonth := by
    simp [Draft.Sound, oddWeekdays, Value.ListsWithin]
  rcases (check_refuses_first_unsound oddWeekdays).2.2.1 ⟨_, unsound⟩ with
    ⟨field, value, first, blamed, refusal, -⟩
  have writable : ¬ oddWeekdays.Unwritable field value := by
    rintro ⟨-, overlong⟩
    rw [legible.isOverlong_of_blames blamed] at overlong
    cases overlong
  rcases refusal writable with ⟨refused, problem, checked, -, named, rfl⟩
  have written : oddWeekdays.check =
      .error (.problem
        (RuleError.selected weekdayBounds (.truth true)).problem) := rfl
  rw [written] at checked
  cases checked
  rcases (check_refuses_first_unsound longInterval).2.2.1
    ⟨_, not_sound_longInterval⟩ with
    ⟨longField, longValue, longFirst, longBlamed, -, faults⟩
  have unwritable : longInterval.Unwritable longField longValue := by
    cases longField with
    | frequency => exact absurd ⟨.daily, .inr rfl⟩ longFirst.unsound
    | interval =>
        obtain rfl : longValue = _ := longBlamed
        refine ⟨trivial, ?_⟩
        rw [longInterval, Value.isOverlong, overlong_neg]
        exact overlong_leastOverlong
    | _ =>
        -- No other field is wrong.
        refine absurd ?_ longFirst.unsound
        simp [Draft.Sound, longInterval, Value.ListsWithin]
  exact ⟨legible, unsound, monthUnsound, refused,
    ⟨field, _, first, blamed, writable, (Option.some.inj named).symm, rfl⟩,
    not_sound_longInterval, longField, longValue, longFirst, longBlamed,
    unwritable, (faults unwritable).1⟩

/-- Every day from half past ten on, to half past nine in another zone. -/
def crossedZones : Draft where
  frequency := .odd (.text "daily")
  start := .moment { ticks := 63839701800000000, offset := some 120 }
  deadline := .moment { ticks := 63839698200000000, offset := some 0 }

/--
A draft with an interval that is too long to be written is not answered.  A
deadline that is earlier than the start on the wall clock passes if it is later
as an instant.
-/
theorem longInterval_not_answered :
    (∃ field, ¬ longInterval.Sound field) ∧
    longInterval.passes = .error .numeralTooLong ∧
    longInterval.check = .error (.fault .numeralTooLong) ∧
    crossedZones.passes = .ok true := by
  have refused : longInterval.validate =
      .error (.interval (.whole (-leastOverlong))) := by
    have small : ¬ (1 : Int) ≤ -leastOverlong := by omega
    have rejected : validateInterval longInterval.interval =
        .error (.interval (.whole (-leastOverlong))) := by
      rw [longInterval, validateInterval, Value.positive?, if_neg small]
    rw [Draft.validate, rejected]
    rfl
  have unwritable : (RuleError.interval (.whole (-leastOverlong))).isUnwritable
      = true := by
    rw [RuleError.isUnwritable, Value.isOverlong, overlong_neg]
    exact overlong_leastOverlong
  have checked : longInterval.check = .error (.fault .numeralTooLong) := by
    rw [check_of_error refused, RuleError.failure, if_pos unwritable]
  refine ⟨⟨_, not_sound_longInterval⟩, ?_, checked, rfl⟩
  rw [Draft.passes, checked]
  rfl

end Timetable
