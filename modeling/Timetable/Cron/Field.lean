import Timetable.Bounds

/-!
# Fields of an expression

An expression has five fields, from the minute to the day of the week.  Each
has a name and the bounds between which its numbers lie.  `Fields` holds one
thing of a kind for every field; `Fields.toList` is their order from left to
right.
-/

namespace Timetable.Cron

/-- One thing for each of the five fields. -/
structure Fields (α : Type) where
  minute : α
  hour : α
  dayOfMonth : α
  month : α
  dayOfWeek : α
deriving DecidableEq, Repr

namespace Fields

variable {α β : Type}

/-- The five things from left to right. -/
def toList (fields : Fields α) : List α :=
  [fields.minute, fields.hour, fields.dayOfMonth, fields.month,
    fields.dayOfWeek]

/-- The fields of a list of exactly five things. -/
def ofList? : List α → Option (Fields α)
  | [minute, hour, dayOfMonth, month, dayOfWeek] =>
      some ⟨minute, hour, dayOfMonth, month, dayOfWeek⟩
  | _ => none

/-- Changes each of the five things. -/
def map (change : α → β) (fields : Fields α) : Fields β where
  minute := change fields.minute
  hour := change fields.hour
  dayOfMonth := change fields.dayOfMonth
  month := change fields.month
  dayOfWeek := change fields.dayOfWeek

end Fields

/-- The bounds of the five fields.  Sunday is day 0 of the week. -/
def fieldBounds : Fields Bounds where
  minute := ⟨"minute", 0, 59⟩
  hour := ⟨"hour", 0, 23⟩
  dayOfMonth := ⟨"day_of_month", 1, 31⟩
  month := ⟨"month", 1, 12⟩
  dayOfWeek := ⟨"day_of_week", 0, 6⟩

end Timetable.Cron
