import Timetable.Cron.Description

/-!
# Named expressions

Expressions in common use have names.  The list is in the order of the names.
-/

namespace Timetable.Cron

/-- A name for an expression. -/
structure Preset where
  name : String
  expression : String
deriving DecidableEq, Repr

/-- The named expressions in the order of their names. -/
def presets : List Preset :=
  [⟨"every_15_minutes", "*/15 * * * *"⟩,
    ⟨"every_30_minutes", "*/30 * * * *"⟩,
    ⟨"every_5_minutes", "*/5 * * * *"⟩,
    ⟨"every_day", "0 0 * * *"⟩,
    ⟨"every_day_at_6pm", "0 18 * * *"⟩,
    ⟨"every_day_at_9am", "0 9 * * *"⟩,
    ⟨"every_hour", "0 * * * *"⟩,
    ⟨"every_minute", "* * * * *"⟩,
    ⟨"every_month", "0 0 1 * *"⟩,
    ⟨"every_week", "0 0 * * 0"⟩,
    ⟨"every_year", "0 0 1 1 *"⟩,
    ⟨"weekdays", "0 0 * * 1-5"⟩,
    ⟨"weekends", "0 0 * * 0,6"⟩]

/-- What a preset means in words. -/
def Preset.description (preset : Preset) : Except Fault (Option String) :=
  describe preset.expression

end Timetable.Cron
