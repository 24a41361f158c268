import Timetable.Cron.Preset
import Timetable.Cron.Session
import Timetable.Rule.Session
import Timetable.Proofs.Cron.Meaning
import Timetable.Proofs.Cron.Search
import Timetable.Proofs.Rule.Range
import Timetable.Proofs.Rule.Search
import Timetable.Proofs.Chain
import Timetable.Proofs.Rule.Generation
import Timetable.Proofs.Cron.Enumeration
import Timetable.Proofs.Rule.Chain
import Timetable.Proofs.Rule.Weekly
import Timetable.Proofs.Rule.Iteration
import Timetable.Proofs.Rule.Scan
import Timetable.Proofs.Rule.Agreement
import Timetable.Proofs.Calendar.Year
import Timetable.Proofs.Rule.Gaps
import Timetable.Proofs.Cron.Gaps
import Timetable.Proofs.Rule.Drift
import Timetable.Proofs.Rule.Instant
import Timetable.Proofs.Rule.Truncation
import Timetable.Proofs.Cron.Lenient
import Timetable.Proofs.Rule.Jump
import Timetable.Proofs.Rule.Guard
import Timetable.Proofs.Draws
import Timetable.Proofs.Clock
import Timetable.Proofs.Cron.Session
import Timetable.Proofs.Rule.Session
import Timetable.Proofs.Session
import Timetable.Proofs.Cron.Canonical
import Timetable.Proofs.Calendar.DayStep
import Timetable.Proofs.Calendar.MonthStep
import Timetable.Proofs.Rule.Nearest
import Timetable.Proofs.Cron.Inverse
import Timetable.Proofs.Cron.Normalization
import Timetable.Proofs.Rule.Density
import Timetable.Proofs.Rule.Validation
import Timetable.Proofs.Cron.Blame
import Timetable.Proofs.Cron.Description
import Timetable.Proofs.Calendar.Turn
import Timetable.Proofs.Rule.Progress
