import Overdue.Json.Writer
import Overdue.KeyedLock.Bench
import Overdue.Service
import Overdue.Settings
import Overdue.Proofs.Evaluation
import Overdue.Proofs.Service
import Overdue.Proofs.Commits
import Overdue.Proofs.Sound
import Overdue.Proofs.History
import Overdue.Proofs.Payload
import Overdue.Proofs.Snapshot
import Overdue.Proofs.FinishFault
import Overdue.Proofs.GradeNote
import Overdue.Proofs.DayCount
import Overdue.Proofs.LocalDay
import Overdue.Proofs.WorkingDays
import Overdue.Proofs.Settlement
import Overdue.Proofs.Assessment
import Overdue.Proofs.Repair
import Overdue.Proofs.GradeScore
import Overdue.Proofs.Standing
import Overdue.Proofs.Sweep
import Overdue.Proofs.Resubmission
import Overdue.Proofs.Overrun
import Overdue.Proofs.Scores
import Overdue.Proofs.Exchange
import Overdue.Proofs.WellFormed
import Overdue.Proofs.Amendments
import Overdue.Proofs.KeyedLock
import Overdue.Proofs.Footprint
import Overdue.Proofs.PenaltyDays
import Overdue.Proofs.Extension
import Overdue.Proofs.Pending
import Overdue.Proofs.Announcement
import Overdue.Proofs.Lateness
import Overdue.Proofs.Published
import Overdue.Proofs.ScoreOrder
import Overdue.Proofs.PenaltyOrder
import Overdue.Proofs.HolidayText
import Overdue.Proofs.HolidayDates
import Overdue.Proofs.HolidayList
import Overdue.Proofs.EntryGrammar
