import Overdue.Holiday
import Overdue.Zone

/-! The working-day calendar: a day does not count where the clocks of the calendar's zone show a weekend or one of
its holidays. -/
namespace Overdue

structure Calendar where
  holidays : List Date
  zone : Zone
deriving DecidableEq

namespace Calendar

/-- Holidays are read before the zone is looked up. -/
def ofConfig (holidays : HolidayList) (zone : String) : Except ConfigError Calendar := do
  let holidays ← holidays.parse
  match Zone.ofName? zone with
  | some zone => .ok ⟨holidays, zone⟩
  | none => .error (.zone zone)

def dateAt (calendar : Calendar) (utc : Reading) : Except Failure Date := (calendar.zone.wall utc).map Reading.date

def localDate (calendar : Calendar) (instant : Timestamp) : Except Failure Date := do
  calendar.dateAt (← instant.utc)

def isHoliday (calendar : Calendar) (date : Date) : Bool := calendar.holidays.contains date

def isNonWorking (calendar : Calendar) (date : Date) : Bool := date.isWeekend || calendar.isHoliday date

def text (calendar : Calendar) : String :=
  "HolidayCalendar(holidays=" ++ toString calendar.holidays.length ++ ", tz=" ++ calendar.zone.name ++ ")"

end Calendar
end Overdue
